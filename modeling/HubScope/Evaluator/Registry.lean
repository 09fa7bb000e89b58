import HubScope.Lib.Transition
import Mathlib.Data.List.Basic
import Mathlib.Logic.Function.Basic

/-!
# The registry of cancel functions

Every execution registers the cancel function of its context under its campaign, and drops the
campaign's entry when it returns. An operator's cancel takes the entry out and calls it. The
registry has one entry for each campaign, so an execution that registers beside another one
takes its entry over, and one that returns drops the entry of whoever registered last.

## Main definitions

* `Registry`, `registryStep` — the registry and the executions of one process
* `Registry.cancelCampaign` — the operator's cancel
* `Cancelable` — an operator can cancel every execution
* `Sole` — no second execution of the campaign is running uncanceled

## Main results

* `cancelable_of_reach` — every execution can be canceled, in every run whose registrations
  and returns are sole, and the next one keeps it so just when it is sole
-/

set_option autoImplicit false

namespace HubScope

/-- Where an execution stands: its request was accepted, it registered, or it returned. -/
inductive ExecutionStage
  | accepted
  | registered
  | returned
  deriving DecidableEq, Repr

/-- An execution of a campaign; `canceled` tells whether its context was canceled through the
registry. -/
structure Execution where
  campaignId : ℕ
  stage : ExecutionStage
  canceled : Bool
  deriving DecidableEq, Repr

/-- The execution is running and was not canceled. -/
def Execution.live (e : Execution) : Bool := e.stage = .registered ∧ ¬ e.canceled

/-- The map from campaigns to the execution whose cancel function it holds, and all executions
of the process. -/
structure Registry where
  cancels : ℕ → Option ℕ
  executions : List Execution

/-- A request is accepted, an execution registers or returns, an operator cancels a campaign. -/
inductive RegistryLabel
  | accept (campaignId : ℕ) (liveRetry : Bool)
  | register (i : ℕ)
  | unregister (i : ℕ)
  | cancel (campaignId : ℕ)

namespace Registry

/-- Whether the campaign is executing on this process. -/
def isExecuting (s : Registry) (campaignId : ℕ) : Bool := (s.cancels campaignId).isSome

/-- Record the cancel function of execution `i`. -/
def registerCancel (s : Registry) (campaignId i : ℕ) : Registry :=
  { s with cancels := Function.update s.cancels campaignId (some i) }

/-- Drop the campaign's entry. -/
def unregisterCancel (s : Registry) (campaignId : ℕ) : Registry :=
  { s with cancels := Function.update s.cancels campaignId none }

/-- Take the campaign's entry out and call it. The second component tells whether there was
one. -/
def cancelCampaign (s : Registry) (campaignId : ℕ) : Registry × Bool :=
  match s.cancels campaignId with
  | some i =>
    ({ s with
        cancels := Function.update s.cancels campaignId none
        executions := s.executions.modify i fun e => { e with canceled := true } }, true)
  | none => (s, false)

end Registry

/-- One step of the process. A live retry is accepted only while its campaign is executing. -/
def registryStep (s : Registry) : RegistryLabel → Option Registry
  | .accept campaignId liveRetry =>
    if liveRetry ∧ ¬ s.isExecuting campaignId then none
    else some { s with executions := s.executions ++ [⟨campaignId, .accepted, false⟩] }
  | .register i =>
    s.executions[i]?.bind fun e =>
      if e.stage = .accepted then
        some { s.registerCancel e.campaignId i with
          executions := s.executions.set i { e with stage := .registered } }
      else none
  | .unregister i =>
    s.executions[i]?.bind fun e =>
      if e.stage = .registered then
        some { s.unregisterCancel e.campaignId with
          executions := s.executions.set i { e with stage := .returned } }
      else none
  | .cancel campaignId => some (s.cancelCampaign campaignId).1

/-- A process that has executed nothing. -/
def Registry.empty : Registry := ⟨fun _ => none, []⟩

/-- Canceling its campaign cancels every running execution that is not canceled yet. -/
def Cancelable (s : Registry) : Prop :=
  ∀ (i : ℕ) (e : Execution), s.executions[i]? = some e → e.live →
    (s.cancelCampaign e.campaignId).2 = true ∧
      ∃ e' : Execution, (s.cancelCampaign e.campaignId).1.executions[i]? = some e' ∧ e'.canceled = true

/-- An execution registers or returns only while no other execution of its campaign is running
uncanceled. -/
def Sole (s : Registry) : RegistryLabel → Prop
  | .register i | .unregister i =>
    ∀ (j : ℕ) (e e' : Execution), s.executions[i]? = some e → s.executions[j]? = some e' → j ≠ i →
      e'.campaignId = e.campaignId → e'.live = false
  | .accept _ _ | .cancel _ => True

instance (s : Registry) (a : RegistryLabel) : Decidable (Sole s a) :=
  match a with
  | .register i | .unregister i =>
    decidable_of_iff (∀ e ∈ s.executions[i]?, ∀ j < s.executions.length, ∀ e' ∈ s.executions[j]?,
        j ≠ i → e'.campaignId = e.campaignId → e'.live = false)
      ⟨fun h j e e' hi hj => h e hi j (List.getElem?_eq_some_iff.mp hj).1 e' hj,
        fun h e hi j _ e' hj => h j e e' hi hj⟩
  | .accept _ _ | .cancel _ => inferInstanceAs (Decidable True)

/-! ### Entries -/

variable {s s' : Registry}

/-- The registry holds the cancel function of every running execution not canceled yet. -/
def Entered (s : Registry) : Prop :=
  ∀ (i : ℕ) (e : Execution), s.executions[i]? = some e → e.live → s.cancels e.campaignId = some i

theorem live_iff {e : Execution} : e.live = true ↔ e.stage = .registered ∧ e.canceled = false := by
  simp [Execution.live]

theorem getElem?_modify_cancel (es : List Execution) (i j : ℕ) :
    (es.modify i fun e => { e with canceled := true })[j]? =
      es[j]?.map fun e => if i = j then { e with canceled := true } else e := by
  rw [List.getElem?_modify]
  rcases es[j]? with _ | e
  · rfl
  · by_cases hij : i = j <;> simp [hij]

/-- An operator reaches an execution just when the registry holds its cancel function. -/
theorem cancelable_iff : Cancelable s ↔ Entered s := by
  refine forall₄_congr fun i e hi hlive => ?_
  have hrunning := (live_iff.mp hlive).2
  unfold Registry.cancelCampaign
  cases hentry : s.cancels e.campaignId with
  | none => simp
  | some j =>
    simp only [getElem?_modify_cancel, hi, Option.map_some, Option.some.injEq]
    constructor
    · rintro ⟨-, e', rfl, hcanceled⟩
      by_contra hne
      rw [if_neg hne, hrunning] at hcanceled
      cases hcanceled
    · rintro rfl
      exact ⟨trivial, _, rfl, by rw [if_pos rfl]⟩

theorem entered_register {i : ℕ} (h : Entered s) (hsole : Sole s (.register i))
    (hstep : registryStep s (.register i) = some s') : Entered s' := by
  obtain ⟨e, hi, hif⟩ := Option.bind_eq_some_iff.mp hstep
  obtain ⟨-, heq⟩ := Option.ite_none_right_eq_some.mp hif
  cases heq
  intro j e' hj hlive
  change (s.executions.set i _)[j]? = some e' at hj
  change Function.update s.cancels e.campaignId (some i) e'.campaignId = some j
  by_cases hji : j = i
  · subst hji
    rw [List.getElem?_set_self (List.getElem?_eq_some_iff.mp hi).1] at hj
    cases hj
    rw [Function.update_self]
  · rw [List.getElem?_set_ne (Ne.symm hji)] at hj
    rw [Function.update_of_ne]
    · exact h j e' hj hlive
    · intro hcampaign
      rw [hsole j e e' hi hj hji hcampaign] at hlive
      cases hlive

theorem entered_unregister {i : ℕ} (h : Entered s) (hsole : Sole s (.unregister i))
    (hstep : registryStep s (.unregister i) = some s') : Entered s' := by
  obtain ⟨e, hi, hif⟩ := Option.bind_eq_some_iff.mp hstep
  obtain ⟨-, heq⟩ := Option.ite_none_right_eq_some.mp hif
  cases heq
  intro j e' hj hlive
  change (s.executions.set i _)[j]? = some e' at hj
  change Function.update s.cancels e.campaignId none e'.campaignId = some j
  by_cases hji : j = i
  · -- the execution that returned is not running any more
    subst hji
    rw [List.getElem?_set_self (List.getElem?_eq_some_iff.mp hi).1] at hj
    cases hj
    cases hlive
  · rw [List.getElem?_set_ne (Ne.symm hji)] at hj
    rw [Function.update_of_ne]
    · exact h j e' hj hlive
    · intro hcampaign
      rw [hsole j e e' hi hj hji hcampaign] at hlive
      cases hlive

theorem entered_cancel {c : ℕ} (h : Entered s) : Entered (s.cancelCampaign c).1 := by
  unfold Registry.cancelCampaign
  cases hentry : s.cancels c with
  | none => exact h
  | some i =>
    intro j e' hj hlive
    simp only [getElem?_modify_cancel, Option.map_eq_some_iff] at hj
    obtain ⟨e, hj, rfl⟩ := hj
    by_cases hij : i = j
    · rw [if_pos hij, live_iff] at hlive
      cases hlive.2
    · rw [if_neg hij] at hlive ⊢
      have hcancels := h j e hj hlive
      change Function.update s.cancels c none e.campaignId = some j
      rw [Function.update_of_ne]
      · exact hcancels
      · rintro rfl
        rw [hentry] at hcancels
        exact hij (Option.some.inj hcancels)

theorem entered_step {a : RegistryLabel} (h : Entered s) (hsole : Sole s a)
    (hstep : registryStep s a = some s') : Entered s' := by
  cases a with
  | accept c liveRetry =>
    obtain ⟨-, heq⟩ := Option.ite_none_left_eq_some.mp hstep
    cases heq
    intro i e hi hlive
    rcases Nat.lt_or_ge i s.executions.length with hlt | hle
    · exact h i e ((List.getElem?_append_left hlt).symm.trans hi) hlive
    · -- an accepted request is not running yet
      have hnew := (List.getElem?_append_right hle).symm.trans hi
      rw [List.mem_singleton.mp (List.mem_of_getElem? hnew)] at hlive
      cases hlive
  | register i => exact entered_register h hsole hstep
  | unregister i => exact entered_unregister h hsole hstep
  | cancel c =>
    cases hstep
    exact entered_cancel h

/-- A registration or a return beside a running execution loses its entry. -/
theorem sole_of_entered {a : RegistryLabel} (hstep : registryStep s a = some s')
    (h' : Entered s') : Sole s a := by
  cases a with
  | accept | cancel => trivial
  | register i =>
    obtain ⟨e, hi, hif⟩ := Option.bind_eq_some_iff.mp hstep
    obtain ⟨-, heq⟩ := Option.ite_none_right_eq_some.mp hif
    cases heq
    intro j e₀ e' hi' hj hji hcampaign
    obtain rfl : e = e₀ := Option.some.inj (hi.symm.trans hi')
    by_contra hlive
    rw [Bool.not_eq_false] at hlive
    -- the entry names the new execution, so no other of the campaign is entered
    have hentry := h' j e' ((List.getElem?_set_ne (Ne.symm hji)).trans hj) hlive
    change Function.update s.cancels e.campaignId (some i) e'.campaignId = some j at hentry
    rw [hcampaign, Function.update_self] at hentry
    exact hji (Option.some.inj hentry).symm
  | unregister i =>
    obtain ⟨e, hi, hif⟩ := Option.bind_eq_some_iff.mp hstep
    obtain ⟨-, heq⟩ := Option.ite_none_right_eq_some.mp hif
    cases heq
    intro j e₀ e' hi' hj hji hcampaign
    obtain rfl : e = e₀ := Option.some.inj (hi.symm.trans hi')
    by_contra hlive
    rw [Bool.not_eq_false] at hlive
    have hentry := h' j e' ((List.getElem?_set_ne (Ne.symm hji)).trans hj) hlive
    change Function.update s.cancels e.campaignId none e'.campaignId = some j at hentry
    rw [hcampaign, Function.update_self] at hentry
    cases hentry

theorem entered_of_reach (h : Transition.Reach registryStep Sole .empty s) : Entered s := by
  refine h.invariant ?_ fun _ _ _ ht ha hstep => entered_step ht ha hstep
  intro i e hi
  cases hi

/-- **Cancel reachability.** In every run whose registrations and returns are sole an operator
can cancel every running execution, and the step that comes next keeps it so just when it is
sole. -/
theorem cancelable_of_reach (h : Transition.Reach registryStep Sole .empty s) :
    Cancelable s ∧
      ∀ a s', registryStep s a = some s' → (Cancelable s' ↔ Sole s a) := by
  have hs := entered_of_reach h
  refine ⟨cancelable_iff.mpr hs, fun a s' hstep => ?_⟩
  rw [cancelable_iff]
  exact ⟨fun h' => sole_of_entered hstep h', fun hsole => entered_step hs hsole hstep⟩

/-- A live retry of campaign 1 is accepted beside its batch and registers once the batch has
returned; the batch of campaign 2 overlaps both. -/
def handedOver : List RegistryLabel :=
  [.accept 1 false, .register 0, .accept 2 false, .accept 1 true, .register 1, .unregister 0,
    .register 2]

/-- Each execution that still runs can be canceled, also the retry that took the batch's place. -/
theorem cancelable_of_reach_batch : ∃ s : Registry,
    s.executions = [⟨1, .returned, false⟩, ⟨2, .registered, false⟩, ⟨1, .registered, false⟩] ∧
      Cancelable s := by
  obtain ⟨s, hs⟩ : ∃ s, Transition.replayWith registryStep Sole .empty handedOver = some s :=
    ⟨_, rfl⟩
  have hcancelable : Cancelable s := (cancelable_of_reach (.of_replayWith hs)).1
  refine ⟨s, ?_, hcancelable⟩
  cases hs
  rfl

/-- **A batch out of reach.** A live retry that registers beside its batch leaves the operator
no way to cancel the batch. -/
theorem not_cancelable_of_reach :
    ¬ ∀ s, Transition.Reachable registryStep .empty s → Cancelable s := by
  intro h
  obtain ⟨s, hs, hbatch, hentry⟩ : ∃ s, Transition.replay registryStep .empty
      [.accept 1 false, .register 0, .accept 1 true, .register 1] = some s ∧
        s.executions[0]? = some ⟨1, .registered, false⟩ ∧ s.cancels 1 = some 1 :=
    ⟨_, rfl, rfl, rfl⟩
  have hentered := cancelable_iff.mp (h s (.of_replay hs)) 0 _ hbatch rfl
  rw [hentry] at hentered
  cases hentered

end HubScope
