import HubScope.Lib.Transition
import Mathlib.Data.List.Basic
import Mathlib.Logic.Function.Basic

/-!
# The jury confirmation gate

A manual batch waits on a channel of its own until an operator confirms, the timeout passes or
the batch is canceled, and then takes the channel out of the map. A confirmation looks the
channel up under the lock and closes it after it left the lock, and closing a closed channel
panics. So the channel is closed once as long as no two confirmations find it.

## Main definitions

* `Gate`, `gateStep` — the waiting batches and the confirmation requests
* `FoundOnce` — a confirmation finds a channel no other one found

## Main results

* `closed_once_of_reach` — no confirmation panics, in every run whose channels are found once
-/

set_option autoImplicit false

namespace HubScope

/-- Where a batch at the gate stands. -/
inductive WaiterPc
  | arrive
  | wait (ch : ℕ)
  | leave
  | gone
  deriving DecidableEq, Repr

/-- Where a confirmation stands: it found no channel, closed the one it found, or panicked on
it. -/
inductive ConfirmPc
  | lookup
  | close (ch : ℕ)
  | refused
  | confirmed (ch : ℕ)
  | panicked (ch : ℕ)
  deriving DecidableEq, Repr

/-- What ends a wait: the closed channel, the timeout or the batch's cancel. -/
inductive Release
  | confirmed
  | timedOut
  | canceled
  deriving DecidableEq, Repr

/-- The channel of each waiting campaign, the closed channels, how many were made, and the
goroutines with the campaign each is about. -/
structure Gate where
  confirmCh : ℕ → Option ℕ
  closed : ℕ → Bool
  made : ℕ
  waiters : List (ℕ × WaiterPc)
  confirmers : List (ℕ × ConfirmPc)

/-- A batch or a request comes, a waiting batch takes a step, a confirmation takes a step. -/
inductive GateLabel
  | batch (campaignId : ℕ)
  | request (campaignId : ℕ)
  | waiter (i : ℕ) (release : Release)
  | confirmer (i : ℕ)

/-- One step of a batch in `awaitJuryConfirmation`. -/
def waiterStep (s : Gate) (campaignId : ℕ) (release : Release) : WaiterPc → Option (Gate × WaiterPc)
  | .arrive =>
    some ({ s with
      confirmCh := Function.update s.confirmCh campaignId (some s.made)
      made := s.made + 1 }, .wait s.made)
  | .wait ch => if release = .confirmed ∧ ¬ s.closed ch then none else some (s, .leave)
  | .leave =>
    some ({ s with confirmCh := Function.update s.confirmCh campaignId none }, .gone)
  | .gone => none

/-- One step of a request in `ConfirmCampaign`. -/
def confirmStep (s : Gate) (campaignId : ℕ) : ConfirmPc → Option (Gate × ConfirmPc)
  | .lookup =>
    match s.confirmCh campaignId with
    | some ch => some (s, .close ch)
    | none => some (s, .refused)
  | .close ch =>
    if s.closed ch then some (s, .panicked ch)
    else some ({ s with closed := Function.update s.closed ch true }, .confirmed ch)
  | .refused | .confirmed _ | .panicked _ => none

/-- One step of the process. -/
def gateStep (s : Gate) : GateLabel → Option Gate
  | .batch c => some { s with waiters := s.waiters ++ [(c, .arrive)] }
  | .request c => some { s with confirmers := s.confirmers ++ [(c, .lookup)] }
  | .waiter i release =>
    s.waiters[i]?.bind fun (c, pc) =>
      (waiterStep s c release pc).map fun (s', pc') =>
        { s' with waiters := s.waiters.set i (c, pc') }
  | .confirmer i =>
    s.confirmers[i]?.bind fun (c, pc) =>
      (confirmStep s c pc).map fun (s', pc') =>
        { s' with confirmers := s.confirmers.set i (c, pc') }

/-- No batch waits and nothing was confirmed. -/
def Gate.empty : Gate := ⟨fun _ => none, fun _ => false, 0, [], []⟩

/-- The channel a confirmation found. -/
def ConfirmPc.found : ConfirmPc → Option ℕ
  | .close ch | .confirmed ch | .panicked ch => some ch
  | .lookup | .refused => none

/-- A confirmation that looks a channel up is the first to find it. -/
def FoundOnce (s : Gate) : GateLabel → Prop
  | .confirmer i =>
    ∀ p ∈ s.confirmers[i]?, p.2 = .lookup → ∀ ch ∈ s.confirmCh p.1,
      ∀ q ∈ s.confirmers, q.2.found ≠ some ch
  | _ => True

instance (s : Gate) : (a : GateLabel) → Decidable (FoundOnce s a)
  | .confirmer i =>
    inferInstanceAs (Decidable (∀ p ∈ s.confirmers[i]?, p.2 = .lookup →
      ∀ ch ∈ s.confirmCh p.1, ∀ q ∈ s.confirmers, q.2.found ≠ some ch))
  | .batch _ | .request _ | .waiter _ _ => inferInstanceAs (Decidable True)

/-! ### Found channels -/

variable {s s' : Gate}

/-- Every channel was found by at most one confirmation, and a closed one was closed by the one
that found it. -/
structure Unshared (s : Gate) : Prop where
  once : ∀ (i j : ℕ) (p q : ℕ × ConfirmPc) (ch : ℕ),
    s.confirmers[i]? = some p → s.confirmers[j]? = some q →
    p.2.found = some ch → q.2.found = some ch → i = j
  closed : ∀ ch, s.closed ch = true → ∃ p ∈ s.confirmers, p.2 = .confirmed ch
  sound : ∀ p ∈ s.confirmers, ∀ ch, p.2 ≠ .panicked ch

/-- A confirmation that moves on with the channel it found, or with none, is alone with it. -/
theorem once_set (h : Unshared s) {i : ℕ} {p p' : ℕ × ConfirmPc} (hi : s.confirmers[i]? = some p)
    (hfound : ∀ ch, p'.2.found = some ch → p.2.found = some ch ∨
      ∀ q ∈ s.confirmers, q.2.found ≠ some ch) :
    ∀ (j k : ℕ) (q r : ℕ × ConfirmPc) (ch : ℕ),
      (s.confirmers.set i p')[j]? = some q → (s.confirmers.set i p')[k]? = some r →
      q.2.found = some ch → r.2.found = some ch → j = k := by
  -- the other confirmations are where they were
  have hset : ∀ j q, (s.confirmers.set i p')[j]? = some q →
      j = i ∧ q = p' ∨ j ≠ i ∧ s.confirmers[j]? = some q := by
    intro j q hj
    by_cases hji : j = i
    · subst hji
      rw [List.getElem?_set_self (List.getElem?_eq_some_iff.mp hi).1] at hj
      exact .inl ⟨rfl, (Option.some.inj hj).symm⟩
    · rw [List.getElem?_set_ne (Ne.symm hji)] at hj
      exact .inr ⟨hji, hj⟩
  intro j k q r ch hj hk hq hr
  -- who shares a channel with the new point shared it before, or nobody had it
  have halone : ∀ (k : ℕ) (r : ℕ × ConfirmPc), s.confirmers[k]? = some r → r.2.found = some ch →
      p'.2.found = some ch → k = i := by
    intro k r hk hr hp'
    rcases hfound ch hp' with hp | hnone
    · exact h.once k i r p ch hk hi hr hp
    · exact absurd hr (hnone r (List.mem_of_getElem? hk))
  rcases hset j q hj with ⟨hji, hqp⟩ | ⟨-, hj'⟩ <;> rcases hset k r hk with ⟨hki, hrp⟩ | ⟨-, hk'⟩
  · exact hji.trans hki.symm
  · exact hji.trans (halone k r hk' hr (hqp ▸ hq)).symm
  · exact (halone j q hj' hq (hrp ▸ hr)).trans hki.symm
  · exact h.once j k q r ch hj' hk' hq hr

theorem mem_set_of_mem {i : ℕ} {p p' q : ℕ × ConfirmPc} (hi : s.confirmers[i]? = some p)
    (hq : q ∈ s.confirmers) (hne : q ≠ p) : q ∈ s.confirmers.set i p' := by
  obtain ⟨j, hj⟩ := List.getElem?_of_mem hq
  have hij : i ≠ j := by
    rintro rfl
    exact hne (Option.some.inj (hj.symm.trans hi))
  exact List.mem_of_getElem? ((List.getElem?_set_ne hij).trans hj)

/-- What one confirmation does. -/
theorem unshared_confirm (h : Unshared s) {i : ℕ} (hfound : FoundOnce s (.confirmer i))
    (hstep : gateStep s (.confirmer i) = some s') : Unshared s' := by
  obtain ⟨⟨c, pc⟩, hi, hmap⟩ := Option.bind_eq_some_iff.mp hstep
  obtain ⟨⟨t, pc'⟩, hpc, rfl⟩ := Option.map_eq_some_iff.mp hmap
  have hmem := List.mem_of_getElem? hi
  have hkeep : ∀ ch, pc ≠ .confirmed ch → (∃ p ∈ s.confirmers, p.2 = .confirmed ch) →
      ∃ p ∈ s.confirmers.set i (c, pc'), p.2 = .confirmed ch := by
    rintro ch hne ⟨p, hp, heq⟩
    refine ⟨p, mem_set_of_mem hi hp ?_, heq⟩
    rintro rfl
    exact hne heq
  have hsound : (∀ ch, pc' ≠ .panicked ch) →
      ∀ p ∈ s.confirmers.set i (c, pc'), ∀ ch, p.2 ≠ .panicked ch := by
    intro hpc' p hp
    rcases List.mem_or_eq_of_mem_set hp with hp | rfl
    · exact h.sound p hp
    · exact hpc'
  cases pc with
  | refused | confirmed | panicked => cases hpc
  | lookup =>
    unfold confirmStep at hpc
    dsimp only at hpc
    split at hpc
    · rename_i ch hch
      cases hpc
      refine ⟨once_set h hi fun ch' hch' => .inr ?_, fun ch' hclosed => ?_, hsound (by simp)⟩
      · obtain rfl : ch = ch' := by simpa [ConfirmPc.found] using hch'
        exact hfound _ hi rfl ch hch
      · exact hkeep ch' (by simp) (h.closed ch' hclosed)
    · cases hpc
      have hrefused : ∀ ch', (c, ConfirmPc.refused).2.found ≠ some ch' := by
        intro ch' hch'
        cases hch'
      refine ⟨once_set h hi fun ch' hch' => absurd hch' (hrefused ch'), fun ch' hclosed => ?_,
        hsound (by simp)⟩
      exact hkeep ch' (by simp) (h.closed ch' hclosed)
  | close ch =>
    -- had the channel been closed, another confirmation would have found it
    have hopen : s.closed ch = false := by
      by_contra hclosed
      rw [Bool.not_eq_false] at hclosed
      obtain ⟨p, hp, heq⟩ := h.closed ch hclosed
      obtain ⟨j, hj⟩ := List.getElem?_of_mem hp
      have hij := h.once i j _ _ ch hi hj rfl (by rw [heq]; rfl)
      subst hij
      obtain rfl := Option.some.inj (hi.symm.trans hj)
      cases heq
    simp only [confirmStep, hopen, Bool.false_eq_true, if_false] at hpc
    cases hpc
    refine ⟨once_set h hi fun ch' hch' => .inl hch', fun ch' hclosed => ?_, hsound (by simp)⟩
    by_cases hch : ch' = ch
    · subst hch
      have hlt := (List.getElem?_eq_some_iff.mp hi).1
      exact ⟨_, List.mem_of_getElem? (List.getElem?_set_self hlt), rfl⟩
    · change Function.update s.closed ch true ch' = true at hclosed
      rw [Function.update_of_ne hch] at hclosed
      exact hkeep ch' (by simp) (h.closed ch' hclosed)

theorem unshared_step (h : Unshared s) {a : GateLabel} (hfound : FoundOnce s a)
    (hstep : gateStep s a = some s') : Unshared s' := by
  cases a with
  | batch c =>
    cases hstep
    exact ⟨h.once, h.closed, h.sound⟩
  | request c =>
    cases hstep
    have hnew : ∀ (i : ℕ) (p : ℕ × ConfirmPc) (ch : ℕ),
        (s.confirmers ++ [(c, ConfirmPc.lookup)])[i]? = some p →
          p.2.found = some ch → s.confirmers[i]? = some p := by
      intro i p ch hi hp
      rcases Nat.lt_or_ge i s.confirmers.length with hlt | hle
      · exact (List.getElem?_append_left hlt).symm.trans hi
      · -- a request that comes has found nothing
        have hlast := (List.getElem?_append_right hle).symm.trans hi
        rw [List.mem_singleton.mp (List.mem_of_getElem? hlast)] at hp
        cases hp
    refine ⟨fun i j p q ch hi hj hp hq => ?_, fun ch hclosed => ?_, fun p hp => ?_⟩
    · exact h.once i j p q ch (hnew i p ch hi hp) (hnew j q ch hj hq) hp hq
    · obtain ⟨p, hp, heq⟩ := h.closed ch hclosed
      exact ⟨p, List.mem_append_left _ hp, heq⟩
    · rcases List.mem_append.mp hp with hp | hp
      · exact h.sound p hp
      · rw [List.mem_singleton.mp hp]
        intro ch hch
        cases hch
  | waiter i release =>
    obtain ⟨⟨c, pc⟩, -, hmap⟩ := Option.bind_eq_some_iff.mp hstep
    obtain ⟨⟨t, pc'⟩, hpc, rfl⟩ := Option.map_eq_some_iff.mp hmap
    -- a waiter neither closes channels nor confirms
    have hframe : t.closed = s.closed ∧ t.confirmers = s.confirmers := by
      cases pc with
      | arrive | leave =>
        cases hpc
        exact ⟨rfl, rfl⟩
      | wait ch =>
        obtain ⟨-, heq⟩ := Option.ite_none_left_eq_some.mp hpc
        cases heq
        exact ⟨rfl, rfl⟩
      | gone => cases hpc
    exact ⟨hframe.2 ▸ h.once, hframe.1 ▸ hframe.2 ▸ h.closed, hframe.2 ▸ h.sound⟩
  | confirmer i => exact unshared_confirm h hfound hstep

theorem unshared_of_reach (h : Transition.Reach gateStep FoundOnce .empty s) : Unshared s := by
  refine h.invariant ?_ fun _ _ _ ht ha hstep => unshared_step ht ha hstep
  constructor
  · intro i j p q ch hi
    cases hi
  · intro ch hclosed
    cases hclosed
  · intro p hp
    cases hp

/-- **Closed once.** In every run whose channels are found by at most one confirmation, no
confirmation closes a closed channel. -/
theorem closed_once_of_reach (h : Transition.Reach gateStep FoundOnce .empty s) :
    ∀ p ∈ s.confirmers, ∀ ch, p.2 ≠ .panicked ch := (unshared_of_reach h).sound

/-- One confirmation of the batch of campaign 1. -/
theorem closed_once_of_reach_single : ∃ s : Gate,
    s.confirmers = [(1, .confirmed 0)] ∧ s.closed 0 = true ∧
      ∀ p ∈ s.confirmers, ∀ ch, p.2 ≠ .panicked ch := by
  obtain ⟨s, hs, hconfirmers, hclosed⟩ : ∃ s, Transition.replayWith gateStep FoundOnce .empty
      [.batch 1, .waiter 0 .timedOut, .request 1, .confirmer 0, .confirmer 0] = some s ∧
        s.confirmers = [(1, .confirmed 0)] ∧ s.closed 0 = true := ⟨_, rfl, by decide, by decide⟩
  exact ⟨s, hconfirmers, hclosed, closed_once_of_reach (.of_replayWith hs)⟩

/-- **A second confirmation panics.** Two requests that find the same channel both close it. -/
theorem not_closed_once_of_reach :
    ¬ ∀ s, Transition.Reachable gateStep .empty s →
      ∀ p ∈ s.confirmers, ∀ ch, p.2 ≠ .panicked ch := by
  intro h
  obtain ⟨s, hs, hpanicked⟩ : ∃ s, Transition.replay gateStep .empty
      [.batch 1, .waiter 0 .confirmed, .request 1, .request 1, .confirmer 0, .confirmer 1,
        .confirmer 0, .confirmer 1] = some s ∧ (1, ConfirmPc.panicked 0) ∈ s.confirmers :=
    ⟨_, rfl, by decide⟩
  exact h s (.of_replay hs) _ hpanicked 0 rfl

end HubScope
