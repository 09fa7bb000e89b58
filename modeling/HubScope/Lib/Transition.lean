import Mathlib.Logic.Relation

/-!
# Partial step functions and their guarded runs

A system is a step function `σ → α → Option σ`: `none` says that the label is not
enabled in the state. A guard `σ → α → Prop` restricts a run to the steps that meet
it, so that a property which only some runs have is stated over the guarded ones.

## Main definitions

* `Transition.Reach` — the states reached through guarded steps
* `Transition.replay`, `Transition.replayWith` — running a list of labels, computably
* `Transition.Logged` — a guarded run with the log its steps write

## Main results

* `Reach.invariant` — what the start has and guarded steps keep, every reached state has
* `Reach.of_replay` — a replayed list of labels witnesses reachability
* `Logged.invariant_of` — the invariant rule for a state with the log written so far
-/

namespace Transition

variable {σ α : Type*} {step : σ → α → Option σ} {guard guard' : σ → α → Prop} {s t u : σ}

/-- The states reached from `s` by steps whose label meets `guard` where it is taken. -/
inductive Reach (step : σ → α → Option σ) (guard : σ → α → Prop) (s : σ) : σ → Prop
  | refl : Reach step guard s s
  | tail {t u : σ} {a : α} :
      Reach step guard s t → guard t a → step t a = some u → Reach step guard s u

/-- The guard every step meets. -/
def anyStep (_ : σ) (_ : α) : Prop := True

/-- The states reached by steps without restriction. -/
abbrev Reachable (step : σ → α → Option σ) (s : σ) : σ → Prop := Reach step anyStep s

theorem Reach.single {a : α} (hg : guard s a) (h : step s a = some t) : Reach step guard s t :=
  .tail .refl hg h

theorem Reach.trans (hst : Reach step guard s t) (htu : Reach step guard t u) :
    Reach step guard s u := by
  induction htu with
  | refl => exact hst
  | tail _ hg hstep ih => exact .tail ih hg hstep

/-- A weaker guard admits at least the same runs. -/
theorem Reach.mono (hle : ∀ s a, guard s a → guard' s a) (h : Reach step guard s t) :
    Reach step guard' s t := by
  induction h with
  | refl => exact .refl
  | tail _ hg hstep ih => exact .tail ih (hle _ _ hg) hstep

theorem Reach.reachable (h : Reach step guard s t) : Reachable step s t :=
  h.mono fun _ _ _ => trivial

/-- **Invariant rule.** What holds at the start and is kept by every guarded step
holds in every state a guarded run reaches. -/
theorem Reach.invariant {I : σ → Prop} (hinit : I s)
    (hstep : ∀ t a u, I t → guard t a → step t a = some u → I u)
    (h : Reach step guard s t) : I t := by
  induction h with
  | refl => exact hinit
  | tail _ hg hs ih => exact hstep _ _ _ ih hg hs

/-- The invariant rule with a second invariant that is already known to hold along
the run. -/
theorem Reach.invariant_of {I J : σ → Prop} (hJ : ∀ t, Reach step guard s t → J t)
    (hinit : I s) (hstep : ∀ t a u, J t → I t → guard t a → step t a = some u → I u)
    (h : Reach step guard s t) : I t := by
  induction h with
  | refl => exact hinit
  | tail hrun hg hs ih => exact hstep _ _ _ (hJ _ hrun) ih hg hs

/-- Run a list of labels. -/
def replay (step : σ → α → Option σ) (s : σ) : List α → Option σ
  | [] => some s
  | a :: as => (step s a).bind fun t => replay step t as

@[simp] theorem replay_nil : replay step s [] = some s := rfl

theorem replay_cons {a : α} {as : List α} :
    replay step s (a :: as) = (step s a).bind fun t => replay step t as := rfl

/-- A list of labels that replays witnesses reachability. -/
theorem Reach.of_replay {as : List α} (h : replay step s as = some t) : Reachable step s t := by
  induction as generalizing s with
  | nil =>
    obtain rfl : s = t := by simpa using h
    exact .refl
  | cons a as ih =>
    rw [replay_cons] at h
    obtain ⟨m, hm, hrest⟩ := Option.bind_eq_some_iff.mp h
    exact (Reach.single trivial hm).trans (ih hrest)

/-- Run a list of labels as long as they meet the guard. -/
def replayWith (step : σ → α → Option σ) (guard : σ → α → Prop) [∀ s a, Decidable (guard s a)]
    (s : σ) : List α → Option σ
  | [] => some s
  | a :: as => if guard s a then (step s a).bind fun t => replayWith step guard t as else none

/-- A list of labels that replays under the guard witnesses a guarded run. -/
theorem Reach.of_replayWith [∀ s a, Decidable (guard s a)] {as : List α}
    (h : replayWith step guard s as = some t) : Reach step guard s t := by
  induction as generalizing s with
  | nil =>
    obtain rfl : s = t := Option.some.inj h
    exact .refl
  | cons a as ih =>
    rw [replayWith] at h
    by_cases hguard : guard s a
    · rw [if_pos hguard] at h
      obtain ⟨m, hm, hrest⟩ := Option.bind_eq_some_iff.mp h
      exact (Reach.single hguard hm).trans (ih hrest)
    · rw [if_neg hguard] at h
      cases h

/-! ### Logs -/

section

variable {β : Type*} {emit : σ → α → List β} {bs cs : List β}

/-- The states reached from `s` by guarded steps, with what the steps logged in order. -/
inductive Logged (step : σ → α → Option σ) (guard : σ → α → Prop) (emit : σ → α → List β)
    (s : σ) : σ → List β → Prop
  | refl : Logged step guard emit s s []
  | tail {t u : σ} {a : α} {bs : List β} : Logged step guard emit s t bs → guard t a →
      step t a = some u → Logged step guard emit s u (bs ++ emit t a)

/-- A logged run is a run. -/
theorem Logged.reach (h : Logged step guard emit s t bs) : Reach step guard s t := by
  induction h with
  | refl => exact .refl
  | tail _ hg hstep ih => exact .tail ih hg hstep

/-- A run has a log. -/
theorem Reach.exists_logged (emit : σ → α → List β) (h : Reach step guard s t) :
    ∃ bs, Logged step guard emit s t bs := by
  induction h with
  | refl => exact ⟨[], .refl⟩
  | tail _ hg hstep ih =>
    obtain ⟨bs, hbs⟩ := ih
    exact ⟨_, hbs.tail hg hstep⟩

theorem Logged.trans (hst : Logged step guard emit s t bs) (htu : Logged step guard emit t u cs) :
    Logged step guard emit s u (bs ++ cs) := by
  induction htu with
  | refl => rwa [List.append_nil]
  | tail _ hg hstep ih =>
    rw [← List.append_assoc]
    exact .tail ih hg hstep

theorem Logged.mono (hle : ∀ s a, guard s a → guard' s a) (h : Logged step guard emit s t bs) :
    Logged step guard' emit s t bs := by
  induction h with
  | refl => exact .refl
  | tail _ hg hstep ih => exact .tail ih (hle _ _ hg) hstep

/-- What a list of labels logs. -/
def logOf (step : σ → α → Option σ) (emit : σ → α → List β) (s : σ) : List α → List β
  | [] => []
  | a :: as =>
    match step s a with
    | some t => emit s a ++ logOf step emit t as
    | none => []

theorem Logged.append (hst : step s a = some t) (hg : guard s a)
    (h : Logged step guard emit t u bs) : Logged step guard emit s u (emit s a ++ bs) := by
  have hfirst : Logged step guard emit s t ([] ++ emit s a) := .tail .refl hg hst
  exact hfirst.trans h

/-- A list of labels that replays within the guard witnesses a logged run. -/
theorem Logged.of_replay {as : List α} (hg : ∀ s, ∀ a ∈ as, guard s a)
    (h : replay step s as = some t) :
    Logged step guard emit s t (logOf step emit s as) := by
  induction as generalizing s with
  | nil =>
    obtain rfl : s = t := by simpa using h
    exact .refl
  | cons a as ih =>
    rw [replay_cons] at h
    obtain ⟨m, hm, hrest⟩ := Option.bind_eq_some_iff.mp h
    rw [logOf, hm]
    exact .append hm (hg s a (List.mem_cons_self ..))
      (ih (fun s b hb => hg s b (List.mem_cons_of_mem _ hb)) hrest)

/-- A list of labels that replays under the guard witnesses a logged run. -/
theorem Logged.of_replayWith [∀ s a, Decidable (guard s a)] {as : List α}
    (h : replayWith step guard s as = some t) :
    Logged step guard emit s t (logOf step emit s as) := by
  induction as generalizing s with
  | nil =>
    obtain rfl : s = t := Option.some.inj h
    exact .refl
  | cons a as ih =>
    rw [replayWith] at h
    by_cases hguard : guard s a
    · rw [if_pos hguard] at h
      obtain ⟨m, hm, hrest⟩ := Option.bind_eq_some_iff.mp h
      rw [logOf, hm]
      exact .append hm hguard (ih hrest)
    · rw [if_neg hguard] at h
      cases h

/-- A part of what is logged is logged by the same run. -/
theorem Logged.filterMap {γ : Type*} {f : β → Option γ} {emit' : σ → α → List γ}
    (hemit : ∀ s a, (emit s a).filterMap f = emit' s a) (h : Logged step guard emit s t bs) :
    Logged step guard emit' s t (bs.filterMap f) := by
  induction h with
  | refl => exact .refl
  | tail _ hg hstep ih =>
    rw [List.filterMap_append, hemit]
    exact .tail ih hg hstep

/-- **Invariant rule.** What the start has with an empty log and a step keeps with what it
logs, every logged run has. -/
theorem Logged.invariant_of {I : σ → List β → Prop} {J : σ → Prop}
    (hJ : ∀ t, Reach step guard s t → J t) (hinit : I s [])
    (hstep : ∀ t bs a u, J t → I t bs → guard t a → step t a = some u → I u (bs ++ emit t a))
    (h : Logged step guard emit s t bs) : I t bs := by
  induction h with
  | refl => exact hinit
  | tail hrun hg hs ih => exact hstep _ _ _ _ (hJ _ hrun.reach) ih hg hs

end

end Transition
