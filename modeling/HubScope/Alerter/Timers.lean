import HubScope.Alerter.Evaluator

/-!
# The boundary timer

A decision point keeps the boundary timer armed for the next edge of the quiet window. A boundary
that is due is left to its handler. So a timer that is armed for the end of a quiet stretch is not
moved past it, and inside quiet hours it is armed for that end.

## Main definitions

* `QuietTimer.Punctual` — an armed timer has not been overrun
* `QuietTimer.Awaits` — it is armed for the end of the quiet stretch that goes on now, or due

## Main results

* `QuietTimer.awaits_of_quiet` — inside quiet hours a decision point waits for their end
* `QuietTimer.Awaits.sync` — re-arming keeps the boundary that ends them
-/

set_option autoImplicit false

namespace HubScope

/-! ### The end of a quiet stretch -/

theorem QuietHours.active_of_quiet {q : QuietHours} {now : ℤ} (h : q.quiet now = true) :
    q.active = true :=
  (Bool.and_eq_true_iff.mp h).1

theorem QuietHours.quiet_eq {q : QuietHours} (h : q.active = true) (now : ℤ) :
    q.quiet now = q.contains now := by
  unfold QuietHours.quiet
  rw [h, Bool.true_and]

/-- Inside quiet hours the next boundary ends them. -/
theorem QuietHours.nextBoundary_of_quiet {q : QuietHours} {now : ℤ} (h : q.quiet now = true) :
    ∃ b, q.nextBoundary now = some b ∧ now < b ∧ (∀ t, now ≤ t → t < b → q.quiet t = true) ∧
      q.quiet b = false := by
  have hactive := active_of_quiet h
  rw [quiet_eq hactive] at h
  obtain ⟨b, hnext, hlt, hstays, hflips⟩ := nextBoundary_spec hactive now
  refine ⟨b, hnext, hlt, fun t hle ht => ?_, ?_⟩
  · rw [quiet_eq hactive, hstays t hle ht, h]
  · rw [quiet_eq hactive, hflips, h]
    rfl

namespace QuietTimer

variable {τ : QuietTimer} {q : QuietHours} {now : ℤ}

/-- The boundary that an armed timer stands for is its instant, which has not passed, and the window
is active. -/
def Punctual (τ : QuietTimer) (q : QuietHours) (now : ℤ) : Prop :=
  ∀ b ∈ τ.timer, τ.boundaryAt = some b ∧ now ≤ b ∧ q.active = true

/-- The timer is armed for the end of the quiet stretch that goes on now, or it is due. -/
def Awaits (τ : QuietTimer) (q : QuietHours) (now : ℤ) : Prop :=
  ∃ b, τ.timer = some b ∧ τ.boundaryAt = some b ∧ now ≤ b ∧
    (∀ t, now ≤ t → t < b → q.quiet t = true) ∧ (q.quiet b = true → b = now)

/-! ### Decision points -/

/-- A synchronised timer is the old one, or it is disarmed outside an active window, or it is armed
for the next boundary. -/
theorem sync_cases (τ : QuietTimer) (q : QuietHours) (now : ℤ) :
    q.active = false ∧ (τ.sync q now).timer = none ∨
      q.active = true ∧ τ.timer.isSome = true ∧ τ.sync q now = τ ∧
        (τ.boundaryAt.all (· ≤ now) = true ∨ q.nextBoundary now = τ.boundaryAt) ∨
      q.active = true ∧ τ.sync q now = arm (q.nextBoundary now) now ∧
        (τ.timer = none ∨ ¬ τ.boundaryAt.all (· ≤ now) = true) := by
  unfold QuietTimer.sync
  by_cases hactive : q.active = true
  · right
    simp only [hactive, Bool.not_true, Bool.false_eq_true, if_false, true_and]
    by_cases hnone : τ.timer.isNone = true
    · rw [if_pos hnone]
      exact .inr ⟨rfl, .inl (Option.isNone_iff_eq_none.mp hnone)⟩
    rw [if_neg hnone]
    have hsome : τ.timer.isSome = true := by
      rw [Option.isSome_iff_ne_none, Ne, ← Option.isNone_iff_eq_none]
      exact hnone
    by_cases hdue : τ.boundaryAt.all (· ≤ now) = true
    · rw [if_pos hdue]
      exact .inl ⟨hsome, rfl, .inl hdue⟩
    rw [if_neg hdue]
    by_cases hsame : q.nextBoundary now = τ.boundaryAt
    · rw [if_pos hsame]
      exact .inl ⟨hsome, rfl, .inr hsame⟩
    · rw [if_neg hsame]
      exact .inr ⟨rfl, .inr hdue⟩
  · left
    rw [Bool.not_eq_true] at hactive
    refine ⟨hactive, ?_⟩
    unfold QuietTimer.disarm
    cases hnone : τ.timer with
    | none => simp [hactive, hnone]
    | some c => simp [hactive]

theorem awaits_arm {next : ℤ} (hlt : now < next) (hstays : ∀ t, now ≤ t → t < next → q.quiet t = true)
    (hends : q.quiet next = false) : (arm (some next) now).Awaits q now :=
  ⟨next, rfl, rfl, hlt.le, hstays, fun h => absurd (hends.symm.trans h) Bool.false_ne_true⟩

/-- Inside quiet hours a decision point waits for their end. -/
theorem awaits_of_quiet (h : τ.Punctual q now) (hquiet : q.quiet now = true) :
    (τ.sync q now).Awaits q now := by
  obtain ⟨next, hnext, hlt, hstays, hends⟩ := QuietHours.nextBoundary_of_quiet hquiet
  have harmed := awaits_arm hlt hstays hends
  rcases sync_cases τ q now with ⟨hinactive, -⟩ | ⟨-, hsome, hsame, hkept⟩ | ⟨-, harm, -⟩
  · rw [QuietHours.active_of_quiet hquiet] at hinactive
    cases hinactive
  · obtain ⟨b, hb⟩ := Option.isSome_iff_exists.mp hsome
    obtain ⟨hat, hle, -⟩ := h b hb
    rw [hsame]
    rw [hat] at hkept
    rcases hkept with hdue | hkept
    · -- the boundary is due and its handler has not run yet
      obtain rfl : b = now := le_antisymm (by simpa using hdue) hle
      exact ⟨b, hb, hat, hle, fun t hle ht => absurd ht (not_lt.mpr hle), fun _ => rfl⟩
    · obtain rfl : next = b := Option.some.inj (hnext.symm.trans hkept)
      exact ⟨next, hb, hat, hle, hstays, fun hquiet' =>
        absurd (hends.symm.trans hquiet') Bool.false_ne_true⟩
  · rw [harm, hnext]
    exact harmed

/-- **Re-arming.** The boundary that ends the quiet stretch is not lost. -/
theorem Awaits.sync (h : τ.Awaits q now) (hp : τ.Punctual q now) :
    (τ.sync q now).Awaits q now := by
  obtain ⟨b, htimer, hat, hle, hstays, hends⟩ := h
  rcases hle.lt_or_eq with hlt | heq
  · exact awaits_of_quiet hp (hstays now le_rfl hlt)
  · -- a boundary that is due is left to its handler
    have hsame : τ.sync q now = τ := by
      unfold QuietTimer.sync
      simp [(hp b htimer).2.2, htimer, hat, heq]
    rw [hsame]
    exact ⟨b, htimer, hat, hle, hstays, hends⟩

theorem Punctual.sync (h : τ.Punctual q now) : (τ.sync q now).Punctual q now := by
  intro b hb
  rcases sync_cases τ q now with ⟨-, hnone⟩ | ⟨-, -, hsame, -⟩ | ⟨hactive, harm, -⟩
  · rw [hnone] at hb
    cases hb
  · rw [hsame] at hb ⊢
    exact h b hb
  · obtain ⟨next, hnext, hlt, -⟩ := QuietHours.nextBoundary_spec hactive now
    rw [harm, hnext] at hb ⊢
    obtain rfl : next = b := Option.some.inj hb
    exact ⟨rfl, hlt.le, hactive⟩

/-- A clock that does not overrun the timer leaves it punctual and waiting. -/
theorem Punctual.clock {now' : ℤ} (h : τ.Punctual q now) (hdue : ∀ b ∈ τ.timer, now' ≤ b) :
    τ.Punctual q now' :=
  fun b hb => ⟨(h b hb).1, hdue b hb, (h b hb).2.2⟩

theorem Awaits.clock {now' : ℤ} (h : τ.Awaits q now) (hle : now ≤ now')
    (hdue : ∀ b ∈ τ.timer, now' ≤ b) : τ.Awaits q now' := by
  obtain ⟨b, htimer, hat, -, hstays, hends⟩ := h
  have hle' := hdue b htimer
  refine ⟨b, htimer, hat, hle', fun t ht => hstays t (hle.trans ht), fun hquiet => ?_⟩
  have := hends hquiet
  omega

/-- Outside quiet hours a timer that awaits a summary is due. -/
theorem Awaits.due (h : τ.Awaits q now) (hloud : q.quiet now = false) : τ.timer = some now := by
  obtain ⟨b, htimer, -, hle, hstays, -⟩ := h
  rcases hle.lt_or_eq with hlt | rfl
  · exact absurd (hloud.symm.trans (hstays now le_rfl hlt)) Bool.false_ne_true
  · exact htimer

/-- A boundary that is due awaits its handler. -/
theorem awaits_of_due (h : τ.Punctual q now) (hdue : τ.timer.any (· ≤ now) = true) :
    τ.Awaits q now := by
  obtain ⟨b, hb, hle⟩ := (Option.any_eq_true _ _).mp hdue
  obtain ⟨hat, hle', -⟩ := h b hb
  obtain rfl : b = now := le_antisymm (of_decide_eq_true hle) hle'
  exact ⟨b, hb, hat, hle', fun t hle ht => absurd ht (not_lt.mpr hle), fun _ => rfl⟩

end QuietTimer

end HubScope
