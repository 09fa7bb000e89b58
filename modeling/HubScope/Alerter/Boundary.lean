import HubScope.Alerter.Hysteresis
import HubScope.Alerter.Reporting

/-!
# The boundary timer and the score drops it is armed for

A score drop inside quiet hours is recorded, held and sent with the summary that the boundary
timer sets off. The timer is synchronised with the settings at every decision point: it is armed
for the next edge of the window, and disarmed when the window is not active. What is held is not
looked at, so quiet hours that are switched off while a drop is held leave it without a timer at
the next decision point.

## Main definitions

* `Armed` — held score drops have a timer, and a timer has a done channel
* `Decides` — the step is a decision point
* `KeepsWindow` — quiet hours are active at a decision point that finds score drops held

## Main results

* `armed_step_iff` — when a step keeps held score drops armed
* `armed_of_reach` — the invariant of the runs whose decision points keep the window
* `not_armed_of_reach` — a held score drop without a timer
-/

set_option autoImplicit false

namespace HubScope

open Alerter

/-- Held score drops have an armed timer, and the timer is there with its done channel. -/
structure Armed (s : Alerter) : Prop where
  covered : s.quietScoreDrops ≠ [] → s.quietTimer.timer.isSome = true
  paired : s.quietTimer.timer.isSome = s.quietTimer.done

/-- The step synchronises the boundary timer. -/
def Decides (s : Alerter) : AlerterLabel → Bool
  | .handleRound endpointId consecutive => s.configured &&
    (s.decision endpointId consecutive).isSome && (s.buildEndpointAlert endpointId).isSome
  | .flush _ | .quietBoundary _ => true
  | .handleCampaign _ done _ _ _ =>
    done && s.settings.scoreDropAlertEnabled && s.settings.webhook ≠ ""
  | _ => false

/-- A decision point that finds score drops held finds quiet hours active. -/
def KeepsWindow (s : Alerter) (a : AlerterLabel) : Prop :=
  Decides s a = true → s.quietScoreDrops ≠ [] → s.settings.quietHours.active = true

instance (s : Alerter) (a : AlerterLabel) : Decidable (KeepsWindow s a) :=
  inferInstanceAs (Decidable (_ → _ → _))

variable {s s' : Alerter} {τ : QuietTimer} {q : QuietHours} {now : ℤ}

/-! ### The timer -/

/-- Synchronising arms the timer of an active window and disarms that of another. -/
theorem isSome_sync (τ : QuietTimer) (q : QuietHours) (now : ℤ) :
    (τ.sync q now).timer.isSome = q.active := by
  unfold QuietTimer.sync
  cases hq : q.active with
  | false =>
    simp only [Bool.not_false, if_true]
    unfold QuietTimer.disarm
    split
    · rename_i hnone
      rwa [Option.isSome_eq_false_iff]
    · rfl
  | true =>
    simp only [Bool.not_true, Bool.false_eq_true, if_false]
    by_cases hnone : τ.timer.isNone = true
    · rw [if_pos hnone]
      rfl
    · -- an armed timer stays armed, moved or not
      have harmed : τ.timer.isSome = true := by
        rwa [Bool.not_eq_true, Option.isNone_eq_false_iff] at hnone
      rw [if_neg hnone]
      split
      · exact harmed
      split
      · exact harmed
      · rfl

theorem paired_sync (h : τ.timer.isSome = τ.done) :
    (τ.sync q now).timer.isSome = (τ.sync q now).done := by
  unfold QuietTimer.sync
  split
  · unfold QuietTimer.disarm
    split
    · exact h
    · rfl
  split
  · rfl
  split
  · exact h
  split
  · exact h
  · rfl

/-- Synchronising keeps held score drops armed just when the window is active. -/
theorem armed_sync_iff (hpaired : s.quietTimer.timer.isSome = s.quietTimer.done)
    (htimer : s'.quietTimer = s.quietTimer.sync s.settings.quietHours s.now)
    (hdrops : s'.quietScoreDrops = s.quietScoreDrops) :
    Armed s' ↔ (s.quietScoreDrops ≠ [] → s.settings.quietHours.active = true) := by
  constructor
  · intro h hheld
    rw [← isSome_sync s.quietTimer s.settings.quietHours s.now, ← htimer]
    exact h.covered (hdrops ▸ hheld)
  · intro hactive
    refine ⟨fun hheld => ?_, ?_⟩
    · rw [htimer, isSome_sync]
      exact hactive (hdrops ▸ hheld)
    · rw [htimer]
      exact paired_sync hpaired

theorem Armed.of_eq (h : Armed s) (htimer : s'.quietTimer = s.quietTimer)
    (hdrops : s'.quietScoreDrops = s.quietScoreDrops) : Armed s' := by
  refine ⟨fun hheld => ?_, ?_⟩
  · rw [htimer]
    exact h.covered (hdrops ▸ hheld)
  · rw [htimer]
    exact h.paired

/-! ### What a step does -/

theorem flush_drops (s : Alerter) (outcome : ℕ → Bool) :
    (s.flush outcome).quietTimer = s.quietTimer.sync s.settings.quietHours s.now ∧
      (s.flush outcome).quietScoreDrops = s.quietScoreDrops := by
  obtain ⟨log, new, heq⟩ := flush_spec s outcome
  rw [heq]
  exact ⟨rfl, rfl⟩

/-- A summary takes the held score drops along, or it is not due. -/
theorem onQuietBoundary_drops (s : Alerter) (ok : Bool) :
    (s.onQuietBoundary ok).quietScoreDrops = s.quietScoreDrops ∨
      (s.onQuietBoundary ok).quietScoreDrops = [] ∧ s.settings.quietHours.active = true := by
  unfold onQuietBoundary
  split
  · exact .inl rfl
  · rename_i hdue
    have hactive : s.settings.quietHours.active = true := by
      cases h : s.settings.quietHours.active with
      | true => rfl
      | false => simp [h] at hdue
    unfold deliverQuietSummary
    split
    · exact .inr ⟨rfl, hactive⟩
    split
    · exact .inl rfl
    · exact .inr ⟨rfl, hactive⟩

theorem alertModels_drops (s : Alerter) (campaignId : ℕ) (outcome : ℕ → Bool) (models : List ℕ) :
    (s.alertModels campaignId false outcome models).quietScoreDrops = s.quietScoreDrops := by
  induction models generalizing s outcome with
  | nil => rfl
  | cons modelDbId models ih => exact ih (s.sendModelAlert campaignId modelDbId (outcome 0)) _

/-- A boundary that fired is synchronised from a timer without its channel. -/
theorem armed_boundary_iff (ok : Bool) :
    Armed ({ s with quietTimer := ⟨none, s.quietTimer.boundaryAt, false⟩ }.onQuietBoundary ok) ↔
      (s.quietScoreDrops ≠ [] → s.settings.quietHours.active = true) := by
  let fired : Alerter := { s with quietTimer := ⟨none, s.quietTimer.boundaryAt, false⟩ }
  have htimer := quietTimer_onQuietBoundary fired ok
  have hpaired : fired.quietTimer.timer.isSome = fired.quietTimer.done := rfl
  rcases onQuietBoundary_drops fired ok with hsame | ⟨hsent, hactive⟩
  · exact armed_sync_iff (s := fired) hpaired htimer hsame
  · refine ⟨fun _ _ => hactive, fun _ => ⟨fun hheld => absurd hsent hheld, ?_⟩⟩
    change (fired.onQuietBoundary ok).quietTimer.timer.isSome =
      (fired.onQuietBoundary ok).quietTimer.done
    rw [htimer]
    exact paired_sync hpaired

/-- Score drops are deferred in an active window only. -/
theorem armed_alertModels_iff (h : Armed s) (campaignId skipped : ℕ) (models : List ℕ)
    (outcome : ℕ → Bool) :
    Armed ((s.annotateSkips skipped).syncQuietTimer.alertModels campaignId
        ((s.annotateSkips skipped).syncQuietTimer.settings.quietHours.quiet
          (s.annotateSkips skipped).syncQuietTimer.now) outcome models) ↔
      (s.quietScoreDrops ≠ [] → s.settings.quietHours.active = true) := by
  -- the skips are only logged: neither the timer nor the deferred drops see them
  obtain ⟨log, hskips⟩ := annotateSkips_spec s skipped
  rw [hskips]
  let t : Alerter := ({ s with log } : Alerter).syncQuietTimer
  have htimer : t.quietTimer = s.quietTimer.sync s.settings.quietHours s.now := rfl
  change Armed (t.alertModels campaignId (s.settings.quietHours.quiet s.now) outcome models) ↔ _
  cases hquiet : s.settings.quietHours.quiet s.now with
  | false =>
    have hdrops := alertModels_drops t campaignId outcome models
    obtain ⟨log', ds, drops, heq⟩ := alertModels_spec t campaignId false outcome models
    rw [heq] at hdrops ⊢
    exact armed_sync_iff h.paired htimer hdrops
  | true =>
    -- inside quiet hours the drops are deferred, and the sync before has armed the timer for them
    have hactive := QuietHours.active_of_quiet hquiet
    obtain ⟨log', ds, drops, heq⟩ := alertModels_spec t campaignId true outcome models
    rw [heq]
    refine ⟨fun _ _ => hactive, fun _ => ⟨fun _ => ?_, ?_⟩⟩
    · change t.quietTimer.timer.isSome = true
      rw [htimer, isSome_sync, hactive]
    · change t.quietTimer.timer.isSome = t.quietTimer.done
      rw [htimer]
      exact paired_sync h.paired

theorem armed_campaign_iff (h : Armed s) (campaignId skipped : ℕ) (done : Bool) (models : List ℕ)
    (outcome : ℕ → Bool) :
    Armed (s.handleCampaign campaignId done skipped models outcome) ↔
      KeepsWindow s (.handleCampaign campaignId done skipped models outcome) := by
  have hdecides : Decides s (.handleCampaign campaignId done skipped models outcome) =
      !(!done || !s.settings.scoreDropAlertEnabled || s.settings.webhook = "") := by
    simp [Decides]
  unfold handleCampaign KeepsWindow
  rw [hdecides]
  split
  · rename_i hout
    rw [hout]
    exact ⟨fun _ hin => absurd hin (by decide), fun _ => h⟩
  · rename_i hin
    rw [Bool.not_eq_true] at hin
    rw [hin]
    refine (armed_alertModels_iff h campaignId skipped models outcome).trans ?_
    exact ⟨fun hactive _ => hactive, fun hactive => hactive rfl⟩

/-- A round that decides no transition, or the transition of a deleted endpoint, only caches. -/
theorem handleRound_idle {endpointId consecutive : ℕ}
    (hidle : Decides s (.handleRound endpointId consecutive) = false) :
    ∃ a g, s.handleRound endpointId consecutive = { s with alerted := a, groupAlerted := g } := by
  rcases handleRound_cases s endpointId consecutive with
    ⟨a, g, heq, -⟩ | ⟨kind, alert, absorbed, group, hs, hdecision, hr⟩
  · exact ⟨a, g, heq⟩
  · simp [Decides, hs, hdecision, hr.alertOf] at hidle

theorem armed_round_iff (h : Armed s) (endpointId consecutive : ℕ) :
    Armed (s.handleRound endpointId consecutive) ↔
      KeepsWindow s (.handleRound endpointId consecutive) := by
  unfold KeepsWindow
  cases hdecides : Decides s (.handleRound endpointId consecutive) with
  | false =>
    obtain ⟨a, g, heq⟩ := handleRound_idle hdecides
    rw [heq]
    exact ⟨fun _ hin => (by cases hin), fun _ => h.of_eq rfl rfl⟩
  | true =>
    obtain ⟨⟨hs, hdecision⟩, halert⟩ :
        (s.configured = true ∧ (s.decision endpointId consecutive).isSome = true) ∧
          (s.buildEndpointAlert endpointId).isSome = true := by
      simpa [Decides] using hdecides
    obtain ⟨kind, hdecision⟩ := Option.isSome_iff_exists.mp hdecision
    obtain ⟨alert, halert⟩ := Option.isSome_iff_exists.mp halert
    obtain ⟨absorbed, group, hr⟩ := recorded_of_decided hs hdecision halert
    refine (armed_sync_iff h.paired hr.timers.2.2 hr.same.2.2.2.1).trans ?_
    exact ⟨fun hactive _ => hactive, fun hactive => hactive rfl⟩

/-- **A step** keeps held score drops armed just when a decision point that finds some finds quiet
hours active. -/
theorem armed_step_iff (h : Armed s) {a : AlerterLabel} (hstep : alerterStep s a = some s') :
    Armed s' ↔ KeepsWindow s a := by
  -- a step that decides nothing keeps the window vacuously
  have hidle : Armed s' → Decides s a = false → (Armed s' ↔ KeepsWindow s a) := by
    intro hs' hdecides
    refine ⟨fun _ hin => ?_, fun _ => hs'⟩
    rw [hdecides] at hin
    cases hin
  cases a with
  | handleRound endpointId consecutive =>
    cases hstep
    exact armed_round_iff h endpointId consecutive
  | flush outcome =>
    obtain ⟨-, heq⟩ := Option.ite_none_right_eq_some.mp hstep
    cases heq
    obtain ⟨htimer, hdrops⟩ := flush_drops s outcome
    exact (armed_sync_iff h.paired htimer hdrops).trans
      ⟨fun hactive _ => hactive, fun hactive => hactive rfl⟩
  | quietBoundary ok =>
    obtain ⟨-, heq⟩ := Option.ite_none_right_eq_some.mp hstep
    cases heq
    exact (armed_boundary_iff ok).trans ⟨fun hactive _ => hactive, fun hactive => hactive rfl⟩
  | handleCampaign campaignId done skipped models outcome =>
    cases hstep
    exact armed_campaign_iff h campaignId skipped done models outcome
  | recordEvent kind ok =>
    obtain ⟨-, heq⟩ := Option.ite_none_right_eq_some.mp hstep
    cases heq
    exact hidle (h.of_eq rfl rfl) rfl
  | clock | saveSettings | saveEndpoints | deleteEndpoint =>
    cases hstep
    exact hidle (h.of_eq rfl rfl) rfl

/-- **Bookkeeping of quiet hours.** In every run whose decision points find quiet hours active
while score drops are held, held score drops have an armed timer and the timer has its channel. -/
theorem armed_of_reach {settings : AlertSettings} {endpoints : List AlertEndpoint}
    {log : AlertLog}
    (h : Transition.Reach alerterStep KeepsWindow (.start now settings endpoints log) s) :
    (s.quietScoreDrops ≠ [] → s.quietTimer.timer.isSome = true) ∧
      s.quietTimer.timer.isSome = s.quietTimer.done := by
  have harmed : Armed s := by
    refine h.invariant ⟨fun hheld => absurd rfl hheld, rfl⟩ ?_
    intro t a u ht hkeeps hstep
    exact (armed_step_iff ht hstep).mpr hkeeps
  exact ⟨harmed.covered, harmed.paired⟩

/-- A score drop is deferred at midnight. -/
theorem armed_of_reach_deferred : ∃ s : Alerter, s.quietScoreDrops = [1] ∧
    (s.quietScoreDrops ≠ [] → s.quietTimer.timer.isSome = true) ∧
      s.quietTimer.timer.isSome = s.quietTimer.done := by
  let start : Alerter := .start 0 ⟨"hook", true, true, ⟨true, 23, 7⟩⟩ [] ⟨[], 0⟩
  have hrun : (Transition.replayWith alerterStep KeepsWindow start
      [.handleCampaign 1 true 0 [1] (fun _ => true)]).any
        (fun s => s.quietScoreDrops = [1]) = true := by
    decide
  obtain ⟨s, hs, hdrops⟩ := (Option.any_eq_true _ _).mp hrun
  exact ⟨s, of_decide_eq_true hdrops, armed_of_reach (.of_replayWith hs)⟩

/-- **A drop without a timer.** A score drop is deferred, quiet hours are switched off, and the
next transition disarms the timer. -/
theorem not_armed_of_reach :
    ¬ ∀ (now : ℤ) (settings : AlertSettings) (endpoints : List AlertEndpoint) (log : AlertLog)
      (s : Alerter),
      Transition.Reachable alerterStep (.start now settings endpoints log) s →
      (s.quietScoreDrops ≠ [] → s.quietTimer.timer.isSome = true) ∧
        s.quietTimer.timer.isSome = s.quietTimer.done := by
  intro h
  let settings (quiet : Bool) : AlertSettings := ⟨"hook", true, true, ⟨quiet, 23, 7⟩⟩
  let endpoints : List AlertEndpoint := [⟨1, "hub", "a", "openai", "other", true, true⟩]
  have hrun : (Transition.replay alerterStep (.start 0 (settings true) endpoints ⟨[], 0⟩)
      [.handleCampaign 1 true 0 [1] (fun _ => true), .saveSettings (settings false),
        .handleRound 1 3]).any
        (fun s => s.quietScoreDrops = [1] && s.quietTimer.timer.isNone) = true := by
    decide
  obtain ⟨s, hs, hfacts⟩ := (Option.any_eq_true _ _).mp hrun
  obtain ⟨hdrops, hnone⟩ := Bool.and_eq_true_iff.mp hfacts
  have harmed := (h 0 (settings true) endpoints ⟨[], 0⟩ s (.of_replay hs)).1
  rw [of_decide_eq_true hdrops] at harmed
  have hsome := harmed (by simp)
  rw [Option.isNone_iff_eq_none.mp hnone] at hsome
  cases hsome

end HubScope
