import HubScope.Evaluator.Finishing
import HubScope.Evaluator.Scripted
import HubScope.Lib.Median

/-!
# The order of the votes does not matter

Whatever the order in which answers settle and votes arrive, a judge case is written once,
with the mean of the medians of its samples' votes, and the run that owns it is recorded done
once. The recording waits for the other cells of the run only where the driver counts them: a
resume and a settled unit retry mark the run after each of its cells.

## Main definitions

* `Script.juryMedian` — the median of the votes a sample gets

## Main results

* `confluent_of_logged` — the row of a case and the recording of its run in every order
* `not_confluent_of_logged` — a resume records a run between two of its cells
-/

set_option autoImplicit false

namespace HubScope

variable {env : Env} {plan : Plan} {st : Store} {s s₁ s₂ : State} {k : SampleCursor} {σ : Script}

/-- The median of the non-null votes of a sample; a failed answer has none. -/
def Script.juryMedian (k : SampleCursor) (σ : Script) (n : ℕ) : Option ℚ :=
  match σ.answer n with
  | .failed _ _ _ => none
  | .answered _ _ _ _ => Median.median ((List.range k.judges.length).filterMap (σ.vote n))

/-- A sample of a judge case with up to three judges settles with the median of its votes. -/
theorem Script.median_eq_juryMedian (hverdict : k.case.verdictType = .judge)
    (hjury : k.judges.length ≤ 3) (n : ℕ) : σ.median env k n = σ.juryMedian k n := by
  unfold Script.median Script.juryMedian
  cases σ.answer n with
  | failed => rfl
  | answered text latencyMs i o =>
    dsimp only
    rw [hverdict]
    dsimp only
    rw [medianOfVotes_eq_median (by simpa using hjury), List.reduceOption, List.filterMap_map]
    rfl

/-- While its context is live a run has written the case not at all or once, and once it
returned it has. -/
theorem unitRows_of_scripted (hplanned : ∀ v, plan.planned v ≤ 1)
    (h : Transition.Reachable (step env plan) (plan.start env st) s₁)
    (hk : .openCase k ∈ s₁.exam)
    (hrun : Transition.Reach (step env plan) (Follows k.unit σ) s₁ s)
    (hlive : s.mem.canceled = false) :
    (s.store.unitRows k.unit = plan.path.driver.kept (st.unitRows k.unit) ∨
        s.store.unitRows k.unit =
          plan.path.driver.kept (st.unitRows k.unit) ++ [scriptRow env k σ]) ∧
      (s.main = .returned → s.store.unitRows k.unit =
        plan.path.driver.kept (st.unitRows k.unit) ++ [scriptRow env k σ]) := by
  have hreached := reached_of_reach h
  have hok := panicked_of_reach hplanned hreached
  -- the case is taken up and not written yet, so what is kept of its rows is what it has
  obtain ⟨hstarted, hunwritten⟩ := started_of_openCase (hplanned k.unit) hreached hok hk rfl
  have hkept : s₁.store.unitRows k.unit = plan.path.driver.kept (st.unitRows k.unit) := by
    obtain ⟨rs, hlength, hrows⟩ := unitRows_of_reach (hplanned k.unit) h hok
    rw [hunwritten] at hlength
    rw [hrows, hstarted, List.eq_nil_of_length_eq_zero hlength, List.append_nil]
    rfl
  have hreached' := hreached.trans hrun
  have hs := scripted_of_reach hplanned hreached hk hrun (kept_of_live hreached' hlive)
  constructor
  · have hflight := flight_of_reach (hplanned k.unit) hreached'
      (panicked_of_reach hplanned hreached')
    have htodo := todo_of_reach k.unit hreached' (panicked_of_reach hplanned hreached')
    have hunit := hplanned k.unit
    have hwritten : s.mem.hist.written.count k.unit ≤ 1 := by omega
    rw [hs.rows, hkept]
    rcases Nat.le_one_iff_eq_zero_or_eq_one.mp hwritten with hzero | hone
    · rw [hzero]
      exact .inl (List.append_nil _)
    · rw [hone]
      exact .inr rfl
  · intro hreturned
    rw [unitRows_of_returned hplanned hreached hk hrun hlive hreturned, hkept]

/-- **Confluence.** From the state in which a judge case is opened, however its answers settle
and its votes arrive: the case is written at most once, and once when the execution returned,
with the mean of the medians of its votes. And where the driver counts the cells of its run,
or the run has one: the run is recorded done at most once, with all its cells ended and no
vote pending, and once when the execution returned. -/
theorem confluent_of_logged {log₁ log₂ : List (State × ℕ)} (hplanned : ∀ v, plan.planned v ≤ 1)
    (hverdict : k.case.verdictType = .judge) (hjury : k.judges.length ≤ 3)
    (h₁ : Transition.Logged (step env plan) Transition.anyStep (finishes plan)
      (plan.start env st) s₁ log₁)
    (hk : .openCase k ∈ s₁.exam)
    (h₂ : Transition.Logged (step env plan) (Follows k.unit σ) (finishes plan) s₁ s₂ log₂)
    (hlive : s₂.mem.canceled = false) :
    (∃ row, row.score = meanScore ((Script.sampleNos env k).map (σ.juryMedian k)) ∧
        (s₂.store.unitRows k.unit = plan.path.driver.kept (st.unitRows k.unit) ∨
          s₂.store.unitRows k.unit = plan.path.driver.kept (st.unitRows k.unit) ++ [row]) ∧
        (s₂.main = .returned →
          s₂.store.unitRows k.unit = plan.path.driver.kept (st.unitRows k.unit) ++ [row])) ∧
      (plan.path.countsCells = true ∨ plan.cellCount k.unit.runId ≤ 1 →
        plan.path.finishesRuns = true →
          (∀ t, (t, k.unit.runId) ∈ log₁ ++ log₂ →
            Complete plan k.unit.runId t ∧ t.mem.pipe.judgePending k.unit.runId = 0) ∧
          (log₁ ++ log₂).countP (·.2 = k.unit.runId) ≤ 1 ∧
          (s₂.main = .returned → (log₁ ++ log₂).countP (·.2 = k.unit.runId) = 1)) := by
  have hreached := reached_of_reach h₁.reach
  constructor
  · refine ⟨scriptRow env k σ, ?_, unitRows_of_scripted hplanned h₁.reach hk h₂.reach hlive⟩
    exact congrArg meanScore
      (List.map_congr_left fun n _ => Script.median_eq_juryMedian hverdict hjury n)
  · intro hcond hfinishes
    -- a run with an open cell has cells, so its flags are not set from the start
    have hcells := endedCount_lt hreached (panicked_of_reach hplanned hreached) hk rfl
    have hrest : Transition.Logged (step env plan) Transition.anyStep (finishes plan) s₁ s₂ log₂ :=
      h₂.mono fun _ _ _ => trivial
    have hlog := h₁.trans hrest
    have hok := panicked_of_reach hplanned (reached_of_reach hlog.reach)
    exact recorded_once_of_logged hcond hfinishes (Nat.zero_lt_of_lt hcells) hlog hok hlive

/-! ### Two judge cases of one run -/

/-- One run with a judge case for each of the models 1 and 2. -/
def twoJudgePlan (path : Path) : Plan where
  path := path
  campaignId := 1
  runs := [1, 1]
  cells := [⟨soloRun .running, 1, [judgeCase 1]⟩, ⟨soloRun .running, 2, [judgeCase 1]⟩]

/-- The case of the first cell. -/
def firstCase : SampleCursor :=
  ⟨⟨⟨soloRun .running, 1, [judgeCase 1]⟩, "m1", false, 0, []⟩, judgeCase 1, 1, false⟩

/-- The answer every sample gets. -/
def firstAnswer : AnswerOutcome := .answered "a" 1 none none

/-- The feeder hands the next cell over and the worker opens its case. -/
def openingLabels : List Label :=
  [.main, .exam 0 .go, .handCell 0, .exam 0 (.setup (.ready "m1")), .exam 0 .go]

/-- The case is asked, its cell ends, and its vote arrives up to the point where the run is
recorded if it is finished. -/
def judgingLabels : List Label :=
  [.exam 0 .go, .exam 0 (.answer firstAnswer), .exam 0 .go, .exam 0 .go, .exam 0 .go,
    .judge 0 .go, .handJob 0 0, .exam 0 .go, .exam 0 .go, .exam 0 .go, .exam 0 .go, .exam 0 .go,
    .judge 0 .go, .judge 0 (.verdict (.scored 1 none none)), .judge 0 .go, .judge 0 .go,
    .judge 0 .go, .judge 0 .go, .judge 0 .go]

/-- The pools close and the campaign settles. -/
def settlingLabels : List Label :=
  [.main, .exam 0 .go, .exam 0 .go, .main, .judge 0 .go, .judge 0 .go, .judge 0 .go, .main, .main,
    .main, .main, .main, .main, .main, .main, .main]

/-- The script of the runs below: every sample is answered, every vote is a one. -/
def onesScript : Script := ⟨fun _ => firstAnswer, fun _ _ => some 1⟩

/-- A list of labels that replays under the script is a scripted run. -/
theorem exists_logged_of_replay {as : List Label}
    (h : Transition.replayWith (step env plan)
      (fun s a => a.follows firstCase.unit onesScript s = true) s₁ as = some s₂) :
    ∃ log, Transition.Logged (step env plan) (Follows firstCase.unit onesScript) (finishes plan)
      s₁ s₂ log :=
  ((Transition.Reach.of_replayWith h).mono fun _ _ hfollows =>
    follows_of_label hfollows).exists_logged _

/-- The batch of one judge case is written once and recorded once. -/
theorem confluent_of_logged_solo : ∃ (s : State) (log : List (State × ℕ)),
    Transition.Logged (step soloEnv soloPlan) Transition.anyStep (finishes soloPlan)
      (soloPlan.start soloEnv soloStore) s log ∧
    s.main = .returned ∧ (s.store.unitRows ⟨1, 1, 1⟩).map (·.score) = [some 1] ∧
      log.countP (·.2 = 1) = 1 := by
  -- up to the opening of the case anything may happen, after it the script is followed
  obtain ⟨s₁, hs₁⟩ : ∃ s, Transition.replay (step soloEnv soloPlan)
      (soloPlan.start soloEnv soloStore) (.main :: openingLabels) = some s := ⟨_, rfl⟩
  obtain ⟨log₁, h₁⟩ := (Transition.Reach.of_replay hs₁).exists_logged (finishes soloPlan)
  obtain ⟨s₂, hs₂⟩ : ∃ s, Transition.replayWith (step soloEnv soloPlan)
      (fun s a => a.follows firstCase.unit onesScript s = true) s₁
      (judgingLabels ++ [.judge 0 .go] ++ settlingLabels.take 14) = some s := by
    cases hs₁
    exact ⟨_, rfl⟩
  obtain ⟨log₂, h₂⟩ := exists_logged_of_replay hs₂
  have hend : s₂.main = .returned ∧ s₂.mem.canceled = false := by
    cases hs₁
    cases hs₂
    exact ⟨rfl, rfl⟩
  obtain ⟨⟨row, hscore, -, hrow⟩, hfinish⟩ := confluent_of_logged (k := firstCase)
    (σ := onesScript) (List.nodup_iff_count_le_one.mp (by decide)) rfl (by decide) h₁
    (by cases hs₁; exact List.mem_singleton_self _)
    h₂ hend.2
  have hrest : Transition.Logged (step soloEnv soloPlan) Transition.anyStep (finishes soloPlan)
    s₁ s₂ log₂ := h₂.mono fun _ _ _ => trivial
  refine ⟨s₂, log₁ ++ log₂, h₁.trans hrest, hend.1, ?_, (hfinish (.inl rfl) rfl).2.2 hend.1⟩
  have hrows : s₂.store.unitRows ⟨1, 1, 1⟩ = [] ++ [row] := hrow hend.1
  rw [hrows, List.nil_append, List.map_singleton, hscore]
  decide +kernel

/-- **Recording between two cells.** A resume of two cells of a run records it done with the
vote of the first, before the second has been asked. -/
theorem not_confluent_of_logged :
    ¬ ∀ (env : Env) (plan : Plan) (st : Store) (k : SampleCursor) (σ : Script) (s₁ s₂ : State)
        (log₁ log₂ : List (State × ℕ)),
      (∀ v, plan.planned v ≤ 1) → k.case.verdictType = .judge → k.judges.length ≤ 3 →
      Transition.Logged (step env plan) Transition.anyStep (finishes plan)
        (plan.start env st) s₁ log₁ →
      .openCase k ∈ s₁.exam →
      Transition.Logged (step env plan) (Follows k.unit σ) (finishes plan) s₁ s₂ log₂ →
      s₂.mem.canceled = false → s₂.main = .returned → plan.path.finishesRuns = true →
        (log₁ ++ log₂).countP (·.2 = k.unit.runId) = 1 ∧
          ∀ t, (t, k.unit.runId) ∈ log₁ ++ log₂ →
            Complete plan k.unit.runId t ∧ t.mem.pipe.judgePending k.unit.runId = 0 := by
  intro h
  obtain ⟨s₁, hs₁⟩ : ∃ s, Transition.replay (step soloEnv (twoJudgePlan .resumeCampaign))
      ((twoJudgePlan .resumeCampaign).start soloEnv soloStore) (.main :: openingLabels) = some s :=
    ⟨_, rfl⟩
  obtain ⟨log₁, h₁⟩ :=
    (Transition.Reach.of_replay hs₁).exists_logged (finishes (twoJudgePlan .resumeCampaign))
  -- `t` records the run, `t'` is the state after it
  obtain ⟨t, ht⟩ : ∃ t, Transition.replayWith (step soloEnv (twoJudgePlan .resumeCampaign))
      (fun s a => a.follows firstCase.unit onesScript s = true) s₁ judgingLabels = some t := by
    cases hs₁
    exact ⟨_, rfl⟩
  obtain ⟨logₜ, hlogₜ⟩ := exists_logged_of_replay ht
  obtain ⟨t', ht'⟩ : ∃ t', step soloEnv (twoJudgePlan .resumeCampaign) t (.judge 0 .go) =
      some t' := by
    cases hs₁
    cases ht
    exact ⟨_, rfl⟩
  obtain ⟨s₂, hs₂⟩ : ∃ s, Transition.replayWith (step soloEnv (twoJudgePlan .resumeCampaign))
      (fun s a => a.follows firstCase.unit onesScript s = true) t'
      (.judge 0 .go :: openingLabels ++ judgingLabels ++ settlingLabels) = some s := by
    cases hs₁
    cases ht
    cases ht'
    exact ⟨_, rfl⟩
  obtain ⟨log₂, h₂⟩ := exists_logged_of_replay hs₂
  have hend : s₂.main = .returned ∧ s₂.mem.canceled = false := by
    cases hs₁
    cases ht
    cases ht'
    cases hs₂
    exact ⟨rfl, rfl⟩
  have hrecords : (t, 1) ∈ finishes (twoJudgePlan .resumeCampaign) t (.judge 0 .go) ∧
      t.mem.hist.ended = [⟨soloRun .running, 1, [judgeCase 1]⟩] := by
    cases hs₁
    cases ht
    exact ⟨List.mem_singleton_self _, rfl⟩
  have hfollows : Follows firstCase.unit onesScript t (.judge 0 .go) := trivial
  have hrun := (hlogₜ.tail hfollows ht').trans h₂
  obtain ⟨-, hcomplete⟩ := h soloEnv (twoJudgePlan .resumeCampaign) soloStore firstCase onesScript
    s₁ s₂ log₁ _ (List.nodup_iff_count_le_one.mp (by decide)) rfl (by decide) h₁
    (by cases hs₁; exact List.mem_singleton_self _) hrun hend.2 hend.1 rfl
  have hmem : (t, 1) ∈ log₁ ++ (logₜ ++ finishes (twoJudgePlan .resumeCampaign) t (.judge 0 .go) ++
      log₂) := by
    simp only [List.mem_append]
    exact .inr (.inl (.inr hrecords.1))
  have hcell := (hcomplete t hmem).1.1 ⟨soloRun .running, 2, [judgeCase 1]⟩
    (by simp [twoJudgePlan]) rfl
  rw [hrecords.2] at hcell
  simp [soloRun] at hcell

end HubScope
