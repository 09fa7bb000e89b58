import HubScope.Evaluator.Cells

/-!
# Where the votes of an execution are

A vote registered for a sample is on offer, with a judge worker, dropped by the offer loop
or stored. The run's pending count is the number of votes on offer, with a judge worker or
dropped: a dropped vote is never taken off it, so a run with a dropped vote never finishes.

## Main definitions

* `ExamPc.jobs`, `JudgePc.pending?`, `JudgePc.unrecorded?` — the votes a worker holds
* `pendingLedger` — the votes a run's pending count stands for
* `voteLedger` — the votes with a property, wherever they are

## Main results

* `judgePending_of_reach` — the pending count counts votes in flight and dropped votes
* `voteLedger_of_reach` — every registered vote is accounted for
* `verdict_stored_of_reach` — a recorded vote's slot is in the store
-/

set_option autoImplicit false

namespace HubScope

variable {env : Env} {plan : Plan} {st st' : Store} {m m' : Shared} {s s' : State}

/-! ### Positions of a vote -/

/-- The votes an exam worker still has to hand over. -/
def ExamPc.jobs : ExamPc → List JudgeJob
  | .offer _ jobs | .noteOffered _ jobs => jobs
  | _ => []

/-- The vote a judge worker has not taken off its run's pending count. -/
def JudgePc.pending? : JudgePc → Option JudgeJob
  | .take j | .call j | .record j _ | .land j _ | .settle j _ | .write j _ | .decrement j => some j
  | .check | .select | .finish _ | .noteDone _ | .exited => none

/-- The vote a judge worker has not stored. -/
def JudgePc.unrecorded? : JudgePc → Option JudgeJob
  | .take j | .call j | .record j _ => some j
  | _ => none

@[simp] theorem jobs_offer (k : SampleCursor) (jobs : List JudgeJob) :
    (ExamPc.offer k jobs).jobs = jobs := rfl

@[simp] theorem jobs_caseDone (k : SampleCursor) : (caseDone plan k).jobs = [] :=
  caseDone_rule k (fun _ => rfl) fun _ _ => rfl

@[simp] theorem jobs_sampleDone (k : SampleCursor) : (sampleDone env plan k).jobs = [] :=
  sampleDone_rule k (fun _ => rfl) fun _ => jobs_caseDone k

@[simp] theorem jobs_routeSample (k : SampleCursor) (id : ℕ) (text : String) :
    (routeSample env k id text).jobs = [] :=
  routeSample_rule k id text (fun _ => rfl) fun _ => rfl

@[simp] theorem length_jobsOf (k : SampleCursor) (id : ℕ) :
    (jobsOf k id).length = k.judges.length := by
  simp [jobsOf]

theorem mem_jobsOf {k : SampleCursor} {id : ℕ} {j : JudgeJob} (h : j ∈ jobsOf k id) :
    j.unit = k.unit ∧ j.sampleNo = k.sampleNo ∧ j.answerId = id ∧
      k.judges[j.slot]? = some j.judgeModel := by
  obtain ⟨⟨judgeModel, slot⟩, hmem, rfl⟩ := List.mem_map.mp h
  exact ⟨rfl, rfl, rfl, by simpa using List.mem_zipIdx_iff_getElem?.mp hmem⟩

/-- A property of the unit and the sample number holds of all jobs of a sample or of none. -/
theorem countP_jobsOf (k : SampleCursor) (id : ℕ) (P : UnitKey → ℕ → Bool) :
    (jobsOf k id).countP (fun j => P j.unit j.sampleNo) =
      if P k.unit k.sampleNo then k.judges.length else 0 := by
  by_cases hP : P k.unit k.sampleNo = true
  · rw [if_pos hP, ← length_jobsOf k id, List.countP_eq_length]
    intro j hj
    obtain ⟨hunit, hsample, -⟩ := mem_jobsOf hj
    rw [hunit, hsample, hP]
  · rw [if_neg hP, List.countP_eq_zero]
    intro j hj
    obtain ⟨hunit, hsample, -⟩ := mem_jobsOf hj
    rwa [hunit, hsample]

/-! ### The pending count of a run -/

/-- The votes of a run that are on offer, with a judge worker or dropped, less the run's
pending count. -/
def pendingLedger (r : ℕ) : Ledger where
  mem m := m.hist.dropped.countP (·.unit.runId = r) - m.pipe.judgePending r
  main _ := 0
  exam pc := pc.jobs.countP (·.unit.runId = r)
  judge pc := pc.pending?.toList.countP (·.unit.runId = r)

theorem pendingLedger_law (r : ℕ) : (pendingLedger r).Law (· = ·) env plan s where
  main pc st m pc' _ h := by
    cases h with
    | marked | markedLast =>
      simp only [pendingLedger, Pipeline.markCellsDone_judgePending]
    | _ => rfl
  exam pc st m pc' _ h hok := by
    cases h with
    | opened k =>
      obtain ⟨aggs, haggs⟩ := Pipeline.openCase_eq s.mem.pipe k.unit k.inCell.modelId k.profile
        (env.samples k.case)
      simp only [pendingLedger, haggs]
      rfl
    | recorded k id text latencyMs i o cost p hp =>
      obtain ⟨agg, agg', -, rfl, -⟩ := Pipeline.recordAnswer_spec hp
      simp only [pendingLedger, jobs_routeSample]
      rfl
    | settled k median p hp =>
      obtain ⟨aggs, rfl⟩ := Pipeline.settleSample_eq hp
      simp only [pendingLedger, jobs_sampleDone]
      rfl
    | completed k median p agg hp =>
      obtain ⟨aggs, rfl⟩ := Pipeline.settleSample_eq hp
      rfl
    | wrote | offeredAll =>
      simp only [pendingLedger, jobs_sampleDone]
      rfl
    | registered k id =>
      -- the votes that are registered at once are pending at once
      simp only [pendingLedger, Pipeline.registerVotes, Function.update_apply, ExamPc.jobs,
        countP_jobsOf k id fun u _ => u.runId = r, SampleCursor.sample, decide_eq_true_eq,
        Shared.enqueueVotes, List.countP_nil]
      by_cases hr : k.unit.runId = r
      · subst hr
        simp only [if_true]
        omega
      · rw [if_neg hr, if_neg (Ne.symm hr)]
    | dropped k jobs =>
      simp only [pendingLedger, jobs_sampleDone, jobs_offer, Shared.dropVotes, List.countP_append,
        List.countP_nil]
      omega
    | reported cell answered | reportedLast cell answered =>
      obtain ⟨n, hpipe⟩ := reportCell_pipe plan (s.mem.endCell cell) cell.run.id answered
      simp only [pendingLedger, reportCell_hist, hpipe]
      rfl
    | marked | markedLast =>
      simp only [pendingLedger, Pipeline.markCellsDone_judgePending]
      rfl
    | recordCrash | settleCrash => simp [Shared.panic] at hok
    | _ => rfl
  judge pc st m pc' _ h hok := by
    cases h with
    | landed j score p hp | votesIn j score p median hp =>
      obtain ⟨votes, rfl⟩ := Pipeline.landVote_eq hp
      rfl
    | settled j median p hp | completed j median p agg hp =>
      obtain ⟨aggs, rfl⟩ := Pipeline.settleSample_eq hp
      rfl
    | decremented j | decrementedLast j =>
      simp only [pendingLedger, Pipeline.decrementPending_judgePending, Function.update_apply,
        JudgePc.pending?, Option.toList_none, Option.toList_some, List.countP_nil,
        List.countP_singleton, decide_eq_true_eq]
      by_cases hr : j.unit.runId = r
      · subst hr
        simp only [if_true]
        omega
      · rw [if_neg hr, if_neg (Ne.symm hr)]
    | settleCrash => simp [Shared.panic] at hok
    | _ => rfl
  handCell c cs := rfl
  handJob k job jobs := by
    change jobs.countP (·.unit.runId = r) + [job].countP (·.unit.runId = r) =
      (job :: jobs).countP (·.unit.runId = r) + 0
    rw [Nat.add_zero, Nat.add_comm, ← List.countP_append]
    rfl

/-! ### Every vote -/

/-- The votes with property `P`: on offer, with a judge worker, dropped or stored, less the
registered ones. -/
def voteLedger (P : JudgeJob → Bool) : Ledger where
  mem m := m.hist.dropped.countP P + m.hist.verdicts.countP (P ·.1) - m.hist.enqueued.countP P
  main _ := 0
  exam pc := pc.jobs.countP P
  judge pc := pc.unrecorded?.toList.countP P

theorem voteLedger_law (P : JudgeJob → Bool) : (voteLedger P).Law (· = ·) env plan s where
  main pc st m pc' _ h := by
    cases h <;> rfl
  exam pc st m pc' _ h hok := by
    cases h with
    | recorded =>
      simp only [voteLedger, jobs_routeSample]
      rfl
    | settled | wrote | offeredAll =>
      simp only [voteLedger, jobs_sampleDone]
      rfl
    | registered k id =>
      simp only [voteLedger, Shared.enqueueVotes, List.countP_append, ExamPc.jobs, List.countP_nil]
      omega
    | dropped k jobs =>
      simp only [voteLedger, jobs_sampleDone, jobs_offer, Shared.dropVotes, List.countP_append,
        List.countP_nil]
      omega
    | reported cell answered | reportedLast cell answered =>
      simp only [voteLedger, reportCell_hist]
      rfl
    | recordCrash | settleCrash => simp [Shared.panic] at hok
    | _ => rfl
  judge pc st m pc' _ h hok := by
    cases h with
    | recorded j o =>
      simp only [voteLedger, List.countP_append, List.countP_singleton, JudgePc.unrecorded?,
        Option.toList_none, Option.toList_some, List.countP_nil]
      split_ifs <;> omega
    | settleCrash => simp [Shared.panic] at hok
    | _ => rfl
  handCell c cs := rfl
  handJob k job jobs := by
    change jobs.countP P + [job].countP P = (job :: jobs).countP P + 0
    rw [Nat.add_zero, Nat.add_comm, ← List.countP_append]
    rfl

section

variable {guard : State → Label → Prop}

/-- **Pending votes.** A run's pending count is the number of its votes on offer, with a
judge worker or dropped. -/
theorem judgePending_of_reach (r : ℕ)
    (h : Reached env plan s) (hok : s.mem.panicked = false) :
    s.mem.pipe.judgePending r =
      s.mem.hist.dropped.countP (·.unit.runId = r) + (pendingLedger r).held s.toExec := by
  have hvalue : (pendingLedger r).value s = 0 := by
    refine Ledger.value_of_reach ?_ (fun _ _ _ _ => pendingLedger_law r) h hok
    intro st
    rw [Ledger.value_start st rfl rfl]
    simp [pendingLedger, Plan.startMem, newPipeline]
  simp only [Ledger.value, pendingLedger] at hvalue ⊢
  omega

/-- **Vote accounting.** Every registered vote is on offer, with a judge worker, dropped or
stored. -/
theorem voteLedger_of_reach (P : JudgeJob → Bool)
    (h : Reached env plan s) (hok : s.mem.panicked = false) :
    s.mem.hist.enqueued.countP P = s.mem.hist.dropped.countP P +
      s.mem.hist.verdicts.countP (P ·.1) + (voteLedger P).held s.toExec := by
  have hvalue : (voteLedger P).value s = 0 := by
    refine Ledger.value_of_reach ?_ (fun _ _ _ _ => voteLedger_law P) h hok
    intro st
    rw [Ledger.value_start st rfl rfl]
    simp [voteLedger, Plan.startMem]
  simp only [Ledger.value, voteLedger] at hvalue ⊢
  omega

/-- A vote not yet stored is pending. -/
theorem voteLedger_held_le {r : ℕ} {P : JudgeJob → Bool}
    (hP : ∀ j, P j = true → j.unit.runId = r) (e : Exec) :
    (voteLedger P).held e ≤ (pendingLedger r).held e := by
  have hmono : ∀ jobs : List JudgeJob, jobs.countP P ≤ jobs.countP (·.unit.runId = r) :=
    fun jobs => List.countP_mono_left fun j _ hj => by simpa using hP j hj
  have hexam : Pool.total (voteLedger P).exam e.exam ≤ Pool.total (pendingLedger r).exam e.exam :=
    Pool.total_mono fun pc _ => hmono pc.jobs
  have hjudge : Pool.total (voteLedger P).judge e.judge ≤
      Pool.total (pendingLedger r).judge e.judge := by
    refine Pool.total_mono fun pc _ => (hmono pc.unrecorded?.toList).trans ?_
    cases pc <;> simp [pendingLedger, JudgePc.unrecorded?, JudgePc.pending?]
  have hmain : (voteLedger P).main e.main = (pendingLedger r).main e.main := rfl
  unfold Ledger.held
  omega

/-! ### Stored votes -/

/-- The slot of a vote has a row in the store. -/
def recorded (st : Store) (j : JudgeJob) : Prop :=
  ∃ row ∈ st.judgeScores, row.answerId = j.answerId ∧ row.slot = j.slot

theorem recorded_createEvalJudgeScore {j : JudgeJob} (row : EvalJudgeScore)
    (h : recorded st j) : recorded (st.createEvalJudgeScore row) j := by
  obtain ⟨t, ht, hanswer, hslot⟩ := h
  exact ⟨t, st.subset_createEvalJudgeScore row ht, hanswer, hslot⟩

theorem recorded_of_createEvalJudgeScore (j : JudgeJob) (o : JudgeOutcome) :
    recorded (st.createEvalJudgeScore (judgeScoreRow j o)) j := by
  unfold Store.createEvalJudgeScore
  split
  · rename_i hrow
    obtain ⟨t, ht, hmatch⟩ := List.any_eq_true.mp hrow
    obtain ⟨hanswer, hslot⟩ := of_decide_eq_true hmatch
    exact ⟨t, ht, hanswer, hslot⟩
  · exact ⟨judgeScoreRow j o, by simp, rfl, rfl⟩

/-- Only judge workers store judge scores. -/
theorem ExamStep.judgeScores_eq {pc pc' : ExamPc} (h : ExamStep env plan st m pc st' m' pc') :
    st'.judgeScores = st.judgeScores ∧ m'.hist.verdicts = m.hist.verdicts := by
  cases h with
  | finished => exact ⟨by split <;> rfl, rfl⟩
  | reported | reportedLast => exact ⟨rfl, by rw [reportCell_hist]; rfl⟩
  | _ => exact ⟨rfl, rfl⟩

theorem MainStep.judgeScores_eq {examDone judgeDone : Bool} {pc pc' : MainPc}
    (h : MainStep plan st m examDone judgeDone pc st' m' pc') :
    st'.judgeScores = st.judgeScores ∧ m'.hist.verdicts = m.hist.verdicts := by
  cases h with
  | flushRun r rs _ hst =>
    subst hst
    exact ⟨by split <;> rfl, rfl⟩
  | tailRun => exact ⟨by split <;> rfl, rfl⟩
  | _ => exact ⟨rfl, rfl⟩

theorem JudgeStep.judgeScores_eq {pc pc' : JudgePc} (h : JudgeStep env plan st m pc st' m' pc') :
    st'.judgeScores = st.judgeScores ∧ m'.hist.verdicts = m.hist.verdicts ∨
      ∃ j o, pc = .record j o ∧ st' = st.createEvalJudgeScore (judgeScoreRow j o) ∧
        m'.hist.verdicts = m.hist.verdicts ++ [(j, o)] := by
  cases h with
  | recorded j o => exact .inr ⟨j, o, rfl, rfl, rfl⟩
  | finished => exact .inl ⟨by split <;> rfl, rfl⟩
  | _ => exact .inl ⟨rfl, rfl⟩

/-- **Stored votes.** A vote whose judge call was recorded has its slot in the store. -/
theorem verdict_stored_of_reach
    (h : Transition.Reach (step env plan) guard (plan.start env st) s) :
    ∀ v ∈ s.mem.hist.verdicts, recorded s.store v.1 := by
  induction h with
  | refl =>
    intro v hv
    simp [Plan.start, Plan.startExec, Plan.startMem] at hv
  | tail _ _ hstep ih =>
    obtain ⟨-, hcases⟩ := step_cases hstep
    intro v hv
    cases hcases with
    | main hm =>
      obtain ⟨hrows, hverdicts⟩ := hm.judgeScores_eq
      rw [hverdicts] at hv
      rw [recorded, hrows]
      exact ih v hv
    | exam hi he =>
      obtain ⟨hrows, hverdicts⟩ := he.judgeScores_eq
      rw [hverdicts] at hv
      rw [recorded, hrows]
      exact ih v hv
    | judge hj he =>
      rcases he.judgeScores_eq with ⟨hrows, hverdicts⟩ | ⟨j, o, -, rfl, hverdicts⟩
      · rw [hverdicts] at hv
        rw [recorded, hrows]
        exact ih v hv
      · rw [hverdicts] at hv
        rcases List.mem_append.mp hv with hv | hv
        · exact recorded_createEvalJudgeScore _ (ih v hv)
        · obtain rfl : v = (j, o) := by simpa using hv
          exact recorded_of_createEvalJudgeScore j o
    | _ => exact ih v hv

end

end HubScope
