import HubScope.Evaluator.RunFinish
import HubScope.Server.Grid

/-!
# A run is finished once

The finish flag of a run is set in one lock section, by whoever finds its cells done and no
vote pending, and who set it records the run. So when an execution returns with its context
live, each of its runs that it asked anything for was recorded done once; and where the
driver counts a run's cells, or the run has at most one, that happened with all cells ended
and all votes stored.

## Main definitions

* `FlagStep` — how a step moves the finish flags
* `finishes` — the runs a step records done, with the state it does so in
* `finishLedger` — the finish flag and those who are about to record it

## Main results

* `finished_flags_of_reach` — a run flagged finished has its cells done and no vote pending
* `finished_of_returned` — what was asked is flagged finished when the execution returns
* `recorded_once_of_logged` — it is recorded once, when complete
-/

set_option autoImplicit false

namespace HubScope

variable {env : Env} {plan : Plan} {st st' : Store} {m m' : Shared} {s s' : State} {r : ℕ}

/-! ### How a step moves the flags -/

/-- A step leaves the finish flags, the cell marks and the pending counts alone, or it is one
of the three lock sections that move them. -/
inductive FlagStep (s : State) (p : Pipeline) : Prop
  | quiet : p.finished = s.mem.pipe.finished → p.cellsDone = s.mem.pipe.cellsDone →
      p.judgePending = s.mem.pipe.judgePending → FlagStep s p
  | marked (r : ℕ) : p = (s.mem.pipe.markCellsDone r).1 → FlagStep s p
  | registered (k : SampleCursor) (id : ℕ) : .enqueue k id ∈ s.exam →
      p = s.mem.pipe.registerVotes k.sample k.judges.length → FlagStep s p
  | decremented (j : JudgeJob) : .decrement j ∈ s.judge →
      p = (s.mem.pipe.decrementPending j.unit.runId).1 → FlagStep s p

theorem Step.flagStep {a : Label} (h : Step env plan s a s') : FlagStep s s'.mem.pipe := by
  cases h with
  | main hm =>
    generalize s.main = pc at hm
    cases hm with
    | marked r rs | markedLast r rs => exact .marked r rfl
    | _ => exact .quiet rfl rfl rfl
  | @exam i c pc st' m' pc' hi he =>
    cases he with
    | opened k =>
      obtain ⟨aggs, hp⟩ := Pipeline.openCase_eq s.mem.pipe k.unit k.inCell.modelId k.profile
        (env.samples k.case)
      simp only [hp]
      exact .quiet rfl rfl rfl
    | recorded k id text latencyMs i o cost p hp =>
      obtain ⟨agg, agg', -, rfl, -⟩ := Pipeline.recordAnswer_spec hp
      exact .quiet rfl rfl rfl
    | settled k median p hp | completed k median p agg hp =>
      obtain ⟨aggs, rfl⟩ := Pipeline.settleSample_eq hp
      exact .quiet rfl rfl rfl
    | registered k id => exact .registered k id (List.mem_of_getElem? hi) rfl
    | reported cell answered | reportedLast cell answered =>
      obtain ⟨n, hpipe⟩ := reportCell_pipe plan (s.mem.endCell cell) cell.run.id answered
      simp only [hpipe]
      exact .quiet rfl rfl rfl
    | marked r | markedLast r => exact .marked r rfl
    | _ => exact .quiet rfl rfl rfl
  | @judge i c pc st' m' pc' hi he =>
    cases he with
    | landed j score p hp | votesIn j score p median hp =>
      obtain ⟨votes, rfl⟩ := Pipeline.landVote_eq hp
      exact .quiet rfl rfl rfl
    | settled j median p hp | completed j median p agg hp =>
      obtain ⟨aggs, rfl⟩ := Pipeline.settleSample_eq hp
      exact .quiet rfl rfl rfl
    | decremented j | decrementedLast j => exact .decremented j (List.mem_of_getElem? hi) rfl
    | _ => exact .quiet rfl rfl rfl
  | _ => exact .quiet rfl rfl rfl

/-! ### What the flags say -/

/-- **Finished runs.** A run flagged finished has its cells marked and no vote pending. -/
theorem finished_flags_of_reach
    (hcond : plan.path.countsCells = true ∨ plan.cellCount r ≤ 1) (h : Reached env plan s)
    (hfinished : s.mem.pipe.finished r = true) :
    s.mem.pipe.cellsDone r = true ∧ s.mem.pipe.judgePending r = 0 := by
  refine Reached.invariant (I := fun t => t.mem.pipe.finished r = true →
    t.mem.pipe.cellsDone r = true ∧ t.mem.pipe.judgePending r = 0) ?_ ?_ (fun _ _ ht => ht) h
    hfinished
  · intro st hstart
    cases hstart
  · intro t a t' hrun ht hok hcases hfinished
    cases hcases.flagStep with
    | quiet hflag hcells hpending =>
      rw [hflag] at hfinished
      rw [hcells, hpending]
      exact ht hfinished
    | marked r' hp =>
      rw [hp] at hfinished ⊢
      exact markCellsDone_flags ht hfinished
    | registered k id hpc hp =>
      rw [hp] at hfinished ⊢
      obtain ⟨hcells, hpending⟩ := ht hfinished
      -- a run that is out of cells registers no vote
      have hne : r ≠ k.unit.runId := fun hr =>
        cellsDone_eq_false_of_cell (cellsMarked_of_reach hcond hrun) hrun hok hpc rfl hr.symm
          hcells
      refine ⟨hcells, ?_⟩
      change Function.update _ k.unit.runId _ r = 0
      rw [Function.update_of_ne hne]
      exact hpending
    | decremented j hpc hp =>
      rw [hp] at hfinished ⊢
      exact decrementPending_flags ht (judgePending_pos hrun hok hpc) hfinished

/-- The lock section that finds a run ready flags it. -/
theorem finished_of_runFinishedLocked {p : Pipeline} (hcells : p.cellsDone r = true)
    (hpending : p.judgePending r = 0) : (p.runFinishedLocked r).1.finished r = true := by
  unfold Pipeline.runFinishedLocked
  split_ifs with h
  · rcases h with h | h | h
    · exact h
    · exact absurd hcells h
    · exact absurd hpending h
  · exact Function.update_self ..

/-- A run with its cells marked and no vote pending is flagged finished. -/
theorem finished_of_reach (h : Reached env plan s) (hok : s.mem.panicked = false)
    (hcells : s.mem.pipe.cellsDone r = true) (hpending : s.mem.pipe.judgePending r = 0) :
    s.mem.pipe.finished r = true := by
  refine Reached.invariant (I := fun t => t.mem.panicked = false →
    t.mem.pipe.cellsDone r = true → t.mem.pipe.judgePending r = 0 →
      t.mem.pipe.finished r = true) ?_ ?_ (fun _ _ ht => ht) h hok hcells hpending
  · intro st _ hstart
    cases hstart
  · intro t a t' hrun ht hok hcases hok' hcells hpending
    cases hcases.flagStep with
    | quiet hflag hcells' hpending' =>
      rw [hcells'] at hcells
      rw [hpending'] at hpending
      rw [hflag]
      exact ht hok hcells hpending
    | marked r' hp =>
      rw [hp] at hcells hpending ⊢
      by_cases hr : r = r'
      · subst hr
        apply finished_of_runFinishedLocked (Function.update_self ..)
        rwa [Pipeline.markCellsDone_judgePending] at hpending
      · rw [Pipeline.markCellsDone_cellsDone, Function.update_of_ne hr] at hcells
        rw [Pipeline.markCellsDone_judgePending] at hpending
        rw [Pipeline.markCellsDone_finished, ht hok hcells hpending, Bool.true_or]
    | registered k id hpc hp =>
      rw [hp] at hcells hpending ⊢
      change Function.update _ k.unit.runId _ r = 0 at hpending
      by_cases hr : r = k.unit.runId
      · -- votes are registered for a jury that is not empty
        subst hr
        have hjury := List.length_pos_of_ne_nil (ready_of_reach hrun _ hpc)
        have hcount := judgePending_of_reach k.unit.runId hrun hok
        rw [Function.update_self] at hpending
        change t.mem.pipe.judgePending k.unit.runId + (k.judges.length : ℤ) = 0 at hpending
        omega
      · rw [Function.update_of_ne hr] at hpending
        exact ht hok hcells hpending
    | decremented j hpc hp =>
      rw [hp] at hcells hpending ⊢
      rw [Pipeline.decrementPending_cellsDone] at hcells
      by_cases hr : r = j.unit.runId
      · subst hr
        rw [Pipeline.decrementPending_judgePending] at hpending
        unfold Pipeline.decrementPending
        exact finished_of_runFinishedLocked hcells hpending
      · rw [Pipeline.decrementPending_judgePending, Function.update_of_ne hr] at hpending
        rw [Pipeline.decrementPending_finished, ht hok hcells hpending, Bool.true_or]

/-! ### The finishing steps -/

/-- Whether an exam worker is about to record the run done. -/
def ExamPc.finishing (r : ℕ) : ExamPc → ℕ
  | .finish r' => if r' = r then 1 else 0
  | _ => 0

/-- Whether a judge worker is about to record the run done. -/
def JudgePc.finishing (r : ℕ) : JudgePc → ℕ
  | .finish j => if j.unit.runId = r then 1 else 0
  | _ => 0

/-- Whether the driver is about to record the run done. -/
def MainPc.finishing (r : ℕ) : MainPc → ℕ
  | .beginFinish r' _ => if r' = r then 1 else 0
  | _ => 0

/-- The finish flag as the ledger counts it: one recording is owed for it. -/
def Pipeline.finishCount (p : Pipeline) (r : ℕ) : ℤ := if p.finished r then -1 else 0

/-- Who is about to record the run done, less the finish flag. -/
def finishLedger (r : ℕ) : Ledger where
  mem m := m.pipe.finishCount r
  main := MainPc.finishing r
  exam := ExamPc.finishing r
  judge := JudgePc.finishing r

/-- The runs a step records done, each with the state it does so in. -/
def finishes (plan : Plan) (s : State) (a : Label) : List (State × ℕ) :=
  if plan.path.finishesRuns then
    match a with
    | .main =>
      match s.main with
      | .beginFinish r _ => [(s, r)]
      | _ => []
    | .exam i _ =>
      match s.exam[i]? with
      | some (.finish r) => [(s, r)]
      | _ => []
    | .judge i _ =>
      match s.judge[i]? with
      | some (.finish j) => [(s, j.unit.runId)]
      | _ => []
    | _ => []
  else []

theorem finishing_of_cell? {pc : ExamPc} {cell : Cell} (h : pc.cell? = some cell) :
    pc.finishing r = 0 := by
  cases pc with
  | finish r' => cases h
  | _ => rfl

/-- A worker that steps has recorded the run if it was about to. -/
theorem countP_finishes_main (hfinishes : plan.path.finishesRuns = true) :
    (finishes plan s .main).countP (·.2 = r) = s.main.finishing r := by
  unfold finishes
  rw [if_pos hfinishes]
  generalize s.main = pc
  cases pc with
  | beginFinish r' rs => simp [MainPc.finishing, List.countP_singleton]
  | _ => rfl

theorem countP_finishes_exam {i : ℕ} {c : ExamChoice} {pc : ExamPc}
    (hfinishes : plan.path.finishesRuns = true) (hi : s.exam[i]? = some pc) :
    (finishes plan s (.exam i c)).countP (·.2 = r) = pc.finishing r := by
  unfold finishes
  rw [if_pos hfinishes]
  dsimp only
  rw [hi]
  cases pc with
  | finish r' => simp [ExamPc.finishing, List.countP_singleton]
  | _ => rfl

theorem countP_finishes_judge {i : ℕ} {c : JudgeChoice} {pc : JudgePc}
    (hfinishes : plan.path.finishesRuns = true) (hi : s.judge[i]? = some pc) :
    (finishes plan s (.judge i c)).countP (·.2 = r) = pc.finishing r := by
  unfold finishes
  rw [if_pos hfinishes]
  dsimp only
  rw [hi]
  cases pc with
  | finish j => simp [JudgePc.finishing, List.countP_singleton]
  | _ => rfl

/-- What a step records done, someone was about to. -/
theorem finishing_of_finishes {a : Label} {t : State} (h : (t, r) ∈ finishes plan s a) :
    t = s ∧ 0 < (finishLedger r).held s.toExec := by
  unfold finishes at h
  split_ifs at h
  · cases a with
    | main =>
      dsimp only at h
      split at h
      · rename_i r' rs hmain
        obtain ⟨rfl, rfl⟩ := Prod.mk.inj (List.mem_singleton.mp h)
        refine ⟨rfl, ?_⟩
        simp only [Ledger.held, finishLedger, hmain, MainPc.finishing, if_true]
        omega
      · cases h
    | exam i c =>
      dsimp only at h
      split at h
      · rename_i r' hi
        obtain ⟨rfl, rfl⟩ := Prod.mk.inj (List.mem_singleton.mp h)
        have hle := Ledger.exam_le_held (L := finishLedger r) hi
        have hone : (finishLedger r).exam (.finish r) = 1 := if_pos rfl
        rw [hone] at hle
        exact ⟨rfl, hle⟩
      · cases h
    | judge i c =>
      dsimp only at h
      split at h
      · rename_i j hi
        obtain ⟨rfl, rfl⟩ := Prod.mk.inj (List.mem_singleton.mp h)
        have hle := Ledger.judge_le_held (L := finishLedger j.unit.runId) hi
        have hone : (finishLedger j.unit.runId).judge (.finish j) = 1 := if_pos rfl
        rw [hone] at hle
        exact ⟨rfl, hle⟩
      · cases h
    | _ => cases h
  · cases h

/-! ### Recording a run -/

/-- The lock section that flags a run hands it over to be recorded. -/
theorem finishCount_runFinishedLocked (p : Pipeline) (r r' : ℕ) :
    (p.runFinishedLocked r').1.finishCount r +
        (if (p.runFinishedLocked r').2 = true ∧ r' = r then 1 else 0) = p.finishCount r := by
  rcases Pipeline.runFinishedLocked_spec (p := p) (r := r') with
    ⟨hlast, heq⟩ | ⟨hlast, hfinished, -, -, heq⟩
  · rw [hlast, heq, if_neg fun h => Bool.false_ne_true h.1, add_zero]
  · rw [hlast, heq]
    by_cases hr : r' = r
    · subst hr
      simp [Pipeline.finishCount, hfinished]
    · simp [Pipeline.finishCount, Function.update_of_ne (Ne.symm hr), hr]

theorem finishCount_markCellsDone (p : Pipeline) (r r' : ℕ) :
    (p.markCellsDone r').1.finishCount r +
        (if (p.markCellsDone r').2 = true ∧ r' = r then 1 else 0) = p.finishCount r :=
  finishCount_runFinishedLocked _ r r'

theorem finishCount_decrementPending (p : Pipeline) (r r' : ℕ) :
    (p.decrementPending r').1.finishCount r +
        (if (p.decrementPending r').2 = true ∧ r' = r then 1 else 0) = p.finishCount r :=
  finishCount_runFinishedLocked _ r r'

theorem MainStep.finishCount {examDone judgeDone : Bool} {pc pc' : MainPc}
    (h : MainStep plan st m examDone judgeDone pc st' m' pc') :
    m'.pipe.finishCount r + pc'.finishing r = m.pipe.finishCount r := by
  cases h with
  | marked r' rs hlast | markedLast r' rs hlast =>
    have hcount := finishCount_markCellsDone m.pipe r r'
    simp only [hlast, Bool.false_eq_true, false_and, true_and, if_false] at hcount
    simpa [MainPc.finishing] using hcount
  | _ => exact add_zero _

theorem ExamStep.finishCount {pc pc' : ExamPc} (h : ExamStep env plan st m pc st' m' pc') :
    m'.pipe.finishCount r + pc'.finishing r = m.pipe.finishCount r := by
  cases h with
  | marked r' hlast | markedLast r' hlast =>
    have hcount := finishCount_markCellsDone m.pipe r r'
    simp only [hlast, Bool.false_eq_true, false_and, true_and, if_false] at hcount
    simpa [ExamPc.finishing] using hcount
  | opened k =>
    obtain ⟨aggs, hp⟩ := Pipeline.openCase_eq m.pipe k.unit k.inCell.modelId k.profile
      (env.samples k.case)
    rw [hp]
    exact add_zero _
  | recorded k id text latencyMs i o cost p hp =>
    obtain ⟨agg, agg', -, rfl, -⟩ := Pipeline.recordAnswer_spec hp
    rw [finishing_of_cell? (cell?_routeSample _ _ _)]
    exact add_zero _
  | settled k median p hp =>
    obtain ⟨aggs, rfl⟩ := Pipeline.settleSample_eq hp
    rw [finishing_of_cell? (cell?_sampleDone k)]
    exact add_zero _
  | completed k median p agg hp =>
    obtain ⟨aggs, rfl⟩ := Pipeline.settleSample_eq hp
    exact add_zero _
  | wrote | offeredAll | dropped =>
    rw [finishing_of_cell? (cell?_sampleDone _)]
    exact add_zero _
  | reported cell answered | reportedLast cell answered =>
    obtain ⟨n, hpipe⟩ := reportCell_pipe plan (m.endCell cell) cell.run.id answered
    rw [hpipe]
    exact add_zero _
  | _ => exact add_zero _

theorem JudgeStep.finishCount {pc pc' : JudgePc} (h : JudgeStep env plan st m pc st' m' pc') :
    m'.pipe.finishCount r + pc'.finishing r = m.pipe.finishCount r := by
  cases h with
  | landed j score p hp | votesIn j score p median hp =>
    obtain ⟨votes, rfl⟩ := Pipeline.landVote_eq hp
    exact add_zero _
  | settled j median p hp | completed j median p agg hp =>
    obtain ⟨aggs, rfl⟩ := Pipeline.settleSample_eq hp
    exact add_zero _
  | decremented j hlast | decrementedLast j hlast =>
    have hcount := finishCount_decrementPending m.pipe r j.unit.runId
    simp only [hlast, Bool.false_eq_true, false_and, true_and, if_false] at hcount
    simpa [JudgePc.finishing] using hcount
  | _ => exact add_zero _

/-- A recording is owed for the flag until the step that makes it. -/
theorem finishes_step {a : Label} (hfinishes : plan.path.finishesRuns = true)
    (h : Step env plan s a s') :
    ((finishes plan s a).countP (·.2 = r) : ℤ) + (finishLedger r).value s' =
      (finishLedger r).value s := by
  cases h with
  | @main st' m pc' hm =>
    rw [countP_finishes_main hfinishes]
    have hcount := hm.finishCount (r := r)
    simp only [Ledger.value, Ledger.held, finishLedger]
    omega
  | @exam i c pc st' m pc' hi he =>
    rw [countP_finishes_exam hfinishes hi]
    have hcount := he.finishCount (r := r)
    have hvalue := (finishLedger r).value_exam hi st' m pc'
    simp only [finishLedger] at hvalue ⊢
    omega
  | @judge i c pc st' m pc' hi he =>
    rw [countP_finishes_judge hfinishes hi]
    have hcount := he.finishCount (r := r)
    have hvalue := (finishLedger r).value_judge hi st' m pc'
    simp only [finishLedger] at hvalue ⊢
    omega
  -- handing a cell over moves the worker that takes it and the feeder that offers it; neither
  -- finishes a run
  | @handCell i c cs hmain hi =>
    have hset := Pool.total_set (f := ExamPc.finishing r) hi (.setup c)
    have hmeasure : ExamPc.finishing r (.setup c) = ExamPc.finishing r .select := rfl
    have hfeed : MainPc.finishing r (.feed cs) = MainPc.finishing r (.offer c cs) := rfl
    simp only [finishes, ite_self, List.countP_nil, Ledger.value, Ledger.held, finishLedger, hmain]
    omega
  | @handJob i j k job jobs hi hj =>
    have hexam := Pool.total_set (f := ExamPc.finishing r) hi (.noteOffered k jobs)
    have hjudge := Pool.total_set (f := JudgePc.finishing r) hj (.take job)
    have hnote : ExamPc.finishing r (.noteOffered k jobs) =
      ExamPc.finishing r (.offer k (job :: jobs)) := rfl
    have htake : JudgePc.finishing r (.take job) = JudgePc.finishing r .select := rfl
    simp only [finishes, ite_self, List.countP_nil, Ledger.value, Ledger.held, finishLedger]
    omega
  | cancel | expire =>
    simp only [finishes, ite_self, List.countP_nil]
    exact zero_add _

section

variable {guard : State → Label → Prop} {log : List (State × ℕ)}

/-- **Recordings.** Each flagged run is recorded done once or about to be, and what was
recorded was flagged. -/
theorem finishes_of_logged (hfinishes : plan.path.finishesRuns = true)
    (h : Transition.Logged (step env plan) guard (finishes plan) (plan.start env st) s log) :
    (log.countP (·.2 = r) : ℤ) + (finishLedger r).value s = 0 ∧
      ∀ t, (t, r) ∈ log → Transition.Reach (step env plan) guard (plan.start env st) t ∧
        t.mem.panicked = false ∧ t.mem.pipe.finished r = true := by
  refine Transition.Logged.invariant_of
    (I := fun u bs => (bs.countP (·.2 = r) : ℤ) + (finishLedger r).value u = 0 ∧
      ∀ t, (t, r) ∈ bs → Transition.Reach (step env plan) guard (plan.start env st) t ∧
        t.mem.panicked = false ∧ t.mem.pipe.finished r = true)
    (J := fun t => Transition.Reach (step env plan) guard (plan.start env st) t)
    (fun _ ht => ht) ?_ ?_ h
  · refine ⟨?_, fun t ht => by cases ht⟩
    rw [Ledger.value_start st rfl rfl]
    rfl
  · rintro t bs a u hrun ⟨hcount, hlog⟩ - hstep
    obtain ⟨hok, hcases⟩ := step_cases hstep
    constructor
    · have hvalue := finishes_step (r := r) hfinishes hcases
      rw [List.countP_append]
      omega
    · intro t' ht'
      rcases List.mem_append.mp ht' with hold | hnew
      · exact hlog t' hold
      · obtain ⟨rfl, hheld⟩ := finishing_of_finishes hnew
        refine ⟨hrun, hok, ?_⟩
        -- who is about to record the run holds what its flag owes
        have hflag : (finishLedger r).mem t'.mem < 0 := by
          rw [Ledger.value] at hcount
          omega
        by_contra hnot
        rw [Bool.not_eq_true] at hnot
        simp [finishLedger, Pipeline.finishCount, hnot] at hflag

end

/-! ### Runs that end -/

/-- A run with all its cells ended is marked, or about to be. -/
def Marked (plan : Plan) (r : ℕ) (s : State) : Prop :=
  endedCount s.mem r = plan.cellCount r → s.mem.pipe.cellsDone r = true ∨ .mark r ∈ s.exam

theorem FlagStep.cellsDone {p : Pipeline} (h : FlagStep s p)
    (hdone : s.mem.pipe.cellsDone r = true) : p.cellsDone r = true := by
  cases h with
  | quiet _ hcells _ => rwa [hcells]
  | marked r' hp =>
    rw [hp, Pipeline.markCellsDone_cellsDone, Function.update_apply]
    split_ifs
    · rfl
    · exact hdone
  | registered k id _ hp => rwa [hp]
  | decremented j _ hp => rwa [hp, Pipeline.decrementPending_cellsDone]

/-- A step that ends no cell and leaves those about to mark a run alone. -/
theorem Marked.quiet (hs : Marked plan r s) (hended : s'.mem.hist.ended = s.mem.hist.ended)
    (hflag : FlagStep s s'.mem.pipe) (hmark : .mark r ∈ s.exam → .mark r ∈ s'.exam) :
    Marked plan r s' := by
  intro hall
  rw [endedCount, hended] at hall
  rcases hs hall with hdone | hmem
  · exact .inl (hflag.cellsDone hdone)
  · exact .inr (hmark hmem)

/-- The report of the last cell of a run is the one that marks it. -/
theorem reportCell_last {cell : Cell} {answered : Bool} (h : Reached env plan s)
    (hok : s.mem.panicked = false)
    (hall : endedCount s.mem cell.run.id + 1 = plan.cellCount cell.run.id) :
    (reportCell plan (s.mem.endCell cell) cell.run.id answered).2 = true := by
  by_cases hcounts : plan.path.countsCells = true
  · rw [(reportCell_counting hcounts _ _).2, decide_eq_true_eq]
    have hsum := remaining_add_ended (remaining_of_reach hcounts h hok cell.run.id)
    change s.mem.remaining cell.run.id - 1 = 0
    omega
  · unfold reportCell
    rw [if_neg hcounts]

theorem marked_step {a : Label} (hrun : Reached env plan s) (hok : s.mem.panicked = false)
    (hs : Marked plan r s) (h : Step env plan s a s') : Marked plan r s' := by
  have hflag := h.flagStep
  cases h with
  | main hm => exact hs.quiet hm.cells_eq.1 hflag id
  | judge hj he => exact hs.quiet he.cells_eq.1 hflag id
  | @exam i c pc st' m pc' hi he =>
    cases he with
    | reported cell answered hlast =>
      intro hall
      dsimp only at hall
      rw [endedCount_report] at hall
      by_cases hr : cell.run.id = r
      · -- the last cell of a run does not end unmarked
        subst hr
        rw [if_pos rfl] at hall
        exact absurd (hlast.symm.trans (reportCell_last hrun hok hall)) (by decide)
      · rw [if_neg hr, add_zero] at hall
        rcases hs hall with hdone | hmem
        · exact .inl (hflag.cellsDone hdone)
        · exact .inr (Pool.mem_set_of_ne hmem hi (by simp))
    | reportedLast cell answered hlast =>
      intro hall
      dsimp only at hall
      rw [endedCount_report] at hall
      by_cases hr : cell.run.id = r
      · subst hr
        exact .inr (List.mem_set (List.getElem?_eq_some_iff.mp hi).1 _)
      · rw [if_neg hr, add_zero] at hall
        rcases hs hall with hdone | hmem
        · exact .inl (hflag.cellsDone hdone)
        · exact .inr (Pool.mem_set_of_ne hmem hi (by simp))
    | marked r' hlast | markedLast r' hlast =>
      intro hall
      by_cases hr : r = r'
      · subst hr
        exact .inl (by simp)
      · rcases hs hall with hdone | hmem
        · exact .inl (hflag.cellsDone hdone)
        · exact .inr (Pool.mem_set_of_ne hmem hi (by simpa using hr))
    | _ => exact hs.quiet rfl hflag fun hmem => Pool.mem_set_of_ne hmem hi (by simp)
  | handCell hmain hi => exact hs.quiet rfl hflag fun hmem => Pool.mem_set_of_ne hmem hi (by simp)
  | handJob hi hj => exact hs.quiet rfl hflag fun hmem => Pool.mem_set_of_ne hmem hi (by simp)
  | cancel | expire => exact hs.quiet rfl hflag id

theorem marked_of_reach (hcells : 0 < plan.cellCount r) (h : Reached env plan s) :
    Marked plan r s := by
  refine Reached.invariant ?_ (fun _ _ _ hrun hs hok hcases => marked_step hrun hok hs hcases)
    (fun _ _ hs => hs) h
  intro st hall
  have hzero : endedCount (plan.start env st).mem r = 0 := rfl
  omega

/-- **Finished runs at the end.** When an execution returns with its context live, each run it
asked something for is flagged finished. -/
theorem finished_of_returned (hcells : 0 < plan.cellCount r) (h : Reached env plan s)
    (hok : s.mem.panicked = false) (hlive : s.mem.canceled = false)
    (hreturned : s.main = .returned) : s.mem.pipe.finished r = true := by
  have haccounted := accounted_of_reach h
  -- every cell has ended and no worker is left, so the run is marked
  have hended : endedCount s.mem r = plan.cellCount r := by
    have hvalue := cellLedger_of_reach (fun c => c.run.id = r) h hok
    rw [Ledger.value, held_of_returned _ rfl rfl (by rw [cellLedger]; rfl) h hreturned] at hvalue
    simp only [cellLedger, haccounted.unfed hlive, List.countP_nil] at hvalue
    rw [endedCount, Plan.cellCount]
    omega
  have hmarked : s.mem.pipe.cellsDone r = true := by
    refine (marked_of_reach hcells h hended).resolve_right fun hmem => ?_
    have hexited := ((control_of_reach h).no_worker (by rw [hreturned]; rfl)).1 _ hmem
    cases hexited
  -- every vote is stored
  have hpending : s.mem.pipe.judgePending r = 0 := by
    rw [judgePending_of_reach r h hok, held_of_returned _ rfl rfl rfl h hreturned,
      haccounted.dropped hlive]
    rfl
  exact finished_of_reach h hok hmarked hpending

/-- **One recording.** In an execution that counts a run's cells, or has one cell of it, the
run is recorded done at most once, with all its cells ended, all its votes stored and none
pending; and exactly once when the execution returned with its context live. -/
theorem recorded_once_of_logged {guard : State → Label → Prop} {log : List (State × ℕ)}
    (hcond : plan.path.countsCells = true ∨ plan.cellCount r ≤ 1)
    (hfinishes : plan.path.finishesRuns = true) (hcells : 0 < plan.cellCount r)
    (h : Transition.Logged (step env plan) guard (finishes plan) (plan.start env st) s log)
    (hok : s.mem.panicked = false) (hlive : s.mem.canceled = false) :
    (∀ t, (t, r) ∈ log → Complete plan r t ∧ t.mem.pipe.judgePending r = 0) ∧
      log.countP (·.2 = r) ≤ 1 ∧ (s.main = .returned → log.countP (·.2 = r) = 1) := by
  obtain ⟨hcount, hlog⟩ := finishes_of_logged (r := r) hfinishes h
  have hreached := reached_of_reach h.reach
  -- a set flag counts as one finish made; it is set at most once
  have hflag : -1 ≤ (finishLedger r).mem s.mem := by
    simp only [finishLedger, Pipeline.finishCount]
    split_ifs
    · omega
    · omega
  refine ⟨?_, ?_, ?_⟩
  · intro t ht
    obtain ⟨hrun, hlive', hfinished⟩ := hlog t ht
    have hreached' := reached_of_reach hrun
    obtain ⟨hdone, hpending⟩ := finished_flags_of_reach hcond hreached' hfinished
    have hmarked := cellsMarked_of_reach hcond hreached'
    exact ⟨complete_of_flags hmarked hrun hlive' hdone hpending, hpending⟩
  · rw [Ledger.value] at hcount
    omega
  · intro hreturned
    -- after the return no worker owes the finish, so the set flag is the one made
    have hfinished := finished_of_returned hcells hreached hok hlive hreturned
    rw [Ledger.value, held_of_returned _ rfl rfl rfl hreached hreturned] at hcount
    simp only [finishLedger, Pipeline.finishCount, hfinished, if_true] at hcount
    omega

end HubScope
