import HubScope.Evaluator.Progress

/-!
# Where the cells of an execution are

A cell is with the feeder, with one exam worker, dropped by the feeder or ended: the four
add up to the plan. The retry driver's countdown of a run's cells is read off this, and a
run is marked only when none of its cells is left.

## Main definitions

* `ExamPc.cell?` — the cell an exam worker is in
* `cellLedger` — the cells with a property, wherever they are
* `endedCount` — how many cells of a run have ended
* `CellsMarked` — the runs marked as out of cells are

## Main results

* `cellLedger_of_reach` — every cell of the plan is accounted for
* `cellsMarked_of_reach` — a marked run has no cell left, if the driver counts its cells or
  the run has at most one
-/

set_option autoImplicit false

namespace HubScope

variable {env : Env} {plan : Plan} {st st' : Store} {m m' : Shared} {s s' : State}

/-! ### Positions of a cell -/

/-- The cell an exam worker is in, from its setup until its job has returned. -/
def ExamPc.cell? : ExamPc → Option Cell
  | .setup cell | .stamp cell _ _ _ | .report cell _ => some cell
  | .nextCase l => some l.cell
  | .openCase k | .call k | .persist k _ | .record k _ _ | .settle k _ | .write k _
  | .enqueue k _ | .offer k _ | .noteOffered k _ => some k.inCell.cell
  | .check | .select | .mark _ | .finish _ | .exited => none

@[simp] theorem cell?_caseDone (k : SampleCursor) :
    (caseDone plan k).cell? = some k.inCell.cell :=
  caseDone_rule k (fun _ => rfl) fun _ _ => rfl

@[simp] theorem cell?_sampleDone (k : SampleCursor) :
    (sampleDone env plan k).cell? = some k.inCell.cell :=
  sampleDone_rule k (fun _ => rfl) fun _ => cell?_caseDone k

@[simp] theorem cell?_routeSample (k : SampleCursor) (id : ℕ) (text : String) :
    (routeSample env k id text).cell? = some k.inCell.cell :=
  routeSample_rule k id text (fun _ => rfl) fun _ => rfl

/-- The cells with property `P`: with the feeder, with an exam worker, dropped or ended. -/
def cellLedger (plan : Plan) (P : Cell → Bool) : Ledger where
  mem m := m.hist.ended.countP P + m.hist.unfed.countP P
  main pc := (plan.left pc).countP P
  exam pc := pc.cell?.toList.countP P
  judge _ := 0

@[simp] theorem reportCell_hist {runId : ℕ} {answered : Bool} :
    (reportCell plan m runId answered).1.hist = m.hist := by
  unfold reportCell
  split
  · split <;> rfl
  · rfl

theorem reportCell_pipe (plan : Plan) (m : Shared) (runId : ℕ) (answered : Bool) :
    ∃ n, (reportCell plan m runId answered).1.pipe = { m.pipe with examDone := n } := by
  unfold reportCell
  split
  · split
    · exact ⟨_, rfl⟩
    · exact ⟨m.pipe.examDone, rfl⟩
  · exact ⟨m.pipe.examDone, rfl⟩

theorem MainStep.hist_eq {examDone judgeDone : Bool} {pc pc' : MainPc}
    (h : MainStep plan st m examDone judgeDone pc st' m' pc') :
    ∃ cells, m'.hist = (m.dropCells cells).hist ∧ plan.left pc = cells ++ plan.left pc' := by
  cases h with
  | stopped c cs | overBudget c cs | dropped c cs => exact ⟨c :: cs, rfl, by simp [Plan.left]⟩
  | _ => exact ⟨[], by simp [Shared.dropCells], rfl⟩

theorem cellLedger_law (P : Cell → Bool) : (cellLedger plan P).Law (· = ·) env plan s where
  main pc st m pc' _ h := by
    obtain ⟨cells, hhist, hleft⟩ := h.hist_eq
    simp only [cellLedger, hhist, hleft, Shared.dropCells, List.countP_append]
    omega
  exam pc st m pc' _ h hok := by
    cases h with
    -- the cell goes from the worker that held it to the ended ones
    | reported | reportedLast =>
      simp only [cellLedger, reportCell_hist, Shared.endCell, ExamPc.cell?, List.countP_append,
        Option.toList_some, Option.toList_none, List.countP_nil]
      omega
    | settleCrash | recordCrash => simp [Shared.panic] at hok
    | recorded =>
      simp only [cellLedger, cell?_routeSample]
      rfl
    | settled | wrote | offeredAll | dropped =>
      simp only [cellLedger, cell?_sampleDone]
      rfl
    | _ => rfl
  judge pc st m pc' _ h _ := by
    cases h <;> rfl
  handCell c cs := by
    change [c].countP P + cs.countP P = 0 + (c :: cs).countP P
    rw [Nat.zero_add, ← List.countP_append]
    rfl

/-- **Cell accounting.** Every cell of the plan is with the feeder, with an exam worker,
dropped or ended. -/
theorem cellLedger_of_reach (P : Cell → Bool)
    (h : Reached env plan s) (hok : s.mem.panicked = false)
    : (cellLedger plan P).value s = plan.cells.countP P := by
  refine Ledger.value_of_reach ?_ (fun _ _ _ _ => cellLedger_law P) h hok
  intro st
  rw [Ledger.value_start st rfl rfl]
  simp [cellLedger, Plan.startExec, Plan.startMem, Plan.left]

/-! ### Marking a run -/

/-- How many cells of a run have ended. -/
def endedCount (m : Shared) (r : ℕ) : ℕ := m.hist.ended.countP (·.run.id = r)

/-- How many cells of a run the plan has. -/
def Plan.cellCount (plan : Plan) (r : ℕ) : ℕ := plan.cells.countP (·.run.id = r)

theorem endedCount_report (cell : Cell) (answered : Bool) (r : ℕ) :
    endedCount (reportCell plan (m.endCell cell) cell.run.id answered).1 r =
      endedCount m r + if cell.run.id = r then 1 else 0 := by
  rw [endedCount, reportCell_hist]
  simp [endedCount, Shared.endCell, List.countP_append, List.countP_singleton]

/-- The driver's countdown of a run's cells is a count of the cells that have not ended. -/
def remainingLedger (r : ℕ) : Ledger where
  mem m := m.remaining r + endedCount m r
  main _ := 0
  exam _ := 0
  judge _ := 0

theorem remaining_add_ended {r : ℕ} (hvalue : (remainingLedger r).value s = plan.cellCount r) :
    (s.mem.remaining r : ℤ) + endedCount s.mem r = plan.cellCount r := by
  simpa [Ledger.value, Ledger.held, remainingLedger] using hvalue

/-- A cell that is with an exam worker has not ended. -/
theorem endedCount_lt (h : Reached env plan s) (hok : s.mem.panicked = false)
    {pc : ExamPc} {cell : Cell} (hpc : pc ∈ s.exam)
    (hcell : pc.cell? = some cell) : endedCount s.mem cell.run.id < plan.cellCount cell.run.id := by
  have hvalue := cellLedger_of_reach (fun c => c.run.id = cell.run.id) h hok
  obtain ⟨i, hi⟩ := List.getElem?_of_mem hpc
  have hheld := Ledger.exam_le_held (L := cellLedger plan fun c => c.run.id = cell.run.id) hi
  have hone : (cellLedger plan fun c => c.run.id = cell.run.id).exam pc = 1 := by
    simp [cellLedger, hcell]
  simp only [Ledger.value, cellLedger, endedCount, Plan.cellCount] at *
  omega

theorem reportCell_counting (hcounts : plan.path.countsCells = true) (r : ℕ) (answered : Bool) :
    (reportCell plan m r answered).1.remaining =
        Function.update m.remaining r (m.remaining r - 1) ∧
      (reportCell plan m r answered).2 = decide (m.remaining r - 1 = 0) := by
  unfold reportCell
  rw [if_pos hcounts]
  dsimp only
  split <;> simp

theorem remainingLedger_law (hcounts : plan.path.countsCells = true)
    (h : Reached env plan s) (hok : s.mem.panicked = false) (r : ℕ)
    (hvalue : (remainingLedger r).value s = plan.cellCount r) :
    (remainingLedger r).Law (· = ·) env plan s where
  main pc st m pc' _ h := by
    cases h <;> rfl
  exam pc st m pc' hpc he hok' := by
    have hsum := remaining_add_ended hvalue
    cases he with
    | reported cell | reportedLast cell =>
      -- the cell that ends here is one the countdown still counts
      have hlt := endedCount_lt h hok hpc rfl
      simp only [remainingLedger, endedCount, reportCell_hist, reportCell_counting hcounts,
        Shared.endCell, List.countP_append, List.countP_singleton, Function.update_apply] at hsum hlt ⊢
      by_cases hr : cell.run.id = r
      · subst hr
        simp only [decide_true, if_true]
        omega
      · rw [if_neg (Ne.symm hr), if_neg (by simpa using hr)]
        omega
    | recordCrash | settleCrash => simp [Shared.panic] at hok'
    | _ => rfl
  judge pc st m pc' _ h _ := by
    cases h <;> rfl

theorem remaining_of_reach (hcounts : plan.path.countsCells = true)
    (h : Reached env plan s) (hok : s.mem.panicked = false) (r : ℕ) :
    (remainingLedger r).value s = plan.cellCount r := by
  refine Ledger.value_of_reach ?_ (fun t ht hlive => remainingLedger_law hcounts ht hlive r) h hok
  intro st
  rw [Ledger.value_start st rfl rfl]
  simp [remainingLedger, Plan.startMem, endedCount, Plan.cellCount]

/-- A run is marked as out of cells only when its cells have all ended. -/
structure CellsMarked (plan : Plan) (r : ℕ) (s : State) : Prop where
  marking : .mark r ∈ s.exam → endedCount s.mem r = plan.cellCount r
  marked : s.mem.pipe.cellsDone r = true → endedCount s.mem r = plan.cellCount r
  begin : ∀ rs, s.main = .begin rs → rs ≠ [] → plan.cells = []
  beginFinish : ∀ r' rs, s.main = .beginFinish r' rs → plan.cells = []

theorem ne_mark_of_cell? {pc : ExamPc} {cell : Cell} (h : pc.cell? = some cell) (r : ℕ) :
    pc ≠ .mark r := by
  rintro rfl
  simp [ExamPc.cell?] at h

/-- An exam worker's step that neither ends a cell nor marks a run keeps the invariant. -/
theorem CellsMarked.exam_quiet {r i : ℕ} {pc' : ExamPc} (hs : CellsMarked plan r s)
    (hended : m'.hist.ended = s.mem.hist.ended)
    (hdone : m'.pipe.cellsDone = s.mem.pipe.cellsDone) (hpc' : ∀ r, pc' ≠ .mark r) :
    CellsMarked plan r { s with store := st', mem := m', exam := s.exam.set i pc' } where
  marking h := by
    rcases List.mem_or_eq_of_mem_set h with h | h
    · rw [endedCount, hended]
      exact hs.marking h
    · exact absurd h.symm (hpc' r)
  marked h := by
    rw [endedCount, hended]
    exact hs.marked (hdone ▸ h)
  begin := hs.begin
  beginFinish := hs.beginFinish

theorem cellsMarked_start (st : Store) (r : ℕ) : CellsMarked plan r (plan.start env st) where
  marking h := by simp [Plan.start, Plan.startExec] at h
  marked h := by simp [Plan.start, Plan.startExec, Plan.startMem, newPipeline] at h
  begin rs h hne := by
    simp only [Plan.start, Plan.startExec, MainPc.begin.injEq] at h
    split_ifs at h with hplan
    · exact hplan.2
    · exact absurd h.symm hne
  beginFinish r' rs h := by simp [Plan.start, Plan.startExec] at h

/-- The cell an exam worker reports last is the run's last one, when the driver counts the
run's cells or the run has at most one. -/
theorem ended_of_reportedLast {r : ℕ} {cell : Cell} {answered : Bool}
    (hcond : plan.path.countsCells = true ∨ plan.cellCount r ≤ 1)
    (h : Reached env plan s) (hok : s.mem.panicked = false) (hpc : .report cell answered ∈ s.exam)
    (hlast : (reportCell plan (s.mem.endCell cell) cell.run.id answered).2 = true)
    (hr : cell.run.id = r) : endedCount s.mem r + 1 = plan.cellCount r := by
  subst hr
  have hlt := endedCount_lt h hok hpc rfl
  rcases hcond with hcounts | hone
  · have hsum := remaining_add_ended (remaining_of_reach hcounts h hok cell.run.id)
    rw [(reportCell_counting hcounts _ _).2, decide_eq_true_eq] at hlast
    change s.mem.remaining cell.run.id - 1 = 0 at hlast
    omega
  · omega

theorem JudgeStep.cells_eq {pc pc' : JudgePc} (h : JudgeStep env plan st m pc st' m' pc') :
    m'.hist.ended = m.hist.ended ∧ m'.pipe.cellsDone = m.pipe.cellsDone := by
  cases h with
  | landed j score p hp | votesIn j score p median hp =>
    obtain ⟨votes, rfl⟩ := Pipeline.landVote_eq hp
    exact ⟨rfl, rfl⟩
  | settled j median p hp | completed j median p agg hp =>
    obtain ⟨aggs, rfl⟩ := Pipeline.settleSample_eq hp
    exact ⟨rfl, rfl⟩
  | decremented | decrementedLast => exact ⟨rfl, Pipeline.decrementPending_cellsDone _ _⟩
  | _ => exact ⟨rfl, rfl⟩

/-- The driver marks a run itself only in a plan without cells. -/
theorem MainStep.cells_eq {examDone judgeDone : Bool} {pc pc' : MainPc}
    (h : MainStep plan st m examDone judgeDone pc st' m' pc') :
    m'.hist.ended = m.hist.ended ∧
      (m'.pipe.cellsDone = m.pipe.cellsDone ∨ ∃ r rs, pc = .begin (r :: rs)) ∧
      (∀ rs, pc' = .begin rs → rs ≠ [] →
        (∃ rs', rs' ≠ [] ∧ pc = .begin rs') ∨ ∃ r rs', pc = .beginFinish r rs') ∧
      (∀ r rs, pc' = .beginFinish r rs → ∃ rs', rs' ≠ [] ∧ pc = .begin rs') := by
  cases h with
  | marked r rs | markedLast r rs =>
    exact ⟨rfl, .inr ⟨r, rs, rfl⟩, fun _ _ _ => .inl ⟨r :: rs, by simp, rfl⟩,
      fun _ _ _ => ⟨r :: rs, by simp, rfl⟩⟩
  | finished r rs => exact ⟨rfl, .inl rfl, fun _ _ _ => .inr ⟨r, rs, rfl⟩, by simp⟩
  | _ => exact ⟨rfl, .inl rfl, by simp, by simp⟩

/-- The driver ends no cell, and marks a run itself only in a plan without cells. -/
theorem CellsMarked.of_main {r : ℕ} {examDone judgeDone : Bool} {pc : MainPc}
    (hs : CellsMarked plan r s) (hrun : Reached env plan s) (hok : s.mem.panicked = false)
    (hm : MainStep plan s.store s.mem examDone judgeDone s.main st' m' pc) :
    CellsMarked plan r { s with store := st', mem := m', main := pc } := by
  obtain ⟨hended, hdone, hbegin, hfinish⟩ := hm.cells_eq
  constructor
  case marking =>
    intro h
    rw [endedCount, hended]
    exact hs.marking h
  case marked =>
    intro h
    rw [endedCount, hended]
    rcases hdone with hdone | ⟨r', rs, hmain⟩
    · exact hs.marked (hdone ▸ h)
    · -- no cell, so none to end
      have hnone := hs.begin _ hmain (by simp)
      have hvalue := cellLedger_of_reach (fun c => c.run.id = r) hrun hok
      simp only [Ledger.value, cellLedger, hnone, List.countP_nil] at hvalue
      simp only [Plan.cellCount, hnone, List.countP_nil]
      omega
  case begin =>
    intro rs hrs hne
    rcases hbegin rs hrs hne with ⟨rs', hne', hmain⟩ | ⟨r', rs', hmain⟩
    · exact hs.begin rs' hmain hne'
    · exact hs.beginFinish r' rs' hmain
  case beginFinish =>
    intro r' rs hrs
    obtain ⟨rs', hne', hmain⟩ := hfinish r' rs hrs
    exact hs.begin rs' hmain hne'

/-- A report ends a cell of its run, which therefore was not out of cells. It goes on to mark the
run when it was the last one. -/
theorem CellsMarked.report {r i : ℕ} {cell : Cell} {answered : Bool} {pc' : ExamPc}
    (hs : CellsMarked plan r s) (hrun : Reached env plan s) (hok : s.mem.panicked = false)
    (hmem : .report cell answered ∈ s.exam)
    (hlast : .mark r = pc' → cell.run.id = r ∧ endedCount s.mem r + 1 = plan.cellCount r) :
    CellsMarked plan r { s with
      mem := (reportCell plan (s.mem.endCell cell) cell.run.id answered).1
      exam := s.exam.set i pc' } := by
  obtain ⟨n, hpipe⟩ := reportCell_pipe plan (s.mem.endCell cell) cell.run.id answered
  have hlt := endedCount_lt hrun hok hmem rfl
  -- a run all of whose cells have ended has none to report
  have hother : endedCount s.mem r = plan.cellCount r → cell.run.id ≠ r := by
    intro hall hr
    subst hr
    omega
  refine ⟨fun h => ?_, fun h => ?_, hs.begin, hs.beginFinish⟩
  · rcases List.mem_or_eq_of_mem_set h with h | h
    · rw [endedCount_report, if_neg (hother (hs.marking h))]
      exact hs.marking h
    · obtain ⟨hr, hall⟩ := hlast h
      rw [endedCount_report, if_pos hr]
      exact hall
  · rw [hpipe] at h
    rw [endedCount_report, if_neg (hother (hs.marked h))]
    exact hs.marked h

theorem CellsMarked.of_exam {r i : ℕ} {pc pc' : ExamPc}
    (hcond : plan.path.countsCells = true ∨ plan.cellCount r ≤ 1)
    (hs : CellsMarked plan r s) (hrun : Reached env plan s) (hok : s.mem.panicked = false)
    (hi : s.exam[i]? = some pc) (he : ExamStep env plan s.store s.mem pc st' m' pc') :
    CellsMarked plan r { s with store := st', mem := m', exam := s.exam.set i pc' } := by
  have hmem := List.mem_of_getElem? hi
  cases he with
  | reported cell answered => exact hs.report hrun hok hmem (by simp)
  -- the last cell of the run: a mark is due from here on
  | reportedLast cell answered hlast =>
    refine hs.report hrun hok hmem fun heq => ?_
    obtain rfl : r = cell.run.id := by simpa using heq
    exact ⟨rfl, ended_of_reportedLast hcond hrun hok hmem hlast rfl⟩
  | marked r' | markedLast r' =>
    refine ⟨fun h => ?_, fun h => ?_, hs.begin, hs.beginFinish⟩
    · rcases List.mem_or_eq_of_mem_set h with h | h
      · exact hs.marking h
      · simp at h
    · simp only [Pipeline.markCellsDone_cellsDone, Function.update_apply] at h
      split_ifs at h with hr
      · subst hr
        exact hs.marking hmem
      · exact hs.marked h
  | opened k =>
    obtain ⟨aggs, haggs⟩ := Pipeline.openCase_eq s.mem.pipe k.unit k.inCell.modelId k.profile
      (env.samples k.case)
    exact hs.exam_quiet rfl (by rw [haggs]) (by simp)
  | recorded k id text latencyMs i o cost p hp =>
    obtain ⟨agg, agg', -, rfl, -⟩ := Pipeline.recordAnswer_spec hp
    exact hs.exam_quiet rfl rfl (ne_mark_of_cell? (cell?_routeSample _ _ _))
  | settled k median p hp =>
    obtain ⟨aggs, rfl⟩ := Pipeline.settleSample_eq hp
    exact hs.exam_quiet rfl rfl (ne_mark_of_cell? (cell?_sampleDone _))
  | completed k median p agg hp =>
    obtain ⟨aggs, rfl⟩ := Pipeline.settleSample_eq hp
    exact hs.exam_quiet rfl rfl (by simp)
  | wrote | offeredAll | dropped =>
    exact hs.exam_quiet rfl rfl (ne_mark_of_cell? (cell?_sampleDone _))
  | _ => exact hs.exam_quiet rfl rfl (by simp)

theorem cellsMarked_step {a : Label} {r : ℕ}
    (hcond : plan.path.countsCells = true ∨ plan.cellCount r ≤ 1)
    (hrun : Reached env plan s) (hok : s.mem.panicked = false)
    (hs : CellsMarked plan r s) (h : Step env plan s a s') :
    CellsMarked plan r s' := by
  cases h with
  | main hm => exact hs.of_main hrun hok hm
  | exam hi he => exact hs.of_exam hcond hrun hok hi he
  | judge hj he =>
    obtain ⟨hended, hdone⟩ := he.cells_eq
    refine ⟨fun h => ?_, fun h => ?_, hs.begin, hs.beginFinish⟩
    · rw [endedCount, hended]
      exact hs.marking h
    · rw [endedCount, hended]
      exact hs.marked (hdone ▸ h)
  | handCell hmain hi =>
    refine ⟨fun h => ?_, hs.marked, by simp, by simp⟩
    rcases List.mem_or_eq_of_mem_set h with h | h
    · exact hs.marking h
    · simp at h
  | handJob hi hj =>
    refine ⟨fun h => ?_, hs.marked, hs.begin, hs.beginFinish⟩
    rcases List.mem_or_eq_of_mem_set h with h | h
    · exact hs.marking h
    · simp at h
  | cancel => exact ⟨hs.marking, hs.marked, hs.begin, hs.beginFinish⟩
  | expire => exact ⟨hs.marking, hs.marked, hs.begin, hs.beginFinish⟩

theorem cellsMarked_of_reach {r : ℕ}
    (hcond : plan.path.countsCells = true ∨ plan.cellCount r ≤ 1)
    (h : Reached env plan s) : CellsMarked plan r s := by
  refine Reached.invariant (fun st => cellsMarked_start st r) ?_ ?_ h
  · exact fun _ _ _ hrun hs hok hcases => cellsMarked_step hcond hrun hok hs hcases
  · exact fun _ _ hs => ⟨hs.marking, hs.marked, hs.begin, hs.beginFinish⟩

end HubScope
