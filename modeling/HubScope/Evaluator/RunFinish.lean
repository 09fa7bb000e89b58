import HubScope.Evaluator.Units

/-!
# When a run is recorded done

A run finishes once, when its cells are marked done with no vote pending. What is recorded
on the run at the end of an execution is then a statement about its cells and votes: done
only if all of them were executed and stored, failed if some were not. A retry's worker that
finds the context over between two cases leaves its cell, which then counts as ended though
its last cases were never asked.

## Main definitions

* `doneIn`, `failedIn` — the run's recorded status
* `Complete` — every cell of the run has ended and every vote of it is stored
* `Executed` — and every unit of it was taken up, but for cells whose setup failed
* `cutsCell` — a worker leaves a cell of the run with cases unasked
* `FinishFlags` — the invariant of a run's finish flag

## Main results

* `complete_of_flags` — a run whose finish flag is set is complete
* `run_recorded_of_reach` — a run none of whose cells is cut is recorded done only when
  executed, and failed when the execution ends without it
-/

set_option autoImplicit false

namespace HubScope

variable {env : Env} {plan : Plan} {st st' : Store} {m m' : Shared} {s s' : State} {r : ℕ}

/-! ### Recorded statuses -/

/-- The run is recorded done. -/
def doneIn (st : Store) (r : ℕ) : Prop := ∃ run ∈ st.runs, run.id = r ∧ run.status = .done

/-- The run is recorded failed. -/
def failedIn (st : Store) (r : ℕ) : Prop := ∀ run ∈ st.runs, run.id = r → run.status = .failed

theorem doneIn_finishEvalRun {r' : ℕ} {status : Status}
    (h : doneIn (st.finishEvalRun r' status) r) : doneIn st r ∨ r = r' ∧ status = .done := by
  obtain ⟨run, hmem, hid, hdone⟩ := h
  obtain ⟨run₀, hmem₀, rfl⟩ := List.mem_map.mp hmem
  split_ifs at hid hdone with hr
  · exact .inr ⟨hid.symm.trans hr, hdone⟩
  · exact .inl ⟨run₀, hmem₀, hid, hdone⟩

theorem failedIn_finishEvalRun (st : Store) (r : ℕ) :
    failedIn (st.finishEvalRun r .failed) r := by
  intro run hmem hid
  obtain ⟨run₀, -, rfl⟩ := List.mem_map.mp hmem
  split_ifs at hid ⊢ with hr
  · rfl
  · exact absurd hid hr

theorem failedIn_finishEvalRun_of_failedIn {r' : ℕ} (h : failedIn st r) :
    failedIn (st.finishEvalRun r' .failed) r := by
  intro run hmem hid
  obtain ⟨run₀, hmem₀, rfl⟩ := List.mem_map.mp hmem
  split_ifs at hid ⊢ with hr
  · rfl
  · exact h run₀ hmem₀ hid

theorem doneIn_setEvalRunCost {r' : ℕ} {cost : Option (ℚ × ℚ)}
    (h : doneIn (st.setEvalRunCost r' cost) r) : doneIn st r := by
  obtain ⟨run, hmem, hid, hdone⟩ := h
  obtain ⟨run₀, hmem₀, rfl⟩ := List.mem_map.mp hmem
  split_ifs at hid hdone with hr
  · exact ⟨run₀, hmem₀, hid, hdone⟩
  · exact ⟨run₀, hmem₀, hid, hdone⟩

/-! ### The finish flag -/

/-- Someone is about to record the run done. -/
def Finishing (s : State) (r : ℕ) : Prop :=
  .finish r ∈ s.exam ∨ (∃ j, .finish j ∈ s.judge ∧ j.unit.runId = r) ∨
    ∃ rs, s.main = .beginFinish r rs

/-- A run recorded done, or about to be, is flagged finished, and a finished run has its
cells marked and no vote pending. -/
structure FinishFlags (r : ℕ) (s : State) : Prop where
  stamped : doneIn s.store r → s.mem.pipe.finished r = true
  finishing : Finishing s r → s.mem.pipe.finished r = true
  finished : s.mem.pipe.finished r = true →
    s.mem.pipe.cellsDone r = true ∧ s.mem.pipe.judgePending r = 0

theorem finishFlags_start (hstart : ¬ doneIn st r) : FinishFlags r (plan.start env st) where
  stamped h := absurd h hstart
  finishing h := by
    rcases h with h | ⟨j, h, -⟩ | ⟨rs, h⟩
    · simp [Plan.start, Plan.startExec] at h
    · simp [Plan.start, Plan.startExec] at h
    · simp [Plan.start, Plan.startExec] at h
  finished h := by simp [Plan.start, Plan.startExec, Plan.startMem, newPipeline] at h

theorem ne_finish_of_cell? {pc : ExamPc} {cell : Cell} (h : pc.cell? = some cell) (r : ℕ) :
    pc ≠ .finish r := by
  rintro rfl
  simp [ExamPc.cell?] at h

/-- Who is about to finish a run was so before a step of an exam worker, or is that worker. -/
theorem Finishing.of_exam {i : ℕ} {pc' : ExamPc}
    (h : Finishing { s with store := st', mem := m', exam := s.exam.set i pc' } r) :
    Finishing s r ∨ pc' = .finish r := by
  rcases h with h | h | h
  · rcases List.mem_or_eq_of_mem_set h with h | h
    · exact .inl (.inl h)
    · exact .inr h.symm
  · exact .inl (.inr (.inl h))
  · exact .inl (.inr (.inr h))

/-- The same for a judge worker. -/
theorem Finishing.of_judge {i : ℕ} {pc' : JudgePc}
    (h : Finishing { s with store := st', mem := m', judge := s.judge.set i pc' } r) :
    Finishing s r ∨ ∃ j, pc' = .finish j ∧ j.unit.runId = r := by
  rcases h with h | ⟨j, h, hj⟩ | h
  · exact .inl (.inl h)
  · rcases List.mem_or_eq_of_mem_set h with h | h
    · exact .inl (.inr (.inl ⟨j, h, hj⟩))
    · exact .inr ⟨j, h.symm, hj⟩
  · exact .inl (.inr (.inr h))

/-- The same for the driver. -/
theorem Finishing.of_main {pc' : MainPc}
    (h : Finishing { s with store := st', mem := m', main := pc' } r) :
    Finishing s r ∨ ∃ rs, pc' = .beginFinish r rs := by
  rcases h with h | h | h
  · exact .inl (.inl h)
  · exact .inl (.inr (.inl h))
  · exact .inr h

/-- A step keeps the flags if only who was about to finish the run records it done, and whoever
is about to now was so before or has flagged it. -/
theorem FinishFlags.of_step (hs : FinishFlags r s)
    (hstamped : doneIn s'.store r → doneIn s.store r ∨ Finishing s r)
    (hfinishing : Finishing s' r → Finishing s r ∨ s'.mem.pipe.finished r = true)
    (hkept : s.mem.pipe.finished r = true → s'.mem.pipe.finished r = true)
    (hflags : s'.mem.pipe.finished r = true →
      s'.mem.pipe.cellsDone r = true ∧ s'.mem.pipe.judgePending r = 0) : FinishFlags r s' where
  stamped h := hkept ((hstamped h).elim hs.stamped hs.finishing)
  finishing h := (hfinishing h).elim (fun h => hkept (hs.finishing h)) id
  finished := hflags

/-- A step that leaves the finish flags and, for a finished run, the pending count alone. -/
theorem FinishFlags.quiet (hs : FinishFlags r s)
    (hstamped : doneIn s'.store r → doneIn s.store r ∨ Finishing s r)
    (hfinishing : Finishing s' r → Finishing s r)
    (hfinished : s'.mem.pipe.finished = s.mem.pipe.finished)
    (hcells : s'.mem.pipe.cellsDone = s.mem.pipe.cellsDone)
    (hpending : s.mem.pipe.cellsDone r = true →
      s'.mem.pipe.judgePending r = s.mem.pipe.judgePending r) : FinishFlags r s' := by
  refine hs.of_step hstamped (fun h => .inl (hfinishing h)) (fun h => ?_) (fun h => ?_)
  · rw [hfinished]
    exact h
  · rw [hfinished] at h
    obtain ⟨hdone, hzero⟩ := hs.finished h
    exact ⟨hcells ▸ hdone, (hpending hdone).trans hzero⟩

theorem FinishFlags.exam_quiet {i : ℕ} {pc' : ExamPc} (hs : FinishFlags r s)
    (hruns : st'.runs = s.store.runs) (hfinished : m'.pipe.finished = s.mem.pipe.finished)
    (hcells : m'.pipe.cellsDone = s.mem.pipe.cellsDone)
    (hpending : s.mem.pipe.cellsDone r = true →
      m'.pipe.judgePending r = s.mem.pipe.judgePending r)
    (hpc' : pc' ≠ .finish r) :
    FinishFlags r { s with store := st', mem := m', exam := s.exam.set i pc' } := by
  refine hs.quiet (fun h => .inl ?_) (fun h => h.of_exam.resolve_right hpc') hfinished hcells
    hpending
  rwa [doneIn, hruns] at h

theorem FinishFlags.judge_quiet {i : ℕ} {pc' : JudgePc} (hs : FinishFlags r s)
    (hruns : st'.runs = s.store.runs) (hfinished : m'.pipe.finished = s.mem.pipe.finished)
    (hcells : m'.pipe.cellsDone = s.mem.pipe.cellsDone)
    (hpending : m'.pipe.judgePending = s.mem.pipe.judgePending)
    (hpc' : ∀ j, pc' ≠ .finish j) :
    FinishFlags r { s with store := st', mem := m', judge := s.judge.set i pc' } := by
  refine hs.quiet (fun h => .inl ?_)
    (fun h => h.of_judge.resolve_right fun ⟨j, hj, _⟩ => hpc' j hj) hfinished hcells
    (fun _ => congrFun hpending r)
  rwa [doneIn, hruns] at h

theorem FinishFlags.main_quiet {pc' : MainPc} (hs : FinishFlags r s)
    (hdone : doneIn st' r → doneIn s.store r)
    (hpipe : m'.pipe = s.mem.pipe) (hpc' : ∀ rs, pc' ≠ .beginFinish r rs) :
    FinishFlags r { s with store := st', mem := m', main := pc' } :=
  hs.quiet (fun h => .inl (hdone h)) (fun h => h.of_main.resolve_right fun ⟨rs, hrs⟩ => hpc' rs hrs)
    (congrArg Pipeline.finished hpipe) (congrArg Pipeline.cellsDone hpipe)
    (fun _ => congrFun (congrArg Pipeline.judgePending hpipe) r)

theorem markCellsDone_flags {p : Pipeline} {r' : ℕ}
    (hold : p.finished r = true → p.cellsDone r = true ∧ p.judgePending r = 0)
    (h : (p.markCellsDone r').1.finished r = true) :
    (p.markCellsDone r').1.cellsDone r = true ∧ (p.markCellsDone r').1.judgePending r = 0 := by
  simp only [Pipeline.markCellsDone_finished, Bool.or_eq_true, Bool.and_eq_true,
    decide_eq_true_eq] at h
  simp only [Pipeline.markCellsDone_cellsDone, Pipeline.markCellsDone_judgePending,
    Function.update_apply]
  rcases h with h | ⟨rfl, hlast⟩
  · obtain ⟨hcells, hpending⟩ := hold h
    exact ⟨by split_ifs <;> simp [hcells], hpending⟩
  · exact ⟨by simp, Pipeline.judgePending_of_markCellsDone hlast⟩

theorem decrementPending_flags {p : Pipeline} {r' : ℕ}
    (hold : p.finished r = true → p.cellsDone r = true ∧ p.judgePending r = 0)
    (hpos : 0 < p.judgePending r') (h : (p.decrementPending r').1.finished r = true) :
    (p.decrementPending r').1.cellsDone r = true ∧
      (p.decrementPending r').1.judgePending r = 0 := by
  simp only [Pipeline.decrementPending_finished, Bool.or_eq_true, Bool.and_eq_true,
    decide_eq_true_eq] at h
  simp only [Pipeline.decrementPending_cellsDone, Pipeline.decrementPending_judgePending,
    Function.update_apply]
  rcases h with h | ⟨rfl, hlast⟩
  · obtain ⟨hcells, hpending⟩ := hold h
    have hne : r ≠ r' := by
      rintro rfl
      omega
    exact ⟨hcells, by rw [if_neg hne]; exact hpending⟩
  · obtain ⟨hcells, hpending⟩ := Pipeline.cellsDone_of_decrementPending hlast
    exact ⟨hcells, by simpa using hpending⟩

/-- Marking a run lets the caller finish it if its answer says so. -/
theorem FinishFlags.mark {r' : ℕ} (hs : FinishFlags r s) (hstore : s'.store = s.store)
    (hpipe : s'.mem.pipe = (s.mem.pipe.markCellsDone r').1)
    (hfinishing : Finishing s' r →
      Finishing s r ∨ r = r' ∧ (s.mem.pipe.markCellsDone r').2 = true) : FinishFlags r s' := by
  refine hs.of_step (fun h => .inl (hstore ▸ h)) (fun h => (hfinishing h).imp_right ?_)
    (fun h => ?_) (fun h => ?_)
  · rintro ⟨rfl, hlast⟩
    simp only [hpipe, Pipeline.markCellsDone_finished, hlast, decide_true, Bool.and_true,
      Bool.or_true]
  · rw [hpipe, Pipeline.markCellsDone_finished, h, Bool.true_or]
  · rw [hpipe] at h ⊢
    exact markCellsDone_flags hs.finished h

/-- The same for a vote that is taken off the pending ones. -/
theorem FinishFlags.decrement {r' : ℕ} (hs : FinishFlags r s) (hstore : s'.store = s.store)
    (hpos : 0 < s.mem.pipe.judgePending r')
    (hpipe : s'.mem.pipe = (s.mem.pipe.decrementPending r').1)
    (hfinishing : Finishing s' r →
      Finishing s r ∨ r = r' ∧ (s.mem.pipe.decrementPending r').2 = true) : FinishFlags r s' := by
  refine hs.of_step (fun h => .inl (hstore ▸ h)) (fun h => (hfinishing h).imp_right ?_)
    (fun h => ?_) (fun h => ?_)
  · rintro ⟨rfl, hlast⟩
    simp only [hpipe, Pipeline.decrementPending_finished, hlast, decide_true, Bool.and_true,
      Bool.or_true]
  · rw [hpipe, Pipeline.decrementPending_finished, h, Bool.true_or]
  · rw [hpipe] at h ⊢
    exact decrementPending_flags hs.finished hpos h

section

variable {guard : State → Label → Prop}

/-- A marked run has no worker left in one of its cells. -/
theorem cellsDone_eq_false_of_cell (hmarked : CellsMarked plan r s)
    (h : Reached env plan s) (hok : s.mem.panicked = false)
    {pc : ExamPc} {cell : Cell} (hpc : pc ∈ s.exam)
    (hcell : pc.cell? = some cell) (hr : cell.run.id = r) : s.mem.pipe.cellsDone r ≠ true := by
  intro hdone
  subst hr
  have hlt := endedCount_lt h hok hpc hcell
  have hall := hmarked.marked hdone
  omega

/-- A vote with a judge worker is pending. -/
theorem judgePending_pos (h : Reached env plan s) (hok : s.mem.panicked = false)
    {j : JudgeJob} (hpc : .decrement j ∈ s.judge) :
    0 < s.mem.pipe.judgePending j.unit.runId := by
  obtain ⟨i, hi⟩ := List.getElem?_of_mem hpc
  have hheld := Ledger.judge_le_held (L := pendingLedger j.unit.runId) hi
  have hone : (pendingLedger j.unit.runId).judge (.decrement j) = 1 := by
    simp [pendingLedger, JudgePc.pending?]
  rw [judgePending_of_reach j.unit.runId h hok]
  omega

/-- A step of the driver. It marks the runs without cells and records them done itself. -/
theorem finishFlags_main {examDone judgeDone : Bool} {pc' : MainPc} (hs : FinishFlags r s)
    (h : MainStep plan s.store s.mem examDone judgeDone s.main st' m' pc') :
    FinishFlags r { s with store := st', mem := m', main := pc' } := by
  generalize hpc : s.main = pc at h
  cases h with
  | marked r' rs => exact hs.mark rfl rfl fun h => .inl (h.of_main.resolve_right (by simp))
  | markedLast r' rs hlast =>
    refine hs.mark rfl rfl fun h => h.of_main.imp_right ?_
    rintro ⟨rs', heq⟩
    cases heq
    exact ⟨rfl, hlast⟩
  | finished r' rs =>
    refine hs.quiet (fun h => ?_) (fun h => h.of_main.resolve_right (by simp)) rfl rfl
      fun _ => rfl
    rcases doneIn_finishEvalRun h with h | ⟨rfl, -⟩
    · exact .inl h
    · exact .inr (.inr (.inr ⟨rs, hpc⟩))
  | flushRun r' rs st' hst =>
    refine hs.main_quiet (fun h => ?_) rfl (by simp)
    subst hst
    split at h
    · exact doneIn_setEvalRunCost h
    · exact h
  | tailRun r' rs =>
    -- what the tail records is a failure
    refine hs.main_quiet (fun h => ?_) rfl (by simp)
    split at h
    · exact h
    · rcases doneIn_finishEvalRun h with h | ⟨-, h⟩
      · exact h
      · simp at h
  | _ => exact hs.main_quiet id rfl (by simp)

/-- A step of an exam worker. Under a finished run it registers no vote: the run is marked, so
that nobody is left in its cells. -/
theorem finishFlags_exam {i : ℕ} {pc pc' : ExamPc} (hmarked : CellsMarked plan r s)
    (hrun : Reached env plan s) (hok : s.mem.panicked = false) (hs : FinishFlags r s)
    (hi : s.exam[i]? = some pc) (h : ExamStep env plan s.store s.mem pc st' m' pc') :
    FinishFlags r { s with store := st', mem := m', exam := s.exam.set i pc' } := by
  have hmem := List.mem_of_getElem? hi
  cases h with
  | marked r' => exact hs.mark rfl rfl fun h => .inl (h.of_exam.resolve_right (by simp))
  | markedLast r' hlast =>
    refine hs.mark rfl rfl fun h => h.of_exam.imp_right ?_
    rintro heq
    cases heq
    exact ⟨rfl, hlast⟩
  -- only the finish of the run itself can stamp it
  | finished r' =>
    refine hs.quiet (fun h => ?_) (fun h => h.of_exam.resolve_right (by simp)) rfl rfl
      fun _ => rfl
    dsimp only at h
    split at h
    · rcases doneIn_finishEvalRun h with h | ⟨rfl, -⟩
      · exact .inl h
      · exact .inr (.inl hmem)
    · exact .inl h
  | reported cell answered | reportedLast cell answered =>
    obtain ⟨n, hpipe⟩ := reportCell_pipe plan (s.mem.endCell cell) cell.run.id answered
    exact hs.exam_quiet rfl (by rw [hpipe]; rfl) (by rw [hpipe]; rfl)
      (fun _ => by rw [hpipe]; rfl) (by simp)
  -- a run with an open cell is not marked, so its count may rise
  | registered k id =>
    refine hs.exam_quiet rfl rfl rfl (fun hdone => ?_) (by simp)
    have hne : k.unit.runId ≠ r := fun hr =>
      cellsDone_eq_false_of_cell hmarked hrun hok hmem rfl hr hdone
    exact Function.update_of_ne (Ne.symm hne) _ _
  | opened k =>
    obtain ⟨aggs, haggs⟩ := Pipeline.openCase_eq s.mem.pipe k.unit k.inCell.modelId k.profile
      (env.samples k.case)
    exact hs.exam_quiet rfl (by rw [haggs]) (by rw [haggs]) (fun _ => by rw [haggs]) (by simp)
  | recorded k id text latencyMs i o cost p hp =>
    obtain ⟨agg, agg', -, rfl, -⟩ := Pipeline.recordAnswer_spec hp
    exact hs.exam_quiet rfl rfl rfl (fun _ => rfl) (ne_finish_of_cell? (cell?_routeSample _ _ _) r)
  | settled k median p hp =>
    obtain ⟨aggs, rfl⟩ := Pipeline.settleSample_eq hp
    exact hs.exam_quiet rfl rfl rfl (fun _ => rfl) (ne_finish_of_cell? (cell?_sampleDone _) r)
  | completed k median p agg hp =>
    obtain ⟨aggs, rfl⟩ := Pipeline.settleSample_eq hp
    exact hs.exam_quiet rfl rfl rfl (fun _ => rfl) (by simp)
  | wrote | offeredAll | dropped =>
    exact hs.exam_quiet rfl rfl rfl (fun _ => rfl) (ne_finish_of_cell? (cell?_sampleDone _) r)
  | _ => exact hs.exam_quiet rfl rfl rfl (fun _ => rfl) (by simp)

/-- A step of a judge worker. -/
theorem finishFlags_judge {i : ℕ} {pc pc' : JudgePc} (hrun : Reached env plan s)
    (hok : s.mem.panicked = false) (hs : FinishFlags r s) (hj : s.judge[i]? = some pc)
    (h : JudgeStep env plan s.store s.mem pc st' m' pc') :
    FinishFlags r { s with store := st', mem := m', judge := s.judge.set i pc' } := by
  have hmem := List.mem_of_getElem? hj
  cases h with
  | landed j score p hp | votesIn j score p median hp =>
    obtain ⟨votes, rfl⟩ := Pipeline.landVote_eq hp
    exact hs.judge_quiet rfl rfl rfl rfl (by simp)
  | settled j median p hp | completed j median p agg hp =>
    obtain ⟨aggs, rfl⟩ := Pipeline.settleSample_eq hp
    exact hs.judge_quiet rfl rfl rfl rfl (by simp)
  | decremented j =>
    exact hs.decrement rfl (judgePending_pos hrun hok hmem) rfl fun h =>
      .inl (h.of_judge.resolve_right (by simp))
  -- the last pending case: a finish is due if the cells are marked
  | decrementedLast j hlast =>
    refine hs.decrement rfl (judgePending_pos hrun hok hmem) rfl fun h => h.of_judge.imp_right ?_
    rintro ⟨j', heq, rfl⟩
    cases heq
    exact ⟨rfl, hlast⟩
  | finished j =>
    refine hs.quiet (fun h => ?_) (fun h => h.of_judge.resolve_right (by simp)) rfl rfl
      fun _ => rfl
    dsimp only at h
    split at h
    · rcases doneIn_finishEvalRun h with h | ⟨rfl, -⟩
      · exact .inl h
      · exact .inr (.inr (.inl ⟨j, hmem, rfl⟩))
    · exact .inl h
  | recorded j o =>
    refine hs.judge_quiet ?_ rfl rfl rfl (by simp)
    obtain ⟨rows, heq⟩ := s.store.createEvalJudgeScore_eq (judgeScoreRow j o)
    rw [heq]
  | _ => exact hs.judge_quiet rfl rfl rfl rfl (by simp)

theorem finishFlags_step {a : Label} (hmarked : CellsMarked plan r s)
    (hrun : Reached env plan s) (hok : s.mem.panicked = false)
    (hs : FinishFlags r s) (h : Step env plan s a s') :
    FinishFlags r s' := by
  cases h with
  | main hm => exact finishFlags_main hs hm
  | exam hi he => exact finishFlags_exam hmarked hrun hok hs hi he
  | judge hj he => exact finishFlags_judge hrun hok hs hj he
  | handCell hmain hi =>
    refine hs.quiet .inl (fun h => ?_) rfl rfl fun _ => rfl
    rcases h with h | h | ⟨rs, h⟩
    · rcases List.mem_or_eq_of_mem_set h with h | h
      · exact .inl h
      · simp at h
    · exact .inr (.inl h)
    · simp at h
  -- a handed job makes no worker finish
  | handJob hi hj =>
    refine hs.quiet .inl (fun h => ?_) rfl rfl fun _ => rfl
    rcases h with h | ⟨j, h, hr⟩ | h
    · rcases List.mem_or_eq_of_mem_set h with h | h
      · exact .inl h
      · simp at h
    · rcases List.mem_or_eq_of_mem_set h with h | h
      · exact .inr (.inl ⟨j, h, hr⟩)
      · simp at h
    · exact .inr (.inr h)
  | cancel => exact hs.quiet .inl id rfl rfl fun _ => rfl
  | expire => exact hs.quiet .inl id rfl rfl fun _ => rfl

theorem finishFlags_of_reach (hcond : plan.path.countsCells = true ∨ plan.cellCount r ≤ 1)
    (hstart : ¬ doneIn st r)
    (h : Transition.Reach (step env plan) guard (plan.start env st) s) : FinishFlags r s := by
  induction h with
  | refl => exact finishFlags_start hstart
  | tail hrun _ hstep ih =>
    obtain ⟨hok, hcases⟩ := step_cases hstep
    have hreached := reached_of_reach hrun
    exact finishFlags_step (cellsMarked_of_reach hcond hreached) hreached hok ih hcases

/-! ### Complete runs -/

/-- Every cell of the run has ended and every vote registered for it is stored. -/
def Complete (plan : Plan) (r : ℕ) (s : State) : Prop :=
  (∀ cell ∈ plan.cells, cell.run.id = r → cell ∈ s.mem.hist.ended) ∧
    ∀ j ∈ s.mem.hist.enqueued, j.unit.runId = r → recorded s.store j

/-- **Completion.** A run with its cells marked and no vote pending has all its cells
ended and all its votes stored. -/
theorem complete_of_flags (hmarked : CellsMarked plan r s)
    (h : Transition.Reach (step env plan) guard (plan.start env st) s)
    (hok : s.mem.panicked = false) (hdone : s.mem.pipe.cellsDone r = true)
    (hpending : s.mem.pipe.judgePending r = 0) : Complete plan r s := by
  have hreached := reached_of_reach h
  constructor
  · intro cell hcell hr
    -- all cells of the run have ended, so none is anywhere else, `cell` included
    have hrun := cellLedger_of_reach (fun c => c.run.id = r) hreached hok
    have hone := cellLedger_of_reach (fun c => c = cell) hreached hok
    have hall := hmarked.marked hdone
    have hpos : 0 < plan.cells.countP (· = cell) := by
      rw [List.countP_pos_iff]
      exact ⟨cell, hcell, by simp⟩
    have hunfed : s.mem.hist.unfed.countP (· = cell) ≤
        s.mem.hist.unfed.countP (·.run.id = r) := by
      refine List.countP_mono_left fun c _ hc => ?_
      rw [of_decide_eq_true hc, decide_eq_true_eq]
      exact hr
    have hheld : (cellLedger plan fun c => c = cell).held s.toExec ≤
        (cellLedger plan fun c => c.run.id = r).held s.toExec := by
      have hmono : ∀ cells : List Cell, cells.countP (· = cell) ≤ cells.countP (·.run.id = r) := by
        intro cells
        refine List.countP_mono_left fun c _ hc => ?_
        rw [of_decide_eq_true hc, decide_eq_true_eq]
        exact hr
      have hexam : Pool.total (fun pc => pc.cell?.toList.countP (· = cell)) s.exam ≤
          Pool.total (fun pc => pc.cell?.toList.countP (·.run.id = r)) s.exam :=
        Pool.total_mono fun pc _ => hmono pc.cell?.toList
      have hmain := hmono (plan.left s.main)
      simp only [Ledger.held, cellLedger, Pool.total_zero] at hexam hmain ⊢
      omega
    have hended : 0 < s.mem.hist.ended.countP (· = cell) := by
      simp only [Ledger.value, cellLedger, endedCount, Plan.cellCount] at hrun hone hall hheld
      omega
    obtain ⟨c, hc, heq⟩ := List.countP_pos_iff.mp hended
    rwa [← of_decide_eq_true heq]
  · intro j hj hr
    -- no vote of the run is in flight or dropped, so `j` has been stored
    have hpend := judgePending_of_reach r hreached hok
    have hvote := voteLedger_of_reach (fun i => i = j) hreached hok
    have hP : ∀ i, decide (i = j) = true → i.unit.runId = r := by
      intro i hi
      rw [of_decide_eq_true hi]
      exact hr
    have hheld := voteLedger_held_le hP s.toExec
    have hdropped : s.mem.hist.dropped.countP (· = j) ≤
        s.mem.hist.dropped.countP (·.unit.runId = r) :=
      List.countP_mono_left fun i _ hi => by simpa using hP i hi
    have hpos : 0 < s.mem.hist.enqueued.countP (· = j) :=
      List.countP_pos_iff.mpr ⟨j, hj, by simp⟩
    have hverdict : 0 < s.mem.hist.verdicts.countP fun v => decide (v.1 = j) := by omega
    obtain ⟨v, hv, heq⟩ := List.countP_pos_iff.mp hverdict
    rw [← of_decide_eq_true heq]
    exact verdict_stored_of_reach h v hv

/-! ### The end of an execution -/

/-- The driver's last loop is past the run. -/
def MainPc.tailed (r : ℕ) : MainPc → Prop
  | .tail rs => r ∉ rs
  | .settleSelect | .settleUpdate _ | .returned => True
  | _ => False

theorem MainPc.poolsDone_of_tailed {pc : MainPc} (h : pc.tailed r) : pc.poolsDone = true := by
  cases pc <;> first | rfl | exact h.elim

/-- Past the driver's last loop, a planned run is finished or recorded failed. -/
def Tailed (r : ℕ) (s : State) : Prop :=
  s.main.tailed r → s.mem.pipe.finished r = true ∨ failedIn s.store r

theorem tailed_step {a : Label} (hfinishes : plan.path.finishesRuns = true)
    (hr : r ∈ plan.runs) (hc : Control env plan s) (hs : Tailed r s)
    (h : Step env plan s a s') : Tailed r s' := by
  intro ht
  cases h with
  | @main st' m pc hm =>
    generalize hpc : s.main = pc₀ at hm
    unfold Tailed at hs
    rw [hpc] at hs
    cases hm with
    | tailRun r' rs =>
      -- the run is looked at now, or it was before
      by_cases hmem : r ∈ r' :: rs
      · obtain rfl : r = r' := (List.mem_cons.mp hmem).resolve_right ht
        dsimp only
        split
        · exact .inl (by assumption)
        · exact .inr (failedIn_finishEvalRun _ r)
      · refine (hs hmem).imp_right fun hfailed => ?_
        split
        · exact hfailed
        · exact failedIn_finishEvalRun_of_failedIn hfailed
    | tailDone => exact hs (by simp [MainPc.tailed])
    | verdict | unsettled | updated => exact hs trivial
    | flushed => exact absurd hr ht
    | flushedLive hlive => simp [hlive] at hfinishes
    | _ => exact ht.elim
  | exam hi he =>
    -- no worker is left in the tail
    have hall := (hc.no_worker (MainPc.poolsDone_of_tailed ht)).1
    exact absurd (hall _ (List.mem_of_getElem? hi)) he.control.1
  | judge hj he =>
    have hall := (hc.no_worker (MainPc.poolsDone_of_tailed ht)).2
    exact absurd (hall _ (List.mem_of_getElem? hj)) he.exit.1
  | handCell => exact ht.elim
  | handJob hi hj =>
    have hall := (hc.no_worker (MainPc.poolsDone_of_tailed ht)).1
    exact absurd (hall _ (List.mem_of_getElem? hi)) (by simp)
  | cancel => exact hs ht
  | expire => exact hs ht

theorem tailed_of_reach (hfinishes : plan.path.finishesRuns = true) (hr : r ∈ plan.runs)
    (h : Transition.Reach (step env plan) guard (plan.start env st) s) : Tailed r s := by
  refine h.invariant_of (fun _ hrun => control_of_reach (reached_of_reach hrun)) ?_ ?_
  · intro ht
    simp [Plan.start, Plan.startExec, MainPc.tailed] at ht
  · intro t a u hc ht _ hstep
    exact tailed_step hfinishes hr hc ht (step_cases hstep).2

/-- A crash changes neither the store nor what the execution did. -/
theorem exists_live_of_reach
    (h : Transition.Reach (step env plan) guard (plan.start env st) s) :
    ∃ t, Transition.Reach (step env plan) guard (plan.start env st) t ∧
      t.mem.panicked = false ∧ t.store = s.store ∧ t.mem.hist = s.mem.hist ∧
        t.mem.pipe = s.mem.pipe ∧ t.main = s.main := by
  cases h with
  | refl => exact ⟨_, .refl, rfl, rfl, rfl, rfl, rfl⟩
  | @tail t u a hrun hg hstep =>
    by_cases hok : s.mem.panicked = false
    · exact ⟨s, .tail hrun hg hstep, hok, rfl, rfl, rfl, rfl⟩
    · refine ⟨t, hrun, (step_cases hstep).1, ?_⟩
      obtain ⟨hlive, hcases⟩ := step_cases hstep
      cases hcases with
      | main hm =>
        have hcontrol := control_of_reach (reached_of_reach hrun)
        obtain ⟨-, -, -, -, hpan, -⟩ :=
          hm.control hcontrol.cellsClosed hcontrol.jobsClosed hcontrol.left
        exact absurd (hpan.trans hlive) hok
      | exam hi he =>
        cases he with
        -- a crash changes nothing but the flag, so the state before it serves
        | recordCrash | settleCrash => exact ⟨rfl, rfl, rfl, rfl⟩
        | reported | reportedLast =>
          exact absurd ((reportCell_closed plan (t.mem.endCell _) _ _).2.2.trans hlive) hok
        | _ => exact absurd hlive hok
      | judge hj he =>
        cases he with
        | settleCrash => exact ⟨rfl, rfl, rfl, rfl⟩
        | _ => exact absurd hlive hok
      | _ => exact absurd hlive hok

/-! ### Executed runs -/

/-- A worker leaves a cell of the run at its check of the context, with cases unasked. -/
def cutsCell (plan : Plan) (r : ℕ) (s : State) : Label → Prop
  | .exam i _ =>
    match s.exam[i]? with
    | some (.nextCase l) => plan.path.driver ≠ .evalModel ∧ s.mem.canceled = true ∧ l.rest ≠ [] ∧
        l.cell.run.id = r
    | _ => False
  | _ => False

instance (plan : Plan) (r : ℕ) (s : State) (a : Label) : Decidable (cutsCell plan r s a) := by
  unfold cutsCell
  split
  · split <;> infer_instance
  · infer_instance

/-- The run is complete, and every unit of it was taken up as often as it is planned, but for
those of cells whose setup failed. -/
def Executed (plan : Plan) (r : ℕ) (s : State) : Prop :=
  (∀ u : UnitKey, u.runId = r → plan.planned u =
    s.mem.hist.started.count u + (s.mem.hist.skipped.flatMap Cell.units).count u) ∧
      Complete plan r s

/-- The units of the run that were lost are those of cells that failed to set up or that the
feeder dropped. -/
def LostWhole (r : ℕ) (s : State) : Prop :=
  ∀ u : UnitKey, u.runId = r → s.mem.hist.lost.count u =
    (s.mem.hist.skipped.flatMap Cell.units).count u + (s.mem.hist.unfed.flatMap Cell.units).count u

theorem runId_of_mem_units {cell : Cell} {u : UnitKey} (h : u ∈ cell.units) :
    u.runId = cell.run.id := by
  obtain ⟨c, -, rfl⟩ := List.mem_map.mp h
  rfl

theorem LostWhole.of_hist (hs : LostWhole r s) (h : s'.mem.hist.lost = s.mem.hist.lost)
    (hskipped : s'.mem.hist.skipped = s.mem.hist.skipped)
    (hunfed : s'.mem.hist.unfed = s.mem.hist.unfed) : LostWhole r s' := by
  intro u hu
  rw [h, hskipped, hunfed]
  exact hs u hu

theorem lostWhole_step {a : Label} (hguard : ¬ cutsCell plan r s a) (hs : LostWhole r s)
    (h : Step env plan s a s') : LostWhole r s' := by
  cases h with
  | main hm =>
    obtain ⟨cells, hhist, -⟩ := hm.hist_eq
    intro u hu
    have hold := hs u hu
    simp only [hhist, Shared.dropCells, List.count_append, List.flatMap_append] at hold ⊢
    omega
  | @exam i c pc st m pc' hi he =>
    cases he with
    | skip cell n =>
      intro u hu
      have hold := hs u hu
      simp only [Shared.skipCell, List.count_append, List.flatMap_append, List.flatMap_cons,
        List.flatMap_nil, List.append_nil] at hold ⊢
      omega
    | cut l hdriver hcan hrest =>
      -- what is cut is of another run
      intro u hu
      have hnot : u ∉ l.todo := by
        intro hmem
        have hrun : l.cell.run.id = r := (runId_of_mem_units hmem).symm.trans hu
        refine hguard ?_
        simp only [cutsCell, hi]
        exact ⟨hdriver, hcan, hrest, hrun⟩
      simp only [Shared.cutCell, List.count_append, List.count_eq_zero.mpr hnot, Nat.add_zero]
      exact hs u hu
    | reported | reportedLast =>
      exact hs.of_hist (by rw [reportCell_hist]; rfl) (by rw [reportCell_hist]; rfl)
        (by rw [reportCell_hist]; rfl)
    | _ => exact hs.of_hist rfl rfl rfl
  | judge hj he => cases he <;> exact hs.of_hist rfl rfl rfl
  | _ => exact hs.of_hist rfl rfl rfl

theorem ExamPc.exists_cell_of_mem_todo {pc : ExamPc} {u : UnitKey} (h : u ∈ pc.todo) :
    ∃ cell, pc.cell? = some cell ∧ cell.run.id = u.runId := by
  cases pc with
  | check | select | report | mark | finish | exited => cases h
  | _ => exact ⟨_, rfl, (runId_of_mem_units h).symm⟩

theorem count_units_eq_zero {cells : List Cell} (hcells : cells.countP (·.run.id = r) = 0)
    {u : UnitKey} (hu : u.runId = r) : (cells.flatMap Cell.units).count u = 0 := by
  refine List.count_eq_zero.mpr fun hmem => ?_
  obtain ⟨cell, hcell, hunit⟩ := List.mem_flatMap.mp hmem
  refine List.countP_eq_zero.mp hcells cell hcell (decide_eq_true ?_)
  rw [← hu]
  exact (runId_of_mem_units hunit).symm

/-- Once all cells of a run have ended, the units of it that were not taken up are those of cells
whose setup failed, if no cell of it was cut. -/
theorem planned_of_ended (h : Reached env plan s) (hok : s.mem.panicked = false)
    (hlost : LostWhole r s) (hall : endedCount s.mem r = plan.cellCount r) (u : UnitKey)
    (hu : u.runId = r) : plan.planned u =
      s.mem.hist.started.count u + (s.mem.hist.skipped.flatMap Cell.units).count u := by
  have hcells := cellLedger_of_reach (fun c => c.run.id = r) h hok
  have hplan := todo_of_reach u h hok
  have hunfed : s.mem.hist.unfed.countP (·.run.id = r) = 0 := by
    simp only [Ledger.value, cellLedger, endedCount, Plan.cellCount] at hcells hall
    omega
  have hleft : (plan.left s.main).countP (·.run.id = r) = 0 := by
    simp only [Ledger.value, Ledger.held, cellLedger, endedCount, Plan.cellCount] at hcells hall
    omega
  have hexam : Pool.total (fun pc => pc.todo.count u) s.exam = 0 := by
    refine Pool.total_eq_zero_iff.mpr fun pc hpc => List.count_eq_zero.mpr fun hmem => ?_
    obtain ⟨cell, hcell, hrun⟩ := ExamPc.exists_cell_of_mem_todo hmem
    have hlt := endedCount_lt h hok hpc hcell
    rw [hrun, hu] at hlt
    omega
  have hlost' := hlost u hu
  have hleft' := count_units_eq_zero hleft hu
  have hunfed' := count_units_eq_zero hunfed hu
  simp only [Ledger.held, todoLedger, Pool.total_zero] at hplan
  omega

/-- **Run recording.** In an execution that counts a run's cells, or has at most one cell of
it, and in which no worker leaves a cell of the run with cases unasked, the run is recorded done
only when all its units have been taken up and all its votes stored, and is recorded failed at
the end if some were not. -/
theorem run_recorded_of_reach
    (hcond : plan.path.countsCells = true ∨ plan.cellCount r ≤ 1) (hstart : ¬ doneIn st r)
    (h : Transition.Reach (step env plan) (fun s a => ¬ cutsCell plan r s a) (plan.start env st) s) :
    (doneIn s.store r → Executed plan r s) ∧
      (plan.path.finishesRuns = true → r ∈ plan.runs → s.main = .returned →
        ¬ Executed plan r s → failedIn s.store r) := by
  obtain ⟨t, hrun, hok, hstore, hhist, hpipe, hmain⟩ := exists_live_of_reach h
  have hreached := reached_of_reach hrun
  have hflags := finishFlags_of_reach hcond hstart hrun
  have hmarked := cellsMarked_of_reach hcond hreached
  have hlost : LostWhole r t := hrun.invariant (fun _ _ => rfl) fun _ _ _ ht hg hstep =>
    lostWhole_step hg ht (step_cases hstep).2
  -- a finished run has its cells marked and no case pending
  have hexecuted : t.mem.pipe.finished r = true → Executed plan r s := by
    intro hfinished
    obtain ⟨hdone, hpending⟩ := hflags.finished hfinished
    have hunits := planned_of_ended hreached hok hlost (hmarked.marked hdone)
    have hcomplete := complete_of_flags hmarked hrun hok hdone hpending
    unfold Executed Complete
    rw [← hstore, ← hhist]
    exact ⟨hunits, hcomplete⟩
  constructor
  · intro hdone
    rw [← hstore] at hdone
    exact hexecuted (hflags.stamped hdone)
  · intro hfinishes hr hreturned hincomplete
    have ht := tailed_of_reach hfinishes hr hrun (by rw [hmain, hreturned]; trivial)
    rw [← hstore]
    exact ht.resolve_left fun hfinished => hincomplete (hexecuted hfinished)

end

/-- A resume of two models of one run, with a rule case each. -/
def twoCellPlan (path : Path) : Plan where
  path := path
  campaignId := 1
  runs := [1, 1]
  cells := [⟨soloRun .running, 1, [ruleCase 1]⟩, ⟨soloRun .running, 2, [ruleCase 1]⟩]

/-- The first cell runs to its end while the second waits for the worker. -/
def firstCellLabels : List Label :=
  [.main, .main, .exam 0 .go, .handCell 0, .exam 0 (.setup (.ready "m1")), .exam 0 .go,
    .exam 0 .go, .exam 0 (.answer (.answered "a" 1 none none)), .exam 0 .go, .exam 0 .go,
    .exam 0 .go, .exam 0 .go, .exam 0 .go, .exam 0 .go, .exam 0 .go, .exam 0 .go]

/-- Then the second one does, and the execution comes to its end. -/
def secondCellLabels : List Label :=
  [.main, .exam 0 .go, .handCell 0, .exam 0 (.setup (.ready "m2"))] ++
    List.replicate 2 (.exam 0 .go) ++ [.exam 0 (.answer (.answered "b" 1 none none))] ++
      List.replicate 8 (.exam 0 .go) ++ [.main] ++ List.replicate 2 (.exam 0 .go) ++
        [.main] ++ List.replicate 2 (.judge 0 .go) ++ List.replicate 9 .main

/-- The null-score retry of the plan counts the two cells and records its run done at the end. -/
theorem run_recorded_of_reach_done :
    ∃ s, Transition.Reach (step soloEnv (twoCellPlan .retryNullScoreCells))
        (fun s a => ¬ cutsCell (twoCellPlan .retryNullScoreCells) 1 s a)
        ((twoCellPlan .retryNullScoreCells).start soloEnv soloStore) s ∧
      s.main = .returned ∧ doneIn s.store 1 ∧
      ((doneIn s.store 1 → Executed (twoCellPlan .retryNullScoreCells) 1 s) ∧
        ((twoCellPlan .retryNullScoreCells).path.finishesRuns = true →
          1 ∈ (twoCellPlan .retryNullScoreCells).runs → s.main = .returned →
            ¬ Executed (twoCellPlan .retryNullScoreCells) 1 s → failedIn s.store 1)) := by
  obtain ⟨s, hs⟩ : ∃ s, Transition.replayWith (step soloEnv (twoCellPlan .retryNullScoreCells))
      (fun s a => ¬ cutsCell (twoCellPlan .retryNullScoreCells) 1 s a)
      ((twoCellPlan .retryNullScoreCells).start soloEnv soloStore)
      (firstCellLabels.take 14 ++ secondCellLabels) = some s := ⟨_, rfl⟩
  have hreturned : s.main = .returned := by cases hs; rfl
  have hdone : doneIn s.store 1 := by
    cases hs
    exact ⟨_, List.mem_singleton_self _, rfl, rfl⟩
  exact ⟨s, .of_replayWith hs, hreturned, hdone,
    run_recorded_of_reach (.inl rfl) (by simp [doneIn, soloStore, soloRun]) (.of_replayWith hs)⟩

/-- **Early finish.** A resume marks a run after each of its cells: with two cells the run
is recorded done before the second has been executed. -/
theorem not_run_recorded :
    ¬ ∀ (env : Env) (plan : Plan) (st : Store) (s : State) (r : ℕ),
      plan.path = .retryNullScoreCells ∨ plan.path = .retryAnsweredUnits true ∨
        plan.path = .resumeCampaign →
      ¬ doneIn st r → Transition.Reachable (step env plan) (plan.start env st) s →
        doneIn s.store r → Executed plan r s := by
  intro h
  obtain ⟨s, hs⟩ : ∃ s, Transition.replay (step soloEnv (twoCellPlan .resumeCampaign))
      ((twoCellPlan .resumeCampaign).start soloEnv soloStore) firstCellLabels = some s :=
    ⟨_, rfl⟩
  have hended : s.mem.hist.ended = [⟨soloRun .running, 1, [ruleCase 1]⟩] := by cases hs; rfl
  have hdone : doneIn s.store 1 := by
    cases hs
    exact ⟨_, List.mem_singleton_self _, rfl, rfl⟩
  have hexecuted := h soloEnv (twoCellPlan .resumeCampaign) soloStore s 1 (.inr (.inr rfl))
    (by simp [doneIn, soloStore, soloRun]) (.of_replay hs) hdone
  have hcell := hexecuted.2.1 ⟨soloRun .running, 2, [ruleCase 1]⟩ (by simp [twoCellPlan]) rfl
  rw [hended] at hcell
  simp at hcell

/-- A retry of two cases of one cell. -/
def oneCellPlan : Plan where
  path := .retryNullScoreCells
  campaignId := 1
  runs := [1]
  cells := [⟨soloRun .running, 1, [ruleCase 1, ruleCase 2]⟩]

/-- The context ends while the first case is asked. -/
def cutLabels : List Label :=
  [.main, .main, .exam 0 .go, .handCell 0, .exam 0 (.setup (.ready "m1")), .exam 0 .go,
    .exam 0 .go, .cancel, .exam 0 (.answer (.answered "a" 1 none none))] ++
      List.replicate 9 (.exam 0 .go)

/-- **Cut cell.** A worker leaves its cell at the end of the context, and the run is recorded done
though the second case was never asked. -/
theorem not_executed_of_cut :
    ∃ s, Transition.Reachable (step soloEnv oneCellPlan) (oneCellPlan.start soloEnv soloStore) s ∧
      doneIn s.store 1 ∧ ¬ Executed oneCellPlan 1 s := by
  obtain ⟨s, hs⟩ : ∃ s, Transition.replay (step soloEnv oneCellPlan)
      (oneCellPlan.start soloEnv soloStore) cutLabels = some s := ⟨_, rfl⟩
  have hstarted : s.mem.hist.started = [⟨1, 1, 1⟩] ∧ s.mem.hist.skipped = [] := by
    cases hs
    exact ⟨rfl, rfl⟩
  refine ⟨s, .of_replay hs, ?_, fun hexecuted => ?_⟩
  · cases hs
    exact ⟨_, List.mem_singleton_self _, rfl, rfl⟩
  · have hunit := hexecuted.1 ⟨1, 1, 2⟩ rfl
    rw [hstarted.1, hstarted.2] at hunit
    exact absurd hunit (by decide)

end HubScope
