import HubScope.Evaluator.Samples

/-!
# Deadlock freedom of the exam and judge pools

The only way out of the judge pool that leaves the context live before the queue is closed is the
budget guard of the pool. Once the last judge worker has taken it, an exam worker that offers a
vote waits for ever, unless somebody still cancels: the exam pool and the feeder cancel where they
meet the spent budget, so every worker that gets to its report does, and so does the feeder before
it hands out a cell.

## Main definitions

* `ExamPc.mayOffer` — a worker may still offer a vote of the cell it holds
* `State.mayOffer`, `State.willCancel` — somebody may still offer a vote, somebody is bound to
  meet the spent budget first
* `abandonsQueue` — the last judge worker leaves on the budget with votes ahead
* `JudgesServe` — the pool invariant

## Main results

* `progress_of_reach` — a run that plans no unit twice and never abandons the queue has returned
  or has an enabled goroutine, in every state
* `not_deadlock_free` — a run that abandons the queue can stand still
-/

namespace HubScope

variable {env : Env} {plan : Plan} {st st' : Store} {m m' : Shared} {s s' : State}

/-! ### Votes ahead -/

/-- The answers to the case are put to a jury. -/
def Cell.asksJury (cell : Cell) (c : Case) : Bool :=
  c.verdictType = .judge && (judgesFor cell.run cell.modelDbId).1 ≠ []

def Cell.mayOffer (cell : Cell) : Bool := cell.cases.any cell.asksJury

def CellCursor.mayOffer (l : CellCursor) : Bool := l.rest.any l.cell.asksJury

def SampleCursor.mayOffer (k : SampleCursor) : Bool :=
  k.inCell.cell.asksJury k.case || k.inCell.mayOffer

/-- A vote may be offered after a sample. -/
def SampleCursor.mayOfferNext (env : Env) (plan : Plan) (k : SampleCursor) : Bool :=
  match sampleDone env plan k with
  | .call k => k.mayOffer
  | .nextCase l => l.mayOffer
  | _ => false

/-- A worker may still offer a vote of the cell it holds. -/
def ExamPc.mayOffer (env : Env) (plan : Plan) : ExamPc → Bool
  | .setup cell => cell.mayOffer
  | .nextCase l => l.mayOffer
  | .openCase k | .call k => k.mayOffer
  | .persist k (.answered ..) | .record k (.answered ..) _ => k.mayOffer
  | .persist k (.failed ..) | .record k (.failed ..) _ | .settle k _ | .write k _ =>
    k.mayOfferNext env plan
  | .enqueue k _ => k.judges ≠ [] || k.mayOfferNext env plan
  | .offer k jobs | .noteOffered k jobs => jobs ≠ [] || k.mayOfferNext env plan
  | _ => false

/-- A worker is on its way to its report or its stop check without a vote to offer. -/
def ExamPc.willReport (env : Env) (plan : Plan) (pc : ExamPc) : Bool :=
  pc ≠ .exited && pc ≠ .select && !pc.mayOffer env plan

/-- Somebody may still offer a vote. -/
def State.mayOffer (env : Env) (plan : Plan) (s : State) : Bool :=
  s.exam.any (ExamPc.mayOffer env plan) ||
    match s.main with
    | .offer c _ => c.mayOffer
    | _ => false

/-- The feeder has a cell to hand out; or one is on offer, a worker waits for it, and then there is
another one or no vote to offer of it. -/
def MainPc.willCancel (plan : Plan) (awaited : Bool) : MainPc → Bool
  | .offer c cs => awaited && (cs ≠ [] || !c.mayOffer)
  | pc => plan.left pc ≠ []

/-- Somebody meets the spent budget whatever the others do: a worker on its way to its report, or
the feeder. -/
def State.willCancel (env : Env) (plan : Plan) (s : State) : Bool :=
  s.exam.any (ExamPc.willReport env plan) || s.main.willCancel plan (s.exam.contains .select)

/-- The last judge worker meets its stop check with the budget spent and the context live, while
votes may still be offered and nobody is bound to cancel before. -/
def abandonsQueue (env : Env) (plan : Plan) (s : State) : Label → Prop
  | .judge j _ => s.judge[j]? = some .check ∧ s.mem.canceled = false ∧
      budgetExceeded plan s.mem = true ∧ (∀ pc ∈ s.judge.eraseIdx j, pc = .exited) ∧
      s.mayOffer env plan = true ∧ s.willCancel env plan = false
  | _ => False

instance (env : Env) (plan : Plan) (s : State) (a : Label) :
    Decidable (abandonsQueue env plan s a) :=
  match a with
  | .judge .. => inferInstanceAs (Decidable (_ ∧ _ ∧ _ ∧ _ ∧ _ ∧ _))
  | .main | .exam .. | .handCell _ | .handJob .. | .cancel | .expire =>
    inferInstanceAs (Decidable False)

theorem SampleCursor.mayOfferNext_eq (k : SampleCursor) :
    k.mayOfferNext env plan = (sampleDone env plan k).mayOffer env plan := by
  unfold SampleCursor.mayOfferNext
  refine sampleDone_rule (motive := fun pc => (match pc with
    | .call k => k.mayOffer
    | .nextCase l => l.mayOffer
    | _ => false) = pc.mayOffer env plan) k (fun _ => rfl) fun _ => ?_
  exact caseDone_rule k (fun _ => rfl) fun _ _ => rfl

/-- Without votes ahead in the sample and its cell there are none after it. -/
theorem SampleCursor.mayOfferNext_eq_false {k : SampleCursor} (h : k.mayOffer = false) :
    k.mayOfferNext env plan = false := by
  have hcell : k.inCell.mayOffer = false := (Bool.or_eq_false_iff.mp h).2
  rw [SampleCursor.mayOfferNext_eq]
  exact sampleDone_rule k (fun _ => h) fun _ => caseDone_rule k (fun _ => rfl) fun _ _ => hcell

theorem ExamPc.willReport_iff {pc : ExamPc} : pc.willReport env plan = true ↔
    pc ≠ .exited ∧ pc ≠ .select ∧ pc.mayOffer env plan = false := by
  simp [ExamPc.willReport, and_assoc]

theorem willReport_sampleDone {k : SampleCursor} (h : k.mayOfferNext env plan = false) :
    (sampleDone env plan k).willReport env plan = true := by
  refine ExamPc.willReport_iff.mpr ⟨sampleDone_ne_exited, ?_, ?_⟩
  · exact sampleDone_rule k (fun _ => ExamPc.noConfusion) fun _ =>
      caseDone_rule k (fun _ => ExamPc.noConfusion) fun _ _ => ExamPc.noConfusion
  · rwa [← SampleCursor.mayOfferNext_eq]

/-! ### The budget -/

theorem reportCell_expired (plan : Plan) (m : Shared) (runId : ℕ) (answered : Bool) :
    (reportCell plan m runId answered).1.expired = m.expired := by
  unfold reportCell
  split_ifs <;> rfl

/-- A batch that reports a cell past its budget cancels itself. -/
theorem reportCell_overBudget (runId : ℕ) (answered : Bool)
    (h : budgetExceeded plan m = true) : (reportCell plan m runId answered).1.canceled = true := by
  obtain ⟨hguarded, hexpired⟩ := Bool.and_eq_true_iff.mp h
  have hcounts : plan.path.countsCells = true := by
    cases hpath : plan.path <;> rw [hpath] at hguarded <;> first | rfl | cases hguarded
  unfold reportCell
  rw [if_pos hcounts]
  dsimp only
  rw [if_pos hguarded]
  simp [budgetExceeded, hguarded, hexpired]

theorem ExamStep.expired_eq {pc pc' : ExamPc} (h : ExamStep env plan st m pc st' m' pc') :
    m'.expired = m.expired := by
  cases h with
  | reported | reportedLast => exact reportCell_expired plan _ _ _
  | _ => rfl

theorem JudgeStep.expired_eq {pc pc' : JudgePc} (h : JudgeStep env plan st m pc st' m' pc') :
    m'.expired = m.expired := by
  cases h <;> rfl

theorem MainStep.expired_eq {examDone judgeDone : Bool} {pc pc' : MainPc}
    (h : MainStep plan st m examDone judgeDone pc st' m' pc') : m'.expired = m.expired := by
  cases h <;> rfl

theorem budgetExceeded_congr (plan : Plan) (h : m'.expired = m.expired) :
    budgetExceeded plan m' = budgetExceeded plan m := by
  rw [budgetExceeded, budgetExceeded, h]

/-- Past the budget, a worker without a vote to offer cancels or goes on to its report. -/
theorem ExamStep.willReport {pc pc' : ExamPc} (h : ExamStep env plan st m pc st' m' pc')
    (hbudget : budgetExceeded plan m = true) (hpc : pc.willReport env plan = true) :
    m'.canceled = true ∨ m'.panicked = true ∨ pc'.willReport env plan = true := by
  obtain ⟨-, hselect, hvotes⟩ := ExamPc.willReport_iff.mp hpc
  cases h with
  | stopped hc => exact .inl hc
  | overBudget => exact .inl rfl
  | polled _ hb => exact absurd hbudget (by rw [hb]; exact Bool.false_ne_true)
  | leave => exact absurd rfl hselect
  | skip | stampAll | casesDone | cut | stamped | marked | markedLast | finished =>
    exact .inr (.inr rfl)
  | reported cell answered | reportedLast cell answered =>
    exact .inl (reportCell_overBudget (m := m.endCell cell) cell.run.id answered hbudget)
  | ready => exact .inr (.inr (ExamPc.willReport_iff.mpr ⟨by simp, by simp, hvotes⟩))
  | begin l c rest _ hrest | clearNull l c rest _ hrest | clearAny l c rest _ hrest =>
    have hcase : (l.cell.asksJury c || rest.any l.cell.asksJury) = false := by
      rw [← List.any_cons, ← hrest]
      exact hvotes
    exact .inr (.inr (ExamPc.willReport_iff.mpr ⟨by simp, by simp, hcase⟩))
  | opened k => exact .inr (.inr (ExamPc.willReport_iff.mpr ⟨by simp, by simp, hvotes⟩))
  | called k o =>
    refine .inr (.inr (ExamPc.willReport_iff.mpr ⟨by simp, by simp, ?_⟩))
    cases o with
    | answered => exact hvotes
    | failed => exact SampleCursor.mayOfferNext_eq_false hvotes
  | persisted k o =>
    refine .inr (.inr (ExamPc.willReport_iff.mpr ⟨by simp, by simp, ?_⟩))
    cases o <;> exact hvotes
  | unanswered k => exact .inr (.inr (ExamPc.willReport_iff.mpr ⟨by simp, by simp, hvotes⟩))
  | recordCrash | settleCrash => exact .inr (.inl rfl)
  | recorded k id text =>
    -- without votes ahead the case is for no jury that has members
    have hnext : ({ k with answered := true } : SampleCursor).mayOfferNext env plan = false :=
      SampleCursor.mayOfferNext_eq_false hvotes
    have hcase : k.inCell.cell.asksJury k.case = false := (Bool.or_eq_false_iff.mp hvotes).1
    have hroute : (routeSample env { k with answered := true } id text).mayOffer env plan = false := by
      unfold routeSample
      split
      · exact hnext
      · rename_i hjudge
        split_ifs with hjudges
        · exact hnext
        · have hasks : k.inCell.cell.asksJury k.case = true :=
            Bool.and_eq_true_iff.mpr ⟨decide_eq_true hjudge, decide_eq_true hjudges⟩
          exact absurd (hcase.symm.trans hasks) Bool.false_ne_true
    refine .inr (.inr (ExamPc.willReport_iff.mpr ⟨routeSample_ne_exited, ?_, hroute⟩))
    exact routeSample_rule _ id text (fun _ => ExamPc.noConfusion) fun _ => ExamPc.noConfusion
  | settled k | wrote k => exact .inr (.inr (willReport_sampleDone hvotes))
  | completed k => exact .inr (.inr (ExamPc.willReport_iff.mpr ⟨by simp, by simp, hvotes⟩))
  | registered k id =>
    obtain ⟨hjudges, hnext⟩ := Bool.or_eq_false_iff.mp hvotes
    have hnone : jobsOf k id = [] := by
      rw [jobsOf, show k.judges = [] from by simpa using hjudges]
      rfl
    refine .inr (.inr (ExamPc.willReport_iff.mpr ⟨by simp, by simp, ?_⟩))
    rw [hnone]
    exact hnext
  | offeredAll k => exact .inr (.inr (willReport_sampleDone hvotes))
  | dropped k jobs _ hc => exact .inl hc
  | noted k jobs => exact .inr (.inr (ExamPc.willReport_iff.mpr ⟨by simp, by simp, hvotes⟩))

/-! ### Serving the judge queue -/

/-- Somebody serves the judge queue, or somebody meets the spent budget, or the exam pool only
winds down. -/
def JudgesServe (env : Env) (plan : Plan) (s : State) : Prop :=
  (∃ pc ∈ s.judge, pc ≠ .exited) ∨ s.mem.canceled = true ∨ s.mem.panicked = true ∨
    (budgetExceeded plan s.mem = true ∧ s.willCancel env plan = true) ∨
    (plan.left s.main = [] ∧ ∀ pc ∈ s.exam, pc = .exited ∨ pc = .select)

theorem judgesServe_start (st : Store) : JudgesServe env plan (plan.start env st) := by
  refine .inl ⟨.check, ?_, by simp⟩
  simp only [Plan.start, Plan.startExec, List.mem_replicate, ne_eq, and_true]
  exact env.judgeConcurrency_pos.ne'

theorem willCancel_iff : s.willCancel env plan = true ↔
    (∃ pc ∈ s.exam, pc.willReport env plan = true) ∨
      s.main.willCancel plan (s.exam.contains .select) = true := by
  rw [State.willCancel, Bool.or_eq_true, List.any_eq_true]

/-- Once nobody is left who may offer a vote or cancels, the exam pool winds down. -/
theorem windsDown (hc : Control env plan s) (hlive : s.mem.canceled = false)
    (hp : s.mem.panicked = false) (hvotes : s.mayOffer env plan = false)
    (hcancel : s.willCancel env plan = false) :
    plan.left s.main = [] ∧ ∀ pc ∈ s.exam, pc = .exited ∨ pc = .select := by
  obtain ⟨hworkers, hfeeder⟩ := Bool.or_eq_false_iff.mp hvotes
  obtain ⟨hreports, hfeeds⟩ := Bool.or_eq_false_iff.mp hcancel
  have hidle : ∀ pc ∈ s.exam, pc = .exited ∨ pc = .select := by
    intro pc hpc
    by_contra hother
    push Not at hother
    have hquiet : pc.mayOffer env plan = false := by
      simpa using List.any_eq_false.mp hworkers pc hpc
    exact List.any_eq_false.mp hreports pc hpc
      (ExamPc.willReport_iff.mpr ⟨hother.1, hother.2, hquiet⟩)
  refine ⟨?_, hidle⟩
  cases hmain : s.main with
  | offer c cs =>
    -- nobody takes the cell on offer, so the whole pool has left, which it has no reason for
    rw [hmain] at hfeeder hfeeds
    have hquiet : c.mayOffer = false := hfeeder
    have hnone : .select ∉ s.exam := by simpa [MainPc.willCancel, hquiet] using hfeeds
    have hopen : s.mem.cellsClosed = false := by
      rw [hc.cellsClosed, hmain]
      rfl
    have hsome : 0 < s.exam.length := hc.exam_pos (by rw [hmain]; exact List.cons_ne_nil c cs)
    obtain ⟨pc, hpc⟩ := List.exists_mem_of_length_pos hsome
    rcases hidle pc hpc with rfl | rfl
    · rcases hc.examLeft hpc with h | h | h
      · exact absurd (hlive.symm.trans h) Bool.false_ne_true
      · exact absurd (hopen.symm.trans h) Bool.false_ne_true
      · exact absurd (hp.symm.trans h) Bool.false_ne_true
    · exact absurd hpc hnone
  | _ =>
    rw [hmain] at hfeeds
    simpa [MainPc.willCancel] using hfeeds

theorem MainStep.left_eq_nil {examDone judgeDone : Bool} {pc pc' : MainPc}
    (h : MainStep plan st m examDone judgeDone pc st' m' pc') (hleft : plan.left pc = []) :
    plan.left pc' = [] := by
  cases h <;> simp_all [Plan.left]

/-- Past the budget the feeder hands out no further cell. -/
theorem MainStep.willCancel {examDone judgeDone awaited : Bool} {pc pc' : MainPc}
    (h : MainStep plan st m examDone judgeDone pc st' m' pc')
    (hbudget : budgetExceeded plan m = true) (hpc : pc.willCancel plan awaited = true) :
    m'.canceled = true ∨ pc'.willCancel plan awaited = true := by
  cases h with
  | begun | marked | markedLast | finished => exact .inr hpc
  | stopped _ _ hc | dropped _ _ hc => exact .inl hc
  | overBudget => exact .inl rfl
  | polled _ _ _ hb => exact absurd (hb.symm.trans hbudget) Bool.false_ne_true
  | fedAll | waited | drained | flushed | flushedLive | flushRun | tailDone | tailRun | verdict
  | unsettled | updated => cases hpc

/-- Where a worker waits for a cell it goes on to. -/
theorem MainPc.willCancel_of_imp {awaited awaited' : Bool} {pc : MainPc}
    (h : pc.willCancel plan awaited = true)
    (hmono : (∃ c cs, pc = .offer c cs) → awaited = true → awaited' = true) :
    pc.willCancel plan awaited' = true := by
  cases pc with
  | offer c cs =>
    obtain ⟨hawaited, hrest⟩ := Bool.and_eq_true_iff.mp h
    exact Bool.and_eq_true_iff.mpr ⟨hmono ⟨c, cs, rfl⟩ hawaited, hrest⟩
  | _ => exact h

theorem judgesServe_main {st : Store} {m : Shared} {pc : MainPc}
    (hm : MainStep plan s.store s.mem (s.exam.all (· = .exited)) (s.judge.all (· = .exited))
      s.main st m pc) (hc : Control env plan s) (hs : JudgesServe env plan s) :
    JudgesServe env plan { s with store := st, mem := m, main := pc } := by
  obtain ⟨-, -, -, hcan, hpan, -⟩ := hm.control hc.cellsClosed hc.jobsClosed hc.left
  rcases hs with h | h | h | ⟨hbudget, h⟩ | ⟨hleft, hidle⟩
  · exact .inl h
  · exact .inr (.inl (hcan h))
  · exact .inr (.inr (.inl (hpan.trans h)))
  · have hbudget' := (budgetExceeded_congr plan hm.expired_eq).trans hbudget
    by_cases hcanceled : m.canceled = true
    · exact .inr (.inl hcanceled)
    refine .inr (.inr (.inr (.inl ⟨hbudget', ?_⟩)))
    rcases willCancel_iff.mp h with h | h
    · exact willCancel_iff.mpr (.inl h)
    · exact willCancel_iff.mpr (.inr ((hm.willCancel hbudget h).resolve_left hcanceled))
  · exact .inr (.inr (.inr (.inr ⟨hm.left_eq_nil hleft, hidle⟩)))

theorem judgesServe_exam {i : ℕ} {pc pc' : ExamPc} {st : Store} {m : Shared}
    (hi : s.exam[i]? = some pc) (he : ExamStep env plan s.store s.mem pc st m pc')
    (hc : Control env plan s) (hs : JudgesServe env plan s) :
    JudgesServe env plan { s with store := st, mem := m, exam := s.exam.set i pc' } := by
  obtain ⟨hne, -, -, hcan, hpan, -⟩ := he.control
  have hself : pc' ∈ s.exam.set i pc' :=
    List.mem_of_getElem? (List.getElem?_set_self (List.getElem?_eq_some_iff.mp hi).1)
  rcases hs with h | h | h | ⟨hbudget, h⟩ | ⟨hleft, hidle⟩
  · exact .inl h
  · exact .inr (.inl (hcan h))
  · exact .inr (.inr (.inl (hpan h)))
  · have hbudget' := (budgetExceeded_congr plan he.expired_eq).trans hbudget
    rcases willCancel_iff.mp h with ⟨w, hw, hreports⟩ | h
    · by_cases hwpc : w = pc
      · subst hwpc
        rcases he.willReport hbudget hreports with h | h | h
        · exact .inr (.inl h)
        · exact .inr (.inr (.inl h))
        · exact .inr (.inr (.inr (.inl ⟨hbudget', willCancel_iff.mpr (.inl ⟨pc', hself, h⟩)⟩)))
      · exact .inr (.inr (.inr (.inl ⟨hbudget', willCancel_iff.mpr
          (.inl ⟨w, Pool.mem_set_of_ne hw hi hwpc, hreports⟩)⟩)))
    · by_cases hcanceled : s.mem.canceled = true
      · exact .inr (.inl (hcan hcanceled))
      refine .inr (.inr (.inr (.inl ⟨hbudget', willCancel_iff.mpr (.inr ?_)⟩)))
      refine MainPc.willCancel_of_imp h ?_
      rintro ⟨c, cs, hmain⟩ hwaits
      have hselect : pc ≠ .select := by
        -- a worker leaves its wait only once the context is over, the cells are still open
        rintro rfl
        cases he with
        | leave hstop =>
          have hopen : s.mem.cellsClosed = false := by
            rw [hc.cellsClosed, hmain]
            rfl
          exact hstop.elim hcanceled fun h => absurd (hopen.symm.trans h) Bool.false_ne_true
      exact List.contains_iff_mem.mpr
        (Pool.mem_set_of_ne (List.contains_iff_mem.mp hwaits) hi (Ne.symm hselect))
  · rcases hidle pc (List.mem_of_getElem? hi) with rfl | rfl
    · exact absurd rfl hne
    · cases he with
      | leave =>
        exact .inr (.inr (.inr (.inr ⟨hleft, Pool.forall_mem_set hidle (.inl rfl)⟩)))

theorem MainPc.left_of_closedJobs {pc : MainPc} (h : pc.closedJobs = true) : plan.left pc = [] := by
  cases pc <;> first | rfl | cases h

theorem judgesServe_judge {j : ℕ} {c : JudgeChoice} {pc pc' : JudgePc} {st : Store} {m : Shared}
    (hj : s.judge[j]? = some pc) (he : JudgeStep env plan s.store s.mem pc st m pc')
    (hc : Control env plan s) (hguard : ¬ abandonsQueue env plan s (.judge j c))
    (hs : JudgesServe env plan s) :
    JudgesServe env plan { s with store := st, mem := m, judge := s.judge.set j pc' } := by
  obtain ⟨-, -, hcan, hpan⟩ := he.control
  obtain ⟨hne, hexit⟩ := he.exit
  have hbudget := budgetExceeded_congr plan he.expired_eq
  rcases hs with - | h | h | h | h
  · by_cases hpc' : pc' = .exited
    · rcases hexit hpc' with h | h | h | ⟨rfl, hlive, hspent⟩
      · exact .inr (.inl h)
      · exact .inr (.inr (.inl h))
      · refine .inr (.inr (.inr (.inr ⟨?_, fun pc hpc => .inl (hc.drained h pc hpc)⟩)))
        exact MainPc.left_of_closedJobs (hc.jobsClosed ▸ h)
      · -- the guard leaves another judge worker, somebody who cancels, or no vote ahead
        by_cases hothers : ∀ pc ∈ s.judge.eraseIdx j, pc = .exited
        · by_cases hp : s.mem.panicked = true
          · exact .inr (.inr (.inl (hpan hp)))
          by_cases hcancel : s.willCancel env plan = true
          · exact .inr (.inr (.inr (.inl ⟨hbudget.trans hspent, hcancel⟩)))
          by_cases hvotes : s.mayOffer env plan = true
          · exact absurd ⟨hj, hlive, hspent, hothers, hvotes, Bool.eq_false_iff.mpr hcancel⟩ hguard
          · have hidle := windsDown hc hlive (Bool.eq_false_iff.mpr hp)
              (Bool.eq_false_iff.mpr hvotes) (Bool.eq_false_iff.mpr hcancel)
            exact .inr (.inr (.inr (.inr hidle)))
        · push Not at hothers
          obtain ⟨w, hw, hwpc⟩ := hothers
          obtain ⟨i, hij, hi⟩ := List.mem_eraseIdx_iff_getElem?.mp hw
          refine .inl ⟨w, List.mem_of_getElem? (i := i) ?_, hwpc⟩
          rw [List.getElem?_set_ne (Ne.symm hij)]
          exact hi
    · exact .inl ⟨pc', List.mem_of_getElem? (i := j)
        (List.getElem?_set_self (List.getElem?_eq_some_iff.mp hj).1), hpc'⟩
  · exact .inr (.inl (hcan.trans h))
  · exact .inr (.inr (.inl (hpan h)))
  · exact .inr (.inr (.inr (.inl ⟨hbudget.trans h.1, h.2⟩)))
  · exact .inr (.inr (.inr (.inr h)))

theorem judgesServe_step {a : Label} (hc : Control env plan s) (hs : JudgesServe env plan s)
    (hguard : ¬ abandonsQueue env plan s a) (h : Step env plan s a s') :
    JudgesServe env plan s' := by
  cases h with
  | main hm => exact judgesServe_main hm hc hs
  | exam hi he => exact judgesServe_exam hi he hc hs
  | judge hj he => exact judgesServe_judge hj he hc hguard hs
  | @handCell i c cs hmain hi =>
    have hself : ExamPc.setup c ∈ s.exam.set i (.setup c) :=
      List.mem_of_getElem? (List.getElem?_set_self (List.getElem?_eq_some_iff.mp hi).1)
    rcases hs with h | h | h | ⟨hbudget, h⟩ | ⟨hleft, -⟩
    · exact .inl h
    · exact .inr (.inl h)
    · exact .inr (.inr (.inl h))
    · refine .inr (.inr (.inr (.inl ⟨hbudget, ?_⟩)))
      rcases willCancel_iff.mp h with ⟨w, hw, hreports⟩ | h
      · have hne : w ≠ .select := (ExamPc.willReport_iff.mp hreports).2.1
        exact willCancel_iff.mpr (.inl ⟨w, Pool.mem_set_of_ne hw hi hne, hreports⟩)
      · rw [hmain] at h
        obtain ⟨-, hrest⟩ := Bool.and_eq_true_iff.mp h
        rcases (Bool.or_eq_true _ _).mp hrest with hmore | hquiet
        · exact willCancel_iff.mpr (.inr hmore)
        · exact willCancel_iff.mpr (.inl ⟨_, hself, ExamPc.willReport_iff.mpr
            ⟨by simp, by simp, (Bool.not_eq_true' _).mp hquiet⟩⟩)
    · rw [hmain] at hleft
      cases hleft
  | @handJob i j k job jobs hi hj =>
    refine .inl ⟨.take job, List.mem_of_getElem? (i := j) ?_, by simp⟩
    exact List.getElem?_set_self (List.getElem?_eq_some_iff.mp hj).1
  | cancel => exact .inr (.inl rfl)
  | expire =>
    refine hs.imp id (.imp id (.imp id (.imp (fun h => ⟨?_, h.2⟩) id)))
    obtain ⟨hguarded, -⟩ := Bool.and_eq_true_iff.mp h.1
    exact Bool.and_eq_true_iff.mpr ⟨hguarded, rfl⟩

/-! ### Progress -/

/-- Past the budget the feeder can step where it is bound to cancel. -/
theorem enabled_of_willCancel (hp : s.mem.panicked = false)
    (hbudget : budgetExceeded plan s.mem = true) (h : s.willCancel env plan = true) :
    Enabled env plan s := by
  rcases willCancel_iff.mp h with ⟨pc, hpc, hreports⟩ | h
  · obtain ⟨i, hi⟩ := List.getElem?_of_mem hpc
    obtain ⟨hexited, hselect, hvotes⟩ := ExamPc.willReport_iff.mp hreports
    refine enabled_of_exam hp hi (examStep_enabled pc hselect hexited ?_)
    rintro k job jobs rfl
    cases hvotes
  · cases hmain : s.main with
    | begin rs => cases rs <;> exact enabled_of_main hp (by rw [hmain]; rfl)
    | beginFinish r rs => exact enabled_of_main hp (by rw [hmain]; rfl)
    | feed cs =>
      cases cs with
      | nil => exact enabled_of_main hp (by rw [hmain]; rfl)
      | cons c cs =>
        by_cases hcan : s.mem.canceled = true
        · exact enabled_of_main hp (by rw [hmain, mainStep, if_pos hcan])
        · exact enabled_of_main hp (by rw [hmain, mainStep, if_neg hcan, if_pos hbudget])
    | offer c cs =>
      rw [hmain] at h
      obtain ⟨hwaits, -⟩ := Bool.and_eq_true_iff.mp h
      obtain ⟨i, hi⟩ := List.getElem?_of_mem (List.contains_iff_mem.mp hwaits)
      exact ⟨.handCell i, _, rfl, by simp only [step, hp, hmain, hi]; rfl⟩
    | _ =>
      rw [hmain] at h
      cases h

/-- A vote on offer is taken or dropped, or somebody else can step. -/
theorem served_of_judgesServe (hp : s.mem.panicked = false) (hs : JudgesServe env plan s) :
    Served env plan s := by
  intro k job jobs hmem
  obtain ⟨i, hi⟩ := List.getElem?_of_mem hmem
  by_cases hcan : s.mem.canceled = true
  · exact enabled_of_exam hp hi ⟨.go, _, by simp [examStep, hcan]; rfl⟩
  rcases hs with ⟨pc, hpc, hne⟩ | h | h | ⟨hbudget, h⟩ | ⟨-, hidle⟩
  · exact enabled_of_judge_alive hp hpc hne (.inr (.inr ⟨i, k, job, jobs, hi⟩))
  · exact absurd h hcan
  · exact absurd (hp.symm.trans h) Bool.false_ne_true
  · exact enabled_of_willCancel hp hbudget h
  · rcases hidle _ hmem with h | h <;> cases h

/-- **Deadlock freedom.** In a run that plans no unit twice and in which the judge pool never
abandons its queue, every state in which the execution has not returned has an enabled
goroutine. -/
theorem progress_of_reach (st : Store) (hplanned : ∀ u, plan.planned u ≤ 1)
    (h : Transition.Reach (step env plan) (fun s a => ¬ abandonsQueue env plan s a)
      (plan.start env st) s) :
    s.main = .returned ∨ Enabled env plan s := by
  have hcontrol : Control env plan s := control_of_reach (reached_of_reach h)
  have hserve : JudgesServe env plan s :=
    h.invariant_of (fun _ hrun => control_of_reach (reached_of_reach hrun)) (judgesServe_start st)
      fun _ _ _ hc hj hguard hstep => judgesServe_step hc hj hguard (step_cases hstep).2
  have hp : s.mem.panicked = false := panicked_of_reach hplanned (reached_of_reach h)
  by_cases hmain : s.main = .returned
  · exact .inl hmain
  · exact .inr (enabled_of_control hp hcontrol (served_of_judgesServe hp hserve) hmain)

theorem soloPlan_planned (u : UnitKey) : soloPlan.planned u ≤ 1 :=
  List.nodup_iff_count_le_one.mp (by decide) u

/-- The only vote is cast before the deadline passes; the judge worker then leaves on the budget
while the exam worker is still at its cell. -/
def votedLabels : List Label :=
  [.main, .main, .exam 0 .go, .handCell 0, .main, .exam 0 (.setup (.ready "m1")), .exam 0 .go,
    .exam 0 .go, .exam 0 (.answer (.answered "a" 1 none none)), .exam 0 .go, .exam 0 .go,
    .exam 0 .go, .judge 0 .go, .handJob 0 0, .judge 0 .go,
    .judge 0 (.verdict (.scored 1 none none)), .judge 0 .go, .judge 0 .go, .judge 0 .go,
    .judge 0 .go, .judge 0 .go, .judge 0 .go, .exam 0 .go, .exam 0 .go, .expire, .judge 0 .go]

theorem progress_of_reach_voted : ∃ s : State, s.mem.hist.verdicts.length = 1 ∧
    s.judge = [.exited] ∧ s.mem.canceled = false ∧ s.main = .wait ∧
      (s.main = .returned ∨ Enabled soloEnv soloPlan s) := by
  obtain ⟨s, hs⟩ : ∃ s, Transition.replayWith (step soloEnv soloPlan)
      (fun s a => ¬ abandonsQueue soloEnv soloPlan s a) (soloPlan.start soloEnv soloStore)
      votedLabels = some s := ⟨_, rfl⟩
  have hfacts : s.mem.hist.verdicts.length = 1 ∧ s.judge = [.exited] ∧ s.mem.canceled = false ∧
      s.main = .wait := by
    cases hs
    exact ⟨rfl, rfl, rfl, rfl⟩
  exact ⟨s, hfacts.1, hfacts.2.1, hfacts.2.2.1, hfacts.2.2.2,
    progress_of_reach soloStore soloPlan_planned (.of_replayWith hs)⟩

/-- The driver waits for an exam worker that offers a vote no judge worker will take. -/
theorem not_enabled_of_abandoned {k : SampleCursor} {job : JudgeJob} {jobs : List JudgeJob}
    (hmain : s.main = .wait) (hexam : s.exam = [.offer k (job :: jobs)])
    (hjudge : s.judge = [.exited]) (hlive : s.mem.canceled = false) :
    ¬ Enabled env plan s := by
  rintro ⟨a, s', ha, h⟩
  obtain ⟨-, hstep⟩ := step_cases h
  cases hstep with
  | main hm =>
    rw [hmain] at hm
    cases hm with
    | waited hd => simp [hexam] at hd
  | @exam i c pc st m pc' hi he =>
    rw [hexam] at hi
    obtain rfl : ExamPc.offer k (job :: jobs) = pc := by
      cases i with
      | zero => simpa using hi
      | succ i => simp at hi
    cases he with
    | dropped _ _ _ hcan => simp [hlive] at hcan
  | @judge j c pc st m pc' hj he =>
    rw [hjudge] at hj
    obtain rfl : JudgePc.exited = pc := by
      cases j with
      | zero => simpa using hj
      | succ j => simp at hj
    cases he
  | handCell hoffer hi => simp [hmain] at hoffer
  | @handJob i j k job jobs hi hj =>
    rw [hjudge] at hj
    cases j with
    | zero => simp at hj
    | succ j => simp at hj
  | cancel => simp [Label.internal] at ha
  | expire => simp [Label.internal] at ha

/-- The deadline passes while the only answer call is in flight, and the only judge worker
meets its stop check before the answer is in. -/
def abandonLabels : List Label :=
  [.main, .main, .exam 0 .go, .handCell 0, .main, .exam 0 (.setup (.ready "m1")), .exam 0 .go,
    .exam 0 .go, .expire, .judge 0 .go, .exam 0 (.answer (.answered "a" 1 none none)),
    .exam 0 .go, .exam 0 .go, .exam 0 .go]

/-- **Deadlock.** The judge pool can leave on the budget with the context live; the exam
worker then offers a vote for ever. -/
theorem not_deadlock_free :
    ¬ ∀ (env : Env) (plan : Plan) (st : Store) (s : State), plan.path = .executePrepared →
      (∀ u, plan.planned u ≤ 1) →
        Transition.Reachable (step env plan) (plan.start env st) s →
          s.main = .returned ∨ Enabled env plan s := by
  intro h
  obtain ⟨s, hs⟩ : ∃ s, Transition.replay (step soloEnv soloPlan)
      (soloPlan.start soloEnv soloStore) abandonLabels = some s := ⟨_, rfl⟩
  have hmain : s.main = .wait := by cases hs; rfl
  have hjudge : s.judge = [.exited] := by cases hs; rfl
  have hlive : s.mem.canceled = false := by cases hs; rfl
  obtain ⟨k, job, hexam⟩ : ∃ k job, s.exam = [.offer k [job]] := by
    cases hs
    exact ⟨_, _, rfl⟩
  rcases h soloEnv soloPlan soloStore s rfl soloPlan_planned (.of_replay hs) with h | h
  · rw [hmain] at h
    cases h
  · exact not_enabled_of_abandoned hmain hexam hjudge hlive h

end HubScope
