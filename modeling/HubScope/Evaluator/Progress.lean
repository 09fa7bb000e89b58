import HubScope.Evaluator.Steps

/-!
# Progress of the exam and judge pools

The two pools hand votes over an unbuffered channel: an exam worker that offers a vote
waits for a judge worker to take it or for the context to end. Every other goroutine waits
only for a channel that the driver closes, so where an execution stands still some exam
worker offers a vote.

## Main definitions

* `Enabled` — a goroutine of the execution can step
* `Control` — the invariant that ties the closed channels to the driver's position

## Main results

* `control_of_reach` — every run keeps the invariant
* `enabled_of_control` — an execution that can stand still only at an offer that nobody takes
-/

namespace HubScope

variable {env : Env} {plan : Plan} {st st' : Store} {m m' : Shared} {s s' : State}

/-- The labels of goroutines; the cancel and the deadline belong to the environment. -/
def Label.internal : Label → Bool
  | .cancel | .expire => false
  | _ => true

/-- Some goroutine of the execution can step. -/
def Enabled (env : Env) (plan : Plan) (s : State) : Prop :=
  ∃ a s', a.internal = true ∧ step env plan s a = some s'

/-- An offered vote does not leave the execution stuck. -/
def Served (env : Env) (plan : Plan) (s : State) : Prop :=
  ∀ k job jobs, ExamPc.offer k (job :: jobs) ∈ s.exam → Enabled env plan s

/-- The driver has not closed the cell channel yet. -/
def MainPc.feeding : MainPc → Bool
  | .begin _ | .beginFinish _ _ | .feed _ | .offer _ _ => true
  | _ => false

/-- The driver has closed the judge queue. -/
def MainPc.closedJobs : MainPc → Bool
  | .begin _ | .beginFinish _ _ | .feed _ | .offer _ _ | .wait => false
  | _ => true

/-- Both pools have drained. -/
def MainPc.poolsDone : MainPc → Bool
  | .flush _ | .tail _ | .settleSelect | .settleUpdate _ | .returned => true
  | _ => false

theorem MainPc.closedJobs_of_poolsDone {pc : MainPc} (h : pc.poolsDone = true) :
    pc.closedJobs = true := by
  cases pc <;> simp_all [MainPc.poolsDone, MainPc.closedJobs]

/-! ### The control invariant -/

/-- The channels are closed exactly when the driver is past closing them, exam workers
leave for a reason, cells are fed only to a pool that has workers, and past the pools no
worker is left. -/
structure Control (env : Env) (plan : Plan) (s : State) : Prop where
  cellsClosed : s.mem.cellsClosed = !s.main.feeding
  jobsClosed : s.mem.jobsClosed = s.main.closedJobs
  examLeft : .exited ∈ s.exam →
    s.mem.canceled = true ∨ s.mem.cellsClosed = true ∨ s.mem.panicked = true
  drained : s.mem.jobsClosed = true → ∀ pc ∈ s.exam, pc = .exited
  idle : s.main.poolsDone = true → ∀ pc ∈ s.judge, pc = .exited
  examLength : s.exam.length = min env.evalConcurrency plan.cells.length
  left : (plan.left s.main).length ≤ plan.cells.length

theorem reportCell_canceled {runId : ℕ} {answered : Bool} (h : m.canceled = true) :
    (reportCell plan m runId answered).1.canceled = true := by
  unfold reportCell
  split
  · split <;> simp [h]
  · exact h

theorem reportCell_closed (plan : Plan) (m : Shared) (runId : ℕ) (answered : Bool) :
    (reportCell plan m runId answered).1.cellsClosed = m.cellsClosed ∧
      (reportCell plan m runId answered).1.jobsClosed = m.jobsClosed ∧
      (reportCell plan m runId answered).1.panicked = m.panicked := by
  unfold reportCell
  split
  · split <;> exact ⟨rfl, rfl, rfl⟩
  · exact ⟨rfl, rfl, rfl⟩

theorem caseDone_ne_exited {k : SampleCursor} : caseDone plan k ≠ .exited :=
  caseDone_rule k (fun _ => ExamPc.noConfusion) fun _ _ => ExamPc.noConfusion

theorem sampleDone_ne_exited {k : SampleCursor} : sampleDone env plan k ≠ .exited :=
  sampleDone_rule k (fun _ => ExamPc.noConfusion) fun _ => caseDone_ne_exited

theorem routeSample_ne_exited {k : SampleCursor} {id : ℕ} {text : String} :
    routeSample env k id text ≠ .exited :=
  routeSample_rule k id text (fun _ => ExamPc.noConfusion) fun _ => ExamPc.noConfusion

/-- An exam worker never touches the channels, never revives the context, and leaves only
for a reason. -/
theorem ExamStep.control {pc pc' : ExamPc} (h : ExamStep env plan st m pc st' m' pc') :
    pc ≠ .exited ∧ m'.cellsClosed = m.cellsClosed ∧ m'.jobsClosed = m.jobsClosed ∧
      (m.canceled = true → m'.canceled = true) ∧
      (m.panicked = true → m'.panicked = true) ∧
      (pc' = .exited → m'.canceled = true ∨ m'.cellsClosed = true ∨ m'.panicked = true) := by
  cases h with
  | stopped hc => exact ⟨by simp, rfl, rfl, id, id, fun _ => .inl hc⟩
  | overBudget => exact ⟨by simp, rfl, rfl, fun _ => rfl, id, fun _ => .inl rfl⟩
  | leave hc => exact ⟨by simp, rfl, rfl, id, id, fun _ => hc.imp_right .inl⟩
  | recordCrash | settleCrash => exact ⟨by simp, rfl, rfl, id, fun _ => rfl, fun _ => .inr (.inr rfl)⟩
  | recorded => exact ⟨by simp, rfl, rfl, id, id, fun h => absurd h routeSample_ne_exited⟩
  | settled | wrote | offeredAll | dropped =>
    exact ⟨by simp, rfl, rfl, id, id, fun h => absurd h sampleDone_ne_exited⟩
  | reported | reportedLast =>
    obtain ⟨hcells, hjobs, hpanic⟩ := reportCell_closed plan _ _ _
    exact ⟨by simp, hcells, hjobs, fun h => reportCell_canceled h, fun h => hpanic.trans h,
      by simp⟩
  | _ => exact ⟨by simp, rfl, rfl, id, id, by simp⟩

/-- A judge worker never touches the channels or the context. -/
theorem JudgeStep.control {pc pc' : JudgePc} (h : JudgeStep env plan st m pc st' m' pc') :
    m'.cellsClosed = m.cellsClosed ∧ m'.jobsClosed = m.jobsClosed ∧
      m'.canceled = m.canceled ∧ (m.panicked = true → m'.panicked = true) := by
  cases h with
  | settleCrash => exact ⟨rfl, rfl, rfl, fun _ => rfl⟩
  | _ => exact ⟨rfl, rfl, rfl, id⟩

/-- A judge worker that has left takes no step, and one leaves only through the stop check
or a closed queue. -/
theorem JudgeStep.exit {pc pc' : JudgePc} (h : JudgeStep env plan st m pc st' m' pc') :
    pc ≠ .exited ∧ (pc' = .exited → m'.canceled = true ∨ m'.panicked = true ∨
      m.jobsClosed = true ∨
        pc = .check ∧ m.canceled = false ∧ budgetExceeded plan m = true) := by
  cases h with
  | stopped hc => exact ⟨by simp, fun _ => .inl hc⟩
  | overBudget hc hb => exact ⟨by simp, fun _ => .inr (.inr (.inr ⟨rfl, hc, hb⟩))⟩
  | leave hc => exact ⟨by simp, fun _ => hc.imp_right fun hj => .inr (.inl hj)⟩
  | settleCrash => exact ⟨by simp, fun _ => .inr (.inl rfl)⟩
  | _ => exact ⟨by simp, by simp⟩

/-- The driver only ever closes the channels and cancels. -/
theorem MainStep.control {examDone judgeDone : Bool} {pc pc' : MainPc}
    (h : MainStep plan st m examDone judgeDone pc st' m' pc')
    (hcells : m.cellsClosed = !pc.feeding) (hjobs : m.jobsClosed = pc.closedJobs)
    (hleft : (plan.left pc).length ≤ plan.cells.length) :
    m'.cellsClosed = !pc'.feeding ∧ m'.jobsClosed = pc'.closedJobs ∧
      (plan.left pc').length ≤ plan.cells.length ∧
      (m.canceled = true → m'.canceled = true) ∧ m'.panicked = m.panicked ∧
      (m.cellsClosed = true → m'.cellsClosed = true) ∧
      (m'.jobsClosed = true → m.jobsClosed = true ∨ examDone = true) ∧
      (pc'.poolsDone = true → pc.poolsDone = true ∨ judgeDone = true) := by
  cases h with
  | begun => exact ⟨hcells, hjobs, le_rfl, id, rfl, id, .inl, .inl⟩
  | marked | markedLast | finished =>
    exact ⟨hcells, hjobs, by simp [Plan.left], id, rfl, id, .inl, .inl⟩
  | fedAll | stopped | overBudget | dropped =>
    exact ⟨rfl, hjobs, by simp [Plan.left], by simp [Shared.dropCells], rfl, fun _ => rfl, .inl,
      .inl⟩
  | polled => exact ⟨hcells, hjobs, hleft, id, rfl, id, .inl, .inl⟩
  | waited hd => exact ⟨hcells, rfl, hleft, id, rfl, id, fun _ => .inr hd, .inl⟩
  | drained hd => exact ⟨hcells, hjobs, by simp [Plan.left], id, rfl, id, .inl, fun _ => .inr hd⟩
  | flushed | flushedLive | flushRun | tailDone | tailRun | verdict | unsettled | updated =>
    exact ⟨hcells, hjobs, by simp [Plan.left], id, rfl, id, .inl, fun _ => .inl rfl⟩

theorem control_start (st : Store) : Control env plan (plan.start env st) where
  cellsClosed := rfl
  jobsClosed := rfl
  examLeft h := by simp [Plan.start, Plan.startExec] at h
  drained h := by simp [Plan.start, Plan.startExec, Plan.startMem] at h
  idle h := by simp [Plan.start, Plan.startExec, MainPc.poolsDone] at h
  examLength := by simp [Plan.start, Plan.startExec]
  left := by simp [Plan.start, Plan.startExec, Plan.left]

theorem control_step {a : Label} (hs : Control env plan s) (h : Step env plan s a s') :
    Control env plan s' := by
  obtain ⟨hcells, hjobs, hleave, hdrained, hidle, hlength, hleft⟩ := hs
  cases h with
  | main hm =>
    obtain ⟨hc, hj, hl, hcan, hpan, hcl, hd, hpools⟩ := hm.control hcells hjobs hleft
    refine ⟨hc, hj, fun hex => ?_, fun hclosed => ?_, fun hdone => ?_, hlength, hl⟩
    · rcases hleave hex with h | h | h
      · exact .inl (hcan h)
      · exact .inr (.inl (hcl h))
      · exact .inr (.inr (hpan.trans h))
    · rcases hd hclosed with h | h
      · exact hdrained h
      · simpa using h
    · rcases hpools hdone with h | h
      · exact hidle h
      · simpa using h
  | @exam i c pc st m pc' hi he =>
    -- a worker that exits has seen the cells closed, a canceled context or a crash
    obtain ⟨hne, hc, hj, hcan, hpan, hexit⟩ := he.control
    refine ⟨hc.trans hcells, hj.trans hjobs, fun hex => ?_, fun hclosed => ?_, hidle, by simpa,
      hleft⟩
    · rcases List.mem_or_eq_of_mem_set hex with h | h
      · rcases hleave h with h | h | h
        · exact .inl (hcan h)
        · exact .inr (.inl (hc.trans h))
        · exact .inr (.inr (hpan h))
      · exact hexit h.symm
    · exact absurd (hdrained (hj ▸ hclosed) pc (List.mem_of_getElem? hi)) hne
  | @judge j c pc st m pc' hj he =>
    -- once the pools are done no judge worker is left to take a step
    obtain ⟨hc, hjob, hcan, hpan⟩ := he.control
    refine ⟨hc.trans hcells, hjob.trans hjobs, fun hex => ?_, fun hclosed => ?_, fun hdone => ?_,
      hlength, hleft⟩
    · rcases hleave hex with h | h | h
      · exact .inl (hcan.trans h)
      · exact .inr (.inl (hc.trans h))
      · exact .inr (.inr (hpan h))
    · exact hdrained (hjob ▸ hclosed)
    · exact absurd (hidle hdone pc (List.mem_of_getElem? hj)) he.exit.1
  | handCell hmain hi =>
    rw [hmain] at hcells hjobs hleft
    refine ⟨hcells, hjobs, fun hex => ?_, fun hclosed => ?_, by simp [MainPc.poolsDone], by simpa,
      ?_⟩
    · rcases List.mem_or_eq_of_mem_set hex with h | h
      · exact hleave h
      · exact absurd h (by simp)
    · exact absurd (hdrained hclosed _ (List.mem_of_getElem? hi)) (by simp)
    · simp only [Plan.left, List.length_cons] at hleft ⊢
      omega
  | handJob hi hj =>
    refine ⟨hcells, hjobs, fun hex => ?_, fun hclosed => ?_, fun hdone => ?_, by simpa, hleft⟩
    · rcases List.mem_or_eq_of_mem_set hex with h | h
      · exact hleave h
      · exact absurd h (by simp)
    · exact absurd (hdrained hclosed _ (List.mem_of_getElem? hi)) (by simp)
    · exact absurd (hidle hdone _ (List.mem_of_getElem? hj)) (by simp)
  | cancel => exact ⟨hcells, hjobs, fun _ => .inl rfl, hdrained, hidle, hlength, hleft⟩
  | expire => exact ⟨hcells, hjobs, hleave, hdrained, hidle, hlength, hleft⟩

theorem control_of_reach (h : Reached env plan s) : Control env plan s := by
  refine Reached.invariant control_start ?_ ?_ h
  · exact fun _ _ _ _ ht _ hcases => control_step ht hcases
  · rintro t st ⟨hcells, hjobs, hleave, hdrained, hidle, hlength, hleft⟩
    exact ⟨hcells, hjobs, hleave, hdrained, hidle, hlength, hleft⟩

/-- A pool that is fed has workers. -/
theorem Control.exam_pos {s : State} (hc : Control env plan s) (h : plan.left s.main ≠ []) :
    0 < s.exam.length := by
  have hleft := hc.left
  have hsome := List.length_pos_iff.mpr h
  have hconc := env.evalConcurrency_pos
  rw [hc.examLength]
  omega

/-- Past the pools, no worker steps. -/
theorem Control.no_worker {s : State} (hc : Control env plan s) (h : s.main.poolsDone = true) :
    (∀ pc ∈ s.exam, pc = .exited) ∧ ∀ pc ∈ s.judge, pc = .exited := by
  refine ⟨hc.drained ?_, hc.idle h⟩
  rw [hc.jobsClosed]
  exact MainPc.closedJobs_of_poolsDone h

/-! ### Enabled goroutines -/

/-- An exam worker that neither waits on a channel nor has left can step. -/
theorem examStep_enabled (pc : ExamPc) (hselect : pc ≠ .select) (hexited : pc ≠ .exited)
    (hoffer : ∀ k job jobs, pc ≠ .offer k (job :: jobs)) :
    ∃ c r, examStep env plan st m pc c = some r := by
  cases pc with
  | select => exact absurd rfl hselect
  | exited => exact absurd rfl hexited
  | check =>
    refine ⟨.go, ?_⟩
    simp only [examStep]
    split_ifs <;> exact ⟨_, rfl⟩
  | setup cell => exact ⟨.setup (.ready ""), _, rfl⟩
  | nextCase l =>
    refine ⟨.go, ?_⟩
    simp only [examStep]
    split
    · exact ⟨_, rfl⟩
    · split
      · exact ⟨_, rfl⟩
      · split_ifs <;> exact ⟨_, rfl⟩
      · split_ifs <;> exact ⟨_, rfl⟩
  | call k => exact ⟨.answer (.failed 0 none none), _, rfl⟩
  | record k o id =>
    refine ⟨.go, ?_⟩
    cases o with
    | failed => exact ⟨_, rfl⟩
    | answered =>
      simp only [examStep]
      split <;> exact ⟨_, rfl⟩
  | settle k median =>
    refine ⟨.go, ?_⟩
    simp only [examStep]
    split <;> exact ⟨_, rfl⟩
  | offer k jobs =>
    cases jobs with
    | nil => exact ⟨.go, _, rfl⟩
    | cons job jobs => exact absurd rfl (hoffer k job jobs)
  | _ => exact ⟨.go, _, rfl⟩

/-- A judge worker that neither waits for a job nor has left can step. -/
theorem judgeStep_enabled (pc : JudgePc) (hselect : pc ≠ .select) (hexited : pc ≠ .exited) :
    ∃ c r, judgeStep env plan st m pc c = some r := by
  cases pc with
  | select => exact absurd rfl hselect
  | exited => exact absurd rfl hexited
  | check =>
    refine ⟨.go, ?_⟩
    simp only [judgeStep]
    split_ifs <;> exact ⟨_, rfl⟩
  | call j => exact ⟨.verdict (.failed none none), _, rfl⟩
  | land j score =>
    refine ⟨.go, ?_⟩
    simp only [judgeStep]
    split <;> exact ⟨_, rfl⟩
  | settle j median =>
    refine ⟨.go, ?_⟩
    simp only [judgeStep]
    split <;> exact ⟨_, rfl⟩
  | _ => exact ⟨.go, _, rfl⟩

section

variable (hp : s.mem.panicked = false)
include hp

theorem enabled_of_exam {i : ℕ} {pc : ExamPc} (hi : s.exam[i]? = some pc)
    (h : ∃ c r, examStep env plan s.store s.mem pc c = some r) : Enabled env plan s := by
  obtain ⟨c, r, hr⟩ := h
  refine ⟨.exam i c, { s with store := r.1, mem := r.2.1, exam := s.exam.set i r.2.2 }, rfl, ?_⟩
  simp [step, hp, hi, hr]

theorem enabled_of_judge {j : ℕ} {pc : JudgePc} (hj : s.judge[j]? = some pc)
    (h : ∃ c r, judgeStep env plan s.store s.mem pc c = some r) : Enabled env plan s := by
  obtain ⟨c, r, hr⟩ := h
  refine ⟨.judge j c, { s with store := r.1, mem := r.2.1, judge := s.judge.set j r.2.2 }, rfl,
    ?_⟩
  simp [step, hp, hj, hr]

theorem enabled_of_main {r : Store × Shared × MainPc}
    (h : mainStep plan s.store s.mem (s.exam.all (· = .exited)) (s.judge.all (· = .exited))
      s.main = some r) : Enabled env plan s :=
  ⟨.main, _, rfl, by simp only [step, hp, h]; rfl⟩

/-- A judge worker still in its pool can step once the queue is closed or the context is
over, and takes a vote that is on offer. -/
theorem enabled_of_judge_alive {pc : JudgePc} (hmem : pc ∈ s.judge) (hpc : pc ≠ .exited)
    (hwait : s.mem.canceled = true ∨ s.mem.jobsClosed = true ∨
      ∃ (i : ℕ) (k : SampleCursor) (job : JudgeJob) (jobs : List JudgeJob),
        s.exam[i]? = some (ExamPc.offer k (job :: jobs))) : Enabled env plan s := by
  obtain ⟨j, hj⟩ := List.getElem?_of_mem hmem
  by_cases hselect : pc = .select
  · subst hselect
    rcases hwait with h | h | ⟨i, k, job, jobs, hi⟩
    · exact enabled_of_judge hp hj ⟨.go, _, by simp [judgeStep, h]; rfl⟩
    · exact enabled_of_judge hp hj ⟨.go, _, by simp [judgeStep, h]; rfl⟩
    · exact ⟨.handJob i j, _, rfl, by simp only [step, hp, hi, hj]; rfl⟩
  · exact enabled_of_judge hp hj (judgeStep_enabled pc hselect hpc)

/-- An exam worker in its pool can step unless it waits for a cell of a live pool. -/
theorem enabled_of_exam_alive (hserved : Served env plan s) {i : ℕ} {pc : ExamPc}
    (hi : s.exam[i]? = some pc) (hpc : pc ≠ .exited)
    (hselect : pc = .select → s.mem.canceled = true ∨ s.mem.cellsClosed = true) :
    Enabled env plan s := by
  by_cases hsel : pc = .select
  · subst hsel
    exact enabled_of_exam hp hi ⟨.go, _, by simp only [examStep, hselect rfl]; rfl⟩
  by_cases hoffer : ∃ k job jobs, pc = .offer k (job :: jobs)
  · obtain ⟨k, job, jobs, rfl⟩ := hoffer
    exact hserved k job jobs (List.mem_of_getElem? hi)
  · push Not at hoffer
    exact enabled_of_exam hp hi (examStep_enabled pc hsel hpc hoffer)

/-- **Progress.** Under the control invariant, an execution that is not stuck at an offer and
has not returned has an enabled goroutine. -/
theorem enabled_of_control (hc : Control env plan s) (hserved : Served env plan s)
    (hmain : s.main ≠ .returned) : Enabled env plan s := by
  cases hpc : s.main with
  | returned => exact absurd hpc hmain
  | begin rs =>
    cases rs with
    | nil => exact enabled_of_main hp (by rw [hpc]; rfl)
    | cons r rs => exact enabled_of_main hp (by rw [hpc]; rfl)
  | feed cs =>
    cases cs with
    | nil => exact enabled_of_main hp (by rw [hpc]; rfl)
    | cons c cs =>
      by_cases hcan : s.mem.canceled = true
      · exact enabled_of_main hp (by rw [hpc, mainStep, if_pos hcan])
      · by_cases hbudget : budgetExceeded plan s.mem = true
        · exact enabled_of_main hp (by rw [hpc, mainStep, if_neg hcan, if_pos hbudget])
        · exact enabled_of_main hp (by rw [hpc, mainStep, if_neg hcan, if_neg hbudget])
  | offer c cs =>
    by_cases hcan : s.mem.canceled = true
    · exact enabled_of_main hp (by rw [hpc, mainStep, if_pos hcan])
    · -- a worker of the non-empty pool takes the cell or has other work
      have hlen : 0 < s.exam.length := hc.exam_pos (by rw [hpc]; exact List.cons_ne_nil c cs)
      obtain ⟨pc, hget⟩ : ∃ pc, s.exam[0]? = some pc := ⟨_, List.getElem?_eq_getElem hlen⟩
      by_cases hselect : pc = .select
      · subst hselect
        exact ⟨.handCell 0, _, rfl, by simp only [step, hp, hpc, hget]; rfl⟩
      · have hopen : s.mem.cellsClosed = false := by
          rw [hc.cellsClosed, hpc]
          rfl
        have hexited : pc ≠ .exited := by
          rintro rfl
          rcases hc.examLeft (List.mem_of_getElem? hget) with h | h | h
          · exact hcan h
          · simp [hopen] at h
          · simp [hp] at h
        exact enabled_of_exam_alive hp hserved hget hexited fun h => absurd h hselect
  | wait =>
    by_cases hall : s.exam.all (· = .exited) = true
    · exact enabled_of_main hp (by rw [hpc, mainStep, if_pos hall])
    · simp only [List.all_eq_true, decide_eq_true_eq, not_forall] at hall
      obtain ⟨pc, hmem, hne⟩ := hall
      obtain ⟨i, hi⟩ := List.getElem?_of_mem hmem
      have hclosed : s.mem.cellsClosed = true := by
        rw [hc.cellsClosed, hpc]
        rfl
      exact enabled_of_exam_alive hp hserved hi hne fun _ => .inr hclosed
  | drain =>
    by_cases hall : s.judge.all (· = .exited) = true
    · exact enabled_of_main hp (by rw [hpc, mainStep, if_pos hall])
    · simp only [List.all_eq_true, decide_eq_true_eq, not_forall] at hall
      obtain ⟨pc, hmem, hne⟩ := hall
      have hclosed : s.mem.jobsClosed = true := by
        rw [hc.jobsClosed, hpc]
        rfl
      exact enabled_of_judge_alive hp hmem hne (.inr (.inl hclosed))
  | beginFinish r rs => exact enabled_of_main hp (by rw [hpc]; rfl)
  | flush rs =>
    cases rs with
    | nil => exact enabled_of_main hp (by rw [hpc]; rfl)
    | cons r rs => exact enabled_of_main hp (by rw [hpc]; rfl)
  | tail rs =>
    cases rs with
    | nil => exact enabled_of_main hp (by rw [hpc]; rfl)
    | cons r rs => exact enabled_of_main hp (by rw [hpc]; rfl)
  | settleSelect =>
    cases hv : s.store.settleVerdict plan.campaignId with
    | none => exact enabled_of_main hp (by rw [hpc, mainStep, hv])
    | some status => exact enabled_of_main hp (by rw [hpc, mainStep, hv])
  | settleUpdate status => exact enabled_of_main hp (by rw [hpc]; rfl)

end

/-! ### A small instance -/

/-- One batch run of one model with a single judge case. -/
def soloPlan : Plan where
  path := .executePrepared
  campaignId := 1
  runs := [1]
  cells := [⟨soloRun .running, 1, [judgeCase 1]⟩]

/-- A store with campaign 1 and its run executing. -/
def soloStore : Store where
  models := [⟨1, "m1", .chat, false, true⟩, ⟨2, "m2", .chat, false, true⟩]
  suites := [⟨1, true⟩]
  cases := [judgeCase 1, judgeCase 2]
  campaigns := [⟨1, .running⟩]
  campaignModels := [(1, 1), (1, 2)]
  runs := [soloRun .running]
  results := []
  answers := []
  judgeScores := []
  campaignSeq := 1
  runSeq := 1
  answerSeq := 0

end HubScope
