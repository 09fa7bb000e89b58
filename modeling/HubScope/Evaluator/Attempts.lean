import HubScope.Evaluator.Filing

/-!
# What an attempt at a case leaves

An attempt at a case asks each of its samples once and stores the answer. The answered samples
of a judge case are put to the jury: a vote is registered for each of its slots. When the row
of the case is written nothing of this is under way any more, so there is an answer for each
sample, and on the answers that were put to the jury a judge score for each slot.

## Main definitions

* `newAnswers` — the answers of a unit that an execution stored
* `Script.PutToJury` — a sample that is put to the jury
* `Attempting` — the invariant of an attempt that follows a script

## Main results

* `attempting_of_reach` — the invariant over every run
* `concluded_of_written` — nothing of a case whose row is written is under way
* `Attempting.map_sampleNo_perm_of_written` — one answer for each sample
* `Attempting.exists_verdict_of_written` — a verdict for each slot
-/

set_option autoImplicit false

namespace HubScope

variable {env : Env} {plan : Plan} {st st' : Store} {m m' : Shared} {s s' : State} {u : UnitKey}
  {k₁ k : SampleCursor} {σ : Script} {n₀ n slot : ℕ}

/-! ### New answers -/

/-- The answers of the unit that are newer than the first `n₀`. -/
def newAnswers (n₀ : ℕ) (u : UnitKey) (st : Store) : List EvalAnswer :=
  st.answers.filter fun a => a.unit = u ∧ n₀ < a.id

theorem mem_newAnswers {a : EvalAnswer} :
    a ∈ newAnswers n₀ u st ↔ a ∈ st.answers ∧ a.unit = u ∧ n₀ < a.id := by
  rw [newAnswers, List.mem_filter, decide_eq_true_iff]

theorem newAnswers_of_eq (h : st'.answers = st.answers) :
    newAnswers n₀ u st' = newAnswers n₀ u st := by
  rw [newAnswers, h, newAnswers]

/-- A stored answer is a new answer of its unit. -/
theorem newAnswers_createEvalAnswer (hseq : n₀ ≤ st.answerSeq) (k : SampleCursor)
    (o : AnswerOutcome) :
    ∃ a, Persisted k o a ∧ newAnswers n₀ u (st.createEvalAnswer (answerRow k o)).1 =
      newAnswers n₀ u st ++ if k.unit = u then [a] else [] := by
  obtain ⟨attempt, heq, -⟩ := Store.createEvalAnswer_spec st (answerRow k o)
  have hunit : (answerRow k o).unit = k.unit := by cases o <;> rfl
  refine ⟨{ answerRow k o with id := st.answerSeq + 1, attempt := attempt }, rfl, ?_⟩
  rw [heq, newAnswers, newAnswers, List.filter_append]
  congr 1
  by_cases hu : k.unit = u
  · rw [if_pos hu]
    apply List.filter_cons_of_pos
    exact decide_eq_true ⟨hunit.trans hu, Nat.lt_succ_of_le hseq⟩
  · rw [if_neg hu]
    apply List.filter_cons_of_neg
    rw [decide_eq_true_iff]
    exact fun h => hu (hunit.symm.trans h.1)

/-! ### Samples to ask and to send out -/

/-- Whether a worker in a case has the answer of the sample to store. -/
def ExamPc.unasked (env : Env) (κ : SampleKey) : ExamPc → ℕ
  | .openCase k | .call k | .persist k _ => k.owes env κ k.sampleNo
  | .record k _ _ | .settle k _ | .write k _ | .enqueue k _ | .offer k _ | .noteOffered k _ =>
    k.owes env κ (k.sampleNo + 1)
  | _ => 0

/-- Whether a worker in a case has the sample to put to its jury. -/
def ExamPc.unsent (env : Env) (κ : SampleKey) : ExamPc → ℕ
  | .openCase k | .call k | .persist k _ | .record k _ _ | .enqueue k _ =>
    k.owes env κ k.sampleNo
  | .settle k _ | .write k _ | .offer k _ | .noteOffered k _ => k.owes env κ (k.sampleNo + 1)
  | _ => 0

theorem owes_of_unit_ne (hu : k.unit ≠ u) (i : ℕ) : k.owes env ⟨u, n⟩ i = 0 :=
  if_neg fun h => hu h.1

/-- A worker that is not in the unit's case has no sample of it. -/
theorem unasked_of_unit? {pc : ExamPc} (hu : pc.unit? ≠ some u) :
    pc.unasked env ⟨u, n⟩ = 0 ∧ pc.unsent env ⟨u, n⟩ = 0 := by
  cases pc with
  | openCase k | call k | persist k o | record k o id | settle k median | write k agg
  | enqueue k id | offer k jobs | noteOffered k jobs =>
    have hne : k.unit ≠ u := fun heq => hu (congrArg some heq)
    exact ⟨owes_of_unit_ne hne _, owes_of_unit_ne hne _⟩
  | _ => exact ⟨rfl, rfl⟩

theorem unasked_sampleDone (k : SampleCursor) (κ : SampleKey) :
    (sampleDone env plan k).unasked env κ = k.owes env κ (k.sampleNo + 1) ∧
      (sampleDone env plan k).unsent env κ = k.owes env κ (k.sampleNo + 1) := by
  have hnone : ¬ k.sampleNo < env.samples k.case → 0 = k.owes env κ (k.sampleNo + 1) := by
    intro hlast
    apply (if_neg _).symm
    rintro ⟨-, hlow, hhigh⟩
    omega
  refine sampleDone_rule k (fun _ => ⟨rfl, rfl⟩) fun hlast => ?_
  exact caseDone_rule k (fun _ => ⟨hnone hlast, hnone hlast⟩) fun _ _ =>
    ⟨hnone hlast, hnone hlast⟩

/-- A case that is taken up is of another unit. -/
theorem owes_begin {l : CellCursor} {c : Case} {rest : List Case} (hrest : l.rest = c :: rest)
    (htodo : u ∉ (ExamPc.nextCase l).todo) (i : ℕ) :
    SampleCursor.owes env ⟨{ l with rest := rest }, c, 1, false⟩ ⟨u, n⟩ i = 0 := by
  have hne := ne_of_notMem_todo hrest htodo
  exact owes_of_unit_ne (k := ⟨{ l with rest := rest }, c, 1, false⟩) hne i

/-- **Asking.** Of each sample the answer is still to be stored, or it is stored. -/
theorem ExamStep.unasked {pc pc' : ExamPc} (h : ExamStep env plan st m pc st' m' pc')
    (hok : m'.panicked = false) (hseq : n₀ ≤ st.answerSeq) (htodo : u ∉ pc.todo)
    (hle : ∀ k o, pc = .persist k o → k.unit = u → k.sampleNo ≤ env.samples k.case) :
    (newAnswers n₀ u st').countP (·.sampleNo = n) + pc'.unasked env ⟨u, n⟩ =
      (newAnswers n₀ u st).countP (·.sampleNo = n) + pc.unasked env ⟨u, n⟩ := by
  cases h with
  | begin l c rest hdriver hrest =>
    exact congrArg (_ + ·) (owes_begin hrest htodo _)
  | clearNull l c rest hdriver hrest =>
    exact congrArg (_ + ·) (owes_begin hrest htodo _)
  | clearAny l c rest hdriver hrest =>
    exact congrArg (_ + ·) (owes_begin hrest htodo _)
  | persisted k o =>
    -- the one step that stores an answer: the worker goes on to the next sample
    obtain ⟨a, hpersisted, hnew⟩ := newAnswers_createEvalAnswer (u := u) hseq k o
    change _ + k.owes env ⟨u, n⟩ (k.sampleNo + 1) = _ + k.owes env ⟨u, n⟩ k.sampleNo
    rw [hnew, List.countP_append]
    by_cases hu : k.unit = u
    · have hsample : (if k.sample = ⟨u, n⟩ then 1 else 0) =
          [a].countP (·.sampleNo = n) := by
        rw [List.countP_singleton, hpersisted.sampleNo, SampleCursor.sample, hu]
        simp
      rw [if_pos hu, owes_succ env k ⟨u, n⟩ (hle k o rfl hu), hsample]
      omega
    · rw [if_neg hu, owes_of_unit_ne hu, owes_of_unit_ne hu]
      rfl
  | recorded k id text latencyMs i o cost p hp =>
    congr 1
    exact routeSample_rule { k with answered := true } id text (fun _ => rfl) fun _ => rfl
  | settled k | wrote k | offeredAll k | dropped k =>
    exact congrArg (_ + ·) (unasked_sampleDone k _).1
  | finished r =>
    have hanswers : (if plan.path.finishesRuns then st.finishEvalRun r .done else st).answers =
        st.answers := by
      split <;> rfl
    rw [newAnswers_of_eq hanswers]
    rfl
  | recordCrash | settleCrash => simp [Shared.panic] at hok
  | _ => rfl

/-- The sample is answered, and its case is scored by a jury. -/
def Script.PutToJury (k₁ : SampleCursor) (σ : Script) (n : ℕ) : Prop :=
  k₁.case.verdictType = .judge ∧ ∃ text latencyMs i o, σ.answer n = .answered text latencyMs i o

/-- The registered votes of a slot. -/
def slotVotes (u : UnitKey) (n slot : ℕ) (jobs : List JudgeJob) : ℕ :=
  jobs.countP fun j => j.sample = ⟨u, n⟩ ∧ j.slot = slot

/-- A sample that is sent out has one vote for each slot of its jury. -/
theorem slotVotes_jobsOf (k : SampleCursor) (id : ℕ) :
    slotVotes u n slot (jobsOf k id) =
      if k.sample = ⟨u, n⟩ ∧ slot < k.judges.length then 1 else 0 := by
  -- the slots of a jury are numbered, from `i` on
  have hzip : ∀ (judges : List String) (i : ℕ),
      (judges.zipIdx i).countP (fun q => q.2 = slot) =
        if i ≤ slot ∧ slot < i + judges.length then 1 else 0 := by
    intro judges
    induction judges with
    | nil =>
      intro i
      rw [if_neg (by simp only [List.length_nil]; omega)]
      rfl
    | cons judge judges ih =>
      intro i
      rw [List.zipIdx_cons, List.countP_cons, ih, List.length_cons]
      simp only [decide_eq_true_eq]
      split_ifs <;> omega
  rw [slotVotes, jobsOf, List.countP_map]
  by_cases hsample : k.sample = ⟨u, n⟩
  · have hslots := hzip k.judges 0
    simp only [Nat.zero_le, true_and, Nat.zero_add] at hslots
    simp only [hsample, true_and]
    rw [← hslots]
    apply List.countP_congr
    intro q _
    simp only [Function.comp_apply, decide_eq_true_eq]
    exact ⟨And.right, fun hslot => ⟨hsample, hslot⟩⟩
  · rw [if_neg fun h => hsample h.1, List.countP_eq_zero]
    intro q _
    simp only [Function.comp_apply, decide_eq_true_eq]
    exact fun h => hsample h.1

/-- **Sending out.** Of a sample that is put to the jury the votes are still to be registered,
or they are. -/
theorem ExamStep.unsent {pc pc' : ExamPc} (h : ExamStep env plan st m pc st' m' pc')
    (hok : m'.panicked = false) (hjury : σ.PutToJury k₁ n) (hslot : slot < k₁.judges.length)
    (hpc : pc.unit? = some k₁.unit → pc.Scripted env k₁ σ) (htodo : k₁.unit ∉ pc.todo) :
    slotVotes k₁.unit n slot m'.hist.enqueued + pc'.unsent env ⟨k₁.unit, n⟩ =
      slotVotes k₁.unit n slot m.hist.enqueued + pc.unsent env ⟨k₁.unit, n⟩ := by
  obtain ⟨htype, text', latencyMs', i', o', hanswered⟩ := hjury
  cases h with
  | begin l c rest hdriver hrest =>
    exact congrArg (_ + ·) (owes_begin hrest htodo _)
  | clearNull l c rest hdriver hrest =>
    exact congrArg (_ + ·) (owes_begin hrest htodo _)
  | clearAny l c rest hdriver hrest =>
    exact congrArg (_ + ·) (owes_begin hrest htodo _)
  | unanswered k id latencyMs i o =>
    change _ + k.owes env ⟨k₁.unit, n⟩ (k.sampleNo + 1) = _ + k.owes env ⟨k₁.unit, n⟩ k.sampleNo
    by_cases hu : k.unit = k₁.unit
    · -- the sample is answered, so it is not the one that failed
      obtain ⟨hk, hfailed⟩ := hpc (congrArg some hu)
      have hne : k.sample ≠ ⟨k₁.unit, n⟩ := by
        intro heq
        have hno : k.sampleNo = n := congrArg SampleKey.sampleNo heq
        rw [hno, hanswered] at hfailed
        cases hfailed
      rw [owes_succ env k _ (by rw [hk.same]; exact hk.le), if_neg hne]
      rfl
    · rw [owes_of_unit_ne hu, owes_of_unit_ne hu]
  | recorded k id text latencyMs i o cost p hp =>
    congr 1
    by_cases hu : k.unit = k₁.unit
    · obtain ⟨hk, -⟩ := hpc (congrArg some hu)
      have hjudges : k.judges ≠ [] := by
        rw [hk.judges]
        exact List.ne_nil_of_length_pos (Nat.zero_lt_of_lt hslot)
      have hroute : routeSample env { k with answered := true } id text =
          .enqueue { k with answered := true } id := by
        unfold routeSample
        rw [show k.case.verdictType = .judge by rw [hk.same]; exact htype]
        exact if_neg hjudges
      rw [hroute]
      rfl
    · have hunit : (routeSample env { k with answered := true } id text).unit? ≠
          some k₁.unit := by
        rw [unit?_routeSample]
        exact fun heq => hu (Option.some.inj heq)
      exact (unasked_of_unit? hunit).2.trans (owes_of_unit_ne hu _).symm
  | settled k | wrote k | offeredAll k | dropped k =>
    exact congrArg (_ + ·) (unasked_sampleDone k _).2
  | registered k id =>
    change slotVotes k₁.unit n slot (m.hist.enqueued ++ jobsOf k id) +
      k.owes env ⟨k₁.unit, n⟩ (k.sampleNo + 1) = _ + k.owes env ⟨k₁.unit, n⟩ k.sampleNo
    have happend : slotVotes k₁.unit n slot (m.hist.enqueued ++ jobsOf k id) =
        slotVotes k₁.unit n slot m.hist.enqueued + slotVotes k₁.unit n slot (jobsOf k id) :=
      List.countP_append
    rw [happend, slotVotes_jobsOf]
    by_cases hu : k.unit = k₁.unit
    · have hk := hpc (congrArg some hu)
      have hle : k.sampleNo ≤ env.samples k.case := by
        rw [hk.1.same]
        exact hk.1.le
      rw [owes_succ env k _ hle, hk.1.judges]
      simp only [hslot, and_true]
      omega
    · have hne : ¬ (k.sample = ⟨k₁.unit, n⟩ ∧ slot < k.judges.length) :=
        fun h => hu (congrArg SampleKey.unit h.1)
      rw [if_neg hne, owes_of_unit_ne hu, owes_of_unit_ne hu]
  | reported | reportedLast =>
    rw [reportCell_hist]
    rfl
  | recordCrash | settleCrash => simp [Shared.panic] at hok
  | _ => rfl

/-! ### The invariant -/

/-- The invariant of an attempt at the case `k₁` that follows the script: of each sample the
answer is stored or still to be stored, of each sample that is put to the jury the votes are
registered or still to be registered, and what is stored and registered is what the script
says. -/
structure Attempting (env : Env) (k₁ : SampleCursor) (σ : Script) (n₀ : ℕ) (s : State) :
    Prop where
  asked : ∀ n, (newAnswers n₀ k₁.unit s.store).countP (·.sampleNo = n) +
    Pool.total (ExamPc.unasked env ⟨k₁.unit, n⟩) s.exam = (Script.sampleNos env k₁).count n
  sent : ∀ n slot, σ.PutToJury k₁ n → slot < k₁.judges.length →
    slotVotes k₁.unit n slot s.mem.hist.enqueued +
      Pool.total (ExamPc.unsent env ⟨k₁.unit, n⟩) s.exam = (Script.sampleNos env k₁).count n
  answered : ∀ a ∈ newAnswers n₀ k₁.unit s.store, a.judgeable = true ↔
    ∃ text latencyMs i o, σ.answer a.sampleNo = .answered text latencyMs i o
  sending : ∀ k id, .enqueue k id ∈ s.exam → k.unit = k₁.unit → σ.PutToJury k₁ k.sampleNo
  jobs : ∀ j ∈ s.mem.hist.enqueued, j.unit = k₁.unit →
    σ.PutToJury k₁ j.sampleNo ∧ j.slot < k₁.judges.length
  verdicts : ∀ v ∈ s.mem.hist.verdicts, v.1.unit = k₁.unit →
    v.2.score = σ.vote v.1.sampleNo v.1.slot

/-- A worker that sends a sample out has just recorded its answer. -/
theorem ExamStep.sending {pc : ExamPc} {id : ℕ}
    (h : ExamStep env plan st m pc st' m' (.enqueue k id)) :
    ∃ k₀ text latencyMs i o, pc = .record k₀ (.answered text latencyMs i o) id ∧
      k.unit = k₀.unit ∧ k.sampleNo = k₀.sampleNo ∧ k₀.case.verdictType = .judge := by
  generalize hpc' : ExamPc.enqueue k id = pc' at h
  cases h with
  | recorded k₀ id₀ text latencyMs i o cost p hp =>
    -- of the branches of `routeSample` only the one of a judged case sends out
    have hroute := hpc'
    unfold routeSample at hroute
    split at hroute
    · cases hroute
    · rename_i htype
      split_ifs at hroute
      cases hroute
      exact ⟨k₀, text, latencyMs, i, o, rfl, rfl, rfl, htype⟩
  | settled k₀ | wrote k₀ | offeredAll k₀ | dropped k₀ =>
    have hnone := @filed?_sampleDone env plan k₀
    rw [← hpc'] at hnone
    cases hnone
  | _ => cases hpc'

/-- A step that adds nothing of the unit. -/
theorem Attempting.quiet (hs : Attempting env k₁ σ n₀ s)
    (hanswers : s'.store.answers = s.store.answers)
    (henqueued : s'.mem.hist.enqueued = s.mem.hist.enqueued)
    (hverdicts : s'.mem.hist.verdicts = s.mem.hist.verdicts)
    (hexam : ∀ n, Pool.total (ExamPc.unasked env ⟨k₁.unit, n⟩) s'.exam =
      Pool.total (ExamPc.unasked env ⟨k₁.unit, n⟩) s.exam ∧
        Pool.total (ExamPc.unsent env ⟨k₁.unit, n⟩) s'.exam =
          Pool.total (ExamPc.unsent env ⟨k₁.unit, n⟩) s.exam)
    (hsending : ∀ k id, .enqueue k id ∈ s'.exam → .enqueue k id ∈ s.exam) :
    Attempting env k₁ σ n₀ s' where
  asked n := by
    rw [newAnswers_of_eq hanswers, (hexam n).1]
    exact hs.asked n
  sent n slot hjury hslot := by
    rw [henqueued, (hexam n).2]
    exact hs.sent n slot hjury hslot
  answered := by
    rw [newAnswers_of_eq hanswers]
    exact hs.answered
  sending k id hk := hs.sending k id (hsending k id hk)
  jobs := by
    rw [henqueued]
    exact hs.jobs
  verdicts := by
    rw [hverdicts]
    exact hs.verdicts

/-- A step of an exam worker. -/
theorem Attempting.exam_step {rows : List EvalResult} (hs : Attempting env k₁ σ n₀ s)
    (hscripted : Scripted env k₁ σ rows s) (hseq : n₀ ≤ s.store.answerSeq) {i : ℕ}
    {pc pc' : ExamPc} (hi : s.exam[i]? = some pc)
    (he : ExamStep env plan s.store s.mem pc st' m' pc') (hok : m'.panicked = false)
    (htodo : k₁.unit ∉ pc.todo) :
    Attempting env k₁ σ n₀ { s with store := st', mem := m', exam := s.exam.set i pc' } := by
  have hpc := List.mem_of_getElem? hi
  have hat := hscripted.exam pc hpc
  -- whoever is about to send a sample out has just recorded its answer, which the script gives
  have hsending : ∀ k id, .enqueue k id ∈ s.exam.set i pc' → k.unit = k₁.unit →
      σ.PutToJury k₁ k.sampleNo := by
    intro k id hk hu
    rcases List.mem_or_eq_of_mem_set hk with hold | rfl
    · exact hs.sending k id hold hu
    · obtain ⟨k₀, text, latencyMs, i', o, rfl, hunit, hsample, htype⟩ := he.sending
      obtain ⟨hk₀, hanswer⟩ := hat (congrArg some (hunit.symm.trans hu))
      rw [hsample]
      exact ⟨hk₀.same ▸ htype, text, latencyMs, i', o, hanswer.symm⟩
  constructor
  · intro n
    -- what the worker stores it no longer owes; the pool of workers changes by this one
    have hstep := he.unasked (n := n) hok hseq htodo fun k o hk hu => by
      subst hk
      obtain ⟨hk, -⟩ := hat (congrArg some hu)
      rw [hk.same]
      exact hk.le
    have hset := Pool.total_set (f := ExamPc.unasked env ⟨k₁.unit, n⟩) hi pc'
    have hold := hs.asked n
    dsimp only
    omega
  · intro n slot hjury hslot
    have hstep := he.unsent hok hjury hslot hat htodo
    have hset := Pool.total_set (f := ExamPc.unsent env ⟨k₁.unit, n⟩) hi pc'
    have hold := hs.sent n slot hjury hslot
    dsimp only
    omega
  · rcases he.filing with ⟨k, o, rfl, rfl, rfl, rfl⟩ | ⟨k, id, rfl, rfl, -, rfl⟩ |
      ⟨hanswers, -, -, -⟩
    · obtain ⟨a, hpersisted, hnew⟩ := newAnswers_createEvalAnswer (u := k₁.unit) hseq k o
      dsimp only
      rw [hnew]
      intro b hb
      rcases List.mem_append.mp hb with hb | hb
      · exact hs.answered b hb
      · split_ifs at hb with hu
        · obtain rfl := List.mem_singleton.mp hb
          obtain ⟨-, hanswer⟩ := hat (congrArg some hu)
          rw [hpersisted.sampleNo, ← hanswer]
          exact hpersisted.judgeable
        · cases hb
    · exact hs.answered
    · dsimp only
      rw [newAnswers_of_eq hanswers]
      exact hs.answered
  · exact hsending
  · rcases he.filing with ⟨k, o, rfl, rfl, rfl, rfl⟩ | ⟨k, id, rfl, rfl, henqueued, rfl⟩ |
      ⟨-, -, henqueued, -⟩
    · exact hs.jobs
    · intro j hj hu
      dsimp only at hj
      rw [henqueued] at hj
      rcases List.mem_append.mp hj with hj | hj
      · exact hs.jobs j hj hu
      · obtain ⟨hunit, hsample, -, hjudge⟩ := mem_jobsOf hj
        have hu' : k.unit = k₁.unit := hunit.symm.trans hu
        obtain ⟨hk, -⟩ := hat (congrArg some hu')
        rw [hsample, ← hk.judges]
        exact ⟨hs.sending k id hpc hu', (List.getElem?_eq_some_iff.mp hjudge).1⟩
    · dsimp only
      rw [henqueued]
      exact hs.jobs
  · obtain ⟨-, hverdicts⟩ := he.judgeScores_eq
    dsimp only
    rw [hverdicts]
    exact hs.verdicts

/-- A step of a judge worker. -/
theorem Attempting.judge_step {rows : List EvalResult} (hs : Attempting env k₁ σ n₀ s)
    (hscripted : Scripted env k₁ σ rows s) {i : ℕ} {pc pc' : JudgePc}
    (hi : s.judge[i]? = some pc) (he : JudgeStep env plan s.store s.mem pc st' m' pc') :
    Attempting env k₁ σ n₀ { s with store := st', mem := m', judge := s.judge.set i pc' } := by
  obtain ⟨hanswers, -, henqueued⟩ := he.filing
  refine ⟨?_, ?_, ?_, hs.sending, ?_, fun v hv hu => ?_⟩
  · dsimp only
    rw [newAnswers_of_eq hanswers]
    exact hs.asked
  · dsimp only
    rw [henqueued]
    exact hs.sent
  · dsimp only
    rw [newAnswers_of_eq hanswers]
    exact hs.answered
  · dsimp only
    rw [henqueued]
    exact hs.jobs
  · rcases he.judgeScores_eq with ⟨-, hverdicts⟩ | ⟨j, o, rfl, -, hverdicts⟩
    · dsimp only at hv
      rw [hverdicts] at hv
      exact hs.verdicts v hv hu
    · dsimp only at hv
      rw [hverdicts] at hv
      -- a new verdict is the script's, as every judge worker carries the script's outcome
      rcases List.mem_append.mp hv with hv | hv
      · exact hs.verdicts v hv hu
      · obtain rfl := List.mem_singleton.mp hv
        exact hscripted.judge _ (List.mem_of_getElem? hi) (congrArg some hu)

/-! ### Runs -/

/-- Where one worker is in the case the others have nothing of it. -/
theorem total_of_openCase {f : ExamPc → ℕ} (hplanned : plan.planned k₁.unit ≤ 1)
    (h : Reached env plan s) (hok : s.mem.panicked = false) (hk : .openCase k₁ ∈ s.exam)
    (hcheck : f .check = 0) (hzero : ∀ pc : ExamPc, pc.unit? ≠ some k₁.unit → f pc = 0) :
    Pool.total f s.exam = f (.openCase k₁) := by
  obtain ⟨i, hi⟩ := List.getElem?_of_mem hk
  have hset := Pool.total_set (f := f) hi .check
  have hrest : Pool.total f (s.exam.set i .check) = 0 := by
    apply Pool.total_eq_zero_iff.mpr
    intro pc hpc
    obtain ⟨j, hj⟩ := List.getElem?_of_mem hpc
    by_cases hij : i = j
    · subst hij
      rw [List.getElem?_set_self (List.getElem?_eq_some_iff.mp hi).1] at hj
      rw [← Option.some.inj hj]
      exact hcheck
    · rw [List.getElem?_set_ne hij] at hj
      exact hzero pc fun hu => hij (unit?_unique hplanned h hok hi hj rfl hu)
  omega

/-- A case is opened without new answers. -/
theorem newAnswers_of_openCase {guard : State → Label → Prop}
    (hplanned : ∀ v, plan.planned v ≤ 1) (hkeys : st.AnswerKeys)
    (h : Transition.Reach (step env plan) guard (plan.start env st) s)
    (hk : .openCase k₁ ∈ s.exam) : newAnswers st.answerSeq k₁.unit s.store = [] := by
  apply List.filter_eq_nil_iff.mpr
  intro a ha hnew
  obtain ⟨hunit, hid⟩ := of_decide_eq_true hnew
  exact (unanswered_of_reach hplanned hkeys h).opening k₁ hk a ha hid hunit

/-- An attempt starts with nothing stored and nothing registered. -/
theorem attempting_start {guard : State → Label → Prop}
    (hplanned : ∀ v, plan.planned v ≤ 1) (hkeys : st.AnswerKeys)
    (h : Transition.Reach (step env plan) guard (plan.start env st) s)
    (hk : .openCase k₁ ∈ s.exam) : Attempting env k₁ σ st.answerSeq s := by
  have hreached := reached_of_reach h
  have hok := panicked_of_reach hplanned hreached
  have hnew := newAnswers_of_openCase hplanned hkeys h hk
  have hfirst : k₁.sampleNo = 1 := ready_of_reach hreached _ hk
  have howes : ∀ n, k₁.owes env ⟨k₁.unit, n⟩ k₁.sampleNo = (Script.sampleNos env k₁).count n := by
    intro n
    rw [Script.count_sampleNos, SampleCursor.owes, hfirst]
    simp only [true_and]
  -- a registered vote of the unit would be on a new answer of it
  have hnone : ∀ j ∈ s.mem.hist.enqueued, j.unit ≠ k₁.unit := by
    intro j hj hu
    obtain ⟨a, ha, hid, -, hsample⟩ := (filed_of_reach hplanned hkeys h).enqueued j hj
    have hunit : a.unit = k₁.unit := (congrArg SampleKey.unit hsample).trans hu
    have hmem := mem_newAnswers.mpr ⟨ha, hunit, hid⟩
    rw [hnew] at hmem
    cases hmem
  constructor
  · intro n
    rw [hnew, total_of_openCase (hplanned _) hreached hok hk rfl
      fun pc hu => (unasked_of_unit? hu).1]
    exact (Nat.zero_add _).trans (howes n)
  · intro n slot _ _
    have hvotes : slotVotes k₁.unit n slot s.mem.hist.enqueued = 0 := by
      apply List.countP_eq_zero.mpr
      intro j hj hslot
      exact hnone j hj (congrArg SampleKey.unit (of_decide_eq_true hslot).1)
    rw [hvotes, total_of_openCase (hplanned _) hreached hok hk rfl
      fun pc hu => (unasked_of_unit? hu).2]
    exact (Nat.zero_add _).trans (howes n)
  · rw [hnew]
    exact fun a ha => absurd ha List.not_mem_nil
  · intro k id hpc hu
    obtain ⟨i, hi⟩ := List.getElem?_of_mem hk
    obtain ⟨j, hj⟩ := List.getElem?_of_mem hpc
    obtain rfl := unit?_unique (hplanned _) hreached hok hi hj rfl (congrArg some hu)
    rw [hi] at hj
    cases hj
  · exact fun j hj hu => absurd hu (hnone j hj)
  · exact fun v hv hu => absurd hu (hnone _ (mem_enqueued_of_verdict hreached hok hv))

/-- **Attempts.** From the state in which a case is opened, a run that follows the script and
drops no vote of the case keeps the invariant. -/
theorem attempting_of_reach {guard : State → Label → Prop} {s₁ : State}
    (hplanned : ∀ v, plan.planned v ≤ 1) (hkeys : st.AnswerKeys)
    (h : Transition.Reach (step env plan) guard (plan.start env st) s₁)
    (hk : .openCase k₁ ∈ s₁.exam)
    (hrun : Transition.Reach (step env plan) (Follows k₁.unit σ) s₁ s)
    (hkept : ∀ j ∈ s.mem.hist.dropped, j.unit ≠ k₁.unit) :
    Attempting env k₁ σ st.answerSeq s := by
  have hreached₁ := reached_of_reach h
  have hstarted := (started_of_openCase (hplanned _) hreached₁
    (panicked_of_reach hplanned hreached₁) hk rfl).1
  induction hrun with
  | refl => exact attempting_start hplanned hkeys h hk
  | @tail t v a hrun _ hstep ih =>
    have hcases := (step_cases hstep).2
    -- votes are dropped for good, so none of the case was dropped before
    have hbefore : ∀ j ∈ t.mem.hist.dropped, j.unit ≠ k₁.unit :=
      fun j hj => hkept j (hcases.dropped_subset hj)
    have hs := ih hbefore
    have hscripted := scripted_of_reach hplanned hreached₁ hk hrun hbefore
    have hreached := hreached₁.trans hrun
    have hwhole : Transition.Reachable (step env plan) (plan.start env st) t :=
      h.reachable.trans hrun.reachable
    have hseq := (filed_of_reach hplanned hkeys hwhole).seq
    have hok := panicked_of_reach hplanned hreached
    have hok' := panicked_of_reach hplanned (hreached.step hstep)
    -- the case was taken up, so that no worker still has it to do
    have htaken := started_of_run hreached₁ hrun (Nat.lt_of_lt_of_eq Nat.one_pos hstarted.symm)
    cases hcases with
    | main hm =>
      obtain ⟨hanswers, -, henqueued⟩ := hm.filing
      exact hs.quiet hanswers henqueued hm.judgeScores_eq.2 (fun n => ⟨rfl, rfl⟩)
        fun k id hk => hk
    | exam hi he =>
      exact hs.exam_step hscripted hseq hi he hok'
        (notMem_todo_of_started (hplanned _) hreached hok htaken (List.mem_of_getElem? hi))
    | judge hi he => exact hs.judge_step hscripted hi he
    | @handCell i c cs hmain hi =>
      refine hs.quiet rfl rfl rfl (fun n => ?_) fun k id hk => ?_
      · have hasked := Pool.total_set (f := ExamPc.unasked env ⟨k₁.unit, n⟩) hi (.setup c)
        have hsent := Pool.total_set (f := ExamPc.unsent env ⟨k₁.unit, n⟩) hi (.setup c)
        exact ⟨hasked, hsent⟩
      · rcases List.mem_or_eq_of_mem_set hk with hold | heq
        · exact hold
        · cases heq
    | @handJob i j k job jobs hi hj =>
      refine hs.quiet rfl rfl rfl (fun n => ?_) fun k id hk => ?_
      · have hasked := Pool.total_set (f := ExamPc.unasked env ⟨k₁.unit, n⟩) hi
          (.noteOffered k jobs)
        have hsent := Pool.total_set (f := ExamPc.unsent env ⟨k₁.unit, n⟩) hi
          (.noteOffered k jobs)
        exact ⟨Nat.add_right_cancel hasked, Nat.add_right_cancel hsent⟩
      · rcases List.mem_or_eq_of_mem_set hk with hold | heq
        · exact hold
        · cases heq
    | cancel => exact hs.quiet rfl rfl rfl (fun n => ⟨rfl, rfl⟩) fun k id hk => hk
    | expire => exact hs.quiet rfl rfl rfl (fun n => ⟨rfl, rfl⟩) fun k id hk => hk

/-! ### Written cases -/

/-- A unit whose row is written: no exam worker has a sample of it, and each of its votes is
cast. -/
structure Concluded (env : Env) (u : UnitKey) (s : State) : Prop where
  once : s.mem.hist.written.count u = 1
  exam : ∀ pc ∈ s.exam, pc.samplesLeft env u = 0 ∧ pc.holds u = 0
  dropped : ∀ j ∈ s.mem.hist.dropped, j.unit ≠ u
  cast : ∀ j ∈ s.mem.hist.enqueued, j.unit = u → ∃ v ∈ s.mem.hist.verdicts, v.1 = j

/-- A vote that is not stored has not landed. -/
theorem voteLedger_held_le_land {j : JudgeJob} {κ : SampleKey} (hsample : j.sample = κ)
    (e : Exec) : (voteLedger fun j' => decide (j' = j)).held e ≤ (landLedger κ).held e := by
  have hmono : ∀ jobs : List JudgeJob,
      jobs.countP (fun j' => decide (j' = j)) ≤ jobs.countP (·.sample = κ) := fun jobs =>
    List.countP_mono_left fun j' _ hj' =>
      decide_eq_true ((congrArg JudgeJob.sample (of_decide_eq_true hj')).trans hsample)
  have hexam : Pool.total (voteLedger fun j' => decide (j' = j)).exam e.exam ≤
      Pool.total (landLedger κ).exam e.exam := Pool.total_mono fun pc _ => hmono pc.jobs
  have hjudge : Pool.total (voteLedger fun j' => decide (j' = j)).judge e.judge ≤
      Pool.total (landLedger κ).judge e.judge := by
    apply Pool.total_mono
    intro pc _
    apply (hmono pc.unrecorded?.toList).trans
    cases pc <;> simp [landLedger, JudgePc.unrecorded?, JudgePc.vote?]
  have hmain : (voteLedger fun j' => decide (j' = j)).main e.main = (landLedger κ).main e.main :=
    rfl
  unfold Ledger.held
  omega

theorem concluded_of_written (hplanned : plan.planned u ≤ 1) (h : Reached env plan s)
    (hok : s.mem.panicked = false) (hwritten : u ∈ s.mem.hist.written) : Concluded env u s := by
  have hflight := flight_of_reach hplanned h hok
  have htodo := todo_of_reach u h hok
  have hpos : 0 < s.mem.hist.written.count u := List.count_pos_iff.mpr hwritten
  have hnone : inFlight s.toExec u = 0 := by omega
  have hclosed : u ∉ s.mem.pipe.aggs := by
    intro hmem
    have hopened : s.mem.pipe.opened u = 1 := if_pos hmem
    rw [inFlight] at hnone
    omega
  have howed := samplesOwed_of_reach hplanned h hok
  rw [samplesOwed_of_notMem hclosed] at howed
  -- no jury of the unit is open, so none of its votes is on its way
  have hvotes : ∀ n, s.mem.hist.dropped.countP (·.sample = ⟨u, n⟩) = 0 ∧
      (landLedger ⟨u, n⟩).held s.toExec = 0 := by
    intro n
    have hopen : ⟨u, n⟩ ∉ s.mem.pipe.votes := by
      intro hmem
      have hpos : 0 < s.mem.pipe.openSamples u :=
        List.countP_pos_iff.mpr ⟨_, AList.mem_keys.mp hmem, decide_eq_true rfl⟩
      omega
    have hland := votesOwed_of_reach (κ := ⟨u, n⟩) hplanned h hok
    rw [votesOwed_of_notMem hopen] at hland
    omega
  refine ⟨by omega, fun pc hpc => ⟨?_, ?_⟩, fun j hj hu => ?_, fun j hj hu => ?_⟩
  · obtain ⟨i, hi⟩ := List.getElem?_of_mem hpc
    have hheld := Ledger.exam_le_held (L := sampleLedger env u) hi
    change pc.samplesLeft env u ≤ _ at hheld
    omega
  · obtain ⟨i, hi⟩ := List.getElem?_of_mem hpc
    have hheld := Ledger.exam_le_held (L := flightLedger u) hi
    change pc.holds u ≤ _ at hheld
    rw [inFlight] at hnone
    omega
  · have hsample : j.sample = ⟨u, j.sampleNo⟩ := by rw [JudgeJob.sample, hu]
    exact List.countP_eq_zero.mp (hvotes j.sampleNo).1 j hj (decide_eq_true hsample)
  · have hsample : j.sample = ⟨u, j.sampleNo⟩ := by rw [JudgeJob.sample, hu]
    have hledger := voteLedger_of_reach (fun j' => decide (j' = j)) h hok
    have henqueued : 0 < s.mem.hist.enqueued.countP (fun j' => decide (j' = j)) :=
      List.countP_pos_iff.mpr ⟨j, hj, decide_eq_true rfl⟩
    have hdropped : s.mem.hist.dropped.countP (fun j' => decide (j' = j)) = 0 := by
      have hle : s.mem.hist.dropped.countP (fun j' => decide (j' = j)) ≤
          s.mem.hist.dropped.countP (·.sample = ⟨u, j.sampleNo⟩) :=
        List.countP_mono_left fun j' _ hj' =>
          decide_eq_true ((congrArg JudgeJob.sample (of_decide_eq_true hj')).trans hsample)
      exact Nat.le_zero.mp (hle.trans_eq (hvotes j.sampleNo).1)
    have hheld : (voteLedger fun j' => decide (j' = j)).held s.toExec = 0 :=
      Nat.le_zero.mp ((voteLedger_held_le_land hsample s.toExec).trans_eq (hvotes j.sampleNo).2)
    have hverdicts : 0 < s.mem.hist.verdicts.countP (fun v => decide (v.1 = j)) := by omega
    obtain ⟨v, hv, heq⟩ := List.countP_pos_iff.mp hverdicts
    exact ⟨v, hv, of_decide_eq_true heq⟩

/-- A worker without samples of the unit that does not open its case has nothing to ask or to
send out. -/
theorem unasked_eq_zero {pc : ExamPc} (hleft : pc.samplesLeft env u = 0) (hholds : pc.holds u = 0)
    (n : ℕ) : pc.unasked env ⟨u, n⟩ = 0 ∧ pc.unsent env ⟨u, n⟩ = 0 := by
  cases pc with
  | openCase k =>
    have hne : k.unit ≠ u := fun hu => absurd (hholds.symm.trans (if_pos hu)) (by decide)
    exact ⟨owes_of_unit_ne hne _, owes_of_unit_ne hne _⟩
  | call k | persist k o | record k o id | settle k median | enqueue k id =>
    have hne : k.unit ≠ u := fun hu => absurd (hleft.symm.trans (if_pos hu)) (Nat.succ_ne_zero _).symm
    exact ⟨owes_of_unit_ne hne _, owes_of_unit_ne hne _⟩
  | write k agg | offer k jobs | noteOffered k jobs =>
    have hlast : k.owes env ⟨u, n⟩ (k.sampleNo + 1) = 0 := by
      apply if_neg
      rintro ⟨hu, hlow, hhigh⟩
      have hzero : env.samples k.case - k.sampleNo = 0 := (if_pos hu).symm.trans hleft
      dsimp only at hlow hhigh
      omega
    exact ⟨hlast, hlast⟩
  | _ => exact ⟨rfl, rfl⟩

namespace Attempting

/-- **One answer for each sample.** -/
theorem map_sampleNo_perm_of_written (hs : Attempting env k₁ σ n₀ s)
    (hdone : Concluded env k₁.unit s) :
    ((newAnswers n₀ k₁.unit s.store).map (·.sampleNo)).Perm (Script.sampleNos env k₁) := by
  apply List.perm_iff_count.mpr
  intro n
  have hzero : Pool.total (ExamPc.unasked env ⟨k₁.unit, n⟩) s.exam = 0 :=
    Pool.total_eq_zero_iff.mpr fun pc hpc =>
      (unasked_eq_zero (hdone.exam pc hpc).1 (hdone.exam pc hpc).2 n).1
  have hasked := hs.asked n
  rw [hzero, Nat.add_zero] at hasked
  rw [← hasked, List.count, List.countP_map]
  apply List.countP_congr
  intro a _
  simp

/-- **A verdict for each slot.** -/
theorem exists_verdict_of_written (hs : Attempting env k₁ σ n₀ s)
    (hdone : Concluded env k₁.unit s) (hjury : σ.PutToJury k₁ n) (hn : n ∈ Script.sampleNos env k₁)
    (hslot : slot < k₁.judges.length) :
    ∃ v ∈ s.mem.hist.verdicts, v.1.sample = ⟨k₁.unit, n⟩ ∧ v.1.slot = slot := by
  have hzero : Pool.total (ExamPc.unsent env ⟨k₁.unit, n⟩) s.exam = 0 :=
    Pool.total_eq_zero_iff.mpr fun pc hpc =>
      (unasked_eq_zero (hdone.exam pc hpc).1 (hdone.exam pc hpc).2 n).2
  have hsent := hs.sent n slot hjury hslot
  have hpos : 0 < (Script.sampleNos env k₁).count n := List.count_pos_iff.mpr hn
  rw [hzero, Nat.add_zero] at hsent
  rw [← hsent] at hpos
  obtain ⟨j, hj, hmatch⟩ := List.countP_pos_iff.mp hpos
  obtain ⟨hsample, hslot⟩ := of_decide_eq_true hmatch
  obtain ⟨v, hv, rfl⟩ := hdone.cast j hj (congrArg SampleKey.unit hsample)
  exact ⟨v, hv, hsample, hslot⟩

end Attempting

end HubScope
