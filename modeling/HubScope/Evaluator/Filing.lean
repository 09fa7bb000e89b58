import HubScope.Evaluator.Cutoff
import HubScope.Evaluator.Reconstruction
import HubScope.Store.JudgeVotes

/-!
# Answers and votes are filed under their unit

An execution adds answers and judge scores and takes none away. Each answer is of the unit and
the sample it was asked for, each registered vote is on an answer of its sample, and each judge
score it adds is the verdict of a registered vote. A unit that was not taken up, or whose case
is about to be opened, has no new answers.

## Main definitions

* `FiledUnder` — a new answer with the id, of the sample
* `Filed` — what an execution adds to the answers and the judge scores
* `Unanswered` — which units have no new answers

## Main results

* `filed_of_reach`, `unanswered_of_reach` — the invariants over every run
-/

set_option autoImplicit false

namespace HubScope

variable {env : Env} {plan : Plan} {st st' : Store} {m m' : Shared} {s s' : State} {u : UnitKey}
  {k : SampleCursor} {n : ℕ}

/-! ### What a step adds -/

/-- The sample an answer is of. -/
def EvalAnswer.sample (a : EvalAnswer) : SampleKey := ⟨a.unit, a.sampleNo⟩

/-- The sample whose answer an exam worker is about to record or to send out, with the id. -/
def ExamPc.filed? : ExamPc → Option (SampleKey × ℕ)
  | .record k _ id | .enqueue k id => some (k.sample, id)
  | _ => none

@[simp] theorem filed?_sampleDone (k : SampleCursor) : (sampleDone env plan k).filed? = none :=
  sampleDone_rule k (fun _ => rfl) fun _ => caseDone_rule k (fun _ => rfl) fun _ _ => rfl

theorem filed?_routeSample (k : SampleCursor) (id : ℕ) (text : String) :
    (routeSample env k id text).filed? = none ∨
      (routeSample env k id text).filed? = some (k.sample, id) :=
  routeSample_rule k id text (fun _ => .inl rfl) fun _ => .inr rfl

/-- An exam worker stores an answer, registers the votes on one, or does neither. -/
theorem ExamStep.filing {pc pc' : ExamPc} (h : ExamStep env plan st m pc st' m' pc') :
    (∃ k o, pc = .persist k o ∧ st' = (st.createEvalAnswer (answerRow k o)).1 ∧ m' = m ∧
        pc' = .record k o (st.createEvalAnswer (answerRow k o)).2) ∨
      (∃ k id, pc = .enqueue k id ∧ st' = st ∧
        m'.hist.enqueued = m.hist.enqueued ++ jobsOf k id ∧ pc' = .offer k (jobsOf k id)) ∨
      st'.answers = st.answers ∧ st'.answerSeq = st.answerSeq ∧
        m'.hist.enqueued = m.hist.enqueued ∧ (pc'.filed? = none ∨ pc'.filed? = pc.filed?) := by
  cases h with
  | persisted k o => exact .inl ⟨k, o, rfl, rfl, rfl, rfl⟩
  | registered k id => exact .inr (.inl ⟨k, id, rfl, rfl, rfl, rfl⟩)
  | recorded k id text latencyMs i o cost p hp =>
    exact .inr (.inr ⟨rfl, rfl, rfl, filed?_routeSample { k with answered := true } id text⟩)
  | settled | wrote | offeredAll | dropped =>
    exact .inr (.inr ⟨rfl, rfl, rfl, .inl (filed?_sampleDone _)⟩)
  | reported | reportedLast =>
    exact .inr (.inr ⟨rfl, rfl, by rw [reportCell_hist]; rfl, .inl rfl⟩)
  | finished =>
    refine .inr (.inr ⟨?_, ?_, rfl, .inl rfl⟩)
    · split <;> rfl
    · split <;> rfl
  | _ => exact .inr (.inr ⟨rfl, rfl, rfl, .inl rfl⟩)

theorem JudgeStep.filing {pc pc' : JudgePc} (h : JudgeStep env plan st m pc st' m' pc') :
    st'.answers = st.answers ∧ st'.answerSeq = st.answerSeq ∧
      m'.hist.enqueued = m.hist.enqueued := by
  obtain ⟨hseq, henqueued⟩ := h.answers_eq
  refine ⟨?_, hseq, henqueued⟩
  cases h with
  | recorded j o =>
    obtain ⟨rows, heq⟩ := Store.createEvalJudgeScore_eq st (judgeScoreRow j o)
    rw [heq]
  | finished => split <;> rfl
  | _ => rfl

theorem MainStep.filing {examDone judgeDone : Bool} {pc pc' : MainPc}
    (h : MainStep plan st m examDone judgeDone pc st' m' pc') :
    st'.answers = st.answers ∧ st'.answerSeq = st.answerSeq ∧
      m'.hist.enqueued = m.hist.enqueued := by
  obtain ⟨hseq, henqueued⟩ := h.answers_eq
  refine ⟨?_, hseq, henqueued⟩
  cases h with
  | flushRun r rs _ hst =>
    subst hst
    split <;> rfl
  | tailRun => split <;> rfl
  | _ => rfl

/-! ### Filed answers -/

/-- A new answer with the id, of the sample. -/
def FiledUnder (n : ℕ) (st : Store) (κ : SampleKey) (id : ℕ) : Prop :=
  ∃ a ∈ st.answers, n < a.id ∧ a.id = id ∧ a.sample = κ

theorem FiledUnder.of_eq {κ : SampleKey} {id : ℕ} (h : FiledUnder n st κ id)
    (hanswers : st'.answers = st.answers) : FiledUnder n st' κ id := by
  rwa [FiledUnder, hanswers]

theorem FiledUnder.createEvalAnswer {κ : SampleKey} {id : ℕ} (h : FiledUnder n st κ id)
    (a : EvalAnswer) : FiledUnder n (st.createEvalAnswer a).1 κ id := by
  obtain ⟨b, hb, hfiled⟩ := h
  exact ⟨b, List.mem_append_left _ hb, hfiled⟩

/-- What an execution adds: new answers, and verdicts of registered votes on them. -/
structure Filed (st : Store) (s : State) : Prop where
  keys : s.store.AnswerKeys
  answers : ∃ later, s.store.answers = st.answers ++ later ∧ ∀ a ∈ later, st.answerSeq < a.id
  scores : ∀ t ∈ s.store.judgeScores, t ∈ st.judgeScores ∨
    ∃ v ∈ s.mem.hist.verdicts, t = judgeScoreRow v.1 v.2
  kept : st.judgeScores ⊆ s.store.judgeScores
  seq : st.answerSeq ≤ s.store.answerSeq
  exam : ∀ pc ∈ s.exam, ∀ κ id, pc.filed? = some (κ, id) → FiledUnder st.answerSeq s.store κ id
  enqueued : ∀ j ∈ s.mem.hist.enqueued, FiledUnder st.answerSeq s.store j.sample j.answerId

/-- A vote a judge worker has not stored is registered. -/
theorem mem_enqueued_of_unrecorded? (h : Reached env plan s) (hok : s.mem.panicked = false)
    {pc : JudgePc} (hpc : pc ∈ s.judge) {j : JudgeJob} (hj : pc.unrecorded? = some j) :
    j ∈ s.mem.hist.enqueued := by
  have hvotes := voteLedger_of_reach (fun j' => decide (j' = j)) h hok
  obtain ⟨i, hi⟩ := List.getElem?_of_mem hpc
  have hheld := Ledger.judge_le_held (L := voteLedger fun j' => decide (j' = j)) hi
  have hone : (voteLedger fun j' => decide (j' = j)).judge pc = 1 := by
    simp [voteLedger, hj]
  have hpos : 0 < s.mem.hist.enqueued.countP (fun j' => decide (j' = j)) := by omega
  obtain ⟨j', hj', heq⟩ := List.countP_pos_iff.mp hpos
  rwa [← of_decide_eq_true heq]

/-- A stored verdict is of a registered vote. -/
theorem mem_enqueued_of_verdict (h : Reached env plan s) (hok : s.mem.panicked = false)
    {v : JudgeJob × JudgeOutcome} (hv : v ∈ s.mem.hist.verdicts) :
    v.1 ∈ s.mem.hist.enqueued := by
  have hvotes := voteLedger_of_reach (fun j' => decide (j' = v.1)) h hok
  have hone : 0 < s.mem.hist.verdicts.countP (fun w => decide (w.1 = v.1)) :=
    List.countP_pos_iff.mpr ⟨v, hv, decide_eq_true rfl⟩
  have hpos : 0 < s.mem.hist.enqueued.countP (fun j' => decide (j' = v.1)) := by omega
  obtain ⟨j', hj', heq⟩ := List.countP_pos_iff.mp hpos
  rwa [← of_decide_eq_true heq]

namespace Filed

/-- A step that stores no answer and no judge score and registers no votes. -/
theorem quiet (hs : Filed st s) (hanswers : s'.store.answers = s.store.answers)
    (hseq : s'.store.answerSeq = s.store.answerSeq)
    (hscores : s'.store.judgeScores = s.store.judgeScores)
    (hverdicts : s'.mem.hist.verdicts = s.mem.hist.verdicts)
    (henqueued : s'.mem.hist.enqueued = s.mem.hist.enqueued)
    (hexam : ∀ pc ∈ s'.exam, pc.filed? = none ∨ ∃ pc₀ ∈ s.exam, pc.filed? = pc₀.filed?) :
    Filed st s' where
  keys := hs.keys.of_eq hanswers hscores hseq
  answers := by rw [hanswers]; exact hs.answers
  scores := by rw [hscores, hverdicts]; exact hs.scores
  kept := by rw [hscores]; exact hs.kept
  seq := by rw [hseq]; exact hs.seq
  exam pc hpc κ id hfiled := by
    rcases hexam pc hpc with hnone | ⟨pc₀, hpc₀, heq⟩
    · rw [hnone] at hfiled
      cases hfiled
    · exact (hs.exam pc₀ hpc₀ κ id (heq ▸ hfiled)).of_eq hanswers
  enqueued := by
    rw [henqueued]
    exact fun j hj => (hs.enqueued j hj).of_eq hanswers

/-- A step of an exam worker. -/
theorem exam_step (hs : Filed st s) {i : ℕ} {pc pc' : ExamPc} (hi : s.exam[i]? = some pc)
    (he : ExamStep env plan s.store s.mem pc st' m' pc') :
    Filed st { s with store := st', mem := m', exam := s.exam.set i pc' } := by
  have hpc := List.mem_of_getElem? hi
  obtain ⟨hscores, hverdicts⟩ := he.judgeScores_eq
  rcases he.filing with ⟨k, o, rfl, rfl, rfl, rfl⟩ | ⟨k, id, rfl, rfl, henqueued, rfl⟩ |
    ⟨hanswers, hseq, henqueued, hfiled⟩
  · -- the new answer is the one the worker goes on with
    obtain ⟨attempt, heq, -⟩ := Store.createEvalAnswer_spec s.store (answerRow k o)
    obtain ⟨later, hanswers, hlater⟩ := hs.answers
    have hnew : FiledUnder st.answerSeq (s.store.createEvalAnswer (answerRow k o)).1 k.sample
        (s.store.createEvalAnswer (answerRow k o)).2 := by
      rw [heq]
      refine ⟨_, List.mem_append_right _ (List.mem_singleton_self _), ?_, rfl, ?_⟩
      · exact Nat.lt_succ_of_le hs.seq
      · cases o <;> rfl
    refine ⟨hs.keys.createEvalAnswer _, ?_, hs.scores, hs.kept, ?_, ?_, ?_⟩
    · refine ⟨later ++ [{ answerRow k o with id := s.store.answerSeq + 1, attempt := attempt }],
        ?_, fun a ha => ?_⟩
      · rw [heq, ← List.append_assoc, ← hanswers]
      · rcases List.mem_append.mp ha with ha | ha
        · exact hlater a ha
        · rw [List.mem_singleton.mp ha]
          exact Nat.lt_succ_of_le hs.seq
    · exact Nat.le_succ_of_le hs.seq
    · intro pc hpc κ id hfiled
      rcases List.mem_or_eq_of_mem_set hpc with hold | rfl
      · exact (hs.exam pc hold κ id hfiled).createEvalAnswer _
      · cases hfiled
        exact hnew
    · exact fun j hj => (hs.enqueued j hj).createEvalAnswer _
  · refine ⟨hs.keys, hs.answers, ?_, hs.kept, hs.seq, fun pc hpc κ id' hfiled => ?_,
      fun j hj => ?_⟩
    · rw [hverdicts]
      exact hs.scores
    · rcases List.mem_or_eq_of_mem_set hpc with hold | rfl
      · exact hs.exam pc hold κ id' hfiled
      · cases hfiled
    · rw [henqueued] at hj
      rcases List.mem_append.mp hj with hj | hj
      · exact hs.enqueued j hj
      · obtain ⟨hunit, hsample, hid, -⟩ := mem_jobsOf hj
        rw [JudgeJob.sample, hunit, hsample, hid]
        exact hs.exam _ hpc k.sample id rfl
  · apply hs.quiet hanswers hseq hscores hverdicts henqueued
    intro pc₀ hpc₀
    rcases List.mem_or_eq_of_mem_set hpc₀ with hold | rfl
    · exact .inr ⟨pc₀, hold, rfl⟩
    · exact hfiled.imp_right fun heq => ⟨pc, hpc, heq⟩

/-- A step of a judge worker whose vote is registered. -/
theorem judge_step (hs : Filed st s) {i : ℕ} {pc pc' : JudgePc}
    (hi : s.judge[i]? = some pc) (he : JudgeStep env plan s.store s.mem pc st' m' pc')
    (hregistered : ∀ j, pc.unrecorded? = some j → j ∈ s.mem.hist.enqueued) :
    Filed st { s with store := st', mem := m', judge := s.judge.set i pc' } := by
  obtain ⟨hanswers, hseq, henqueued⟩ := he.filing
  rcases he.judgeScores_eq with ⟨hscores, hverdicts⟩ | ⟨j, o, rfl, rfl, hverdicts⟩
  · exact hs.quiet hanswers hseq hscores hverdicts henqueued fun pc₀ hpc₀ =>
      .inr ⟨pc₀, hpc₀, rfl⟩
  · -- a registered vote is on a stored answer, so the new row keeps the keys
    obtain ⟨a, ha, -, hid, -⟩ := hs.enqueued j (hregistered j rfl)
    have hle : (judgeScoreRow j o).answerId ≤ s.store.answerSeq := by
      have hle := hs.keys.seq a ha
      rwa [hid] at hle
    refine ⟨hs.keys.createEvalJudgeScore hle, ?_, fun t ht => ?_, ?_, ?_, fun pc₀ hpc₀ κ id hfiled =>
      (hs.exam pc₀ hpc₀ κ id hfiled).of_eq hanswers, ?_⟩
    · rw [hanswers]
      exact hs.answers
    · rw [hverdicts]
      rcases mem_createEvalJudgeScore ht with hold | rfl
      · refine (hs.scores t hold).imp_right ?_
        rintro ⟨v, hv, heq⟩
        exact ⟨v, List.mem_append_left _ hv, heq⟩
      · exact .inr ⟨(j, o), List.mem_append_right _ (List.mem_singleton_self _), rfl⟩
    · exact fun t ht => Store.subset_createEvalJudgeScore _ _ (hs.kept ht)
    · rw [hseq]
      exact hs.seq
    · rw [henqueued]
      exact fun j' hj' => (hs.enqueued j' hj').of_eq hanswers

end Filed

/-- **Filing.** What an execution adds in every state of a run. -/
theorem filed_of_reach {guard : State → Label → Prop} (hplanned : ∀ v, plan.planned v ≤ 1)
    (hkeys : st.AnswerKeys)
    (h : Transition.Reach (step env plan) guard (plan.start env st) s) : Filed st s := by
  induction h with
  | refl =>
    refine ⟨hkeys, ⟨[], (List.append_nil _).symm, fun a ha => absurd ha List.not_mem_nil⟩,
      fun t ht => .inl ht, List.Subset.refl _, le_rfl, fun pc hpc κ id hfiled => ?_, fun j hj => ?_⟩
    · rw [List.eq_of_mem_replicate hpc] at hfiled
      cases hfiled
    · cases hj
  | @tail t v a hrun _ hstep ih =>
    -- the induction is on the run; what a step adds is said by its filing lemma
    have hreached := reached_of_reach hrun
    have hok := panicked_of_reach hplanned hreached
    have hcases := (step_cases hstep).2
    cases hcases with
    | main hm =>
      obtain ⟨hanswers, hseq, henqueued⟩ := hm.filing
      obtain ⟨hscores, hverdicts⟩ := hm.judgeScores_eq
      exact ih.quiet hanswers hseq hscores hverdicts henqueued fun pc hpc => .inr ⟨pc, hpc, rfl⟩
    | exam hi he => exact ih.exam_step hi he
    | judge hi he =>
      exact ih.judge_step hi he fun j hj =>
        mem_enqueued_of_unrecorded? hreached hok (List.mem_of_getElem? hi) hj
    | handCell hmain hi =>
      refine ih.quiet rfl rfl rfl rfl rfl fun pc hpc => ?_
      rcases List.mem_or_eq_of_mem_set hpc with hold | rfl
      · exact .inr ⟨pc, hold, rfl⟩
      · exact .inl rfl
    | handJob hi hj =>
      refine ih.quiet rfl rfl rfl rfl rfl fun pc hpc => ?_
      rcases List.mem_or_eq_of_mem_set hpc with hold | rfl
      · exact .inr ⟨pc, hold, rfl⟩
      · exact .inl rfl
    | cancel => exact ih.quiet rfl rfl rfl rfl rfl fun pc hpc => .inr ⟨pc, hpc, rfl⟩
    | expire => exact ih.quiet rfl rfl rfl rfl rfl fun pc hpc => .inr ⟨pc, hpc, rfl⟩

/-! ### Units without new answers -/

/-- The case an exam worker is about to open. -/
def ExamPc.opening? : ExamPc → Option SampleCursor
  | .openCase k => some k
  | _ => none

@[simp] theorem opening?_sampleDone (k : SampleCursor) :
    (sampleDone env plan k).opening? = none :=
  sampleDone_rule k (fun _ => rfl) fun _ => caseDone_rule k (fun _ => rfl) fun _ _ => rfl

@[simp] theorem opening?_routeSample (k : SampleCursor) (id : ℕ) (text : String) :
    (routeSample env k id text).opening? = none :=
  routeSample_rule k id text (fun _ => rfl) fun _ => rfl

theorem unit?_of_sampleDone {v : UnitKey} (h : (sampleDone env plan k).unit? = some v) :
    k.unit = v := by
  by_contra hne
  exact unit?_sampleDone_ne hne h

/-- An exam worker that is in a case was in it before, or takes its unit up. -/
theorem ExamStep.opening {pc pc' : ExamPc} (h : ExamStep env plan st m pc st' m' pc') :
    pc'.opening? = none ∧ (∀ v, pc'.unit? = some v → pc.unit? = some v) ∨
      ∃ k, pc' = .openCase k ∧ k.unit ∈ pc.todo ∧ st'.answers = st.answers ∧
        m'.hist.started = m.hist.started ++ [k.unit] := by
  have htodo : ∀ (l : CellCursor) (c : Case) (rest : List Case), l.rest = c :: rest →
      (⟨l.cell.run.id, l.cell.modelDbId, c.id⟩ : UnitKey) ∈ (ExamPc.nextCase l).todo := by
    intro l c rest hrest
    change _ ∈ l.todo
    rw [todo_cons hrest]
    exact List.mem_cons_self
  cases h with
  | begin l c rest hdriver hrest => exact .inr ⟨_, rfl, htodo l c rest hrest, rfl, rfl⟩
  | clearNull l c rest hdriver hrest => exact .inr ⟨_, rfl, htodo l c rest hrest, rfl, rfl⟩
  | clearAny l c rest hdriver hrest => exact .inr ⟨_, rfl, htodo l c rest hrest, rfl, rfl⟩
  | recorded k id text latencyMs i o cost p hp =>
    refine .inl ⟨opening?_routeSample _ _ _, fun v hv => ?_⟩
    rwa [unit?_routeSample] at hv
  | settled k | wrote k | offeredAll k | dropped k =>
    exact .inl ⟨opening?_sampleDone k, fun v hv => congrArg some (unit?_of_sampleDone hv)⟩
  | opened | called | persisted | unanswered | completed | registered | noted =>
    exact .inl ⟨rfl, fun v hv => hv⟩
  | _ => exact .inl ⟨rfl, fun v hv => absurd hv (Option.some_ne_none v).symm⟩

/-- A unit with a new answer or with an exam worker in its case was taken up, and a case is
opened without new answers. -/
structure Unanswered (n : ℕ) (s : State) : Prop where
  inCase : ∀ pc ∈ s.exam, ∀ v, pc.unit? = some v → 0 < s.mem.hist.started.count v
  started : ∀ a ∈ s.store.answers, n < a.id → 0 < s.mem.hist.started.count a.unit
  opening : ∀ k, .openCase k ∈ s.exam → ∀ a ∈ s.store.answers, n < a.id → a.unit ≠ k.unit

/-- A step that stores no answer and opens no case. -/
theorem Unanswered.quiet (hs : Unanswered n s) (hanswers : s'.store.answers = s.store.answers)
    (hmono : ∀ v, s.mem.hist.started.count v ≤ s'.mem.hist.started.count v)
    (hexam : ∀ pc ∈ s'.exam, pc ∈ s.exam ∨ pc.opening? = none ∧
      ∀ v, pc.unit? = some v → ∃ pc₀ ∈ s.exam, pc₀.unit? = some v) : Unanswered n s' where
  inCase pc hpc v hv := by
    rcases hexam pc hpc with hold | ⟨-, hunit⟩
    · exact Nat.lt_of_lt_of_le (hs.inCase pc hold v hv) (hmono v)
    · obtain ⟨pc₀, hpc₀, hv₀⟩ := hunit v hv
      exact Nat.lt_of_lt_of_le (hs.inCase pc₀ hpc₀ v hv₀) (hmono v)
  started a ha hnew := by
    rw [hanswers] at ha
    exact Nat.lt_of_lt_of_le (hs.started a ha hnew) (hmono _)
  opening k hk a ha hnew := by
    rw [hanswers] at ha
    rcases hexam _ hk with hold | ⟨hnone, -⟩
    · exact hs.opening k hold a ha hnew
    · cases hnone

/-- A step of an exam worker. -/
theorem Unanswered.exam_step (hplanned : ∀ v, plan.planned v ≤ 1) (h : Reached env plan s)
    (hs : Unanswered n s) {i : ℕ} {pc pc' : ExamPc}
    (hi : s.exam[i]? = some pc) (he : ExamStep env plan s.store s.mem pc st' m' pc')
    (hmono : ∀ v, s.mem.hist.started.count v ≤ m'.hist.started.count v) :
    Unanswered n { s with store := st', mem := m', exam := s.exam.set i pc' } := by
  have hok := panicked_of_reach hplanned h
  have hpc := List.mem_of_getElem? hi
  rcases he.opening with ⟨hnone, hunit⟩ | ⟨k, rfl, htodo, hanswers, hstarted⟩
  · rcases he.filing with ⟨k, o, rfl, rfl, rfl, rfl⟩ | ⟨k, id, rfl, rfl, -, rfl⟩ |
      ⟨hanswers, -, -, -⟩
    · -- the worker has its case to itself, so no other is about to open it
      have hinCase : 0 < s.mem.hist.started.count k.unit := hs.inCase _ hpc k.unit rfl
      refine ⟨fun pc₀ hpc₀ v hv => ?_, fun a ha hnew => ?_, fun k' hk' a ha hnew => ?_⟩
      · rcases List.mem_or_eq_of_mem_set hpc₀ with hold | rfl
        · exact hs.inCase pc₀ hold v hv
        · exact hs.inCase _ hpc v hv
      · rcases List.mem_append.mp ha with ha | ha
        · exact hs.started a ha hnew
        · rw [List.mem_singleton.mp ha]
          cases o <;> exact hinCase
      · have hmem : .openCase k' ∈ s.exam := by
          rcases List.mem_or_eq_of_mem_set hk' with hold | heq
          · exact hold
          · cases heq
        rcases List.mem_append.mp ha with ha | ha
        · exact hs.opening k' hmem a ha hnew
        · intro hunit'
          have hkunit : k.unit = k'.unit := by
            rw [← hunit', List.mem_singleton.mp ha]
            cases o <;> rfl
          obtain ⟨j, hj⟩ := List.getElem?_of_mem hmem
          obtain rfl := unit?_unique (hplanned _) h hok hi hj rfl (congrArg some hkunit.symm)
          rw [hi] at hj
          cases hj
    · refine hs.quiet ?_ hmono fun pc₀ hpc₀ => ?_
      · rfl
      · refine (List.mem_or_eq_of_mem_set hpc₀).imp_right ?_
        rintro rfl
        exact ⟨hnone, fun v hv => ⟨_, hpc, hunit v hv⟩⟩
    · apply hs.quiet hanswers hmono
      intro pc₀ hpc₀
      refine (List.mem_or_eq_of_mem_set hpc₀).imp_right ?_
      rintro rfl
      exact ⟨hnone, fun v hv => ⟨_, hpc, hunit v hv⟩⟩
  · -- a unit that is taken up was not before, so it has no new answers
    have hfresh : s.mem.hist.started.count k.unit = 0 := by
      by_contra hpos
      exact notMem_todo_of_started (hplanned _) h hok (Nat.pos_of_ne_zero hpos) hpc htodo
    refine ⟨fun pc₀ hpc₀ v hv => ?_, fun a ha hnew => ?_, fun k' hk' a ha hnew => ?_⟩
    · rcases List.mem_or_eq_of_mem_set hpc₀ with hold | rfl
      · exact Nat.lt_of_lt_of_le (hs.inCase pc₀ hold v hv) (hmono v)
      · obtain rfl : k.unit = v := Option.some.inj hv
        rw [hstarted]
        exact List.count_pos_iff.mpr (List.mem_append_right _ (List.mem_singleton_self _))
    · change a ∈ st'.answers at ha
      rw [hanswers] at ha
      exact Nat.lt_of_lt_of_le (hs.started a ha hnew) (hmono _)
    · change a ∈ st'.answers at ha
      rw [hanswers] at ha
      rcases List.mem_or_eq_of_mem_set hk' with hold | heq
      · exact hs.opening k' hold a ha hnew
      · cases heq
        intro hunit
        have hpos := hs.started a ha hnew
        rw [hunit, hfresh] at hpos
        exact absurd hpos (lt_irrefl 0)

theorem unanswered_of_reach {guard : State → Label → Prop} (hplanned : ∀ v, plan.planned v ≤ 1)
    (hkeys : st.AnswerKeys)
    (h : Transition.Reach (step env plan) guard (plan.start env st) s) :
    Unanswered st.answerSeq s := by
  induction h with
  | refl =>
    have hcheck : ∀ pc ∈ (plan.start env st).exam, pc = .check := fun pc hpc =>
      List.eq_of_mem_replicate hpc
    refine ⟨fun pc hpc v hv => ?_, fun a ha hnew => ?_, fun k hk => ?_⟩
    · rw [hcheck pc hpc] at hv
      cases hv
    · exact absurd (hkeys.seq a ha) (Nat.not_le_of_lt hnew)
    · cases hcheck _ hk
  | @tail t v a hrun _ hstep ih =>
    have hreached := reached_of_reach hrun
    have hcases := (step_cases hstep).2
    -- a unit that was started stays so, and no other one has an answer
    have hmono := started_mono hreached hcases
    cases hcases with
    | main hm => exact ih.quiet hm.filing.1 hmono fun pc hpc => .inl hpc
    | exam hi he => exact ih.exam_step hplanned hreached hi he hmono
    | judge hi he => exact ih.quiet he.filing.1 hmono fun pc hpc => .inl hpc
    | handCell hmain hi =>
      refine ih.quiet rfl hmono fun pc hpc => (List.mem_or_eq_of_mem_set hpc).imp_right ?_
      rintro rfl
      exact ⟨rfl, fun v hv => absurd hv (Option.some_ne_none v).symm⟩
    | handJob hi hj =>
      refine ih.quiet rfl hmono fun pc hpc => (List.mem_or_eq_of_mem_set hpc).imp_right ?_
      rintro rfl
      exact ⟨rfl, fun v hv => ⟨_, List.mem_of_getElem? hi, hv⟩⟩
    | cancel => exact ih.quiet rfl hmono fun pc hpc => .inl hpc
    | expire => exact ih.quiet rfl hmono fun pc hpc => .inl hpc

end HubScope
