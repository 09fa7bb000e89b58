import HubScope.Evaluator.Progress
import HubScope.Evaluator.Recovery
import HubScope.Evaluator.Votes

/-!
# Votes under a cancel

Only judge workers store votes, each the outcome of its own call. A call whose context is
canceled fails, and what it stores is a null row like that of a judge that failed: the slot is
decided, and the recovery never asks it again. So a cancel burns the votes that are in flight.
It burns none when no judge worker holds a job whose call has not returned; then a null row
comes from a judge that failed, and a vote that got no row is one the recovery asks.

## Main definitions

* `Uncut` — under a canceled context no judge call is outstanding

## Main results

* `nullScore_of_reach` — where the null rows come from
* `owed_of_reach` — the votes without a row are asked by the recovery
* `votes_of_reach` — both, of every run that cuts no call
-/

set_option autoImplicit false

namespace HubScope

variable {env : Env} {plan : Plan} {st st' : Store} {m m' : Shared} {s : State} {n : ℕ}

/-- The judge worker holds a job whose call has not returned. -/
def JudgePc.awaits : JudgePc → Bool
  | .take _ | .call _ => true
  | _ => false

/-- Under a canceled context no judge worker awaits a call. -/
def Uncut (s : State) (_ : Label) : Prop :=
  s.mem.canceled = true → ∀ pc ∈ s.judge, pc.awaits = false

instance (s : State) (a : Label) : Decidable (Uncut s a) :=
  inferInstanceAs (Decidable (_ → _))

/-- The call was not cut off. -/
def JudgeOutcome.own : JudgeOutcome → Bool
  | .cutOff _ _ => false
  | .scored _ _ _ | .failed _ _ => true

/-! ### Where the rows come from -/

/-- The outcome a judge worker carries is of a call that was not cut off. -/
def JudgePc.carriesOwn : JudgePc → Prop
  | .record _ o => o.own = true
  | _ => True

/-- Every row is an old one or a stored verdict, and no verdict is of a call cut off. -/
structure Sourced (st : Store) (s : State) : Prop where
  rows : ∀ t ∈ s.store.judgeScores, t ∈ st.judgeScores ∨
    ∃ v ∈ s.mem.hist.verdicts, t = judgeScoreRow v.1 v.2
  judge : ∀ pc ∈ s.judge, pc.carriesOwn
  verdicts : ∀ v ∈ s.mem.hist.verdicts, v.2.own = true

theorem mem_createEvalJudgeScore {row t : EvalJudgeScore}
    (h : t ∈ (st.createEvalJudgeScore row).judgeScores) : t ∈ st.judgeScores ∨ t = row := by
  unfold Store.createEvalJudgeScore at h
  split at h
  · exact .inl h
  · exact (List.mem_append.mp h).imp_right List.mem_singleton.mp

/-- A call returns its own outcome unless the context was canceled while it was awaited. -/
theorem JudgeStep.carriesOwn {pc pc' : JudgePc} (h : JudgeStep env plan st m pc st' m' pc')
    (huncut : m.canceled = true → pc.awaits = false) : pc'.carriesOwn := by
  cases h with
  | called j o hcut =>
    cases o with
    | cutOff i o' => exact absurd (huncut (hcut i o' rfl)) (by simp [JudgePc.awaits])
    | _ => rfl
  | _ => trivial

theorem Sourced.quiet {s' : State} (hs : Sourced st s)
    (hrows : s'.store.judgeScores = s.store.judgeScores)
    (hverdicts : s'.mem.hist.verdicts = s.mem.hist.verdicts)
    (hjudge : ∀ pc ∈ s'.judge, pc.carriesOwn) : Sourced st s' where
  rows t ht := by
    rw [hverdicts]
    exact hs.rows t (hrows ▸ ht)
  judge := hjudge
  verdicts := hverdicts ▸ hs.verdicts

theorem sourced_of_reach (h : Transition.Reach (step env plan) Uncut (plan.start env st) s) :
    Sourced st s := by
  induction h with
  | refl =>
    refine ⟨fun t ht => .inl ht, fun pc hpc => ?_, fun v hv => by cases hv⟩
    rw [List.eq_of_mem_replicate hpc]
    trivial
  | @tail t u a _ huncut hstep ih =>
    obtain ⟨-, hcases⟩ := step_cases hstep
    cases hcases with
    | main hm =>
      obtain ⟨hrows, hverdicts⟩ := hm.judgeScores_eq
      exact ih.quiet hrows hverdicts ih.judge
    | exam hi he =>
      obtain ⟨hrows, hverdicts⟩ := he.judgeScores_eq
      exact ih.quiet hrows hverdicts ih.judge
    | @judge i c pc st' m' pc' hj he =>
      have hmem := List.mem_of_getElem? hj
      have hown := he.carriesOwn fun hcan => huncut hcan _ hmem
      have hjudge := Pool.forall_mem_set (i := i) ih.judge hown
      rcases he.judgeScores_eq with ⟨hrows, hverdicts⟩ | ⟨j, o, rfl, rfl, hverdicts⟩
      · exact ih.quiet hrows hverdicts hjudge
      · refine ⟨fun row hrow => ?_, hjudge, fun v hv => ?_⟩
        · simp only [hverdicts]
          rcases mem_createEvalJudgeScore hrow with hold | rfl
          · refine (ih.rows row hold).imp_right ?_
            rintro ⟨v, hv, heq⟩
            exact ⟨v, List.mem_append_left _ hv, heq⟩
          · exact .inr ⟨(j, o), List.mem_append_right _ (List.mem_singleton_self _), rfl⟩
        · simp only [hverdicts] at hv
          rcases List.mem_append.mp hv with hv | hv
          · exact ih.verdicts v hv
          · rw [List.mem_singleton.mp hv]
            exact ih.judge _ hmem
    | handJob hi hj => exact ih.quiet rfl rfl (Pool.forall_mem_set ih.judge trivial)
    | _ => exact ih.quiet rfl rfl ih.judge

/-- **Null rows.** In a run that cuts no call, a null row that is not an old one is of a judge
that failed on its own. -/
theorem nullScore_of_reach
    (h : Transition.Reach (step env plan) Uncut (plan.start env st) s) {t : EvalJudgeScore}
    (ht : t ∈ s.store.judgeScores) (hnull : t.score = none) :
    t ∈ st.judgeScores ∨ ∃ j i o, (j, JudgeOutcome.failed i o) ∈ s.mem.hist.verdicts ∧
      t = judgeScoreRow j (.failed i o) := by
  have hs := sourced_of_reach h
  refine (hs.rows t ht).imp_right ?_
  rintro ⟨⟨j, o⟩, hv, rfl⟩
  have hown := hs.verdicts _ hv
  cases o with
  | scored q i o' => cases hnull
  | failed i o' => exact ⟨j, i, o', hv, rfl⟩
  | cutOff i o' => cases hown

/-! ### Votes without a row -/

/-- The answers an exam worker is about to fan out. -/
def ExamPc.answerIds : ExamPc → List ℕ
  | .record _ _ id | .enqueue _ id => [id]
  | _ => []

@[simp] theorem answerIds_sampleDone (k : SampleCursor) :
    (sampleDone env plan k).answerIds = [] :=
  sampleDone_rule k (fun _ => rfl) fun _ => caseDone_rule k (fun _ => rfl) fun _ _ => rfl

theorem answerIds_routeSample (k : SampleCursor) (id : ℕ) (text : String) :
    (routeSample env k id text).answerIds ⊆ [id] :=
  routeSample_rule k id text (fun _ => List.nil_subset _) fun _ => List.Subset.refl _

/-- The answers whose votes are handed out are new ones. -/
structure FreshAnswers (n : ℕ) (s : State) : Prop where
  seq : n ≤ s.store.answerSeq
  exam : ∀ pc ∈ s.exam, ∀ id ∈ pc.answerIds, n < id
  enqueued : ∀ j ∈ s.mem.hist.enqueued, n < j.answerId

theorem ExamStep.freshAnswers {pc pc' : ExamPc} (h : ExamStep env plan st m pc st' m' pc')
    (hseq : n ≤ st.answerSeq) (hpc : ∀ id ∈ pc.answerIds, n < id)
    (henqueued : ∀ j ∈ m.hist.enqueued, n < j.answerId) :
    n ≤ st'.answerSeq ∧ (∀ id ∈ pc'.answerIds, n < id) ∧
      ∀ j ∈ m'.hist.enqueued, n < j.answerId := by
  have hnil : ∀ id ∈ ([] : List ℕ), n < id := fun id hid => by cases hid
  cases h with
  | persisted k o =>
    refine ⟨Nat.le_succ_of_le hseq, fun id hid => ?_, henqueued⟩
    rw [List.mem_singleton.mp hid]
    exact Nat.lt_succ_of_le hseq
  | recorded k id text latencyMs i o cost p hp =>
    refine ⟨hseq, fun id' hid' => hpc id' ?_, henqueued⟩
    exact answerIds_routeSample _ _ _ hid'
  | registered k id =>
    refine ⟨hseq, hnil, fun j hj => ?_⟩
    rcases List.mem_append.mp hj with hj | hj
    · exact henqueued j hj
    · obtain ⟨-, -, hid, -⟩ := mem_jobsOf hj
      rw [hid]
      exact hpc id (List.mem_singleton_self _)
  | settled | wrote | offeredAll | dropped =>
    exact ⟨hseq, by rw [answerIds_sampleDone]; exact hnil, henqueued⟩
  | reported | reportedLast => exact ⟨hseq, hnil, by rw [reportCell_hist]; exact henqueued⟩
  | finished => exact ⟨by split <;> exact hseq, hnil, henqueued⟩
  | _ => exact ⟨hseq, hnil, henqueued⟩

/-- Judge workers and the driver store no answers and register no votes. -/
theorem JudgeStep.answers_eq {pc pc' : JudgePc} (h : JudgeStep env plan st m pc st' m' pc') :
    st'.answerSeq = st.answerSeq ∧ m'.hist.enqueued = m.hist.enqueued := by
  cases h with
  | recorded j o =>
    refine ⟨?_, rfl⟩
    obtain ⟨rows, heq⟩ := st.createEvalJudgeScore_eq (judgeScoreRow j o)
    rw [heq]
  | finished => exact ⟨by split <;> rfl, rfl⟩
  | _ => exact ⟨rfl, rfl⟩

theorem MainStep.answers_eq {examDone judgeDone : Bool} {pc pc' : MainPc}
    (h : MainStep plan st m examDone judgeDone pc st' m' pc') :
    st'.answerSeq = st.answerSeq ∧ m'.hist.enqueued = m.hist.enqueued := by
  cases h with
  | flushRun r rs _ hst =>
    subst hst
    exact ⟨by split <;> rfl, rfl⟩
  | tailRun => exact ⟨by split <;> rfl, rfl⟩
  | _ => exact ⟨rfl, rfl⟩

theorem freshAnswers_of_reach {guard : State → Label → Prop}
    (h : Transition.Reach (step env plan) guard (plan.start env st) s) :
    FreshAnswers st.answerSeq s := by
  induction h with
  | refl =>
    refine ⟨le_rfl, fun pc hpc id hid => ?_, fun j hj => by cases hj⟩
    rw [List.eq_of_mem_replicate hpc] at hid
    cases hid
  | @tail t u a _ _ hstep ih =>
    obtain ⟨hseq, hexam, henqueued⟩ := ih
    obtain ⟨-, hcases⟩ := step_cases hstep
    cases hcases with
    | main hm =>
      obtain ⟨hseq', henqueued'⟩ := hm.answers_eq
      exact ⟨hseq'.symm ▸ hseq, hexam, henqueued'.symm ▸ henqueued⟩
    | @exam i c pc st' m' pc' hi he =>
      obtain ⟨hseq', hpc', henqueued'⟩ :=
        he.freshAnswers hseq (hexam _ (List.mem_of_getElem? hi)) henqueued
      exact ⟨hseq', Pool.forall_mem_set hexam hpc', henqueued'⟩
    | judge hj he =>
      obtain ⟨hseq', henqueued'⟩ := he.answers_eq
      exact ⟨hseq'.symm ▸ hseq, hexam, henqueued'.symm ▸ henqueued⟩
    | handCell hmain hi =>
      exact ⟨hseq, Pool.forall_mem_set hexam (fun id hid => by cases hid), henqueued⟩
    | handJob hi hj =>
      exact ⟨hseq, Pool.forall_mem_set hexam (fun id hid => by cases hid), henqueued⟩
    | cancel => exact ⟨hseq, hexam, henqueued⟩
    | expire => exact ⟨hseq, hexam, henqueued⟩

/-- The recovery that starts from the store asks the vote's slot, when it comes to be done and
the vote's answer is the latest of its sample. -/
def RecoveryAsks (st : Store) (j : JudgeJob) : Prop :=
  ∀ (judges : List String) (vote : ℕ → ℕ → Option ℚ) (r : RecoverState),
    Interrupted st j.unit judges vote →
    Transition.Reach (recoverStep j.unit) (Casts vote) ⟨st, .start, []⟩ r → r.pc = .done →
    (∃ a ∈ latest st j.unit, a.judgeable = true ∧ a.id = j.answerId) → j.slot < judges.length →
      (j.answerId, j.slot) ∈ r.requests

/-- **Owed votes.** A slot without a row is asked by the recovery. -/
theorem owed_of_reach {j : JudgeJob}
    (hopen : slotDone (st.listJudgeScoresByAnswer j.answerId) j.slot = false) :
    RecoveryAsks st j := by
  intro judges vote r hstart hr hdone hlatest hslot
  have hrecovering := recovering_of_reach hstart hr
  obtain ⟨hrequests, -⟩ := recovered_of_done hrecovering hdone
  obtain ⟨a, ha, hjudgeable, hid⟩ := hlatest
  exact (hrequests _).mpr ⟨a, ha, hjudgeable, hid, hslot, hid ▸ hopen⟩

/-- **Votes under a cancel.** In every run that cuts no judge call, wherever it is canceled,
each null row it stored is of a judge that failed on its own, and each vote it registered was
decided by the call of its slot or stays owed and is asked by the recovery. -/
theorem votes_of_reach (hscores : ∀ t ∈ st.judgeScores, t.answerId ≤ st.answerSeq)
    (h : Transition.Reach (step env plan) Uncut (plan.start env st) s) :
    (∀ t ∈ s.store.judgeScores, t.score = none → t ∈ st.judgeScores ∨
      ∃ j i o, (j, JudgeOutcome.failed i o) ∈ s.mem.hist.verdicts ∧
        t = judgeScoreRow j (.failed i o)) ∧
    ∀ j ∈ s.mem.hist.enqueued,
      (∃ v ∈ s.mem.hist.verdicts, v.1.answerId = j.answerId ∧ v.1.slot = j.slot ∧
        v.2.own = true) ∨
      slotDone (s.store.listJudgeScoresByAnswer j.answerId) j.slot = false ∧
        RecoveryAsks s.store j := by
  refine ⟨fun t ht hnull => nullScore_of_reach h ht hnull, fun j hj => ?_⟩
  have hs := sourced_of_reach h
  by_cases hdone : slotDone (s.store.listJudgeScoresByAnswer j.answerId) j.slot = true
  · obtain ⟨t, ht, hslot⟩ := slotDone_iff.mp hdone
    obtain ⟨hmem, hid⟩ := List.mem_filter.mp ht
    rcases hs.rows t hmem with hold | ⟨v, hv, rfl⟩
    · -- the answer is newer than every old row
      have hfresh := (freshAnswers_of_reach h).enqueued j hj
      have hle := hscores t hold
      rw [of_decide_eq_true hid] at hle
      omega
    · exact .inl ⟨v, hv, of_decide_eq_true hid, hslot, hs.verdicts v hv⟩
  · rw [Bool.not_eq_true] at hdone
    exact .inr ⟨hdone, owed_of_reach hdone⟩

/-- The only answer is in, and its vote is registered. -/
def registeredLabels : List Label :=
  [.main, .main, .exam 0 .go, .handCell 0, .exam 0 (.setup (.ready "m1")), .exam 0 .go,
    .exam 0 .go, .exam 0 (.answer (.answered "a" 1 none none)), .exam 0 .go, .exam 0 .go,
    .exam 0 .go]

/-- The cancel that drops the vote, and the end of the run. -/
def droppedLabels : List Label :=
  [.cancel] ++ List.replicate 5 (.exam 0 .go) ++ [.judge 0 .go] ++ List.replicate 9 .main

/-- A cancel before the vote is offered leaves it owed: the run returns, and the recovery that
finds its unit asks for the vote. -/
theorem votes_of_reach_owed : ∃ s j, Transition.Reach (step soloEnv soloPlan) Uncut
    (soloPlan.start soloEnv soloStore) s ∧ s.main = .returned ∧ s.mem.canceled = true ∧
      j ∈ s.mem.hist.enqueued ∧
      Interrupted s.store j.unit ["judge"] (fun _ _ => some 1) ∧ RecoveryAsks s.store j := by
  obtain ⟨s, hs⟩ : ∃ s, Transition.replayWith (step soloEnv soloPlan) Uncut
      (soloPlan.start soloEnv soloStore) (registeredLabels ++ droppedLabels) = some s := ⟨_, rfl⟩
  have hreach := Transition.Reach.of_replayWith hs
  obtain ⟨hmain, hcanceled, hverdicts, j, hj, hinterrupted⟩ : s.main = .returned ∧
      s.mem.canceled = true ∧ s.mem.hist.verdicts = [] ∧ ∃ j ∈ s.mem.hist.enqueued,
        Interrupted s.store j.unit ["judge"] (fun _ _ => some 1) := by
    cases hs
    exact ⟨rfl, rfl, rfl, _, List.mem_cons_self .., rfl, by decide, by decide,
      fun _ _ _ t ht => by cases ht⟩
  refine ⟨s, j, hreach, hmain, hcanceled, hj, hinterrupted, ?_⟩
  rcases (votes_of_reach (fun t ht => by cases ht) hreach).2 j hj with ⟨v, hv, -⟩ | ⟨-, hasks⟩
  · rw [hverdicts] at hv
    cases hv
  · exact hasks

/-- **Burned votes.** A judge call that is in flight when the context is canceled is stored as a
null row, though no judge failed. -/
theorem not_nullScore_of_reach :
    ¬ ∀ (env : Env) (plan : Plan) (st : Store) (s : State),
      (∀ t ∈ st.judgeScores, t.answerId ≤ st.answerSeq) →
      Transition.Reachable (step env plan) (plan.start env st) s →
      ∀ t ∈ s.store.judgeScores, t.score = none → t ∈ st.judgeScores ∨
        ∃ j i o, (j, JudgeOutcome.failed i o) ∈ s.mem.hist.verdicts ∧
          t = judgeScoreRow j (.failed i o) := by
  intro h
  obtain ⟨s, hs⟩ : ∃ s, Transition.replay (step soloEnv soloPlan)
      (soloPlan.start soloEnv soloStore) (registeredLabels ++
        [.judge 0 .go, .handJob 0 0, .judge 0 .go, .cancel,
          .judge 0 (.verdict (.cutOff none none)), .judge 0 .go]) = some s := ⟨_, rfl⟩
  obtain ⟨j, hverdicts, hrow⟩ : ∃ j, s.mem.hist.verdicts = [(j, .cutOff none none)] ∧
      judgeScoreRow j (.cutOff none none) ∈ s.store.judgeScores := by
    cases hs
    exact ⟨_, rfl, List.mem_singleton_self _⟩
  rcases h soloEnv soloPlan soloStore s (fun t ht => by cases ht) (.of_replay hs) _ hrow rfl with
    hold | ⟨j', i, o, hv, -⟩
  · cases hold
  · rw [hverdicts] at hv
    cases List.mem_singleton.mp hv

end HubScope
