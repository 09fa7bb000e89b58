import HubScope.Evaluator.Confluence
import HubScope.Evaluator.SettleOrder

/-!
# What the recovery of a case reconstructs

The recovery judges the latest attempt of every sample number that has an answer; the
execution that was interrupted judges the samples it asked. The two agree on the samples the
case has now. Answers with a larger sample number are left by an earlier attempt, made when the
case had more samples: the interrupted attempt supersedes them, and the recovery judges them
all the same. And the recovery adds the medians in sample order, the execution in the order in
which its samples settle, which a sum that is rounded depends on.

## Main definitions

* `Persisted`, `Stored` — what an interrupted attempt leaves once its samples are stored
* `current`, `stale` — the latest attempts of the samples of the case, and of older ones
* `Unscored` — an answer all of whose slots are decided without a score
* `recoverWrites` — the aggregates a recovery writes rows from
* `RecoverState.work` — the steps a recovery has left at most

## Main results

* `latest_eq` — the latest attempts are the current ones and then the stale ones
* `exists_done` — a recovery that is not interrupted again gets done
* `recovered_iff_of_stored` — when the recovery of a case is exact
-/

set_option autoImplicit false

namespace HubScope

variable {env : Env} {plan : Plan} {st st₀ : Store} {u : UnitKey} {k : SampleCursor} {σ : Script}
  {n : ℕ}

/-! ### Latest attempts in sample order -/

theorem exists_latestOf {answers : List EvalAnswer} (h : answers ≠ []) :
    ∃ a ∈ answers, latestOf answers = some a := by
  cases answers with
  | nil => exact absurd rfl h
  | cons b rest => exact ⟨_, latestOf_mem rfl, rfl⟩

/-- There is one latest attempt for each sample number, in first-seen order. -/
theorem map_sampleNo_latestAttempts (answers : List EvalAnswer) :
    (latestAttempts answers).map (·.sampleNo) =
      Grouping.firstSeen (answers.map (·.sampleNo)) := by
  have hfirst : ∀ i ∈ Grouping.firstSeen (answers.map (·.sampleNo)),
      (latestOf (answers.filter fun a => a.sampleNo = i)).map (·.sampleNo) = some i := by
    intro i hi
    obtain ⟨a, ha, hai⟩ := List.mem_map.mp (Grouping.mem_firstSeen.mp hi)
    have hne : answers.filter (fun a => a.sampleNo = i) ≠ [] :=
      List.ne_nil_of_mem (List.mem_filter.mpr ⟨ha, decide_eq_true hai⟩)
    obtain ⟨b, hb, hlatest⟩ := exists_latestOf hne
    rw [hlatest, Option.map_some, of_decide_eq_true (List.mem_filter.mp hb).2]
  rw [latestAttempts, Grouping.group, List.filterMap_map, List.map_filterMap]
  exact (List.filterMap_congr hfirst).trans List.filterMap_some

/-- The answers of a unit are listed in sample order. -/
theorem pairwise_unitAnswers (st : Store) (u : UnitKey) :
    (unitAnswers st u).Pairwise (fun a b => a.sampleNo ≤ b.sampleNo) := by
  let r : EvalAnswer → EvalAnswer → Prop := fun a b =>
    a.modelDbId < b.modelDbId ∨ a.modelDbId = b.modelDbId ∧
      (a.caseId < b.caseId ∨ a.caseId = b.caseId ∧ a.sampleNo ≤ b.sampleNo)
  have htotal : Std.Total r := ⟨fun a b => by simp only [r]; omega⟩
  have htrans : IsTrans EvalAnswer r := ⟨fun a b c => by simp only [r]; omega⟩
  have hsorted : ((st.answers.filter (·.runId = u.runId)).insertionSort r).Pairwise r :=
    List.pairwise_insertionSort r _
  have hunit : (unitAnswers st u).Pairwise fun a b => a.unit = u ∧ b.unit = u ∧ r a b := by
    have hfilter := hsorted.filter fun a => decide (a.unit = u)
    refine (List.Pairwise.and_mem.mp hfilter).imp ?_
    rintro a b ⟨ha, hb, hr⟩
    exact ⟨of_decide_eq_true (List.mem_filter.mp ha).2, of_decide_eq_true (List.mem_filter.mp hb).2,
      hr⟩
  refine hunit.imp ?_
  rintro a b ⟨ha, hb, hr⟩
  have hmodel : a.modelDbId = b.modelDbId := congrArg UnitKey.modelDbId (ha.trans hb.symm)
  have hcase : a.caseId = b.caseId := congrArg UnitKey.caseId (ha.trans hb.symm)
  simp only [r] at hr
  omega

/-- The latest attempts are in strict sample order. -/
theorem pairwise_latest (st : Store) (u : UnitKey) :
    (latest st u).Pairwise fun a b => a.sampleNo < b.sampleNo := by
  have hsorted : ((unitAnswers st u).map (·.sampleNo)).Pairwise (· ≤ ·) :=
    List.pairwise_map.mpr (pairwise_unitAnswers st u)
  have hfirst := hsorted.sublist (Grouping.firstSeen_sublist _)
  have hstrict : (Grouping.firstSeen ((unitAnswers st u).map (·.sampleNo))).Pairwise (· < ·) :=
    (hfirst.and (Grouping.firstSeen_nodup _)).imp fun h => lt_of_le_of_ne h.1 h.2
  rw [← map_sampleNo_latestAttempts] at hstrict
  exact List.pairwise_map.mp hstrict

/-! ### Current and stale answers -/

/-- The latest attempts of the first `n` samples. -/
def current (st₀ : Store) (u : UnitKey) (n : ℕ) : List EvalAnswer :=
  (latest st₀ u).filter (·.sampleNo ≤ n)

/-- The latest attempts of the samples past the first `n`. -/
def stale (st₀ : Store) (u : UnitKey) (n : ℕ) : List EvalAnswer :=
  (latest st₀ u).filter (n < ·.sampleNo)

/-- A list in sample order starts with the first `n` samples. -/
theorem filter_append_filter_of_pairwise {answers : List EvalAnswer}
    (h : answers.Pairwise fun a b => a.sampleNo < b.sampleNo) (n : ℕ) :
    answers = answers.filter (·.sampleNo ≤ n) ++ answers.filter (n < ·.sampleNo) := by
  induction answers with
  | nil => rfl
  | cons a answers ih =>
    obtain ⟨hlt, hrest⟩ := List.pairwise_cons.mp h
    by_cases ha : a.sampleNo ≤ n
    · rw [List.filter_cons_of_pos (by simpa using ha), List.filter_cons_of_neg (by simpa using ha),
        List.cons_append, ← ih hrest]
    · -- nothing after `a` is among the first samples either
      have hnone : answers.filter (·.sampleNo ≤ n) = [] := by
        rw [List.filter_eq_nil_iff]
        intro b hb
        have hab := hlt b hb
        simp only [decide_eq_true_eq]
        omega
      have hall : answers.filter (n < ·.sampleNo) = answers := by
        rw [List.filter_eq_self]
        intro b hb
        have hab := hlt b hb
        simp only [decide_eq_true_eq]
        omega
      rw [List.filter_cons_of_neg (by simpa using ha), hnone,
        List.filter_cons_of_pos (by simpa using ha), hall, List.nil_append]

/-- **Current and stale.** The latest attempts are the current ones and then the stale ones. -/
theorem latest_eq (st₀ : Store) (u : UnitKey) (n : ℕ) :
    latest st₀ u = current st₀ u n ++ stale st₀ u n :=
  filter_append_filter_of_pairwise (pairwise_latest st₀ u) n

/-! ### An interrupted attempt -/

/-- The row is what the sample's answer is persisted as. -/
def Persisted (k : SampleCursor) (o : AnswerOutcome) (a : EvalAnswer) : Prop :=
  a = { answerRow k o with id := a.id, attempt := a.attempt }

/-- An attempt at a judge case with a jury snapshot was interrupted after it stored an answer
of every sample and some of the votes, and before it stored the row. Other answers of the unit
are from earlier attempts. -/
structure Stored (env : Env) (k : SampleCursor) (σ : Script) (st₀ : Store) : Prop where
  verdictType : k.case.verdictType = .judge
  snapshot : (judgesFor k.inCell.cell.run k.inCell.cell.modelDbId).2 = true
  jury : recoverJudges st₀ k.unit = some k.judges
  answerIds : (st₀.answers.map (·.id)).Nodup
  positive : ∀ a ∈ unitAnswers st₀ k.unit, 1 ≤ a.sampleNo
  samples : ∀ i ∈ Script.sampleNos env k, ∃ a ∈ latest st₀ k.unit,
    Persisted { k with sampleNo := i } (σ.answer i) a
  votes : ∀ a ∈ latest st₀ k.unit, a.judgeable = true → ∀ t ∈ st₀.judgeScores,
    t.answerId = a.id → t.score = σ.vote a.sampleNo t.slot

theorem Persisted.sampleNo {o : AnswerOutcome} {a : EvalAnswer} (h : Persisted k o a) :
    a.sampleNo = k.sampleNo := by
  rw [h]
  cases o <;> rfl

/-- Only an answered sample has something to judge. -/
theorem Persisted.judgeable {o : AnswerOutcome} {a : EvalAnswer} (h : Persisted k o a) :
    a.judgeable = true ↔ ∃ text latencyMs i j, o = .answered text latencyMs i j := by
  rw [h]
  cases o with
  | answered text latencyMs i j => simp [EvalAnswer.judgeable, answerRow]
  | failed => simp [EvalAnswer.judgeable, answerRow]

namespace Stored

theorem interrupted (h : Stored env k σ st₀) : Interrupted st₀ k.unit k.judges σ.vote where
  jury := h.jury
  answered := by
    -- a case has a first sample
    have hfirst : 1 ∈ Script.sampleNos env k :=
      List.mem_range'_1.mpr ⟨le_rfl, by have := env.samples_pos k.case; omega⟩
    obtain ⟨a, ha, -⟩ := h.samples 1 hfirst
    exact List.ne_nil_of_mem (mem_of_mem_latestAttempts ha)
  answerIds := h.answerIds
  votes := h.votes

/-- The current answers are those of the samples of the case, in order. -/
theorem map_sampleNo_current (h : Stored env k σ st₀) :
    (current st₀ k.unit (env.samples k.case)).map (·.sampleNo) = Script.sampleNos env k := by
  have hsorted : ((current st₀ k.unit (env.samples k.case)).map (·.sampleNo)).Pairwise (· < ·) :=
    List.pairwise_map.mpr ((pairwise_latest st₀ k.unit).filter _)
  have hrange : (Script.sampleNos env k).Pairwise (· < ·) := List.pairwise_lt_range'
  refine List.Perm.eq_of_pairwise' (r := (· < ·)) hsorted hrange ?_
  refine (List.perm_ext_iff_of_nodup (hsorted.imp fun hlt => hlt.ne)
    (hrange.imp fun hlt => hlt.ne)).mpr fun i => ?_
  simp only [List.mem_map, current, List.mem_filter, decide_eq_true_eq]
  constructor
  · rintro ⟨a, ⟨ha, hle⟩, rfl⟩
    have hpos := h.positive a (mem_of_mem_latestAttempts ha)
    exact List.mem_range'_1.mpr ⟨hpos, by omega⟩
  · intro hi
    obtain ⟨a, ha, hpersisted⟩ := h.samples i hi
    have hno : a.sampleNo = i := hpersisted.sampleNo
    have hle := (List.mem_range'_1.mp hi).2
    exact ⟨a, ⟨ha, by omega⟩, hno⟩

/-- A current answer is what its sample's outcome was persisted as. -/
theorem persisted (h : Stored env k σ st₀) {a : EvalAnswer}
    (ha : a ∈ current st₀ k.unit (env.samples k.case)) :
    Persisted { k with sampleNo := a.sampleNo } (σ.answer a.sampleNo) a := by
  have hi : a.sampleNo ∈ Script.sampleNos env k := by
    rw [← h.map_sampleNo_current]
    exact List.mem_map_of_mem ha
  obtain ⟨b, hb, hpersisted⟩ := h.samples _ hi
  have hno : b.sampleNo = a.sampleNo := hpersisted.sampleNo
  -- there is one latest attempt of a sample
  have hinj : b = a := by
    have hnodup : ((latest st₀ k.unit).map (·.sampleNo)).Nodup :=
      List.Pairwise.imp (fun hlt => ne_of_lt hlt) (List.pairwise_map.mpr (pairwise_latest st₀ k.unit))
    exact List.inj_on_of_nodup_map hnodup hb (List.mem_of_mem_filter ha) hno
  rwa [hinj] at hpersisted

/-- The recovery finds the medians of the execution for the samples of the case. -/
theorem map_medianOf_current (h : Stored env k σ st₀) :
    (current st₀ k.unit (env.samples k.case)).map (medianOf k.judges σ.vote) =
      (Script.sampleNos env k).map (σ.median env k) := by
  rw [← h.map_sampleNo_current, List.map_map]
  refine List.map_congr_left fun a ha => ?_
  have hjudgeable := (h.persisted ha).judgeable
  unfold medianOf Function.comp Script.median
  cases ho : σ.answer a.sampleNo with
  | answered text latencyMs i j =>
    rw [ho] at hjudgeable
    rw [if_pos (hjudgeable.mpr ⟨text, latencyMs, i, j, rfl⟩), h.verdictType]
  | failed latencyMs i j =>
    rw [ho] at hjudgeable
    refine if_neg fun hjudge => ?_
    obtain ⟨_, _, _, _, heq⟩ := hjudgeable.mp hjudge
    cases heq

end Stored

/-! ### Stale samples without a score -/

/-- Every slot of the answer has a row, and none has a score. -/
def Unscored (judges : List String) (st : Store) (a : EvalAnswer) : Prop :=
  a.judgeable = true → ∀ slot < judges.length,
    ∃ t ∈ st.listJudgeScoresByAnswer a.id, t.slot = slot ∧ t.score = none

instance (judges : List String) (st : Store) (a : EvalAnswer) : Decidable (Unscored judges st a) :=
  inferInstanceAs (Decidable (a.judgeable = true → ∀ slot < judges.length,
    ∃ t ∈ st.listJudgeScoresByAnswer a.id, t.slot = slot ∧ t.score = none))

/-- A stale answer is judged without a median just when its slots are decided without a
score. -/
theorem Stored.unscored_iff (h : Stored env k σ st₀) {a : EvalAnswer}
    (ha : a ∈ latest st₀ k.unit) : Unscored k.judges st₀ a ↔
      Judged k.judges st₀ a ∧ medianOf k.judges σ.vote a = none := by
  -- a slot's row has the vote the slot casts
  have hrow : a.judgeable = true → ∀ t ∈ st₀.listJudgeScoresByAnswer a.id,
      t.score = σ.vote a.sampleNo t.slot := by
    intro hjudgeable t ht
    obtain ⟨hmem, hid⟩ := List.mem_filter.mp ht
    exact h.votes a ha hjudgeable t hmem (of_decide_eq_true hid)
  constructor
  · intro hunscored
    refine ⟨fun hjudgeable slot hslot => ?_, ?_⟩
    · obtain ⟨t, ht, hts, -⟩ := hunscored hjudgeable slot hslot
      exact slotDone_iff.mpr ⟨t, ht, hts⟩
    · unfold medianOf
      split_ifs with hjudgeable
      · rw [medianOfVotes_eq_none_iff]
        intro v hv
        obtain ⟨slot, hslot, rfl⟩ := List.mem_map.mp hv
        obtain ⟨t, ht, hts, hscore⟩ := hunscored hjudgeable slot (List.mem_range.mp hslot)
        rw [← hts, ← hrow hjudgeable t ht, hscore]
      · rfl
  · rintro ⟨hjudged, hmedian⟩ hjudgeable slot hslot
    obtain ⟨t, ht, hts⟩ := slotDone_iff.mp (hjudged hjudgeable slot hslot)
    rw [medianOf, if_pos hjudgeable, medianOfVotes_eq_none_iff] at hmedian
    refine ⟨t, ht, hts, ?_⟩
    rw [hrow hjudgeable t ht, hts]
    exact hmedian _ (List.mem_map_of_mem (List.mem_range.mpr hslot))

/-! ### Requests -/

/-- A slot of an answered sample of the case that has no row. -/
def Owed (env : Env) (k : SampleCursor) (st₀ : Store) (q : ℕ × ℕ) : Prop :=
  ∃ a ∈ current st₀ k.unit (env.samples k.case), a.judgeable = true ∧ a.id = q.1 ∧
    q.2 < k.judges.length ∧ slotDone (st₀.listJudgeScoresByAnswer a.id) q.2 = false

/-- The recovery owes no more than the case does just when no stale answer has a slot open. -/
theorem missing_iff_owed_iff (h : Stored env k σ st₀) :
    (∀ q, Missing st₀ k.unit k.judges q ↔ Owed env k st₀ q) ↔
      ∀ a ∈ stale st₀ k.unit (env.samples k.case), Judged k.judges st₀ a := by
  constructor
  · intro hiff a ha hjudgeable slot hslot
    obtain ⟨hlatest, hlt⟩ := List.mem_filter.mp ha
    by_contra hopen
    rw [Bool.not_eq_true] at hopen
    obtain ⟨b, hb, -, hid, -⟩ :=
      (hiff (a.id, slot)).mp ⟨a, hlatest, hjudgeable, rfl, hslot, hopen⟩
    obtain ⟨hlatest', hle⟩ := List.mem_filter.mp hb
    -- the ids are distinct, so the stale answer would be a current one
    have heq : b = a := List.inj_on_of_nodup_map h.answerIds
      (mem_of_mem_unitAnswers (mem_of_mem_latestAttempts hlatest'))
      (mem_of_mem_unitAnswers (mem_of_mem_latestAttempts hlatest)) hid
    subst heq
    rw [decide_eq_true_eq] at hlt hle
    omega
  · intro hjudged q
    constructor
    · rintro ⟨a, ha, hjudgeable, hid, hslot, hopen⟩
      refine ⟨a, List.mem_filter.mpr ⟨ha, decide_eq_true ?_⟩, hjudgeable, hid, hslot, hopen⟩
      by_contra hlt
      have hstale : a ∈ stale st₀ k.unit (env.samples k.case) :=
        List.mem_filter.mpr ⟨ha, decide_eq_true (by omega)⟩
      rw [hjudged a hstale hjudgeable q.2 hslot] at hopen
      cases hopen
    · rintro ⟨a, ha, hrest⟩
      exact ⟨a, List.mem_of_mem_filter ha, hrest⟩

/-! ### A recovery that is left alone -/

/-- The steps of a recovery that is not interrupted. -/
def Unhindered (vote : ℕ → ℕ → Option ℚ) (s : RecoverState) (label : RecoverLabel) : Prop :=
  Casts vote s label ∧ label ≠ .crash

/-- A bound of the steps a recovery has left when it is not interrupted. -/
def RecoverState.work (u : UnitKey) (s : RecoverState) : ℕ :=
  match s.pc with
  | .start => (latest s.store u).length *
      (2 * ((recoverJudges s.store u).getD []).length + 4) + 3
  | .samples judges todo _ => todo.length * (2 * judges.length + 4) + 2
  | .slots k => k.rest.length * (2 * k.judges.length + 4) + (2 * k.todo.length + 3)
  | .persist k _ _ _ => k.rest.length * (2 * k.judges.length + 4) + (2 * k.todo.length + 4)
  | .write _ => 1
  | .done => 0

section

variable {store : Store} {requests : List (ℕ × ℕ)} {vote : ℕ → ℕ → Option ℚ}

/-- A pass is at its end at once, or has the samples before it. -/
theorem recover_progress_start :
    ∃ s', recoverStep u ⟨store, .start, requests⟩ (.setup true) = some s' ∧
      s'.work u < RecoverState.work u ⟨store, .start, requests⟩ := by
  cases hjury : recoverJudges store u with
  | none =>
    refine ⟨⟨store, .done, requests⟩, ?_, Nat.succ_pos _⟩
    simp [recoverStep, hjury]
  | some judges =>
    cases hanswers : unitAnswers store u with
    | nil =>
      refine ⟨⟨store, .done, requests⟩, ?_, Nat.succ_pos _⟩
      simp [recoverStep, hanswers]
    | cons a answers =>
      refine ⟨⟨store, .samples judges (latestAttempts (a :: answers))
        (recoverAggregate a.modelId (latestAttempts (a :: answers)).length), requests⟩, ?_, ?_⟩
      · simp [recoverStep, hjury, hanswers]
      · simp [RecoverState.work, latest, hjury, hanswers]

/-- The next sample settles, or has its slots looked at. -/
theorem recover_progress_samples {judges : List String} {todo : List EvalAnswer}
    {agg : CaseAggregate} :
    ∃ s', recoverStep u ⟨store, .samples judges todo agg, requests⟩ .go = some s' ∧
      s'.work u < RecoverState.work u ⟨store, .samples judges todo agg, requests⟩ := by
  cases todo with
  | nil =>
    refine ⟨_, rfl, ?_⟩
    dsimp only [RecoverState.work]
    split_ifs <;> simp
  | cons a rest =>
    by_cases hsettled : ¬ a.judgeable ∨ judges = []
    · refine ⟨⟨store, .samples judges rest ((agg.recoverAnswer a).settle none), requests⟩, ?_, ?_⟩
      · simp only [recoverStep]
        rw [if_pos hsettled]
      · simp only [RecoverState.work, List.length_cons, Nat.add_mul]
        omega
    · refine ⟨⟨store, .slots ⟨judges, a, store.listJudgeScoresByAnswer a.id, judges.zipIdx,
        storedVotes judges (store.listJudgeScoresByAnswer a.id), rest, agg.recoverAnswer a⟩,
        requests⟩, ?_, ?_⟩
      · simp only [recoverStep]
        rw [if_neg hsettled]
      · simp only [RecoverState.work, List.length_cons, List.length_zipIdx, Nat.add_mul]
        omega

/-- The next slot is passed over or asked. -/
theorem recover_progress_slots {k : RecoverCursor} :
    ∃ label s', Unhindered vote ⟨store, .slots k, requests⟩ label ∧
      recoverStep u ⟨store, .slots k, requests⟩ label = some s' ∧
      s'.work u < RecoverState.work u ⟨store, .slots k, requests⟩ := by
  cases htodo : k.todo with
  | nil =>
    refine ⟨.go, ⟨store, .samples k.judges k.rest (k.agg.settle (medianOfVotes k.votes)),
      requests⟩, ⟨trivial, by simp⟩, ?_, ?_⟩
    · simp only [recoverStep, htodo]
    · simp only [RecoverState.work]
      omega
  | cons slot todo =>
    obtain ⟨judgeModel, slot⟩ := slot
    by_cases hknown : k.known slot = true
    · refine ⟨.go, ⟨store, .slots { k with todo := todo }, requests⟩, ⟨trivial, by simp⟩, ?_, ?_⟩
      · simp only [recoverStep, htodo]
        rw [if_pos hknown]
      · simp only [RecoverState.work, htodo, List.length_cons]
        omega
    · refine ⟨.verdict (vote k.answer.sampleNo slot), ⟨store,
        .persist { k with todo := todo } judgeModel slot (vote k.answer.sampleNo slot),
        requests ++ [(k.answer.id, slot)]⟩, ⟨?_, by simp⟩, ?_, ?_⟩
      · -- the vote is the one the slot casts
        intro k' judgeModel' slot' todo' hk' htodo'
        obtain rfl : k = k' := RecoverPc.slots.inj hk'
        rw [htodo] at htodo'
        rw [(Prod.mk.inj (List.cons.inj htodo').1).2]
      · simp only [recoverStep, htodo]
        rw [if_neg hknown]
      · simp only [RecoverState.work, htodo, List.length_cons]
        omega

/-- A recovery that is not done can go on, and has less left afterwards. -/
theorem recover_progress {s : RecoverState} (h : s.pc ≠ .done) :
    ∃ label s', Unhindered vote s label ∧ recoverStep u s label = some s' ∧ s'.work u < s.work u := by
  obtain ⟨store, pc, requests⟩ := s
  cases pc with
  | start =>
    obtain ⟨s', hstep, hlt⟩ := recover_progress_start
    exact ⟨.setup true, s', ⟨rfl, by simp⟩, hstep, hlt⟩
  | samples judges todo agg =>
    obtain ⟨s', hstep, hlt⟩ := recover_progress_samples
    exact ⟨.go, s', ⟨trivial, by simp⟩, hstep, hlt⟩
  | slots k => exact recover_progress_slots
  | persist k judgeModel slot score =>
    refine ⟨.go, _, ⟨trivial, by simp⟩, rfl, ?_⟩
    simp only [RecoverState.work]
    omega
  | write agg => exact ⟨.go, _, ⟨trivial, by simp⟩, rfl, Nat.one_pos⟩
  | done => exact absurd rfl h

end

/-- **Termination.** A recovery that is not interrupted again gets done. -/
theorem exists_done (vote : ℕ → ℕ → Option ℚ) (s : RecoverState) :
    ∃ s', Transition.Reach (recoverStep u) (Unhindered vote) s s' ∧ s'.pc = .done := by
  induction hwork : s.work u using Nat.strong_induction_on generalizing s with
  | _ n ih =>
    subst hwork
    by_cases hdone : s.pc = .done
    · exact ⟨s, .refl, hdone⟩
    · obtain ⟨label, t, hunhindered, hstep, hlt⟩ := recover_progress hdone
      obtain ⟨s', hrest, hend⟩ := ih _ hlt t rfl
      exact ⟨s', (Transition.Reach.single hunhindered hstep).trans hrest, hend⟩

/-! ### The recovery of a case -/

namespace Stored

/-- The medians the recovery adds: those of the samples of the case, in sample order, and then
those of the stale ones. -/
theorem reduceOption_latest (h : Stored env k σ st₀) :
    ((latest st₀ k.unit).map (medianOf k.judges σ.vote)).reduceOption =
      ((Script.sampleNos env k).map (σ.median env k)).reduceOption ++
        ((stale st₀ k.unit (env.samples k.case)).map (medianOf k.judges σ.vote)).reduceOption := by
  rw [latest_eq st₀ k.unit (env.samples k.case), List.map_append, h.map_medianOf_current,
    List.reduceOption_append]

/-- The slots of the stale answers are decided, and they have no median, just when they are
decided without a score. -/
theorem forall_unscored_iff (h : Stored env k σ st₀) (n : ℕ) :
    (∀ a ∈ stale st₀ k.unit n, Unscored k.judges st₀ a) ↔
      (∀ a ∈ stale st₀ k.unit n, Judged k.judges st₀ a) ∧
        ((stale st₀ k.unit n).map (medianOf k.judges σ.vote)).reduceOption = [] := by
  have hnil : ((stale st₀ k.unit n).map (medianOf k.judges σ.vote)).reduceOption = [] ↔
      ∀ a ∈ stale st₀ k.unit n, medianOf k.judges σ.vote a = none := by
    simp [List.reduceOption]
  rw [hnil]
  constructor
  · intro hunscored
    have hboth := fun a ha =>
      (h.unscored_iff (List.mem_of_mem_filter ha)).mp (hunscored a ha)
    exact ⟨fun a ha => (hboth a ha).1, fun a ha => (hboth a ha).2⟩
  · rintro ⟨hjudged, hmedian⟩ a ha
    exact (h.unscored_iff (List.mem_of_mem_filter ha)).mpr ⟨hjudged a ha, hmedian a ha⟩

end Stored

/-- The medians that a completed aggregate added, in the order of the log, are as many as the
samples of the case have. -/
theorem length_reduceOption_settleOrder {log : List CaseEvent} {agg : CaseAggregate}
    (hcompletes : Completes env k σ agg) (hsettled : SettledAs env k σ log agg) :
    ((Script.sampleNos env k).map (σ.median env k)).reduceOption.length =
      ((settleOrder log).map (σ.median env k)).reduceOption.length := by
  obtain ⟨settled, hperm, htallied⟩ := hcompletes.settled
  have hreduce : ((settled.map (σ.median env k)).reduceOption).Perm
      ((Script.sampleNos env k).map (σ.median env k)).reduceOption :=
    (hperm.map (σ.median env k)).filterMap id
  rw [← hreduce.length_eq, ← htallied.added, hsettled.added]

/-- **Exact recovery.** However often the recovery of a stored case is interrupted: it asks no
slot that has a row, it gets done when it is left alone, and then it has written one row. It
has asked just the open slots of the case, and its row has the score of the row the execution
writes when it is not interrupted whatever arithmetic they are rounded in, exactly when every
slot of a stale answer is decided without a score and the execution settled the samples that
have a score in sample order, but for the order of the first two. -/
theorem recovered_iff_of_stored {s₁ s₂ : State} {t : RecoverState} {log : List CaseEvent}
    {writes : List CaseAggregate} (hstored : Stored env k σ st₀)
    (hplanned : ∀ v, plan.planned v ≤ 1) (h : Reached env plan s₁) (hk : .openCase k ∈ s₁.exam)
    (hrun : Transition.Logged (step env plan) (Follows k.unit σ) (caseEvents k.unit) s₁ s₂ log)
    (hlive : s₂.mem.canceled = false) (hreturned : s₂.main = .returned)
    (hrecover : Transition.Logged (recoverStep k.unit) (Casts σ.vote) recoverWrites
      ⟨st₀, .start, []⟩ t writes) :
    (∀ score t', recoverStep k.unit t (.verdict score) = some t' →
      ∃ q, t'.requests = t.requests ++ [q] ∧
        slotDone (t.store.listJudgeScoresByAnswer q.1) q.2 = false) ∧
    (∃ t', Transition.Reach (recoverStep k.unit) (Unhindered σ.vote) t t' ∧ t'.pc = .done) ∧
    (t.pc = .done → ∃ agg agg', writes = [agg] ∧ writtenAggs log = [agg'] ∧
      t.store.results = st₀.results ++ [caseResult k.unit agg] ∧
      s₂.store.unitRows k.unit = s₁.store.unitRows k.unit ++ [caseResult k.unit agg'] ∧
      ((∀ q, q ∈ t.requests ↔ Owed env k st₀ q) ∧ (∀ A, agg.scoreIn A = agg'.scoreIn A) ↔
        (∀ a ∈ stale st₀ k.unit (env.samples k.case), Unscored k.judges st₀ a) ∧
          RoundedNumbers.EqButStart
            ((Script.sampleNos env k).map (σ.median env k)).reduceOption
            ((settleOrder log).map (σ.median env k)).reduceOption)) := by
  have hrecovering := recovering_of_reach hstored.interrupted hrecover.reach
  refine ⟨?_, exists_done σ.vote t, ?_⟩
  · intro score t' hstep
    obtain ⟨q, hq, -, hopen⟩ := missing_of_verdict hrecovering hstep
    exact ⟨q, hq, hopen⟩
  · intro hdone
    obtain ⟨hrequests, row, hresults, -⟩ := recovered_of_done hrecovering hdone
    obtain ⟨hwrites, htallied⟩ := tallied_of_logged hstored.interrupted hrecover
    obtain ⟨agg', hwrote, hcompletes, hsettled, hrows⟩ :=
      wrote_of_returned hplanned h hk hrun hlive hreturned
    -- one row was added, so one aggregate was written
    obtain ⟨agg, rfl⟩ : ∃ agg, writes = [agg] := by
      rw [hwrites, List.append_cancel_left_eq] at hresults
      have hlength := congrArg List.length hresults
      rw [List.length_map] at hlength
      exact List.length_eq_one_iff.mp hlength
    refine ⟨agg, agg', rfl, hwrote, hwrites, hrows, ?_⟩
    have hscores : (∀ A, agg.scoreIn A = agg'.scoreIn A) ↔
        ((stale st₀ k.unit (env.samples k.case)).map (medianOf k.judges σ.vote)).reduceOption =
          [] ∧ RoundedNumbers.EqButStart
            ((Script.sampleNos env k).map (σ.median env k)).reduceOption
            ((settleOrder log).map (σ.median env k)).reduceOption := by
      have htally := htallied agg (List.mem_singleton_self _)
      simp only [htally.scoreIn, hsettled.scoreIn, hstored.reduceOption_latest]
      rw [RoundedNumbers.mean_eq_iff, RoundedNumbers.eqButStart_append_iff
        (length_reduceOption_settleOrder hcompletes hsettled)]
    rw [hscores, hstored.forall_unscored_iff, and_assoc]
    refine and_congr ?_ Iff.rfl
    simp only [hrequests]
    exact missing_iff_owed_iff hstored

/-! ### A case that had two samples -/

/-- The case of `firstCase` after a crash, with the given answers and votes. -/
def crashedStore (answers : List EvalAnswer) (judgeScores : List EvalJudgeScore) : Store :=
  { soloStore with runs := [soloRun .failed], answers := answers, judgeScores := judgeScores }

/-- An answer of a sample of the case. -/
def firstRow (id sampleNo attempt : ℕ) : EvalAnswer :=
  { answerRow { firstCase with sampleNo := sampleNo } firstAnswer with id := id, attempt := attempt }

/-- The first sample gets a one and the others a zero. -/
def fadingScript : Script := ⟨fun _ => firstAnswer, fun n _ => if n = 1 then some 1 else some 0⟩

/-- The batch of the one case in which nobody interrupts. -/
theorem exists_uninterrupted : ∃ s₁ s₂, Reached soloEnv soloPlan s₁ ∧ .openCase firstCase ∈ s₁.exam ∧
    Transition.Reach (step soloEnv soloPlan) (Follows firstCase.unit fadingScript) s₁ s₂ ∧
      s₂.mem.canceled = false ∧ s₂.main = .returned := by
  obtain ⟨s₁, hs₁⟩ : ∃ s, Transition.replay (step soloEnv soloPlan)
      (soloPlan.start soloEnv soloStore) (.main :: openingLabels) = some s := ⟨_, rfl⟩
  obtain ⟨s₂, hs₂⟩ : ∃ s, Transition.replayWith (step soloEnv soloPlan)
      (fun s a => a.follows firstCase.unit fadingScript s = true) s₁
      (judgingLabels ++ [.judge 0 .go] ++ settlingLabels.take 14) = some s := by
    cases hs₁
    exact ⟨_, rfl⟩
  refine ⟨s₁, s₂, reached_of_reach (Transition.Reach.of_replay hs₁), ?_, ?_, ?_⟩
  · cases hs₁
    exact List.mem_singleton_self _
  · exact (Transition.Reach.of_replayWith hs₂).mono fun _ _ h => follows_of_label h
  · cases hs₁
    cases hs₂
    exact ⟨rfl, rfl⟩

/-- Three samples of a case. -/
def threeEnv : Env := { soloEnv with defaultSamples := 3, defaultSamples_pos := by decide }

/-- The second sample fails, the first gets a one and the third a zero. -/
def mixedScript : Script :=
  ⟨fun n => if n = 2 then .failed 0 none none else firstAnswer,
    fun n _ => if n = 1 then some 1 else some 0⟩

/-- The second sample settles while the vote of the first is on its way. -/
def mixedLabels : List Label :=
  [.exam 0 .go, .exam 0 (.answer firstAnswer), .exam 0 .go, .exam 0 .go, .exam 0 .go,
    .judge 0 .go, .handJob 0 0, .exam 0 .go, .exam 0 .go,
    .exam 0 (.answer (.failed 0 none none)), .exam 0 .go, .exam 0 .go, .exam 0 .go,
    .exam 0 (.answer firstAnswer), .exam 0 .go, .exam 0 .go, .exam 0 .go, .judge 0 .go,
    .judge 0 (.verdict (.scored 1 none none)), .judge 0 .go, .judge 0 .go, .judge 0 .go,
    .judge 0 .go, .judge 0 .go, .judge 0 .go, .handJob 0 0, .exam 0 .go, .exam 0 .go,
    .exam 0 .go, .exam 0 .go, .exam 0 .go, .exam 0 .go, .judge 0 .go,
    .judge 0 (.verdict (.scored 0 none none)), .judge 0 .go, .judge 0 .go, .judge 0 .go,
    .judge 0 .go, .judge 0 .go, .judge 0 .go, .judge 0 .go, .judge 0 .go, .main, .exam 0 .go,
    .main, .judge 0 .go, .main, .main, .main, .main, .main, .main, .main]

/-- The batch of the case of three samples in which nobody interrupts. -/
theorem exists_uninterrupted_mixed : ∃ s₁ s₂ log, Reached threeEnv soloPlan s₁ ∧
    .openCase firstCase ∈ s₁.exam ∧
    Transition.Logged (step threeEnv soloPlan) (Follows firstCase.unit mixedScript)
      (caseEvents firstCase.unit) s₁ s₂ log ∧
      s₂.mem.canceled = false ∧ s₂.main = .returned ∧ settleOrder log = [2, 1, 3] := by
  obtain ⟨s₁, hs₁⟩ : ∃ s, Transition.replay (step threeEnv soloPlan)
      (soloPlan.start threeEnv soloStore) (.main :: openingLabels) = some s := ⟨_, rfl⟩
  obtain ⟨s₂, hs₂⟩ : ∃ s, Transition.replayWith (step threeEnv soloPlan)
      (fun s a => a.follows firstCase.unit mixedScript s = true) s₁ mixedLabels = some s := by
    cases hs₁
    exact ⟨_, rfl⟩
  refine ⟨s₁, s₂, _, reached_of_reach (Transition.Reach.of_replay hs₁), ?_,
    (Transition.Logged.of_replayWith hs₂).mono fun _ _ h => follows_of_label h, ?_⟩
  · cases hs₁
    exact List.mem_singleton_self _
  · cases hs₁
    cases hs₂
    exact ⟨rfl, rfl, rfl⟩

/-- The failed answer of the second sample. -/
def failedRow : EvalAnswer :=
  { answerRow { firstCase with sampleNo := 2 } (.failed 0 none none) with id := 2, attempt := 1 }

/-- The vote of the first sample is stored, the one of the third is lost. -/
def threeSampleStore : Store :=
  crashedStore [firstRow 1 1 1, failedRow, firstRow 3 3 1] [⟨1, 0, "judge", some 1, none, none⟩]

theorem stored_threeSampleStore : Stored threeEnv firstCase mixedScript threeSampleStore where
  verdictType := rfl
  snapshot := rfl
  jury := by decide
  answerIds := by decide
  positive := by decide
  samples i hi := by
    have hcases : i = 1 ∨ i = 2 ∨ i = 3 := by
      have hrange := List.mem_range'_1.mp hi
      have hsamples : threeEnv.samples firstCase.case = 3 := rfl
      omega
    rcases hcases with rfl | rfl | rfl
    · exact ⟨firstRow 1 1 1, by decide, rfl⟩
    · exact ⟨failedRow, by decide, rfl⟩
    · exact ⟨firstRow 3 3 1, by decide, rfl⟩
  votes := by decide

/-- Whether the label gives the vote the slot casts, decided on the state. -/
def RecoverLabel.casts (vote : ℕ → ℕ → Option ℚ) (s : RecoverState) : RecoverLabel → Bool
  | .setup ready => ready
  | .verdict score =>
    match s.pc with
    | .slots k =>
      match k.todo with
      | (_, slot) :: _ => score = vote k.answer.sampleNo slot
      | [] => true
    | _ => true
  | .go | .crash => true

theorem casts_of_label {vote : ℕ → ℕ → Option ℚ} {s : RecoverState} {label : RecoverLabel}
    (h : label.casts vote s = true) : Casts vote s label := by
  cases label with
  | setup ready => exact h
  | verdict score =>
    intro k judgeModel slot todo hpc htodo
    simpa [RecoverLabel.casts, hpc, htodo] using h
  | go | crash => trivial

/-- The recovery crashes when it has asked the lost vote, and starts over. -/
def mixedRecovery : List RecoverLabel :=
  [.setup true, .go, .go, .go, .go, .go, .verdict (some 0), .go, .crash, .setup true, .go, .go,
    .go, .go, .go, .go, .go, .go, .go]

/-- The recovery of a case with a failed sample and a stored vote asks the lost vote only, and
writes the score of the execution, whatever arithmetic it is rounded in. -/
theorem recovered_iff_of_stored_mixed : ∃ t log agg agg', ∃ s₁ s₂ : State,
    Transition.Logged (recoverStep firstCase.unit) (Casts mixedScript.vote) recoverWrites
      ⟨threeSampleStore, .start, []⟩ t [agg] ∧
    t.requests = [(3, 0)] ∧ (∀ q, q ∈ t.requests ↔ Owed threeEnv firstCase threeSampleStore q) ∧
    Transition.Logged (step threeEnv soloPlan) (Follows firstCase.unit mixedScript)
      (caseEvents firstCase.unit) s₁ s₂ log ∧
    settleOrder log = [2, 1, 3] ∧ writtenAggs log = [agg'] ∧
      ∀ A, agg.scoreIn A = agg'.scoreIn A := by
  obtain ⟨s₁, s₂, log, h, hk, hrun, hlive, hreturned, horder⟩ := exists_uninterrupted_mixed
  obtain ⟨t, ht⟩ : ∃ t, Transition.replayWith (recoverStep firstCase.unit)
      (fun s a => a.casts mixedScript.vote s = true) ⟨threeSampleStore, .start, []⟩ mixedRecovery =
        some t := ⟨_, rfl⟩
  have hlogged : Transition.Logged (recoverStep firstCase.unit)
      (fun s a => a.casts mixedScript.vote s = true) recoverWrites ⟨threeSampleStore, .start, []⟩ t
        (Transition.logOf (recoverStep firstCase.unit) recoverWrites ⟨threeSampleStore, .start, []⟩
          mixedRecovery) := .of_replayWith ht
  have hrecover := hlogged.mono fun _ _ hcasts => casts_of_label hcasts
  have hend : t.pc = .done ∧ t.requests = [(3, 0)] := by
    cases ht
    exact ⟨rfl, rfl⟩
  obtain ⟨-, -, hdone⟩ := recovered_iff_of_stored stored_threeSampleStore
    (List.nodup_iff_count_le_one.mp (by decide)) h hk hrun hlive hreturned hrecover
  obtain ⟨agg, agg', hwrites, hwrote, -, -, hiff⟩ := hdone hend.1
  rw [hwrites] at hrecover
  rw [horder] at hiff
  obtain ⟨hrequests, hscores⟩ := hiff.mpr ⟨by decide, .inl (by decide)⟩
  exact ⟨t, log, agg, agg', s₁, s₂, hrecover, hend.2, hrequests, hrun, horder, hwrote, hscores⟩

/-- The case had two samples, both judged, and was asked again after its count was lowered. -/
def twoSampleStore : Store :=
  crashedStore [firstRow 1 1 1, firstRow 2 2 1, firstRow 3 1 2]
    [⟨1, 0, "judge", some 1, none, none⟩, ⟨2, 0, "judge", some 0, none, none⟩]

theorem stored_twoSampleStore : Stored soloEnv firstCase fadingScript twoSampleStore where
  verdictType := rfl
  snapshot := rfl
  jury := by decide
  answerIds := by decide
  positive := by decide
  samples i hi := by
    obtain rfl : i = 1 := List.mem_singleton.mp hi
    exact ⟨firstRow 3 1 2, by decide, rfl⟩
  votes := by decide

/-- **Stale samples.** The recovery averages the sample of an earlier attempt in, and writes
another score than the execution. -/
theorem not_recovered_of_stored :
    ¬ ∀ (env : Env) (plan : Plan) (st₀ : Store) (k : SampleCursor) (σ : Script) (s₁ s₂ : State)
        (t : RecoverState) (row row' : EvalResult),
      Stored env k σ st₀ → (∀ v, plan.planned v ≤ 1) → Reached env plan s₁ →
      .openCase k ∈ s₁.exam →
      Transition.Reach (step env plan) (Follows k.unit σ) s₁ s₂ →
      s₂.mem.canceled = false → s₂.main = .returned →
      s₂.store.unitRows k.unit = s₁.store.unitRows k.unit ++ [row'] →
      Transition.Reach (recoverStep k.unit) (Casts σ.vote) ⟨st₀, .start, []⟩ t →
      t.pc = .done → t.store.results = st₀.results ++ [row] → row.score = row'.score := by
  intro hall
  obtain ⟨s₁, s₂, h, hk, hrun, hlive, hreturned⟩ := exists_uninterrupted
  have hplanned : ∀ v, soloPlan.planned v ≤ 1 := List.nodup_iff_count_le_one.mp (by decide)
  -- the store keeps the judged answer of a second sample, which the case no longer asks for: the
  -- recovery counts it, the batch does not
  obtain ⟨t, hreach, hdone⟩ := exists_done (u := firstCase.unit) fadingScript.vote
    ⟨twoSampleStore, .start, []⟩
  have hrecover : Transition.Reach (recoverStep firstCase.unit) (Casts fadingScript.vote)
    ⟨twoSampleStore, .start, []⟩ t := hreach.mono fun _ _ hguard => hguard.1
  have hrecovering := recovering_of_reach stored_twoSampleStore.interrupted hrecover
  obtain ⟨-, row, hresults, -, hscore⟩ := recovered_of_done hrecovering hdone
  have heq := hall soloEnv soloPlan twoSampleStore firstCase fadingScript s₁ s₂ t row _
    stored_twoSampleStore hplanned h hk hrun hlive hreturned
    (unitRows_of_returned hplanned h hk hrun hlive hreturned) hrecover hdone hresults
  rw [hscore] at heq
  exact absurd heq (by decide +kernel)

end HubScope
