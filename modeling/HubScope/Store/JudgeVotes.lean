import HubScope.Store.Calls
import Mathlib.Data.List.Lex
import Mathlib.Data.List.MinMax

/-!
# Answers and the votes on them

An answer attempt is numbered after the attempts its sample already has, and a judge score
belongs to one answer. The votes of a run are its judge scores, each with the coordinates of
its answer.

## Main definitions

* `JudgeVote`, `Store.listJudgeVotesByRun` — the votes of a run
* `Store.AnswerKeys` — the keys of the answers and of the judge scores

## Main results

* `Store.AnswerKeys.createEvalAnswer`, `createEvalJudgeScore` — the calls keep the keys
* `Store.AnswerKeys.judgedAnswers_filter_perm` — the votes of one answer are its judge scores
-/

set_option autoImplicit false

namespace HubScope

/-- A judge score with the coordinates of its answer. -/
structure JudgeVote where
  modelDbId : ℕ
  caseId : ℕ
  sampleNo : ℕ
  attempt : ℕ
  slot : ℕ
  judgeModel : String
  score : Option ℚ
  inputTokens : Option ℕ
  outputTokens : Option ℕ
  deriving DecidableEq

/-- The columns that are selected of an answer and a judge score on it. -/
def judgeVote (p : EvalAnswer × EvalJudgeScore) : JudgeVote where
  modelDbId := p.1.modelDbId
  caseId := p.1.caseId
  sampleNo := p.1.sampleNo
  attempt := p.1.attempt
  slot := p.2.slot
  judgeModel := p.2.judgeModel
  score := p.2.score
  inputTokens := p.2.inputTokens
  outputTokens := p.2.outputTokens

namespace Store

variable {st st' : Store} {a b : EvalAnswer} {t : EvalJudgeScore}

/-- The columns the votes of a run are ordered by. -/
def voteColumns (p : EvalAnswer × EvalJudgeScore) : List ℕ :=
  [p.1.modelDbId, p.1.caseId, p.1.sampleNo, p.1.attempt, p.2.slot]

/-- The judge scores of a run's answers, each joined with its answer. -/
def judgedAnswers (st : Store) (runId : ℕ) : List (EvalAnswer × EvalJudgeScore) :=
  (st.judgeScores.flatMap fun js =>
    (st.answers.filter fun a => a.id = js.answerId ∧ a.runId = runId).map fun a => (a, js))
    |>.insertionSort fun p q => voteColumns p ≤ voteColumns q

/-- Every judge vote of a run with its coordinates, ordered for per-case assembly. -/
def listJudgeVotesByRun (st : Store) (runId : ℕ) : List JudgeVote :=
  (st.judgedAnswers runId).map judgeVote

theorem mem_judgedAnswers {runId : ℕ} :
    (a, t) ∈ st.judgedAnswers runId ↔
      a ∈ st.answers ∧ t ∈ st.judgeScores ∧ t.answerId = a.id ∧ a.runId = runId := by
  rw [judgedAnswers, (List.perm_insertionSort _ _).mem_iff, List.mem_flatMap]
  simp only [List.mem_map, List.mem_filter, decide_eq_true_eq, Prod.mk.injEq]
  constructor
  · rintro ⟨js, hjs, b, ⟨hb, hid, hrun⟩, rfl, rfl⟩
    exact ⟨hb, hjs, hid.symm, hrun⟩
  · rintro ⟨ha, ht, hid, hrun⟩
    exact ⟨t, ht, a, ⟨ha, hid.symm, hrun⟩, rfl, rfl⟩

/-! ### Keys -/

/-- The keys of the answers and of the judge scores: an answer has its own id, later attempts
of a sample have higher numbers, and a slot of an answer has one score. -/
structure AnswerKeys (st : Store) : Prop where
  ids : (st.answers.map (·.id)).Nodup
  seq : ∀ a ∈ st.answers, a.id ≤ st.answerSeq
  attempts : st.answers.Pairwise fun a b =>
    a.unit = b.unit → a.sampleNo = b.sampleNo → a.attempt < b.attempt
  scores : ∀ t ∈ st.judgeScores, t.answerId ≤ st.answerSeq
  slots : st.judgeScores.Pairwise fun t t' => t.answerId = t'.answerId → t.slot ≠ t'.slot

theorem createEvalAnswer_spec (st : Store) (a : EvalAnswer) :
    ∃ attempt, st.createEvalAnswer a =
        ({ st with
          answers := st.answers ++ [{ a with id := st.answerSeq + 1, attempt := attempt }]
          answerSeq := st.answerSeq + 1 }, st.answerSeq + 1) ∧
      ∀ b ∈ st.answers, b.unit = a.unit → b.sampleNo = a.sampleNo → b.attempt < attempt := by
  refine ⟨_, rfl, fun b hb hunit hsample => ?_⟩
  have hmem : b.attempt ∈ (st.answers.filter fun b =>
      b.unit = a.unit ∧ b.sampleNo = a.sampleNo).map (·.attempt) :=
    List.mem_map_of_mem (List.mem_filter.mpr ⟨hb, decide_eq_true ⟨hunit, hsample⟩⟩)
  exact Nat.lt_succ_of_le (List.le_max_of_le' 0 hmem le_rfl)

namespace AnswerKeys

theorem of_eq (h : st.AnswerKeys) (hanswers : st'.answers = st.answers)
    (hscores : st'.judgeScores = st.judgeScores) (hseq : st'.answerSeq = st.answerSeq) :
    st'.AnswerKeys where
  ids := by rw [hanswers]; exact h.ids
  seq := by rw [hanswers, hseq]; exact h.seq
  attempts := by rw [hanswers]; exact h.attempts
  scores := by rw [hscores, hseq]; exact h.scores
  slots := by rw [hscores]; exact h.slots

theorem createEvalAnswer (h : st.AnswerKeys) (a : EvalAnswer) :
    (st.createEvalAnswer a).1.AnswerKeys := by
  obtain ⟨attempt, heq, hlater⟩ := createEvalAnswer_spec st a
  rw [heq]
  constructor
  · rw [List.map_append, List.nodup_append]
    refine ⟨h.ids, List.nodup_singleton _, fun id hid id' hid' => ?_⟩
    obtain ⟨b, hb, rfl⟩ := List.mem_map.mp hid
    have hle := h.seq b hb
    rw [List.mem_singleton.mp hid']
    exact Nat.ne_of_lt (Nat.lt_succ_of_le hle)
  · intro b hb
    rcases List.mem_append.mp hb with hb | hb
    · exact Nat.le_succ_of_le (h.seq b hb)
    · rw [List.mem_singleton.mp hb]
  · refine List.pairwise_append.mpr ⟨h.attempts, List.pairwise_singleton .., fun b hb c hc => ?_⟩
    rw [List.mem_singleton.mp hc]
    exact hlater b hb
  · exact fun t ht => Nat.le_succ_of_le (h.scores t ht)
  · exact h.slots

theorem createEvalJudgeScore (h : st.AnswerKeys) (ht : t.answerId ≤ st.answerSeq) :
    (st.createEvalJudgeScore t).AnswerKeys := by
  unfold Store.createEvalJudgeScore
  split
  · exact h
  · rename_i hfree
    refine ⟨h.ids, h.seq, h.attempts, fun t' ht' => ?_, ?_⟩
    · rcases List.mem_append.mp ht' with ht' | ht'
      · exact h.scores t' ht'
      · rw [List.mem_singleton.mp ht']
        exact ht
    · refine List.pairwise_append.mpr ⟨h.slots, List.pairwise_singleton .., ?_⟩
      intro t' ht' u hu hid hslot
      rw [List.mem_singleton.mp hu] at hid hslot
      exact hfree (List.any_eq_true.mpr ⟨t', ht', decide_eq_true ⟨hid, hslot⟩⟩)

/-- An id is the id of one answer. -/
theorem eq_of_id_eq (h : st.AnswerKeys) (ha : a ∈ st.answers) (hb : b ∈ st.answers)
    (hid : a.id = b.id) : a = b :=
  List.inj_on_of_nodup_map h.ids ha hb hid

/-- Joining a judge score finds its answer, once. -/
theorem filter_join_eq (h : st.AnswerKeys) (ha : a ∈ st.answers) (t : EvalJudgeScore) :
    (((st.answers.filter fun b => b.id = t.answerId ∧ b.runId = a.runId).map
        fun b => (b, t)).filter (·.1 = a)) = if t.answerId = a.id then [(a, t)] else [] := by
  have hnodup : st.answers.Nodup := h.ids.of_map _
  have hone : st.answers.filter (· = a) = [a] := by
    rw [List.filter_eq, List.count_eq_one_of_mem hnodup ha]
    rfl
  rw [List.filter_map, List.filter_filter]
  split_ifs with hid
  · have hfilter : (st.answers.filter fun b => decide (b = a) &&
        decide (b.id = t.answerId ∧ b.runId = a.runId)) = st.answers.filter (· = a) := by
      apply List.filter_congr
      intro b _
      by_cases hb : b = a
      · subst hb
        simp [hid]
      · simp [hb]
    exact congrArg (List.map _) (hfilter.trans hone)
  · apply List.map_eq_nil_iff.mpr
    apply List.filter_eq_nil_iff.mpr
    intro b _ hb
    simp only [Function.comp_apply, Bool.and_eq_true, decide_eq_true_eq] at hb
    obtain ⟨rfl, hid', -⟩ := hb
    exact hid hid'.symm

/-- **Votes of an answer.** The votes of an answer are its judge scores. -/
theorem judgedAnswers_filter_perm (h : st.AnswerKeys) (ha : a ∈ st.answers) :
    ((st.judgedAnswers a.runId).filter (·.1 = a)).Perm
      ((st.judgeScores.filter (·.answerId = a.id)).map fun t => (a, t)) := by
  have hjoin : ∀ rows : List EvalJudgeScore, ((rows.flatMap fun t =>
      (st.answers.filter fun b => b.id = t.answerId ∧ b.runId = a.runId).map
        fun b => (b, t)).filter (·.1 = a)) =
          (rows.filter (·.answerId = a.id)).map fun t => (a, t) := by
    intro rows
    induction rows with
    | nil => rfl
    | cons t rows ih =>
      rw [List.flatMap_cons, List.filter_append, ih, h.filter_join_eq ha t, List.filter_cons]
      by_cases hid : t.answerId = a.id
      · simp [hid]
      · simp [hid]
  rw [← hjoin]
  exact (List.perm_insertionSort _ _).filter _

end AnswerKeys

end Store

end HubScope
