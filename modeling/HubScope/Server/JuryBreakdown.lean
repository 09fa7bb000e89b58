import HubScope.Store.JudgeVotes
import HubScope.Evaluator.Reconstruction
import HubScope.Lib.Latest

/-!
# The jury votes shown for a result

The run detail shows a result with its jury votes. Answers and votes of all attempts at a case
are kept under the same run, model and case, and the detail takes for each sample the votes of
the highest attempt that has votes. An attempt that failed a sample leaves no vote on it, so
the highest attempt with votes need not be of the attempt that wrote the result.

## Main definitions

* `latestAttemptVotes`, `juryBreakdown`, `evalResultDTO` — the votes shown for a result
* `Store.attemptVotes` — the votes of an attempt, by its answers
* `Polled` — the answers of an attempt whose jury is through
* `ConsistentBreakdown` — the votes shown are the attempt's, and its score is theirs

## Main results

* `latestAttemptVotes_eq` — the votes shown are the latest of their sample
* `Polled.meanOfMedians_attemptVotes` — the score of an attempt is that of its votes
* `Polled.consistentBreakdown_iff` — when the votes shown are the attempt's
-/

set_option autoImplicit false

namespace HubScope

variable {st : Store} {u : UnitKey} {row : EvalResult} {own : List EvalAnswer}
  {judged : EvalAnswer → Bool} {jury : ℕ} {vote : ℕ → ℕ → Option ℚ}

/-! ### The run detail -/

/-- A vote of a higher attempt at its sample is noted. A sample that is not in the map has
attempt zero. -/
def latestStep (latest : ℕ → ℕ) (v : JudgeVote) : ℕ → ℕ :=
  if latest v.sampleNo < v.attempt then Function.update latest v.sampleNo v.attempt else latest

/-- A cell's votes down to the latest attempt of each sample. -/
def latestAttemptVotes (votes : List JudgeVote) : List JudgeVote :=
  let latest := votes.foldl latestStep fun _ => 0
  votes.filter fun v => v.attempt = latest v.sampleNo

/-- One jury vote on one sample. -/
structure JudgeVoteDTO where
  sampleNo : ℕ
  slot : ℕ
  judgeModel : String
  score : Option ℚ
  deriving DecidableEq

def JudgeVote.dto (v : JudgeVote) : JudgeVoteDTO := ⟨v.sampleNo, v.slot, v.judgeModel, v.score⟩

/-- The lowest and the highest score so far and the number of scores. -/
def juryBreakdownStep : ℚ × ℚ × ℕ → JudgeVote → ℚ × ℚ × ℕ
  | (lo, hi, scored), v =>
    match v.score with
    | none => (lo, hi, scored)
    | some q =>
      (if scored = 0 ∨ q < lo then q else lo, if scored = 0 ∨ hi < q then q else hi, scored + 1)

/-- A cell's votes with the spread of the ones that are not null, if there are two. -/
def juryBreakdown (votes : List JudgeVote) : List JudgeVoteDTO × Option ℚ :=
  let (lo, hi, scored) := votes.foldl juryBreakdownStep (0, 0, 0)
  (votes.map JudgeVote.dto, if scored < 2 then none else some (hi - lo))

/-- A result of the run detail with its jury breakdown. -/
structure EvalResultDTO where
  result : EvalResult
  judgeScores : List JudgeVoteDTO
  spread : Option ℚ
  deriving DecidableEq

/-- A result among the votes of its run. -/
def evalResultDTO (votes : List JudgeVote) (res : EvalResult) : EvalResultDTO :=
  let cellVotes := latestAttemptVotes
    (votes.filter fun v => v.modelDbId = res.modelDbId ∧ v.caseId = res.caseId)
  if cellVotes ≠ [] then ⟨res, (juryBreakdown cellVotes).1, (juryBreakdown cellVotes).2⟩
  else ⟨res, [], none⟩

namespace Store

/-- The results of the run detail. -/
def handleGetEval (st : Store) (id : ℕ) : List EvalResultDTO :=
  (st.listEvalResults id).map (evalResultDTO (st.listJudgeVotesByRun id))

/-- The votes shown for a result. -/
def shownVotes (st : Store) (row : EvalResult) : List JudgeVoteDTO :=
  (evalResultDTO (st.listJudgeVotesByRun row.runId) row).judgeScores

/-- The votes on the answers of an attempt at the unit. -/
def attemptVotes (st : Store) (u : UnitKey) (own : List EvalAnswer) : List JudgeVoteDTO :=
  ((st.judgedAnswers u.runId).filter fun p => p.1.unit = u ∧ p.1 ∈ own).map fun p =>
    (judgeVote p).dto

end Store

/-- The mean over the samples of the medians of their votes. -/
def meanOfMedians (votes : List JudgeVoteDTO) : Option ℚ :=
  meanScore ((votes.map (·.sampleNo)).dedup.map fun n =>
    medianOfVotes ((votes.filter (·.sampleNo = n)).map (·.score)))

/-- The breakdown of a result by the attempt that wrote it: the votes shown are the attempt's,
and of a judge case the score is the mean of the medians of the votes shown, and null only if
no vote shown has a score. -/
structure ConsistentBreakdown (judgeCase : Prop) (own : List EvalAnswer) (st : Store)
    (row : EvalResult) : Prop where
  votes : st.shownVotes row = st.attemptVotes row.unit own
  scored : judgeCase → ∀ q, row.score = some q → meanOfMedians (st.shownVotes row) = some q
  unscored : judgeCase → row.score = none → ∀ v ∈ st.shownVotes row, v.score = none

/-! ### The latest votes -/

theorem latestStep_apply (latest : ℕ → ℕ) (v : JudgeVote) (n : ℕ) :
    latestStep latest v n = if v.sampleNo = n then max (latest n) v.attempt else latest n := by
  unfold latestStep
  by_cases hn : v.sampleNo = n
  · subst hn
    rw [if_pos rfl]
    split_ifs with hlt
    · rw [Function.update_self, max_eq_right hlt.le]
    · rw [max_eq_left (not_lt.mp hlt)]
  · rw [if_neg hn]
    split_ifs
    · exact Function.update_of_ne (Ne.symm hn) ..
    · rfl

/-- The scan notes for each sample the highest attempt of its votes. -/
theorem foldl_latestStep (votes : List JudgeVote) (latest : ℕ → ℕ) (n : ℕ) :
    latest n ≤ votes.foldl latestStep latest n ∧
      (∀ v ∈ votes, v.sampleNo = n → v.attempt ≤ votes.foldl latestStep latest n) ∧
      (votes.foldl latestStep latest n = latest n ∨
        ∃ v ∈ votes, v.sampleNo = n ∧ v.attempt = votes.foldl latestStep latest n) := by
  induction votes generalizing latest with
  | nil => exact ⟨le_rfl, fun v hv => absurd hv List.not_mem_nil, .inl rfl⟩
  | cons v votes ih =>
    -- the induction is on the votes, for any numbers noted so far
    obtain ⟨hle, habove, hsource⟩ := ih (latestStep latest v)
    rw [latestStep_apply] at hle hsource
    rw [List.foldl_cons]
    refine ⟨?_, fun w hw hsample => ?_, ?_⟩
    · split_ifs at hle
      · exact (le_max_left ..).trans hle
      · exact hle
    · rcases List.mem_cons.mp hw with rfl | hw
      · rw [if_pos hsample] at hle
        exact (le_max_right ..).trans hle
      · exact habove w hw hsample
    · rcases hsource with heq | ⟨w, hw, hsample, hattempt⟩
      · split_ifs at heq with hsample
        · rcases max_choice (latest n) v.attempt with hmax | hmax
          · exact .inl (heq.trans hmax)
          · exact .inr ⟨v, List.mem_cons_self, hsample, (heq.trans hmax).symm⟩
        · exact .inl heq
      · exact .inr ⟨w, List.mem_cons_of_mem _ hw, hsample, hattempt⟩

/-- **Votes shown.** The votes shown are those of the highest attempt at their sample that has
votes. -/
theorem latestAttemptVotes_eq (votes : List JudgeVote) :
    latestAttemptVotes votes = Latest.latest JudgeVote.sampleNo JudgeVote.attempt votes := by
  apply List.filter_congr
  intro v hv
  apply decide_eq_decide.mpr
  obtain ⟨-, habove, hsource⟩ := foldl_latestStep votes (fun _ => 0) v.sampleNo
  have hle := habove v hv rfl
  constructor
  · intro heq w hw hsample
    rw [heq]
    exact habove w hw hsample
  · intro hlatest
    apply le_antisymm hle
    rcases hsource with hzero | ⟨w, hw, hsample, hattempt⟩
    · rw [hzero]
      exact Nat.zero_le _
    · rw [← hattempt]
      exact hlatest w hw hsample

/-- The votes shown for a result are the latest on the answers of its unit. -/
theorem shownVotes_eq (st : Store) (row : EvalResult) :
    st.shownVotes row =
      (Latest.latest (·.1.sampleNo) (·.1.attempt)
        ((st.judgedAnswers row.runId).filter (·.1.unit = row.unit))).map
          fun p => (judgeVote p).dto := by
  -- the cell of a result selects the votes on its unit
  have hcell : (st.listJudgeVotesByRun row.runId).filter
      (fun v => v.modelDbId = row.modelDbId ∧ v.caseId = row.caseId) =
        ((st.judgedAnswers row.runId).filter (·.1.unit = row.unit)).map judgeVote := by
    rw [Store.listJudgeVotesByRun, List.filter_map]
    congr 1
    apply List.filter_congr
    rintro ⟨a, t⟩ hp
    have hrun := (Store.mem_judgedAnswers.mp hp).2.2.2
    apply decide_eq_decide.mpr
    simp [judgeVote, EvalAnswer.unit, EvalResult.unit, hrun]
  have hlatest : latestAttemptVotes ((st.listJudgeVotesByRun row.runId).filter
      (fun v => v.modelDbId = row.modelDbId ∧ v.caseId = row.caseId)) =
        (Latest.latest (·.1.sampleNo) (·.1.attempt)
          ((st.judgedAnswers row.runId).filter (·.1.unit = row.unit))).map judgeVote := by
    rw [hcell, latestAttemptVotes_eq, Latest.latest_map]
    rfl
  rw [Store.shownVotes, evalResultDTO, hlatest]
  split_ifs with hnil
  · exact List.map_map
  · rw [not_not, List.map_eq_nil_iff] at hnil
    rw [hnil]
    rfl

/-! ### An attempt whose jury is through -/

/-- The answers of an attempt at the unit whose jury is through: there is one for each sample,
the only ones with votes are judged, and every slot of their jury has cast its vote. -/
structure Polled (st : Store) (u : UnitKey) (own : List EvalAnswer) (judged : EvalAnswer → Bool)
    (jury : ℕ) (vote : ℕ → ℕ → Option ℚ) : Prop where
  keys : st.AnswerKeys
  stored : ∀ a ∈ own, a ∈ st.answers ∧ a.unit = u
  samples : (own.map (·.sampleNo)).Nodup
  newest : ∀ a ∈ own, ∀ b ∈ st.answers, b.unit = u → b.sampleNo = a.sampleNo → b ∉ own →
    b.attempt < a.attempt
  votes : ∀ a ∈ own, ∀ t ∈ st.judgeScores, t.answerId = a.id →
    judged a = true ∧ t.slot < jury ∧ t.score = vote a.sampleNo t.slot
  complete : ∀ a ∈ own, judged a = true → ∀ slot < jury,
    ∃ t ∈ st.judgeScores, t.answerId = a.id ∧ t.slot = slot

/-- The median an answer of the attempt settled with. -/
def ownMedian (judged : EvalAnswer → Bool) (jury : ℕ) (vote : ℕ → ℕ → Option ℚ)
    (a : EvalAnswer) : Option ℚ :=
  if judged a then medianOfVotes ((List.range jury).map (vote a.sampleNo)) else none

/-- The judge scores of a unit's answers, with the answers. -/
def Store.unitVotes (st : Store) (u : UnitKey) : List (EvalAnswer × EvalJudgeScore) :=
  (st.judgedAnswers u.runId).filter (·.1.unit = u)

theorem mem_unitVotes {a : EvalAnswer} {t : EvalJudgeScore} :
    (a, t) ∈ st.unitVotes u ↔
      a ∈ st.answers ∧ t ∈ st.judgeScores ∧ t.answerId = a.id ∧ a.unit = u := by
  rw [Store.unitVotes, List.mem_filter, Store.mem_judgedAnswers, decide_eq_true_iff]
  constructor
  · rintro ⟨⟨ha, ht, hid, -⟩, hunit⟩
    exact ⟨ha, ht, hid, hunit⟩
  · rintro ⟨ha, ht, hid, hunit⟩
    exact ⟨⟨ha, ht, hid, congrArg UnitKey.runId hunit⟩, hunit⟩

theorem attemptVotes_eq (st : Store) (u : UnitKey) (own : List EvalAnswer) :
    st.attemptVotes u own =
      ((st.unitVotes u).filter (·.1 ∈ own)).map fun p => (judgeVote p).dto := by
  rw [Store.attemptVotes, Store.unitVotes, List.filter_filter]
  congr 1
  apply List.filter_congr
  intro p _
  rw [Bool.and_comm, ← Bool.decide_and]

/-- The mean reads the medians that are there as a multiset. -/
theorem meanScore_eq_of_perm {xs ys : List (Option ℚ)}
    (h : xs.reduceOption.Perm ys.reduceOption) : meanScore xs = meanScore ys := by
  have hnil : xs.reduceOption = [] ↔ ys.reduceOption = [] := by
    rw [← List.length_eq_zero_iff, h.length_eq, List.length_eq_zero_iff]
  rw [meanScore, meanScore, h.sum_eq, h.length_eq]
  simp only [hnil]

/-- Values of which those that are left out have no median. -/
theorem reduceOption_map_perm {f : ℕ → Option ℚ} {xs ys : List ℕ} (hxs : xs.Nodup)
    (hys : ys.Nodup) (hsub : ∀ x ∈ xs, x ∈ ys) (hrest : ∀ y ∈ ys, y ∉ xs → f y = none) :
    (xs.map f).reduceOption.Perm (ys.map f).reduceOption := by
  have hfilter : (ys.filter (· ∈ xs)).Perm xs := by
    apply (List.perm_ext_iff_of_nodup (hys.filter _) hxs).mpr
    intro n
    rw [List.mem_filter, decide_eq_true_iff]
    exact ⟨And.right, fun hn => ⟨hsub n hn, hn⟩⟩
  have hmap : ys.filterMap f = (ys.filter (· ∈ xs)).filterMap f := by
    rw [List.filterMap_filter]
    apply List.filterMap_congr
    intro y hy
    by_cases hmem : y ∈ xs
    · simp [hmem]
    · simpa [hmem] using hrest y hy hmem
  rw [List.reduceOption, List.filterMap_map, List.filterMap_map]
  change (xs.filterMap f).Perm (ys.filterMap f)
  rw [hmap]
  exact (hfilter.filterMap f).symm

/-- Where no sample has a median no vote has a score. -/
theorem score_eq_none_of_meanOfMedians {votes : List JudgeVoteDTO}
    (h : meanOfMedians votes = none) {v : JudgeVoteDTO} (hv : v ∈ votes) : v.score = none := by
  have hmedian : medianOfVotes ((votes.filter (·.sampleNo = v.sampleNo)).map (·.score)) = none := by
    by_contra hne
    obtain ⟨q, hq⟩ := Option.ne_none_iff_exists'.mp hne
    have hmem : q ∈ ((votes.map (·.sampleNo)).dedup.map fun n =>
        medianOfVotes ((votes.filter (·.sampleNo = n)).map (·.score))).reduceOption := by
      apply List.reduceOption_mem_iff.mpr
      exact List.mem_map.mpr ⟨v.sampleNo, List.mem_dedup.mpr (List.mem_map_of_mem hv), hq⟩
    rw [meanScore_eq_none_iff.mp h] at hmem
    cases hmem
  apply medianOfVotes_eq_none_iff.mp hmedian
  exact List.mem_map_of_mem (List.mem_filter.mpr ⟨hv, decide_eq_true rfl⟩)

namespace Polled

variable {a : EvalAnswer}

/-- An answer of the attempt is the attempt's only one for its sample. -/
theorem eq_of_sampleNo_eq (h : Polled st u own judged jury vote) {b : EvalAnswer} (ha : a ∈ own)
    (hb : b ∈ own) (hsample : b.sampleNo = a.sampleNo) : b = a :=
  List.inj_on_of_nodup_map h.samples hb ha hsample

/-- The attempt's votes outrank the other votes on their samples. -/
theorem ranked (h : Polled st u own judged jury vote) :
    Latest.Ranked (fun p : EvalAnswer × EvalJudgeScore => p.1.sampleNo) (fun p => p.1.attempt)
      (fun p => p.1 ∈ own) (st.unitVotes u) where
  same := by
    rintro ⟨a, t⟩ _ ⟨b, t'⟩ _ ha hb hsample
    exact congrArg EvalAnswer.attempt (h.eq_of_sampleNo_eq ha hb hsample)
  above := by
    rintro ⟨a, t⟩ _ ⟨b, t'⟩ hmem ha hb hsample
    obtain ⟨hb', -, -, hunit⟩ := mem_unitVotes.mp hmem
    exact h.newest a ha b hb' hunit hsample hb

/-- The votes shown are the attempt's when they are as many. -/
theorem shownVotes_eq_iff (h : Polled st u own judged jury vote) (hunit : row.unit = u) :
    st.shownVotes row = st.attemptVotes u own ↔
      ∀ p ∈ st.unitVotes u, p.1 ∉ own →
        ∃ q ∈ st.unitVotes u, q.1 ∈ own ∧ q.1.sampleNo = p.1.sampleNo := by
  have hrun : row.runId = u.runId := congrArg UnitKey.runId hunit
  rw [← h.ranked.latest_eq_filter_iff, shownVotes_eq, attemptVotes_eq, hunit, hrun]
  constructor
  · intro heq
    have hlength := congrArg List.length heq
    rw [List.length_map, List.length_map] at hlength
    exact (h.ranked.sublist_latest.eq_of_length hlength.symm).symm
  · intro heq
    exact congrArg (List.map _) heq

/-! ### The score of the attempt -/

/-- The slots with a vote on a judged answer are those of its jury. -/
theorem slots_perm (h : Polled st u own judged jury vote) (ha : a ∈ own)
    (hjudged : judged a = true) :
    ((st.judgeScores.filter (·.answerId = a.id)).map (·.slot)).Perm (List.range jury) := by
  have hnodup : ((st.judgeScores.filter (·.answerId = a.id)).map (·.slot)).Nodup := by
    apply List.pairwise_map.mpr
    apply (List.Pairwise.and_mem.mp (h.keys.slots.filter _)).imp
    rintro t t' ⟨ht, ht', hslots⟩
    have hid := of_decide_eq_true (List.mem_filter.mp ht).2
    have hid' := of_decide_eq_true (List.mem_filter.mp ht').2
    exact hslots (hid.trans hid'.symm)
  apply (List.perm_ext_iff_of_nodup hnodup List.nodup_range).mpr
  intro slot
  rw [List.mem_range]
  constructor
  · intro hslot
    obtain ⟨t, ht, rfl⟩ := List.mem_map.mp hslot
    obtain ⟨ht, hid⟩ := List.mem_filter.mp ht
    exact (h.votes a ha t ht (of_decide_eq_true hid)).2.1
  · intro hslot
    obtain ⟨t, ht, hid, rfl⟩ := h.complete a ha hjudged slot hslot
    exact List.mem_map_of_mem (List.mem_filter.mpr ⟨ht, decide_eq_true hid⟩)

/-- The scores on an answer of the attempt are the votes of its jury. -/
theorem scores_perm (h : Polled st u own judged jury vote) (ha : a ∈ own) :
    ((st.judgeScores.filter (·.answerId = a.id)).map (·.score)).Perm
      (if judged a then (List.range jury).map (vote a.sampleNo) else []) := by
  have hvotes : ∀ t ∈ st.judgeScores.filter (·.answerId = a.id),
      judged a = true ∧ t.score = vote a.sampleNo t.slot := by
    intro t ht
    obtain ⟨ht, hid⟩ := List.mem_filter.mp ht
    obtain ⟨hjudged, -, hscore⟩ := h.votes a ha t ht (of_decide_eq_true hid)
    exact ⟨hjudged, hscore⟩
  split_ifs with hjudged
  · have hscores : (st.judgeScores.filter (·.answerId = a.id)).map (·.score) =
        ((st.judgeScores.filter (·.answerId = a.id)).map (·.slot)).map (vote a.sampleNo) := by
      rw [List.map_map]
      exact List.map_congr_left fun t ht => (hvotes t ht).2
    rw [hscores]
    exact (h.slots_perm ha hjudged).map _
  · have hnil : st.judgeScores.filter (·.answerId = a.id) = [] := by
      apply List.eq_nil_iff_forall_not_mem.mpr
      exact fun t ht => hjudged (hvotes t ht).1
    rw [hnil]
    exact List.Perm.refl _

/-- The attempt's votes on a sample are those on its answer for the sample. -/
theorem sampleVotes_perm (h : Polled st u own judged jury vote) (ha : a ∈ own) :
    (((st.attemptVotes u own).filter (·.sampleNo = a.sampleNo)).map (·.score)).Perm
      ((st.judgeScores.filter (·.answerId = a.id)).map (·.score)) := by
  obtain ⟨hstored, hunit⟩ := h.stored a ha
  have hrun : a.runId = u.runId := congrArg UnitKey.runId hunit
  -- among the answers of the attempt the sample names one
  have hfilter : ((st.judgedAnswers u.runId).filter fun p => p.1.unit = u ∧ p.1 ∈ own).filter
      (fun p => (judgeVote p).dto.sampleNo = a.sampleNo) =
        (st.judgedAnswers a.runId).filter (·.1 = a) := by
    rw [List.filter_filter, hrun]
    apply List.filter_congr
    rintro ⟨b, t⟩ _
    rw [← Bool.decide_and]
    apply decide_eq_decide.mpr
    constructor
    · rintro ⟨hsample, -, hb⟩
      exact h.eq_of_sampleNo_eq ha hb hsample
    · rintro rfl
      exact ⟨rfl, hunit, ha⟩
  rw [Store.attemptVotes, List.filter_map, List.map_map]
  change ((((st.judgedAnswers u.runId).filter fun p => p.1.unit = u ∧ p.1 ∈ own).filter
    fun p => (judgeVote p).dto.sampleNo = a.sampleNo).map fun p => p.2.score).Perm _
  rw [hfilter]
  have hperm := (h.keys.judgedAnswers_filter_perm hstored).map fun p => p.2.score
  rwa [List.map_map] at hperm

theorem median_attemptVotes (h : Polled st u own judged jury vote) (ha : a ∈ own) :
    medianOfVotes (((st.attemptVotes u own).filter (·.sampleNo = a.sampleNo)).map (·.score)) =
      ownMedian judged jury vote a := by
  rw [medianOfVotes_perm ((h.sampleVotes_perm ha).trans (h.scores_perm ha)), ownMedian]
  split_ifs
  · rfl
  · rfl

/-- A vote of the attempt is on one of its answers. -/
theorem exists_own (_h : Polled st u own judged jury vote) {v : JudgeVoteDTO}
    (hv : v ∈ st.attemptVotes u own) : ∃ a ∈ own, v.sampleNo = a.sampleNo := by
  obtain ⟨p, hp, rfl⟩ := List.mem_map.mp hv
  obtain ⟨-, hown⟩ := of_decide_eq_true (List.mem_filter.mp hp).2
  exact ⟨p.1, hown, rfl⟩

/-- **Score of an attempt.** The mean of the medians of the attempt's answers is that of its
votes: an answer without votes has no median. -/
theorem meanOfMedians_attemptVotes (h : Polled st u own judged jury vote) :
    meanOfMedians (st.attemptVotes u own) = meanScore (own.map (ownMedian judged jury vote)) := by
  let f : ℕ → Option ℚ := fun n =>
    medianOfVotes (((st.attemptVotes u own).filter (·.sampleNo = n)).map (·.score))
  have hown : own.map (ownMedian judged jury vote) = (own.map (·.sampleNo)).map f := by
    rw [List.map_map]
    exact List.map_congr_left fun a ha => (h.median_attemptVotes ha).symm
  rw [hown]
  apply meanScore_eq_of_perm
  apply reduceOption_map_perm (List.nodup_dedup _) h.samples
  · intro n hn
    obtain ⟨v, hv, rfl⟩ := List.mem_map.mp (List.mem_dedup.mp hn)
    obtain ⟨a, ha, hsample⟩ := h.exists_own hv
    rw [hsample]
    exact List.mem_map_of_mem ha
  · intro n _ hn
    -- a sample nobody voted on has no median on either side
    have hnil : (st.attemptVotes u own).filter (·.sampleNo = n) = [] := by
      apply List.filter_eq_nil_iff.mpr
      intro v hv hsample
      apply hn
      rw [← of_decide_eq_true hsample]
      exact List.mem_dedup.mpr (List.mem_map_of_mem hv)
    simp only [hnil]
    rfl

/-- The unit's votes that are not the attempt's have a vote of the attempt beside them when
their samples are judged by it. -/
theorem exists_vote_iff (h : Polled st u own judged jury vote) {p : EvalAnswer × EvalJudgeScore} :
    (∃ q ∈ st.unitVotes u, q.1 ∈ own ∧ q.1.sampleNo = p.1.sampleNo) ↔
      0 < jury ∧ ∃ a ∈ own, a.sampleNo = p.1.sampleNo ∧ judged a = true := by
  constructor
  · rintro ⟨⟨a, t⟩, hmem, ha, hsample⟩
    obtain ⟨-, ht, hid, -⟩ := mem_unitVotes.mp hmem
    obtain ⟨hjudged, hslot, -⟩ := h.votes a ha t ht hid
    exact ⟨Nat.zero_lt_of_lt hslot, a, ha, hsample, hjudged⟩
  · rintro ⟨hpos, a, ha, hsample, hjudged⟩
    obtain ⟨t, ht, hid, -⟩ := h.complete a ha hjudged 0 hpos
    obtain ⟨hstored, hunit⟩ := h.stored a ha
    exact ⟨(a, t), mem_unitVotes.mpr ⟨hstored, ht, hid, hunit⟩, ha, hsample⟩

/-- **Consistent breakdowns.** The breakdown of a result is consistent exactly when every other
vote of its unit is on a sample that the attempt put to its jury. -/
theorem consistentBreakdown_iff {judgeCase : Prop} (h : Polled st u own judged jury vote)
    (hunit : row.unit = u)
    (hscore : judgeCase → row.score = meanScore (own.map (ownMedian judged jury vote))) :
    ConsistentBreakdown judgeCase own st row ↔
      ∀ p ∈ st.unitVotes u, p.1 ∉ own →
        0 < jury ∧ ∃ a ∈ own, a.sampleNo = p.1.sampleNo ∧ judged a = true := by
  have hshown : st.shownVotes row = st.attemptVotes row.unit own ↔
      ∀ p ∈ st.unitVotes u, p.1 ∉ own →
        0 < jury ∧ ∃ a ∈ own, a.sampleNo = p.1.sampleNo ∧ judged a = true := by
    rw [hunit, h.shownVotes_eq_iff hunit]
    exact forall₂_congr fun p _ => imp_congr_right fun _ => h.exists_vote_iff
  refine ⟨fun hconsistent => hshown.mp hconsistent.votes, fun hjudged => ?_⟩
  have hvotes := hshown.mpr hjudged
  -- the score of the row is that of the votes shown
  have hmean : judgeCase → row.score = meanOfMedians (st.shownVotes row) := by
    intro hcase
    rw [hvotes, hunit, h.meanOfMedians_attemptVotes, hscore hcase]
  refine ⟨hvotes, fun hcase q hq => ?_, fun hcase hnone v hv => ?_⟩
  · rw [← hmean hcase, hq]
  · exact score_eq_none_of_meanOfMedians ((hmean hcase).symm.trans hnone) hv

end Polled

end HubScope
