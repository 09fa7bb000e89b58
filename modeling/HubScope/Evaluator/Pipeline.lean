import HubScope.Evaluator.Median
import HubScope.Lib.RoundedSum
import HubScope.Store.Calls
import Mathlib.Data.List.AList

/-!
# The judge-stage pipeline of one execution

The in-memory state the exam and judge pools share behind one lock: the case aggregates,
the jury votes of open samples, the outstanding judge jobs per run and the run finish
flags. Each function here is one lock section; where the code would dereference an
aggregate that is not there, the function has no result.

## Main definitions

* `JudgeJob` — one judge call owed to one jury slot
* `Pipeline` — the shared state
* `Pipeline.openCase`, `recordAnswer`, `settleSample` — the case aggregates
* `Pipeline.registerVotes`, `landVote`, `decrementPending` — the vote flow
* `Pipeline.markCellsDone`, `runFinishedLocked` — the run finish flags
* `caseResult` — the result row a completed aggregate is written as
-/

namespace HubScope

/-- One sample of a unit: the key of the vote map. -/
structure SampleKey where
  unit : UnitKey
  sampleNo : ℕ
  deriving DecidableEq, Repr

/-- One judge call owed to one jury slot. -/
structure JudgeJob where
  unit : UnitKey
  answerId : ℕ
  sampleNo : ℕ
  slot : ℕ
  judgeModel : String
  deriving DecidableEq, Repr

/-- The sample a job's vote belongs to. -/
def JudgeJob.sample (j : JudgeJob) : SampleKey := ⟨j.unit, j.sampleNo⟩

/-- The accumulated outcomes of one (run, model, case) cell. For the sum of the scores it keeps
the medians `added`, oldest first: a sum that is rounded depends on their order. -/
structure CaseAggregate where
  modelId : String
  profile : VerdictProfile
  expectedSamples : ℕ
  settledSamples : ℕ
  added : List ℚ
  scored : ℕ
  latencyMs : ℕ
  inputTokens : Option ℕ
  outputTokens : Option ℕ
  answerText : Option String
  deriving DecidableEq

/-- The jury votes of one open sample; `scores` is slot-indexed. -/
structure SampleVotes where
  expected : ℕ
  landed : ℕ
  scores : List (Option ℚ)
  deriving DecidableEq

/-- One run's accumulated cost estimate; `unknown` marks an unpriced component. -/
structure CostState where
  exam : ℚ
  judge : ℚ
  unknown : Bool
  deriving DecidableEq

/-- The state behind the pipeline's lock. -/
structure Pipeline where
  aggs : AList fun _ : UnitKey => CaseAggregate
  votes : AList fun _ : SampleKey => SampleVotes
  judgePending : ℕ → ℤ
  cellsDone : ℕ → Bool
  finished : ℕ → Bool
  costs : ℕ → Option CostState
  examStarted : ℕ
  examDone : ℕ
  judgeOffered : ℕ
  judgeTaken : ℕ
  judgeDone : ℕ
  judgeOfferedByModel : ℕ → ℕ
  judgeDoneByModel : ℕ → ℕ

/-- The pipeline an execution starts with. -/
def newPipeline : Pipeline where
  aggs := ∅
  votes := ∅
  judgePending _ := 0
  cellsDone _ := false
  finished _ := false
  costs _ := none
  examStarted := 0
  examDone := 0
  judgeOffered := 0
  judgeTaken := 0
  judgeDone := 0
  judgeOfferedByModel _ := 0
  judgeDoneByModel _ := 0

/-- Sum two nullable counts; null only when both sides are null. -/
def addIntPtr : Option ℕ → Option ℕ → Option ℕ
  | none, b => b
  | a, none => a
  | some a, some b => some (a + b)

/-- Mark one sample of the aggregate settled with its median. -/
def CaseAggregate.settle (agg : CaseAggregate) (median : Option ℚ) : CaseAggregate :=
  match median with
  | some m =>
    { agg with
      settledSamples := agg.settledSamples + 1
      added := agg.added ++ [m]
      scored := agg.scored + 1 }
  | none => { agg with settledSamples := agg.settledSamples + 1 }

@[simp] theorem CaseAggregate.settle_settledSamples (agg : CaseAggregate) (median : Option ℚ) :
    (agg.settle median).settledSamples = agg.settledSamples + 1 := by
  cases median <;> rfl

@[simp] theorem CaseAggregate.settle_expectedSamples (agg : CaseAggregate) (median : Option ℚ) :
    (agg.settle median).expectedSamples = agg.expectedSamples := by
  cases median <;> rfl

/-- The sum of the scores, not rounded. -/
def CaseAggregate.scoreSum (agg : CaseAggregate) : ℚ := agg.added.sum

/-- The score of the case in an arithmetic that rounds. -/
def CaseAggregate.scoreIn (agg : CaseAggregate) (A : RoundedNumbers ℚ) : Option A.Value :=
  if agg.scored > 0 then some (A.div (A.sum agg.added) agg.scored) else none

/-- The row a completed case is written as: its score is the mean of the sample medians,
null when no sample scored. -/
def caseResult (u : UnitKey) (agg : CaseAggregate) : EvalResult where
  runId := u.runId
  modelDbId := u.modelDbId
  modelId := agg.modelId
  caseId := u.caseId
  answerText := agg.answerText
  score := if agg.scored > 0 then some (agg.scoreSum / agg.scored) else none
  verdictProfile := agg.profile
  latencyMs := agg.latencyMs
  inputTokens := agg.inputTokens
  outputTokens := agg.outputTokens

/-- The score of the row is the one of exact numbers. -/
theorem caseResult_score (u : UnitKey) (agg : CaseAggregate) :
    (caseResult u agg).score = agg.scoreIn .exact := by
  unfold caseResult CaseAggregate.scoreIn
  rw [RoundedNumbers.sum_exact]
  rfl

@[simp] theorem caseResult_unit (u : UnitKey) (agg : CaseAggregate) :
    (caseResult u agg).unit = u := rfl

namespace Pipeline

/-! ### Case aggregates -/

/-- Register a case's aggregate; a second registration is a no-op. -/
def openCase (p : Pipeline) (u : UnitKey) (modelId : String) (profile : VerdictProfile)
    (expectedSamples : ℕ) : Pipeline :=
  if u ∈ p.aggs then p
  else
    { p with
      aggs := p.aggs.insert u ⟨modelId, profile, expectedSamples, 0, [], 0, 0, none, none, none⟩ }

/-- Fold an answered sample's payload into its case aggregate. -/
def recordAnswer (p : Pipeline) (u : UnitKey) (latencyMs : ℕ)
    (inputTokens outputTokens : Option ℕ) (answerText : String) : Option Pipeline :=
  (p.aggs.lookup u).map fun agg =>
    { p with
      aggs := p.aggs.insert u
        { agg with
          latencyMs := agg.latencyMs + latencyMs
          inputTokens := addIntPtr agg.inputTokens inputTokens
          outputTokens := addIntPtr agg.outputTokens outputTokens
          answerText := agg.answerText <|> some answerText } }

/-- Settle one sample; the second component is the completed aggregate once the case's
samples are all settled. -/
def settleSample (p : Pipeline) (u : UnitKey) (median : Option ℚ) :
    Option (Pipeline × Option CaseAggregate) :=
  (p.aggs.lookup u).map fun agg =>
    let agg := agg.settle median
    -- the last sample takes the aggregate out, so a case is written once
    if agg.settledSamples = agg.expectedSamples then
      ({ p with aggs := p.aggs.erase u }, some agg)
    else ({ p with aggs := p.aggs.insert u agg }, none)

/-! ### Votes -/

/-- The lock section of `enqueueVotes`: register the votes of a sample before any of its
jobs is offered. -/
def registerVotes (p : Pipeline) (k : SampleKey) (judges : ℕ) : Pipeline :=
  { p with
    votes := p.votes.insert k ⟨judges, 0, List.replicate judges none⟩
    judgePending := Function.update p.judgePending k.unit.runId
      (p.judgePending k.unit.runId + judges)
    judgeOfferedByModel := Function.update p.judgeOfferedByModel k.unit.modelDbId
      (p.judgeOfferedByModel k.unit.modelDbId + judges) }

/-- Fold one vote into its sample; the second component is the median once the sample's
votes are all in. A sample that is not open takes no vote. -/
def landVote (p : Pipeline) (j : JudgeJob) (score : Option ℚ) :
    Pipeline × Option (Option ℚ) :=
  match p.votes.lookup j.sample with
  -- a vote for a sample that is not open lands nowhere
  | none => (p, none)
  | some sv =>
    let sv := { sv with landed := sv.landed + 1, scores := sv.scores.set j.slot score }
    if sv.landed = sv.expected then
      ({ p with votes := p.votes.erase j.sample }, some (medianOfVotes sv.scores))
    else ({ p with votes := p.votes.insert j.sample sv }, none)

/-! ### Run finish flags -/

/-- Whether the run finishes now: once, with its cells done and no vote pending. -/
def runFinishedLocked (p : Pipeline) (runId : ℕ) : Pipeline × Bool :=
  -- finished once: the two counters may meet this from either side
  if p.finished runId ∨ ¬ p.cellsDone runId ∨ p.judgePending runId ≠ 0 then (p, false)
  else ({ p with finished := Function.update p.finished runId true }, true)

/-- Drop one judge job from its run's outstanding count. -/
def decrementPending (p : Pipeline) (runId : ℕ) : Pipeline × Bool :=
  { p with
    judgePending := Function.update p.judgePending runId (p.judgePending runId - 1)
  }.runFinishedLocked runId

/-- Record that a run's exam cells are exhausted. -/
def markCellsDone (p : Pipeline) (runId : ℕ) : Pipeline × Bool :=
  { p with cellsDone := Function.update p.cellsDone runId true }.runFinishedLocked runId

section

variable {p p' : Pipeline} {u : UnitKey} {j : JudgeJob} {r : ℕ}

theorem openCase_of_mem {modelId : String} {profile : VerdictProfile} {expected : ℕ}
    (h : u ∈ p.aggs) : p.openCase u modelId profile expected = p := if_pos h

theorem openCase_of_notMem {modelId : String} {profile : VerdictProfile} {expected : ℕ}
    (h : u ∉ p.aggs) : p.openCase u modelId profile expected =
      { p with
        aggs := p.aggs.insert u ⟨modelId, profile, expected, 0, [], 0, 0, none, none, none⟩ } :=
  if_neg h

/-- The aggregate operations leave everything but the aggregates alone. -/
theorem openCase_eq (p : Pipeline) (u : UnitKey) (modelId : String) (profile : VerdictProfile)
    (expected : ℕ) : ∃ aggs, p.openCase u modelId profile expected = { p with aggs := aggs } := by
  by_cases h : u ∈ p.aggs
  · exact ⟨p.aggs, openCase_of_mem h⟩
  · exact ⟨_, openCase_of_notMem h⟩

/-- Recording an answer keeps the sample counts of the one aggregate it touches. -/
theorem recordAnswer_spec {latencyMs : ℕ} {i o : Option ℕ} {text : String}
    (h : p.recordAnswer u latencyMs i o text = some p') :
    ∃ agg agg', p.aggs.lookup u = some agg ∧ p' = { p with aggs := p.aggs.insert u agg' } ∧
      agg'.expectedSamples = agg.expectedSamples ∧
      agg'.settledSamples = agg.settledSamples := by
  obtain ⟨agg, hagg, rfl⟩ := Option.map_eq_some_iff.mp h
  exact ⟨agg, _, hagg, rfl, rfl, rfl⟩

theorem settleSample_eq {median : Option ℚ} {done : Option CaseAggregate}
    (h : p.settleSample u median = some (p', done)) : ∃ aggs, p' = { p with aggs := aggs } := by
  obtain ⟨agg, -, heq⟩ := Option.map_eq_some_iff.mp h
  dsimp only at heq
  split_ifs at heq
  · exact ⟨_, (Prod.mk.inj heq).1.symm⟩
  · exact ⟨_, (Prod.mk.inj heq).1.symm⟩

theorem settleSample_eq_none {median : Option ℚ} :
    p.settleSample u median = none ↔ p.aggs.lookup u = none := by
  simp [settleSample]

/-- Settling a sample that is not the case's last keeps the aggregate open. -/
theorem settleSample_open {median : Option ℚ} (h : p.settleSample u median = some (p', none)) :
    ∃ agg, p.aggs.lookup u = some agg ∧ agg.settledSamples + 1 ≠ agg.expectedSamples ∧
      p' = { p with aggs := p.aggs.insert u (agg.settle median) } := by
  obtain ⟨agg, hagg, heq⟩ := Option.map_eq_some_iff.mp h
  refine ⟨agg, hagg, ?_⟩
  dsimp only at heq
  split_ifs at heq with hlast
  · simp at heq
  · obtain ⟨rfl, -⟩ := Prod.mk.inj heq
    exact ⟨by simpa using hlast, rfl⟩

/-- Settling the case's last sample takes the aggregate out. -/
theorem settleSample_complete {median : Option ℚ} {done : CaseAggregate}
    (h : p.settleSample u median = some (p', some done)) :
    ∃ agg, p.aggs.lookup u = some agg ∧ agg.settledSamples + 1 = agg.expectedSamples ∧
      done = agg.settle median ∧ p' = { p with aggs := p.aggs.erase u } := by
  obtain ⟨agg, hagg, heq⟩ := Option.map_eq_some_iff.mp h
  refine ⟨agg, hagg, ?_⟩
  dsimp only at heq
  split_ifs at heq with hlast
  · obtain ⟨rfl, hdone⟩ := Prod.mk.inj heq
    exact ⟨by simpa using hlast, (Option.some.inj hdone).symm, rfl⟩
  · simp at heq

/-- Landing a vote leaves everything but the votes alone. -/
theorem landVote_eq {score : Option ℚ} {median : Option (Option ℚ)}
    (h : p.landVote j score = (p', median)) : ∃ votes, p' = { p with votes := votes } := by
  unfold landVote at h
  split at h
  · exact ⟨p.votes, (Prod.mk.inj h).1.symm⟩
  · dsimp only at h
    split_ifs at h
    · exact ⟨_, (Prod.mk.inj h).1.symm⟩
    · exact ⟨_, (Prod.mk.inj h).1.symm⟩

/-- A vote that is not its sample's last leaves the sample open. -/
theorem landVote_open {score : Option ℚ} (h : p.landVote j score = (p', none)) :
    p.votes.lookup j.sample = none ∧ p' = p ∨
      ∃ sv, p.votes.lookup j.sample = some sv ∧ sv.landed + 1 ≠ sv.expected ∧
        p' = { p with
          votes := p.votes.insert j.sample
            { sv with landed := sv.landed + 1, scores := sv.scores.set j.slot score } } := by
  unfold landVote at h
  split at h
  · rename_i hnone
    exact .inl ⟨hnone, (Prod.mk.inj h).1.symm⟩
  · rename_i sv hsv
    dsimp only at h
    split_ifs at h with hlast
    · simp at h
    · exact .inr ⟨sv, hsv, hlast, (Prod.mk.inj h).1.symm⟩

/-- The sample's last vote closes it with the median of its votes. -/
theorem landVote_complete {score : Option ℚ} {median : Option ℚ}
    (h : p.landVote j score = (p', some median)) :
    ∃ sv, p.votes.lookup j.sample = some sv ∧ sv.landed + 1 = sv.expected ∧
      median = medianOfVotes (sv.scores.set j.slot score) ∧
      p' = { p with votes := p.votes.erase j.sample } := by
  unfold landVote at h
  split at h
  · simp at h
  · rename_i sv hsv
    dsimp only at h
    split_ifs at h with hlast
    · obtain ⟨hp, hmedian⟩ := Prod.mk.inj h
      exact ⟨sv, hsv, hlast, (Option.some.inj hmedian).symm, hp.symm⟩
    · simp at h

/-- Finishing a run touches nothing but its finish flag. -/
theorem runFinishedLocked_eq (p : Pipeline) (r : ℕ) :
    ∃ finished, (p.runFinishedLocked r).1 = { p with finished := finished } := by
  unfold runFinishedLocked
  split_ifs
  · exact ⟨p.finished, rfl⟩
  · exact ⟨_, rfl⟩

@[simp] theorem markCellsDone_cellsDone (p : Pipeline) (r : ℕ) :
    (p.markCellsDone r).1.cellsDone = Function.update p.cellsDone r true := by
  obtain ⟨finished, h⟩ := runFinishedLocked_eq
    { p with cellsDone := Function.update p.cellsDone r true } r
  rw [markCellsDone, h]

@[simp] theorem markCellsDone_judgePending (p : Pipeline) (r : ℕ) :
    (p.markCellsDone r).1.judgePending = p.judgePending := by
  obtain ⟨finished, h⟩ := runFinishedLocked_eq
    { p with cellsDone := Function.update p.cellsDone r true } r
  rw [markCellsDone, h]

@[simp] theorem markCellsDone_aggs (p : Pipeline) (r : ℕ) :
    (p.markCellsDone r).1.aggs = p.aggs := by
  obtain ⟨finished, h⟩ := runFinishedLocked_eq
    { p with cellsDone := Function.update p.cellsDone r true } r
  rw [markCellsDone, h]

@[simp] theorem markCellsDone_votes (p : Pipeline) (r : ℕ) :
    (p.markCellsDone r).1.votes = p.votes := by
  obtain ⟨finished, h⟩ := runFinishedLocked_eq
    { p with cellsDone := Function.update p.cellsDone r true } r
  rw [markCellsDone, h]

@[simp] theorem decrementPending_judgePending (p : Pipeline) (r : ℕ) :
    (p.decrementPending r).1.judgePending =
      Function.update p.judgePending r (p.judgePending r - 1) := by
  obtain ⟨finished, h⟩ := runFinishedLocked_eq
    { p with judgePending := Function.update p.judgePending r (p.judgePending r - 1) } r
  rw [decrementPending, h]

@[simp] theorem decrementPending_cellsDone (p : Pipeline) (r : ℕ) :
    (p.decrementPending r).1.cellsDone = p.cellsDone := by
  obtain ⟨finished, h⟩ := runFinishedLocked_eq
    { p with judgePending := Function.update p.judgePending r (p.judgePending r - 1) } r
  rw [decrementPending, h]

@[simp] theorem decrementPending_aggs (p : Pipeline) (r : ℕ) :
    (p.decrementPending r).1.aggs = p.aggs := by
  obtain ⟨finished, h⟩ := runFinishedLocked_eq
    { p with judgePending := Function.update p.judgePending r (p.judgePending r - 1) } r
  rw [decrementPending, h]

@[simp] theorem decrementPending_votes (p : Pipeline) (r : ℕ) :
    (p.decrementPending r).1.votes = p.votes := by
  obtain ⟨finished, h⟩ := runFinishedLocked_eq
    { p with judgePending := Function.update p.judgePending r (p.judgePending r - 1) } r
  rw [decrementPending, h]

/-- A run finishes at most once, with its cells done and no vote pending. -/
theorem runFinishedLocked_spec :
    (p.runFinishedLocked r).2 = false ∧ (p.runFinishedLocked r).1 = p ∨
      (p.runFinishedLocked r).2 = true ∧ p.finished r = false ∧ p.cellsDone r = true ∧
        p.judgePending r = 0 ∧
        (p.runFinishedLocked r).1 = { p with finished := Function.update p.finished r true } := by
  unfold runFinishedLocked
  split_ifs with h
  · exact .inl ⟨rfl, rfl⟩
  · obtain ⟨hfinished, hrest⟩ := not_or.mp h
    obtain ⟨hcells, hpending⟩ := not_or.mp hrest
    exact .inr ⟨rfl, by simpa using hfinished, by simpa using hcells, by simpa using hpending, rfl⟩

theorem runFinishedLocked_finished (p : Pipeline) (r r' : ℕ) :
    (p.runFinishedLocked r).1.finished r' =
      (p.finished r' || (decide (r' = r) && (p.runFinishedLocked r).2)) := by
  rcases runFinishedLocked_spec (p := p) (r := r) with ⟨hlast, heq⟩ | ⟨hlast, -, -, -, heq⟩
  · simp [hlast, heq]
  · by_cases hr : r' = r <;> simp [hlast, heq, hr]

theorem markCellsDone_finished (p : Pipeline) (r r' : ℕ) :
    (p.markCellsDone r).1.finished r' =
      (p.finished r' || (decide (r' = r) && (p.markCellsDone r).2)) :=
  runFinishedLocked_finished _ r r'

theorem decrementPending_finished (p : Pipeline) (r r' : ℕ) :
    (p.decrementPending r).1.finished r' =
      (p.finished r' || (decide (r' = r) && (p.decrementPending r).2)) :=
  runFinishedLocked_finished _ r r'

/-- Marking finishes a run only with no vote pending. -/
theorem judgePending_of_markCellsDone (h : (p.markCellsDone r).2 = true) :
    p.judgePending r = 0 := by
  unfold markCellsDone at h
  rcases runFinishedLocked_spec
    (p := { p with cellsDone := Function.update p.cellsDone r true }) (r := r)
    with ⟨hlast, -⟩ | ⟨-, -, -, hpending, -⟩
  · simp [hlast] at h
  · exact hpending

/-- The last vote finishes a run only with its cells done. -/
theorem cellsDone_of_decrementPending (h : (p.decrementPending r).2 = true) :
    p.cellsDone r = true ∧ p.judgePending r - 1 = 0 := by
  unfold decrementPending at h
  rcases runFinishedLocked_spec
    (p := { p with judgePending := Function.update p.judgePending r (p.judgePending r - 1) })
    (r := r) with ⟨hlast, -⟩ | ⟨-, -, hcells, hpending, -⟩
  · simp [hlast] at h
  · exact ⟨hcells, by simpa using hpending⟩

end

/-! ### Costs -/

/-- The price of one call; a hub that reports no usage contributes zero tokens. -/
def callCostUSD (price : String → Option (ℚ × ℚ)) (modelId : String)
    (inputTokens outputTokens : Option ℕ) : Option ℚ :=
  (price modelId).map fun (priceIn, priceOut) =>
    (inputTokens.getD 0 * priceIn + outputTokens.getD 0 * priceOut) / 1000000

/-- The run's cost accumulator, created on first use. -/
def costFor (p : Pipeline) (runId : ℕ) : CostState := (p.costs runId).getD ⟨0, 0, false⟩

/-- Fold one answer call's cost into the run. -/
def recordExamCost (p : Pipeline) (runId : ℕ) (cost : Option ℚ) : Pipeline :=
  let cs := p.costFor runId
  { p with
    costs := Function.update p.costs runId <| some <|
      match cost with
      | some c => { cs with exam := cs.exam + c }
      -- one call without a price and the run has no known cost
      | none => { cs with unknown := true } }

/-- Fold one jury call's cost into the run. -/
def recordJudgeCost (p : Pipeline) (runId : ℕ) (cost : Option ℚ) : Pipeline :=
  let cs := p.costFor runId
  { p with
    costs := Function.update p.costs runId <| some <|
      match cost with
      | some c => { cs with judge := cs.judge + c }
      | none => { cs with unknown := true } }

end Pipeline

/-- What `flushCosts` persists for a run: null when some component was unpriceable. -/
def CostState.stored (cs : CostState) : Option (ℚ × ℚ) :=
  if cs.unknown then none else some (cs.exam, cs.judge)

end HubScope
