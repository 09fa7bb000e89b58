import HubScope.Store.Tables
import Mathlib.Data.List.Sort

/-!
# Store calls of the evaluation subsystem

One function per store call, each a single atomic statement or transaction. Only
`SettleCampaign` is two statements, a SELECT and an UPDATE, and is given as two functions.

## Main definitions

* `Store.hasUnfinishedCampaign` — the cross-campaign mutex every start checks
* `Store.createCampaign`, `Store.createEvalRun` — what a batch inserts
* `Store.reopenCampaignForRetry` and its siblings — the settled → running migrations
* `Store.settleVerdict`, `Store.settleUpdate` — the two halves of settling a campaign
* `Store.deleteNullScoreResult`, `Store.deleteUnitResult`, `Store.createEvalResult` — the
  result grid
-/

namespace HubScope.Store

/-! ### Campaigns -/

/-- A campaign by id. -/
def getCampaign (st : Store) (id : ℕ) : Option Campaign := st.campaigns.find? (·.id = id)

/-- Whether any campaign is still pending or running. -/
def hasUnfinishedCampaign (st : Store) : Bool := st.campaigns.any fun c => !c.status.terminal

/-- Insert a running campaign and its membership. Repeated model ids collapse onto the
membership's primary key. -/
def createCampaign (st : Store) (modelIds : List ℕ) : Store × ℕ :=
  let id := st.campaignSeq + 1
  ({ st with
      campaigns := st.campaigns ++ [⟨id, .running⟩]
      campaignModels := st.campaignModels ++ modelIds.dedup.map fun m => (id, m)
      campaignSeq := id }, id)

/-- The transaction the four reopen calls share: migrate the campaign from a terminal
state to running and, with it, its terminal member runs that `rejoin`. `none` when the
campaign is not settled. -/
def reopenCampaign (st : Store) (id : ℕ) (rejoin : EvalRun → Bool) : Option Store :=
  if st.campaigns.any fun c => c.id = id ∧ c.status.terminal then
    some { st with
      campaigns := st.campaigns.map fun c =>
        if c.id = id ∧ c.status.terminal then { c with status := .running } else c
      runs := st.runs.map fun r =>
        if r.campaignId = id ∧ r.status.terminal ∧ rejoin r then { r with status := .running }
        else r }
  else none

/-- Runs holding a null-score result rejoin execution. -/
def reopenCampaignForRetry (st : Store) (id : ℕ) : Option Store :=
  st.reopenCampaign id fun r => st.results.any fun res => res.runId = r.id ∧ res.score = none

/-- Runs holding one of the requested units with a null score rejoin execution. -/
def reopenCampaignForUnitRetry (st : Store) (id : ℕ) (units : List RetryUnit) : Option Store :=
  st.reopenCampaign id fun r => st.results.any fun res =>
    res.runId = r.id ∧ res.score = none ∧ res.unit.retryUnit ∈ units

/-- Runs holding one of the requested units rejoin execution, whatever its score. -/
def reopenCampaignForUnitRetryAny (st : Store) (id : ℕ) (units : List RetryUnit) :
    Option Store :=
  st.reopenCampaign id fun r => st.results.any fun res =>
    res.runId = r.id ∧ res.unit.retryUnit ∈ units

/-- The listed runs rejoin execution. -/
def reopenCampaignRuns (st : Store) (id : ℕ) (runIds : List ℕ) : Option Store :=
  st.reopenCampaign id fun r => r.id ∈ runIds

/-- The SELECT of `SettleCampaign`: the terminal status the member runs add up to, `none`
while one of them is still running. -/
def settleVerdict (st : Store) (id : ℕ) : Option Status :=
  let members := st.runs.filter (·.campaignId = id)
  if members.any (·.status = .running) then none
  else if members = [] ∨ members.any (·.status = .failed) then some .failed
  else some .done

/-- The UPDATE of `SettleCampaign`: an already terminal campaign is never rewritten. -/
def settleUpdate (st : Store) (id : ℕ) (status : Status) : Store :=
  { st with
    campaigns := st.campaigns.map fun c =>
      if c.id = id ∧ ¬ c.status.terminal then { c with status := status } else c }

/-- Mark a campaign without runs done. -/
def settleEmptyCampaign (st : Store) (id : ℕ) : Store :=
  if st.runs.any (·.campaignId = id) then st else st.settleUpdate id .done

/-- The campaign's members that still exist and are not retired, ordered by model id. -/
def listCampaignMembers (st : Store) (id : ℕ) : List Model :=
  (st.models.filter fun m => (id, m.id) ∈ st.campaignModels ∧ ¬ m.retired).insertionSort
    fun a b => a.modelId ≤ b.modelId

/-! ### Suites, cases and models -/

def getModel (st : Store) (id : ℕ) : Option Model := st.models.find? (·.id = id)

/-- The active chat models of the evaluation rotation that have an enabled endpoint. -/
def listActiveChatModelIDs (st : Store) (hasEndpoint : ℕ → Bool) : List ℕ :=
  (st.models.filter fun m =>
    ¬ m.retired ∧ m.capability = .chat ∧ m.evalEnabled ∧ hasEndpoint m.id).map (·.id)

def getSuite (st : Store) (id : ℕ) : Option Suite := st.suites.find? (·.id = id)

def listEnabledSuites (st : Store) : List Suite := st.suites.filter (·.enabled)

def getCase (st : Store) (id : ℕ) : Option Case := st.cases.find? (·.id = id)

def listEnabledCases (st : Store) (suiteId : ℕ) : List Case :=
  st.cases.filter fun c => c.suiteId = suiteId ∧ c.enabled

/-! ### Eval runs -/

def getEvalRun (st : Store) (id : ℕ) : Option EvalRun := st.runs.find? (·.id = id)

def listEvalRunsByCampaign (st : Store) (id : ℕ) : List EvalRun :=
  st.runs.filter (·.campaignId = id)

/-- Insert a running run under the campaign. -/
def createEvalRun (st : Store) (campaignId suiteId : ℕ) (judgeModel : String) :
    Store × EvalRun :=
  let run : EvalRun := ⟨st.runSeq + 1, campaignId, suiteId, judgeModel, .running, none, none⟩
  ({ st with runs := st.runs ++ [run], runSeq := run.id }, run)

/-- Rewrite the run with the given id. -/
def updateRun (st : Store) (id : ℕ) (f : EvalRun → EvalRun) : Store :=
  { st with runs := st.runs.map fun r => if r.id = id then f r else r }

def finishEvalRun (st : Store) (id : ℕ) (status : Status) : Store :=
  st.updateRun id fun r => { r with status := status }

def setEvalRunJudgeModel (st : Store) (id : ℕ) (judgeModel : String) : Store :=
  st.updateRun id fun r => { r with judgeModel := judgeModel }

def setEvalRunJuryModels (st : Store) (id : ℕ) (juries : List (ℕ × List String)) : Store :=
  st.updateRun id fun r => { r with juryModels := some juries }

/-- Store a run's cost split; a missing portion nulls the estimate. -/
def setEvalRunCost (st : Store) (id : ℕ) (cost : Option (ℚ × ℚ)) : Store :=
  st.updateRun id fun r => { r with estimatedCost := cost }

/-! ### The result grid -/

def listEvalResults (st : Store) (runId : ℕ) : List EvalResult :=
  st.results.filter (·.runId = runId)

/-- The units with a null score in a run, ordered by model then case. -/
def listNullScoreCells (st : Store) (runId : ℕ) : List RetryUnit :=
  let nulls := st.results.filter fun r => r.runId = runId ∧ r.score = none
  (nulls.map (·.unit.retryUnit)).insertionSort fun a b =>
    a.modelDbId < b.modelDbId ∨ a.modelDbId = b.modelDbId ∧ a.caseId ≤ b.caseId

/-- How many null-score results the campaign's runs hold. -/
def countCampaignNullScoreResults (st : Store) (id : ℕ) : ℕ :=
  st.results.countP fun res =>
    res.score = none ∧ st.runs.any fun r => r.id = res.runId ∧ r.campaignId = id

/-- The requested units that hold a result row of any score in the campaign. -/
def campaignAnsweredUnits (st : Store) (id : ℕ) (units : List RetryUnit) : List RetryUnit :=
  units.filter fun u => st.results.any fun res =>
    res.unit.retryUnit = u ∧ st.runs.any fun r => r.id = res.runId ∧ r.campaignId = id

/-- Remove the null-score rows of a unit; a scored row is never touched. -/
def deleteNullScoreResult (st : Store) (u : UnitKey) : Store :=
  { st with results := st.results.filter fun r => ¬ (r.unit = u ∧ r.score = none) }

/-- Remove every row of a unit, whatever its score. -/
def deleteUnitResult (st : Store) (u : UnitKey) : Store :=
  { st with results := st.results.filter fun r => r.unit ≠ u }

def createEvalResult (st : Store) (r : EvalResult) : Store :=
  { st with results := st.results ++ [r] }

def createEvalResultsBatch (st : Store) (rs : List EvalResult) : Store :=
  { st with results := st.results ++ rs }

/-! ### Answers and judge scores -/

/-- Insert an answer attempt, numbered after the attempts its sample already has. -/
def createEvalAnswer (st : Store) (a : EvalAnswer) : Store × ℕ :=
  let earlier := st.answers.filter fun b => b.unit = a.unit ∧ b.sampleNo = a.sampleNo
  let attempt := (earlier.map (·.attempt)).foldr max 0 + 1
  let id := st.answerSeq + 1
  ({ st with answers := st.answers ++ [{ a with id := id, attempt := attempt }], answerSeq := id },
    id)

/-- Insert a judge score; the unique index on (answer, slot) rejects a second row. -/
def createEvalJudgeScore (st : Store) (s : EvalJudgeScore) : Store :=
  if st.judgeScores.any fun t => t.answerId = s.answerId ∧ t.slot = s.slot then st
  else { st with judgeScores := st.judgeScores ++ [s] }

/-- A judge score touches no other table. -/
theorem createEvalJudgeScore_eq (st : Store) (s : EvalJudgeScore) :
    ∃ rows, st.createEvalJudgeScore s = { st with judgeScores := rows } := by
  unfold createEvalJudgeScore
  split
  · exact ⟨st.judgeScores, rfl⟩
  · exact ⟨_, rfl⟩

theorem subset_createEvalJudgeScore (st : Store) (s : EvalJudgeScore) :
    st.judgeScores ⊆ (st.createEvalJudgeScore s).judgeScores := by
  unfold createEvalJudgeScore
  split
  · exact List.Subset.refl _
  · exact List.subset_append_left ..

def listJudgeScoresByAnswer (st : Store) (answerId : ℕ) : List EvalJudgeScore :=
  st.judgeScores.filter (·.answerId = answerId)

/-- A run's answers ordered by model, case and sample. -/
def listEvalAnswersByRun (st : Store) (runId : ℕ) : List EvalAnswer :=
  (st.answers.filter (·.runId = runId)).insertionSort fun a b =>
    a.modelDbId < b.modelDbId ∨ a.modelDbId = b.modelDbId ∧
      (a.caseId < b.caseId ∨ a.caseId = b.caseId ∧ a.sampleNo ≤ b.sampleNo)

/-! ### Rows of a unit -/

/-- How many result rows a unit has. -/
def rowCount (st : Store) (u : UnitKey) : ℕ := st.results.countP (·.unit = u)

end HubScope.Store
