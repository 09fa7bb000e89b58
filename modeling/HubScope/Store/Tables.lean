import Mathlib.Data.List.Sort
import Mathlib.Data.Rat.Defs

/-!
# The evaluation tables

The SQLite tables the evaluation subsystem reads and writes, one record type per table and
one function per store call. The store runs on a single connection, so a call is atomic; a
table is a list in id order, which is insertion order. Columns no modelled function reads
are left out.

Scores and prices are exact rationals here.

## Main definitions

* `Status` — the status vocabulary of campaigns and eval runs
* `Campaign`, `EvalRun`, `Case`, `EvalResult`, `EvalAnswer`, `EvalJudgeScore` — the rows
* `Store` — the tables and their id sequences
* `RetryUnit`, `UnitKey` — a (model, case) unit, and one inside a run
-/

namespace HubScope

/-- The status vocabulary shared by `campaigns.status` and `eval_runs.status`. -/
inductive Status
  | pending
  | running
  | done
  | failed
  deriving DecidableEq, Repr

/-- Done and failed are the terminal states. -/
def Status.terminal : Status → Bool
  | .pending | .running => false
  | .done | .failed => true

@[simp] theorem Status.terminal_pending : Status.pending.terminal = false := rfl

@[simp] theorem Status.terminal_running : Status.running.terminal = false := rfl

@[simp] theorem Status.terminal_done : Status.done.terminal = true := rfl

@[simp] theorem Status.terminal_failed : Status.failed.terminal = true := rfl

/-- The capability tag of a model. -/
inductive Capability
  | chat
  | nonChat
  | image
  | video
  deriving DecidableEq, Repr

/-- A `models` row. -/
structure Model where
  id : ℕ
  modelId : String
  capability : Capability
  retired : Bool
  evalEnabled : Bool
  deriving DecidableEq, Repr

/-- A `suites` row. -/
structure Suite where
  id : ℕ
  enabled : Bool
  deriving DecidableEq, Repr

/-- How a case's answer is scored. -/
inductive VerdictType
  | rule
  | judge
  deriving DecidableEq, Repr

/-- A `cases` row. `sampleCount` overrides the configured default sample count. -/
structure Case where
  id : ℕ
  suiteId : ℕ
  verdictType : VerdictType
  sampleCount : Option ℕ
  enabled : Bool
  deriving DecidableEq, Repr

/-- A `campaigns` row. -/
structure Campaign where
  id : ℕ
  status : Status
  deriving DecidableEq, Repr

/-- An `eval_runs` row. `juryModels` is the decoded jury snapshot: the judges of each
evaluated model; `none` is a run without a snapshot. `estimatedCost` splits the estimate
into its exam and judge portions. -/
structure EvalRun where
  id : ℕ
  campaignId : ℕ
  suiteId : ℕ
  judgeModel : String
  status : Status
  juryModels : Option (List (ℕ × List String))
  estimatedCost : Option (ℚ × ℚ)
  deriving DecidableEq

/-- One (model, case) unit a targeted retry is asked to re-evaluate. -/
structure RetryUnit where
  modelDbId : ℕ
  caseId : ℕ
  deriving DecidableEq, Repr

/-- One (run, model, case) unit of the result grid. -/
structure UnitKey where
  runId : ℕ
  modelDbId : ℕ
  caseId : ℕ
  deriving DecidableEq, Repr

/-- The unit of a run's grid as a retry request names it. -/
def UnitKey.retryUnit (u : UnitKey) : RetryUnit := ⟨u.modelDbId, u.caseId⟩

/-- The scoring caliber a result row carries. -/
inductive VerdictProfile
  | v1
  | v2
  | v3
  deriving DecidableEq, Repr

/-- An `eval_results` row. `score` is null when the case could not be judged. -/
structure EvalResult where
  runId : ℕ
  modelDbId : ℕ
  modelId : String
  caseId : ℕ
  answerText : Option String
  score : Option ℚ
  verdictProfile : VerdictProfile
  latencyMs : ℕ
  inputTokens : Option ℕ
  outputTokens : Option ℕ
  deriving DecidableEq

/-- The unit a result row belongs to. -/
def EvalResult.unit (r : EvalResult) : UnitKey := ⟨r.runId, r.modelDbId, r.caseId⟩

/-- Whether an answer attempt got an answer. -/
inductive AnswerStatus
  | answered
  | failed
  deriving DecidableEq, Repr

/-- An `eval_answers` row: one persisted answer attempt. -/
structure EvalAnswer where
  id : ℕ
  runId : ℕ
  modelDbId : ℕ
  modelId : String
  caseId : ℕ
  sampleNo : ℕ
  attempt : ℕ
  status : AnswerStatus
  answerText : Option String
  latencyMs : ℕ
  inputTokens : Option ℕ
  outputTokens : Option ℕ
  deriving DecidableEq

/-- The unit an answer row belongs to. -/
def EvalAnswer.unit (a : EvalAnswer) : UnitKey := ⟨a.runId, a.modelDbId, a.caseId⟩

/-- An `eval_judge_scores` row: one jury member's verdict on one answer. `score` is null
when the judge call failed. -/
structure EvalJudgeScore where
  answerId : ℕ
  slot : ℕ
  judgeModel : String
  score : Option ℚ
  inputTokens : Option ℕ
  outputTokens : Option ℕ
  deriving DecidableEq

/-- The evaluation tables with the sequences that number campaigns, runs and answers. -/
structure Store where
  models : List Model
  suites : List Suite
  cases : List Case
  campaigns : List Campaign
  campaignModels : List (ℕ × ℕ)
  runs : List EvalRun
  results : List EvalResult
  answers : List EvalAnswer
  judgeScores : List EvalJudgeScore
  campaignSeq : ℕ
  runSeq : ℕ
  answerSeq : ℕ

end HubScope
