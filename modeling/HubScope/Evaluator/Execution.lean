import HubScope.Evaluator.Pipeline

/-!
# One execution of a campaign: feeder, exam workers, judge workers

The cell pool and the judge pool of one execution as a step function over the threads'
program points. A step is one store call, one lock section, one channel rendezvous or one
read of the context, so every interleaving of the goroutines is a sequence of labels.
Answer calls, judge calls and the setup reads of a cell are labels that carry their
outcome; the operator's cancel and the budget deadline are labels of the environment.

The four drivers differ in what they do around a cell: a `Path` names the driver, a `Plan`
the cells it computed.

## Main definitions

* `Path`, `Plan`, `Env` — which driver runs, what it runs, and the settings it reads
* `ExamPc`, `JudgePc`, `MainPc` — the program points of the three kinds of goroutine
* `Shared`, `Exec`, `State` — the memory of an execution, and the execution over the store
* `step` — one step of an execution; no step is enabled after a crash
* `Plan.start` — the state an execution starts in
-/

namespace HubScope

/-- Consecutive unanswered cases after which a model's remaining cases are stamped. -/
def circuitBreakerThreshold : ℕ := 5

/-- Completed cells after which an all-dead batch is aborted. -/
def campaignAbortCells : ℕ := 3

/-! ### What is executed -/

/-- The driver of an execution. `retryAnsweredUnits` carries its `settled` argument: a live
retry (`false`) lands results into a batch that owns its runs. -/
inductive Path
  | executePrepared
  | retryNullScoreCells
  | retryAnsweredUnits (settled : Bool)
  | resumeCampaign
  deriving DecidableEq, Repr

/-- The cell job a driver hands to the pool. -/
inductive Driver
  | evalModel
  | retryModel
  | retryModelAny
  deriving DecidableEq, Repr

namespace Path

def driver : Path → Driver
  | executePrepared => .evalModel
  | retryNullScoreCells => .retryModel
  | retryAnsweredUnits _ => .retryModelAny
  | resumeCampaign => .retryModelAny

/-- Only a batch runs under the budget and the all-dead abort. -/
def guarded : Path → Bool
  | executePrepared => true
  | _ => false

/-- Whether the driver counts a run's remaining cells before marking them done. -/
def countsCells : Path → Bool
  | executePrepared | retryNullScoreCells => true
  | retryAnsweredUnits _ | resumeCampaign => false

/-- Whether the driver finishes its runs and settles the campaign. -/
def finishesRuns : Path → Bool
  | retryAnsweredUnits settled => settled
  | _ => true

end Path

/-- One run against one model, with the cases to ask. -/
structure Cell where
  run : EvalRun
  modelDbId : ℕ
  cases : List Case
  deriving DecidableEq

/-- The units of a cell, one per case. -/
def Cell.units (cell : Cell) : List UnitKey :=
  cell.cases.map fun c => ⟨cell.run.id, cell.modelDbId, c.id⟩

/-- What a driver computed before it starts the pools: the campaign, the runs it will
finish and the cells in feed order. -/
structure Plan where
  path : Path
  campaignId : ℕ
  runs : List ℕ
  cells : List Cell

/-- The settings an execution resolves once, clamped to their ranges, the rule scorer and
the price table. -/
structure Env where
  defaultSamples : ℕ
  evalConcurrency : ℕ
  judgeConcurrency : ℕ
  defaultSamples_pos : 0 < defaultSamples
  evalConcurrency_pos : 0 < evalConcurrency
  judgeConcurrency_pos : 0 < judgeConcurrency
  ruleVerdict : Case → String → VerdictProfile → Option ℚ
  price : String → Option (ℚ × ℚ)

/-- The sample count of a case: its own when set to at least one, else the default. -/
def Env.samples (env : Env) (c : Case) : ℕ :=
  match c.sampleCount with
  | some n => if 1 ≤ n then n else env.defaultSamples
  | none => env.defaultSamples

theorem Env.samples_pos (env : Env) (c : Case) : 0 < env.samples c := by
  unfold Env.samples
  split
  · split
    · omega
    · exact env.defaultSamples_pos
  · exact env.defaultSamples_pos

/-- The judges of one model from the run's jury snapshot; a run without one falls back to
its single judge model. The second component tells whether a snapshot exists. -/
def judgesFor (run : EvalRun) (modelDbId : ℕ) : List String × Bool :=
  match run.juryModels with
  | none => ([run.judgeModel], false)
  | some juries => ((juries.lookup modelDbId).getD [], true)

/-- The caliber a case is scored under. -/
def caseProfile (run : EvalRun) (modelDbId : ℕ) (c : Case) : VerdictProfile :=
  if c.verdictType = .judge ∧ (judgesFor run modelDbId).2 then .v3 else .v2

/-! ### Outcomes of calls -/

/-- What the setup reads of a cell find. -/
inductive SetupOutcome
  | modelNotFound
  | retired
  | hubNotFound (modelId : String)
  | endpointsUnloadable (modelId : String)
  | noEndpoint (modelId : String)
  | endpointsDown (modelId : String)
  | ready (modelId : String)
  deriving DecidableEq, Repr

/-- The model id `evalModel` stamps a setup failure with; `none` is no failure stamp. -/
def SetupOutcome.stampId : SetupOutcome → Option String
  | modelNotFound => some ""
  | hubNotFound m | endpointsUnloadable m | noEndpoint m => some m
  | retired | endpointsDown _ | ready _ => none

/-- An answer call with its one retry. -/
inductive AnswerOutcome
  | answered (text : String) (latencyMs : ℕ) (inputTokens outputTokens : Option ℕ)
  | failed (latencyMs : ℕ) (inputTokens outputTokens : Option ℕ)
  deriving DecidableEq, Repr

/-- A judge call. `cutOff` is a call that failed because its context was canceled. -/
inductive JudgeOutcome
  | scored (score : ℚ) (inputTokens outputTokens : Option ℕ)
  | failed (inputTokens outputTokens : Option ℕ)
  | cutOff (inputTokens outputTokens : Option ℕ)
  deriving DecidableEq

namespace JudgeOutcome

/-- The score stored for the slot; a failed call leaves it null. -/
def score : JudgeOutcome → Option ℚ
  | scored q _ _ => some q
  | failed _ _ | cutOff _ _ => none

def inputTokens : JudgeOutcome → Option ℕ
  | scored _ i _ | failed i _ | cutOff i _ => i

def outputTokens : JudgeOutcome → Option ℕ
  | scored _ _ o | failed _ o | cutOff _ o => o

end JudgeOutcome

/-! ### Program points -/

/-- A cell past its setup: `rest` are the cases not yet begun. -/
structure CellCursor where
  cell : Cell
  modelId : String
  answered : Bool
  consecutiveFailed : ℕ
  rest : List Case
  deriving DecidableEq

/-- The units of a cell not yet begun. -/
def CellCursor.todo (l : CellCursor) : List UnitKey :=
  ({ l.cell with cases := l.rest } : Cell).units

/-- A case being asked: `rest` of the cell are the cases after it. -/
structure SampleCursor where
  inCell : CellCursor
  case : Case
  sampleNo : ℕ
  answered : Bool
  deriving DecidableEq

/-- The unit being asked. -/
def SampleCursor.unit (k : SampleCursor) : UnitKey :=
  ⟨k.inCell.cell.run.id, k.inCell.cell.modelDbId, k.case.id⟩

/-- The sample being asked. -/
def SampleCursor.sample (k : SampleCursor) : SampleKey := ⟨k.unit, k.sampleNo⟩

def SampleCursor.judges (k : SampleCursor) : List String :=
  (judgesFor k.inCell.cell.run k.inCell.cell.modelDbId).1

def SampleCursor.profile (k : SampleCursor) : VerdictProfile :=
  caseProfile k.inCell.cell.run k.inCell.cell.modelDbId k.case

/-- Where an exam worker stands. -/
inductive ExamPc
  | check
  | select
  | setup (cell : Cell)
  | nextCase (l : CellCursor)
  | openCase (k : SampleCursor)
  | call (k : SampleCursor)
  | persist (k : SampleCursor) (o : AnswerOutcome)
  | record (k : SampleCursor) (o : AnswerOutcome) (answerId : ℕ)
  | settle (k : SampleCursor) (median : Option ℚ)
  | write (k : SampleCursor) (agg : CaseAggregate)
  | enqueue (k : SampleCursor) (answerId : ℕ)
  | offer (k : SampleCursor) (jobs : List JudgeJob)
  | noteOffered (k : SampleCursor) (jobs : List JudgeJob)
  | stamp (cell : Cell) (modelId : String) (cases : List Case) (answered : Bool)
  | report (cell : Cell) (answered : Bool)
  | mark (runId : ℕ)
  | finish (runId : ℕ)
  | exited
  deriving DecidableEq

/-- Where a judge worker stands. -/
inductive JudgePc
  | check
  | select
  | take (j : JudgeJob)
  | call (j : JudgeJob)
  | record (j : JudgeJob) (o : JudgeOutcome)
  | land (j : JudgeJob) (score : Option ℚ)
  | settle (j : JudgeJob) (median : Option ℚ)
  | write (j : JudgeJob) (agg : CaseAggregate)
  | decrement (j : JudgeJob)
  | finish (j : JudgeJob)
  | noteDone (j : JudgeJob)
  | exited
  deriving DecidableEq

/-- Where the driver's own goroutine stands: it feeds the cells, closes both pools in
turn, stores the costs, fails what is unfinished and settles the campaign. -/
inductive MainPc
  | begin (runs : List ℕ)
  | beginFinish (runId : ℕ) (runs : List ℕ)
  | feed (cells : List Cell)
  | offer (cell : Cell) (cells : List Cell)
  | wait
  | drain
  | flush (runs : List ℕ)
  | tail (runs : List ℕ)
  | settleSelect
  | settleUpdate (status : Status)
  | returned
  deriving DecidableEq

/-- The cells the driver has not handed out. -/
def Plan.left (plan : Plan) : MainPc → List Cell
  | .begin _ | .beginFinish _ _ => plan.cells
  | .feed cells => cells
  | .offer cell cells => cell :: cells
  | _ => []

/-! ### State -/

/-- What an execution did so far; no step reads it. `ended` are the cells whose job
returned, `skipped` the cells whose setup failed without a stamp, `unfed` the cells the
feeder dropped; `started`, `written` and `lost` the units it took up, stored a row for and
will not take up; `enqueued`, `dropped` and `verdicts` the votes it registered, did not
offer and stored. -/
structure History where
  ended : List Cell
  skipped : List Cell
  unfed : List Cell
  started : List UnitKey
  written : List UnitKey
  lost : List UnitKey
  enqueued : List JudgeJob
  dropped : List JudgeJob
  verdicts : List (JudgeJob × JudgeOutcome)

/-- The memory the goroutines of an execution share. `canceled` is the context's error,
`expired` the passed budget deadline, the closed flags the two channels. -/
structure Shared where
  pipe : Pipeline
  canceled : Bool
  expired : Bool
  cellsClosed : Bool
  jobsClosed : Bool
  panicked : Bool
  remaining : ℕ → ℕ
  completed : ℕ
  dead : ℕ
  hist : History

/-- An execution: its memory and its goroutines. -/
structure Exec where
  mem : Shared
  exam : List ExamPc
  judge : List JudgePc
  main : MainPc

/-- An execution over the store. -/
structure State extends Exec where
  store : Store

/-- What a label decides for an exam worker: the outcome of the call it is at, if any. -/
inductive ExamChoice
  | go
  | setup (o : SetupOutcome)
  | answer (o : AnswerOutcome)
  deriving DecidableEq, Repr

/-- What a label decides for a judge worker. -/
inductive JudgeChoice
  | go
  | verdict (o : JudgeOutcome)
  deriving DecidableEq

/-- The labels of an execution: a goroutine's step, a rendezvous on one of the two
channels, the cancellation of the context from outside, the budget deadline passing. -/
inductive Label
  | main
  | exam (i : ℕ) (c : ExamChoice)
  | judge (j : ℕ) (c : JudgeChoice)
  | handCell (i : ℕ)
  | handJob (i j : ℕ)
  | cancel
  | expire
  deriving DecidableEq

/-! ### Exam workers -/

/-- The guard of a batch's pools: the campaign budget is spent. -/
def budgetExceeded (plan : Plan) (m : Shared) : Bool := plan.path.guarded && m.expired

/-- The row `failAllCases` stamps a case with. -/
def failedResult (run : EvalRun) (modelDbId : ℕ) (modelId : String) (c : Case) : EvalResult where
  runId := run.id
  modelDbId := modelDbId
  modelId := modelId
  caseId := c.id
  answerText := none
  score := none
  verdictProfile := .v2
  latencyMs := 0
  inputTokens := none
  outputTokens := none

/-- The program point after a case: `evalModel` counts consecutive unanswered cases and
opens the circuit at the threshold. -/
def caseDone (plan : Plan) (k : SampleCursor) : ExamPc :=
  let l := k.inCell
  match plan.path.driver with
  | .evalModel =>
    if k.answered then .nextCase { l with answered := true, consecutiveFailed := 0 }
    else if circuitBreakerThreshold ≤ l.consecutiveFailed + 1 ∧ l.rest ≠ [] then
      .stamp l.cell l.modelId l.rest l.answered
    else .nextCase { l with consecutiveFailed := l.consecutiveFailed + 1 }
  | .retryModel | .retryModelAny => .nextCase l

/-- The program point after a sample of the case. -/
def sampleDone (env : Env) (plan : Plan) (k : SampleCursor) : ExamPc :=
  if k.sampleNo < env.samples k.case then .call { k with sampleNo := k.sampleNo + 1 }
  else caseDone plan k

/-- The answer row an answer attempt is persisted as; the store numbers it. -/
def answerRow (k : SampleCursor) (o : AnswerOutcome) : EvalAnswer :=
  let base : EvalAnswer :=
    { id := 0, runId := k.inCell.cell.run.id, modelDbId := k.inCell.cell.modelDbId
      modelId := k.inCell.modelId, caseId := k.case.id, sampleNo := k.sampleNo, attempt := 0
      status := .failed, answerText := none, latencyMs := 0, inputTokens := none
      outputTokens := none }
  match o with
  | .answered text latencyMs i o =>
    { base with
      status := .answered, answerText := some text, latencyMs := latencyMs, inputTokens := i
      outputTokens := o }
  | .failed latencyMs i o =>
    { base with latencyMs := latencyMs, inputTokens := i, outputTokens := o }

/-- The jobs of one answered sample, one per judge in slot order. -/
def jobsOf (k : SampleCursor) (answerId : ℕ) : List JudgeJob :=
  k.judges.zipIdx.map fun (judgeModel, slot) =>
    ⟨k.unit, answerId, k.sampleNo, slot, judgeModel⟩

/-- Where an answered sample goes: rule samples settle inline, judge samples fan out to the
jury, and without a jury they settle unscored. -/
def routeSample (env : Env) (k : SampleCursor) (answerId : ℕ) (text : String) : ExamPc :=
  match k.case.verdictType with
  | .rule => .settle k (env.ruleVerdict k.case text k.profile)
  | .judge => if k.judges = [] then .settle k none else .enqueue k answerId

/-- The bookkeeping after a cell's job: the batch counts completed and dead cells and may
stop itself, the null-score retry counts the run's remaining cells, the other two paths mark
the run at once. The second component tells whether the run is marked. -/
def reportCell (plan : Plan) (m : Shared) (runId : ℕ) (answered : Bool) : Shared × Bool :=
  if plan.path.countsCells then
    let remaining := Function.update m.remaining runId (m.remaining runId - 1)
    let m := { m with remaining := remaining }
    if plan.path.guarded then
      let completed := m.completed + 1
      let dead := if answered then m.dead else m.dead + 1
      let abort := decide (campaignAbortCells ≤ completed ∧ dead = completed)
      ({ m with
          pipe := { m.pipe with examDone := m.pipe.examDone + 1 }
          completed := completed
          dead := dead
          canceled := m.canceled || abort || budgetExceeded plan m },
        remaining runId = 0)
    else (m, remaining runId = 0)
  else (m, true)

namespace Shared

def panic (m : Shared) : Shared := { m with panicked := true }

def skipCell (m : Shared) (cell : Cell) : Shared :=
  { m with hist := { m.hist with
      lost := m.hist.lost ++ cell.units, skipped := m.hist.skipped ++ [cell] } }

def cutCell (m : Shared) (l : CellCursor) : Shared :=
  { m with hist := { m.hist with lost := m.hist.lost ++ l.todo } }

def endCell (m : Shared) (cell : Cell) : Shared :=
  { m with hist := { m.hist with ended := m.hist.ended ++ [cell] } }

def dropCells (m : Shared) (cells : List Cell) : Shared :=
  { m with hist := { m.hist with
      lost := m.hist.lost ++ cells.flatMap Cell.units, unfed := m.hist.unfed ++ cells } }

def enqueueVotes (m : Shared) (jobs : List JudgeJob) : Shared :=
  { m with hist := { m.hist with enqueued := m.hist.enqueued ++ jobs } }

def dropVotes (m : Shared) (jobs : List JudgeJob) : Shared :=
  { m with hist := { m.hist with dropped := m.hist.dropped ++ jobs } }

def startUnits (m : Shared) (us : List UnitKey) : Shared :=
  { m with hist := { m.hist with started := m.hist.started ++ us } }

def writeUnits (m : Shared) (us : List UnitKey) : Shared :=
  { m with hist := { m.hist with written := m.hist.written ++ us } }

end Shared

/-- One step of an exam worker. -/
def examStep (env : Env) (plan : Plan) (st : Store) (m : Shared) :
    ExamPc → ExamChoice → Option (Store × Shared × ExamPc)
  | .check, .go =>
    if m.canceled then some (st, m, .exited)
    else if budgetExceeded plan m then some (st, { m with canceled := true }, .exited)
    else some (st, m, .select)
  | .select, .go => if m.canceled ∨ m.cellsClosed then some (st, m, .exited) else none
  | .setup cell, .setup o =>
    let m := if plan.path.guarded then
      { m with pipe := { m.pipe with examStarted := m.pipe.examStarted + 1 } } else m
    match o with
    | .ready modelId => some (st, m, .nextCase ⟨cell, modelId, false, 0, cell.cases⟩)
    | .endpointsDown modelId =>
      -- only a batch reads the status board before the first case
      if plan.path.driver = .evalModel then some (st, m.skipCell cell, .report cell false)
      else some (st, m, .nextCase ⟨cell, modelId, false, 0, cell.cases⟩)
    | o =>
      match plan.path.driver, o.stampId with
      | .evalModel, some modelId => some (st, m, .stamp cell modelId cell.cases false)
      | _, _ => some (st, m.skipCell cell, .report cell false)
  | .nextCase l, .go =>
    match l.rest with
    | [] => some (st, m, .report l.cell l.answered)
    | c :: rest =>
      let k : SampleCursor := ⟨{ l with rest := rest }, c, 1, false⟩
      match plan.path.driver with
      | .evalModel => some (st, m.startUnits [k.unit], .openCase k)
      | .retryModel =>
        if m.canceled then some (st, m.cutCell l, .report l.cell l.answered)
        else some (st.deleteNullScoreResult k.unit, m.startUnits [k.unit], .openCase k)
      | .retryModelAny =>
        if m.canceled then some (st, m.cutCell l, .report l.cell l.answered)
        else some (st.deleteUnitResult k.unit, m.startUnits [k.unit], .openCase k)
  | .openCase k, .go =>
    some (st,
      { m with
        pipe := m.pipe.openCase k.unit k.inCell.modelId k.profile (env.samples k.case) },
      .call k)
  | .call k, .answer o => some (st, m, .persist k o)
  | .persist k o, .go =>
    let (st, id) := st.createEvalAnswer (answerRow k o)
    some (st, m, .record k o id)
  | .record k o id, .go =>
    match o with
    | .failed _ _ _ => some (st, m, .settle k none)
    | .answered text latencyMs i o =>
      -- the cost accumulator is created on first use, the aggregate has to be there
      let p := m.pipe.recordExamCost k.unit.runId (Pipeline.callCostUSD env.price k.inCell.modelId i o)
      match p.recordAnswer k.unit latencyMs i o text with
      | none => some (st, m.panic, .exited)
      | some p => some (st, { m with pipe := p }, routeSample env { k with answered := true } id text)
  | .settle k median, .go =>
    match m.pipe.settleSample k.unit median with
    | none => some (st, m.panic, .exited)
    | some (p, none) => some (st, { m with pipe := p }, sampleDone env plan k)
    | some (p, some agg) => some (st, { m with pipe := p }, .write k agg)
  | .write k agg, .go =>
    some (st.createEvalResult (caseResult k.unit agg), m.writeUnits [k.unit],
      sampleDone env plan k)
  | .enqueue k id, .go =>
    let m := m.enqueueVotes (jobsOf k id)
    some (st, { m with pipe := m.pipe.registerVotes k.sample k.judges.length },
      .offer k (jobsOf k id))
  | .offer k jobs, .go =>
    if jobs = [] then some (st, m, sampleDone env plan k)
    else if m.canceled then some (st, m.dropVotes jobs, sampleDone env plan k)
    else none
  | .noteOffered k jobs, .go =>
    some (st, { m with pipe := { m.pipe with judgeOffered := m.pipe.judgeOffered + 1 } },
      .offer k jobs)
  | .stamp cell modelId cases answered, .go =>
    let units := ({ cell with cases := cases } : Cell).units
    some (st.createEvalResultsBatch (cases.map (failedResult cell.run cell.modelDbId modelId)),
      (m.startUnits units).writeUnits units, .report cell answered)
  | .report cell answered, .go =>
    let (m, done) := reportCell plan (m.endCell cell) cell.run.id answered
    some (st, m, if done then .mark cell.run.id else .check)
  | .mark runId, .go =>
    let (p, finished) := m.pipe.markCellsDone runId
    some (st, { m with pipe := p }, if finished then .finish runId else .check)
  | .finish runId, .go =>
    some (if plan.path.finishesRuns then st.finishEvalRun runId .done else st, m, .check)
  | _, _ => none

/-! ### Judge workers -/

/-- The row a judge call is stored as. -/
def judgeScoreRow (j : JudgeJob) (o : JudgeOutcome) : EvalJudgeScore where
  answerId := j.answerId
  slot := j.slot
  judgeModel := j.judgeModel
  score := o.score
  inputTokens := o.inputTokens
  outputTokens := o.outputTokens

/-- One step of a judge worker. The pool's guard makes a worker leave without canceling. -/
def judgeStep (env : Env) (plan : Plan) (st : Store) (m : Shared) :
    JudgePc → JudgeChoice → Option (Store × Shared × JudgePc)
  | .check, .go =>
    if m.canceled ∨ budgetExceeded plan m then some (st, m, .exited) else some (st, m, .select)
  | .select, .go => if m.canceled ∨ m.jobsClosed then some (st, m, .exited) else none
  | .take j, .go =>
    some (st, { m with pipe := { m.pipe with judgeTaken := m.pipe.judgeTaken + 1 } }, .call j)
  | .call j, .verdict o =>
    match o with
    | .cutOff _ _ => if m.canceled then some (st, m, .record j o) else none
    | _ => some (st, m, .record j o)
  | .record j o, .go =>
    some (st.createEvalJudgeScore (judgeScoreRow j o),
      { m with
        pipe := m.pipe.recordJudgeCost j.unit.runId
          (Pipeline.callCostUSD env.price j.judgeModel o.inputTokens o.outputTokens)
        hist := { m.hist with verdicts := m.hist.verdicts ++ [(j, o)] } },
      .land j o.score)
  | .land j score, .go =>
    match m.pipe.landVote j score with
    | (p, none) => some (st, { m with pipe := p }, .decrement j)
    | (p, some median) => some (st, { m with pipe := p }, .settle j median)
  | .settle j median, .go =>
    match m.pipe.settleSample j.unit median with
    | none => some (st, m.panic, .exited)
    | some (p, none) => some (st, { m with pipe := p }, .decrement j)
    | some (p, some agg) => some (st, { m with pipe := p }, .write j agg)
  | .write j agg, .go =>
    some (st.createEvalResult (caseResult j.unit agg), m.writeUnits [j.unit], .decrement j)
  | .decrement j, .go =>
    let (p, finished) := m.pipe.decrementPending j.unit.runId
    some (st, { m with pipe := p }, if finished then .finish j else .noteDone j)
  | .finish j, .go =>
    some (if plan.path.finishesRuns then st.finishEvalRun j.unit.runId .done else st, m,
      .noteDone j)
  | .noteDone j, .go =>
    some (st,
      { m with pipe := { m.pipe with
          judgeDone := m.pipe.judgeDone + 1
          judgeDoneByModel := Function.update m.pipe.judgeDoneByModel j.unit.modelDbId
            (m.pipe.judgeDoneByModel j.unit.modelDbId + 1) } },
      .check)
  | _, _ => none

/-! ### The driver -/

/-- One step of the driver's goroutine. `examDone` and `judgeDone` tell whether the pools'
wait groups are at zero. -/
def mainStep (plan : Plan) (st : Store) (m : Shared) (examDone judgeDone : Bool) :
    MainPc → Option (Store × Shared × MainPc)
  | .begin [] => some (st, m, .feed plan.cells)
  | .begin (r :: rs) =>
    -- a batch without cells marks its runs before it starts the pools
    let (p, finished) := m.pipe.markCellsDone r
    some (st, { m with pipe := p }, if finished then .beginFinish r rs else .begin rs)
  | .beginFinish r rs => some (st.finishEvalRun r .done, m, .begin rs)
  | .feed [] => some (st, { m with cellsClosed := true }, .wait)
  | .feed (c :: cs) =>
    if m.canceled then some (st, { m.dropCells (c :: cs) with cellsClosed := true }, .wait)
    else if budgetExceeded plan m then
      some (st, { m.dropCells (c :: cs) with canceled := true, cellsClosed := true }, .wait)
    else some (st, m, .offer c cs)
  | .offer c cs =>
    if m.canceled then some (st, { m.dropCells (c :: cs) with cellsClosed := true }, .wait)
    else none
  | .wait => if examDone then some (st, { m with jobsClosed := true }, .drain) else none
  | .drain => if judgeDone then some (st, m, .flush plan.runs) else none
  | .flush [] => some (st, m, if plan.path.finishesRuns then .tail plan.runs else .returned)
  | .flush (r :: rs) =>
    some (match m.pipe.costs r with
      | some cs => st.setEvalRunCost r cs.stored
      | none => st, m, .flush rs)
  | .tail [] => some (st, m, .settleSelect)
  | .tail (r :: rs) =>
    some (if m.pipe.finished r then st else st.finishEvalRun r .failed, m, .tail rs)
  | .settleSelect =>
    match st.settleVerdict plan.campaignId with
    | some status => some (st, m, .settleUpdate status)
    | none => some (st, m, .returned)
  | .settleUpdate status => some (st.settleUpdate plan.campaignId status, m, .returned)
  | .returned => none

/-! ### The execution -/

/-- One step of an execution. A crashed process takes no further step. -/
def step (env : Env) (plan : Plan) (s : State) (a : Label) : Option State :=
  if s.mem.panicked then none
  else
    match a with
    | .main =>
      (mainStep plan s.store s.mem (s.exam.all (· = .exited)) (s.judge.all (· = .exited))
        s.main).map fun (st, m, pc) => { s with store := st, mem := m, main := pc }
    | .exam i c =>
      s.exam[i]?.bind fun pc =>
        (examStep env plan s.store s.mem pc c).map fun (st, m, pc) =>
          { s with store := st, mem := m, exam := s.exam.set i pc }
    | .judge j c =>
      s.judge[j]?.bind fun pc =>
        (judgeStep env plan s.store s.mem pc c).map fun (st, m, pc) =>
          { s with store := st, mem := m, judge := s.judge.set j pc }
    | .handCell i =>
      match s.main, s.exam[i]? with
      | .offer c cs, some .select =>
        some { s with exam := s.exam.set i (.setup c), main := .feed cs }
      | _, _ => none
    | .handJob i j =>
      match s.exam[i]?, s.judge[j]? with
      | some (.offer k (job :: jobs)), some .select =>
        some { s with
          exam := s.exam.set i (.noteOffered k jobs), judge := s.judge.set j (.take job) }
      | _, _ => none
    | .cancel => some { s with mem := { s.mem with canceled := true } }
    | .expire => some { s with mem := { s.mem with expired := true } }

/-- The memory an execution starts with. -/
def Plan.startMem (plan : Plan) : Shared where
  pipe := newPipeline
  canceled := false
  expired := false
  cellsClosed := false
  jobsClosed := false
  panicked := false
  remaining r := plan.cells.countP (·.run.id = r)
  completed := 0
  dead := 0
  hist := ⟨[], [], [], [], [], [], [], [], []⟩

/-- An execution before its first step: no more exam workers than cells, and a batch
without cells first marks its runs. -/
def Plan.startExec (env : Env) (plan : Plan) : Exec where
  mem := plan.startMem
  exam := List.replicate (min env.evalConcurrency plan.cells.length) .check
  judge := List.replicate env.judgeConcurrency .check
  main := .begin (if plan.path = .executePrepared ∧ plan.cells = [] then plan.runs else [])

/-- The state an execution starts in. -/
def Plan.start (env : Env) (plan : Plan) (st : Store) : State :=
  { plan.startExec env with store := st }

/-! ### A small instance -/

/-- One exam worker, one judge worker, one sample a case. -/
def soloEnv : Env where
  defaultSamples := 1
  evalConcurrency := 1
  judgeConcurrency := 1
  defaultSamples_pos := by decide
  evalConcurrency_pos := by decide
  judgeConcurrency_pos := by decide
  ruleVerdict _ _ _ := some 1
  price _ := none

/-- An enabled judge case of suite 1. -/
def judgeCase (id : ℕ) : Case := ⟨id, 1, .judge, none, true⟩

/-- An enabled rule case of suite 1. -/
def ruleCase (id : ℕ) : Case := ⟨id, 1, .rule, none, true⟩

/-- Run 1 of campaign 1 over suite 1, with one judge for each of the models 1 and 2. -/
def soloRun (status : Status) : EvalRun :=
  ⟨1, 1, 1, "judge", status, some [(1, ["judge"]), (2, ["judge"])], none⟩

end HubScope
