import HubScope.Evaluator.Retention
import HubScope.Server.Console
import HubScope.Server.Evals

/-!
# Operations on campaigns, interleaved

Five operations start an execution of a campaign or join one: `POST /api/evals` and the weekly
batch create a campaign, `retry-failed`, `retry-units` and `restart` go back to one, and a
`retry-units` of a campaign that is executing joins in beside its batch. A handler checks, acts
and leaves the rest to a goroutine. Each operation is here a program over its store calls, and
the server a set of operations that interleave between any two of them; an operation that has
planned its cells goes on as an execution.

Models, suites and cases are written by none of the five, so reads of these alone are merged
into one step.

## Main definitions

* `Operation`, `OpPc` — the operations and their program points
* `opStep` — one store call of an operation, or one step of its execution
* `World`, `worldStep` — the operations of a server over its store

## Main results

* `opStep_cases`, `worldStep_cases` — inversion
* `OpStep.advance` — only executions change the results
* `reached_of_world` — every execution of the server is one the evaluator can reach
-/

set_option autoImplicit false

namespace HubScope

/-! ### Program points -/

/-- What starts an execution of a campaign or joins one. -/
inductive Operation
  | createEval (req : CreateEvalRequest)
  | runBatch
  | retryFailed (campaignId : ℕ)
  | retryUnits (campaignId : ℕ) (items : List RetryUnit)
  | restart (campaignId : ℕ)

/-- The units a request names. -/
def Operation.items : Operation → List RetryUnit
  | .retryUnits _ items => items
  | .createEval _ | .runBatch | .retryFailed _ | .restart _ => []

/-- What the goroutine of an accepted operation goes on with. -/
inductive Job
  | runCampaign (b : Batch) (snapshot : String)
  | runEval (prepared : List PreparedRun) (modelIds : List ℕ)
  | retryFailedResults
  | retryAnsweredUnits (units : List RetryUnit) (settled : Bool)
  | resumeCampaign

/-- Where an operation stands: in its handler up to `isExecuting`, then in the goroutine the
handler left behind. -/
inductive OpPc
  | getCampaign (campaignId : ℕ)
  | inspect (campaignId : ℕ) (settled : Bool)
  | check (units : List RetryUnit)
  | selectBatch
  | createCampaign (b : Batch) (snapshot : String)
  | reopen (campaignId : ℕ) (units : List RetryUnit)
  | isExecuting (campaignId : ℕ) (units : List RetryUnit)
  | register (campaignId : ℕ) (job : Job)
  | createRun (campaignId : ℕ) (b : Batch) (snapshot : String) (suites : List Suite)
      (prepared : List PreparedRun)
  | prepareRun (campaignId : ℕ) (b : Batch) (snapshot : String) (run : EvalRun)
      (suites : List Suite) (prepared : List PreparedRun)
  | settleEmpty (campaignId : ℕ)
  | probeGate (campaignId : ℕ) (single : Bool) (prepared : List PreparedRun)
      (modelIds : List ℕ)
  | selectJuries (campaignId : ℕ) (single : Bool) (juries : List (ℕ × List String))
      (left prepared : List PreparedRun) (feed : List ℕ)
  | failRuns (campaignId : ℕ) (single : Bool) (left : List PreparedRun)
  | listRuns (campaignId : ℕ) (job : Job)
  | readNulls (campaignId : ℕ) (runs : List EvalRun) (cells : List Cell)
  | finishGone (campaignId runId : ℕ) (runs : List EvalRun) (cells : List Cell)
  | listMembers (campaignId : ℕ) (runs : List EvalRun)
  | probeMembers (campaignId : ℕ) (runs : List EvalRun) (members : List ℕ)
  | readResults (campaignId : ℕ) (runs : List EvalRun) (members : List ℕ) (cells : List Cell)
  | reopenRuns (campaignId : ℕ) (cells : List Cell)
  | launch (single : Bool) (plan : Plan)
  | executing (single registered : Bool) (env : Env) (plan : Plan) (e : Exec)
  | settleSelect (campaignId : ℕ) (registered : Bool)
  | settleUpdate (campaignId : ℕ) (registered : Bool) (status : Status)
  | unregister (campaignId : ℕ) (settles : Bool)
  | returned

/-- Where an operation begins. -/
def Operation.begin : Operation → OpPc
  | .createEval _ | .runBatch => .check []
  | .retryFailed c | .retryUnits c _ | .restart c => .getCampaign c

/-- What a label decides for an operation: what it reads outside the evaluation tables, the
outcome of a probe, that its context is canceled, or the step of its execution. -/
inductive OpChoice
  | go
  | selected (snapshot : String) (hasEndpoint : ℕ → Bool)
  | judgeModel (name : String)
  | canceled
  | gate (gate : Option ProbeGate)
  | probed (reachable : ℕ → Bool)
  | launched (env : Env)
  | exec (a : Label)

/-! ### Store calls -/

/-- The plan of a null-score retry with the given cells. -/
def nullScorePlan (campaignId : ℕ) (cells : List Cell) : Plan where
  path := .retryNullScoreCells
  campaignId := campaignId
  runs := Grouping.firstSeen (cells.map (·.run.id))
  cells := cells

/-- The plan of a resume with the given cells. -/
def resumePlan (campaignId : ℕ) (cells : List Cell) : Plan where
  path := .resumeCampaign
  campaignId := campaignId
  runs := cells.map (·.run.id)
  cells := cells

/-- Whether the campaign is done or failed. -/
def Store.isSettled (st : Store) (campaignId : ℕ) : Bool :=
  st.campaigns.any fun c => c.id = campaignId ∧ c.status.terminal

/-- The campaign an operation makes active with its next store call. -/
def OpPc.starts (st : Store) : OpPc → Option ℕ
  | .createCampaign _ _ => some (st.campaignSeq + 1)
  | .reopen c _ | .reopenRuns c _ => if st.isSettled c then some c else none
  | _ => none

/-- What the request's campaign status allows: `retry-failed` and `restart` need a settled
campaign, `retry-units` takes a running one as well. -/
def admission (o : Operation) (status : Status) (campaignId : ℕ) : OpPc :=
  match o with
  | .retryFailed _ => if status.terminal then .inspect campaignId true else .returned
  | .retryUnits _ items =>
    if status = .pending then .returned
    else if items = [] ∨ maxRetryUnits < items.length then .returned
    else if items.any fun u => u.modelDbId = 0 ∨ u.caseId = 0 then .returned
    else .inspect campaignId (status ≠ .running)
  | .restart _ => if status.terminal then .check [] else .returned
  | .createEval _ | .runBatch => .returned

/-- Where an operation goes once no campaign is unfinished. -/
def passed (o : Operation) (units : List RetryUnit) : OpPc :=
  match o with
  | .createEval _ | .runBatch => .selectBatch
  | .retryFailed c | .retryUnits c _ => .reopen c units
  | .restart c => .register c .resumeCampaign

/-- What the goroutine does once its cancel function is registered. -/
def registered (campaignId : ℕ) : Job → OpPc
  | .runCampaign b snapshot =>
    if b.suites = [] then .settleEmpty campaignId
    else .createRun campaignId b snapshot b.suites []
  | .runEval prepared modelIds => .probeGate campaignId true prepared modelIds
  | job => .listRuns campaignId job

/-- Where an operation goes after its last store call. -/
def finishing (campaignId : ℕ) (registered : Bool) : OpPc :=
  if registered then .unregister campaignId false else .returned

/-- One step of an operation. -/
def opStep (st : Store) (executing : ℕ → Bool) (o : Operation) :
    OpPc → OpChoice → Option (Store × (ℕ → Bool) × OpPc)
  -- handlers
  | .getCampaign c, .go =>
    match st.getCampaign c with
    | none => some (st, executing, .returned)
    | some campaign => some (st, executing, admission o campaign.status c)
  | .inspect c settled, .go =>
    match o with
    | .retryUnits _ items =>
      let accepted := acceptUnits st c items
      if accepted = [] then some (st, executing, .returned)
      else if settled then some (st, executing, .check accepted)
      else some (st, executing, .isExecuting c accepted)
    | _ =>
      if st.countCampaignNullScoreResults c = 0 then some (st, executing, .returned)
      else some (st, executing, .check [])
  | .check units, .go =>
    if st.hasUnfinishedCampaign then some (st, executing, .returned)
    else some (st, executing, passed o units)
  | .selectBatch, .selected snapshot hasEndpoint =>
    let batch := match o with
      | .createEval req => HubScope.selectBatch st hasEndpoint req
      | _ => handleFullSweep st hasEndpoint
    match batch with
    | .ok b => some (st, executing, .createCampaign b snapshot)
    | .error _ => some (st, executing, .returned)
  | .createCampaign b snapshot, .go =>
    let (st, c) := st.createCampaign b.modelIds
    some (st, executing,
      if b.single then .createRun c b snapshot b.suites [] else .register c (.runCampaign b snapshot))
  | .reopen c units, .go =>
    let (reopened, job) := match o with
      | .retryUnits _ _ =>
        (st.reopenCampaignForUnitRetryAny c units, Job.retryAnsweredUnits units true)
      | _ => (st.reopenCampaignForRetry c, Job.retryFailedResults)
    match reopened with
    | some st => some (st, executing, .register c job)
    | none => some (st, executing, .returned)
  | .isExecuting c units, .go =>
    some (st, executing,
      if executing c then .register c (.retryAnsweredUnits units false) else .returned)
  -- goroutines
  | .register c job, .go => some (st, Function.update executing c true, registered c job)
  | .createRun c b snapshot suites prepared, .go =>
    match suites with
    | suite :: suites =>
      let (st, run) := st.createEvalRun c suite.id snapshot
      some (st, executing, .prepareRun c b snapshot run suites prepared)
    | [] =>
      some (st, executing,
        if b.single then .register c (.runEval prepared b.modelIds)
        else .probeGate c false prepared b.modelIds)
  | .createRun c b _ _ prepared, .canceled =>
    if b.single then none else some (st, executing, .probeGate c false prepared b.modelIds)
  | .prepareRun c b snapshot run suites prepared, .judgeModel name =>
    let (st, prep) := HubScope.prepareRun st run name
    some (st, executing, .createRun c b snapshot suites (prepared ++ [prep]))
  | .settleEmpty c, .go => some (st.settleEmptyCampaign c, executing, .unregister c false)
  | .probeGate c single prepared modelIds, .gate gate =>
    match gate with
    | none => some (st, executing, .launch single (batchPlan c prepared modelIds))
    | some g =>
      if feedOf gate modelIds = [] ∧ modelIds ≠ [] then
        some (st, executing, .failRuns c single prepared)
      else
        let staged := prepared.map fun prep =>
          { prep with run := { prep.run with juryModels := some g.juries } }
        some (st, executing, .selectJuries c single g.juries prepared staged (feedOf gate modelIds))
  | .selectJuries c single juries left prepared feed, .go =>
    match left with
    | prep :: left =>
      some (st.setEvalRunJuryModels prep.run.id juries, executing,
        .selectJuries c single juries left prepared feed)
    | [] => some (st, executing, .launch single (batchPlan c prepared feed))
  | .failRuns c single left, .go =>
    match left with
    | prep :: left =>
      some (st.finishEvalRun prep.run.id .failed, executing, .failRuns c single left)
    | [] =>
      some (st, executing, if single then .unregister c true else .settleSelect c true)
  | .listRuns c job, .go =>
    let runs := st.listEvalRunsByCampaign c
    match job with
    | .retryAnsweredUnits units settled =>
      some (st, executing, .launch false (planAnsweredUnits st c units settled))
    | .resumeCampaign => some (st, executing, .listMembers c runs)
    | _ => some (st, executing, .readNulls c runs [])
  | .readNulls c runs cells, .go =>
    match runs with
    | run :: runs =>
      let nulls := requestedNulls st run.id none
      let new := nullScoreCells st run nulls
      if nulls ≠ [] ∧ new = [] then some (st, executing, .finishGone c run.id runs cells)
      else some (st, executing, .readNulls c runs (cells ++ new))
    | [] => some (st, executing, .launch false (nullScorePlan c cells))
  | .finishGone c runId runs cells, .go =>
    some (st.finishEvalRun runId .done, executing, .readNulls c runs cells)
  | .listMembers c runs, .go =>
    some (st, executing, .probeMembers c runs ((st.listCampaignMembers c).map (·.id)))
  | .probeMembers c runs members, .probed reachable =>
    some (st, executing, .readResults c runs (members.filter reachable) [])
  | .readResults c runs members cells, .go =>
    match runs with
    | run :: runs =>
      let new := resumeCells run (st.listEvalResults run.id) (st.listEnabledCases run.suiteId)
        members
      some (st, executing, .readResults c runs members (cells ++ new))
    | [] =>
      some (st, executing, if cells = [] then .unregister c false else .reopenRuns c cells)
  | .reopenRuns c cells, .go =>
    match st.reopenCampaignRuns c (Grouping.firstSeen (cells.map (·.run.id))) with
    | some st => some (st, executing, .launch false (resumePlan c cells))
    | none => some (st, executing, .unregister c false)
  -- executions
  | .launch single plan, .launched env =>
    some (st, executing, .executing single true env plan (plan.startExec env))
  | .executing single registered env plan e, .exec a =>
    -- a single suite is unregistered before its campaign is settled
    if single ∧ registered ∧ e.main = .settleSelect ∧ a = .main then none
    else (step env plan { e with store := st } a).map fun s =>
      (s.store, executing, .executing single registered env plan s.toExec)
  | .executing single registered env plan e, .go =>
    if registered ∧ (e.main = .returned ∨ single ∧ e.main = .settleSelect) then
      some (st, Function.update executing plan.campaignId false,
        .executing single false env plan e)
    else none
  | .settleSelect c registered, .go =>
    match st.settleVerdict c with
    | some status => some (st, executing, .settleUpdate c registered status)
    | none => some (st, executing, finishing c registered)
  | .settleUpdate c registered status, .go =>
    some (st.settleUpdate c status, executing, finishing c registered)
  | .unregister c settles, .go =>
    some (st, Function.update executing c false,
      if settles then .settleSelect c false else .returned)
  | _, _ => none

/-! ### The server -/

/-- An operation with its program point. -/
structure Op where
  operation : Operation
  pc : OpPc

/-- The server: its store, the campaigns with a registered execution, and the operations it
accepted. `startedSince` is a history no step reads: the campaigns made active since operation
`i` passed its check. -/
structure World where
  store : Store
  executing : ℕ → Bool
  ops : List Op
  startedSince : ℕ → List ℕ

/-- An operation arrives, one takes a step, an operator cancels a campaign. -/
inductive WorldLabel
  | arrive (o : Operation)
  | op (i : ℕ) (c : OpChoice)
  | cancelCampaign (campaignId : ℕ)

/-- A server over its store, before the first operation. -/
def World.start (st : Store) : World where
  store := st
  executing _ := false
  ops := []
  startedSince _ := []

/-- The execution of the operation crashed. -/
def OpPc.crashed : OpPc → Bool
  | .executing _ _ _ _ e => e.mem.panicked
  | _ => false

/-- What the next step of operation `i` adds to the history. -/
def World.note (w : World) (i : ℕ) (pc : OpPc) : ℕ → List ℕ :=
  match pc with
  | .check _ => Function.update w.startedSince i []
  | pc =>
    match pc.starts w.store with
    | some c => fun j => c :: w.startedSince j
    | none => w.startedSince

/-- An execution crashed, and the server with it. -/
def World.crashed (w : World) : Bool := w.ops.any fun op => op.pc.crashed

/-- One step of the server. A crashed server takes no further step. -/
def worldStep (w : World) (a : WorldLabel) : Option World :=
  if w.crashed then none
  else
    match a with
    | .arrive o => some { w with ops := w.ops ++ [⟨o, o.begin⟩] }
    | .op i c =>
      w.ops[i]?.bind fun op =>
        (opStep w.store w.executing op.operation op.pc c).map fun (st, executing, pc) =>
          { store := st
            executing := executing
            ops := w.ops.set i { op with pc := pc }
            startedSince := w.note i op.pc }
    | .cancelCampaign c => some { w with executing := Function.update w.executing c false }

/-! ### What a step can do -/

/-- The steps of an operation. -/
inductive OpStep (st : Store) (o : Operation) : OpPc → OpChoice → Store → OpPc → Prop
  | quit (pc c) : OpStep st o pc c st .returned
  | admitted (c status) : OpStep st o (.getCampaign c) .go st (admission o status c)
  | nullsFound (c settled) : OpStep st o (.inspect c settled) .go st (.check [])
  | answersFound (c settled) : OpStep st o (.inspect c settled) .go st
      (if settled then .check (acceptUnits st c o.items)
        else .isExecuting c (acceptUnits st c o.items))
  | passed (units) : st.hasUnfinishedCampaign = false →
      OpStep st o (.check units) .go st (passed o units)
  | selected (b snapshot f) :
      OpStep st o .selectBatch (.selected snapshot f) st (.createCampaign b snapshot)
  | created (b snapshot c) : c = (st.createCampaign b.modelIds).2 →
      OpStep st o (.createCampaign b snapshot) .go (st.createCampaign b.modelIds).1
        (if b.single then .createRun c b snapshot b.suites []
          else .register c (.runCampaign b snapshot))
  | reopened (c units rejoin job st') : st.reopenCampaign c rejoin = some st' →
      job = .retryFailedResults ∨ job = .retryAnsweredUnits units true →
      OpStep st o (.reopen c units) .go st' (.register c job)
  | joined (c units) : OpStep st o (.isExecuting c units) .go st
      (.register c (.retryAnsweredUnits units false))
  | registered (c job) : OpStep st o (.register c job) .go st (registered c job)
  | runCreated (c b snapshot suite suites prepared) :
      OpStep st o (.createRun c b snapshot (suite :: suites) prepared) .go
        (st.createEvalRun c suite.id snapshot).1
        (.prepareRun c b snapshot (st.createEvalRun c suite.id snapshot).2 suites prepared)
  | runsCreated (c b snapshot prepared) : OpStep st o (.createRun c b snapshot [] prepared) .go st
      (if b.single then .register c (.runEval prepared b.modelIds)
        else .probeGate c false prepared b.modelIds)
  | canceled (c b snapshot suites prepared) :
      OpStep st o (.createRun c b snapshot suites prepared) .canceled st
        (.probeGate c false prepared b.modelIds)
  | prepared (c b snapshot run suites prepared name) :
      OpStep st o (.prepareRun c b snapshot run suites prepared) (.judgeModel name)
        (prepareRun st run name).1
        (.createRun c b snapshot suites (prepared ++ [(prepareRun st run name).2]))
  | settledEmpty (c) :
      OpStep st o (.settleEmpty c) .go (st.settleEmptyCampaign c) (.unregister c false)
  | gateCanceled (c single prepared modelIds) :
      OpStep st o (.probeGate c single prepared modelIds) (.gate none) st
        (.launch single (batchPlan c prepared modelIds))
  | gateFailed (c single prepared modelIds g) :
      OpStep st o (.probeGate c single prepared modelIds) (.gate (some g)) st
        (.failRuns c single prepared)
  | gatePassed (c single prepared modelIds g staged) :
      OpStep st o (.probeGate c single prepared modelIds) (.gate (some g)) st
        (.selectJuries c single g.juries prepared staged (feedOf (some g) modelIds))
  | juryStored (c single juries prep left prepared feed) :
      OpStep st o (.selectJuries c single juries (prep :: left) prepared feed) .go
        (st.setEvalRunJuryModels prep.run.id juries)
        (.selectJuries c single juries left prepared feed)
  | juriesStored (c single juries prepared feed) :
      OpStep st o (.selectJuries c single juries [] prepared feed) .go st
        (.launch single (batchPlan c prepared feed))
  | runFailed (c single prep left) : OpStep st o (.failRuns c single (prep :: left)) .go
      (st.finishEvalRun prep.run.id .failed) (.failRuns c single left)
  | runsFailed (c single) : OpStep st o (.failRuns c single []) .go st
      (if single then .unregister c true else .settleSelect c true)
  | answersListed (c units settled) :
      OpStep st o (.listRuns c (.retryAnsweredUnits units settled)) .go st
        (.launch false (planAnsweredUnits st c units settled))
  | resumeListed (c runs) : OpStep st o (.listRuns c .resumeCampaign) .go st (.listMembers c runs)
  | nullsListed (c job runs) : OpStep st o (.listRuns c job) .go st (.readNulls c runs [])
  | nullsRead (c run runs cells new) : OpStep st o (.readNulls c (run :: runs) cells) .go st
      (.readNulls c runs (cells ++ new))
  | nullsGone (c run runs cells) : OpStep st o (.readNulls c (run :: runs) cells) .go st
      (.finishGone c run.id runs cells)
  | nullsPlanned (c cells) : OpStep st o (.readNulls c [] cells) .go st
      (.launch false (nullScorePlan c cells))
  | goneFinished (c runId runs cells) : OpStep st o (.finishGone c runId runs cells) .go
      (st.finishEvalRun runId .done) (.readNulls c runs cells)
  | membersListed (c runs members) :
      OpStep st o (.listMembers c runs) .go st (.probeMembers c runs members)
  | membersProbed (c runs members reachable) :
      OpStep st o (.probeMembers c runs members) (.probed reachable) st
        (.readResults c runs (members.filter reachable) [])
  | resultsRead (c run runs members cells) :
      OpStep st o (.readResults c (run :: runs) members cells) .go st
        (.readResults c runs members (cells ++ resumeCells run (st.listEvalResults run.id)
          (st.listEnabledCases run.suiteId) members))
  | nothingOwed (c members) : OpStep st o (.readResults c [] members []) .go st
      (.unregister c false)
  | resultsPlanned (c members cells) : OpStep st o (.readResults c [] members cells) .go st
      (.reopenRuns c cells)
  | runsReopened (c cells rejoin st') : st.reopenCampaign c rejoin = some st' →
      OpStep st o (.reopenRuns c cells) .go st' (.launch false (resumePlan c cells))
  | raceLost (c cells) : OpStep st o (.reopenRuns c cells) .go st (.unregister c false)
  | launched (single plan env) : OpStep st o (.launch single plan) (.launched env) st
      (.executing single true env plan (plan.startExec env))
  | executed (single registered env plan e a s) :
      step env plan { e with store := st } a = some s →
      OpStep st o (.executing single registered env plan e) (.exec a) s.store
        (.executing single registered env plan s.toExec)
  | execReturned (single env plan e) : OpStep st o (.executing single true env plan e) .go st
      (.executing single false env plan e)
  | verdict (c registered status) : OpStep st o (.settleSelect c registered) .go st
      (.settleUpdate c registered status)
  | unsettled (c registered) : OpStep st o (.settleSelect c registered) .go st
      (finishing c registered)
  | updated (c registered status) : OpStep st o (.settleUpdate c registered status) .go
      (st.settleUpdate c status) (finishing c registered)
  | unregistered (c settles) : OpStep st o (.unregister c settles) .go st
      (if settles then .settleSelect c false else .returned)

variable {st st' : Store} {executing executing' : ℕ → Bool} {o : Operation} {pc pc' : OpPc}
  {choice : OpChoice} {env : Env} {plan : Plan}

theorem opStep_cases (h : opStep st executing o pc choice = some (st', executing', pc')) :
    OpStep st o pc choice st' pc' := by
  unfold opStep at h
  split at h
  -- the branches of `opStep` in its order; a call that fails ends the operation
  case h_1 c =>
    split at h
    · cases h
      exact .quit _ _
    · cases h
      exact .admitted c _
  case h_2 c settled =>
    split at h
    · dsimp only at h
      split_ifs at h with haccepted hsettled
      · cases h
        exact .quit _ _
      · cases h
        subst hsettled
        exact .answersFound c true
      · cases h
        obtain rfl : settled = false := by simpa using hsettled
        exact .answersFound c false
    · split_ifs at h
      · cases h
        exact .quit _ _
      · cases h
        exact .nullsFound c settled
  case h_3 units =>
    split_ifs at h with hactive
    · cases h
      exact .quit _ _
    · cases h
      exact .passed units (by simpa using hactive)
  case h_4 snapshot f =>
    dsimp only at h
    split at h
    · cases h
      exact .selected _ snapshot f
    · cases h
      exact .quit _ _
  case h_5 b snapshot =>
    cases h
    exact .created b snapshot _ rfl
  case h_6 c units =>
    split at h
    rename_i reopened job heq
    split at h
    · cases h
      rename_i st₁
      split at heq
      · obtain ⟨hreopen, hjob⟩ := Prod.mk.inj heq
        exact .reopened c units _ job _ hreopen (.inr hjob.symm)
      · obtain ⟨hreopen, hjob⟩ := Prod.mk.inj heq
        exact .reopened c units _ job _ hreopen (.inl hjob.symm)
    · cases h
      exact .quit _ _
  case h_7 c units =>
    cases h
    split_ifs
    · exact .joined c units
    · exact .quit _ _
  case h_8 c job =>
    cases h
    exact .registered c job
  case h_9 c b snapshot suites prepared =>
    split at h
    · cases h
      exact .runCreated c b snapshot _ _ prepared
    · cases h
      exact .runsCreated c b snapshot prepared
  case h_10 c b snapshot suites prepared =>
    split_ifs at h
    cases h
    exact .canceled c b snapshot suites prepared
  case h_11 c b snapshot run suites prepared name =>
    cases h
    exact .prepared c b snapshot run suites prepared name
  case h_12 c =>
    cases h
    exact .settledEmpty c
  case h_13 c single prepared modelIds gate =>
    split at h
    · cases h
      exact .gateCanceled c single prepared modelIds
    · split_ifs at h
      · cases h
        exact .gateFailed c single prepared modelIds _
      · cases h
        exact .gatePassed c single prepared modelIds _ _
  case h_14 c single juries left prepared feed =>
    split at h
    · cases h
      exact .juryStored c single juries _ _ prepared feed
    · cases h
      exact .juriesStored c single juries prepared feed
  case h_15 c single left =>
    split at h
    · cases h
      exact .runFailed c single _ _
    · cases h
      exact .runsFailed c single
  case h_16 c job =>
    dsimp only at h
    split at h
    · cases h
      exact .answersListed c _ _
    · cases h
      exact .resumeListed c _
    · cases h
      exact .nullsListed c job _
  case h_17 c runs cells =>
    split at h
    · dsimp only at h
      split_ifs at h
      · cases h
        exact .nullsGone c _ _ cells
      · cases h
        exact .nullsRead c _ _ cells _
    · cases h
      exact .nullsPlanned c cells
  case h_18 c runId runs cells =>
    cases h
    exact .goneFinished c runId runs cells
  case h_19 c runs =>
    cases h
    exact .membersListed c runs _
  case h_20 c runs members reachable =>
    cases h
    exact .membersProbed c runs members reachable
  case h_21 c runs members cells =>
    split at h
    · cases h
      exact .resultsRead c _ _ members cells
    · cases h
      split_ifs with hcells
      · subst hcells
        exact .nothingOwed c members
      · exact .resultsPlanned c members cells
  case h_22 c cells =>
    split at h
    · cases h
      rename_i hreopen
      exact .runsReopened c cells _ _ hreopen
    · cases h
      exact .raceLost c cells
  case h_23 single plan env =>
    cases h
    exact .launched single plan env
  case h_24 single registered env plan e a =>
    split_ifs at h
    obtain ⟨s, hs, heq⟩ := Option.map_eq_some_iff.mp h
    cases heq
    exact .executed single registered env plan e a s hs
  case h_25 single registered env plan e =>
    split_ifs at h with hreturned
    cases h
    obtain ⟨rfl, -⟩ := hreturned
    exact .execReturned single env plan e
  case h_26 c registered =>
    split at h
    · cases h
      exact .verdict c registered _
    · cases h
      exact .unsettled c registered
  case h_27 c registered status =>
    cases h
    exact .updated c registered status
  case h_28 c settles =>
    cases h
    exact .unregistered c settles
  case h_29 => cases h

/-- The steps of the server. -/
inductive WorldStep (w : World) : WorldLabel → World → Prop
  | arrived (o : Operation) : WorldStep w (.arrive o) { w with ops := w.ops ++ [⟨o, o.begin⟩] }
  | stepped {i : ℕ} {op : Op} {choice : OpChoice} {st : Store} {executing : ℕ → Bool}
      {pc : OpPc} : w.ops[i]? = some op →
      opStep w.store w.executing op.operation op.pc choice = some (st, executing, pc) →
      WorldStep w (.op i choice)
        { store := st
          executing := executing
          ops := w.ops.set i { op with pc := pc }
          startedSince := w.note i op.pc }
  | canceled (c : ℕ) : WorldStep w (.cancelCampaign c)
      { w with executing := Function.update w.executing c false }

variable {w w' : World} {a : WorldLabel}

theorem worldStep_cases (h : worldStep w a = some w') : w.crashed = false ∧ WorldStep w a w' := by
  unfold worldStep at h
  split_ifs at h with hcrashed
  refine ⟨by simpa using hcrashed, ?_⟩
  cases a with
  | arrive o =>
    cases h
    exact .arrived o
  | op i choice =>
    obtain ⟨op, hi, hop⟩ := Option.bind_eq_some_iff.mp h
    obtain ⟨⟨st, executing, pc⟩, hstep, heq⟩ := Option.map_eq_some_iff.mp hop
    cases heq
    exact .stepped hi hstep
  | cancelCampaign c =>
    cases h
    exact .canceled c

/-- What an operation begins with and every step of it keeps, every operation of a run has. -/
theorem ops_of_world {guard : World → WorldLabel → Prop} {Q : Operation → OpPc → Prop}
    (hbegin : ∀ o, Q o o.begin)
    (hstep : ∀ st o pc choice st' pc', Q o pc → OpStep st o pc choice st' pc' → Q o pc')
    (h : Transition.Reach worldStep guard (.start st) w) : ∀ op ∈ w.ops, Q op.operation op.pc := by
  refine h.invariant (I := fun w => ∀ op ∈ w.ops, Q op.operation op.pc) ?_ ?_
  · intro op hop
    cases hop
  · intro w a w' hw _ hstep'
    cases (worldStep_cases hstep').2 with
    | arrived o =>
      intro op hop
      rcases List.mem_append.mp hop with hop | hop
      · exact hw op hop
      · obtain rfl := List.mem_singleton.mp hop
        exact hbegin o
    | @stepped i op choice st executing pc hi hop =>
      intro op' hop'
      rcases List.mem_or_eq_of_mem_set hop' with hop' | rfl
      · exact hw op' hop'
      · exact hstep _ _ _ _ _ _ (hw op (List.mem_of_getElem? hi)) (opStep_cases hop)
    | canceled c => exact hw

/-! ### Executions -/

/-- The execution an operation has become. -/
def OpPc.execution : OpPc → Option (Env × Plan × Exec)
  | .executing _ _ env plan e => some (env, plan, e)
  | _ => none

/-- What a step of an operation does to its execution and to the results. -/
inductive Advance (st : Store) (pc : OpPc) (choice : OpChoice) (st' : Store) (pc' : OpPc) : Prop
  | idle : pc'.execution = none → st'.results = st.results → Advance st pc choice st' pc'
  | kept : pc'.execution = pc.execution → st' = st → Advance st pc choice st' pc'
  | launched (single : Bool) (env : Env) (plan : Plan) : pc = .launch single plan → st' = st →
      pc'.execution = some (env, plan, plan.startExec env) → Advance st pc choice st' pc'
  | executed (env : Env) (plan : Plan) (e : Exec) (a : Label) (s : State) : choice = .exec a →
      pc.execution = some (env, plan, e) → step env plan { e with store := st } a = some s →
      st' = s.store → pc'.execution = some (env, plan, s.toExec) → Advance st pc choice st' pc'

theorem execution_admission (status : Status) (c : ℕ) : (admission o status c).execution = none := by
  cases o with
  | createEval req => rfl
  | runBatch => rfl
  | _ =>
    unfold admission
    dsimp only
    split_ifs <;> rfl

theorem execution_passed (units : List RetryUnit) : (passed o units).execution = none := by
  cases o <;> rfl

theorem execution_registered (c : ℕ) (job : Job) : (registered c job).execution = none := by
  unfold registered
  split
  · split_ifs <;> rfl
  · rfl
  · rfl

theorem execution_finishing (c : ℕ) (registered : Bool) :
    (finishing c registered).execution = none := by
  cases registered <;> rfl

/-- Apart from its execution an operation leaves the results alone. -/
theorem OpStep.advance (h : OpStep st o pc choice st' pc') : Advance st pc choice st' pc' := by
  cases h with
  | launched single plan env => exact .launched single env plan rfl rfl rfl
  | executed single registered env plan e a s hs => exact .executed env plan e a s rfl rfl hs rfl rfl
  | execReturned single env plan e => exact .kept rfl rfl
  | admitted c status => exact .idle (execution_admission status c) rfl
  | passed units => exact .idle (execution_passed units) rfl
  | registered c job => exact .idle (execution_registered c job) rfl
  | created | answersFound | runsCreated | runsFailed | unregistered =>
    exact .idle (by split_ifs <;> rfl) rfl
  | unsettled c registered | updated c registered =>
    exact .idle (execution_finishing c registered) rfl
  | reopened c units rejoin job st' hreopen => exact .idle rfl (results_reopenCampaign hreopen)
  | runsReopened c cells rejoin st' hreopen => exact .idle rfl (results_reopenCampaign hreopen)
  | settledEmpty c =>
    refine .idle rfl ?_
    unfold Store.settleEmptyCampaign
    split_ifs <;> rfl
  | prepared c b snapshot run suites prepared name =>
    refine .idle rfl ?_
    unfold prepareRun resolveJudgeModel
    split_ifs <;> rfl
  | _ => exact .idle rfl rfl

/-- The execution of the operation is one the evaluator can reach while others change the
store. -/
def OpPc.Reached (pc : OpPc) : Prop :=
  ∀ env plan e, pc.execution = some (env, plan, e) → ∀ st : Store,
    HubScope.Reached env plan { e with store := st }

theorem Operation.reached_begin (o : Operation) : o.begin.Reached := by
  intro env plan e he
  cases o <;> cases he

theorem OpStep.reached (h : OpStep st o pc choice st' pc') (hpc : pc.Reached) : pc'.Reached := by
  intro env plan e he
  cases h.advance with
  | idle hnone =>
    rw [hnone] at he
    cases he
  | kept heq => exact hpc env plan e (heq ▸ he)
  | launched single env' plan' _ _ hstart =>
    rw [hstart] at he
    cases he
    exact fun st => .start st
  | executed env' plan' e' a s _ hpc' hs _ hexec =>
    rw [hexec] at he
    cases he
    exact fun st => .others st ((hpc _ _ _ hpc' _).step hs)

/-- **Executions.** Every execution of the server is one the evaluator can reach while others
change the store. -/
theorem reached_of_world {guard : World → WorldLabel → Prop}
    (h : Transition.Reach worldStep guard (.start st) w) {op : Op} (hop : op ∈ w.ops) {e : Exec}
    (he : op.pc.execution = some (env, plan, e)) (st' : Store) :
    Reached env plan { e with store := st' } :=
  ops_of_world (Q := fun _ pc => pc.Reached) Operation.reached_begin
    (fun _ _ _ _ _ _ hpc hcases => hcases.reached hpc) h op hop _ _ _ he st'

end HubScope
