import HubScope.Evaluator.Confirmation
import HubScope.Evaluator.Planning
import HubScope.Evaluator.Registry
import HubScope.Server.Session

/-!
# The by-id requests of the console

The handlers of the requests that name a campaign, an eval run, a live-feed result, a task or a
share link. A campaign is visible to a session that is not a super_admin's when one of its member
models belongs to the session's hub; `loadVisibleCampaign` answers for an invisible campaign as for
an unknown one.

What a view shows of a campaign, a result or a run that the session may see is a function of the
state, given by `Views`. Store calls succeed.

## Main definitions

* `Console` — the tables, the executing campaigns and the executions started
* `Answer`, `ConsoleRequest`, `Views` — responses, requests and the rendering of a view
* `loadVisibleCampaign`, `campaignVisibleToSession` — the visibility rule
* `serve` — the answer to a request and the state it leaves
-/

set_option autoImplicit false

namespace HubScope

/-! ### Tables -/

/-- The kinds of background jobs. -/
inductive TaskType
  | evalRun
  | discoverySync
  | rollup
  | retentionCleanup
  deriving DecidableEq, Repr

/-- The states of a background job. -/
inductive TaskStatus
  | pending
  | running
  | success
  | failed
  deriving DecidableEq, Repr

/-- What a task works on. -/
inductive TaskEntity
  | evalRun (id : ℕ)
  | hub (id : ℕ)
  | nothing
  deriving DecidableEq, Repr

/-- A `tasks` row. -/
structure TaskRow where
  id : ℕ
  type : TaskType
  status : TaskStatus
  entity : TaskEntity
  deriving DecidableEq, Repr

/-- A `task_logs` row. -/
structure TaskLog where
  taskId : ℕ
  level : String
  message : String
  deriving DecidableEq, Repr

/-- A `share_links` row. -/
structure ShareLink where
  id : ℕ
  token : String
  campaignId : ℕ
  createdBy : String
  revokedAt : Option ℕ
  deriving DecidableEq, Repr

/-- An `audit_logs` row. -/
structure AuditLog where
  actor : String
  action : String
  objectType : String
  objectId : ℕ
  detail : String
  result : String
  hubId : Option ℕ
  deriving DecidableEq, Repr

/-- An execution that a request starts. -/
inductive Launch
  | retryFailedResults
  | retryAnsweredUnits (units : List RetryUnit) (settled : Bool)
  | resumeCampaign
  deriving DecidableEq, Repr

/-- The state the requests read and change. `modelHubs` is the hub column of the models table and
`resultIds` the id and run columns of the result rows. -/
structure Console where
  store : Store
  modelHubs : List (ℕ × ℕ)
  resultIds : List (ℕ × ℕ)
  tasks : List TaskRow
  taskLogs : List TaskLog
  shareLinks : List ShareLink
  shareLinkSeq : ℕ
  auditLogs : List AuditLog
  registry : Registry
  gate : Gate
  launched : List (ℕ × Launch)
  now : ℕ

/-- A response. `aborted` is a connection that a panic of the handler closed. -/
inductive Answer
  | error (status : ℕ) (message : String)
  | page (status : ℕ) (content : String)
  | units (status accepted skipped : ℕ)
  | flag (status : ℕ) (name : String)
  | task (task : TaskRow) (logs : List TaskLog)
  | shareLink (link : ShareLink)
  | noContent
  | aborted
  deriving DecidableEq, Repr

/-- The views of a campaign, with their query parameters. -/
inductive CampaignView
  | detail
  | created
  | report (family sort : String)
  | trends (model : String)
  | liveFeed (sinceId limit : String)
  deriving DecidableEq, Repr

/-- What is shown of a campaign, a live-feed result and an eval run. -/
structure Views where
  campaign : CampaignView → Console → Campaign → Answer
  result : Console → ℕ → Answer
  run : Console → EvalRun → Answer

namespace Console

/-- `audit`. -/
def audit (s : Console) (u : SessionUser) (action objectType : String) (objectId : ℕ)
    (detail result : String) : Console :=
  { s with auditLogs := s.auditLogs ++
      [⟨u.username, action, objectType, objectId, detail, result, u.hubId⟩] }

/-- An execution is started. -/
def launch (s : Console) (campaignId : ℕ) (l : Launch) : Console :=
  { s with launched := s.launched ++ [(campaignId, l)] }

/-- `CampaignVisibleToHub`: a member model of the campaign belongs to the hub. -/
def campaignVisibleToHub (s : Console) (campaignId hubId : ℕ) : Bool :=
  s.store.campaignModels.any fun cm => cm.1 = campaignId && s.modelHubs.contains (cm.2, hubId)

/-- `GetTask`. -/
def getTask (s : Console) (id : ℕ) : Option TaskRow := s.tasks.find? (·.id = id)

/-- `ListTaskLogs`. -/
def listTaskLogs (s : Console) (taskId : ℕ) : List TaskLog := s.taskLogs.filter (·.taskId = taskId)

/-- `RevokeShareLink`: `none` when there is no such link; a revoked link stays as it is. -/
def revokeShareLink (s : Console) (id : ℕ) : Option Console :=
  if s.shareLinks.any (·.id = id) then
    some { s with shareLinks := s.shareLinks.map fun l =>
      if l.id = id ∧ l.revokedAt = none then { l with revokedAt := some s.now } else l }
  else none

/-- `CreateShareLink`. -/
def createShareLink (s : Console) (token : String) (campaignId : ℕ) (createdBy : String) :
    ShareLink × Console :=
  let link : ShareLink := ⟨s.shareLinkSeq + 1, token, campaignId, createdBy, none⟩
  (link, { s with shareLinks := s.shareLinks ++ [link], shareLinkSeq := s.shareLinkSeq + 1 })

/-- The run of a result row of the campaign, as `GetCampaignLiveFeedResult` joins it. -/
def hasResult (s : Console) (campaignId resultId : ℕ) : Bool :=
  s.resultIds.any fun res => res.1 = resultId &&
    s.store.runs.any fun run => run.id = res.2 ∧ run.campaignId = campaignId

end Console

/-! ### Visibility -/

/-- The answer for a campaign there is not, or that the session does not see. -/
def campaignNotFound : Answer := .error 404 "campaign not found"

/-- `campaignVisibleToSession`. -/
def campaignVisibleToSession (s : Console) (u : SessionUser) (campaignId : ℕ) :
    Except Answer Unit :=
  if u.role = .superAdmin then .ok ()
  else
    match u.hubId with
    | none => .error campaignNotFound
    | some hub =>
      if s.campaignVisibleToHub campaignId hub then .ok () else .error campaignNotFound

/-- `loadVisibleCampaign`. An id that is not a number is `none`. -/
def loadVisibleCampaign (s : Console) (u : SessionUser) (id : Option ℕ) :
    Except Answer Campaign :=
  match id with
  | none => .error (.error 400 "invalid campaign id")
  | some id =>
    match s.store.getCampaign id with
    | none => .error campaignNotFound
    | some c => (campaignVisibleToSession s u id).map fun _ => c

/-- A handler that starts with `loadVisibleCampaign`. -/
def withVisibleCampaign (s : Console) (u : SessionUser) (id : Option ℕ)
    (k : Campaign → Answer × Console) : Answer × Console :=
  match loadVisibleCampaign s u id with
  | .error answer => (answer, s)
  | .ok c => k c

/-! ### Handlers -/

variable (v : Views)

/-- `writeCampaignCreated`. -/
def writeCampaignCreated (s : Console) (campaignId : ℕ) : Answer :=
  match s.store.getCampaign campaignId with
  | none => .error 500 "failed to load campaign"
  | some c => v.campaign .created s c

/-- `GET /api/campaigns/{id}` and the views below it. -/
def handleCampaignView (s : Console) (u : SessionUser) (id : Option ℕ) (view : CampaignView) :
    Answer × Console :=
  withVisibleCampaign s u id fun c => (v.campaign view s c, s)

/-- `GET /api/campaigns/{id}/live-feed/{resultID}`. -/
def handleGetCampaignLiveFeedResult (s : Console) (u : SessionUser) (id resultId : Option ℕ) :
    Answer × Console :=
  withVisibleCampaign s u id fun c =>
    match resultId with
    | none => (.error 400 "invalid result id", s)
    | some resultId =>
      if s.hasResult c.id resultId then (v.result s resultId, s)
      else (.error 404 "result not found", s)

/-- `POST /api/campaigns/{id}/retry-failed`. It loads the campaign without asking whether the
session sees it. -/
def handleRetryCampaignFailed (s : Console) (u : SessionUser) (id : Option ℕ) :
    Answer × Console :=
  match id with
  | none => (.error 400 "invalid campaign id", s)
  | some id =>
    match s.store.getCampaign id with
    | none => (campaignNotFound, s)
    | some c =>
      if c.status ≠ .done ∧ c.status ≠ .failed then (.error 409 "campaign is not settled", s)
      else if s.store.countCampaignNullScoreResults id = 0 then
        (.error 409 "campaign has no failed results to retry", s)
      else if s.store.hasUnfinishedCampaign then
        (.error 409 "an evaluation campaign is already running", s)
      else
        match s.store.reopenCampaignForRetry id with
        | none => (.error 409 "campaign is not settled", s)
        | some st =>
          let s := ({ s with store := st }.launch id .retryFailedResults).audit u
            "eval.retry_failed" "campaign" id "" "accepted"
          (writeCampaignCreated v s id, s)

/-- `maxRetryUnits`. -/
def maxRetryUnits : ℕ := 200

/-- `POST /api/campaigns/{id}/retry-units`. A body that is not JSON is `none`. -/
def handleRetryCampaignUnits (s : Console) (u : SessionUser) (id : Option ℕ)
    (body : Option (List RetryUnit)) : Answer × Console :=
  withVisibleCampaign s u id fun c =>
    if c.status ≠ .done ∧ c.status ≠ .failed ∧ c.status ≠ .running then
      (.error 409 "campaign is not running or settled", s)
    else
      match body with
      | none => (.error 400 "invalid request body", s)
      | some items =>
        if items.length = 0 ∨ maxRetryUnits < items.length then
          (.error 400 "items must contain 1 to 200 units", s)
        else if items.any fun item => item.modelDbId = 0 ∨ item.caseId = 0 then
          (.error 400 "model_db_id and case_id must be positive", s)
        else
          let accepted := acceptUnits s.store c.id items
          let skipped := (Grouping.firstSeen items).length - accepted.length
          if accepted = [] then (.units 200 0 skipped, s)
          else
            let settled := decide (c.status ≠ .running)
            let start (s : Console) : Answer × Console :=
              let count := accepted.length
              (.units 202 count skipped,
                (s.launch c.id (.retryAnsweredUnits accepted settled)).audit u "eval.retry_units"
                  "campaign" c.id s!"accepted={count} skipped={skipped}" "accepted")
            if settled then
              if s.store.hasUnfinishedCampaign then
                (.error 409 "an evaluation campaign is already running", s)
              else
                match s.store.reopenCampaignForUnitRetryAny c.id accepted with
                | none => (.error 409 "campaign is not settled", s)
                | some st => start { s with store := st }
            else if s.registry.isExecuting c.id then start s
            else (.error 409 "campaign is not actively executing", s)

/-- `POST /api/campaigns/{id}/restart`. -/
def handleRestartCampaign (s : Console) (u : SessionUser) (id : Option ℕ) : Answer × Console :=
  withVisibleCampaign s u id fun c =>
    if c.status ≠ .done ∧ c.status ≠ .failed then (.error 409 "campaign is not settled", s)
    else if s.store.hasUnfinishedCampaign then
      (.error 409 "an evaluation campaign is already running", s)
    else
      let s := (s.launch c.id .resumeCampaign).audit u "eval.resume" "campaign" c.id "" "accepted"
      (writeCampaignCreated v s c.id, s)

/-- `POST /api/campaigns/{id}/confirm-jury`. A confirmation of a closed channel panics. -/
def handleConfirmJury (s : Console) (u : SessionUser) (id : Option ℕ) : Answer × Console :=
  withVisibleCampaign s u id fun c =>
    if c.status ≠ .running then (.error 409 "campaign is not running", s)
    else
      match s.gate.confirmCh c.id with
      | none => (.error 409 "campaign is not awaiting jury confirmation", s)
      | some ch =>
        if s.gate.closed ch then (.aborted, s)
        else
          let gate := { s.gate with closed := Function.update s.gate.closed ch true }
          (.flag 200 "confirmed",
            { s with gate := gate }.audit u "eval.confirm_jury" "campaign" c.id "" "accepted")

/-- `POST /api/campaigns/{id}/cancel`. -/
def handleCancelCampaign (s : Console) (u : SessionUser) (id : Option ℕ) : Answer × Console :=
  withVisibleCampaign s u id fun c =>
    if c.status.terminal then (.error 409 "campaign is already settled", s)
    else
      let (registry, found) := s.registry.cancelCampaign c.id
      if found then
        (.flag 202 "canceled",
          { s with registry := registry }.audit u "eval.cancel" "campaign" c.id "" "accepted")
      else (.error 409 "campaign is not actively executing", s)

/-- `POST /api/campaigns/{id}/share-links`. A token that could not be minted is `none`. -/
def handleCreateShareLink (s : Console) (u : SessionUser) (id : Option ℕ) (token : Option String) :
    Answer × Console :=
  withVisibleCampaign s u id fun c =>
    match token with
    | none => (.error 500 "failed to mint share token", s)
    | some token =>
      let (link, s) := s.createShareLink token c.id u.username
      let campaignId := c.id
      (.shareLink link,
        s.audit u "share_link.create" "share_link" link.id s!"campaign_id={campaignId}" "success")

/-- `GET /api/evals/{id}`. -/
def handleGetEval (s : Console) (u : SessionUser) (id : Option ℕ) : Answer × Console :=
  match id with
  | none => (.error 400 "invalid eval run id", s)
  | some id =>
    match s.store.getEvalRun id with
    | none => (.error 404 "eval run not found", s)
    | some run =>
      match campaignVisibleToSession s u run.campaignId with
      | .error answer => (answer, s)
      | .ok () => (v.run s run, s)

/-- `GET /api/tasks/{id}`. It does not look at the session. -/
def handleGetTask (s : Console) (id : Option ℕ) : Answer × Console :=
  match id with
  | none => (.error 400 "invalid task id", s)
  | some id =>
    match s.getTask id with
    | none => (.error 404 "task not found", s)
    | some task => (.task task (s.listTaskLogs id), s)

/-- `DELETE /api/share-links/{id}`. It looks at the session for the audit row only. -/
def handleRevokeShareLink (s : Console) (u : SessionUser) (id : Option ℕ) : Answer × Console :=
  match id with
  | none => (.error 400 "invalid share link id", s)
  | some id =>
    match s.revokeShareLink id with
    | none => (.error 404 "share link not found", s)
    | some s => (.noContent, s.audit u "share_link.revoke" "share_link" id "" "success")

/-! ### Requests -/

/-- What a request does with the campaign its path names. -/
inductive CampaignAction
  | view (view : CampaignView)
  | liveFeedResult (resultId : Option ℕ)
  | retryFailed
  | retryUnits (body : Option (List RetryUnit))
  | restart
  | confirmJury
  | cancel
  | createShareLink (token : Option String)
  deriving DecidableEq, Repr

/-- The actions behind the role check of the hub-scoped writes. -/
def CampaignAction.writes : CampaignAction → Bool
  | .view _ | .liveFeedResult _ => false
  | .retryFailed | .retryUnits _ | .restart | .confirmJury | .cancel | .createShareLink _ => true

/-- The by-id requests. -/
inductive ConsoleRequest
  | campaign (id : Option ℕ) (action : CampaignAction)
  | evalRun (id : Option ℕ)
  | task (id : Option ℕ)
  | revokeShareLink (id : Option ℕ)
  deriving DecidableEq, Repr

/-- The roles of the hub-scoped writes. -/
def writerRoles : List Role := [.superAdmin, .admin, .operator]

/-- A route behind the role check of the hub-scoped writes. -/
def behindWriterRoles (s : Console) (u : SessionUser) (response : Answer × Console) :
    Answer × Console :=
  if requireRole writerRoles (some u) then response else (.error 403 "insufficient role", s)

/-- The handler of an action on a campaign. -/
def serveCampaign (s : Console) (u : SessionUser) (id : Option ℕ) :
    CampaignAction → Answer × Console
  | .view view => handleCampaignView v s u id view
  | .liveFeedResult resultId => handleGetCampaignLiveFeedResult v s u id resultId
  | .retryFailed => handleRetryCampaignFailed v s u id
  | .retryUnits body => handleRetryCampaignUnits s u id body
  | .restart => handleRestartCampaign v s u id
  | .confirmJury => handleConfirmJury s u id
  | .cancel => handleCancelCampaign s u id
  | .createShareLink token => handleCreateShareLink s u id token

/-- The answer to a request of a session, and the state after it. -/
def serve (s : Console) (u : SessionUser) : ConsoleRequest → Answer × Console
  | .campaign id action =>
    if action.writes then behindWriterRoles s u (serveCampaign v s u id action)
    else serveCampaign v s u id action
  | .evalRun id => handleGetEval v s u id
  | .task id => handleGetTask s id
  | .revokeShareLink id => behindWriterRoles s u (handleRevokeShareLink s u id)

end HubScope
