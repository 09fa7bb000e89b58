import HubScope.Alerter.Events
import HubScope.Lib.Transition
import Mathlib.Logic.Function.Basic

/-!
# The alert evaluator

A finished probe round decides an endpoint's transition. Its event is recorded at once with the
delivery unconfirmed, its vendor group is evaluated at the same decision point, and both are
buffered in an aggregation window that one flush turns into cards. Quiet hours hold a flush and
defer score drops to the summary that the end of the quiet window sends.

Every operation runs under one lock, sends included, so each is one step. What was sent and
what a flush took out of the window is kept beside the state.

## Main definitions

* `Alerter` — the evaluator's memory beside the tables and the clock it reads
* `handleRound`, `flush`, `onQuietBoundary`, `handleCampaign` — the locked sections
* `alerterStep` — one step of the process
-/

set_option autoImplicit false

namespace HubScope

/-- Consecutive failures that mark an endpoint as down. -/
def downThreshold : ℕ := 3

/-- The least number of alerted members that opens a vendor group. -/
def groupTriggerMinCount : ℕ := 2

/-- The aggregation window. -/
def alertWindow : ℤ := 60 * second

/-- The family of unclassified models. -/
def defaultFamily : String := "other"

/-- The settings the evaluator reads; an empty webhook is not configured. -/
structure AlertSettings where
  webhook : String
  alertEnabled : Bool
  scoreDropAlertEnabled : Bool
  quietHours : QuietHours

/-- A group member as a card shows it. -/
structure GroupMemberRef where
  hubName : String
  modelId : String
  protocol : String
  deriving DecidableEq, Repr

/-- An endpoint as a card shows it, frozen at decision time. -/
structure EndpointAlert where
  hubName : String
  modelId : String
  protocol : String
  family : String
  deriving DecidableEq, Repr

/-- The endpoint's identity on a group card. -/
def EndpointAlert.member (a : EndpointAlert) : GroupMemberRef :=
  ⟨a.hubName, a.modelId, a.protocol⟩

def AlertEndpoint.ref (e : AlertEndpoint) : GroupMemberRef := ⟨e.hubName, e.modelId, e.protocol⟩

/-- An endpoint transition that waits for the flush; `absorbed` tells that its group was open
before or after it. -/
structure BufferedTransition where
  eventId : ℕ
  kind : AlertKind
  alert : EndpointAlert
  absorbed : Bool
  deriving DecidableEq, Repr

/-- A group transition that waits for the flush, with the card's content frozen. -/
structure BufferedGroupTransition where
  eventId : ℕ
  kind : AlertKind
  family : String
  total : ℕ
  faulty : List GroupMemberRef
  recovered : List GroupMemberRef
  deriving DecidableEq, Repr

/-- What a message shows. -/
inductive Card
  | group (g : BufferedGroupTransition)
  | batch (kind : AlertKind) (alerts : List EndpointAlert)
  | quietSummary (endpoints : List AlertEndpoint) (families : List String) (drops : List ℕ)
  | scoreDrop (campaignId modelDbId : ℕ)
  deriving DecidableEq, Repr

/-- A message handed to the webhook: the events whose flag is written back with it, whether the
send succeeded, when it was sent and the last event recorded by then. -/
structure Delivery where
  card : Card
  eventIds : List ℕ
  ok : Bool
  sentAt : ℤ
  upTo : ℕ
  deriving DecidableEq, Repr

/-- The boundary timer, the instant it is armed for, and whether its done channel is there. -/
structure QuietTimer where
  timer : Option ℤ
  boundaryAt : Option ℤ
  done : Bool
  deriving DecidableEq, Repr

namespace QuietTimer

/-- Stop the armed timer and close its done channel. -/
def disarm (τ : QuietTimer) : QuietTimer :=
  if τ.timer.isNone then τ else ⟨none, none, false⟩

/-- Arm the timer for `next`; a zero time fires at once. -/
def arm (next : Option ℤ) (now : ℤ) : QuietTimer := ⟨some (next.getD now), next, true⟩

/-- Arm the timer for the next window edge, or disarm it when the window is not active. A
boundary that is due is left to its handler. -/
def sync (τ : QuietTimer) (q : QuietHours) (now : ℤ) : QuietTimer :=
  if !q.active then τ.disarm
  else if τ.timer.isNone then arm (q.nextBoundary now) now
  -- the boundary is due: its handler arms the timer again after the summary
  else if τ.boundaryAt.all (· ≤ now) then τ
  else if q.nextBoundary now = τ.boundaryAt then τ
  else arm (q.nextBoundary now) now

end QuietTimer

/-- The tables and the clock the evaluator reads, its memory, every message it sent, and every
transition whose window fired, with the fire time. -/
structure Alerter where
  now : ℤ
  settings : AlertSettings
  endpoints : List AlertEndpoint
  log : AlertLog
  alerted : ℕ → Option Bool
  groupAlerted : String → Option Bool
  pending : List BufferedTransition
  groupPending : List BufferedGroupTransition
  windowTimer : Option ℤ
  windowFiresAt : Option ℤ
  quietTimer : QuietTimer
  quietScoreDrops : List ℕ
  deliveries : List Delivery
  fired : List (BufferedTransition × ℤ)

/-- The enabled endpoints of active models of a family. -/
def listEnabledEndpointsByFamily (endpoints : List AlertEndpoint) (family : String) :
    List AlertEndpoint :=
  endpoints.filter fun e => e.enabled && e.modelActive && e.family = family

namespace Alerter

/-! ### Timers -/

/-- Keep the boundary timer armed for the next window edge. -/
def syncQuietTimer (s : Alerter) : Alerter :=
  { s with quietTimer := s.quietTimer.sync s.settings.quietHours s.now }

/-- Arm the flush timer on the first pending item. -/
def armWindow (s : Alerter) : Alerter :=
  { s with
    windowFiresAt :=
      if s.windowTimer.isSome then s.windowFiresAt else some (s.now + alertWindow)
    windowTimer := if s.windowTimer.isSome then s.windowTimer else some (s.now + alertWindow) }

/-- Add an endpoint transition to the window. -/
def buffer (s : Alerter) (t : BufferedTransition) : Alerter :=
  { s with pending := s.pending ++ [t] }.armWindow.syncQuietTimer

/-- Add a group transition to the window. -/
def bufferGroup (s : Alerter) (g : BufferedGroupTransition) : Alerter :=
  { s with groupPending := s.groupPending ++ [g] }.armWindow.syncQuietTimer

/-! ### Flags -/

/-- Whether the endpoint has an open down alert; an endpoint not seen yet is rebuilt from the
log. -/
def alertedFlag (s : Alerter) (endpointId : ℕ) : Bool :=
  match s.alerted endpointId with
  | some flagged => flagged
  | none => (s.log.latestDownRecoveryEvent endpointId).any fun v => v.kind = .down

/-- Read an endpoint's flag and keep it. -/
def isAlerted (s : Alerter) (endpointId : ℕ) : Bool × Alerter :=
  (s.alertedFlag endpointId,
    { s with alerted := Function.update s.alerted endpointId (some (s.alertedFlag endpointId)) })

/-- Whether the family has an open group alert; a family not seen yet is rebuilt from the log. -/
def groupFlag (s : Alerter) (family : String) : Bool :=
  match s.groupAlerted family with
  | some flagged => flagged
  | none => (s.log.latestGroupEvent family).any fun v => v.kind = .groupDown

/-- Read a family's flag and keep it. -/
def isGroupAlerted (s : Alerter) (family : String) : Bool × Alerter :=
  (s.groupFlag family,
    { s with groupAlerted := Function.update s.groupAlerted family (some (s.groupFlag family)) })

/-- The alerted ones among `members`. -/
def faultyMembers (s : Alerter) : List AlertEndpoint → List AlertEndpoint × Alerter
  | [] => ([], s)
  | m :: ms =>
    let (flagged, s) := s.isAlerted m.id
    let (faulty, s) := s.faultyMembers ms
    (if flagged then m :: faulty else faulty, s)

/-! ### Transitions -/

/-- The members that recovered while the group was open. -/
def recoveredGroupMembers (s : Alerter) (family : String) (members faulty : List AlertEndpoint) :
    List AlertEndpoint :=
  match s.log.latestGroupEvent family with
  | none => []
  | some opened =>
    -- a closing is about the outage that its opening began
    if opened.kind ≠ .groupDown then []
    else members.filter fun m =>
      m.id ∉ faulty.map AlertEndpoint.id &&
        (s.log.latestDownRecoveryEvent m.id).any fun v => v.kind = .recovered && opened.id < v.id

/-- Whether down and group alerts are recorded. -/
def configured (s : Alerter) : Bool := s.settings.webhook ≠ "" && s.settings.alertEnabled

/-- Flip the group flag, record the group event and buffer the card. -/
def groupTransition (s : Alerter) (family : String) (kind : AlertKind)
    (members faulty : List AlertEndpoint) : Alerter :=
  let s := { s with
    groupAlerted := Function.update s.groupAlerted family (some (kind = .groupDown)) }
  -- the flag flips without an event while alerts are switched off
  if !s.configured then s
  else
    let recovered :=
      if kind = .groupRecovered then s.recoveredGroupMembers family members faulty else []
    let (log, event) := s.log.createAlertEvent none kind false s.now (some family)
    { s with log }.bufferGroup ⟨event.id, kind, family, members.length,
      faulty.map AlertEndpoint.ref, recovered.map AlertEndpoint.ref⟩

/-- Recompute a family's group alert: open it at half of its members and at least two, close it
below half. -/
def evaluateGroup (s : Alerter) (family : String) : Alerter :=
  if family = "" ∨ family = defaultFamily then s
  else
    let members := listEnabledEndpointsByFamily s.endpoints family
    if members = [] then s
    else
      let (isOpen, s) := s.isGroupAlerted family
      let (faulty, s) := s.faultyMembers members
      if !isOpen ∧ groupTriggerMinCount ≤ faulty.length ∧ members.length ≤ 2 * faulty.length then
        s.groupTransition family .groupDown members faulty
      else if isOpen ∧ 2 * faulty.length < members.length then
        s.groupTransition family .groupRecovered members faulty
      else s

/-- The content of an endpoint's card; a deleted endpoint has none. -/
def buildEndpointAlert (s : Alerter) (endpointId : ℕ) : Option EndpointAlert :=
  (s.endpoints.find? fun e => e.id = endpointId).map fun e =>
    ⟨e.hubName, e.modelId, e.protocol, e.family⟩

/-- Flip the endpoint's flag, record its event, evaluate its group and buffer it. -/
def transition (s : Alerter) (endpointId : ℕ) (kind : AlertKind) (alerted : Bool) : Alerter :=
  match s.buildEndpointAlert endpointId with
  | none => s
  | some alert =>
    let s := { s with alerted := Function.update s.alerted endpointId (some alerted) }
    if s.configured then
      let (log, event) := s.log.createAlertEvent (some endpointId) kind false s.now none
      -- open before or after: the group's card tells of the member in both cases
      let (groupWasOpen, s) := { s with log }.isGroupAlerted alert.family
      let s := s.evaluateGroup alert.family
      let (groupOpenNow, s) := s.isGroupAlerted alert.family
      s.buffer ⟨event.id, kind, alert, groupWasOpen || groupOpenNow⟩
    -- nothing is recorded or buffered, but the flags of the families are kept up
    else (s.isGroupAlerted alert.family).2.evaluateGroup alert.family

/-- Evaluate a finished probe round after `consecutive` failures in a row. -/
def handleRound (s : Alerter) (endpointId consecutive : ℕ) : Alerter :=
  let (alerted, s) := s.isAlerted endpointId
  if !alerted ∧ downThreshold ≤ consecutive then s.transition endpointId .down true
  else if alerted ∧ consecutive < downThreshold then s.transition endpointId .recovered false
  else s

/-! ### Sending -/

/-- Send one card, write the result back to its events and record the batch event. -/
def sendCard (s : Alerter) (card : Card) (eventIds : List ℕ) (ok : Bool) : Alerter :=
  { s with
    log := ((s.log.updateAlertEventsSentOK eventIds ok).createAlertEvent
      none .batch ok s.now none).1
    deliveries := s.deliveries ++ [⟨card, eventIds, ok, s.now, s.log.seq⟩] }

/-- Send the cards in order; `outcome` tells which sends succeed. -/
def sendCards (s : Alerter) (outcome : ℕ → Bool) : List (Card × List ℕ) → Alerter
  | [] => s
  | (card, eventIds) :: cards =>
    (s.sendCard card eventIds (outcome 0)).sendCards (fun k => outcome (k + 1)) cards

/-- Replay what one group card covers of `family`: an opening adds the faulty members it lists,
a closing removes the recovered ones. -/
def cover (family : String) (covered : List GroupMemberRef) (g : BufferedGroupTransition) :
    List GroupMemberRef :=
  if g.family ≠ family then covered
  else if g.kind = .groupDown then covered ++ g.faulty
  else if g.kind = .groupRecovered then covered.filter (· ∉ g.recovered)
  else covered

/-- The members of `family` whose story the group cards tell. -/
def coveredMembers (family : String) (groups : List BufferedGroupTransition) :
    List GroupMemberRef :=
  groups.foldl (cover family) []

/-- The transition is shown on an endpoint card. -/
def renderable (groups : List BufferedGroupTransition) (t : BufferedTransition) : Bool :=
  !t.absorbed && !(t.kind = .down && t.alert.member ∈ coveredMembers t.alert.family groups)

/-- The card of one kind with its events; no card without a transition. -/
def batchCard (kind : AlertKind) (pending : List BufferedTransition) : List (Card × List ℕ) :=
  let group := pending.filter fun t => t.kind = kind
  if group = [] then []
  else [(.batch kind (group.map BufferedTransition.alert),
    group.map BufferedTransition.eventId)]

/-- The cards of a flush: the group cards, then one endpoint card for each kind. -/
def flushCards (pending : List BufferedTransition) (groups : List BufferedGroupTransition) :
    List (Card × List ℕ) :=
  groups.map (fun g => (.group g, [g.eventId])) ++
    (batchCard .down (pending.filter (renderable groups)) ++
      batchCard .recovered (pending.filter (renderable groups)))

/-- Quiet hours hold a window that was born or fires inside them. -/
def held (q : QuietHours) (firesAt : ℤ) : Bool :=
  q.active && (q.contains firesAt || q.contains (firesAt - alertWindow))

/-- The buffered transitions whose event is not confirmed. -/
def unconfirmed (s : Alerter) : List BufferedTransition :=
  let confirmed := s.log.confirmedAlertEvents (s.pending.map BufferedTransition.eventId ++
    s.groupPending.map BufferedGroupTransition.eventId)
  s.pending.filter fun t => t.eventId ∉ confirmed

/-- The buffered group transitions whose event is not confirmed. -/
def unconfirmedGroups (s : Alerter) : List BufferedGroupTransition :=
  let confirmed := s.log.confirmedAlertEvents (s.pending.map BufferedTransition.eventId ++
    s.groupPending.map BufferedGroupTransition.eventId)
  s.groupPending.filter fun g => g.eventId ∉ confirmed

/-- When the armed window fires. -/
def firesAt (s : Alerter) : ℤ := s.windowFiresAt.getD s.now

/-- Take everything out of the window. -/
def takeWindow (s : Alerter) : Alerter :=
  { s with
    pending := []
    groupPending := []
    windowTimer := none
    windowFiresAt := none
    fired := s.fired ++ s.pending.map fun t => (t, s.firesAt) }.syncQuietTimer

/-- Send what the window buffered. -/
def flush (s : Alerter) (outcome : ℕ → Bool) : Alerter :=
  -- whatever holds the cards back, the window is over
  if s.pending = [] ∧ s.groupPending = [] then s.takeWindow
  else if held s.settings.quietHours s.firesAt then s.takeWindow
  else if s.unconfirmed = [] ∧ s.unconfirmedGroups = [] then s.takeWindow
  else if s.settings.webhook = "" then s.takeWindow
  else s.takeWindow.sendCards outcome (flushCards s.unconfirmed s.unconfirmedGroups)

/-! ### Quiet hours -/

/-- The open groups whose anchor is not confirmed. -/
def summaryGroups (s : Alerter) : List (String × AlertEvent) :=
  s.log.listOpenGroupAlerts.filter fun row => !row.2.sentOk

/-- The open endpoints whose anchor is not confirmed and whose family the summary does not
report. -/
def summaryEndpoints (s : Alerter) : List (AlertEndpoint × AlertEvent) :=
  (s.log.listOpenEndpointAlerts s.endpoints).filter fun row =>
    !row.2.sentOk && row.1.family ∉ s.summaryGroups.map Prod.fst

/-- The events a summary confirms. -/
def summaryIds (s : Alerter) : List ℕ :=
  s.summaryGroups.map (fun row => row.2.id) ++ s.summaryEndpoints.map (fun row => row.2.id) ++
    s.quietScoreDrops

/-- Send the summary of a quiet window that ended. -/
def deliverQuietSummary (s : Alerter) (ok : Bool) : Alerter :=
  -- nobody to tell: what was held is dropped
  if s.settings.webhook = "" then { s with quietScoreDrops := [] }
  else if s.summaryEndpoints = [] ∧ s.summaryGroups = [] ∧ s.quietScoreDrops = [] then s
  else
    { s with
      log := ((s.log.updateAlertEventsSentOK s.summaryIds ok).createAlertEvent
        none .quietSummary ok s.now none).1
      deliveries := s.deliveries ++ [⟨.quietSummary (s.summaryEndpoints.map Prod.fst)
        (s.summaryGroups.map Prod.fst) s.quietScoreDrops, s.summaryIds, ok, s.now, s.log.seq⟩]
      quietScoreDrops := [] }

/-- Handle a boundary that fired: deliver the summary if the window ended, and arm the timer for
the next one. -/
def onQuietBoundary (s : Alerter) (ok : Bool) : Alerter :=
  -- the edge is the start of the window, or quiet hours are off: there is nothing to sum up
  (if s.settings.quietHours.quiet s.now || !s.settings.quietHours.active then s
    else s.deliverQuietSummary ok).syncQuietTimer

/-! ### Score drops -/

/-- Record a score drop without sending it. -/
def deferScoreDrop (s : Alerter) : Alerter :=
  let (log, event) := s.log.createAlertEvent none .scoreDrop false s.now none
  { s with log, quietScoreDrops := s.quietScoreDrops ++ [event.id] }

/-- Send a score drop and record it. -/
def sendModelAlert (s : Alerter) (campaignId modelDbId : ℕ) (ok : Bool) : Alerter :=
  { s with
    log := (s.log.createAlertEvent none .scoreDrop ok s.now none).1
    deliveries := s.deliveries ++ [⟨.scoreDrop campaignId modelDbId, [], ok, s.now, s.log.seq⟩] }

/-- Alert the models in order, or defer them inside quiet hours. -/
def alertModels (s : Alerter) (campaignId : ℕ) (quiet : Bool) (outcome : ℕ → Bool) :
    List ℕ → Alerter
  | [] => s
  | modelDbId :: models =>
    -- quiet is asked once for all models of the campaign
    if quiet then s.deferScoreDrop.alertModels campaignId quiet (fun k => outcome (k + 1)) models
    else (s.sendModelAlert campaignId modelDbId (outcome 0)).alertModels campaignId quiet
      (fun k => outcome (k + 1)) models

/-- Record `n` skipped comparisons. -/
def annotateSkips (s : Alerter) : ℕ → Alerter
  | 0 => s
  | n + 1 =>
    { s with log := (s.log.createAlertEvent none .scoreDropSkipped false s.now none).1 }
      |>.annotateSkips n

/-- Handle a settled campaign. `skipped` comparisons are annotated and `models` fell beyond the
threshold. -/
def handleCampaign (s : Alerter) (campaignId : ℕ) (done : Bool) (skipped : ℕ) (models : List ℕ)
    (outcome : ℕ → Bool) : Alerter :=
  if !done || !s.settings.scoreDropAlertEnabled || s.settings.webhook = "" then s
  else
    let s := (s.annotateSkips skipped).syncQuietTimer
    s.alertModels campaignId (s.settings.quietHours.quiet s.now) outcome models

end Alerter

/-- What moves the process: the clock, the locked sections of the evaluator, an administrator
who saves settings or endpoints or deletes one, and a one-shot event of another part. -/
inductive AlerterLabel
  | clock (now : ℤ)
  | handleRound (endpointId consecutive : ℕ)
  | flush (outcome : ℕ → Bool)
  | quietBoundary (ok : Bool)
  | handleCampaign (campaignId : ℕ) (done : Bool) (skipped : ℕ) (models : List ℕ)
      (outcome : ℕ → Bool)
  | saveSettings (settings : AlertSettings)
  | saveEndpoints (endpoints : List AlertEndpoint)
  | deleteEndpoint (endpointId : ℕ)
  | recordEvent (kind : AlertKind) (ok : Bool)

/-- The kinds that other parts of the process record. -/
def AlertKind.oneShot (kind : AlertKind) : Bool :=
  kind = .test ∨ kind = .retirePending ∨ kind = .retired

/-- One step of the process. A timer's handler runs once its instant is reached. -/
def alerterStep (s : Alerter) : AlerterLabel → Option Alerter
  | .clock now => some { s with now }
  | .handleRound endpointId consecutive => some (s.handleRound endpointId consecutive)
  | .flush outcome =>
    if s.windowTimer.any (· ≤ s.now) then some (s.flush outcome) else none
  | .quietBoundary ok =>
    if s.quietTimer.timer.any (· ≤ s.now) then
      some ({ s with quietTimer := ⟨none, s.quietTimer.boundaryAt, false⟩ }.onQuietBoundary ok)
    else none
  | .handleCampaign campaignId done skipped models outcome =>
    some (s.handleCampaign campaignId done skipped models outcome)
  | .saveSettings settings => some { s with settings }
  | .saveEndpoints endpoints => some { s with endpoints }
  | .deleteEndpoint endpointId =>
    some { s with
      endpoints := s.endpoints.filter fun e => e.id ≠ endpointId
      log := s.log.deleteEvents endpointId }
  | .recordEvent kind ok =>
    if kind.oneShot then
      some { s with log := (s.log.createAlertEvent none kind ok s.now none).1 }
    else none

/-- A process that has just started over a log. -/
def Alerter.start (now : ℤ) (settings : AlertSettings) (endpoints : List AlertEndpoint)
    (log : AlertLog) : Alerter :=
  ⟨now, settings, endpoints, log, fun _ => none, fun _ => none, [], [], none, none,
    ⟨none, none, false⟩, [], [], []⟩

end HubScope
