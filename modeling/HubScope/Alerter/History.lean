import HubScope.Alerter.Coverage

/-!
# The history of transitions

The down, recovered and group events of the log, without their delivery flags. Sending does not
change it and a configured round appends what it records. In a chronicle the flags in memory and
the flags that a restart rebuilds are both read off the last entry of an endpoint or a family.

## Main definitions

* `AlertLog.history` — the transitions and group transitions recorded so far
* `lastTransition`, `lastGroup` — the last entry of an endpoint or a family
* `Agrees` — the flags in memory are the ones the history tells
* `Configured` — alerts stay configured, the clock does not go back and no event is deleted

## Main results

* `history_recorded` — what a transition appends
* `agrees_of_reach` — memory and history agree in every configured run
-/

set_option autoImplicit false

namespace HubScope

open Alerter AlertLog

/-- The kinds that carry a state: endpoint and group transitions. -/
def AlertKind.tracked (kind : AlertKind) : Bool :=
  kind = .down ∨ kind = .recovered ∨ kind = .groupDown ∨ kind = .groupRecovered

/-- The event without its delivery flag. -/
def AlertEvent.erase (v : AlertEvent) : AlertEvent := { v with sentOk := false }

/-- The transitions and group transitions recorded so far, without their delivery flags. -/
def AlertLog.history (log : AlertLog) : List AlertEvent :=
  (log.events.filter fun v => v.kind.tracked).map AlertEvent.erase

/-- The last transition of an endpoint. -/
def lastTransition (history : List AlertEvent) (endpointId : ℕ) : Option AlertEvent :=
  (history.filter fun v => v.endpointId = some endpointId && isTransition v).getLast?

/-- The last group transition of a family. -/
def lastGroup (history : List AlertEvent) (family : String) : Option AlertEvent :=
  (history.filter fun v => v.groupKey = some family && isGroupTransition v).getLast?

/-- The log is a chronicle and the flags in memory are the ones the history tells. -/
structure Agrees (s : Alerter) : Prop where
  chronicle : s.log.Chronicle s.now
  alerted : ∀ e, s.alertedFlag e = (lastTransition s.log.history e).any fun v => v.kind = .down
  group : ∀ f, s.groupFlag f = (lastGroup s.log.history f).any fun v => v.kind = .groupDown

/-! ### The log -/

variable {log : AlertLog} {now : ℤ}

theorem mem_history {v : AlertEvent} :
    v ∈ log.history ↔ ∃ w ∈ log.events, w.kind.tracked = true ∧ w.erase = v := by
  simp only [AlertLog.history, List.mem_map, List.mem_filter, and_assoc]

/-- A query that does not look at the flag finds in the history what it finds in the log. -/
theorem filter_history {p : AlertEvent → Bool} (herase : ∀ v, p v.erase = p v)
    (htracked : ∀ v, p v = true → v.kind.tracked = true) :
    log.history.filter p = (log.events.filter p).map AlertEvent.erase := by
  rw [AlertLog.history, List.filter_map, List.filter_filter]
  apply congrArg (List.map AlertEvent.erase)
  apply List.filter_congr
  intro v _
  change (p v.erase && v.kind.tracked) = p v
  rw [herase]
  cases hp : p v with
  | false => rfl
  | true => exact htracked v hp

theorem getLast?_history {p : AlertEvent → Bool} (herase : ∀ v, p v.erase = p v)
    (htracked : ∀ v, p v = true → v.kind.tracked = true) :
    (log.history.filter p).getLast? = (log.events.filter p).getLast?.map AlertEvent.erase := by
  rw [filter_history herase htracked, List.getLast?_map]

theorem tracked_of_isTransition {v : AlertEvent} (h : isTransition v = true) :
    v.kind.tracked = true := by
  unfold isTransition at h
  unfold AlertKind.tracked
  simp only [decide_eq_true_eq] at h ⊢
  exact h.elim .inl fun h => .inr (.inl h)

theorem tracked_of_isGroupTransition {v : AlertEvent} (h : isGroupTransition v = true) :
    v.kind.tracked = true := by
  unfold isGroupTransition at h
  unfold AlertKind.tracked
  simp only [decide_eq_true_eq] at h ⊢
  exact .inr (.inr h)

theorem lastTransition_history (h : log.Chronicle now) (endpointId : ℕ) :
    lastTransition log.history endpointId =
      (log.latestDownRecoveryEvent endpointId).map AlertEvent.erase := by
  rw [latestDownRecoveryEvent_eq h, lastTransition, getLast?_history]
  · exact fun _ => rfl
  · intro v hv
    exact tracked_of_isTransition (Bool.and_eq_true_iff.mp hv).2

theorem lastGroup_history (h : log.Chronicle now) (family : String) :
    lastGroup log.history family = (log.latestGroupEvent family).map AlertEvent.erase := by
  rw [latestGroupEvent_eq h, lastGroup, getLast?_history]
  · exact fun _ => rfl
  · intro v hv
    exact tracked_of_isGroupTransition (Bool.and_eq_true_iff.mp hv).2

/-- An event of another part leaves the history as it is. -/
theorem history_create_untracked {endpointId : Option ℕ} {kind : AlertKind} {sentOk : Bool}
    {groupKey : Option String} (h : kind.tracked = false) :
    (log.createAlertEvent endpointId kind sentOk now groupKey).1.history = log.history := by
  rw [AlertLog.history, createAlertEvent, List.filter_append, List.filter_singleton, h]
  simp [AlertLog.history]

theorem history_create_tracked {endpointId : Option ℕ} {kind : AlertKind}
    {groupKey : Option String} (h : kind.tracked = true) :
    (log.createAlertEvent endpointId kind false now groupKey).1.history =
      log.history ++ [⟨log.seq + 1, endpointId, kind, false, now, groupKey⟩] := by
  rw [AlertLog.history, createAlertEvent, List.filter_append, List.filter_singleton, h]
  simp [AlertLog.history, AlertEvent.erase]

/-- Writing flags back leaves the history as it is. -/
theorem history_update (ids : List ℕ) (ok : Bool) :
    (log.updateAlertEventsSentOK ids ok).history = log.history := by
  have herase : ∀ v : AlertEvent,
      (if v.id ∈ ids then { v with sentOk := ok } else v).erase = v.erase := by
    intro v
    split <;> rfl
  have hkind : ∀ v : AlertEvent,
      (if v.id ∈ ids then { v with sentOk := ok } else v).kind = v.kind := by
    intro v
    split <;> rfl
  rw [AlertLog.history, updateAlertEventsSentOK, List.filter_map, List.map_map]
  unfold AlertLog.history
  simp only [Function.comp_def, hkind, herase]

/-- The log confirms a transition or group transition. -/
def AlertLog.Confirms (log : AlertLog) (id : ℕ) : Prop :=
  ∃ v ∈ log.events, v.id = id ∧ v.kind.tracked = true ∧ v.sentOk = true

/-- A new event confirms a transition only if it is one and was sent. -/
theorem confirms_of_create {endpointId : Option ℕ} {kind : AlertKind} {sentOk : Bool}
    {groupKey : Option String} {id : ℕ} (h : kind.tracked = false ∨ sentOk = false)
    (hid : (log.createAlertEvent endpointId kind sentOk now groupKey).1.Confirms id) :
    log.Confirms id := by
  obtain ⟨v, hv, heq, htracked, hsent⟩ := hid
  rcases mem_create.mp hv with hv | rfl
  · exact ⟨v, hv, heq, htracked, hsent⟩
  · rcases h with h | h
    · exact absurd (h.symm.trans htracked) Bool.false_ne_true
    · exact absurd (h.symm.trans hsent) Bool.false_ne_true

/-- Writing back confirms what the message carries. -/
theorem confirms_of_update {ids : List ℕ} {ok : Bool} {id : ℕ}
    (hid : (log.updateAlertEventsSentOK ids ok).Confirms id) :
    log.Confirms id ∨ ok = true ∧ id ∈ ids := by
  obtain ⟨v, hv, heq, htracked, hsent⟩ := hid
  -- the flag is new only on the events that the message carries
  obtain ⟨w, hw, rfl⟩ := mem_update.mp hv
  rw [id_update] at heq
  by_cases hmem : w.id ∈ ids
  · rw [if_pos hmem] at hsent
    exact .inr ⟨hsent, heq ▸ hmem⟩
  · rw [if_neg hmem] at htracked hsent
    exact .inl ⟨w, hw, heq, htracked, hsent⟩

/-! ### What sending does to the history -/

variable {s s' : Alerter}

/-- The memory of transitions, the clock and the tables stay, the log remains a chronicle of the
same history, and what is confirmed now is carried by a message sent now. -/
structure Recounts (s s' : Alerter) : Prop where
  now : s'.now = s.now
  settings : s'.settings = s.settings
  endpoints : s'.endpoints = s.endpoints
  alerted : s'.alerted = s.alerted
  group : s'.groupAlerted = s.groupAlerted
  history : s'.log.history = s.log.history
  seq : s.log.seq ≤ s'.log.seq
  chronicle : s.log.Chronicle s.now → s'.log.Chronicle s'.now
  deliveries : s.deliveries ⊆ s'.deliveries
  confirmed : ∀ id, s'.log.Confirms id → s.log.Confirms id ∨
    ∃ d ∈ s'.deliveries, d.ok = true ∧ d.sentAt = s.now ∧ id ∈ d.eventIds

/-- The log and the messages stay. -/
theorem recounts_of_eq (hnow : s'.now = s.now) (hsettings : s'.settings = s.settings)
    (hendpoints : s'.endpoints = s.endpoints) (halerted : s'.alerted = s.alerted)
    (hgroup : s'.groupAlerted = s.groupAlerted) (hlog : s'.log = s.log)
    (hdeliveries : s'.deliveries = s.deliveries) : Recounts s s' := by
  refine ⟨hnow, hsettings, hendpoints, halerted, hgroup, congrArg _ hlog,
    (congrArg AlertLog.seq hlog).ge, fun hc => ?_, ?_, fun id hid => .inl (hlog ▸ hid)⟩
  · rw [hlog, hnow]
    exact hc
  · rw [hdeliveries]
    exact List.Subset.refl _

theorem Recounts.refl (s : Alerter) : Recounts s s := recounts_of_eq rfl rfl rfl rfl rfl rfl rfl

theorem Recounts.trans {s'' : Alerter} (h : Recounts s s') (h' : Recounts s' s'') :
    Recounts s s'' where
  now := h'.now.trans h.now
  settings := h'.settings.trans h.settings
  endpoints := h'.endpoints.trans h.endpoints
  alerted := h'.alerted.trans h.alerted
  group := h'.group.trans h.group
  history := h'.history.trans h.history
  seq := h.seq.trans h'.seq
  chronicle hc := h'.chronicle (h.chronicle hc)
  deliveries := List.Subset.trans h.deliveries h'.deliveries
  confirmed id hid := by
    rcases h'.confirmed id hid with hid | hsent
    · rcases h.confirmed id hid with hid | ⟨d, hd, hsent⟩
      · exact .inl hid
      · exact .inr ⟨d, h'.deliveries hd, hsent⟩
    · rw [h.now] at hsent
      exact .inr hsent

/-- An event without a state of its own is recorded, beside a message that carries none. -/
theorem recounts_create {kind : AlertKind} {ok : Bool} {new : List Delivery}
    (hkind : kind.tracked = false) :
    Recounts s { s with
      log := (s.log.createAlertEvent none kind ok s.now none).1
      deliveries := s.deliveries ++ new } where
  now := rfl
  settings := rfl
  endpoints := rfl
  alerted := rfl
  group := rfl
  history := history_create_untracked hkind
  seq := Nat.le_succ _
  chronicle hc := hc.create none kind ok none
  deliveries := List.subset_append_left _ _
  confirmed _ hid := .inl (confirms_of_create (.inl hkind) hid)

/-- A message is sent, its flags are written back and the message is recorded. -/
theorem recounts_deliver {kind : AlertKind} {ids : List ℕ} {ok : Bool} (card : Card)
    (hkind : kind.tracked = false) :
    Recounts s { s with
      log := ((s.log.updateAlertEventsSentOK ids ok).createAlertEvent none kind ok s.now none).1
      deliveries := s.deliveries ++ [⟨card, ids, ok, s.now, s.log.seq⟩] } where
  now := rfl
  settings := rfl
  endpoints := rfl
  alerted := rfl
  group := rfl
  history := (history_create_untracked hkind).trans (history_update ids ok)
  seq := Nat.le_succ _
  chronicle hc := (hc.update ids ok).create none kind ok none
  deliveries := List.subset_append_left _ _
  confirmed id hid := by
    rcases confirms_of_update (confirms_of_create (.inl hkind) hid) with hid | ⟨hok, hmem⟩
    · exact .inl hid
    · exact .inr ⟨_, List.mem_append_right _ (List.mem_singleton_self _), hok, rfl, hmem⟩

theorem recounts_sendCards (s : Alerter) (outcome : ℕ → Bool) (cards : List (Card × List ℕ)) :
    Recounts s (s.sendCards outcome cards) := by
  induction cards generalizing s outcome with
  | nil => exact .refl s
  | cons card cards ih =>
    obtain ⟨card, ids⟩ := card
    have hfirst : Recounts s (s.sendCard card ids (outcome 0)) := recounts_deliver card rfl
    exact hfirst.trans (ih _ _)

theorem recounts_takeWindow (s : Alerter) : Recounts s s.takeWindow :=
  recounts_of_eq rfl rfl rfl rfl rfl rfl rfl

theorem recounts_flush (s : Alerter) (outcome : ℕ → Bool) : Recounts s (s.flush outcome) := by
  -- every way out of a flush takes the window, only the last one sends
  have htake := recounts_takeWindow s
  unfold flush
  split
  · exact htake
  split
  · exact htake
  split
  · exact htake
  split
  · exact htake
  · exact htake.trans (recounts_sendCards _ _ _)

theorem recounts_deliverQuietSummary (s : Alerter) (ok : Bool) :
    Recounts s (s.deliverQuietSummary ok) := by
  unfold deliverQuietSummary
  split
  · exact recounts_of_eq rfl rfl rfl rfl rfl rfl rfl
  split
  · exact .refl s
  · have hsent : Recounts s { s with
        log := ((s.log.updateAlertEventsSentOK s.summaryIds ok).createAlertEvent
          none .quietSummary ok s.now none).1
        deliveries := s.deliveries ++ [⟨.quietSummary (s.summaryEndpoints.map Prod.fst)
          (s.summaryGroups.map Prod.fst) s.quietScoreDrops, s.summaryIds, ok, s.now,
          s.log.seq⟩] } := recounts_deliver _ rfl
    exact hsent.trans (recounts_of_eq rfl rfl rfl rfl rfl rfl rfl)

theorem recounts_syncQuietTimer (s : Alerter) : Recounts s s.syncQuietTimer :=
  recounts_of_eq rfl rfl rfl rfl rfl rfl rfl

theorem recounts_onQuietBoundary (s : Alerter) (ok : Bool) :
    Recounts s (s.onQuietBoundary ok) := by
  unfold onQuietBoundary
  split
  · exact recounts_syncQuietTimer s
  · exact (recounts_deliverQuietSummary s ok).trans (recounts_syncQuietTimer _)

/-- The boundary timer goes off and is no longer armed. -/
theorem recounts_consumed (s : Alerter) :
    Recounts s { s with quietTimer := ⟨none, s.quietTimer.boundaryAt, false⟩ } :=
  recounts_of_eq rfl rfl rfl rfl rfl rfl rfl

theorem recounts_quietBoundary (s : Alerter) (ok : Bool) :
    Recounts s (({ s with quietTimer := ⟨none, s.quietTimer.boundaryAt, false⟩ } :
      Alerter).onQuietBoundary ok) :=
  (recounts_consumed s).trans (recounts_onQuietBoundary _ ok)

theorem recounts_alertModels (s : Alerter) (campaignId : ℕ) (quiet : Bool) (outcome : ℕ → Bool)
    (models : List ℕ) : Recounts s (s.alertModels campaignId quiet outcome models) := by
  induction models generalizing s outcome with
  | nil => exact .refl s
  | cons modelDbId models ih =>
    -- held or sent, a score drop records one event that is no transition
    have hrecord : ∀ (ok : Bool) (new : List Delivery), Recounts s { s with
        log := (s.log.createAlertEvent none .scoreDrop ok s.now none).1
        deliveries := s.deliveries ++ new } := fun ok new => recounts_create rfl
    unfold alertModels
    split
    · have hdefer : Recounts s s.deferScoreDrop := by
        apply (hrecord false []).trans
        apply recounts_of_eq <;> simp [deferScoreDrop]
      exact hdefer.trans (ih _ _)
    · have hsend : Recounts s (s.sendModelAlert campaignId modelDbId (outcome 0)) := hrecord _ _
      exact hsend.trans (ih _ _)

theorem recounts_annotateSkips (s : Alerter) (n : ℕ) : Recounts s (s.annotateSkips n) := by
  induction n generalizing s with
  | zero => exact .refl s
  | succ n ih =>
    have hskip : Recounts s { s with
        log := (s.log.createAlertEvent none .scoreDropSkipped false s.now none).1
        deliveries := s.deliveries ++ [] } := recounts_create rfl
    rw [List.append_nil] at hskip
    exact hskip.trans (ih _)

theorem recounts_handleCampaign (s : Alerter) (campaignId : ℕ) (done : Bool) (skipped : ℕ)
    (models : List ℕ) (outcome : ℕ → Bool) :
    Recounts s (s.handleCampaign campaignId done skipped models outcome) := by
  unfold handleCampaign
  split
  · exact .refl s
  · have hskips := recounts_annotateSkips s skipped
    have hsync := hskips.trans (recounts_syncQuietTimer _)
    exact hsync.trans (recounts_alertModels _ _ _ _ _)

/-- Another part of the process records an event of its own. -/
theorem recounts_recordEvent {kind : AlertKind} (hkind : kind.oneShot = true) (ok : Bool) :
    Recounts s { s with log := (s.log.createAlertEvent none kind ok s.now none).1 } := by
  have huntracked : kind.tracked = false := by
    cases kind <;> simp [AlertKind.oneShot] at hkind <;> rfl
  have hrecord : Recounts s { s with
      log := (s.log.createAlertEvent none kind ok s.now none).1
      deliveries := s.deliveries ++ [] } := recounts_create huntracked
  rw [List.append_nil] at hrecord
  exact hrecord

/-- The steps that send what is due, and decide nothing about endpoints or groups. -/
def AlerterLabel.sends : AlerterLabel → Bool
  | .flush _ | .quietBoundary _ | .handleCampaign .. | .recordEvent .. => true
  | _ => false

/-- **Sending.** A step that sends leaves memory and history in the same relation. -/
theorem recounts_of_sends {a : AlerterLabel} (hstep : alerterStep s a = some s')
    (ha : a.sends = true) : Recounts s s' := by
  cases a with
  | flush outcome =>
    obtain ⟨-, heq⟩ := Option.ite_none_right_eq_some.mp hstep
    cases heq
    exact recounts_flush s outcome
  | quietBoundary ok =>
    obtain ⟨-, heq⟩ := Option.ite_none_right_eq_some.mp hstep
    cases heq
    exact recounts_quietBoundary s ok
  | handleCampaign campaignId done skipped models outcome =>
    cases hstep
    exact recounts_handleCampaign s campaignId done skipped models outcome
  | recordEvent kind ok =>
    obtain ⟨hkind, heq⟩ := Option.ite_none_right_eq_some.mp hstep
    cases heq
    exact recounts_recordEvent hkind ok
  | _ => exact absurd ha Bool.false_ne_true

/-! ### What a round does to the history -/

/-- **A transition appends itself** and the group transition it causes. -/
theorem history_recorded {endpointId : ℕ} {kind : AlertKind} {alert : EndpointAlert}
    {absorbed : Bool} {group : Option BufferedGroupTransition}
    (h : Recorded s s' endpointId kind alert absorbed group)
    (hkind : kind = .down ∨ kind = .recovered) :
    s'.log.history = s.log.history ++
      ⟨s.log.seq + 1, some endpointId, kind, false, s.now, none⟩ ::
        (group.map fun g =>
          ⟨s.log.seq + 2, none, g.kind, false, s.now, some alert.family⟩).toList := by
  have htracked : kind.tracked = true := by
    rcases hkind with rfl | rfl <;> rfl
  rw [h.log_eq]
  cases hg : group with
  | none => exact history_create_tracked htracked
  | some g =>
    obtain ⟨-, hfamily, hdecision, -⟩ := h.grouped g hg
    have hgroup : g.kind.tracked = true := by
      rcases hdecision.kind with h | h <;> rw [h] <;> rfl
    rw [Option.elim_some, history_create_tracked hgroup]
    unfold flipped
    rw [history_create_tracked htracked, List.append_assoc, hfamily]
    rfl

theorem AlertLog.Chronicle.recorded {endpointId : ℕ} {kind : AlertKind} {alert : EndpointAlert}
    {absorbed : Bool} {group : Option BufferedGroupTransition}
    (h : Recorded s s' endpointId kind alert absorbed group) (hs : s.log.Chronicle s.now) :
    s'.log.Chronicle s'.now := by
  rw [h.log_eq, h.same.1]
  have hfirst := hs.create (some endpointId) kind false none
  cases group with
  | none => exact hfirst
  | some g => exact hfirst.create none g.kind false (some g.family)

/-! ### Memory and history -/

/-- Alerts stay configured, the clock does not go back and no event is deleted. -/
def Configured (s : Alerter) : AlerterLabel → Prop
  | .clock now => s.now ≤ now
  | .saveSettings settings => settings.webhook ≠ "" ∧ settings.alertEnabled = true
  | .deleteEndpoint _ => False
  | _ => True

theorem alertedFlag_eq (h : s.log.Chronicle s.now) (e : ℕ) :
    s.alertedFlag e = (s.alerted e).getD
      ((lastTransition s.log.history e).any fun v => v.kind = .down) := by
  rw [lastTransition_history h]
  unfold alertedFlag
  cases s.alerted e with
  | some flagged => rfl
  | none => cases s.log.latestDownRecoveryEvent e <;> rfl

theorem groupFlag_eq (h : s.log.Chronicle s.now) (f : String) :
    s.groupFlag f = (s.groupAlerted f).getD
      ((lastGroup s.log.history f).any fun v => v.kind = .groupDown) := by
  rw [lastGroup_history h]
  unfold groupFlag
  cases s.groupAlerted f with
  | some flagged => rfl
  | none => cases s.log.latestGroupEvent f <;> rfl

/-- Sending and clearing timers keep memory and history in agreement. -/
theorem Agrees.recounts (h : Agrees s) (hr : Recounts s s') : Agrees s' := by
  have hchronicle := hr.chronicle h.chronicle
  refine ⟨hchronicle, fun e => ?_, fun f => ?_⟩
  · have hflag : s'.alertedFlag e = s.alertedFlag e := by
      rw [alertedFlag_eq hchronicle, alertedFlag_eq h.chronicle, hr.alerted, hr.history]
    rw [hflag, hr.history]
    exact h.alerted e
  · have hflag : s'.groupFlag f = s.groupFlag f := by
      rw [groupFlag_eq hchronicle, groupFlag_eq h.chronicle, hr.group, hr.history]
    rw [hflag, hr.history]
    exact h.group f

theorem Agrees.cached (h : Agrees s) (hc : Cached s s') : Agrees s' := by
  have halerted := hc.alerted
  have hgroup := hc.group
  obtain ⟨a, g, rfl⟩ := hc.same
  exact ⟨h.chronicle, fun e => (congrFun halerted e).trans (h.alerted e),
    fun f => (congrFun hgroup f).trans (h.group f)⟩

/-- The last transition after a transition of `endpointId`. -/
theorem lastTransition_recorded {endpointId : ℕ} {kind : AlertKind} {alert : EndpointAlert}
    {absorbed : Bool} {group : Option BufferedGroupTransition}
    (h : Recorded s s' endpointId kind alert absorbed group)
    (hkind : kind = .down ∨ kind = .recovered) (e : ℕ) :
    lastTransition s'.log.history e = if e = endpointId
      then some ⟨s.log.seq + 1, some endpointId, kind, false, s.now, none⟩
      else lastTransition s.log.history e := by
  have hgroup : ((group.map fun g => (⟨s.log.seq + 2, none, g.kind, false, s.now,
      some alert.family⟩ : AlertEvent)).toList.filter fun v =>
        v.endpointId = some e && isTransition v) = [] := by
    cases group <;> simp
  have htransition : isTransition ⟨s.log.seq + 1, some endpointId, kind, false, s.now, none⟩ := by
    simpa [isTransition] using hkind
  unfold lastTransition
  rw [history_recorded h hkind, List.filter_append, List.filter_cons, hgroup]
  by_cases he : e = endpointId
  · simp [he, htransition]
  · simp [he, Ne.symm he]

/-- The last group transition after a transition of a member of `alert.family`. -/
theorem lastGroup_recorded {endpointId : ℕ} {kind : AlertKind} {alert : EndpointAlert}
    {absorbed : Bool} {group : Option BufferedGroupTransition}
    (h : Recorded s s' endpointId kind alert absorbed group)
    (hkind : kind = .down ∨ kind = .recovered) (f : String) :
    lastGroup s'.log.history f = if f = alert.family
      then (group.map fun g => ⟨s.log.seq + 2, none, g.kind, false, s.now, some alert.family⟩).or
        (lastGroup s.log.history f)
      else lastGroup s.log.history f := by
  unfold lastGroup
  rw [history_recorded h hkind, List.filter_append, List.filter_cons]
  cases hg : group with
  | none => simp
  | some g =>
    have hgroup : isGroupTransition
        ⟨s.log.seq + 2, none, g.kind, false, s.now, some alert.family⟩ := by
      simpa [isGroupTransition] using (h.grouped g hg).2.2.1.kind
    by_cases hf : f = alert.family
    · simp [hf, hgroup]
    · simp [hf, Ne.symm hf]

theorem Agrees.recorded (h : Agrees s) {endpointId : ℕ} {kind : AlertKind} {alert : EndpointAlert}
    {absorbed : Bool} {group : Option BufferedGroupTransition}
    (hr : Recorded s s' endpointId kind alert absorbed group)
    (hkind : kind = .down ∨ kind = .recovered) : Agrees s' := by
  refine ⟨.recorded hr h.chronicle, fun e => ?_, fun f => ?_⟩
  · rw [hr.alerted, lastTransition_recorded hr hkind]
    by_cases he : e = endpointId
    · simp [he]
    · simpa [he] using h.alerted e
  · rw [hr.groupFlag, lastGroup_recorded hr hkind]
    cases group with
    | none => simpa using h.group f
    | some g =>
      by_cases hf : f = alert.family
      · simp [hf]
      · simpa [hf] using h.group f

theorem kind_of_decision {endpointId consecutive : ℕ} {kind : AlertKind}
    (h : s.decision endpointId consecutive = some kind) : kind = .down ∨ kind = .recovered := by
  unfold Alerter.decision at h
  split at h
  · exact .inl (Option.some.inj h).symm
  split at h
  · exact .inr (Option.some.inj h).symm
  · cases h

theorem configured_of_save {settings : AlertSettings}
    (h : settings.webhook ≠ "" ∧ settings.alertEnabled = true) :
    ({ s with settings } : Alerter).configured = true := by
  unfold Alerter.configured
  simp [h.1, h.2]

/-- A configured step keeps the agreement. -/
theorem agrees_step {a : AlerterLabel} (h : Agrees s) (hs : s.configured = true)
    (ha : Configured s a) (hstep : alerterStep s a = some s') :
    Agrees s' ∧ s'.configured = true := by
  -- what sends changes neither flags nor settings
  have hsent : Recounts s s' → Agrees s' ∧ s'.configured = true := by
    intro hr
    refine ⟨h.recounts hr, ?_⟩
    unfold Alerter.configured at hs ⊢
    rw [hr.settings]
    exact hs
  cases a with
  | clock now =>
    cases hstep
    exact ⟨⟨h.chronicle.mono ha, h.alerted, h.group⟩, hs⟩
  | handleRound endpointId consecutive =>
    cases hstep
    rcases handleRound_cases s endpointId consecutive with
      ⟨a, g, heq, hcached⟩ | ⟨kind, alert, absorbed, group, -, hdecision, hr⟩
    · refine ⟨h.cached (hcached hs), ?_⟩
      rw [heq]
      exact hs
    · refine ⟨h.recorded hr (kind_of_decision hdecision), ?_⟩
      unfold Alerter.configured at hs ⊢
      rw [hr.same.2.1]
      exact hs
  | flush | quietBoundary | handleCampaign | recordEvent =>
    exact hsent (recounts_of_sends hstep rfl)
  | saveSettings settings =>
    cases hstep
    exact ⟨⟨h.chronicle, h.alerted, h.group⟩, configured_of_save ha⟩
  | saveEndpoints endpoints =>
    cases hstep
    exact ⟨⟨h.chronicle, h.alerted, h.group⟩, hs⟩
  | deleteEndpoint => exact ha.elim

/-- **Memory and history.** In every configured run over a chronicle the flags in memory are the
ones the history tells. -/
theorem agrees_of_reach {now : ℤ} {settings : AlertSettings} {endpoints : List AlertEndpoint}
    (hlog : log.Chronicle now)
    (hconfigured : settings.webhook ≠ "" ∧ settings.alertEnabled = true)
    (h : Transition.Reach alerterStep Configured (.start now settings endpoints log) s) :
    Agrees s ∧ s.configured = true := by
  refine h.invariant (I := fun t => Agrees t ∧ t.configured = true) ⟨⟨hlog, ?_, ?_⟩, ?_⟩
    fun t a u ht ha hstep => agrees_step ht.1 ht.2 ha hstep
  · intro e
    exact alertedFlag_eq hlog e
  · intro f
    exact groupFlag_eq hlog f
  · exact configured_of_save (s := .start now settings endpoints log) hconfigured

end HubScope
