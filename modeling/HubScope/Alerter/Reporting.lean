import HubScope.Alerter.History
import HubScope.Alerter.Timers

/-!
# Nothing decided is lost to quiet hours

A window that was born or fires inside quiet hours is held whole and leaves its transitions to the
summary at the end of the quiet stretch. A transition that joins a window born in quiet hours
after that summary is held with it, and no summary tells it before the next one. In a run without
such a transition, and without an outage that a flush swallows, every down transition whose window
fires outside quiet hours is reported by then.

## Main definitions

* `Delivery.reports`, `InForce`, `Reported`, `RecoveredBy` — how a down transition is settled
* `Steady` — the runs: fixed quiet hours, deliveries that succeed, punctual timers, no late joins
  and nothing swallowed by a flush
* `Records`, `Watch` — what the log and the messages say about the buffered and the fired

## Main results

* `flush_settles` — a flush that is not held settles what waits in the window
* `summary_settles` — a summary settles whatever was recorded
* `reported_of_reach` — in a steady run a fired down transition is reported or recovered
* `not_reported_of_reach` — a transition that joins late is lost
-/

set_option autoImplicit false

namespace HubScope

open Alerter AlertLog

/-! ### Reports -/

/-- The message tells the transition: it carries its event, or it is a group card decided at or
after it that lists its endpoint as faulty, or a later summary that lists its family. -/
def Delivery.reports (t : BufferedTransition) (d : Delivery) : Bool :=
  t.eventId ∈ d.eventIds || match d.card with
    | .group g => t.eventId < g.eventId && t.alert.member ∈ g.faulty
    | .quietSummary _ families _ => t.eventId ≤ d.upTo && t.alert.family ∈ families
    | .batch _ _ | .scoreDrop _ _ => false

/-- A message delivered by `time` carries the event, or the log that the process took over
confirms it. -/
def Delivered (log : AlertLog) (ds : List Delivery) (time : ℤ) (id : ℕ) : Prop :=
  log.Confirms id ∨ ∃ d ∈ ds, d.ok = true ∧ d.sentAt ≤ time ∧ id ∈ d.eventIds

/-- The opening `a` of the transition's family stands when the transition is decided, or the
transition causes it. -/
structure InForce (history : List AlertEvent) (t : BufferedTransition) (a : AlertEvent) :
    Prop where
  mem : a ∈ history
  kind : a.kind = .groupDown
  family : a.groupKey = some t.alert.family
  before : a.id ≤ t.eventId + 1
  standing : ∀ r ∈ history, r.kind = .groupRecovered → r.groupKey = some t.alert.family →
    a.id < r.id → t.eventId < r.id

/-- By `time` a delivered message tells the transition, or it was absorbed into a group whose
opening is delivered by `time`. -/
def Reported (log : AlertLog) (s : Alerter) (t : BufferedTransition) (time : ℤ) : Prop :=
  (∃ d ∈ s.deliveries, d.ok = true ∧ d.sentAt ≤ time ∧ d.reports t = true) ∨
    t.absorbed = true ∧ ∃ a, InForce s.log.history t a ∧ Delivered log s.deliveries time a.id

/-- The transition's endpoint recovered after it by `time`. -/
def RecoveredBy (s : Alerter) (t : BufferedTransition) (time : ℤ) : Prop :=
  ∃ v ∈ s.log.history, v.id = t.eventId ∧ ∃ r ∈ s.log.history, r.kind = .recovered ∧
    r.endpointId = v.endpointId ∧ v.id < r.id ∧ r.createdAt ≤ time

/-! ### Steady runs -/

/-- The family of an endpoint. -/
def endpointFamily (endpoints : List AlertEndpoint) (endpointId : ℕ) : Option String :=
  (endpoints.find? fun e => e.id = endpointId).map AlertEndpoint.family

/-- What a round buffers now joins a window that was born in quiet hours, after they ended and
their summary was sent. -/
def Alerter.joinsLate (s : Alerter) : Bool :=
  s.windowFiresAt.any (fun due => s.settings.quietHours.quiet (due - alertWindow)) &&
    !s.settings.quietHours.quiet s.now && !s.quietTimer.timer.any (· ≤ s.now)

/-- Quiet hours are fixed, alerts stay configured and deliveries succeed; timers fire at their
instant and an endpoint keeps its family. -/
def Undisturbed (s : Alerter) : AlerterLabel → Prop
  | .clock now => s.now ≤ now ∧ (∀ due ∈ s.windowTimer, now ≤ due) ∧
      ∀ b ∈ s.quietTimer.timer, now ≤ b
  | .flush outcome =>
      ∀ k < (flushCards s.unconfirmed s.unconfirmedGroups).length, outcome k = true
  | .quietBoundary ok => ok = true
  | .handleRound _ _ | .handleCampaign _ _ _ _ _ | .recordEvent _ _ => True
  | .saveSettings settings => settings.quietHours = s.settings.quietHours ∧
      settings.webhook ≠ "" ∧ settings.alertEnabled = true
  | .saveEndpoints endpoints =>
      ∀ e ∈ s.endpoints, endpointFamily endpoints e.id = endpointFamily s.endpoints e.id
  | .deleteEndpoint _ => False

/-- A down transition that the round decides belongs to an open group, and the round opens none. -/
def StaysOpen (s : Alerter) (endpointId consecutive : ℕ) : Prop :=
  ∀ kind ∈ s.decision endpointId consecutive, ∀ alert ∈ s.buildEndpointAlert endpointId,
    (kind = .down → s.groupFlag alert.family = true) ∧
      ¬ GroupDecision (s.flipped endpointId kind) alert.family .groupDown

/-- No unconfirmed and unabsorbed down transition of the window is covered by the group cards
decided before it alone. -/
def LeavesNoneOut (s : Alerter) : Prop :=
  ∀ t ∈ s.unconfirmed, t.kind = .down → t.absorbed = false →
    t.alert.member ∉ coveredMembers t.alert.family (cardsBefore s.unconfirmedGroups t.eventId) ∨
      ∃ g ∈ s.unconfirmedGroups, t.eventId < g.eventId ∧
        Mentions t.alert.family t.alert.member g

/-- An undisturbed run in which no down transition joins late unless its group is open, no group
opens late, and a flush that sends leaves no down transition out. -/
def Steady (s : Alerter) (a : AlerterLabel) : Prop :=
  Undisturbed s a ∧ match a with
    | .handleRound endpointId consecutive =>
        s.joinsLate = true → StaysOpen s endpointId consecutive
    | .flush _ => held s.settings.quietHours s.firesAt = false → LeavesNoneOut s
    | _ => True

instance (s : Alerter) : (a : AlerterLabel) → Decidable (Undisturbed s a)
  | .clock now => inferInstanceAs (Decidable (s.now ≤ now ∧ (∀ due ∈ s.windowTimer, now ≤ due) ∧
      ∀ b ∈ s.quietTimer.timer, now ≤ b))
  | .flush outcome => inferInstanceAs (Decidable
      (∀ k < (flushCards s.unconfirmed s.unconfirmedGroups).length, outcome k = true))
  | .quietBoundary ok => inferInstanceAs (Decidable (ok = true))
  | .handleRound _ _ | .handleCampaign _ _ _ _ _ | .recordEvent _ _ =>
      inferInstanceAs (Decidable True)
  | .saveSettings settings => inferInstanceAs (Decidable
      (settings.quietHours = s.settings.quietHours ∧
        settings.webhook ≠ "" ∧ settings.alertEnabled = true))
  | .saveEndpoints endpoints => inferInstanceAs (Decidable
      (∀ e ∈ s.endpoints, endpointFamily endpoints e.id = endpointFamily s.endpoints e.id))
  | .deleteEndpoint _ => inferInstanceAs (Decidable False)

instance (s : Alerter) (endpointId consecutive : ℕ) :
    Decidable (StaysOpen s endpointId consecutive) :=
  have (family : String) (kind : AlertKind) (s : Alerter) :
      Decidable (GroupDecision s family kind) :=
    inferInstanceAs (Decidable (_ ∧ _ ∧ _ ∧ (_ ∧ _ ∧ _ ∧ _ ∨ _ ∧ _ ∧ _)))
  inferInstanceAs (Decidable (∀ kind ∈ s.decision endpointId consecutive,
    ∀ alert ∈ s.buildEndpointAlert endpointId, _ ∧ ¬ _))

instance (family : String) (m : GroupMemberRef) (g : BufferedGroupTransition) :
    Decidable (Mentions family m g) :=
  inferInstanceAs (Decidable (_ ∨ _ ∧ _ ∧ _))

instance (s : Alerter) : Decidable (LeavesNoneOut s) :=
  inferInstanceAs (Decidable (∀ t ∈ s.unconfirmed, _ → _ → _ ∉ _ ∨ ∃ g ∈ s.unconfirmedGroups, _))

instance (s : Alerter) : (a : AlerterLabel) → Decidable (Steady s a)
  | .handleRound endpointId consecutive => inferInstanceAs (Decidable
      (Undisturbed s (.handleRound endpointId consecutive) ∧
        (s.joinsLate = true → StaysOpen s endpointId consecutive)))
  | .flush outcome => inferInstanceAs (Decidable (Undisturbed s (.flush outcome) ∧
      (held s.settings.quietHours s.firesAt = false → LeavesNoneOut s)))
  | .clock now => inferInstanceAs (Decidable (Undisturbed s (.clock now) ∧ True))
  | .quietBoundary ok => inferInstanceAs (Decidable (Undisturbed s (.quietBoundary ok) ∧ True))
  | .handleCampaign c d n ms o => inferInstanceAs (Decidable
      (Undisturbed s (.handleCampaign c d n ms o) ∧ True))
  | .saveSettings v => inferInstanceAs (Decidable (Undisturbed s (.saveSettings v) ∧ True))
  | .saveEndpoints es => inferInstanceAs (Decidable (Undisturbed s (.saveEndpoints es) ∧ True))
  | .deleteEndpoint e => inferInstanceAs (Decidable (Undisturbed s (.deleteEndpoint e) ∧ True))
  | .recordEvent kind ok => inferInstanceAs (Decidable
      (Undisturbed s (.recordEvent kind ok) ∧ True))

variable {s s' : Alerter} {log : AlertLog} {q : QuietHours} {t : BufferedTransition}

theorem Undisturbed.configured {a : AlerterLabel} (h : Undisturbed s a) : Configured s a := by
  cases a with
  | clock => exact h.1
  | saveSettings => exact h.2
  | deleteEndpoint => exact h
  | _ => trivial

/-! ### Growth -/

/-- The history has grown by later events, and no message is lost. -/
structure Grows (s s' : Alerter) : Prop where
  history : ∃ new, s'.log.history = s.log.history ++ new ∧ ∀ v ∈ new, s.log.seq < v.id
  deliveries : s.deliveries ⊆ s'.deliveries

theorem Recounts.grows (h : Recounts s s') : Grows s s' :=
  ⟨⟨[], h.history.trans (List.append_nil _).symm, by simp⟩, h.deliveries⟩

theorem Delivered.mono {ds ds' : List Delivery} {time time' : ℤ} {id : ℕ}
    (h : Delivered log ds time id) (hds : ds ⊆ ds') (hle : time ≤ time') :
    Delivered log ds' time' id := by
  rcases h with h | ⟨d, hd, hok, hat, hid⟩
  · exact .inl h
  · exact .inr ⟨d, hds hd, hok, hat.trans hle, hid⟩

theorem Grows.subset (h : Grows s s') : s.log.history ⊆ s'.log.history := by
  obtain ⟨new, heq, -⟩ := h.history
  rw [heq]
  exact List.subset_append_left _ _

/-- What a later event does to a standing opening does not concern the transition. -/
theorem InForce.grows {a : AlertEvent} (h : InForce s.log.history t a) (hgrows : Grows s s')
    (hid : t.eventId ≤ s.log.seq) : InForce s'.log.history t a := by
  refine ⟨hgrows.subset h.mem, h.kind, h.family, h.before, fun r hr hkind hfamily hlt => ?_⟩
  obtain ⟨new, heq, hnew⟩ := hgrows.history
  rw [heq] at hr
  rcases List.mem_append.mp hr with hr | hr
  · exact h.standing r hr hkind hfamily hlt
  · exact hid.trans_lt (hnew r hr)

/-- By `time` the transition is recovered from or reported. -/
def Settles (log : AlertLog) (s : Alerter) (t : BufferedTransition) (time : ℤ) : Prop :=
  RecoveredBy s t time ∨ Reported log s t time

theorem RecoveredBy.mono {time time' : ℤ} (h : RecoveredBy s t time)
    (hsubset : s.log.history ⊆ s'.log.history) (hle : time ≤ time') : RecoveredBy s' t time' := by
  obtain ⟨v, hv, hid, r, hr, hkind, hendpoint, hlt, hat⟩ := h
  exact ⟨v, hsubset hv, hid, r, hsubset hr, hkind, hendpoint, hlt, hat.trans hle⟩

theorem Settles.mono {time time' : ℤ} (h : Settles log s t time) (hgrows : Grows s s')
    (hid : t.eventId ≤ s.log.seq) (hle : time ≤ time') : Settles log s' t time' := by
  rcases h with h | ⟨d, hd, hok, hat, hreports⟩ | ⟨habsorbed, a, hforce, hdelivered⟩
  · exact .inl (h.mono hgrows.subset hle)
  · exact .inr (.inl ⟨d, hgrows.deliveries hd, hok, hat.trans hle, hreports⟩)
  · exact .inr (.inr ⟨habsorbed, a, hforce.grows hgrows hid, hdelivered.mono hgrows.deliveries hle⟩)

/-! ### What is recorded -/

/-- A transition that went through the window: its event, its endpoint and, if it is a down
transition, whether the endpoint is still down. -/
def Entry (log : AlertLog) (s : Alerter) (t : BufferedTransition) : Prop :=
  ∃ v e, v ∈ s.log.history ∧ v.id = t.eventId ∧ v.endpointId = some e ∧ v.kind = t.kind ∧
    log.seq < v.id ∧ endpointFamily s.endpoints e = some t.alert.family ∧
    (t.kind = .down → lastTransition s.log.history e = some v ∨ RecoveredBy s t s.now)

/-- The transitions that wait in the window or have fired. -/
def Alerter.seen (s : Alerter) : List BufferedTransition := s.pending ++ s.fired.map Prod.fst

/-- The records behind the window, and the messages behind what is confirmed. -/
structure Records (log : AlertLog) (s : Alerter) : Prop where
  keyed : ∀ v ∈ s.log.history, isGroupTransition v = true → v.groupKey.isSome = true
  issued : log.seq ≤ s.log.seq
  delivered : ∀ id, s.log.Confirms id → Delivered log s.deliveries s.now id
  entry : ∀ t ∈ s.seen, Entry log s t
  grouped : ∀ g ∈ s.groupPending, ∃ v ∈ s.log.history, v.id = g.eventId

/-- The window was not born in quiet hours. -/
def BornLoud (q : QuietHours) (s : Alerter) : Prop :=
  ∃ due, s.windowFiresAt = some due ∧ q.quiet (due - alertWindow) = false

/-- The opening waits in a window that was not born in quiet hours. -/
def Pends (q : QuietHours) (s : Alerter) (id : ℕ) : Prop :=
  BornLoud q s ∧ ∃ g ∈ s.groupPending, g.eventId = id

/-- What is not settled yet will be: by the summary at the boundary that is armed, or by the flush
of a window that was not born in quiet hours. -/
structure Watch (log : AlertLog) (q : QuietHours) (s : Alerter) : Prop where
  opened : ∀ f a, lastGroup s.log.history f = some a → a.kind = .groupDown →
    Delivered log s.deliveries s.now a.id ∨ s.quietTimer.Awaits q s.now ∨ Pends q s a.id
  waiting : ∀ t ∈ s.pending, t.kind = .down →
    Settles log s t s.now ∨ s.quietTimer.Awaits q s.now ∨ BornLoud q s ∧
      (t.absorbed = true → ∃ a, InForce s.log.history t a ∧ Pends q s a.id)
  fired : ∀ p ∈ s.fired, p.1.kind = .down → q.quiet p.2 = false →
    p.2 ≤ s.now ∧ (Settles log s p.1 p.2 ∨ p.2 = s.now ∧ s.quietTimer.Awaits q s.now)

/-! ### Steps that record no transition -/

/-- The clock and the history stay, endpoints keep their family, and what is confirmed now is
carried by a message sent now. -/
structure Continues (s s' : Alerter) : Prop where
  now : s'.now = s.now
  endpoints : ∀ e f, endpointFamily s.endpoints e = some f →
    endpointFamily s'.endpoints e = some f
  history : s'.log.history = s.log.history
  seq : s.log.seq ≤ s'.log.seq
  deliveries : s.deliveries ⊆ s'.deliveries
  confirmed : ∀ id, s'.log.Confirms id → s.log.Confirms id ∨
    ∃ d ∈ s'.deliveries, d.ok = true ∧ d.sentAt = s.now ∧ id ∈ d.eventIds

theorem Recounts.continues (h : Recounts s s') : Continues s s' where
  now := h.now
  endpoints e f := by
    rw [h.endpoints]
    exact id
  history := h.history
  seq := h.seq
  deliveries := h.deliveries
  confirmed := h.confirmed

theorem Continues.grows (h : Continues s s') : Grows s s' :=
  ⟨⟨[], h.history.trans (List.append_nil _).symm, by simp⟩, h.deliveries⟩

theorem Records.bound (h : Records log s) (hc : s.log.Chronicle s.now) (ht : t ∈ s.seen) :
    t.eventId ≤ s.log.seq := by
  obtain ⟨v, -, hv, hid, -⟩ := h.entry t ht
  obtain ⟨w, hw, -, rfl⟩ := mem_history.mp hv
  rw [← hid]
  exact hc.issued w hw

theorem Records.continues (h : Records log s) (hc : Continues s s') (hseen : s'.seen ⊆ s.seen)
    (hgroups : s'.groupPending ⊆ s.groupPending) : Records log s' := by
  have hsubset := hc.grows.subset
  refine ⟨?_, h.issued.trans hc.seq, ?_, ?_, ?_⟩
  · rw [hc.history]
    exact h.keyed
  · intro id hid
    rw [hc.now]
    rcases hc.confirmed id hid with hid | ⟨d, hd, hok, hat, hmem⟩
    · exact (h.delivered id hid).mono hc.deliveries le_rfl
    · exact .inr ⟨d, hd, hok, hat.le, hmem⟩
  · intro t ht
    obtain ⟨v, e, hv, hid, hendpoint, hkind, hlt, hfamily, hdown⟩ := h.entry t (hseen ht)
    refine ⟨v, e, hsubset hv, hid, hendpoint, hkind, hlt, hc.endpoints e _ hfamily, fun hk => ?_⟩
    rw [hc.history, hc.now]
    exact (hdown hk).imp_right fun hrec => hrec.mono hsubset le_rfl
  · intro g hg
    obtain ⟨v, hv, hid⟩ := h.grouped g (hgroups hg)
    exact ⟨v, hsubset hv, hid⟩

/-- The window and what has fired stay. -/
structure SameWindow (s s' : Alerter) : Prop where
  pending : s'.pending = s.pending
  groupPending : s'.groupPending = s.groupPending
  firesAt : s'.windowFiresAt = s.windowFiresAt
  timer : s'.windowTimer = s.windowTimer
  fired : s'.fired = s.fired

theorem SameWindow.seen (h : SameWindow s s') : s'.seen = s.seen := by
  unfold Alerter.seen
  rw [h.pending, h.fired]

theorem SameWindow.bornLoud (h : SameWindow s s') (hb : BornLoud q s) : BornLoud q s' := by
  unfold BornLoud
  rw [h.firesAt]
  exact hb

theorem SameWindow.pends (h : SameWindow s s') {id : ℕ} (hp : Pends q s id) : Pends q s' id := by
  refine ⟨h.bornLoud hp.1, ?_⟩
  rw [h.groupPending]
  exact hp.2

theorem Watch.continues (h : Watch log q s) (hr : Records log s) (hlog : s.log.Chronicle s.now)
    (hc : Continues s s') (hw : SameWindow s s')
    (hawaits : s.quietTimer.Awaits q s.now → s'.quietTimer.Awaits q s'.now) : Watch log q s' := by
  have hgrows := hc.grows
  have hbound : ∀ t ∈ s.seen, t.eventId ≤ s.log.seq := fun t ht => hr.bound hlog ht
  refine ⟨?_, ?_, ?_⟩
  · intro f a hlast hkind
    rw [hc.history] at hlast
    -- each obligation is met the way it was: delivered, awaited, or still in the window
    rcases h.opened f a hlast hkind with hd | ha | hp
    · rw [hc.now]
      exact .inl (hd.mono hc.deliveries le_rfl)
    · exact .inr (.inl (hawaits ha))
    · exact .inr (.inr (hw.pends hp))
  · intro t ht hkind
    rw [hw.pending] at ht
    have hid := hbound t (List.mem_append_left _ ht)
    rcases h.waiting t ht hkind with hs | ha | ⟨hb, habsorbed⟩
    · rw [hc.now]
      exact .inl (hs.mono hgrows hid le_rfl)
    · exact .inr (.inl (hawaits ha))
    · refine .inr (.inr ⟨hw.bornLoud hb, fun habs => ?_⟩)
      obtain ⟨a, hforce, hp⟩ := habsorbed habs
      exact ⟨a, hforce.grows hgrows hid, hw.pends hp⟩
  · intro p hp hkind hloud
    rw [hw.fired] at hp
    have hid := hbound p.1 (List.mem_append_right _ (List.mem_map_of_mem hp))
    obtain ⟨hle, hs | ⟨heq, ha⟩⟩ := h.fired p hp hkind hloud
    · rw [hc.now]
      exact ⟨hle, .inl (hs.mono hgrows hid le_rfl)⟩
    · have ha' := hawaits ha
      rw [hc.now] at ha' ⊢
      exact ⟨hle, .inr ⟨heq, ha'⟩⟩

/-- The clock moves on without overrunning a timer. -/
theorem Records.clock (h : Records log s) {now : ℤ} (hle : s.now ≤ now) :
    Records log { s with now } := by
  refine ⟨h.keyed, h.issued, fun id hid => (h.delivered id hid).mono (List.Subset.refl _) hle,
    fun t ht => ?_, h.grouped⟩
  obtain ⟨v, e, hv, hid, hendpoint, hkind, hlt, hfamily, hdown⟩ := h.entry t ht
  refine ⟨v, e, hv, hid, hendpoint, hkind, hlt, hfamily, fun hk => ?_⟩
  exact (hdown hk).imp_right fun hrec => hrec.mono (List.Subset.refl _) hle

theorem Watch.clock (h : Watch log q s) (hr : Records log s) (hlog : s.log.Chronicle s.now)
    {now : ℤ} (hle : s.now ≤ now) (hdue : ∀ b ∈ s.quietTimer.timer, now ≤ b) :
    Watch log q { s with now } := by
  have hgrows : Grows s { s with now } := ⟨⟨[], (List.append_nil _).symm, by simp⟩,
    List.Subset.refl _⟩
  have hbound : ∀ t ∈ s.seen, t.eventId ≤ s.log.seq := fun t ht => hr.bound hlog ht
  have hawaits : s.quietTimer.Awaits q s.now → s.quietTimer.Awaits q now :=
    fun ha => ha.clock hle hdue
  refine ⟨?_, ?_, ?_⟩
  · intro f a hlast hkind
    rcases h.opened f a hlast hkind with hd | ha | hp
    · exact .inl (hd.mono (List.Subset.refl _) hle)
    · exact .inr (.inl (hawaits ha))
    · exact .inr (.inr hp)
  · intro t ht hkind
    rcases h.waiting t ht hkind with hs | ha | hb
    · exact .inl (hs.mono hgrows (hbound t (List.mem_append_left _ ht)) hle)
    · exact .inr (.inl (hawaits ha))
    · exact .inr (.inr hb)
  · intro p hp hkind hloud
    have hid := hbound p.1 (List.mem_append_right _ (List.mem_map_of_mem hp))
    obtain ⟨hle', hs | ⟨heq, ha⟩⟩ := h.fired p hp hkind hloud
    · exact ⟨hle'.trans hle, .inl (hs.mono hgrows hid le_rfl)⟩
    · -- the boundary is due now, so the clock does not move
      rw [heq] at hloud
      have hnow : now = s.now := le_antisymm (hdue _ (ha.due hloud)) hle
      exact ⟨hle'.trans hle, .inr ⟨heq.trans hnow.symm, hawaits ha⟩⟩

/-! ### Steps that record a transition -/

/-- Quiet hours are `q`, and no armed timer has been overrun. -/
structure OnTime (q : QuietHours) (s : Alerter) : Prop where
  quietHours : s.settings.quietHours = q
  window : s.windowFiresAt = s.windowTimer
  due : ∀ due ∈ s.windowTimer, s.now ≤ due
  boundary : s.quietTimer.Punctual q s.now

section Recorded

variable {endpointId : ℕ} {kind : AlertKind} {alert : EndpointAlert} {absorbed : Bool}
  {group : Option BufferedGroupTransition}

theorem Recorded.grows (hr : Recorded s s' endpointId kind alert absorbed group)
    (hkind : kind = .down ∨ kind = .recovered) : Grows s s' := by
  refine ⟨⟨_, history_recorded hr hkind, fun v hv => ?_⟩, ?_⟩
  · rcases List.mem_cons.mp hv with rfl | hv
    · exact Nat.lt_succ_self _
    · cases group with
      | none => cases hv
      | some g =>
        rw [List.mem_singleton.mp hv]
        exact Nat.lt_succ_of_lt (Nat.lt_succ_self _)
  · rw [hr.same.2.2.2.2.1]
    exact List.Subset.refl _

/-- A transition confirms nothing. -/
theorem Recorded.confirms (hr : Recorded s s' endpointId kind alert absorbed group) {id : ℕ}
    (hid : s'.log.Confirms id) : s.log.Confirms id := by
  rw [hr.log_eq] at hid
  cases group with
  | none => exact confirms_of_create (.inr rfl) hid
  | some g => exact confirms_of_create (.inr rfl) (confirms_of_create (.inr rfl) hid)

theorem mem_history_recorded (hr : Recorded s s' endpointId kind alert absorbed group)
    (hkind : kind = .down ∨ kind = .recovered) :
    ⟨s.log.seq + 1, some endpointId, kind, false, s.now, none⟩ ∈ s'.log.history := by
  rw [history_recorded hr hkind]
  exact List.mem_append_right _ List.mem_cons_self

/-- The opening or closing that a transition causes. -/
theorem mem_history_grouped (hr : Recorded s s' endpointId kind alert absorbed group)
    (hkind : kind = .down ∨ kind = .recovered) {g : BufferedGroupTransition} (hg : group = some g) :
    ⟨s.log.seq + 2, none, g.kind, false, s.now, some alert.family⟩ ∈ s'.log.history := by
  rw [history_recorded hr hkind, hg]
  exact List.mem_append_right _ (List.mem_cons_of_mem _ (List.mem_singleton_self _))

/-- A down transition stays the last one of its endpoint until the endpoint recovers. -/
theorem Records.recorded (h : Records log s) (ha : Agrees s) {consecutive : ℕ}
    (hdecision : s.decision endpointId consecutive = some kind)
    (hr : Recorded s s' endpointId kind alert absorbed group) : Records log s' := by
  have hkind := kind_of_decision hdecision
  have hgrows := hr.grows hkind
  obtain ⟨hnow, -, hendpoints, -, hdeliveries, hfired⟩ := hr.same
  have hnew := mem_history_recorded hr hkind
  have hfamily : endpointFamily s.endpoints endpointId = some alert.family := by
    obtain ⟨e, he, rfl⟩ := Option.map_eq_some_iff.mp hr.alertOf
    unfold endpointFamily
    rw [he]
    rfl
  refine ⟨?_, ?_, ?_, ?_, ?_⟩
  · intro v hv hgroup
    rw [history_recorded hr hkind] at hv
    rcases List.mem_append.mp hv with hv | hv
    · exact h.keyed v hv hgroup
    rcases List.mem_cons.mp hv with rfl | hv
    · rcases hkind with rfl | rfl <;> cases hgroup
    · obtain ⟨g, -, rfl⟩ := Option.mem_map.mp (Option.mem_toList.mp hv)
      rfl
  · have := hr.seq
    have := h.issued
    omega
  · intro id hid
    rw [hdeliveries, hnow]
    exact h.delivered id (hr.confirms hid)
  · intro t ht
    have hseen : t ∈ s.seen ∨ t = ⟨s.log.seq + 1, kind, alert, absorbed⟩ := by
      unfold Alerter.seen at ht ⊢
      rw [hr.pending, hfired] at ht
      simp only [List.mem_append, List.mem_singleton] at ht ⊢
      tauto
    rcases hseen with hseen | rfl
    · obtain ⟨v, e, hv, hid, hendpoint, htkind, hlt, hfam, hdown⟩ := h.entry t hseen
      refine ⟨v, e, hgrows.subset hv, hid, hendpoint, htkind, hlt, hendpoints ▸ hfam, fun hk => ?_⟩
      rcases hdown hk with hlast | hrec
      · rw [lastTransition_recorded hr hkind]
        by_cases he : e = endpointId
        · -- the endpoint is alerted, so what it does now is to recover
          have halerted : s.alertedFlag endpointId = true := by
            rw [ha.alerted, ← he, hlast]
            simp [htkind, hk]
          have hrecovered : kind = .recovered := by
            unfold Alerter.decision at hdecision
            rw [halerted] at hdecision
            simp only [Bool.not_true, Bool.false_eq_true, false_and, if_false] at hdecision
            split at hdecision
            · exact (Option.some.inj hdecision).symm
            · cases hdecision
          obtain ⟨w, hw, -, rfl⟩ := mem_history.mp hv
          have hissued : w.id ≤ s.log.seq := ha.chronicle.issued w hw
          refine .inr ⟨_, hgrows.subset hv, hid, _, hnew, hrecovered, ?_, ?_, hnow.ge⟩
          · rw [hendpoint, he]
          · exact Nat.lt_succ_of_le hissued
        · rw [if_neg he]
          exact .inl hlast
      · exact .inr (hrec.mono hgrows.subset hnow.ge)
    · refine ⟨_, endpointId, hnew, rfl, rfl, rfl, Nat.lt_succ_of_le h.issued, hendpoints ▸ hfamily,
        fun _ => .inl ?_⟩
      rw [lastTransition_recorded hr hkind, if_pos rfl]
  · intro g hg
    rw [hr.groupPending] at hg
    rcases List.mem_append.mp hg with hg | hg
    · obtain ⟨v, hv, hid⟩ := h.grouped g hg
      exact ⟨v, hgrows.subset hv, hid⟩
    · have hg' := Option.mem_toList.mp hg
      exact ⟨_, mem_history_grouped hr hkind hg', (hr.grouped g hg').1.symm⟩

/-- What is buffered joins a stretch whose summary is still to come, a window that was not born in
quiet hours, or a window that was, too late. -/
theorem joined (ht : OnTime q s) (hr : Recorded s s' endpointId kind alert absorbed group) :
    s'.quietTimer.Awaits q s'.now ∨ BornLoud q s' ∨ s.joinsLate = true := by
  obtain ⟨rfl, hwindow, -, hboundary⟩ := ht
  have htimer : s'.quietTimer = s.quietTimer.sync s.settings.quietHours s.now := hr.timers.2.2
  have hfires := hr.timers.2.1
  rw [htimer, hr.same.1]
  by_cases hquiet : s.settings.quietHours.quiet s.now = true
  · exact .inl (QuietTimer.awaits_of_quiet hboundary hquiet)
  by_cases hready : s.quietTimer.timer.any (· ≤ s.now) = true
  · exact .inl ((QuietTimer.awaits_of_due hboundary hready).sync hboundary)
  rw [Bool.not_eq_true] at hquiet hready
  right
  cases harmed : s.windowTimer with
  | none =>
    -- the window is born now
    refine .inl ⟨s.now + alertWindow, ?_, ?_⟩
    · rw [hfires]
      simp [armWindow, harmed]
    · rw [add_sub_cancel_right]
      exact hquiet
  | some due =>
    by_cases hborn : s.settings.quietHours.quiet (due - alertWindow) = true
    · right
      unfold Alerter.joinsLate
      simp [hwindow, harmed, hborn, hquiet, hready]
    · refine .inl ⟨due, ?_, ?_⟩
      · rw [hfires]
        simp [armWindow, harmed, hwindow]
      · rw [Bool.not_eq_true] at hborn
        exact hborn

theorem BornLoud.recorded (hb : BornLoud q s) (ht : OnTime q s)
    (hr : Recorded s s' endpointId kind alert absorbed group) : BornLoud q s' := by
  obtain ⟨due, hdue, hborn⟩ := hb
  refine ⟨due, ?_, hborn⟩
  rw [hr.timers.2.1]
  have harmed : s.windowTimer = some due := ht.window ▸ hdue
  simp [armWindow, harmed, hdue]

theorem Pends.recorded {id : ℕ} (hp : Pends q s id) (ht : OnTime q s)
    (hr : Recorded s s' endpointId kind alert absorbed group) : Pends q s' id := by
  obtain ⟨g, hg, hid⟩ := hp.2
  refine ⟨hp.1.recorded ht hr, g, ?_, hid⟩
  rw [hr.groupPending]
  exact List.mem_append_left _ hg

/-- No group event of a family comes after the last one. -/
theorem lastGroup_last (hc : s.log.Chronicle s.now) {f : String} {a : AlertEvent}
    (hlast : lastGroup s.log.history f = some a) :
    a ∈ s.log.history ∧ a.groupKey = some f ∧
      ∀ r ∈ s.log.history, r.groupKey = some f → isGroupTransition r = true → r.id ≤ a.id := by
  have hordered : s.log.history.Pairwise fun v w => v.id < w.id :=
    List.pairwise_map.mpr ((hc.ordered.filter _).imp And.left)
  have hmem := List.mem_of_getLast? hlast
  obtain ⟨hmem, hkey⟩ := List.mem_filter.mp hmem
  simp only [Bool.and_eq_true, decide_eq_true_eq] at hkey
  refine ⟨hmem, hkey.1, fun r hr hfamily hgroup => ?_⟩
  obtain ⟨before, heq⟩ := List.getLast?_eq_some_iff.mp hlast
  have hin : r ∈ before ++ [a] := by
    rw [← heq]
    exact List.mem_filter.mpr ⟨hr, by simp [hfamily, hgroup]⟩
  have hsorted := hordered.filter fun v => v.groupKey = some f && isGroupTransition v
  rw [heq] at hsorted
  rcases List.mem_append.mp hin with hin | hin
  · exact ((List.pairwise_append.mp hsorted).2.2 r hin a (List.mem_singleton_self a)).le
  · rw [List.mem_singleton.mp hin]

/-- An opening that is the last group event of the family before a transition stands for it. -/
theorem inForce_before (hc : s.log.Chronicle s.now)
    (hr : Recorded s s' endpointId kind alert absorbed group)
    (hkind : kind = .down ∨ kind = .recovered) {a : AlertEvent}
    (hlast : lastGroup s.log.history alert.family = some a) (hopen : a.kind = .groupDown) :
    InForce s'.log.history ⟨s.log.seq + 1, kind, alert, absorbed⟩ a := by
  obtain ⟨hmem, hfamily, hend⟩ := lastGroup_last hc hlast
  obtain ⟨w, hw, -, hwa⟩ := mem_history.mp hmem
  have hissued : a.id ≤ s.log.seq := hwa ▸ hc.issued w hw
  refine ⟨(hr.grows hkind).subset hmem, hopen, hfamily, by dsimp only; omega, ?_⟩
  intro r hmem' hclosing hkey hlt
  rw [history_recorded hr hkind] at hmem'
  rcases List.mem_append.mp hmem' with hmem' | hmem'
  · have hle := hend r hmem' hkey (by simp [isGroupTransition, hclosing])
    exact absurd hlt (Nat.not_lt.mpr hle)
  rcases List.mem_cons.mp hmem' with rfl | hmem'
  · cases hkey
  · obtain ⟨g, -, rfl⟩ := Option.mem_map.mp (Option.mem_toList.mp hmem')
    exact Nat.lt_succ_self _

/-- An opening that a transition causes stands for it. -/
theorem inForce_grouped (hr : Recorded s s' endpointId kind alert absorbed group)
    (hkind : kind = .down ∨ kind = .recovered) {g : BufferedGroupTransition} (hg : group = some g)
    (hopen : g.kind = .groupDown) :
    InForce s'.log.history ⟨s.log.seq + 1, kind, alert, absorbed⟩
      ⟨s.log.seq + 2, none, g.kind, false, s.now, some alert.family⟩ := by
  refine ⟨mem_history_grouped hr hkind hg, hopen, rfl, le_rfl, ?_⟩
  intro r hmem hclosing hkey hlt
  exact (Nat.lt_succ_self _).trans hlt

/-- A summary to come is still to come after a transition. -/
theorem awaits_recorded (ht : OnTime q s)
    (hr : Recorded s s' endpointId kind alert absorbed group)
    (h : s.quietTimer.Awaits q s.now) : s'.quietTimer.Awaits q s'.now := by
  have htimer : s'.quietTimer = s.quietTimer.sync q s.now := ht.quietHours ▸ hr.timers.2.2
  rw [htimer, hr.same.1]
  exact h.sync ht.boundary

/-- What is known of an opening before a transition is known after it. -/
theorem Watch.opened_recorded (h : Watch log q s) (ht : OnTime q s)
    (hr : Recorded s s' endpointId kind alert absorbed group) {f : String} {a : AlertEvent}
    (hlast : lastGroup s.log.history f = some a) (hopen : a.kind = .groupDown) :
    Delivered log s'.deliveries s'.now a.id ∨ s'.quietTimer.Awaits q s'.now ∨ Pends q s' a.id := by
  obtain ⟨hnow, -, -, -, hdeliveries, -⟩ := hr.same
  rcases h.opened f a hlast hopen with hd | haw | hp
  · rw [hdeliveries, hnow]
    exact .inl hd
  · exact .inr (.inl (awaits_recorded ht hr haw))
  · exact .inr (.inr (hp.recorded ht hr))

/-- An opening that a transition causes is watched, if it does not join too late. -/
theorem pends_of_opening (ht : OnTime q s)
    (hr : Recorded s s' endpointId kind alert absorbed group)
    (hlate : s.joinsLate = true →
      ¬ GroupDecision (s.flipped endpointId kind) alert.family .groupDown)
    {g : BufferedGroupTransition} (hg : group = some g) (hopen : g.kind = .groupDown) :
    s'.quietTimer.Awaits q s'.now ∨ Pends q s' (s.log.seq + 2) := by
  obtain ⟨hid, -, hdecided, -⟩ := hr.grouped g hg
  rcases joined ht hr with haw | hb | hj
  · exact .inl haw
  · refine .inr ⟨hb, g, ?_, hid⟩
    rw [hr.groupPending, hg]
    exact List.mem_append_right _ (List.mem_singleton_self g)
  · rw [hopen] at hdecided
    exact absurd hdecided (hlate hj)

/-- Of a family whose group was open before, the opening stands for the transition. -/
theorem Watch.settles_of_open (h : Watch log q s) (ht : OnTime q s) (ha : Agrees s)
    (hr : Recorded s s' endpointId kind alert absorbed group)
    (hkind : kind = .down ∨ kind = .recovered) (hflag : s.groupFlag alert.family = true) :
    Settles log s' ⟨s.log.seq + 1, kind, alert, absorbed⟩ s'.now ∨
      s'.quietTimer.Awaits q s'.now ∨ ∃ a,
        InForce s'.log.history ⟨s.log.seq + 1, kind, alert, absorbed⟩ a ∧ Pends q s' a.id := by
  have hopened := hflag
  rw [ha.group] at hopened
  obtain ⟨a, hlast, hopen⟩ := (Option.any_eq_true _ _).mp hopened
  have hforce := inForce_before ha.chronicle hr hkind hlast (of_decide_eq_true hopen)
  rcases h.opened_recorded ht hr hlast (of_decide_eq_true hopen) with hd | haw | hp
  · have habsorbed : absorbed = true := by rw [hr.absorbed, hflag, Bool.true_or]
    exact .inl (.inr (.inr ⟨habsorbed, a, hforce, hd⟩))
  · exact .inr (.inl haw)
  · exact .inr (.inr ⟨a, hforce, hp⟩)

/-- A transition that is absorbed although its group was not open opens it. -/
theorem Recorded.opens (hr : Recorded s s' endpointId kind alert absorbed group)
    (habsorbed : absorbed = true) (hflag : s.groupFlag alert.family = false) :
    ∃ g, group = some g ∧ g.kind = .groupDown := by
  have hopen : s'.groupFlag alert.family = true := by
    have habs := hr.absorbed
    rw [habsorbed, hflag, Bool.false_or] at habs
    exact habs.symm
  rw [hr.groupFlag] at hopen
  cases hg : group with
  | none =>
    rw [hg, Option.elim_none, hflag] at hopen
    cases hopen
  | some g =>
    rw [hg, Option.elim_some, Function.update_self] at hopen
    exact ⟨g, rfl, of_decide_eq_true hopen⟩

/-- The transition itself: it is told, or the summary is to come, or its window was born loud and
an opening that absorbs it is in that window. -/
theorem Watch.waiting_recorded (h : Watch log q s) (ht : OnTime q s) (ha : Agrees s)
    (hr : Recorded s s' endpointId kind alert absorbed group)
    (hkind : kind = .down ∨ kind = .recovered) (hdown : kind = .down)
    (hlate : s.joinsLate = true → (kind = .down → s.groupFlag alert.family = true) ∧
      ¬ GroupDecision (s.flipped endpointId kind) alert.family .groupDown) :
    Settles log s' ⟨s.log.seq + 1, kind, alert, absorbed⟩ s'.now ∨
      s'.quietTimer.Awaits q s'.now ∨ BornLoud q s' ∧ (absorbed = true → ∃ a,
        InForce s'.log.history ⟨s.log.seq + 1, kind, alert, absorbed⟩ a ∧ Pends q s' a.id) := by
  have hopen := h.settles_of_open ht ha hr hkind
  rcases joined ht hr with haw | hb | hj
  · exact .inr (.inl haw)
  · -- a down before its group opened is absorbed only by the group it opens itself
    cases hflag : s.groupFlag alert.family with
    | true =>
      rcases hopen hflag with hs | haw | hp
      · exact .inl hs
      · exact .inr (.inl haw)
      · exact .inr (.inr ⟨hb, fun _ => hp⟩)
    | false =>
      cases habsorbed : absorbed with
      | false => exact .inr (.inr ⟨hb, fun h => Bool.noConfusion h⟩)
      | true =>
        obtain ⟨g, hg, hgroup⟩ := hr.opens habsorbed hflag
        have hforce := inForce_grouped hr hkind hg hgroup
        rw [habsorbed] at hforce
        rcases pends_of_opening ht hr (fun hj => (hlate hj).2) hg hgroup with haw | hp
        · exact .inr (.inl haw)
        · exact .inr (.inr ⟨hb, fun _ => ⟨_, hforce, hp⟩⟩)
  · rcases hopen ((hlate hj).1 hdown) with hs | haw | ⟨a, hforce, hp⟩
    · exact .inl hs
    · exact .inr (.inl haw)
    · exact .inr (.inr ⟨hp.1, fun _ => ⟨a, hforce, hp⟩⟩)

/-- **A transition.** In a steady run it is watched: the summary is to come, or its window is not
held, or it belongs to a group whose opening is watched. -/
theorem Watch.recorded (h : Watch log q s) (hrec : Records log s) (ht : OnTime q s) (ha : Agrees s)
    {consecutive : ℕ} (hdecision : s.decision endpointId consecutive = some kind)
    (hr : Recorded s s' endpointId kind alert absorbed group)
    (hsteady : Steady s (.handleRound endpointId consecutive)) : Watch log q s' := by
  have hkind := kind_of_decision hdecision
  have hgrows := hr.grows hkind
  have hbound : ∀ t ∈ s.seen, t.eventId ≤ s.log.seq := fun t ht => hrec.bound ha.chronicle ht
  have hnow := hr.same.1
  have hlate : s.joinsLate = true → (kind = .down → s.groupFlag alert.family = true) ∧
      ¬ GroupDecision (s.flipped endpointId kind) alert.family .groupDown :=
    fun hj => hsteady.2 hj kind hdecision alert hr.alertOf
  constructor
  case opened =>
    intro f a hlast hopen
    rw [lastGroup_recorded hr hkind] at hlast
    split at hlast
    · cases hg : group with
      | none =>
        rw [hg] at hlast
        exact h.opened_recorded ht hr (by simpa [*] using hlast) hopen
      | some g =>
        rw [hg, Option.map_some, Option.some_or] at hlast
        obtain rfl := Option.some.inj hlast
        exact .inr (pends_of_opening ht hr (fun hj => (hlate hj).2) hg hopen)
    · exact h.opened_recorded ht hr hlast hopen
  case waiting =>
    intro t htin hdown
    rw [hr.pending] at htin
    rcases List.mem_append.mp htin with htin | htin
    · -- it was pending before, and what was known of it is still known
      have hid := hbound t (List.mem_append_left _ htin)
      rcases h.waiting t htin hdown with hs | haw | ⟨hb, habs⟩
      · rw [hnow]
        exact .inl (hs.mono hgrows hid le_rfl)
      · exact .inr (.inl (awaits_recorded ht hr haw))
      · refine .inr (.inr ⟨hb.recorded ht hr, fun habsorbed => ?_⟩)
        obtain ⟨a, hforce, hp⟩ := habs habsorbed
        exact ⟨a, hforce.grows hgrows hid, hp.recorded ht hr⟩
    · obtain rfl := List.mem_singleton.mp htin
      exact h.waiting_recorded ht ha hr hkind hdown hlate
  case fired =>
    intro p hp hdown hloud
    rw [hr.same.2.2.2.2.2] at hp
    have hid := hbound p.1 (List.mem_append_right _ (List.mem_map_of_mem hp))
    rw [hnow]
    obtain ⟨hle, hs | ⟨heq, haw⟩⟩ := h.fired p hp hdown hloud
    · exact ⟨hle, .inl (hs.mono hgrows hid le_rfl)⟩
    · have haw' := awaits_recorded ht hr haw
      rw [hnow] at haw'
      exact ⟨hle, .inr ⟨heq, haw'⟩⟩

end Recorded

/-! ### Summaries -/

/-- A confirmed transition of this process was told by a message. -/
theorem settles_of_confirms (hrec : Records log s) (hissued : ∀ v ∈ log.events, v.id ≤ log.seq)
    (ht : t ∈ s.seen) (h : s.log.Confirms t.eventId) : Settles log s t s.now := by
  obtain ⟨v, e, -, hid, -, -, hlt, -⟩ := hrec.entry t ht
  rcases hrec.delivered _ h with ⟨w, hw, hwid, -⟩ | ⟨d, hd, hok, hat, hmem⟩
  · have := hissued w hw
    omega
  · refine .inr (.inl ⟨d, hd, hok, hat, ?_⟩)
    unfold Delivery.reports
    rw [decide_eq_true hmem, Bool.true_or]

/-- A family that the history leaves open is confirmed, or the summary lists it. -/
theorem mem_summaryGroups_of_open (hrec : Records log s) (hc : s.log.Chronicle s.now) {f : String}
    {a : AlertEvent} (hlast : lastGroup s.log.history f = some a) (hopen : a.kind = .groupDown) :
    s.log.Confirms a.id ∨ ∃ v, (f, v) ∈ s.summaryGroups ∧ v.id = a.id := by
  rw [lastGroup_history hc] at hlast
  obtain ⟨v, hlatest, rfl⟩ := Option.map_eq_some_iff.mp hlast
  have hmem : v ∈ s.log.events := by
    rw [latestGroupEvent_eq hc] at hlatest
    exact (List.mem_filter.mp (List.mem_of_getLast? hlatest)).1
  have hkind : v.kind = .groupDown := hopen
  have hkeyed : ∀ w ∈ s.log.events, isGroupTransition w = true → w.groupKey.isSome = true := by
    intro w hw hgroup
    exact hrec.keyed w.erase (mem_history.mpr ⟨w, hw, tracked_of_isGroupTransition hgroup, rfl⟩)
      hgroup
  cases hsent : v.sentOk with
  | true =>
    refine .inl ⟨v, hmem, rfl, ?_, hsent⟩
    rw [hkind]
    rfl
  | false =>
    refine .inr ⟨v, List.mem_filter.mpr ⟨?_, by simp [hsent]⟩, rfl⟩
    exact (mem_listOpenGroupAlerts hc hkeyed).mpr ⟨hlatest, hkind⟩

/-- An endpoint whose last transition is a down transition is open. -/
theorem mem_listOpenEndpointAlerts {endpoints : List AlertEndpoint} {now : ℤ}
    (hc : log.Chronicle now) {e : ℕ} {endpoint : AlertEndpoint} {v : AlertEvent}
    (hfind : (endpoints.find? fun x => x.id = e) = some endpoint)
    (hlatest : log.latestDownRecoveryEvent e = some v) (hkind : v.kind = .down) :
    (endpoint, v) ∈ log.listOpenEndpointAlerts endpoints := by
  have hany : (endpoints.any fun x => e = x.id) = true := by
    refine List.any_eq_true.mpr ⟨endpoint, List.mem_of_find?_eq_some hfind, ?_⟩
    simpa [eq_comm] using List.find?_some hfind
  -- the query keeps the events of listed endpoints; of this endpoint those are all
  have hfilter : (log.events.filter fun w =>
        isTransition w && endpoints.any fun x => w.endpointId = some x.id).filter
          (fun w => w.endpointId = some e) =
      log.events.filter fun w => w.endpointId = some e && isTransition w := by
    rw [List.filter_filter]
    apply List.filter_congr
    intro w _
    by_cases hw : w.endpointId = some e
    · simp [hw, hany]
    · simp [hw]
  rw [latestDownRecoveryEvent_eq hc] at hlatest
  unfold listOpenEndpointAlerts
  refine List.mem_filterMap.mpr ⟨(some e, v), List.mem_filter.mpr ⟨?_, by simpa using hkind⟩, ?_⟩
  · rw [mem_firstPerKey, newestFirst_eq hc, List.filter_reverse, hfilter, List.head?_reverse]
    exact hlatest
  · have hfind' : (endpoints.find? fun x => some e = some x.id) = some endpoint := by
      simpa [eq_comm] using hfind
    rw [hfind']
    rfl

/-- A summary that has something to report is sent. -/
theorem summary_delivers (hwebhook : s.settings.webhook ≠ "") {id : ℕ} (hid : id ∈ s.summaryIds) :
    ⟨.quietSummary (s.summaryEndpoints.map Prod.fst) (s.summaryGroups.map Prod.fst)
      s.quietScoreDrops, s.summaryIds, true, s.now, s.log.seq⟩ ∈
        (s.deliverQuietSummary true).deliveries := by
  have hsome : ¬ (s.summaryEndpoints = [] ∧ s.summaryGroups = [] ∧ s.quietScoreDrops = []) := by
    rintro ⟨hendpoints, hgroups, hdrops⟩
    unfold summaryIds at hid
    simp [hendpoints, hgroups, hdrops] at hid
  unfold deliverQuietSummary
  rw [if_neg hwebhook, if_neg hsome]
  exact List.mem_append_right _ (List.mem_singleton_self _)

/-- **A summary** settles whatever was recorded: the families and the endpoints that are still open
are confirmed, or it lists them. -/
theorem summary_settles (hrec : Records log s) (hissued : ∀ v ∈ log.events, v.id ≤ log.seq)
    (hc : s.log.Chronicle s.now) (hwebhook : s.settings.webhook ≠ "") :
    (∀ f a, lastGroup s.log.history f = some a → a.kind = .groupDown →
      Delivered log (s.deliverQuietSummary true).deliveries s.now a.id) ∧
    ∀ t ∈ s.seen, t.kind = .down → Settles log (s.deliverQuietSummary true) t s.now := by
  have hrecounts := recounts_deliverQuietSummary s true
  have hgroup : ∀ f v, (f, v) ∈ s.summaryGroups → v.id ∈ s.summaryIds := fun f v hv =>
    List.mem_append_left _ (List.mem_append_left _ (List.mem_map_of_mem hv))
  constructor
  · intro f a hlast hopen
    rcases mem_summaryGroups_of_open hrec hc hlast hopen with hconfirms | ⟨v, hv, hid⟩
    · exact (hrec.delivered _ hconfirms).mono hrecounts.deliveries le_rfl
    · exact .inr ⟨_, summary_delivers hwebhook (hgroup f v hv), rfl, le_rfl, hid ▸ hgroup f v hv⟩
  · intro t ht hdown
    have hbound := hrec.bound hc ht
    have hmono : Settles log s t s.now → Settles log (s.deliverQuietSummary true) t s.now :=
      fun hs => hs.mono hrecounts.grows hbound le_rfl
    obtain ⟨v, e, -, hid, -, hkind, -, hfamily, hstate⟩ := hrec.entry t ht
    rcases hstate hdown with hlast | hrecovered
    swap
    · exact hmono (.inl hrecovered)
    rw [lastTransition_history hc] at hlast
    obtain ⟨w, hlatest, rfl⟩ := Option.map_eq_some_iff.mp hlast
    have hwid : w.id = t.eventId := hid
    have hwkind : w.kind = .down := hkind.trans hdown
    have hmem : w ∈ s.log.events := by
      rw [latestDownRecoveryEvent_eq hc] at hlatest
      exact (List.mem_filter.mp (List.mem_of_getLast? hlatest)).1
    by_cases hsent : w.sentOk = true
    · apply hmono
      apply settles_of_confirms hrec hissued ht
      refine ⟨w, hmem, hwid, ?_, hsent⟩
      rw [hwkind]
      rfl
    obtain ⟨endpoint, hfind, hfam⟩ := Option.map_eq_some_iff.mp hfamily
    have hopen := mem_listOpenEndpointAlerts hc hfind hlatest hwkind
    right
    left
    by_cases hlisted : endpoint.family ∈ s.summaryGroups.map Prod.fst
    · -- the line of its family tells the endpoint
      obtain ⟨⟨f, u⟩, hu, -⟩ := List.mem_map.mp hlisted
      refine ⟨_, summary_delivers hwebhook (hgroup f u hu), rfl, le_rfl, ?_⟩
      rw [hfam] at hlisted
      unfold Delivery.reports
      simp only [hbound, hlisted, decide_true, Bool.and_self, Bool.or_true]
    · have hin : w.id ∈ s.summaryIds := by
        refine List.mem_append_left _ (List.mem_append_right _ (List.mem_map.mpr
          ⟨(endpoint, w), List.mem_filter.mpr ⟨hopen, ?_⟩, rfl⟩))
        simp [hsent, hlisted]
      refine ⟨_, summary_delivers hwebhook hin, rfl, le_rfl, ?_⟩
      rw [hwid] at hin
      unfold Delivery.reports
      simp only [hin, decide_true, Bool.true_or]

theorem sameWindow_onQuietBoundary (s : Alerter) (ok : Bool) :
    SameWindow s (s.onQuietBoundary ok) := by
  have hsummary : SameWindow s (s.deliverQuietSummary ok) := by
    unfold deliverQuietSummary
    split
    · exact ⟨rfl, rfl, rfl, rfl, rfl⟩
    split
    · exact ⟨rfl, rfl, rfl, rfl, rfl⟩
    · exact ⟨rfl, rfl, rfl, rfl, rfl⟩
  unfold onQuietBoundary
  split
  · exact ⟨rfl, rfl, rfl, rfl, rfl⟩
  · exact ⟨hsummary.pending, hsummary.groupPending, hsummary.firesAt, hsummary.timer,
      hsummary.fired⟩

theorem quietTimer_onQuietBoundary (s : Alerter) (ok : Bool) :
    (s.onQuietBoundary ok).quietTimer = s.quietTimer.sync s.settings.quietHours s.now := by
  have hsummary : (s.deliverQuietSummary ok).quietTimer = s.quietTimer := by
    unfold deliverQuietSummary
    split
    · rfl
    split <;> rfl
  have hrecounts := recounts_deliverQuietSummary s ok
  unfold onQuietBoundary
  split
  · rfl
  · change (s.deliverQuietSummary ok).quietTimer.sync _ _ = _
    rw [hsummary, hrecounts.settings, hrecounts.now]

/-- **A boundary.** Inside quiet hours the timer is armed for their end, and at their end the summary
settles what waited for it. -/
theorem Watch.boundary (h : Watch log q s) (hrec : Records log s) (ht : OnTime q s)
    (hissued : ∀ v ∈ log.events, v.id ≤ log.seq) (hc : s.log.Chronicle s.now)
    (hwebhook : s.settings.webhook ≠ "") (hdue : s.quietTimer.timer.any (· ≤ s.now) = true)
    (heq : s' = ({ s with quietTimer := ⟨none, s.quietTimer.boundaryAt, false⟩ } :
      Alerter).onQuietBoundary true) : Watch log q s' := by
  obtain ⟨b, hb, -⟩ := (Option.any_eq_true _ _).mp hdue
  have hactive := (ht.boundary b hb).2.2
  let s₁ : Alerter := { s with quietTimer := ⟨none, s.quietTimer.boundaryAt, false⟩ }
  have hrecounts : Recounts s s' := heq ▸ recounts_quietBoundary s true
  have hwindow : SameWindow s s' := by
    have hboundary := sameWindow_onQuietBoundary s₁ true
    rw [heq]
    exact ⟨hboundary.pending, hboundary.groupPending, hboundary.firesAt, hboundary.timer,
      hboundary.fired⟩
  by_cases hquiet : q.quiet s.now = true
  · -- inside quiet hours the timer is armed anew
    have hawaits : s'.quietTimer.Awaits q s'.now := by
      rw [hrecounts.now, heq, quietTimer_onQuietBoundary]
      have hpunctual : s₁.quietTimer.Punctual q s.now := by simp [QuietTimer.Punctual, s₁]
      have hq : s₁.settings.quietHours = q := ht.quietHours
      rw [hq]
      exact QuietTimer.awaits_of_quiet hpunctual hquiet
    exact h.continues hrec hc hrecounts.continues hwindow fun _ => hawaits
  rw [Bool.not_eq_true] at hquiet
  -- at the end of quiet hours the summary settles what waited
  have hrec₁ : Records log s₁ :=
    hrec.continues (recounts_consumed s).continues (List.Subset.refl _) (List.Subset.refl _)
  obtain ⟨hgroups, htransitions⟩ := summary_settles hrec₁ hissued hc hwebhook
  have hs' : s' = (s₁.deliverQuietSummary true).syncQuietTimer := by
    rw [heq]
    unfold onQuietBoundary
    have hq : s₁.settings.quietHours = q := ht.quietHours
    have hnow : s₁.now = s.now := rfl
    rw [hq, hnow, hquiet, hactive]
    rfl
  have hgrows : Grows (s₁.deliverQuietSummary true) s' := by
    rw [hs']
    exact (recounts_syncQuietTimer _).grows
  have hsettles : ∀ t ∈ s.seen, t.kind = .down → Settles log s' t s.now := by
    intro t htin hdown
    have hbound := (hrec₁.bound hc htin).trans (recounts_deliverQuietSummary s₁ true).seq
    exact (htransitions t htin hdown).mono hgrows hbound le_rfl
  refine ⟨?_, ?_, ?_⟩
  · intro f a hlast hopen
    rw [hrecounts.history] at hlast
    rw [hrecounts.now]
    exact .inl ((hgroups f a hlast hopen).mono hgrows.deliveries le_rfl)
  · intro t htin hdown
    rw [hwindow.pending] at htin
    rw [hrecounts.now]
    exact .inl (hsettles t (List.mem_append_left _ htin) hdown)
  · intro p hp hdown hloud
    rw [hwindow.fired] at hp
    rw [hrecounts.now]
    have hin : p.1 ∈ s.seen := List.mem_append_right _ (List.mem_map_of_mem hp)
    obtain ⟨hle, hs | ⟨hat, -⟩⟩ := h.fired p hp hdown hloud
    · exact ⟨hle, .inl (hs.mono hrecounts.grows (hrec.bound hc hin) le_rfl)⟩
    · rw [hat]
      exact ⟨le_rfl, .inl (hsettles p.1 hin hdown)⟩

/-! ### Flushes -/

theorem reports_of_tells {d : Delivery} (h : d.tells t = true) : d.reports t = true := by
  unfold Delivery.tells at h
  unfold Delivery.reports
  split at h
  · rename_i kind alerts hcard
    rw [(Bool.and_eq_true_iff.mp h).2, Bool.true_or]
  · rename_i g hcard
    rw [hcard]
    exact Bool.or_eq_true_iff.mpr (.inr h)
  · cases h
  · cases h

/-- A flush takes everything out of the window and sends messages. -/
theorem flush_spec (s : Alerter) (outcome : ℕ → Bool) :
    ∃ log new, s.flush outcome =
      { s.takeWindow with log, deliveries := s.deliveries ++ new } := by
  have htake : ∃ log new, s.takeWindow =
      { s.takeWindow with log, deliveries := s.deliveries ++ new } :=
    ⟨s.log, [], by simp [takeWindow, syncQuietTimer]⟩
  unfold flush
  split
  · exact htake
  split
  · exact htake
  split
  · exact htake
  split
  · exact htake
  · obtain ⟨log, new, heq, -⟩ := sendCards_spec s.takeWindow outcome
      (flushCards s.unconfirmed s.unconfirmedGroups)
    exact ⟨log, new, heq⟩

/-- A flush looks at the outcome of the sends it makes only. -/
theorem sendCards_congr {outcome outcome' : ℕ → Bool} {cards : List (Card × List ℕ)}
    (h : ∀ k < cards.length, outcome k = outcome' k) :
    s.sendCards outcome cards = s.sendCards outcome' cards := by
  induction cards generalizing s outcome outcome' with
  | nil => rfl
  | cons card cards ih =>
    obtain ⟨card, ids⟩ := card
    unfold sendCards
    rw [h 0 (Nat.zero_lt_succ _)]
    exact ih fun k hk => h (k + 1) (Nat.succ_lt_succ hk)

theorem flush_congr {outcome outcome' : ℕ → Bool}
    (h : ∀ k < (flushCards s.unconfirmed s.unconfirmedGroups).length, outcome k = outcome' k) :
    s.flush outcome = s.flush outcome' := by
  unfold flush
  rw [sendCards_congr h]

/-- What the query confirms is a confirmed transition, when it was recorded as one. -/
theorem confirms_of_mem {id : ℕ} {ids : List ℕ} {now : ℤ} (hc : log.Chronicle now)
    (h : id ∈ log.confirmedAlertEvents ids) (hrecorded : ∃ v ∈ log.history, v.id = id) :
    log.Confirms id := by
  obtain ⟨v, hv, hid⟩ := List.mem_map.mp h
  obtain ⟨hv, hsent⟩ := List.mem_filter.mp hv
  obtain ⟨_, hmem, hwid⟩ := hrecorded
  obtain ⟨w, hw, htracked, rfl⟩ := mem_history.mp hmem
  have hsame : v = w := hc.eq_of_id hv hw (hid.trans hwid.symm)
  exact ⟨v, hv, hid, hsame ▸ htracked, (Bool.and_eq_true_iff.mp hsent).1⟩

/-- **A flush that is not held** settles what waits in the window: what is confirmed was told, and
its cards tell the rest. -/
theorem flush_settles (hrec : Records log s) (hissued : ∀ v ∈ log.events, v.id ≤ log.seq)
    (hc : s.log.Chronicle s.now) (hordered : Ordered s) (hwebhook : s.settings.webhook ≠ "")
    {outcome : ℕ → Bool} (hsteady : Steady s (.flush outcome))
    (hheld : held s.settings.quietHours s.firesAt = false) :
    (∀ g ∈ s.groupPending, Delivered log (s.flush outcome).deliveries s.now g.eventId) ∧
    ∀ t ∈ s.pending, t.kind = .down →
      (t.absorbed = true → ∃ a, InForce s.log.history t a ∧
        ∃ g ∈ s.groupPending, g.eventId = a.id) →
      Settles log (s.flush outcome) t s.now := by
  obtain ⟨hok, htold⟩ := hsteady
  rw [flush_congr hok]
  have hrecounts := recounts_flush s fun _ => true
  -- what is not confirmed is sent now
  have hsent : ∀ card ids, (card, ids) ∈ flushCards s.unconfirmed s.unconfirmedGroups →
      s.unconfirmed ≠ [] ∨ s.unconfirmedGroups ≠ [] →
      ∃ d ∈ (s.flush fun _ => true).deliveries, d.ok = true ∧ d.sentAt ≤ s.now ∧ d.card = card ∧
        d.eventIds = ids := by
    intro card ids hcard hsome
    obtain ⟨log', new, heq, -, hcards, hnew⟩ := sendCards_spec s.takeWindow (fun _ => true)
      (flushCards s.unconfirmed s.unconfirmedGroups)
    rw [← hcards] at hcard
    obtain ⟨d, hd, hshown⟩ := List.mem_map.mp hcard
    obtain ⟨hcard, hids⟩ := Prod.mk.inj hshown
    rw [flush_sends _ hheld hsome hwebhook, heq]
    exact ⟨d, List.mem_append_right _ hd, (hnew d hd).ok fun _ => rfl, (hnew d hd).sentAt.le, hcard,
      hids⟩
  have hgroups : ∀ g ∈ s.groupPending,
      Delivered log (s.flush fun _ => true).deliveries s.now g.eventId := by
    intro g hg
    by_cases hin : g ∈ s.unconfirmedGroups
    · have hcard : (Card.group g, [g.eventId]) ∈ flushCards s.unconfirmed s.unconfirmedGroups :=
        List.mem_append_left _ (List.mem_map_of_mem hin)
      obtain ⟨d, hd, hdok, hat, -, hids⟩ := hsent _ _ hcard (.inr (List.ne_nil_of_mem hin))
      refine .inr ⟨d, hd, hdok, hat, ?_⟩
      rw [hids]
      exact List.mem_singleton_self _
    · have hconfirmed : g.eventId ∈ s.log.confirmedAlertEvents
          (s.pending.map BufferedTransition.eventId ++
            s.groupPending.map BufferedGroupTransition.eventId) := by
        by_contra hnot
        exact hin (List.mem_filter.mpr ⟨hg, by simpa using hnot⟩)
      have hconfirms := confirms_of_mem hc hconfirmed (hrec.grouped g hg)
      exact (hrec.delivered _ hconfirms).mono hrecounts.deliveries le_rfl
  refine ⟨hgroups, fun t ht hdown habs => ?_⟩
  have hseen : t ∈ s.seen := List.mem_append_left _ ht
  have hbound := hrec.bound hc hseen
  by_cases hin : t ∈ s.unconfirmed
  swap
  · have hconfirmed : t.eventId ∈ s.log.confirmedAlertEvents
        (s.pending.map BufferedTransition.eventId ++
          s.groupPending.map BufferedGroupTransition.eventId) := by
      by_contra hnot
      exact hin (List.mem_filter.mpr ⟨ht, by simpa using hnot⟩)
    obtain ⟨v, -, hv, hid, -⟩ := hrec.entry t hseen
    have hconfirms := confirms_of_mem hc hconfirmed ⟨v, hv, hid⟩
    exact (settles_of_confirms hrec hissued hseen hconfirms).mono hrecounts.grows hbound le_rfl
  right
  cases habsorbed : t.absorbed with
  | true =>
    obtain ⟨a, hforce, g, hg, hid⟩ := habs habsorbed
    exact .inr ⟨habsorbed, a, hforce.grows hrecounts.grows hbound, hid ▸ hgroups g hg⟩
  | false =>
    left
    obtain ⟨log', new, heq, -, hcards, hnew⟩ := sendCards_spec s.takeWindow (fun _ => true)
      (flushCards s.unconfirmed s.unconfirmedGroups)
    have hshown : Told new t := by
      apply (told_iff_of_sent (hordered.pending.filter _) (hordered.groups.filter _) _ hin hdown
        habsorbed hcards).mpr
      · exact htold hheld t hin hdown habsorbed
      · exact fun g hg => hordered.apart t ht g (List.mem_filter.mp hg).1
    obtain ⟨d, hd, htells⟩ := hshown
    rw [flush_sends _ hheld (.inl (List.ne_nil_of_mem hin)) hwebhook, heq]
    exact ⟨d, List.mem_append_right _ hd, (hnew d hd).ok fun _ => rfl, (hnew d hd).sentAt.le,
      reports_of_tells htells⟩

/-- **A flush.** Outside quiet hours it is not held, or what it leaves is due for a summary. -/
theorem Watch.flush (h : Watch log q s) (hrec : Records log s) (ht : OnTime q s)
    (hissued : ∀ v ∈ log.events, v.id ≤ log.seq) (hc : s.log.Chronicle s.now) (hordered : Ordered s)
    (hwebhook : s.settings.webhook ≠ "") {outcome : ℕ → Bool}
    (hsteady : Steady s (.flush outcome)) (hdue : s.windowTimer.any (· ≤ s.now) = true) :
    Watch log q (s.flush outcome) := by
  have hrecounts := recounts_flush s outcome
  have hbound : ∀ t ∈ s.seen, t.eventId ≤ s.log.seq := fun t ht => hrec.bound hc ht
  obtain ⟨due, htimer, hle⟩ := (Option.any_eq_true _ _).mp hdue
  obtain rfl : due = s.now := le_antisymm (of_decide_eq_true hle) (ht.due due htimer)
  have hfiresAt : s.firesAt = s.now := by
    unfold Alerter.firesAt
    rw [ht.window, htimer]
    rfl
  obtain ⟨log', new, hflush⟩ := flush_spec s outcome
  have hquietTimer : (s.flush outcome).quietTimer = s.quietTimer.sync q s.now := by
    rw [hflush, ← ht.quietHours]
    rfl
  have hawaits : s.quietTimer.Awaits q s.now →
      (s.flush outcome).quietTimer.Awaits q (s.flush outcome).now := by
    intro haw
    rw [hquietTimer, hrecounts.now]
    exact haw.sync ht.boundary
  -- a window that was not born in quiet hours is held when it fires inside them only
  have hloud : BornLoud q s → q.quiet s.now = false →
      held s.settings.quietHours s.firesAt = false := by
    rintro ⟨due', hdue', hborn⟩ hquiet
    obtain rfl : s.now = due' := by
      rw [ht.window, htimer] at hdue'
      exact Option.some.inj hdue'
    unfold held
    unfold QuietHours.quiet at hborn hquiet
    rw [ht.quietHours, hfiresAt, Bool.and_or_distrib_left, hquiet, hborn, Bool.or_false]
  have hsettles := fun hheld => flush_settles hrec hissued hc hordered hwebhook hsteady hheld
  have hfired : ∀ p ∈ (s.flush outcome).fired, p ∈ s.fired ∨ p.1 ∈ s.pending ∧ p.2 = s.now := by
    intro p hp
    rw [hflush] at hp
    rcases List.mem_append.mp hp with hp | hp
    · exact .inl hp
    · obtain ⟨t, ht, rfl⟩ := List.mem_map.mp hp
      exact .inr ⟨ht, hfiresAt⟩
  refine ⟨?_, ?_, ?_⟩
  · intro f a hlast hopen
    rw [hrecounts.history] at hlast
    rcases h.opened f a hlast hopen with hd | haw | ⟨hb, g, hg, hid⟩
    · rw [hrecounts.now]
      exact .inl (hd.mono hrecounts.deliveries le_rfl)
    · exact .inr (.inl (hawaits haw))
    · by_cases hquiet : q.quiet s.now = true
      · right
        left
        rw [hquietTimer, hrecounts.now]
        exact QuietTimer.awaits_of_quiet ht.boundary hquiet
      · rw [Bool.not_eq_true] at hquiet
        rw [hrecounts.now, ← hid]
        exact .inl ((hsettles (hloud hb hquiet)).1 g hg)
  · intro t htin
    rw [hflush] at htin
    cases htin
  · intro p hp hdown hquiet
    rw [hrecounts.now]
    rcases hfired p hp with hp | ⟨hin, hat⟩
    · have hseen : p.1 ∈ s.seen := List.mem_append_right _ (List.mem_map_of_mem hp)
      obtain ⟨hle, hs | ⟨hat, haw⟩⟩ := h.fired p hp hdown hquiet
      · exact ⟨hle, .inl (hs.mono hrecounts.grows (hbound _ hseen) le_rfl)⟩
      · have haw' := hawaits haw
        rw [hrecounts.now] at haw'
        exact ⟨hle, .inr ⟨hat, haw'⟩⟩
    rw [hat] at hquiet ⊢
    have hseen : p.1 ∈ s.seen := List.mem_append_left _ hin
    refine ⟨le_rfl, ?_⟩
    rcases h.waiting p.1 hin hdown with hs | haw | ⟨hb, habs⟩
    · exact .inl (hs.mono hrecounts.grows (hbound _ hseen) le_rfl)
    · have haw' := hawaits haw
      rw [hrecounts.now] at haw'
      exact .inr ⟨rfl, haw'⟩
    · refine .inl ((hsettles (hloud hb hquiet)).2 p.1 hin hdown fun habsorbed => ?_)
      obtain ⟨a, hforce, hp⟩ := habs habsorbed
      exact ⟨a, hforce, hp.2⟩

/-! ### Runs -/

theorem alertModels_spec (s : Alerter) (campaignId : ℕ) (quiet : Bool) (outcome : ℕ → Bool)
    (models : List ℕ) : ∃ log deliveries quietScoreDrops,
      s.alertModels campaignId quiet outcome models =
        { s with log, deliveries, quietScoreDrops } := by
  induction models generalizing s outcome with
  | nil => exact ⟨s.log, s.deliveries, s.quietScoreDrops, rfl⟩
  | cons modelDbId models ih =>
    unfold alertModels
    split
    · obtain ⟨log, ds, drops, heq⟩ := ih s.deferScoreDrop fun k => outcome (k + 1)
      exact ⟨log, ds, drops, heq⟩
    · obtain ⟨log, ds, drops, heq⟩ := ih (s.sendModelAlert campaignId modelDbId (outcome 0))
        fun k => outcome (k + 1)
      exact ⟨log, ds, drops, heq⟩

theorem annotateSkips_spec (s : Alerter) (n : ℕ) :
    ∃ log, s.annotateSkips n = { s with log } := by
  induction n generalizing s with
  | zero => exact ⟨s.log, rfl⟩
  | succ n ih =>
    obtain ⟨log, heq⟩ := ih { s with
      log := (s.log.createAlertEvent none .scoreDropSkipped false s.now none).1 }
    exact ⟨log, heq⟩

/-- A settled campaign leaves the window alone and may re-arm the boundary timer. -/
theorem sameWindow_handleCampaign (s : Alerter) (campaignId : ℕ) (done : Bool) (skipped : ℕ)
    (models : List ℕ) (outcome : ℕ → Bool) :
    SameWindow s (s.handleCampaign campaignId done skipped models outcome) ∧
      ((s.handleCampaign campaignId done skipped models outcome).quietTimer = s.quietTimer ∨
        (s.handleCampaign campaignId done skipped models outcome).quietTimer =
          s.quietTimer.sync s.settings.quietHours s.now) := by
  unfold handleCampaign
  split
  · exact ⟨⟨rfl, rfl, rfl, rfl, rfl⟩, .inl rfl⟩
  · obtain ⟨log, heq⟩ := annotateSkips_spec s skipped
    dsimp only
    rw [heq]
    obtain ⟨log', ds, drops, heq'⟩ := alertModels_spec ({ s with log } : Alerter).syncQuietTimer
      campaignId (s.settings.quietHours.quiet s.now) outcome models
    have heq'' : (({ s with log } : Alerter).syncQuietTimer).alertModels campaignId
        (({ s with log } : Alerter).syncQuietTimer.settings.quietHours.quiet
          ({ s with log } : Alerter).syncQuietTimer.now) outcome models = _ := heq'
    rw [heq'']
    exact ⟨⟨rfl, rfl, rfl, rfl, rfl⟩, .inr rfl⟩

/-- The invariants of a steady run. -/
structure Watched (log : AlertLog) (q : QuietHours) (s : Alerter) : Prop where
  onTime : OnTime q s
  records : Records log s
  watch : Watch log q s

/-- A step that leaves the window alone keeps the invariants. -/
theorem Watched.idle (h : Watched log q s) (hlog : s.log.Chronicle s.now) (hc : Continues s s')
    (hw : SameWindow s s') (hq : s'.settings.quietHours = q)
    (htimer : s'.quietTimer = s.quietTimer ∨ s'.quietTimer = s.quietTimer.sync q s.now) :
    Watched log q s' := by
  -- the timer is untouched, or synced at a decision point
  have hpunctual : s'.quietTimer.Punctual q s'.now := by
    rw [hc.now]
    rcases htimer with htimer | htimer
    · exact htimer ▸ h.onTime.boundary
    · exact htimer ▸ h.onTime.boundary.sync
  have hawaits : s.quietTimer.Awaits q s.now → s'.quietTimer.Awaits q s'.now := by
    intro haw
    rw [hc.now]
    rcases htimer with htimer | htimer
    · exact htimer ▸ haw
    · exact htimer ▸ haw.sync h.onTime.boundary
  refine ⟨⟨hq, ?_, ?_, hpunctual⟩, ?_, h.watch.continues h.records hlog hc hw hawaits⟩
  · rw [hw.firesAt, hw.timer]
    exact h.onTime.window
  · rw [hw.timer, hc.now]
    exact h.onTime.due
  · apply h.records.continues hc
    · exact fun t ht => hw.seen ▸ ht
    · exact fun g hg => hw.groupPending ▸ hg

theorem OnTime.recorded (h : OnTime q s) {endpointId : ℕ} {kind : AlertKind}
    {alert : EndpointAlert} {absorbed : Bool} {group : Option BufferedGroupTransition}
    (hr : Recorded s s' endpointId kind alert absorbed group) : OnTime q s' := by
  obtain ⟨hnow, hsettings, -⟩ := hr.same
  refine ⟨hsettings ▸ h.quietHours, ?_, ?_, ?_⟩
  · rw [hr.timers.1, hr.timers.2.1]
    unfold armWindow
    simp only [h.window]
  · rw [hr.timers.1, hnow]
    intro due hdue
    unfold armWindow at hdue
    dsimp only at hdue
    split at hdue
    · exact h.due due hdue
    · obtain rfl := Option.some.inj hdue
      have : 0 ≤ alertWindow := by decide
      omega
  · have htimer : s'.quietTimer = s.quietTimer.sync q s.now := h.quietHours ▸ hr.timers.2.2
    rw [htimer, hnow]
    exact h.boundary.sync

theorem OnTime.flush (h : OnTime q s) (outcome : ℕ → Bool) : OnTime q (s.flush outcome) := by
  have hrecounts := recounts_flush s outcome
  obtain ⟨log', new, hflush⟩ := flush_spec s outcome
  refine ⟨?_, ?_, ?_, ?_⟩
  · rw [hrecounts.settings]
    exact h.quietHours
  · rw [hflush]
    rfl
  · rw [hflush]
    rintro due ⟨⟩
  · have htimer : (s.flush outcome).quietTimer = s.quietTimer.sync q s.now := by
      rw [hflush, ← h.quietHours]
      rfl
    rw [htimer, hrecounts.now]
    exact h.boundary.sync

/-- What a flush leaves in the window was in it, as a transition or in a group. -/
theorem Records.flush (h : Records log s) (outcome : ℕ → Bool) :
    Records log (s.flush outcome) := by
  obtain ⟨log', new, hflush⟩ := flush_spec s outcome
  apply h.continues (recounts_flush s outcome).continues
  · intro t ht
    rw [hflush] at ht
    rcases List.mem_append.mp ht with ht | ht
    · cases ht
    · obtain ⟨p, hp, rfl⟩ := List.mem_map.mp ht
      rcases List.mem_append.mp hp with hp | hp
      · exact List.mem_append_right _ (List.mem_map_of_mem hp)
      · obtain ⟨t', ht', rfl⟩ := List.mem_map.mp hp
        exact List.mem_append_left _ ht'
  · rw [hflush]
    exact List.nil_subset _

/-- The alerter once its boundary timer went off. -/
theorem OnTime.onQuietBoundary (h : OnTime q s) :
    OnTime q (({ s with quietTimer := ⟨none, s.quietTimer.boundaryAt, false⟩ } :
      Alerter).onQuietBoundary true) := by
  let s₁ : Alerter := { s with quietTimer := ⟨none, s.quietTimer.boundaryAt, false⟩ }
  have hrecounts := recounts_quietBoundary s true
  have hwindow := sameWindow_onQuietBoundary s₁ true
  have htimer := quietTimer_onQuietBoundary s₁ true
  refine ⟨?_, ?_, ?_, ?_⟩
  · rw [hrecounts.settings]
    exact h.quietHours
  · rw [hwindow.firesAt, hwindow.timer]
    exact h.window
  · rw [hwindow.timer, hrecounts.now]
    exact h.due
  · -- with no timer armed there is nothing to be late
    have hpunctual : s₁.quietTimer.Punctual s₁.settings.quietHours s₁.now := by
      simp [QuietTimer.Punctual, s₁]
    have hq : s₁.settings.quietHours = q := h.quietHours
    rw [htimer, hrecounts.now, hq]
    exact (hq ▸ hpunctual).sync

theorem Records.onQuietBoundary (h : Records log s) :
    Records log (({ s with quietTimer := ⟨none, s.quietTimer.boundaryAt, false⟩ } :
      Alerter).onQuietBoundary true) := by
  let s₁ : Alerter := { s with quietTimer := ⟨none, s.quietTimer.boundaryAt, false⟩ }
  have hwindow := sameWindow_onQuietBoundary s₁ true
  apply h.continues (recounts_quietBoundary s true).continues
  · exact fun t ht => hwindow.seen ▸ ht
  · exact fun g hg => hwindow.groupPending ▸ hg

/-- **A steady step** keeps the invariants. -/
theorem watched_step {a : AlerterLabel} (h : Watched log q s)
    (hissued : ∀ v ∈ log.events, v.id ≤ log.seq) (ha : Agrees s) (hs : s.configured = true)
    (hordered : Ordered s) (hsteady : Steady s a) (hstep : alerterStep s a = some s') :
    Watched log q s' := by
  have hlog := ha.chronicle
  have hwebhook : s.settings.webhook ≠ "" := by
    unfold Alerter.configured at hs
    exact of_decide_eq_true (Bool.and_eq_true_iff.mp hs).1
  have hself := (Recounts.refl s).continues
  cases a with
  | clock now =>
    cases hstep
    obtain ⟨hle, hdue, hboundary⟩ := hsteady.1
    exact ⟨⟨h.onTime.quietHours, h.onTime.window, hdue, h.onTime.boundary.clock hboundary⟩,
      h.records.clock hle, h.watch.clock h.records hlog hle hboundary⟩
  | handleRound endpointId consecutive =>
    cases hstep
    rcases handleRound_cases s endpointId consecutive with
      ⟨a, g, heq, -⟩ | ⟨kind, alert, absorbed, group, -, hdecision, hr⟩
    · rw [heq]
      apply h.idle hlog
      · exact ⟨rfl, hself.endpoints, rfl, hself.seq, hself.deliveries, hself.confirmed⟩
      · exact ⟨rfl, rfl, rfl, rfl, rfl⟩
      · exact h.onTime.quietHours
      · exact .inl rfl
    · exact ⟨h.onTime.recorded hr, h.records.recorded ha hdecision hr,
        h.watch.recorded h.records h.onTime ha hdecision hr hsteady⟩
  | flush outcome =>
    obtain ⟨hdue, heq⟩ := Option.ite_none_right_eq_some.mp hstep
    cases heq
    exact ⟨h.onTime.flush outcome, h.records.flush outcome,
      h.watch.flush h.records h.onTime hissued hlog hordered hwebhook hsteady hdue⟩
  | quietBoundary ok =>
    obtain ⟨hdue, heq⟩ := Option.ite_none_right_eq_some.mp hstep
    cases heq
    obtain rfl : ok = true := hsteady.1
    exact ⟨h.onTime.onQuietBoundary, h.records.onQuietBoundary,
      h.watch.boundary h.records h.onTime hissued hlog hwebhook hdue rfl⟩
  | handleCampaign campaignId done skipped models outcome =>
    cases hstep
    have hrecounts := recounts_handleCampaign s campaignId done skipped models outcome
    obtain ⟨hwindow, htimer⟩ := sameWindow_handleCampaign s campaignId done skipped models outcome
    rw [h.onTime.quietHours] at htimer
    apply h.idle hlog hrecounts.continues hwindow
    · rw [hrecounts.settings]
      exact h.onTime.quietHours
    · exact htimer
  | saveSettings settings =>
    cases hstep
    apply h.idle hlog
    · exact ⟨rfl, hself.endpoints, rfl, hself.seq, hself.deliveries, hself.confirmed⟩
    · exact ⟨rfl, rfl, rfl, rfl, rfl⟩
    · exact hsteady.1.1.trans h.onTime.quietHours
    · exact .inl rfl
  | saveEndpoints endpoints =>
    cases hstep
    apply h.idle hlog
    · refine ⟨rfl, fun e f hfamily => ?_, rfl, hself.seq, hself.deliveries, hself.confirmed⟩
      obtain ⟨endpoint, hfind, -⟩ := Option.map_eq_some_iff.mp hfamily
      have hkept := hsteady.1 endpoint (List.mem_of_find?_eq_some hfind)
      have hid : endpoint.id = e := by simpa using List.find?_some hfind
      rw [hid] at hkept
      exact hkept.trans hfamily
    · exact ⟨rfl, rfl, rfl, rfl, rfl⟩
    · exact h.onTime.quietHours
    · exact .inl rfl
  | deleteEndpoint => exact hsteady.1.elim
  | recordEvent kind ok =>
    obtain ⟨hkind, heq⟩ := Option.ite_none_right_eq_some.mp hstep
    cases heq
    have hrecord := recounts_recordEvent (s := s) hkind ok
    apply h.idle hlog hrecord.continues
    · exact ⟨rfl, rfl, rfl, rfl, rfl⟩
    · exact h.onTime.quietHours
    · exact .inl rfl

/-- A log that a process takes over: group events name their family, and the opening of every open
group is confirmed. -/
structure AlertLog.Handover (log : AlertLog) (now : ℤ) : Prop where
  chronicle : log.Chronicle now
  keyed : ∀ v ∈ log.events, isGroupTransition v = true → v.groupKey.isSome = true
  reported : ∀ row ∈ log.listOpenGroupAlerts, row.2.sentOk = true

theorem watched_start {now : ℤ} {settings : AlertSettings} {endpoints : List AlertEndpoint}
    (h : log.Handover now) :
    Watched log settings.quietHours (.start now settings endpoints log) := by
  refine ⟨⟨rfl, rfl, ?_, ?_⟩, ⟨?_, le_rfl, fun id hid => .inl hid, ?_, ?_⟩, ⟨?_, ?_, ?_⟩⟩
  · rintro due ⟨⟩
  · rintro b ⟨⟩
  · intro v hv hgroup
    obtain ⟨w, hw, -, rfl⟩ := mem_history.mp hv
    exact h.keyed w hw hgroup
  · rintro t ⟨⟩
  · rintro g ⟨⟩
  · -- an opening that was taken over is confirmed
    intro f a hlast hopen
    have hlast' : lastGroup log.history f = some a := hlast
    rw [lastGroup_history h.chronicle] at hlast'
    obtain ⟨v, hlatest, rfl⟩ := Option.map_eq_some_iff.mp hlast'
    have hkind : v.kind = .groupDown := hopen
    have hrow := (mem_listOpenGroupAlerts h.chronicle h.keyed).mpr ⟨hlatest, hkind⟩
    rw [latestGroupEvent_eq h.chronicle] at hlatest
    have hmem := (List.mem_filter.mp (List.mem_of_getLast? hlatest)).1
    refine .inl (.inl ⟨v, hmem, rfl, ?_, h.reported _ hrow⟩)
    rw [hkind]
    rfl
  · rintro t ⟨⟩
  · rintro p ⟨⟩

/-- **Nothing decided is lost.** In a steady run a down transition whose window fired at an instant
outside quiet hours is reported by that instant, unless its endpoint recovered by then. -/
theorem reported_of_reach {now : ℤ} {settings : AlertSettings} {endpoints : List AlertEndpoint}
    (hlog : log.Handover now)
    (hconfigured : settings.webhook ≠ "" ∧ settings.alertEnabled = true)
    (h : Transition.Reach alerterStep Steady (.start now settings endpoints log) s)
    {firedAt : ℤ} (ht : (t, firedAt) ∈ s.fired) (hdown : t.kind = .down)
    (hloud : settings.quietHours.quiet firedAt = false) (hpast : firedAt < s.now) :
    RecoveredBy s t firedAt ∨ Reported log s t firedAt := by
  have hknown : ∀ u, Transition.Reach alerterStep Steady (.start now settings endpoints log) u →
      (Agrees u ∧ u.configured = true) ∧ Ordered u := by
    intro u hu
    have hconf : Transition.Reach alerterStep Configured (.start now settings endpoints log) u :=
      hu.mono fun _ _ hsteady => hsteady.1.configured
    exact ⟨agrees_of_reach hlog.chronicle hconfigured hconf, ordered_of_reach hu.reachable⟩
  have hwatched : Watched log settings.quietHours s := by
    apply h.invariant_of hknown (watched_start hlog)
    intro u a u' hu hwatched hsteady hstep
    exact watched_step hwatched hlog.chronicle.issued hu.1.1 hu.1.2 hu.2 hsteady hstep
  obtain ⟨-, hsettles | ⟨heq, -⟩⟩ := hwatched.watch.fired (t, firedAt) ht hdown hloud
  · exact hsettles
  · exact absurd heq hpast.ne

theorem handover_nil (now : ℤ) : (⟨[], 0⟩ : AlertLog).Handover now :=
  ⟨⟨List.Pairwise.nil, by simp, by simp⟩, by simp, by decide⟩

/-- Alerts with quiet hours from eleven at night to seven in the morning. -/
def nightSettings : AlertSettings := ⟨"hook", true, true, ⟨true, 23, 7⟩⟩

/-- Two endpoints of no family. -/
def strangers : List AlertEndpoint :=
  [⟨1, "hub", "a", "openai", "other", true, true⟩, ⟨2, "hub", "b", "openai", "other", true, true⟩]

/-- The morning's end of quiet hours. -/
def morning : ℤ := 7 * hourLength

/-- Nobody recovered so far. -/
def NoneRecovered (s : Alerter) : Prop := ∀ r ∈ s.log.history, r.kind ≠ .recovered

instance (s : Alerter) : Decidable (NoneRecovered s) :=
  inferInstanceAs (Decidable (∀ r ∈ s.log.history, r.kind ≠ .recovered))

theorem not_recoveredBy {time : ℤ} (h : NoneRecovered s) : ¬ RecoveredBy s t time := by
  rintro ⟨v, -, -, r, hr, hkind, -⟩
  exact h r hr hkind

/-- One endpoint goes down half a minute before quiet hours end, so that the summary tells it and
its window is held; the other goes down at noon and its own card tells it. -/
def nightAndNoon : List AlerterLabel :=
  [.handleRound 1 3, .clock morning, .quietBoundary true, .clock (morning + 30 * second),
    .flush (fun _ => true), .clock (12 * hourLength), .handleRound 2 3,
    .clock (12 * hourLength + alertWindow), .flush (fun _ => true),
    .clock (12 * hourLength + alertWindow + 1)]

/-- The two transitions, with the instants at which their windows fired. -/
def nightDown : BufferedTransition × ℤ :=
  (⟨1, .down, ⟨"hub", "a", "openai", "other"⟩, false⟩, morning + 30 * second)

def noonDown : BufferedTransition × ℤ :=
  (⟨3, .down, ⟨"hub", "b", "openai", "other"⟩, false⟩, 12 * hourLength + alertWindow)

/-- Both are reported by the time their windows fire. -/
theorem reported_of_reach_down : ∃ s : Alerter, nightDown ∈ s.fired ∧ noonDown ∈ s.fired ∧
    Reported ⟨[], 0⟩ s nightDown.1 nightDown.2 ∧ Reported ⟨[], 0⟩ s noonDown.1 noonDown.2 := by
  have hrun : (Transition.replayWith alerterStep Steady
      (.start (morning - 30 * second) nightSettings strangers ⟨[], 0⟩) nightAndNoon).any
          (fun s => decide (nightDown ∈ s.fired) && decide (noonDown ∈ s.fired) &&
            decide (noonDown.2 < s.now) && decide (NoneRecovered s)) = true := by
    decide
  obtain ⟨s, hs, hfacts⟩ := (Option.any_eq_true _ _).mp hrun
  simp only [Bool.and_eq_true, decide_eq_true_eq] at hfacts
  obtain ⟨⟨⟨hnight, hnoon⟩, hpast⟩, hnone⟩ := hfacts
  have hreported : ∀ t firedAt, (t, firedAt) ∈ s.fired → t.kind = .down →
      nightSettings.quietHours.quiet firedAt = false → firedAt < s.now →
        Reported ⟨[], 0⟩ s t firedAt := by
    intro t firedAt ht hdown hloud hlt
    have hconfigured : nightSettings.webhook ≠ "" ∧ nightSettings.alertEnabled = true := by decide
    exact (reported_of_reach (handover_nil _) hconfigured (.of_replayWith hs) ht hdown hloud
      hlt).resolve_left (not_recoveredBy hnone)
  have hearlier : nightDown.2 < noonDown.2 := by decide
  exact ⟨s, hnight, hnoon,
    hreported _ _ hnight rfl (by decide) (hearlier.trans hpast),
    hreported _ _ hnoon rfl (by decide) hpast⟩

/-- **A late transition is lost.** One endpoint goes down half a minute before quiet hours end and
opens the window, the summary tells it, and another one goes down before the window fires. -/
theorem not_reported_of_reach :
    ¬ ∀ (now : ℤ) (settings : AlertSettings) (endpoints : List AlertEndpoint) (log : AlertLog)
      (s : Alerter) (t : BufferedTransition) (v : AlertEvent) (firedAt : ℤ), log.Handover now →
      settings.webhook ≠ "" ∧ settings.alertEnabled = true →
      Transition.Reach alerterStep Undisturbed (.start now settings endpoints log) s →
      (t, firedAt) ∈ s.fired → t.kind = .down → v ∈ s.log.history → v.id = t.eventId →
      settings.quietHours.quiet v.createdAt = false →
      settings.quietHours.quiet firedAt = false → firedAt < s.now →
      RecoveredBy s t firedAt ∨ Reported log s t firedAt := by
  intro h
  -- the window opens half a minute before quiet hours end, so an endpoint that goes down in it
  -- afterwards is left to a summary that was sent before
  let t : BufferedTransition := ⟨3, .down, ⟨"hub", "b", "openai", "other"⟩, false⟩
  let v : AlertEvent := ⟨3, some 2, .down, false, morning + 10 * second, none⟩
  let firedAt : ℤ := morning + 30 * second
  have hrun : (Transition.replayWith alerterStep Undisturbed
      (.start (morning - 30 * second) nightSettings strangers ⟨[], 0⟩)
      [.handleRound 1 3, .clock morning, .quietBoundary true, .clock (morning + 10 * second),
        .handleRound 2 3, .clock firedAt, .flush (fun _ => true), .clock (firedAt + 1)]).any
          (fun s => decide ((t, firedAt) ∈ s.fired) && decide (v ∈ s.log.history) &&
            decide (firedAt < s.now) &&
            decide (NoneRecovered s) &&
            decide (∀ d ∈ s.deliveries, d.reports t = false)) = true := by
    decide
  obtain ⟨s, hs, hfacts⟩ := (Option.any_eq_true _ _).mp hrun
  simp only [Bool.and_eq_true, decide_eq_true_eq] at hfacts
  obtain ⟨⟨⟨⟨hfired, hv⟩, hpast⟩, hnone⟩, hunreported⟩ := hfacts
  rcases h _ nightSettings strangers ⟨[], 0⟩ s t v firedAt (handover_nil _) (by decide)
      (.of_replayWith hs) hfired rfl hv rfl (by decide) (by decide) hpast with
    hrecovered | ⟨d, hd, -, -, hreports⟩ | ⟨habsorbed, -⟩
  · exact not_recoveredBy hnone hrecovered
  · rw [hunreported d hd] at hreports
    cases hreports
  · cases habsorbed

end HubScope
