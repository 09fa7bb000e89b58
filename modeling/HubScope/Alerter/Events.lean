import HubScope.Lib.Grouping
import HubScope.Alerter.QuietHours
import Mathlib.Data.List.Sort

/-!
# Alert events

The log of alert events. An event is recorded at decision time with its delivery unconfirmed,
and a delivered card writes the flag back. Queries order by creation time, which is stored with
second precision, and break ties by id.

## Main definitions

* `AlertKind`, `AlertEvent`, `AlertLog`
* `createAlertEvent`, `updateAlertEventsSentOK`, `confirmedAlertEvents`
* `latestDownRecoveryEvent`, `latestGroupEvent`
* `listOpenGroupAlerts`, `listOpenEndpointAlerts`
* `AlertLog.Chronicle` — ids grow with the log and times never go back

## Main results

* `latestDownRecoveryEvent_eq`, `latestGroupEvent_eq` — in a chronicle the newest event is the
  last one recorded
* `Chronicle.create`, `Chronicle.update`, `Chronicle.delete` — the operations keep a chronicle
-/

set_option autoImplicit false

namespace HubScope

/-- Alert kinds. -/
inductive AlertKind
  | down
  | recovered
  | scoreDrop
  | scoreDropSkipped
  | test
  | batch
  | groupDown
  | groupRecovered
  | quietSummary
  | retirePending
  | retired
  deriving DecidableEq, Repr

/-- One recorded alert. `groupKey` is the family of a vendor group alert. -/
structure AlertEvent where
  id : ℕ
  endpointId : Option ℕ
  kind : AlertKind
  sentOk : Bool
  createdAt : ℤ
  groupKey : Option String
  deriving DecidableEq, Repr

/-- The alert events in insertion order, and the last id given out. -/
structure AlertLog where
  events : List AlertEvent
  seq : ℕ

/-- A chat endpoint joined with its model and hub. -/
structure AlertEndpoint where
  id : ℕ
  hubName : String
  modelId : String
  protocol : String
  family : String
  enabled : Bool
  modelActive : Bool
  deriving DecidableEq, Repr

/-- Newest first: by stored creation time, then by id. -/
def Newer (a b : AlertEvent) : Prop :=
  b.createdAt / second < a.createdAt / second ∨
    b.createdAt / second = a.createdAt / second ∧ b.id ≤ a.id

instance : DecidableRel Newer := fun a b =>
  inferInstanceAs (Decidable (b.createdAt / second < a.createdAt / second ∨
    b.createdAt / second = a.createdAt / second ∧ b.id ≤ a.id))

namespace AlertLog

/-- Insert an event. -/
def createAlertEvent (log : AlertLog) (endpointId : Option ℕ) (kind : AlertKind) (sentOk : Bool)
    (createdAt : ℤ) (groupKey : Option String) : AlertLog × AlertEvent :=
  let event := ⟨log.seq + 1, endpointId, kind, sentOk, createdAt, groupKey⟩
  (⟨log.events ++ [event], log.seq + 1⟩, event)

/-- Write the delivery result back. -/
def updateAlertEventsSentOK (log : AlertLog) (ids : List ℕ) (sentOk : Bool) : AlertLog :=
  { log with events := log.events.map fun v => if v.id ∈ ids then { v with sentOk } else v }

/-- The ids among `ids` whose delivery was confirmed. -/
def confirmedAlertEvents (log : AlertLog) (ids : List ℕ) : List ℕ :=
  (log.events.filter fun v => v.sentOk && v.id ∈ ids).map AlertEvent.id

/-- The rows of a query, newest first. -/
def newestFirst (log : AlertLog) (p : AlertEvent → Bool) : List AlertEvent :=
  (log.events.filter p).insertionSort Newer

/-- A down or recovered event. -/
def isTransition (v : AlertEvent) : Bool := v.kind = .down ∨ v.kind = .recovered

/-- A vendor group event. -/
def isGroupTransition (v : AlertEvent) : Bool := v.kind = .groupDown ∨ v.kind = .groupRecovered

/-- The newest down or recovered event of an endpoint. -/
def latestDownRecoveryEvent (log : AlertLog) (endpointId : ℕ) : Option AlertEvent :=
  (log.newestFirst fun v => v.endpointId = some endpointId && isTransition v).head?

/-- The newest group event of a family. -/
def latestGroupEvent (log : AlertLog) (family : String) : Option AlertEvent :=
  (log.newestFirst fun v => v.groupKey = some family && isGroupTransition v).head?

/-- The first row of every key. -/
def firstPerKey {κ : Type} [DecidableEq κ] (key : AlertEvent → κ) (rows : List AlertEvent) :
    List (κ × AlertEvent) :=
  (Grouping.group key rows).filterMap fun b => b.2.head?.map fun v => (b.1, v)

/-- The families whose latest group event is a group_down, with that anchor. -/
def listOpenGroupAlerts (log : AlertLog) : List (String × AlertEvent) :=
  (firstPerKey (fun v => v.groupKey.getD "") (log.newestFirst isGroupTransition)).filter
    fun row => row.2.kind = .groupDown

/-- The endpoints whose latest down or recovered event is a down, with that anchor. A row whose
endpoint is gone drops out of the join. -/
def listOpenEndpointAlerts (log : AlertLog) (endpoints : List AlertEndpoint) :
    List (AlertEndpoint × AlertEvent) :=
  let rows := log.newestFirst fun v =>
    isTransition v && endpoints.any fun e => v.endpointId = some e.id
  ((firstPerKey AlertEvent.endpointId rows).filter fun row => row.2.kind = .down).filterMap
    fun row => (endpoints.find? fun e => row.1 = some e.id).map fun e => (e, row.2)

/-- Drop the events of a deleted endpoint. -/
def deleteEvents (log : AlertLog) (endpointId : ℕ) : AlertLog :=
  { log with events := log.events.filter fun v => v.endpointId ≠ some endpointId }

end AlertLog

/-- Ids grow with the log, and times never go back and are not ahead of `now`. -/
structure AlertLog.Chronicle (log : AlertLog) (now : ℤ) : Prop where
  ordered : log.events.Pairwise fun a b => a.id < b.id ∧ a.createdAt ≤ b.createdAt
  issued : ∀ v ∈ log.events, v.id ≤ log.seq
  past : ∀ v ∈ log.events, v.createdAt ≤ now

/-! ### The order of a chronicle -/

open AlertLog

instance : Std.Total Newer := ⟨fun a b => by unfold Newer; omega⟩
instance : IsTrans AlertEvent Newer := ⟨fun a b c => by unfold Newer; omega⟩

variable {log : AlertLog} {now : ℤ}

theorem newer_of_lt {a b : AlertEvent} (h : a.id < b.id ∧ a.createdAt ≤ b.createdAt) :
    Newer b a := by
  have hsecond : a.createdAt / second ≤ b.createdAt / second :=
    Int.ediv_le_ediv (by decide) h.2
  unfold Newer
  omega

/-- An id names one event. -/
theorem AlertLog.Chronicle.eq_of_id (h : log.Chronicle now) {a b : AlertEvent} (ha : a ∈ log.events)
    (hb : b ∈ log.events) (hid : a.id = b.id) : a = b := by
  have hnodup : (log.events.map AlertEvent.id).Nodup :=
    List.pairwise_map.mpr (h.ordered.imp fun hab => Nat.ne_of_lt hab.1)
  exact List.inj_on_of_nodup_map hnodup ha hb hid

theorem newestFirst_eq (h : log.Chronicle now) (p : AlertEvent → Bool) :
    log.newestFirst p = (log.events.filter p).reverse := by
  have hsorted : (log.events.filter p).reverse.Pairwise Newer :=
    List.pairwise_reverse.mpr ((h.ordered.filter p).imp newer_of_lt)
  refine List.Perm.eq_of_pairwise ?_ (List.pairwise_insertionSort Newer _) hsorted ?_
  · -- among events of the log `Newer` is antisymmetric, since an id names one event
    intro a b ha hb hab hba
    have hid : a.id = b.id := by
      unfold Newer at hab hba
      omega
    have ha' := (List.mem_filter.mp ((List.mem_insertionSort Newer).mp ha)).1
    have hb' := (List.mem_filter.mp (List.mem_reverse.mp hb)).1
    exact h.eq_of_id ha' hb' hid
  · exact (List.perm_insertionSort _ _).trans (List.reverse_perm _).symm

/-- **The newest event is the last one.** -/
theorem latestDownRecoveryEvent_eq (h : log.Chronicle now) (endpointId : ℕ) :
    log.latestDownRecoveryEvent endpointId = (log.events.filter fun v =>
      v.endpointId = some endpointId && isTransition v).getLast? := by
  rw [latestDownRecoveryEvent, newestFirst_eq h, List.head?_reverse]

theorem latestGroupEvent_eq (h : log.Chronicle now) (family : String) :
    log.latestGroupEvent family = (log.events.filter fun v =>
      v.groupKey = some family && isGroupTransition v).getLast? := by
  rw [latestGroupEvent, newestFirst_eq h, List.head?_reverse]

theorem mem_firstPerKey {κ : Type} [DecidableEq κ] {key : AlertEvent → κ} {rows : List AlertEvent}
    {k : κ} {v : AlertEvent} :
    (k, v) ∈ firstPerKey key rows ↔ (rows.filter fun w => key w = k).head? = some v := by
  simp only [firstPerKey, List.mem_filterMap, Option.map_eq_some_iff, Prod.mk.injEq]
  constructor
  · rintro ⟨⟨k, vs⟩, hmem, v, hhead, rfl, rfl⟩
    rw [(Grouping.mem_group.mp hmem).2] at hhead
    exact hhead
  · intro hhead
    have hv := List.mem_filter.mp (List.mem_of_mem_head? hhead)
    refine ⟨(k, rows.filter fun w => key w = k), ?_, v, hhead, rfl, rfl⟩
    exact Grouping.mem_group.mpr ⟨⟨v, hv.1, of_decide_eq_true hv.2⟩, rfl⟩

/-- A family is open just when its newest group event is a group_down. -/
theorem mem_listOpenGroupAlerts (h : log.Chronicle now)
    (hkeyed : ∀ v ∈ log.events, isGroupTransition v = true → v.groupKey.isSome = true)
    {family : String} {v : AlertEvent} :
    (family, v) ∈ log.listOpenGroupAlerts ↔
      log.latestGroupEvent family = some v ∧ v.kind = .groupDown := by
  have hfilter : (log.events.filter isGroupTransition).filter
        (fun w => w.groupKey.getD "" = family) =
      log.events.filter fun w => w.groupKey = some family && isGroupTransition w := by
    rw [List.filter_filter]
    apply List.filter_congr
    intro w hw
    by_cases hgroup : isGroupTransition w = true
    · obtain ⟨k, hk⟩ := Option.isSome_iff_exists.mp (hkeyed w hw hgroup)
      simp [hk]
    · simp [hgroup]
  rw [listOpenGroupAlerts, List.mem_filter, mem_firstPerKey, newestFirst_eq h,
    List.filter_reverse, hfilter, latestGroupEvent_eq h, List.head?_reverse]
  simp

/-! ### The operations keep a chronicle -/

theorem AlertLog.Chronicle.mono {now' : ℤ} (h : log.Chronicle now) (hle : now ≤ now') :
    log.Chronicle now' :=
  ⟨h.ordered, h.issued, fun v hv => (h.past v hv).trans hle⟩

theorem AlertLog.Chronicle.create (h : log.Chronicle now) (endpointId : Option ℕ) (kind : AlertKind)
    (sentOk : Bool) (groupKey : Option String) :
    (log.createAlertEvent endpointId kind sentOk now groupKey).1.Chronicle now := by
  unfold createAlertEvent
  refine ⟨List.pairwise_append.mpr ⟨h.ordered, List.pairwise_singleton _ _, ?_⟩, ?_, ?_⟩
  · intro a ha b hb
    rw [List.mem_singleton.mp hb]
    exact ⟨Nat.lt_succ_of_le (h.issued a ha), h.past a ha⟩
  · intro v hv
    rcases List.mem_append.mp hv with hv | hv
    · exact Nat.le_succ_of_le (h.issued v hv)
    · rw [List.mem_singleton.mp hv]
  · intro v hv
    rcases List.mem_append.mp hv with hv | hv
    · exact h.past v hv
    · rw [List.mem_singleton.mp hv]

theorem AlertLog.Chronicle.update (h : log.Chronicle now) (ids : List ℕ) (sentOk : Bool) :
    (log.updateAlertEventsSentOK ids sentOk).Chronicle now := by
  have hmem : ∀ v ∈ (log.updateAlertEventsSentOK ids sentOk).events, ∃ w ∈ log.events,
      w.id = v.id ∧ w.createdAt = v.createdAt := by
    intro v hv
    obtain ⟨w, hw, rfl⟩ := List.mem_map.mp hv
    refine ⟨w, hw, ?_⟩
    split <;> exact ⟨rfl, rfl⟩
  refine ⟨List.pairwise_map.mpr (h.ordered.imp ?_), ?_, ?_⟩
  · intro a b hab
    split <;> split <;> exact hab
  · intro v hv
    obtain ⟨w, hw, hid, -⟩ := hmem v hv
    exact hid ▸ h.issued w hw
  · intro v hv
    obtain ⟨w, hw, -, hat⟩ := hmem v hv
    exact hat ▸ h.past w hw

theorem AlertLog.Chronicle.delete (h : log.Chronicle now) (endpointId : ℕ) :
    (log.deleteEvents endpointId).Chronicle now :=
  ⟨h.ordered.filter _, fun v hv => h.issued v (List.mem_filter.mp hv).1,
    fun v hv => h.past v (List.mem_filter.mp hv).1⟩

end HubScope
