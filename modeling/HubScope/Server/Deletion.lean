import HubScope.Scheduler.Rollup
import HubScope.Server.Capability
import HubScope.Store.Deletion

/-!
# Endpoints over deletions, rollups and retention

Probers, the rollup worker, retention, discovery and requests work on the tables in any order, and
a prober in flight may create probes of an endpoint that is gone. A pruning takes the disabled
endpoints that never had a successful probe, ever, and the series of every endpoint that is there
is that of all its probes.

As for the series alone, no probe is created before the cutoff of a rollup that ran, and no probe
is deleted by retention at or after its endpoint's watermark.

## Main definitions

* `EndpointWorld`, `endpointStep` — the tables and all probes ever created
* `EndpointWorld.failed` — the disabled endpoints that never succeeded
* `KeepsHistory` — the invariant

## Main results

* `prune_of_reach` — what a pruning takes
* `series_of_reach` — what a series shows
-/

set_option autoImplicit false

namespace HubScope

/-- The tables, with the history of the endpoints that were not deleted, and all probes ever
created. -/
structure EndpointWorld where
  hub : HubTables
  tables : ProbeHistory
  events : List AlertEvent
  ever : List Probe

/-- A store call of a prober, the rollup worker, the alerter, discovery or a request. -/
inductive EndpointLabel
  | probe (a : ProbeLabel)
  | alert (v : AlertEvent)
  | listModel (hub : ℕ) (modelId : String) (cls : String × String)
  | createEndpoint (modelDbId : ℕ) (protocol : String) (enabled : Bool)
  | createModel (hub : ℕ) (modelId : String) (cls : String × String) (protocols : List String)
  | markRetired (hub : ℕ) (seen : List String)
  | applyDefaults (id : ℕ) (protocol : String)
  | setEnabled (id : ℕ) (enabled : Bool)
  | deleteEndpoint (id : ℕ)
  | deleteModel (id : ℕ)
  | prune

namespace EndpointWorld

/-- The tables that a deletion reaches. -/
def db (w : EndpointWorld) : EndpointDb := ⟨w.hub, w.tables.store, w.events⟩

/-- The tables after a deletion of some endpoints. -/
def afterDeletion (w : EndpointWorld) (db : EndpointDb) (gone : ℕ → Bool) : EndpointWorld where
  hub := db.hub
  tables :=
    { store := db.probes
      -- the history forgets with the tables, what was ever probed does not
      history := w.tables.history.filter fun p => !gone p.endpointId
      horizon := w.tables.horizon }
  events := db.events
  ever := w.ever

/-- Fresh tables. -/
def empty : EndpointWorld := ⟨⟨[], [], [], 1, 1⟩, .empty, [], []⟩

/-- The disabled endpoints that never had a successful probe. -/
def failed (w : EndpointWorld) (id : ℕ) : Bool :=
  (w.hub.endpoints.any fun e => e.id = id ∧ e.enabled = false) &&
    w.ever.all fun p => p.endpointId = id → p.ok = false

end EndpointWorld

/-- One store call. A request deletes an endpoint that it has found. -/
def endpointStep (w : EndpointWorld) : EndpointLabel → Option EndpointWorld
  | .probe a => (probeStep w.tables a).map fun tables =>
      { w with
        tables := tables
        ever := match a with
          | .create p => w.ever ++ [p]
          | _ => w.ever }
  | .alert v => some { w with events := w.events ++ [v] }
  | .listModel hub modelId cls =>
    some { w with hub := (createDiscoveredModel w.hub hub modelId cls).1 }
  | .createEndpoint modelDbId protocol enabled =>
    some { w with hub := (HubScope.createEndpoint w.hub modelDbId protocol enabled).1 }
  | .createModel hub modelId cls protocols =>
    (HubScope.createModel w.hub hub modelId cls protocols).map fun t => { w with hub := t }
  | .markRetired hub seen => some { w with hub := (markRetiredMissing w.hub hub seen).1 }
  | .applyDefaults id protocol => some { w with hub := applyCreationDefaults w.hub id protocol }
  | .setEnabled id enabled => some { w with hub := w.hub.setEndpointEnabled id enabled }
  | .deleteEndpoint id =>
    -- ids are autoincremented, so one that was found stays below the next one
    if id < w.hub.nextEndpointId then
      some (w.afterDeletion (w.db.deleteEndpoint id) (· = id))
    else none
  | .deleteModel id =>
    match w.db.deleteModel id with
    | .ok db => some (w.afterDeletion db (w.db.ofModel id))
    | .error _ => none
  | .prune => some (w.afterDeletion w.db.pruneDeadEndpoints.1 w.db.dead)

/-- Rollups and retention are timely. -/
def TimelyCall (w : EndpointWorld) : EndpointLabel → Prop
  | .probe a => Timely w.tables a
  | _ => True

instance (w : EndpointWorld) (a : EndpointLabel) : Decidable (TimelyCall w a) := by
  cases a <;> unfold TimelyCall <;> infer_instance

/-- The probe tables hold the history, which for every endpoint that is there, or will be, is all
its probes. -/
structure KeepsHistory (w : EndpointWorld) : Prop where
  rolled : Rolled w.tables
  raw : w.tables.store.probes ⊆ w.tables.history
  keys : w.hub.EndpointKeys
  history : ∀ id, (∃ e ∈ w.hub.endpoints, e.id = id) ∨ w.hub.nextEndpointId ≤ id →
    w.tables.history.filter (·.endpointId = id) = w.ever.filter (·.endpointId = id)

variable {w w' : EndpointWorld}

/-- The tables of the hubs only change in endpoints that are there or get new ids. -/
structure Extends (t t' : HubTables) : Prop where
  keys : t'.EndpointKeys
  next : t.nextEndpointId ≤ t'.nextEndpointId
  ids : ∀ e ∈ t'.endpoints, (∃ e' ∈ t.endpoints, e'.id = e.id) ∨ t.nextEndpointId ≤ e.id

theorem KeepsHistory.extend (h : KeepsHistory w) {t : HubTables} (ht : Extends w.hub t) :
    KeepsHistory { w with hub := t } := by
  refine ⟨h.rolled, h.raw, ht.keys, fun id hid => h.history id ?_⟩
  rcases hid with ⟨e, he, rfl⟩ | hid
  · exact ht.ids e he
  · exact .inr (ht.next.trans hid)

theorem extends_append {t t' : HubTables} (h : t.EndpointKeys) (k : ℕ) (new : List EndpointRow)
    (hendpoints : t'.endpoints = t.endpoints ++ new)
    (hnew : new.map (·.id) = List.range' t.nextEndpointId k)
    (hnext : t'.nextEndpointId = t.nextEndpointId + k) : Extends t t' := by
  have hids : ∀ e ∈ new, t.nextEndpointId ≤ e.id ∧ e.id < t.nextEndpointId + k := by
    intro e he
    have hmem : e.id ∈ List.range' t.nextEndpointId k := hnew ▸ List.mem_map_of_mem he
    exact List.mem_range'_1.mp hmem
  refine ⟨⟨?_, ?_⟩, by omega, ?_⟩
  · rw [hendpoints, List.map_append, hnew, List.nodup_append]
    refine ⟨h.nodup, List.nodup_range', ?_⟩
    intro id hold id' hid heq
    obtain ⟨e, he, rfl⟩ := List.mem_map.mp hold
    -- old ids are below the next one, new ones are not
    have hlt := h.lt_next e he
    have hle := (List.mem_range'_1.mp hid).1
    omega
  · intro e he
    rw [hendpoints] at he
    rcases List.mem_append.mp he with he | he
    · have hlt := h.lt_next e he
      omega
    · have hlt := (hids e he).2
      omega
  · intro e he
    rw [hendpoints] at he
    rcases List.mem_append.mp he with he | he
    · exact .inl ⟨e, he, rfl⟩
    · exact .inr (hids e he).1

theorem extends_createEndpoint {t : HubTables} (h : t.EndpointKeys) (modelDbId : ℕ)
    (protocol : String) (enabled : Bool) :
    Extends t (HubScope.createEndpoint t modelDbId protocol enabled).1 := by
  rw [HubScope.createEndpoint]
  split
  · exact ⟨h, le_rfl, fun e he => .inl ⟨e, he, rfl⟩⟩
  · exact extends_append h 1 _ rfl rfl rfl

theorem extends_createModel {t t' : HubTables} (h : t.EndpointKeys) {hub : ℕ} {modelId : String}
    {cls : String × String} {protocols : List String}
    (ht : HubScope.createModel t hub modelId cls protocols = some t') : Extends t t' := by
  unfold HubScope.createModel at ht
  split_ifs at ht
  cases ht
  refine extends_append h protocols.length _ rfl ?_ rfl
  have hsnd : protocols.zipIdx.map Prod.snd = List.range' 0 protocols.length :=
    List.zipIdx_map_snd 0 protocols
  rw [List.map_map]
  change protocols.zipIdx.map ((t.nextEndpointId + ·) ∘ Prod.snd) = _
  rw [← List.map_map, hsnd, List.map_add_range', Nat.add_zero]

/-- Rows that keep their ids. -/
theorem extends_map {t t' : HubTables} (h : t.EndpointKeys) (f : EndpointRow → EndpointRow)
    (hf : ∀ e, (f e).id = e.id) (hendpoints : t'.endpoints = t.endpoints.map f)
    (hnext : t'.nextEndpointId = t.nextEndpointId) : Extends t t' := by
  have hrow : ∀ e ∈ t'.endpoints, ∃ e' ∈ t.endpoints, e'.id = e.id := by
    intro e he
    rw [hendpoints] at he
    obtain ⟨e', he', rfl⟩ := List.mem_map.mp he
    exact ⟨e', he', (hf e').symm⟩
  have hids : (t.endpoints.map f).map (·.id) = t.endpoints.map (·.id) := by
    rw [List.map_map]
    exact List.map_congr_left fun e _ => hf e
  refine ⟨⟨?_, fun e he => ?_⟩, hnext.ge, fun e he => .inl (hrow e he)⟩
  · rw [hendpoints, hids]
    exact h.nodup
  · obtain ⟨e', he', hid⟩ := hrow e he
    rw [← hid, hnext]
    exact h.lt_next e' he'

theorem extends_createDiscoveredModel {t : HubTables} (h : t.EndpointKeys) (hub : ℕ)
    (modelId : String) (cls : String × String) :
    Extends t (createDiscoveredModel t hub modelId cls).1 := by
  rw [createDiscoveredModel]
  split <;> exact extends_map h id (fun _ => rfl) (List.map_id _).symm rfl

theorem extends_markRetiredMissing {t : HubTables} (h : t.EndpointKeys) (hub : ℕ)
    (seen : List String) : Extends t (markRetiredMissing t hub seen).1 := by
  rw [markRetiredMissing]
  split_ifs <;> exact extends_map h id (fun _ => rfl) (List.map_id _).symm rfl

theorem extends_applyCreationDefaults {t : HubTables} (h : t.EndpointKeys) (id : ℕ)
    (protocol : String) : Extends t (applyCreationDefaults t id protocol) := by
  rw [applyCreationDefaults]
  split_ifs
  · refine extends_map h _ (fun e => ?_) rfl rfl
    split_ifs <;> rfl
  · exact extends_map h (fun e => e) (fun _ => rfl) (List.map_id' _).symm rfl

theorem extends_setEndpointEnabled {t : HubTables} (h : t.EndpointKeys) (id : ℕ)
    (enabled : Bool) : Extends t (t.setEndpointEnabled id enabled) := by
  refine extends_map h _ (fun e => ?_) rfl rfl
  split_ifs <;> rfl

/-- A deletion leaves the history of the endpoints that stay. -/
theorem KeepsHistory.purge (h : KeepsHistory w) {gone : ℕ → Bool}
    (hgone : ∀ id, gone id = true → id < w.hub.nextEndpointId) (models : List ModelRow) :
    KeepsHistory (w.afterDeletion { w.db.purge gone with
      hub := { (w.db.purge gone).hub with models := models } } gone) := by
  have hsub : (w.hub.endpoints.filter fun e => !gone e.id).Sublist w.hub.endpoints :=
    List.filter_sublist
  refine ⟨h.rolled.purge gone, fun p hp => ?_, ⟨?_, fun e he => ?_⟩, fun id hid => ?_⟩
  · obtain ⟨hmem, hstays⟩ := List.mem_filter.mp hp
    exact List.mem_filter.mpr ⟨h.raw hmem, hstays⟩
  · exact h.keys.nodup.sublist (hsub.map _)
  · exact h.keys.lt_next e (hsub.subset he)
  · -- the endpoint is there or will be, so this deletion is not of its id
    have hstays : gone id = false := by
      rcases hid with ⟨e, he, rfl⟩ | hid
      · simpa using (List.mem_filter.mp he).2
      · by_contra hgone'
        have hlt := hgone id (by simpa using hgone')
        exact absurd hid (Nat.not_le.mpr hlt)
    have hold : (∃ e ∈ w.hub.endpoints, e.id = id) ∨ w.hub.nextEndpointId ≤ id :=
      hid.imp_left fun ⟨e, he, heq⟩ => ⟨e, hsub.subset he, heq⟩
    refine Eq.trans ?_ (h.history id hold)
    change (w.tables.history.filter fun p => !gone p.endpointId).filter _ = _
    rw [List.filter_filter]
    refine List.filter_congr fun p _ => ?_
    by_cases hp : p.endpointId = id
    · simp [hp, hstays]
    · simp [hp]

theorem KeepsHistory.probe (h : KeepsHistory w) {a : ProbeLabel} (ha : Timely w.tables a)
    (hstep : endpointStep w (.probe a) = some w') : KeepsHistory w' := by
  obtain ⟨tables, htables, rfl⟩ := Option.map_eq_some_iff.mp hstep
  refine ⟨rolled_step h.rolled ha htables, probes_subset_step h.raw htables, h.keys,
    fun id hid => ?_⟩
  cases a with
  | create p =>
    cases htables
    change (w.tables.history ++ [p]).filter _ = (w.ever ++ [p]).filter _
    rw [List.filter_append, List.filter_append, h.history id hid]
  | rollup | delete =>
    cases htables
    exact h.history id hid

theorem lt_next_of_dead (h : w.hub.EndpointKeys) {id : ℕ} (hdead : w.db.dead id = true) :
    id < w.hub.nextEndpointId := by
  obtain ⟨⟨e, he, rfl, -⟩, -⟩ := EndpointDb.dead_iff.mp hdead
  exact h.lt_next e he

theorem lt_next_of_ofModel (h : w.hub.EndpointKeys) {modelDbId id : ℕ}
    (hof : w.db.ofModel modelDbId id = true) : id < w.hub.nextEndpointId := by
  obtain ⟨e, he, heq⟩ := List.any_eq_true.mp hof
  obtain ⟨rfl, -⟩ := of_decide_eq_true heq
  exact h.lt_next e he

theorem keepsHistory_step (h : KeepsHistory w) {a : EndpointLabel} (ha : TimelyCall w a)
    (hstep : endpointStep w a = some w') : KeepsHistory w' := by
  cases a with
  | probe a => exact h.probe ha hstep
  | alert v =>
    cases hstep
    exact ⟨h.rolled, h.raw, h.keys, h.history⟩
  | listModel hub modelId cls =>
    cases hstep
    exact h.extend (extends_createDiscoveredModel h.keys hub modelId cls)
  | createEndpoint modelDbId protocol enabled =>
    cases hstep
    exact h.extend (extends_createEndpoint h.keys modelDbId protocol enabled)
  | createModel hub modelId cls protocols =>
    obtain ⟨t, ht, rfl⟩ := Option.map_eq_some_iff.mp hstep
    exact h.extend (extends_createModel h.keys ht)
  | markRetired hub seen =>
    cases hstep
    exact h.extend (extends_markRetiredMissing h.keys hub seen)
  | applyDefaults id protocol =>
    cases hstep
    exact h.extend (extends_applyCreationDefaults h.keys id protocol)
  | setEnabled id enabled =>
    cases hstep
    exact h.extend (extends_setEndpointEnabled h.keys id enabled)
  | deleteEndpoint id =>
    obtain ⟨hlt, heq⟩ := Option.ite_none_right_eq_some.mp hstep
    cases heq
    have hgone : ∀ id', decide (id' = id) = true → id' < w.hub.nextEndpointId := by
      intro id' hid
      rwa [of_decide_eq_true hid]
    exact h.purge hgone w.hub.models
  | deleteModel id =>
    unfold endpointStep at hstep
    dsimp only at hstep
    split at hstep
    case h_2 => cases hstep
    case h_1 db hdb =>
      cases hstep
      -- one endpoint after the other is one purge of them all
      rw [EndpointDb.deleteModel_eq_ok h.keys.nodup hdb]
      exact h.purge (fun id' hid => lt_next_of_ofModel h.keys hid) _
  | prune =>
    cases hstep
    rw [EndpointDb.pruneDeadEndpoints_eq]
    exact h.purge (fun id hid => lt_next_of_dead h.keys hid) w.hub.models

theorem keepsHistory_empty : KeepsHistory .empty where
  rolled := rolled_empty
  raw := List.Subset.refl _
  keys := ⟨List.nodup_nil, fun _ he => absurd he List.not_mem_nil⟩
  history _ _ := rfl

theorem keepsHistory_of_reach (h : Transition.Reach endpointStep TimelyCall .empty w) :
    KeepsHistory w :=
  h.invariant keepsHistory_empty fun _ _ _ ht ha hstep => keepsHistory_step ht ha hstep

/-! ### What the requests see -/

/-- The probes of an endpoint that is there are those of its history. -/
theorem KeepsHistory.mem_ever (h : KeepsHistory w) {e : EndpointRow} (he : e ∈ w.hub.endpoints)
    {p : Probe} (hp : p.endpointId = e.id) : p ∈ w.ever ↔ p ∈ w.tables.history := by
  have hhistory := h.history e.id (.inl ⟨e, he, rfl⟩)
  constructor
  · intro hmem
    have hmem : p ∈ w.ever.filter (·.endpointId = e.id) :=
      List.mem_filter.mpr ⟨hmem, decide_eq_true hp⟩
    exact List.mem_of_mem_filter (hhistory ▸ hmem)
  · intro hmem
    have hmem : p ∈ w.tables.history.filter (·.endpointId = e.id) :=
      List.mem_filter.mpr ⟨hmem, decide_eq_true hp⟩
    exact List.mem_of_mem_filter (hhistory ▸ hmem)

/-- The dead endpoints are the disabled ones that never succeeded. -/
theorem KeepsHistory.dead_eq (h : KeepsHistory w) : w.db.dead = w.failed := by
  funext id
  rw [Bool.eq_iff_iff, EndpointDb.dead_iff, EndpointWorld.failed, Bool.and_eq_true,
    List.any_eq_true, List.all_eq_true]
  simp only [decide_eq_true_eq]
  -- both sides ask for a disabled endpoint; the rest is whether a probe of it succeeded
  refine and_congr_right ?_
  rintro ⟨e, he, rfl, -⟩
  have hsucceeded := succeeded_iff h.rolled h.raw (e := e.id)
  constructor
  · rintro ⟨hraw, hstored⟩ p hp hid
    by_contra hok
    have hmem := (h.mem_ever he hid).mp hp
    rcases hsucceeded.mp ⟨p, hmem, hid, by simpa using hok⟩ with
      ⟨q, hq, hqid, hqok⟩ | ⟨row, hrow, hrid, hlt⟩
    · simp [hraw q hq hqid] at hqok
    · exact absurd (hstored row hrow hrid) (Nat.not_le.mpr hlt)
  · intro hnone
    have hfailed : ¬ ∃ p ∈ w.tables.history, p.endpointId = e.id ∧ p.ok = true := by
      rintro ⟨p, hp, hid, hok⟩
      simp [hnone p ((h.mem_ever he hid).mpr hp) hid] at hok
    rw [hsucceeded, not_or] at hfailed
    obtain ⟨hraw, hstored⟩ := hfailed
    refine ⟨fun p hp hid => ?_, fun row hrow hid => ?_⟩
    · by_contra hok
      exact hraw ⟨p, hp, hid, by simpa using hok⟩
    · by_contra hlt
      exact hstored ⟨row, hrow, hid, Nat.not_le.mp hlt⟩

/-- **What a pruning takes.** In every run, whatever was rolled up, deleted by retention or
deleted with endpoints before, a pruning takes everything of the disabled endpoints that never had
a successful probe, of no other, and tells how many they are. -/
theorem prune_of_reach (h : Transition.Reach endpointStep TimelyCall .empty w) :
    w.db.pruneDeadEndpoints =
      (w.db.purge w.failed, w.hub.endpoints.countP fun e => w.failed e.id) := by
  rw [EndpointDb.pruneDeadEndpoints_eq, (keepsHistory_of_reach h).dead_eq]
  rfl

/-- A manual model of two protocols, of which the first answered once, long ago. -/
def prunedRun : List EndpointLabel :=
  [.createModel 1 "m" ("chat", "other") ["anthropic", "openai"], .probe (.create hourProbe),
    .probe (.create ⟨2, false, false, 20, none, 60⟩), .probe (.rollup 3600),
    .probe (.delete 3600), .setEnabled 1 false, .setEnabled 2 false]

/-- No raw probe is left, and only the second endpoint goes. -/
theorem prune_of_reach_two : ∃ w : EndpointWorld, w.tables.store.probes = [] ∧
    (w.hub.endpoints.map (·.enabled)) = [false, false] ∧
    w.failed 1 = false ∧ w.failed 2 = true ∧ w.db.pruneDeadEndpoints =
      (w.db.purge w.failed, w.hub.endpoints.countP fun e => w.failed e.id) := by
  obtain ⟨w, hw, hprobes, henabled, hfirst, hsecond⟩ : ∃ w,
      Transition.replayWith endpointStep TimelyCall .empty prunedRun = some w ∧
        w.tables.store.probes = [] ∧ w.hub.endpoints.map (·.enabled) = [false, false] ∧
        w.failed 1 = false ∧ w.failed 2 = true := ⟨_, rfl, rfl, rfl, rfl, rfl⟩
  exact ⟨w, hprobes, henabled, hfirst, hsecond, prune_of_reach (.of_replayWith hw)⟩

/-- **What a series shows.** In every run the series of an endpoint that is there is that of all
its probes, whatever was rolled up or deleted. -/
theorem series_of_reach (h : Transition.Reach endpointStep TimelyCall .empty w)
    (e : EndpointRow) (he : e ∈ w.hub.endpoints) (since : ℕ) (mode : SeriesMode) :
    (w.tables.store.getSeries e.id since mode).filter (fun b => since ≤ b.bucketStart) =
      seriesOf w.ever e.id since mode := by
  have hkeeps := keepsHistory_of_reach h
  have hrows (ps : List Probe) :
      (ps.filter fun p => p.endpointId = e.id ∧ mode.rollupMode.covers p) =
        (ps.filter (·.endpointId = e.id)).filter fun p => mode.rollupMode.covers p := by
    rw [List.filter_filter]
    refine List.filter_congr fun p _ => ?_
    rw [Bool.decide_and, Bool.decide_eq_true, Bool.and_comm]
  refine (getSeries_eq hkeeps.rolled e.id since mode).trans ?_
  unfold seriesOf
  rw [hrows, hrows, hkeeps.history e.id (.inl ⟨e, he, rfl⟩)]

/-- The series of the endpoint that stays shows its old success. -/
theorem series_of_reach_two : ∃ (w : EndpointWorld) (e : EndpointRow), e.id = 1 ∧
    (w.tables.store.getSeries e.id 0 .all).filter (fun b => 0 ≤ b.bucketStart) =
      seriesOf w.ever e.id 0 .all := by
  obtain ⟨w, hw, e, he, hid⟩ : ∃ w,
      Transition.replayWith endpointStep TimelyCall .empty (prunedRun ++ [.prune]) = some w ∧
        ∃ e ∈ w.hub.endpoints, e.id = 1 :=
    ⟨_, rfl, ⟨1, 1, "anthropic", false, none⟩, List.mem_singleton_self _, rfl⟩
  exact ⟨w, e, hid, series_of_reach (.of_replayWith hw) e he 0 .all⟩

end HubScope
