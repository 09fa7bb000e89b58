import HubScope.Alerter.Events
import HubScope.Store.Models
import HubScope.Store.Series

/-!
# Deleting endpoints

An endpoint is deleted together with everything keyed by it, its model's endpoints with a manual
model, and on request all disabled endpoints that never had a successful probe. Retention deletes
raw probes all the while, so what is left of a success may be a count in a stored bucket; and the
statements of one request look for the dead endpoints again and again, in tables that the
statements before them have changed.

The statements of a request run in one transaction.

## Main definitions

* `EndpointDb.deleteEndpoint`, `EndpointDb.deleteModel`, `EndpointDb.pruneDeadEndpoints`
* `EndpointDb.purge` — everything of some endpoints goes at once

## Main results

* `pruneDeadEndpoints_eq` — the statements of a pruning mean the same endpoints
* `Rolled.purge` — the probe tables still hold the history of the others
* `succeeded_iff` — the tables tell whether an endpoint ever succeeded
-/

set_option autoImplicit false

namespace HubScope

/-- The probe tables without some endpoints. -/
def ProbeStore.purge (st : ProbeStore) (gone : ℕ → Bool) : ProbeStore where
  probes := st.probes.filter fun p => !gone p.endpointId
  rollups := keepKeys (fun key => !gone key.endpointId) st.rollups
  watermarks := keepKeys (fun e => !gone e) st.watermarks

/-- The tables that a deletion reaches. -/
structure EndpointDb where
  hub : HubTables
  probes : ProbeStore
  events : List AlertEvent

namespace EndpointDb

/-! ### Statements -/

/-- `DELETE FROM alert_events WHERE endpoint_id` is one of these. -/
def deleteAlertEvents (db : EndpointDb) (gone : ℕ → Bool) : EndpointDb :=
  { db with events := db.events.filter fun v => !v.endpointId.any gone }

/-- `DELETE FROM probes`. -/
def deleteProbes (db : EndpointDb) (gone : ℕ → Bool) : EndpointDb :=
  { db with probes.probes := db.probes.probes.filter fun p => !gone p.endpointId }

/-- `DELETE FROM probe_rollups`. -/
def deleteRollups (db : EndpointDb) (gone : ℕ → Bool) : EndpointDb :=
  { db with probes.rollups := keepKeys (fun key => !gone key.endpointId) db.probes.rollups }

/-- `DELETE FROM rollup_watermarks`. -/
def deleteWatermarks (db : EndpointDb) (gone : ℕ → Bool) : EndpointDb :=
  { db with probes.watermarks := keepKeys (fun e => !gone e) db.probes.watermarks }

/-- `DELETE FROM endpoints`. -/
def deleteEndpoints (db : EndpointDb) (gone : ℕ → Bool) : EndpointDb :=
  { db with hub.endpoints := db.hub.endpoints.filter fun e => !gone e.id }

/-- `DeleteEndpoint`. -/
def deleteEndpoint (db : EndpointDb) (id : ℕ) : EndpointDb :=
  ((((db.deleteAlertEvents (· = id)).deleteProbes (· = id)).deleteRollups
    (· = id)).deleteWatermarks (· = id)).deleteEndpoints (· = id)

/-- The endpoints of a model. -/
def ofModel (db : EndpointDb) (modelDbId : ℕ) (id : ℕ) : Bool :=
  db.hub.endpoints.any fun e => e.id = id ∧ e.modelDbId = modelDbId

/-- Why a model is not deleted. -/
inductive DeleteModelError
  | notFound
  | notManual
  deriving DecidableEq, Repr

/-- `DeleteModel`: a manual model goes with its endpoints. -/
def deleteModel (db : EndpointDb) (id : ℕ) : Except DeleteModelError EndpointDb :=
  match db.hub.models.find? (·.id = id) with
  | none => .error .notFound
  | some m =>
    if m.origin ≠ .manual then .error .notManual
    else
      let db := db.deleteAlertEvents (db.ofModel id)
      let db := db.deleteProbes (db.ofModel id)
      let db := db.deleteRollups (db.ofModel id)
      let db := db.deleteWatermarks (db.ofModel id)
      let db := { db with hub.endpoints := db.hub.endpoints.filter fun e => e.modelDbId ≠ id }
      .ok { db with hub.models := db.hub.models.filter fun m => m.id ≠ id }

/-- The disabled endpoints with neither a successful probe nor a bucket that counts one. -/
def dead (db : EndpointDb) (id : ℕ) : Bool :=
  (db.hub.endpoints.any fun e => e.id = id ∧ e.enabled = false) &&
    !(db.probes.probes.any fun p => p.endpointId = id ∧ p.ok) &&
    !(db.probes.rollups.entries.any fun row =>
      row.1.endpointId = id ∧ row.2.failures < row.2.total)

/-- `PruneDeadEndpoints`: each statement looks for the dead endpoints anew. Returns how many
went. -/
def pruneDeadEndpoints (db : EndpointDb) : EndpointDb × ℕ :=
  let db := db.deleteAlertEvents db.dead
  let db := db.deleteProbes db.dead
  let db := db.deleteRollups db.dead
  let db := db.deleteWatermarks db.dead
  (db.deleteEndpoints db.dead, db.hub.endpoints.countP fun e => db.dead e.id)

/-- Everything of some endpoints goes at once. -/
def purge (db : EndpointDb) (gone : ℕ → Bool) : EndpointDb where
  hub := { db.hub with endpoints := db.hub.endpoints.filter fun e => !gone e.id }
  probes := db.probes.purge gone
  events := db.events.filter fun v => !v.endpointId.any gone

/-! ### The statements together -/

variable {db : EndpointDb} {gone : ℕ → Bool} {id : ℕ}

theorem dead_iff : db.dead id = true ↔
    (∃ e ∈ db.hub.endpoints, e.id = id ∧ e.enabled = false) ∧
      (∀ p ∈ db.probes.probes, p.endpointId = id → p.ok = false) ∧
      ∀ row ∈ db.probes.rollups.entries, row.1.endpointId = id → row.2.total ≤ row.2.failures := by
  simp [dead, and_assoc]

/-- The probes that go are no sign of life of any endpoint. -/
theorem dead_deleteProbes (db : EndpointDb) : (db.deleteProbes db.dead).dead = db.dead := by
  funext id
  rw [Bool.eq_iff_iff, dead_iff, dead_iff]
  refine and_congr_right fun _ => and_congr_left fun _ => ⟨fun h p hp hid => ?_, fun h p hp => ?_⟩
  · cases hgone : db.dead p.endpointId with
    | true => exact (dead_iff.mp hgone).2.1 p hp rfl
    | false => exact h p (List.mem_filter.mpr ⟨hp, by simp [hgone]⟩) hid
  · exact h p (List.mem_of_mem_filter hp)

/-- The buckets that go are no sign of life of any endpoint. -/
theorem dead_deleteRollups (db : EndpointDb) : (db.deleteRollups db.dead).dead = db.dead := by
  funext id
  rw [Bool.eq_iff_iff, dead_iff, dead_iff]
  refine and_congr_right fun _ => and_congr_right fun _ =>
    ⟨fun h row hrow hid => ?_, fun h row hrow => ?_⟩
  · cases hgone : db.dead row.1.endpointId with
    | true => exact (dead_iff.mp hgone).2.2 row hrow rfl
    | false => exact h row (List.mem_filter.mpr ⟨hrow, by simp [hgone]⟩) hid
  · exact h row (List.mem_of_mem_filter hrow)

/-- **The statements of a pruning mean the same endpoints**, those dead before the first. -/
theorem pruneDeadEndpoints_eq (db : EndpointDb) : db.pruneDeadEndpoints =
    (db.purge db.dead, db.hub.endpoints.countP fun e => db.dead e.id) := by
  have hevents : (db.deleteAlertEvents db.dead).dead = db.dead := rfl
  have hprobes : ((db.deleteAlertEvents db.dead).deleteProbes db.dead).dead = db.dead :=
    dead_deleteProbes (db.deleteAlertEvents db.dead)
  have hrollups : (((db.deleteAlertEvents db.dead).deleteProbes db.dead).deleteRollups
      db.dead).dead = db.dead := by
    have h := dead_deleteRollups ((db.deleteAlertEvents db.dead).deleteProbes db.dead)
    rwa [hprobes] at h
  have hwatermarks : ((((db.deleteAlertEvents db.dead).deleteProbes db.dead).deleteRollups
      db.dead).deleteWatermarks db.dead).dead = db.dead := hrollups
  simp only [pruneDeadEndpoints, hevents, hprobes, hrollups, hwatermarks]
  rfl

/-- A manual model goes with everything of its endpoints. -/
theorem deleteModel_eq_ok {db' : EndpointDb} (hids : (db.hub.endpoints.map (·.id)).Nodup)
    (h : db.deleteModel id = .ok db') :
    db' = { db.purge (db.ofModel id) with
      hub := { (db.purge (db.ofModel id)).hub with
        models := db.hub.models.filter fun m => m.id ≠ id } } := by
  -- an endpoint is one of the model's if its id is
  have hendpoints : (db.hub.endpoints.filter fun e => e.modelDbId ≠ id) =
      db.hub.endpoints.filter fun e => !db.ofModel id e.id := by
    refine List.filter_congr fun e he => ?_
    have hof : db.ofModel id e.id = true ↔ e.modelDbId = id := by
      simp only [ofModel, List.any_eq_true, decide_eq_true_eq]
      constructor
      · rintro ⟨e', he', hid, hmodel⟩
        rwa [List.inj_on_of_nodup_map hids he' he hid] at hmodel
      · exact fun hmodel => ⟨e, he, rfl, hmodel⟩
    rw [Bool.eq_iff_iff, Bool.not_eq_true', ← Bool.not_eq_true, hof, decide_eq_true_eq]
  unfold deleteModel at h
  split at h
  · cases h
  · split_ifs at h
    cases h
    rw [purge, ← hendpoints]
    rfl

end EndpointDb

/-! ### The probe tables -/

/-- The tables and the history without some endpoints. -/
def ProbeHistory.purge (s : ProbeHistory) (gone : ℕ → Bool) : ProbeHistory where
  store := s.store.purge gone
  history := s.history.filter fun p => !gone p.endpointId
  horizon := s.horizon

variable {s : ProbeHistory} {e : ℕ}

theorem watermark_purge (st : ProbeStore) (gone : ℕ → Bool) (e : ℕ) :
    (st.purge gone).watermark e = if gone e then 0 else st.watermark e := by
  rw [ProbeStore.watermark, ProbeStore.purge, lookup_keepKeys]
  cases gone e <;> rfl

theorem groupOf_filter (history : List Probe) (gone : ℕ → Bool) (e : ℕ) (mode : RollupMode)
    (start : ℕ) : groupOf (history.filter fun p => !gone p.endpointId) e mode start =
      if gone e then [] else groupOf history e mode start := by
  rw [groupOf, List.filter_filter]
  split_ifs with hgone
  · refine List.filter_eq_nil_iff.mpr fun p _ => ?_
    simp only [Bool.and_eq_true, decide_eq_true_eq]
    rintro ⟨⟨rfl, -⟩, hstays⟩
    simp [hgone] at hstays
  · refine List.filter_congr fun p _ => ?_
    rw [Bool.eq_iff_iff]
    simp only [Bool.and_eq_true, decide_eq_true_eq]
    constructor
    · exact fun hp => hp.1
    · rintro ⟨rfl, hp⟩
      exact ⟨⟨rfl, hp⟩, by simpa using hgone⟩

/-- **The tables hold the history of the endpoints that stay.** -/
theorem Rolled.purge (h : Rolled s) (gone : ℕ → Bool) : Rolled (s.purge gone) := by
  refine ⟨fun e => ?_, fun e => ?_, ?_, fun e mode start => ?_⟩
  · change hourOf ((s.store.purge gone).watermark e) = (s.store.purge gone).watermark e
    rw [watermark_purge]
    split_ifs
    · rfl
    · exact h.aligned e
  · change (s.store.purge gone).watermark e ≤ s.horizon
    rw [watermark_purge]
    split_ifs
    · exact Nat.zero_le _
    · exact h.horizon e
  · -- among the endpoints that stay, what is live does not change
    have hlive (ps : List Probe) :
        (ps.filter fun p => !gone p.endpointId).filter (s.store.purge gone).live =
          (ps.filter s.store.live).filter fun p => !gone p.endpointId := by
      rw [List.filter_filter, List.filter_filter]
      refine List.filter_congr fun p _ => ?_
      rw [ProbeStore.live, ProbeStore.live, watermark_purge]
      cases gone p.endpointId <;> simp
    change (s.store.probes.filter _).filter (s.store.purge gone).live =
      (s.history.filter _).filter (s.store.purge gone).live
    rw [hlive, hlive, h.raw]
  · change (keepKeys _ s.store.rollups).lookup _ =
      if start < (s.store.purge gone).watermark e ∧ groupOf (s.history.filter _) e mode start ≠ []
        then some ((aggregate (groupOf (s.history.filter _) e mode start)).build start) else none
    rw [lookup_keepKeys, watermark_purge, groupOf_filter, h.stored]
    cases gone e <;> simp

/-! ### What a success leaves behind -/

/-- A bucket counts a success just when one of its probes is successful. -/
theorem failures_lt_total_iff {ps : List Probe} {start : ℕ} :
    ((aggregate ps).build start).failures < ((aggregate ps).build start).total ↔
      ∃ p ∈ ps, p.ok = true := by
  rw [aggregate_eq]
  change ps.countP (!·.ok) < ps.length ↔ _
  have hle := List.countP_le_length (p := fun p : Probe => !p.ok) (l := ps)
  have heq : ps.countP (!·.ok) = ps.length ↔ ∀ p ∈ ps, (!p.ok) = true :=
    List.countP_eq_length
  constructor
  · intro hlt
    by_contra hnone
    refine hlt.ne (heq.mpr fun p hp => ?_)
    cases hok : p.ok with
    | true => exact absurd ⟨p, hp, hok⟩ hnone
    | false => rfl
  · rintro ⟨p, hp, hok⟩
    refine lt_of_le_of_ne hle fun hall => ?_
    have hp := heq.mp hall p hp
    simp [hok] at hp

/-- **Success evidence.** An endpoint has a successful probe in its history just when the tables
still say so: by a raw probe, or by a stored bucket. -/
theorem succeeded_iff (h : Rolled s) (hraw : s.store.probes ⊆ s.history) :
    (∃ p ∈ s.history, p.endpointId = e ∧ p.ok = true) ↔
      (∃ p ∈ s.store.probes, p.endpointId = e ∧ p.ok = true) ∨
        ∃ row ∈ s.store.rollups.entries, row.1.endpointId = e ∧ row.2.failures < row.2.total := by
  have hentry : ∀ row : (_ : RollupKey) × SeriesBucket, row ∈ s.store.rollups.entries ↔
      s.store.rollups.lookup row.1 = some row.2 := fun row => AList.mem_lookup_iff.symm
  constructor
  · rintro ⟨p, hp, rfl, hok⟩
    by_cases hlive : s.store.watermark p.endpointId ≤ p.createdAt
    · have hmem : p ∈ s.store.probes.filter s.store.live := by
        rw [h.raw]
        exact List.mem_filter.mpr ⟨hp, decide_eq_true hlive⟩
      exact .inl ⟨p, List.mem_of_mem_filter hmem, rfl, hok⟩
    · -- the hour of the probe is stored, with the probe among its successes
      have hgroup : p ∈ groupOf s.history p.endpointId .combined (hourOf p.createdAt) :=
        List.mem_filter.mpr ⟨hp, decide_eq_true ⟨rfl, rfl, rfl⟩⟩
      have hhour := (le_hourOf_iff (t := p.createdAt) (h.aligned p.endpointId)).not.mpr hlive
      have hstored := h.stored p.endpointId .combined (hourOf p.createdAt)
      rw [if_pos ⟨by omega, List.ne_nil_of_mem hgroup⟩] at hstored
      exact .inr ⟨⟨_, _⟩, (hentry _).mpr hstored, rfl,
        failures_lt_total_iff.mpr ⟨p, hgroup, hok⟩⟩
  · rintro (⟨p, hp, he, hok⟩ | ⟨⟨⟨e', mode, start⟩, b⟩, hrow, rfl, hlt⟩)
    · exact ⟨p, hraw hp, he, hok⟩
    · have hstored := (h.stored e' mode start).symm.trans ((hentry _).mp hrow)
      obtain ⟨-, hb⟩ := Option.ite_none_right_eq_some.mp hstored
      obtain ⟨p, hp, hok⟩ := failures_lt_total_iff.mp (Option.some.inj hb ▸ hlt)
      obtain ⟨hmem, hin⟩ := List.mem_filter.mp hp
      exact ⟨p, hmem, (of_decide_eq_true hin).1, hok⟩

end HubScope
