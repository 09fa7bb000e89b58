import HubScope.Store.Models

/-!
# Discovery of a hub's models

A sync walks over the listing of a hub. Each listed model is registered, and gets an endpoint for
every protocol of its capability that it lacks: at once for images and videos, after a trial that
succeeds for chat. Then the discovered models that are not listed any more are retired, and the
ones the sync retired are reported in one event. A store call that fails ends the sync there, but
for the defaults of a new endpoint, which are done without.

## Main definitions

* `SyncOutcomes` — the answers of the store and of the trials
* `syncHub` — the sync
* `Synced` — what a successful sync leaves

## Main results

* `syncModels_spec` — the walk over the listing
* `synced_of_syncHub` — the models, endpoints and reports after a successful sync, and that
  another one changes nothing
-/

set_option autoImplicit false

namespace HubScope

/-- The calls to the store, those of the walk with the position in the listing. -/
inductive SyncCall
  | rules
  | register (k : ℕ)
  | listEndpoints (k : ℕ)
  | createEndpoint (k : ℕ) (protocol : String)
  | defaults (k : ℕ) (protocol : String)
  | retiredBefore
  | markRetired
  | retiredAfter
  | alert

/-- Which calls succeed, and which trials: of the model at a position on a protocol. -/
structure SyncOutcomes where
  ok : SyncCall → Bool
  trial : ℕ → String → Bool

structure SyncStats where
  added : ℕ
  updated : ℕ
  retired : ℕ
  endpointsCreated : ℕ
  deriving DecidableEq

/-- The protocols in turn: those the model has are passed over, and so are those it fails the trial
of. Returns how many endpoints it created. -/
def trialLoop (o : SyncOutcomes) (k : ℕ) (model : ModelRow) (had : List String) :
    List String → HubTables → ℕ → HubTables × Option ℕ
  | [], t, created => (t, some created)
  | p :: ps, t, created =>
    if p ∈ had then trialLoop o k model had ps t created
    else if isTrialFreeProtocol p = false ∧ o.trial k p = false then
      trialLoop o k model had ps t created
    else if o.ok (.createEndpoint k p) = false then (t, none)
    else
      match createEndpoint t model.id p true with
      | (t, _, false) => trialLoop o k model had ps t created
      | (t, e, true) =>
        let t := if o.ok (.defaults k p) then applyCreationDefaults t e.id p else t
        trialLoop o k model had ps t (created + 1)

/-- The protocols a model has endpoints for. -/
def listEndpointsByModelID (t : HubTables) (modelDbId : ℕ) : List String :=
  (t.endpoints.filter (·.modelDbId = modelDbId)).map (·.protocol)

/-- Create the endpoints a listed model lacks. -/
def trialAndCreateEndpoints (o : SyncOutcomes) (k : ℕ) (t : HubTables) (model : ModelRow) :
    HubTables × Option ℕ :=
  if o.ok (.listEndpoints k) = false then (t, none)
  else trialLoop o k model (listEndpointsByModelID t model.id)
    (protocolsForCapability model.capability) t 0

/-- The ids in the second list that are not in the first. -/
def diffModelIDs (before after : List String) : List String := after.filter (· ∉ before)

section Sync

variable (classify : String → String × String) (o : SyncOutcomes) (hub : ℕ)

/-- The walk over the listing. -/
def syncModels : ℕ → List String → HubTables → SyncStats → HubTables × Option SyncStats
  | _, [], t, stats => (t, some stats)
  | k, id :: ids, t, stats =>
    if o.ok (.register k) = false then (t, none)
    else
      let (t, model, created) := createDiscoveredModel t hub id (classify id)
      let stats := if created then { stats with added := stats.added + 1 }
        else { stats with updated := stats.updated + 1 }
      match trialAndCreateEndpoints o k t model with
      | (t, none) => (t, none)
      | (t, some n) => syncModels (k + 1) ids t
          { stats with endpointsCreated := stats.endpointsCreated + n }

/-- Retire what vanished and report it. -/
def syncRetired (ids : List String) (t : HubTables) (stats : SyncStats) :
    HubTables × Option SyncStats :=
  if o.ok .retiredBefore = false then (t, none)
  else
    let before := listRetiredModels t hub
    if o.ok .markRetired = false then (t, none)
    else
      let (t, retired) := markRetiredMissing t hub ids
      let stats := { stats with retired := stats.retired + retired }
      if retired = 0 then (t, some stats)
      else if o.ok .retiredAfter = false then (t, none)
      else
        let newly := diffModelIDs before (listRetiredModels t hub)
        if newly = [] then (t, some stats)
        else if o.ok .alert = false then (t, none)
        else ({ t with alerts := t.alerts ++ [⟨hub, newly⟩] }, some stats)

/-- Reconcile the tables with the listing of a hub: the tables afterwards, and the statistics of a
sync that succeeds. -/
def syncHub (ids : List String) (t : HubTables) : HubTables × Option SyncStats :=
  if o.ok .rules = false then (t, none)
  else
    match syncModels classify o hub 0 ids t ⟨0, 0, 0, 0⟩ with
    | (t, none) => (t, none)
    | (t, some stats) => syncRetired o hub ids t stats

end Sync

/-! ### Endpoints of one model -/

variable {o : SyncOutcomes} {k : ℕ} {model : ModelRow} {had ps : List String} {t t' : HubTables}
  {created n : ℕ}

theorem mem_listEndpointsByModelID {modelDbId : ℕ} {p : String} :
    p ∈ listEndpointsByModelID t modelDbId ↔ (modelDbId, p) ∈ t.pairs := by
  simp [listEndpointsByModelID, HubTables.pairs, and_assoc]

/-- What attaching endpoints leaves: the models and the events, valid tables, the pairs there were,
and for each protocol an endpoint or a failed trial. -/
structure AttachedTo (o : SyncOutcomes) (k : ℕ) (model : ModelRow) (had ps : List String)
    (t t' : HubTables) : Prop where
  models : t'.models = t.models
  alerts : t'.alerts = t.alerts
  valid : t.Valid → model.id < t.nextModelId → t'.Valid
  grown : t.pairs ⊆ t'.pairs
  attached : ∀ p ∈ ps, p ∈ had ∨ (isTrialFreeProtocol p = false ∧ o.trial k p = false) ∨
    (model.id, p) ∈ t'.pairs

theorem AttachedTo.nil : AttachedTo o k model had [] t t :=
  ⟨rfl, rfl, fun h _ => h, List.Subset.refl _, nofun⟩

/-- A protocol that is passed over. -/
theorem AttachedTo.skip {p : String} (h : AttachedTo o k model had ps t t')
    (hp : p ∈ had ∨ (isTrialFreeProtocol p = false ∧ o.trial k p = false)) :
    AttachedTo o k model had (p :: ps) t t' :=
  { h with attached := List.forall_mem_cons.mpr ⟨hp.imp_right Or.inl, h.attached⟩ }

/-- A protocol that gets its endpoint, with its defaults or without. -/
theorem AttachedTo.create {p : String} {m : HubTables} (h : AttachedTo o k model had ps m t')
    (hmodels : m.models = t.models) (halerts : m.alerts = t.alerts)
    (hnext : m.nextModelId = t.nextModelId) (hvalid : t.Valid → model.id < t.nextModelId → m.Valid)
    (hpairs : m.pairs = (HubScope.createEndpoint t model.id p true).1.pairs) :
    AttachedTo o k model had (p :: ps) t t' := by
  have hmem : (model.id, p) ∈ m.pairs := by
    rw [hpairs, pairs_createEndpoint]
    split_ifs with hold
    · exact hold
    · exact List.mem_append_right _ (List.mem_singleton_self _)
  have hsub : t.pairs ⊆ m.pairs := by
    rw [hpairs, pairs_createEndpoint]
    split_ifs
    · exact List.Subset.refl _
    · exact List.subset_append_left _ _
  exact {
    models := h.models.trans hmodels
    alerts := h.alerts.trans halerts
    valid := fun hv hid => h.valid (hvalid hv hid) (hnext ▸ hid)
    grown := List.Subset.trans hsub h.grown
    attached := List.forall_mem_cons.mpr ⟨Or.inr (Or.inr (h.grown hmem)), h.attached⟩ }

theorem trialLoop_spec (h : trialLoop o k model had ps t created = (t', some n)) :
    AttachedTo o k model had ps t t' := by
  induction ps generalizing t created with
  | nil =>
    obtain rfl : t = t' := (Prod.mk.inj h).1
    exact .nil
  | cons p ps ih =>
    rw [trialLoop] at h
    by_cases hhad : p ∈ had
    · rw [if_pos hhad] at h
      exact (ih h).skip (Or.inl hhad)
    by_cases htrial : isTrialFreeProtocol p = false ∧ o.trial k p = false
    · rw [if_neg hhad, if_pos htrial] at h
      exact (ih h).skip (Or.inr htrial)
    by_cases hfailed : o.ok (.createEndpoint k p) = false
    · rw [if_neg hhad, if_neg htrial, if_pos hfailed] at h
      cases (Prod.mk.inj h).2
    rw [if_neg hhad, if_neg htrial, if_neg hfailed] at h
    split at h
    · rename_i m e heq
      have hm : (createEndpoint t model.id p true).1 = m := congrArg Prod.fst heq
      refine (ih h).create ?_ ?_ ?_ (fun hv hid => hm ▸ hv.createEndpoint hid) (by rw [hm])
      · rw [← hm, models_createEndpoint]
      · rw [← hm, alerts_createEndpoint]
      · rw [← hm, nextModelId_createEndpoint]
    · rename_i m e heq
      have hm : (createEndpoint t model.id p true).1 = m := congrArg Prod.fst heq
      dsimp only at h
      -- the defaults are written or not
      split_ifs at h
      · refine (ih h).create ?_ ?_ ?_ (fun hv hid => ?_) ?_
        · rw [models_applyCreationDefaults, ← hm, models_createEndpoint]
        · rw [alerts_applyCreationDefaults, ← hm, alerts_createEndpoint]
        · rw [nextModelId_applyCreationDefaults, ← hm, nextModelId_createEndpoint]
        · exact (hm ▸ hv.createEndpoint hid : m.Valid).applyCreationDefaults
        · rw [pairs_applyCreationDefaults, hm]
      · refine (ih h).create ?_ ?_ ?_ (fun hv hid => hm ▸ hv.createEndpoint hid) (by rw [hm])
        · rw [← hm, models_createEndpoint]
        · rw [← hm, alerts_createEndpoint]
        · rw [← hm, nextModelId_createEndpoint]

/-- Where each protocol has an endpoint or fails its trial, nothing is created. -/
theorem trialLoop_of_attached (h : ∀ p ∈ ps, p ∈ had ∨
    (isTrialFreeProtocol p = false ∧ o.trial k p = false)) :
    (trialLoop o k model had ps t created).1 = t := by
  induction ps with
  | nil => rfl
  | cons p ps ih =>
    obtain ⟨hp, hps⟩ := List.forall_mem_cons.mp h
    rw [trialLoop]
    rcases hp with hmem | hfails
    · rw [if_pos hmem]
      exact ih hps
    · split_ifs
      · exact ih hps
      · exact ih hps

/-! ### The walk over the listing -/

section Walk

variable {classify : String → String × String} {hub : ℕ} {ids : List String}
  {stats stats' : SyncStats}

/-- Each listed model has an endpoint for every protocol of its capability whose trial, at its
place in the listing, does not fail. -/
def Attached (classify : String → String × String) (o : SyncOutcomes) (hub : ℕ) :
    ℕ → List String → HubTables → Prop
  | _, [], _ => True
  | k, id :: ids, t =>
    (∀ m ∈ t.models, m.Keyed hub id → ∀ p ∈ protocolsForCapability (classify id).1,
      (m.id, p) ∈ t.pairs ∨ (isTrialFreeProtocol p = false ∧ o.trial k p = false)) ∧
    Attached classify o hub (k + 1) ids t

/-- What the walk leaves. -/
structure Walked (classify : String → String × String) (o : SyncOutcomes) (hub k : ℕ)
    (ids : List String) (t t' : HubTables) : Prop where
  registered : Registered classify hub ids t.models t'.models
  alerts : t'.alerts = t.alerts
  valid : t'.Valid
  grown : t.pairs ⊆ t'.pairs
  attached : Attached classify o hub k ids t'

theorem syncModels_spec (hv : t.Valid)
    (h : syncModels classify o hub k ids t stats = (t', some stats')) :
    Walked classify o hub k ids t t' := by
  induction ids generalizing k t stats with
  | nil =>
    obtain rfl : t = t' := (Prod.mk.inj h).1
    exact ⟨.nil, rfl, hv, List.Subset.refl _, trivial⟩
  | cons id ids ih =>
    rw [syncModels] at h
    by_cases hfailed : o.ok (.register k) = false
    · rw [if_pos hfailed] at h
      cases (Prod.mk.inj h).2
    rw [if_neg hfailed] at h
    dsimp only at h
    obtain ⟨hrow, hkey, hcapability⟩ :=
      createDiscoveredModel_row t hub id (classify id)
    have hvalid := hv.createDiscoveredModel hub id (classify id)
    split at h
    · cases (Prod.mk.inj h).2
    · rename_i m n hattach
      rw [trialAndCreateEndpoints] at hattach
      split_ifs at hattach with hlist
      · cases (Prod.mk.inj hattach).2
      · have hloop := trialLoop_spec hattach
        have hmvalid := hloop.valid hvalid (hvalid.ids _ hrow)
        have hrest := ih hmvalid h
        constructor
        case registered => exact Registered.single.cons (hloop.models ▸ hrest.registered)
        case alerts => rw [hrest.alerts, hloop.alerts, alerts_createDiscoveredModel]
        case valid => exact hrest.valid
        case grown =>
          have hpairs : (createDiscoveredModel t hub id (classify id)).1.pairs = t.pairs :=
            pairs_createDiscoveredModel
          exact List.Subset.trans (hpairs ▸ hloop.grown) hrest.grown
        case attached =>
          refine ⟨fun m₁ hm₁ hkey₁ p hp => ?_, hrest.attached⟩
          -- the row of the model is the one that was registered
          obtain ⟨m₂, hm₂, hid, hkey₂, -⟩ := hrest.registered.survives (hloop.models ▸ hrow)
          rw [hkey.1, hkey.2] at hkey₂
          obtain rfl := hrest.valid.eq_of_keyed hm₁ hm₂ hkey₁ hkey₂
          rw [hid]
          rcases hloop.attached p (hcapability ▸ hp) with hhad | hfails | hpair
          · exact Or.inl (hrest.grown (hloop.grown (mem_listEndpointsByModelID.mp hhad)))
          · exact Or.inr hfails
          · exact Or.inl (hrest.grown hpair)

/-! ### Another sync -/

/-- Where each listed model is registered as it is and has its endpoints, the walk changes
nothing, whatever the store answers. -/
theorem syncModels_of_fresh {o' : SyncOutcomes} (htrial : ∀ k p, o'.trial k p = o.trial k p)
    (hlisted : ∀ id ∈ ids, ∃ m ∈ t.models, m.Keyed hub id)
    (hfresh : ∀ m ∈ t.models, m.hubId = hub → m.modelId ∈ ids →
      m.refresh (classify m.modelId) = m)
    (hattached : Attached classify o hub k ids t) :
    (syncModels classify o' hub k ids t stats).1 = t := by
  induction ids generalizing k stats with
  | nil => rfl
  | cons id ids ih =>
    obtain ⟨hid, hids⟩ := List.forall_mem_cons.mp hlisted
    obtain ⟨hhead, htail⟩ := hattached
    have hsame : (createDiscoveredModel t hub id (classify id)).1 = t :=
      createDiscoveredModel_of_fresh hid fun m hm hkey =>
        hkey.2 ▸ hfresh m hm hkey.1 (hkey.2 ▸ List.mem_cons_self ..)
    obtain ⟨hrow, hkey, hcapability⟩ :=
      createDiscoveredModel_row t hub id (classify id)
    rw [hsame] at hrow
    have hattach : (trialAndCreateEndpoints o' k (createDiscoveredModel t hub id (classify id)).1
        (createDiscoveredModel t hub id (classify id)).2.1).1 = t := by
      rw [hsame, trialAndCreateEndpoints]
      split_ifs
      · rfl
      · refine trialLoop_of_attached fun p hp => ?_
        rw [htrial]
        rcases hhead _ hrow hkey p (hcapability ▸ hp) with hpair | hfails
        · exact Or.inl (mem_listEndpointsByModelID.mpr hpair)
        · exact Or.inr hfails
    rw [syncModels]
    split_ifs
    · rfl
    · dsimp only
      split
      · rename_i m heq
        rw [← hattach, heq]
      · rename_i m n heq
        have hm : m = t := by rw [← hattach, heq]
        rw [hm]
        exact ih hids (fun m hm hhub hmem => hfresh m hm hhub (List.mem_cons_of_mem _ hmem)) htail

/-! ### Retirement -/

/-- What a successful sync leaves of the models, the endpoints and the events. -/
structure Synced (hub : ℕ) (ids : List String) (before after : HubTables) : Prop where
  active : ∀ m ∈ after.models, m.hubId = hub → m.origin = .discovered →
    (m.status = .active ↔ m.modelId ∈ ids)
  listed : ∀ id ∈ ids, ∃ m ∈ after.models, m.Keyed hub id ∧ m.status = .active
  manual : ∀ m ∈ before.models, m.origin = .manual → ∃ m' ∈ after.models,
    m'.id = m.id ∧ m'.Keyed m.hubId m.modelId ∧ m'.origin = .manual ∧
      (m'.status = .retired → m.status = .retired)
  pairs : after.pairs.Nodup
  reported : ∃ newly : List String, newly.Nodup ∧
    (∀ id, id ∈ newly ↔ ∃ m ∈ before.models, m.Keyed hub id ∧ m.origin = .discovered ∧
      m.status = .active ∧ id ∉ ids) ∧
    after.alerts = before.alerts ++ if newly = [] then [] else [⟨hub, newly⟩]

/-- The mark of one row. -/
def ModelRow.mark (hub : ℕ) (seen : List String) (m : ModelRow) : ModelRow :=
  if m.Vanished hub seen then { m with status := .retired } else m

theorem models_markRetiredMissing (hids : ids ≠ []) :
    (markRetiredMissing t hub ids).1.models = t.models.map (·.mark hub ids) := by
  rw [markRetiredMissing, if_neg hids]
  rfl

theorem mark_of_not_vanished {m : ModelRow} (h : ¬ m.Vanished hub ids) : m.mark hub ids = m :=
  if_neg h

theorem keyed_mark {m : ModelRow} {id : String} : (m.mark hub ids).Keyed hub id ↔ m.Keyed hub id := by
  unfold ModelRow.mark
  split_ifs <;> rfl

theorem not_vanished_of_listed {m : ModelRow} (h : m.modelId ∈ ids) : ¬ m.Vanished hub ids :=
  fun hv => hv.2.2.2 h

theorem pairs_markRetiredMissing : (markRetiredMissing t hub ids).1.pairs = t.pairs := by
  unfold markRetiredMissing
  split_ifs <;> rfl

theorem alerts_markRetiredMissing : (markRetiredMissing t hub ids).1.alerts = t.alerts := by
  unfold markRetiredMissing
  split_ifs <;> rfl

theorem mem_listRetiredModels {id : String} : id ∈ listRetiredModels t hub ↔
    ∃ m ∈ t.models, m.Keyed hub id ∧ m.origin = .discovered ∧ m.status = .retired := by
  simp only [listRetiredModels, List.mem_insertionSort, List.mem_map, List.mem_filter,
    decide_eq_true_eq]
  constructor
  · rintro ⟨m, ⟨hm, hhub, hrest⟩, hid⟩
    exact ⟨m, hm, ⟨hhub, hid⟩, hrest⟩
  · rintro ⟨m, hm, ⟨hhub, hid⟩, hrest⟩
    exact ⟨m, ⟨hm, hhub, hrest⟩, hid⟩

/-- The ids that are retired after the mark and were not before it. -/
theorem mem_diff_retired (hv : t.Valid) (hids : ids ≠ []) {id : String} :
    id ∈ diffModelIDs (listRetiredModels t hub)
        (listRetiredModels (markRetiredMissing t hub ids).1 hub) ↔
      ∃ m ∈ t.models, m.Keyed hub id ∧ m.Vanished hub ids := by
  simp only [diffModelIDs, List.mem_filter, decide_eq_true_eq, mem_listRetiredModels,
    models_markRetiredMissing hids]
  constructor
  · rintro ⟨⟨_, hmark, hkey, hdiscovered, hretired⟩, hbefore⟩
    obtain ⟨m, hm, rfl⟩ := List.mem_map.mp hmark
    -- a row the mark leaves alone was retired before, so the difference does not name it
    by_cases hvanished : m.Vanished hub ids
    · exact ⟨m, hm, keyed_mark.mp hkey, hvanished⟩
    · rw [mark_of_not_vanished hvanished] at hkey hdiscovered hretired
      exact absurd ⟨m, hm, hkey, hdiscovered, hretired⟩ hbefore
  · rintro ⟨m, hm, hkey, hvanished⟩
    refine ⟨⟨m.mark hub ids, List.mem_map_of_mem hm, ?_⟩, ?_⟩
    · refine ⟨keyed_mark.mpr hkey, ?_⟩
      rw [ModelRow.mark, if_pos hvanished]
      exact ⟨hvanished.2.1, rfl⟩
    · rintro ⟨m', hm', hkey', -, hretired⟩
      -- the only row of the key was not retired before
      obtain rfl := hv.eq_of_keyed hm hm' hkey hkey'
      rw [hvanished.2.2.1] at hretired
      cases hretired

theorem nodup_listRetiredModels (hv : t.Valid) : (listRetiredModels t hub).Nodup := by
  rw [listRetiredModels, (List.perm_insertionSort _ _).nodup_iff]
  refine List.Nodup.map_on ?_ ((List.Nodup.of_map _ hv.unique).filter _)
  intro m hm m' hm' heq
  simp only [List.mem_filter, decide_eq_true_eq] at hm hm'
  exact hv.eq_of_keyed hm.1 hm'.1 ⟨hm.2.1, heq⟩ ⟨hm'.2.1, rfl⟩

/-- Without anything that vanished the second part of a sync changes nothing. -/
theorem syncRetired_of_none {o' : SyncOutcomes} (h : ∀ m ∈ t.models, ¬ m.Vanished hub ids) :
    (syncRetired o' hub ids t stats).1 = t := by
  have hcount : t.models.countP (·.Vanished hub ids) = 0 := by
    rw [List.countP_eq_zero]
    exact fun m hm => by simpa using h m hm
  have hmark : markRetiredMissing t hub ids = (t, 0) := by
    unfold markRetiredMissing
    split_ifs
    · rfl
    · rw [hcount, List.map_congr_left fun m hm => if_neg (h m hm), List.map_id']
  rw [syncRetired, hmark]
  split_ifs <;> rfl

/-- The tables after the second part: the models are marked, and what was newly retired is
reported. -/
theorem syncRetired_spec (hv : t.Valid) (hids : ids ≠ [])
    (h : syncRetired o hub ids t stats = (t', some stats')) :
    t'.models = t.models.map (·.mark hub ids) ∧ t'.pairs = t.pairs ∧
      ∃ newly : List String, newly.Nodup ∧
        (∀ id, id ∈ newly ↔ ∃ m ∈ t.models, m.Keyed hub id ∧ m.Vanished hub ids) ∧
        t'.alerts = t.alerts ++ if newly = [] then [] else [⟨hub, newly⟩] := by
  let marked := (markRetiredMissing t hub ids).1
  let newly := diffModelIDs (listRetiredModels t hub) (listRetiredModels marked hub)
  have hnewly : ∀ id, id ∈ newly ↔ ∃ m ∈ t.models, m.Keyed hub id ∧ m.Vanished hub ids :=
    fun id => mem_diff_retired hv hids
  suffices hsuff : t'.models = marked.models ∧ t'.pairs = marked.pairs ∧
      t'.alerts = t.alerts ++ if newly = [] then [] else [⟨hub, newly⟩] by
    refine ⟨hsuff.1.trans (models_markRetiredMissing hids),
      hsuff.2.1.trans pairs_markRetiredMissing, newly, ?_, hnewly, hsuff.2.2⟩
    exact (nodup_listRetiredModels hv.markRetiredMissing).filter _
  have halerts : marked.alerts = t.alerts := alerts_markRetiredMissing
  -- a mark that changes nothing leaves nothing to report
  have hnone : (markRetiredMissing t hub ids).2 = 0 → newly = [] := by
    intro hzero
    rw [markRetiredMissing, if_neg hids, List.countP_eq_zero] at hzero
    refine List.eq_nil_iff_forall_not_mem.mpr fun id hid => ?_
    obtain ⟨m, hm, -, hvanished⟩ := (hnewly id).mp hid
    exact hzero m hm (decide_eq_true hvanished)
  rw [syncRetired] at h
  -- each call that fails ends the sync with an error, which is excluded here
  by_cases hbefore : o.ok .retiredBefore = false
  · rw [if_pos hbefore] at h
    cases (Prod.mk.inj h).2
  by_cases hmark : o.ok .markRetired = false
  · simp only [if_neg hbefore, if_pos hmark] at h
    cases (Prod.mk.inj h).2
  simp only [if_neg hbefore, if_neg hmark] at h
  by_cases hzero : (markRetiredMissing t hub ids).2 = 0
  · rw [if_pos hzero] at h
    obtain rfl := (Prod.mk.inj h).1
    rw [if_pos (hnone hzero), List.append_nil]
    exact ⟨rfl, rfl, halerts⟩
  rw [if_neg hzero] at h
  by_cases hafter : o.ok .retiredAfter = false
  · rw [if_pos hafter] at h
    cases (Prod.mk.inj h).2
  rw [if_neg hafter] at h
  by_cases hempty : newly = []
  · rw [if_pos hempty] at h
    obtain rfl := (Prod.mk.inj h).1
    rw [if_pos hempty, List.append_nil]
    exact ⟨rfl, rfl, halerts⟩
  rw [if_neg hempty] at h
  by_cases halert : o.ok .alert = false
  · rw [if_pos halert] at h
    cases (Prod.mk.inj h).2
  · rw [if_neg halert] at h
    obtain rfl := (Prod.mk.inj h).1
    rw [if_neg hempty]
    exact ⟨rfl, rfl, congrArg (· ++ _) halerts⟩

/-- Endpoints that are attached stay attached while the listed rows and the pairs do. -/
theorem Attached.congr (h : Attached classify o hub k ids t)
    (hmodels : ∀ m ∈ t'.models, ∀ id ∈ ids, m.Keyed hub id → m ∈ t.models)
    (hpairs : t'.pairs = t.pairs) : Attached classify o hub k ids t' := by
  induction ids generalizing k with
  | nil => trivial
  | cons id ids ih =>
    refine ⟨fun m hm hkey p hp => ?_, ih h.2 fun m hm x hx => hmodels m hm x
      (List.mem_cons_of_mem _ hx)⟩
    rw [hpairs]
    exact h.1 m (hmodels m hm id (List.mem_cons_self ..) hkey) hkey p hp

/-! ### What a sync leaves -/

section Marked

variable {before rows : List ModelRow} {m : ModelRow} {id : String}

/-- The mark leaves a listed row as it is. -/
theorem mem_of_mem_marked (hm : m ∈ rows.map (·.mark hub ids)) (hlisted : m.modelId ∈ ids) :
    m ∈ rows := by
  obtain ⟨m₁, hm₁, rfl⟩ := List.mem_map.mp hm
  have hid : (m₁.mark hub ids).modelId = m₁.modelId := by
    unfold ModelRow.mark
    split_ifs <;> rfl
  rwa [mark_of_not_vanished (not_vanished_of_listed (hid ▸ hlisted))]

theorem mem_marked (hm : m ∈ rows) (h : ¬ m.Vanished hub ids) :
    m ∈ rows.map (·.mark hub ids) :=
  List.mem_map.mpr ⟨m, hm, mark_of_not_vanished h⟩

variable (hrows : Registered classify hub ids before rows)
include hrows

/-- The discovered rows that stay active are the listed ones. -/
theorem active_marked_iff (hm : m ∈ rows.map (·.mark hub ids)) (hhub : m.hubId = hub)
    (hdiscovered : m.origin = .discovered) : m.status = .active ↔ m.modelId ∈ ids := by
  constructor
  · intro hstatus
    obtain ⟨m₁, hm₁, rfl⟩ := List.mem_map.mp hm
    by_cases hvanished : m₁.Vanished hub ids
    · rw [ModelRow.mark, if_pos hvanished] at hstatus
      cases hstatus
    · rw [mark_of_not_vanished hvanished] at hhub hdiscovered hstatus ⊢
      by_contra hmem
      exact hvanished ⟨hhub, hdiscovered, hstatus, hmem⟩
  · intro hmem
    exact (hrows.refreshed m (mem_of_mem_marked hm hmem) hhub hmem).1

theorem listed_marked (hid : id ∈ ids) :
    ∃ m ∈ rows.map (·.mark hub ids), m.Keyed hub id ∧ m.status = .active := by
  obtain ⟨m, hm, hkey⟩ := hrows.listed id hid
  have hmem : m.modelId ∈ ids := hkey.2 ▸ hid
  exact ⟨m, mem_marked hm (not_vanished_of_listed hmem), hkey,
    (hrows.refreshed m hm hkey.1 hmem).1⟩

/-- A manual row is retired only if it was. -/
theorem manual_marked (hm : m ∈ before) (hmanual : m.origin = .manual) :
    ∃ m' ∈ rows.map (·.mark hub ids), m'.id = m.id ∧ m'.Keyed m.hubId m.modelId ∧
      m'.origin = .manual ∧ (m'.status = .retired → m.status = .retired) := by
  obtain ⟨m', hm', hid, hkey, horigin, hstatus⟩ := hrows.survives hm
  have hkept : ¬ m'.Vanished hub ids := by
    rintro ⟨-, hdiscovered, -⟩
    rw [horigin, hmanual] at hdiscovered
    cases hdiscovered
  refine ⟨m', mem_marked hm' hkept, hid, hkey, horigin.trans hmanual, fun hretired => ?_⟩
  rcases hstatus with hstatus | hstatus
  · rw [hstatus] at hretired
    cases hretired
  · rw [← hstatus, hretired]

/-- What vanished was active before and is not listed. -/
theorem exists_vanished_iff : (∃ m ∈ rows, m.Keyed hub id ∧ m.Vanished hub ids) ↔
    ∃ m ∈ before, m.Keyed hub id ∧ m.origin = .discovered ∧ m.status = .active ∧ id ∉ ids := by
  constructor
  · rintro ⟨m, hm, hkey, hhub, hdiscovered, hstatus, hmem⟩
    exact ⟨m, (hrows.others m fun h => hmem h.2).mp hm, hkey, hdiscovered, hstatus, hkey.2 ▸ hmem⟩
  · rintro ⟨m, hm, hkey, hdiscovered, hstatus, hmem⟩
    have hmem' : m.modelId ∉ ids := hkey.2 ▸ hmem
    exact ⟨m, (hrows.others m fun h => hmem' h.2).mpr hm, hkey, hkey.1, hdiscovered, hstatus, hmem'⟩

theorem not_vanished_marked (hm : m ∈ rows.map (·.mark hub ids)) : ¬ m.Vanished hub ids := by
  rintro ⟨hhub, hdiscovered, hstatus, hmem⟩
  exact hmem ((active_marked_iff hrows hm hhub hdiscovered).mp hstatus)

end Marked

/-- Another sync with the same trials finds every listed model registered with its endpoints, and
nothing that vanished. -/
theorem syncHub_again {o' : SyncOutcomes} {rows : List ModelRow}
    (htrial : ∀ k p, o'.trial k p = o.trial k p)
    (hrows : Registered classify hub ids rows t.models)
    (hmodels : t'.models = t.models.map (·.mark hub ids)) (hpairs : t'.pairs = t.pairs)
    (hattached : Attached classify o hub 0 ids t) : (syncHub classify o' hub ids t').1 = t' := by
  have hlisted : ∀ m ∈ t'.models, ∀ id ∈ ids, m.Keyed hub id → m ∈ t.models :=
    fun m hm id hid hkey => mem_of_mem_marked (hmodels ▸ hm) (hkey.2 ▸ hid)
  -- every listed id has its row, refreshed already, and the same trials fail as before
  have hwalk : (syncModels classify o' hub 0 ids t' ⟨0, 0, 0, 0⟩).1 = t' := by
    refine syncModels_of_fresh htrial ?_ ?_ (hattached.congr hlisted hpairs)
    · intro id hid
      obtain ⟨m, hm, hkey, -⟩ := listed_marked hrows hid
      exact ⟨m, hmodels ▸ hm, hkey⟩
    · intro m hm hhub hmem
      obtain ⟨hstatus, hclass⟩ := hrows.refreshed m (mem_of_mem_marked (hmodels ▸ hm) hmem) hhub hmem
      rw [← hclass, ModelRow.refresh, ← hstatus]
  have hnone : ∀ m ∈ t'.models, ¬ m.Vanished hub ids :=
    fun m hm => not_vanished_marked hrows (hmodels ▸ hm)
  rw [syncHub]
  split_ifs
  · rfl
  split
  · rename_i u heq
    rw [← hwalk, heq]
  · rename_i u stats₂ heq
    have hu : u = t' := by rw [← hwalk, heq]
    rw [hu]
    exact syncRetired_of_none hnone

/-- **After a successful sync the active discovered models of the hub are the listed ones, manual
models are not retired, no model has two endpoints of a protocol, the event names just the models
that were active and are not listed, and another sync with the same trials changes nothing.** -/
theorem synced_of_syncHub (classify : String → String × String) (o : SyncOutcomes) (hub : ℕ)
    (ids : List String) (before after : HubTables) (stats : SyncStats) (hv : before.Valid)
    (hids : ids ≠ []) (h : syncHub classify o hub ids before = (after, some stats)) :
    Synced hub ids before after ∧
      ∀ o' : SyncOutcomes, (∀ k p, o'.trial k p = o.trial k p) →
        (syncHub classify o' hub ids after).1 = after := by
  rw [syncHub] at h
  split_ifs at h with hrules
  · cases (Prod.mk.inj h).2
  split at h
  · cases (Prod.mk.inj h).2
  -- the sync was not refused and the walk ended: what is left is the retirement
  rename_i t stats₁ hwalk
  have hwalked := syncModels_spec hv hwalk
  have hrows := hwalked.registered
  obtain ⟨hmodels, hpairs, newly, hnodup, hnewly, halerts⟩ := syncRetired_spec hwalked.valid hids h
  refine ⟨?_, fun o' htrial => syncHub_again htrial hrows hmodels hpairs hwalked.attached⟩
  constructor
  case active =>
    rw [hmodels]
    exact fun m hm => active_marked_iff hrows hm
  case listed =>
    rw [hmodels]
    exact fun id => listed_marked hrows
  case manual =>
    rw [hmodels]
    exact fun m => manual_marked hrows
  case pairs =>
    rw [hpairs]
    exact hwalked.valid.pairs
  case reported =>
    refine ⟨newly, hnodup, fun id => (hnewly id).trans (exists_vanished_iff hrows), ?_⟩
    rw [halerts, hwalked.alerts]

end Walk

/-- One discovered and one manual model, both active. -/
def twoModels : HubTables :=
  ⟨[⟨1, 7, "gone", .discovered, .active, "chat", "other", true⟩,
      ⟨2, 7, "mine", .manual, .active, "chat", "other", true⟩],
    [⟨1, 1, "openai", true, none⟩], [], 3, 2⟩

/-- A listing that names one new model twice retires the discovered one. -/
theorem synced_twoModels : ∃ after stats,
    syncHub (fun _ => ("image", "other")) ⟨fun _ => true, fun _ _ => false⟩ 7 ["new", "new"]
      twoModels = (after, some stats) ∧ after.endpoints.length = 3 ∧
    Synced 7 ["new", "new"] twoModels after ∧
      ∀ o' : SyncOutcomes, (∀ k p, o'.trial k p = false) →
        (syncHub (fun _ => ("image", "other")) o' 7 ["new", "new"] after).1 = after := by
  have hvalid : twoModels.Valid := ⟨by decide, by decide, by decide, by decide⟩
  have hsync := (rfl : syncHub (fun _ => ("image", "other")) ⟨fun _ => true, fun _ _ => false⟩ 7
    ["new", "new"] twoModels = _)
  exact ⟨_, _, hsync, rfl,
    synced_of_syncHub _ _ 7 ["new", "new"] twoModels _ _ hvalid (by decide) hsync⟩

end HubScope
