import Mathlib.Data.List.Nodup
import Mathlib.Data.List.Sort
import Mathlib.Data.String.Basic

/-!
# The tables of models and endpoints

A model is unique for its hub and model id, by a constraint of the schema. An endpoint is unique
for its model and protocol by the statements that insert it: discovery inserts one only where none
is, and a manual model is inserted with the protocols that answered its trial, each once.

## Main definitions

* `ModelRow`, `EndpointRow`, `HubTables` — the tables
* `createDiscoveredModel`, `markRetiredMissing`, `listRetiredModels` — the models of a listing
* `createEndpoint`, `applyCreationDefaults`, `createModel` — endpoints and manual models
* `HubTables.Valid` — both uniqueness properties

## Main results

* `Valid.createModel` … `Valid.markRetiredMissing` — every statement keeps them
* `Registered.single` — what registering one listed model does to the table
-/

set_option autoImplicit false

namespace HubScope

inductive ModelOrigin
  | manual
  | discovered
  deriving DecidableEq

inductive ModelStatus
  | active
  | retired
  deriving DecidableEq

/-- A row of the models, without its creation time. -/
structure ModelRow where
  id : ℕ
  hubId : ℕ
  modelId : String
  origin : ModelOrigin
  status : ModelStatus
  capability : String
  family : String
  evalEnabled : Bool
  deriving DecidableEq

/-- A row of the endpoints, without its creation time. -/
structure EndpointRow where
  id : ℕ
  modelDbId : ℕ
  protocol : String
  enabled : Bool
  intervalSeconds : Option ℕ
  deriving DecidableEq

/-- The event that models of a hub disappeared from its listing. -/
structure RetiredAlert where
  hub : ℕ
  modelIds : List String
  deriving DecidableEq

structure HubTables where
  models : List ModelRow
  endpoints : List EndpointRow
  alerts : List RetiredAlert
  nextModelId : ℕ
  nextEndpointId : ℕ
  deriving DecidableEq

/-! ### Protocols -/

def protocolAnthropic : String := "anthropic"
def protocolOpenAI : String := "openai"
def protocolImagesGeneration : String := "images_generation"
def protocolImagesEdit : String := "images_edit"
def protocolVideoGeneration : String := "video_generation"

/-- The protocols a capability implies. -/
def protocolsForCapability (capability : String) : List String :=
  if capability = "image" then [protocolImagesGeneration, protocolImagesEdit]
  else if capability = "video" then [protocolVideoGeneration]
  else [protocolAnthropic, protocolOpenAI]

/-- Endpoints of these protocols are created without a probe call. -/
def isTrialFreeProtocol (protocol : String) : Bool :=
  protocol = protocolImagesGeneration || protocol = protocolImagesEdit ||
    protocol = protocolVideoGeneration

def isImageProtocol (protocol : String) : Bool :=
  protocol = protocolImagesGeneration || protocol = protocolImagesEdit

def defaultImageProtocolIntervalSeconds : ℕ := 1800

/-! ### Statements -/

/-- The row has this unique key. -/
def ModelRow.Keyed (m : ModelRow) (hub : ℕ) (modelId : String) : Prop :=
  m.hubId = hub ∧ m.modelId = modelId

instance (m : ModelRow) (hub : ℕ) (modelId : String) : Decidable (m.Keyed hub modelId) :=
  inferInstanceAs (Decidable (_ ∧ _))

/-- The row once its model is listed: active, with its classification refreshed. -/
def ModelRow.refresh (m : ModelRow) (cls : String × String) : ModelRow :=
  { m with status := .active, capability := cls.1, family := cls.2 }

/-- Register a listed model: insert it, or on the unique key reactivate and reclassify the row
there. Returns the row and whether it is new. -/
def createDiscoveredModel (t : HubTables) (hub : ℕ) (modelId : String) (cls : String × String) :
    HubTables × ModelRow × Bool :=
  match t.models.find? (·.Keyed hub modelId) with
  | none =>
    let m : ModelRow := ⟨t.nextModelId, hub, modelId, .discovered, .active, cls.1, cls.2, true⟩
    ({ t with models := t.models ++ [m], nextModelId := t.nextModelId + 1 }, m, true)
  | some m =>
    ({ t with models := t.models.map fun x => if x.Keyed hub modelId then x.refresh cls else x },
      m.refresh cls, false)

/-- A discovered model of the hub that is active and not listed. -/
def ModelRow.Vanished (m : ModelRow) (hub : ℕ) (seen : List String) : Prop :=
  m.hubId = hub ∧ m.origin = .discovered ∧ m.status = .active ∧ m.modelId ∉ seen

instance (m : ModelRow) (hub : ℕ) (seen : List String) : Decidable (m.Vanished hub seen) :=
  inferInstanceAs (Decidable (_ ∧ _ ∧ _ ∧ _))

/-- Retire the discovered models of the hub that are not listed; an empty listing retires none.
Returns how many it retired. -/
def markRetiredMissing (t : HubTables) (hub : ℕ) (seen : List String) : HubTables × ℕ :=
  if seen = [] then (t, 0)
  else
    ({ t with models := t.models.map fun m =>
        if m.Vanished hub seen then { m with status := .retired } else m },
      t.models.countP (·.Vanished hub seen))

/-- The ids of the discovered models of the hub that are retired, in order. -/
def listRetiredModels (t : HubTables) (hub : ℕ) : List String :=
  ((t.models.filter fun m =>
    m.hubId = hub ∧ m.origin = .discovered ∧ m.status = .retired).map (·.modelId)).insertionSort (· ≤ ·)

/-- Insert an endpoint where the model has none of the protocol. Returns the row there and whether
it is new. -/
def createEndpoint (t : HubTables) (modelDbId : ℕ) (protocol : String) (enabled : Bool) :
    HubTables × EndpointRow × Bool :=
  match t.endpoints.find? fun e => e.modelDbId = modelDbId ∧ e.protocol = protocol with
  | some e => (t, e, false)
  | none =>
    let e : EndpointRow := ⟨t.nextEndpointId, modelDbId, protocol, enabled, none⟩
    ({ t with endpoints := t.endpoints ++ [e], nextEndpointId := t.nextEndpointId + 1 }, e, true)

/-- Endpoints of image protocols begin with an interval of half an hour. -/
def applyCreationDefaults (t : HubTables) (endpointId : ℕ) (protocol : String) : HubTables :=
  if isImageProtocol protocol then
    { t with endpoints := t.endpoints.map fun e =>
        if e.id = endpointId then
          { e with intervalSeconds := some defaultImageProtocolIntervalSeconds }
        else e }
  else t

/-- Insert a manual model with an endpoint for each of the protocols, unless the hub has it. -/
def createModel (t : HubTables) (hub : ℕ) (modelId : String) (cls : String × String)
    (protocols : List String) : Option HubTables :=
  if t.models.any (·.Keyed hub modelId) then none
  else some { t with
    models := t.models ++ [⟨t.nextModelId, hub, modelId, .manual, .active, cls.1, cls.2, true⟩]
    endpoints := t.endpoints ++ protocols.zipIdx.map fun (p, i) =>
      ⟨t.nextEndpointId + i, t.nextModelId, p, true,
        if isImageProtocol p then some defaultImageProtocolIntervalSeconds else none⟩
    nextModelId := t.nextModelId + 1
    nextEndpointId := t.nextEndpointId + protocols.length }

/-! ### Uniqueness -/

/-- The models and protocols that have endpoints. -/
def HubTables.pairs (t : HubTables) : List (ℕ × String) :=
  t.endpoints.map fun e => (e.modelDbId, e.protocol)

/-- Models are unique by hub and model id, endpoints by model and protocol, and the endpoints are
of models inserted before. -/
structure HubTables.Valid (t : HubTables) : Prop where
  unique : (t.models.map fun m => (m.hubId, m.modelId)).Nodup
  pairs : t.pairs.Nodup
  references : ∀ e ∈ t.endpoints, e.modelDbId < t.nextModelId
  ids : ∀ m ∈ t.models, m.id < t.nextModelId

variable {t : HubTables} {hub : ℕ} {modelId : String} {cls : String × String} {seen : List String}

theorem HubTables.Valid.eq_of_keyed (h : t.Valid) {m m' : ModelRow} (hm : m ∈ t.models)
    (hm' : m' ∈ t.models) (hkey : m.Keyed hub modelId) (hkey' : m'.Keyed hub modelId) : m = m' :=
  List.inj_on_of_nodup_map h.unique hm hm'
    (Prod.ext (hkey.1.trans hkey'.1.symm) (hkey.2.trans hkey'.2.symm))

/-- A manual model with distinct protocols keeps the tables valid. -/
theorem HubTables.Valid.createModel (h : t.Valid) {protocols : List String}
    (hprotocols : protocols.Nodup) {t' : HubTables}
    (hs : HubScope.createModel t hub modelId cls protocols = some t') : t'.Valid := by
  unfold HubScope.createModel at hs
  split_ifs at hs with hany
  obtain rfl := Option.some.inj hs
  have hnew : ∀ m ∈ t.models, ¬ m.Keyed hub modelId := by simpa using hany
  constructor
  · rw [List.map_append, List.nodup_append]
    refine ⟨h.unique, List.nodup_singleton _, ?_⟩
    rintro _ hkey _ hkey' rfl
    obtain ⟨m, hm, hkey⟩ := List.mem_map.mp hkey
    rw [List.map_singleton, List.mem_singleton] at hkey'
    exact hnew m hm (Prod.mk.inj (hkey.trans hkey'))
  · have hfresh : (protocols.zipIdx.map fun x => (t.nextModelId, x.1)).Nodup := by
      rw [show (fun x : String × ℕ => (t.nextModelId, x.1)) = Prod.mk t.nextModelId ∘ Prod.fst from
        rfl, ← List.map_map, List.zipIdx_map_fst]
      exact hprotocols.map fun a b hab => (Prod.mk.inj hab).2
    rw [HubTables.pairs, List.map_append, List.map_map, List.nodup_append]
    refine ⟨h.pairs, hfresh, ?_⟩
    rintro _ hpair _ hpair' rfl
    obtain ⟨e, he, hpair⟩ := List.mem_map.mp hpair
    obtain ⟨x, -, hpair'⟩ := List.mem_map.mp hpair'
    have hid : e.modelDbId = t.nextModelId := (Prod.mk.inj (hpair.trans hpair'.symm)).1
    exact absurd (h.references e he) (by omega)
  · intro e he
    rcases List.mem_append.mp he with he | he
    · exact (h.references e he).trans (Nat.lt_succ_self _)
    · obtain ⟨x, -, rfl⟩ := List.mem_map.mp he
      exact Nat.lt_succ_self _
  · intro m hm
    rcases List.mem_append.mp hm with hm | hm
    · exact (h.ids m hm).trans (Nat.lt_succ_self _)
    · rw [List.mem_singleton.mp hm]
      exact Nat.lt_succ_self _

theorem ModelRow.key_refresh (m : ModelRow) (cls : String × String) :
    ((m.refresh cls).hubId, (m.refresh cls).modelId) = (m.hubId, m.modelId) := rfl

theorem HubTables.Valid.createDiscoveredModel (h : t.Valid) (hub : ℕ) (modelId : String)
    (cls : String × String) :
    (HubScope.createDiscoveredModel t hub modelId cls).1.Valid := by
  unfold HubScope.createDiscoveredModel
  split
  · rename_i hnone
    have hnew : ∀ m ∈ t.models, ¬ m.Keyed hub modelId := by simpa using hnone
    refine ⟨?_, h.pairs, fun e he => (h.references e he).trans (Nat.lt_succ_self _), ?_⟩
    · rw [List.map_append, List.nodup_append]
      refine ⟨h.unique, List.nodup_singleton _, ?_⟩
      rintro _ hkey _ hkey' rfl
      obtain ⟨m, hm, hkey⟩ := List.mem_map.mp hkey
      rw [List.map_singleton, List.mem_singleton] at hkey'
      exact hnew m hm (Prod.mk.inj (hkey.trans hkey'))
    · intro m hm
      rcases List.mem_append.mp hm with hm | hm
      · exact (h.ids m hm).trans (Nat.lt_succ_self _)
      · rw [List.mem_singleton.mp hm]
        exact Nat.lt_succ_self _
  · refine ⟨?_, h.pairs, h.references, ?_⟩
    · rw [List.map_map]
      convert h.unique using 2
      funext m
      simp only [Function.comp]
      split_ifs
      · exact m.key_refresh cls
      · rfl
    · intro m hm
      obtain ⟨m', hm', rfl⟩ := List.mem_map.mp hm
      split_ifs
      · exact h.ids m' hm'
      · exact h.ids m' hm'

theorem HubTables.Valid.markRetiredMissing (h : t.Valid) :
    (HubScope.markRetiredMissing t hub seen).1.Valid := by
  unfold HubScope.markRetiredMissing
  split_ifs
  · exact h
  · refine ⟨?_, h.pairs, h.references, ?_⟩
    · rw [List.map_map]
      convert h.unique using 2
      funext m
      simp only [Function.comp]
      split_ifs <;> rfl
    · intro m hm
      obtain ⟨m', hm', rfl⟩ := List.mem_map.mp hm
      split_ifs
      · exact h.ids m' hm'
      · exact h.ids m' hm'

/-! ### Endpoints -/

variable {modelDbId endpointId : ℕ} {protocol : String} {enabled : Bool}

/-- The pair has an endpoint afterwards, and no other pair has one that had none. -/
theorem pairs_createEndpoint : (createEndpoint t modelDbId protocol enabled).1.pairs =
    if (modelDbId, protocol) ∈ t.pairs then t.pairs else t.pairs ++ [(modelDbId, protocol)] := by
  have hmem : (modelDbId, protocol) ∈ t.pairs ↔
      ∃ e ∈ t.endpoints, e.modelDbId = modelDbId ∧ e.protocol = protocol := by
    simp [HubTables.pairs]
  unfold createEndpoint
  split
  · rename_i e he
    rw [if_pos]
    rw [hmem]
    exact ⟨e, List.mem_of_find?_eq_some he, by simpa using List.find?_some he⟩
  · rename_i hnone
    rw [if_neg, HubTables.pairs, List.map_append]
    · rfl
    · rw [hmem]
      rintro ⟨e, he, hpair⟩
      simpa [hpair] using List.find?_eq_none.mp hnone e he

@[simp] theorem models_createEndpoint :
    (createEndpoint t modelDbId protocol enabled).1.models = t.models := by
  unfold createEndpoint
  split <;> rfl

@[simp] theorem alerts_createEndpoint :
    (createEndpoint t modelDbId protocol enabled).1.alerts = t.alerts := by
  unfold createEndpoint
  split <;> rfl

@[simp] theorem nextModelId_createEndpoint :
    (createEndpoint t modelDbId protocol enabled).1.nextModelId = t.nextModelId := by
  unfold createEndpoint
  split <;> rfl

@[simp] theorem models_applyCreationDefaults :
    (applyCreationDefaults t endpointId protocol).models = t.models := by
  unfold applyCreationDefaults
  split_ifs <;> rfl

@[simp] theorem alerts_applyCreationDefaults :
    (applyCreationDefaults t endpointId protocol).alerts = t.alerts := by
  unfold applyCreationDefaults
  split_ifs <;> rfl

@[simp] theorem nextModelId_applyCreationDefaults :
    (applyCreationDefaults t endpointId protocol).nextModelId = t.nextModelId := by
  unfold applyCreationDefaults
  split_ifs <;> rfl

@[simp] theorem pairs_applyCreationDefaults :
    (applyCreationDefaults t endpointId protocol).pairs = t.pairs := by
  unfold applyCreationDefaults
  split_ifs
  · rw [HubTables.pairs, HubTables.pairs, List.map_map]
    refine List.map_congr_left fun e _ => ?_
    simp only [Function.comp]
    split_ifs <;> rfl
  · rfl

/-- The references of endpoints are those of their pairs. -/
theorem HubTables.references_iff :
    (∀ e ∈ t.endpoints, e.modelDbId < t.nextModelId) ↔ ∀ p ∈ t.pairs, p.1 < t.nextModelId := by
  simp [HubTables.pairs]

theorem HubTables.Valid.createEndpoint (h : t.Valid) (hmodel : modelDbId < t.nextModelId) :
    (HubScope.createEndpoint t modelDbId protocol enabled).1.Valid := by
  have hreferences := HubTables.references_iff.mp h.references
  refine ⟨by simpa using h.unique, ?_, HubTables.references_iff.mpr ?_, by simpa using h.ids⟩
  · rw [pairs_createEndpoint]
    split_ifs with hmem
    · exact h.pairs
    · rw [← List.concat_eq_append, List.nodup_concat]
      exact ⟨hmem, h.pairs⟩
  · rw [pairs_createEndpoint, nextModelId_createEndpoint]
    split_ifs with hmem
    · exact hreferences
    · exact List.forall_mem_append.mpr ⟨hreferences, by simpa using hmodel⟩

theorem HubTables.Valid.applyCreationDefaults (h : t.Valid) :
    (HubScope.applyCreationDefaults t endpointId protocol).Valid where
  unique := by simpa using h.unique
  pairs := by simpa using h.pairs
  references := by
    rw [HubTables.references_iff, pairs_applyCreationDefaults, nextModelId_applyCreationDefaults]
    exact HubTables.references_iff.mp h.references
  ids := by simpa using h.ids

/-! ### Registration -/

/-- What registering the listed models does to the models: each is there, active and classified
anew, as the row it was if there was one; other rows stay. -/
structure Registered (classify : String → String × String) (hub : ℕ) (ids : List String)
    (before after : List ModelRow) : Prop where
  others : ∀ m, ¬ (m.hubId = hub ∧ m.modelId ∈ ids) → (m ∈ after ↔ m ∈ before)
  listed : ∀ id ∈ ids, ∃ m ∈ after, m.Keyed hub id
  refreshed : ∀ m ∈ after, m.hubId = hub → m.modelId ∈ ids →
    m.status = .active ∧ (m.capability, m.family) = classify m.modelId
  kept : ∀ m ∈ before, m.hubId = hub → m.modelId ∈ ids → m.refresh (classify m.modelId) ∈ after

variable {classify : String → String × String} {ids : List String} {a b c : List ModelRow}

theorem Registered.nil : Registered classify hub [] a a where
  others _ _ := Iff.rfl
  listed _ h := nomatch h
  refreshed _ _ _ h := nomatch h
  kept _ _ _ h := nomatch h

theorem Registered.cons {id : String} (hab : Registered classify hub [id] a b)
    (hbc : Registered classify hub ids b c) : Registered classify hub (id :: ids) a c where
  others m hm := by
    have hid : ¬ (m.hubId = hub ∧ m.modelId ∈ [id]) := fun h =>
      hm ⟨h.1, List.mem_cons.mpr (Or.inl (List.mem_singleton.mp h.2))⟩
    have hids : ¬ (m.hubId = hub ∧ m.modelId ∈ ids) := fun h =>
      hm ⟨h.1, List.mem_cons_of_mem _ h.2⟩
    exact (hbc.others m hids).trans (hab.others m hid)
  listed x hx := by
    by_cases hmem : x ∈ ids
    · exact hbc.listed x hmem
    · obtain rfl : x = id := (List.mem_cons.mp hx).resolve_right hmem
      obtain ⟨m, hm, hkey⟩ := hab.listed x (List.mem_singleton_self x)
      exact ⟨m, (hbc.others m fun h => hmem (hkey.2 ▸ h.2)).mpr hm, hkey⟩
  refreshed m hm hhub hid := by
    by_cases hmem : m.modelId ∈ ids
    · exact hbc.refreshed m hm hhub hmem
    · have heq : m.modelId = id := (List.mem_cons.mp hid).resolve_right hmem
      exact hab.refreshed m ((hbc.others m fun h => hmem h.2).mp hm) hhub
        (List.mem_singleton.mpr heq)
  kept m hm hhub hid := by
    by_cases heq : m.modelId = id
    · have hb := hab.kept m hm hhub (List.mem_singleton.mpr heq)
      by_cases hmem : m.modelId ∈ ids
      -- listed again: the row is refreshed twice
      · exact hbc.kept (m.refresh (classify m.modelId)) hb hhub hmem
      · exact (hbc.others (m.refresh (classify m.modelId)) fun h => hmem h.2).mpr hb
    · have hmem : m.modelId ∈ ids := (List.mem_cons.mp hid).resolve_left heq
      have hb : m ∈ b := (hab.others m fun h => heq (List.mem_singleton.mp h.2)).mpr hm
      exact hbc.kept m hb hhub hmem

/-- A row survives registration, as it was or active. -/
theorem Registered.survives (h : Registered classify hub ids a b) {m : ModelRow} (hm : m ∈ a) :
    ∃ m' ∈ b, m'.id = m.id ∧ m'.Keyed m.hubId m.modelId ∧ m'.origin = m.origin ∧
      (m'.status = .active ∨ m'.status = m.status) := by
  by_cases hlisted : m.hubId = hub ∧ m.modelId ∈ ids
  · exact ⟨_, h.kept m hm hlisted.1 hlisted.2, rfl, ⟨rfl, rfl⟩, rfl, Or.inl rfl⟩
  · exact ⟨m, (h.others m hlisted).mpr hm, rfl, ⟨rfl, rfl⟩, rfl, Or.inr rfl⟩

variable (t hub modelId cls) in
/-- The row that registration returns is the one in the table. -/
theorem createDiscoveredModel_row :
    (createDiscoveredModel t hub modelId cls).2.1 ∈
        (createDiscoveredModel t hub modelId cls).1.models ∧
      (createDiscoveredModel t hub modelId cls).2.1.Keyed hub modelId ∧
      (createDiscoveredModel t hub modelId cls).2.1.capability = cls.1 := by
  unfold createDiscoveredModel
  split
  · exact ⟨List.mem_append_right _ (List.mem_singleton_self _), ⟨rfl, rfl⟩, rfl⟩
  · rename_i m hm
    have hkey : m.Keyed hub modelId := by simpa using List.find?_some hm
    refine ⟨List.mem_map.mpr ⟨m, List.mem_of_find?_eq_some hm, if_pos hkey⟩, hkey, rfl⟩

@[simp] theorem pairs_createDiscoveredModel :
    (createDiscoveredModel t hub modelId cls).1.pairs = t.pairs := by
  unfold createDiscoveredModel
  split <;> rfl

@[simp] theorem alerts_createDiscoveredModel :
    (createDiscoveredModel t hub modelId cls).1.alerts = t.alerts := by
  unfold createDiscoveredModel
  split <;> rfl

theorem Registered.single : Registered classify hub [modelId] t.models
    (createDiscoveredModel t hub modelId (classify modelId)).1.models := by
  unfold createDiscoveredModel
  split
  · rename_i hnone
    -- no row has the key: a new one is appended
    have hnew : ∀ m ∈ t.models, ¬ (m.hubId = hub ∧ m.modelId ∈ [modelId]) :=
      fun m hm hkey => List.find?_eq_none.mp hnone m hm
        (decide_eq_true ⟨hkey.1, List.mem_singleton.mp hkey.2⟩)
    constructor
    case others =>
      intro m hm
      rw [List.mem_append, or_iff_left]
      intro hmem
      rw [List.mem_singleton.mp hmem] at hm
      exact hm ⟨rfl, List.mem_singleton_self _⟩
    case listed =>
      intro id hid
      rw [List.mem_singleton.mp hid]
      exact ⟨_, List.mem_append_right _ (List.mem_singleton_self _), rfl, rfl⟩
    case refreshed =>
      intro m hm hhub hid
      rcases List.mem_append.mp hm with hm | hm
      · exact absurd ⟨hhub, hid⟩ (hnew m hm)
      · rw [List.mem_singleton.mp hm]
        exact ⟨rfl, rfl⟩
    case kept => exact fun m hm hhub hid => absurd ⟨hhub, hid⟩ (hnew m hm)
  · -- a row has the key: it becomes active again, and its classification is refreshed
    rename_i m₀ hfound
    constructor
    case others =>
      intro m hm
      have hkey : ¬ m.Keyed hub modelId := fun h => hm ⟨h.1, List.mem_singleton.mpr h.2⟩
      rw [List.mem_map]
      constructor
      · rintro ⟨m', hm', rfl⟩
        split_ifs at hkey ⊢ with hold
        · exact absurd hold hkey
        · exact hm'
      · exact fun hmem => ⟨m, hmem, if_neg hkey⟩
    case listed =>
      intro id hid
      rw [List.mem_singleton.mp hid]
      have hkey : m₀.Keyed hub modelId := by simpa using List.find?_some hfound
      exact ⟨_, List.mem_map.mpr ⟨m₀, List.mem_of_find?_eq_some hfound, if_pos hkey⟩, hkey⟩
    case refreshed =>
      intro m hm hhub hid
      obtain ⟨m', -, rfl⟩ := List.mem_map.mp hm
      split_ifs at hhub hid ⊢ with hold
      · exact ⟨rfl, congrArg classify hold.2.symm⟩
      · exact absurd ⟨hhub, List.mem_singleton.mp hid⟩ hold
    case kept =>
      intro m hm hhub hid
      have hkey : m.Keyed hub modelId := ⟨hhub, List.mem_singleton.mp hid⟩
      refine List.mem_map.mpr ⟨m, hm, ?_⟩
      rw [if_pos hkey, hkey.2]

/-- A row that is active and classified already is left as it is. -/
theorem createDiscoveredModel_of_fresh (hexists : ∃ m ∈ t.models, m.Keyed hub modelId)
    (hfresh : ∀ m ∈ t.models, m.Keyed hub modelId → m.refresh cls = m) :
    (createDiscoveredModel t hub modelId cls).1 = t := by
  unfold createDiscoveredModel
  split
  · rename_i hnone
    obtain ⟨m, hm, hkey⟩ := hexists
    exact absurd hkey (by simpa using List.find?_eq_none.mp hnone m hm)
  · have hsame : (t.models.map fun x => if x.Keyed hub modelId then x.refresh cls else x) =
        t.models := by
      rw [List.map_congr_left (g := id), List.map_id]
      intro m hm
      split_ifs with hkey
      · exact hfresh m hm hkey
      · rfl
    simp only [hsame]

end HubScope
