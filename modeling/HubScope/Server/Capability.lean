import HubScope.Server.ModelPatch

/-!
# Endpoints after a change of capability

A change of capability is to leave the model callable on the protocols the capability implies. The
missing endpoints are created and the surplus ones disabled, but an endpoint that is there and
disabled stays so. Every change disables the endpoints of the capability before it, so switching
back finds them disabled.

## Main definitions

* `HubTables.CallableOn` — a model has an enabled endpoint of a protocol
* `HubTables.EndpointKeys` — ids are keys of the endpoints
* `patched` — the tables after a request in which nothing fails

## Main results

* `callableOn_reconciled` — on which protocols a model is callable afterwards
* `callableOn_patched_iff` — they are those of the capability just when none of their endpoints
  was disabled; repeating changes nothing, and switching back leaves the model not callable
-/

set_option autoImplicit false

namespace HubScope

namespace HubTables

/-- The model has an enabled endpoint of the protocol. -/
def CallableOn (t : HubTables) (modelDbId : ℕ) (protocol : String) : Prop :=
  ∃ e ∈ t.endpoints, (e.modelDbId = modelDbId ∧ e.protocol = protocol) ∧ e.enabled = true

/-- The ids of endpoints are distinct, and smaller than the next one. -/
structure EndpointKeys (t : HubTables) : Prop where
  nodup : (t.endpoints.map (·.id)).Nodup
  lt_next : ∀ e ∈ t.endpoints, e.id < t.nextEndpointId

end HubTables

/-- An endpoint without its interval. -/
structure EndpointCore where
  id : ℕ
  modelDbId : ℕ
  protocol : String
  enabled : Bool

def EndpointRow.core (e : EndpointRow) : EndpointCore :=
  ⟨e.id, e.modelDbId, e.protocol, e.enabled⟩

def HubTables.cores (t : HubTables) : List EndpointCore := t.endpoints.map (·.core)

variable {t t' : HubTables} {id modelDbId : ℕ} {m : ModelRow} {protocol capability : String}
  {s : HubTables × List String} {req : PatchModelRequest} {text : String}

/-! ### What is created -/

theorem cores_createEndpoint {enabled : Bool} :
    (createEndpoint t modelDbId protocol enabled).1.cores =
      if (modelDbId, protocol) ∈ t.pairs then t.cores
      else t.cores ++ [⟨t.nextEndpointId, modelDbId, protocol, enabled⟩] := by
  have hmem : (modelDbId, protocol) ∈ t.pairs ↔
      ∃ e ∈ t.endpoints, e.modelDbId = modelDbId ∧ e.protocol = protocol := by
    simp [HubTables.pairs]
  rw [createEndpoint]
  cases hfind : t.endpoints.find? fun e => e.modelDbId = modelDbId ∧ e.protocol = protocol with
  | some e =>
    have hpair : (modelDbId, protocol) ∈ t.pairs :=
      hmem.mpr ⟨e, List.mem_of_find?_eq_some hfind, by simpa using List.find?_some hfind⟩
    rw [if_pos hpair]
  | none =>
    rw [if_neg, HubTables.cores, List.map_append]
    · rfl
    · rw [hmem]
      rintro ⟨e, he, hpair⟩
      simpa [hpair] using List.find?_eq_none.mp hfind e he

theorem cores_applyCreationDefaults :
    (applyCreationDefaults t id protocol).cores = t.cores := by
  rw [applyCreationDefaults]
  split_ifs
  · rw [HubTables.cores, HubTables.cores, List.map_map]
    refine List.map_congr_left fun e _ => ?_
    rw [Function.comp]
    split_ifs <;> rfl
  · rfl

theorem nextEndpointId_createEndpoint {enabled : Bool} :
    t.nextEndpointId ≤ (createEndpoint t modelDbId protocol enabled).1.nextEndpointId := by
  rw [createEndpoint]
  split
  · exact le_rfl
  · exact Nat.le_succ _

theorem nextEndpointId_applyCreationDefaults :
    (applyCreationDefaults t id protocol).nextEndpointId = t.nextEndpointId := by
  rw [applyCreationDefaults]
  split_ifs <;> rfl

/-- Endpoints that were there are kept, and others are enabled ones of the model, of the given
protocols, under new ids. -/
structure Supplied (modelDbId : ℕ) (protocols : List String) (t t' : HubTables) : Prop where
  kept : t.cores ⊆ t'.cores
  added : ∀ c ∈ t'.cores, c ∈ t.cores ∨
    t.nextEndpointId ≤ c.id ∧ c.modelDbId = modelDbId ∧ c.protocol ∈ protocols ∧ c.enabled = true
  next : t.nextEndpointId ≤ t'.nextEndpointId

theorem createMissing_succeed : (createMissing .succeed modelDbId s protocol).1 =
    let r := createEndpoint s.1 modelDbId protocol true
    if r.2.2 then applyCreationDefaults r.1 r.2.1.id protocol else r.1 := by
  by_cases hnew : (createEndpoint s.1 modelDbId protocol true).2.2 = true
  · simp [createMissing, PatchCalls.succeed, hnew]
  · simp [createMissing, PatchCalls.succeed, hnew]

theorem supplied_createMissing :
    Supplied modelDbId [protocol] s.1 (createMissing .succeed modelDbId s protocol).1 := by
  have hcores : (createMissing .succeed modelDbId s protocol).1.cores =
      (createEndpoint s.1 modelDbId protocol true).1.cores := by
    rw [createMissing_succeed]
    dsimp only
    split_ifs
    · exact cores_applyCreationDefaults
    · rfl
  have hnext : (createMissing .succeed modelDbId s protocol).1.nextEndpointId =
      (createEndpoint s.1 modelDbId protocol true).1.nextEndpointId := by
    rw [createMissing_succeed]
    dsimp only
    split_ifs
    · exact nextEndpointId_applyCreationDefaults
    · rfl
  -- the defaults are no part of the core, so only the new row shows
  rw [cores_createEndpoint] at hcores
  refine ⟨?_, ?_, hnext ▸ nextEndpointId_createEndpoint⟩
  · rw [hcores]
    split_ifs
    · exact List.Subset.refl _
    · exact List.subset_append_left _ _
  · intro c hc
    rw [hcores] at hc
    split_ifs at hc
    · exact Or.inl hc
    · rcases List.mem_append.mp hc with hc | hc
      · exact Or.inl hc
      · rw [List.mem_singleton.mp hc]
        exact Or.inr ⟨le_rfl, rfl, List.mem_singleton_self _, rfl⟩

theorem supplied_foldl (protocols : List String) (s : HubTables × List String) :
    Supplied modelDbId protocols s.1
      (protocols.foldl (createMissing .succeed modelDbId) s).1 := by
  induction protocols generalizing s with
  | nil => exact ⟨List.Subset.refl _, fun c hc => Or.inl hc, le_rfl⟩
  | cons p protocols ih =>
    have hfirst : Supplied modelDbId [p] s.1 (createMissing .succeed modelDbId s p).1 :=
      supplied_createMissing
    have hrest := ih (createMissing .succeed modelDbId s p)
    refine ⟨fun c hc => hrest.kept (hfirst.kept hc), ?_, hfirst.next.trans hrest.next⟩
    intro c hc
    rcases hrest.added c hc with hc | ⟨hid, hmodel, hprotocol, henabled⟩
    · rcases hfirst.added c hc with hc | ⟨hid, hmodel, hprotocol, henabled⟩
      · exact Or.inl hc
      · exact Or.inr ⟨hid, hmodel, List.mem_cons.mpr (Or.inl (List.mem_singleton.mp hprotocol)),
          henabled⟩
    · exact Or.inr ⟨hfirst.next.trans hid, hmodel, List.mem_cons_of_mem _ hprotocol, henabled⟩

/-! ### Where a model is callable -/

/-- With trials that succeed every missing protocol is created. -/
theorem mem_protocolsToCreate_succeed {missing : List String} :
    protocol ∈ protocolsToCreate .succeed missing ↔ protocol ∈ missing := by
  refine ⟨mem_protocolsToCreate, fun hmem => ?_⟩
  by_cases hchat : protocol ∈ modelProtocols
  · refine List.mem_append_left _ (List.mem_filter.mpr ⟨?_, ?_⟩)
    · exact List.mem_filter.mpr ⟨hmem, decide_eq_true hchat⟩
    · simp [PatchCalls.succeed]
  · exact List.mem_append_right _ (List.mem_filter.mpr ⟨hmem, decide_eq_true hchat⟩)

theorem mem_missingProtocols : protocol ∈ missingProtocols t id capability ↔
    protocol ∈ protocolsForCapability capability ∧ (id, protocol) ∉ t.pairs := by
  have hpair : protocol ∈ (t.listEndpointsByModelID id).map (·.protocol) ↔
      (id, protocol) ∈ t.pairs := by
    simp [HubTables.listEndpointsByModelID, HubTables.pairs, and_assoc]
  rw [missingProtocols, List.mem_filter, decide_eq_true_eq, hpair]

theorem mem_pairs_reconciled {pair : ℕ × String} :
    pair ∈ (reconciled .succeed t id capability).pairs ↔
      pair ∈ t.pairs ∨ ∃ p ∈ protocolsForCapability capability, pair = (id, p) := by
  rw [pairs_reconciled, mem_pairs_foldl_createMissing]
  constructor
  · rintro (hold | ⟨p, hp, -, rfl⟩)
    · exact Or.inl hold
    · exact Or.inr ⟨p, (mem_missingProtocols.mp (mem_protocolsToCreate hp)).1, rfl⟩
  · rintro (hold | ⟨p, hp, rfl⟩)
    · exact Or.inl hold
    · by_cases hpair : (id, p) ∈ t.pairs
      · exact Or.inl hpair
      · refine Or.inr ⟨p, mem_protocolsToCreate_succeed.mpr ?_, by simp [PatchCalls.succeed], rfl⟩
        exact mem_missingProtocols.mpr ⟨hp, hpair⟩

/-- An enabled endpoint of the model that is surplus is disabled. -/
theorem disables_succeed {e : EndpointRow} {newProtocols : List String} :
    Disables .succeed newProtocols e ↔ e.protocol ∉ newProtocols ∧ e.enabled = true :=
  and_iff_left (by simp [PatchCalls.succeed])

/-- The endpoints that a successful change disables. -/
def surplusIds (t : HubTables) (id : ℕ) (capability : String) : List ℕ :=
  ((t.listEndpointsByModelID id).filter fun e =>
    Disables .succeed (protocolsForCapability capability) e).map (·.id)

theorem mem_surplusIds {k : ℕ} : k ∈ surplusIds t id capability ↔
    ∃ e ∈ t.endpoints, e.id = k ∧ e.modelDbId = id ∧
      e.protocol ∉ protocolsForCapability capability ∧ e.enabled = true := by
  rw [surplusIds, List.mem_map]
  refine exists_congr fun e => ?_
  rw [List.mem_filter, HubTables.mem_listEndpointsByModelID, decide_eq_true_eq, disables_succeed]
  tauto

/-- An enabled endpoint after the change is one before the disabling that was not disabled. -/
theorem mem_reconciled_iff {e : EndpointRow} (henabled : e.enabled = true) :
    e ∈ (reconciled .succeed t id capability).endpoints ↔
      e ∈ ((protocolsToCreate .succeed (missingProtocols t id capability)).foldl
        (createMissing .succeed id) (t, [])).1.endpoints ∧ e.id ∉ surplusIds t id capability := by
  rw [reconciled, List.mem_map]
  constructor
  · rintro ⟨x, hx, rfl⟩
    rw [EndpointRow.disableIn] at henabled ⊢
    split_ifs at henabled ⊢ with hmem
    · exact ⟨hx, hmem⟩
  · rintro ⟨he, hmem⟩
    exact ⟨e, he, if_neg hmem⟩

/-- After a successful change the model is callable on a protocol of the capability where it was
callable on it before or had no endpoint of it. -/
theorem callableOn_of_reconciled
    (h : (reconciled .succeed t id capability).CallableOn id protocol) :
    protocol ∈ protocolsForCapability capability ∧
      (t.CallableOn id protocol ∨ (id, protocol) ∉ t.pairs) := by
  obtain ⟨e, he, ⟨hmodel, rfl⟩, henabled⟩ := h
  obtain ⟨he, hkept⟩ := (mem_reconciled_iff henabled).mp he
  have hsupplied := @supplied_foldl id
    (protocolsToCreate .succeed (missingProtocols t id capability)) (t, [])
  rcases hsupplied.added e.core (List.mem_map_of_mem he) with hold | ⟨-, -, hnew, -⟩
  · obtain ⟨x, hx, hcore⟩ := List.mem_map.mp hold
    have hid : x.id = e.id := congrArg EndpointCore.id hcore
    have hmodelx : x.modelDbId = id := (congrArg EndpointCore.modelDbId hcore).trans hmodel
    have hprotocol : x.protocol = e.protocol := congrArg EndpointCore.protocol hcore
    have henabledx : x.enabled = true := (congrArg EndpointCore.enabled hcore).trans henabled
    refine ⟨?_, Or.inl ⟨x, hx, ⟨hmodelx, hprotocol⟩, henabledx⟩⟩
    -- otherwise it would have been disabled
    by_contra hsurplus
    exact hkept (mem_surplusIds.mpr ⟨x, hx, hid, hmodelx, hprotocol ▸ hsurplus, henabledx⟩)
  · have hmissing := mem_missingProtocols.mp (mem_protocolsToCreate hnew)
    exact ⟨hmissing.1, Or.inr hmissing.2⟩

theorem callableOn_reconciled (hkeys : t.EndpointKeys) :
    (reconciled .succeed t id capability).CallableOn id protocol ↔
      protocol ∈ protocolsForCapability capability ∧
        (t.CallableOn id protocol ∨ (id, protocol) ∉ t.pairs) := by
  refine ⟨callableOn_of_reconciled, ?_⟩
  rintro ⟨himplied, hbefore⟩
  have hsupplied := @supplied_foldl id
    (protocolsToCreate .succeed (missingProtocols t id capability)) (t, [])
  rcases hbefore with ⟨x, hx, ⟨hmodel, rfl⟩, henabled⟩ | hmissing
  · obtain ⟨e, he, hcore⟩ := List.mem_map.mp (hsupplied.kept (List.mem_map_of_mem hx))
    have hid : e.id = x.id := congrArg EndpointCore.id hcore
    have henablede : e.enabled = true := (congrArg EndpointCore.enabled hcore).trans henabled
    refine ⟨e, (mem_reconciled_iff henablede).mpr ⟨he, ?_⟩, ⟨?_, ?_⟩, henablede⟩
    · -- the id is that of one endpoint, whose protocol is implied
      intro hmem
      obtain ⟨y, hy, hyid, -, hsurplus, -⟩ := mem_surplusIds.mp hmem
      obtain rfl : y = x := List.inj_on_of_nodup_map hkeys.nodup hy hx (hyid.trans hid)
      exact hsurplus himplied
    · exact (congrArg EndpointCore.modelDbId hcore).trans hmodel
    · exact congrArg EndpointCore.protocol hcore
  · have hcreated : (id, protocol) ∈ ((protocolsToCreate .succeed
        (missingProtocols t id capability)).foldl (createMissing .succeed id) (t, [])).1.pairs := by
      rw [← pairs_reconciled]
      exact mem_pairs_reconciled.mpr (Or.inr ⟨protocol, himplied, rfl⟩)
    obtain ⟨e, he, heq⟩ := List.mem_map.mp hcreated
    cases heq
    rcases hsupplied.added e.core (List.mem_map_of_mem he) with hold | ⟨hid, -, -, henabled⟩
    · obtain ⟨x, hx, hcore⟩ := List.mem_map.mp hold
      have hpair : (x.modelDbId, x.protocol) = (e.modelDbId, e.protocol) :=
        Prod.ext (congrArg EndpointCore.modelDbId hcore) (congrArg EndpointCore.protocol hcore)
      exact absurd (List.mem_map.mpr ⟨x, hx, hpair⟩) hmissing
    · refine ⟨e, (mem_reconciled_iff henabled).mpr ⟨he, ?_⟩, ⟨rfl, rfl⟩, henabled⟩
      -- its id is new, those disabled are old
      intro hmem
      obtain ⟨y, hy, hyid, -⟩ := mem_surplusIds.mp hmem
      have hold : y.id < t.nextEndpointId := hkeys.lt_next y hy
      have hnew : t.nextEndpointId ≤ e.id := hid
      omega

/-- A model in line with the capability is left as it is. -/
theorem reconciled_of_settled
    (hpairs : ∀ p ∈ protocolsForCapability capability, (id, p) ∈ t.pairs)
    (hcallable : ∀ p, t.CallableOn id p → p ∈ protocolsForCapability capability) :
    reconciled .succeed t id capability = t := by
  have hmissing : missingProtocols t id capability = [] := by
    rw [List.eq_nil_iff_forall_not_mem]
    intro p hp
    exact (mem_missingProtocols.mp hp).2 (hpairs p (mem_missingProtocols.mp hp).1)
  have hsurplus : ((t.listEndpointsByModelID id).filter fun e =>
      Disables .succeed (protocolsForCapability capability) e) = [] := by
    rw [List.filter_eq_nil_iff]
    intro e he hdisables
    obtain ⟨he, hmodel⟩ := HubTables.mem_listEndpointsByModelID.mp he
    have hsurplus := disables_succeed.mp (of_decide_eq_true hdisables)
    exact hsurplus.1 (hcallable e.protocol ⟨e, he, ⟨hmodel, rfl⟩, hsurplus.2⟩)
  rw [reconciled, hsurplus, hmissing, List.map_nil, EndpointRow.disableIn_nil]
  simp [protocolsToCreate, trialProtocols]

/-! ### Successful requests -/

/-- The tables once the fields of a request are stored. -/
def storedFields (t : HubTables) (id : ℕ) (req : PatchModelRequest) : HubTables :=
  let t := match req.evalEnabled with
    | some enabled => t.setModelEvalEnabled id enabled
    | none => t
  match req.capability with
  | some text => t.setModelCapability id (trimSpace text)
  | none => t

/-- The row of the model with the fields of a request. -/
def ModelRow.withFields (m : ModelRow) (req : PatchModelRequest) : ModelRow :=
  { m with
    evalEnabled := req.evalEnabled.getD m.evalEnabled
    capability := (req.capability.map trimSpace).getD m.capability }

theorem ModelRow.withFields_withFields (m : ModelRow) :
    (m.withFields req).withFields req = m.withFields req := by
  rw [withFields, withFields]
  cases req.evalEnabled <;> cases req.capability <;> rfl

theorem storedFields_eq : storedFields t id req =
    { t with models := t.models.map fun m => if m.id = id then m.withFields req else m } := by
  have hnone : t = { t with models := t.models.map fun m => if m.id = id then m else m } := by simp
  -- two writes of one row are one
  have htwice (enabled : Bool) (text : String) :
      (t.setModelEvalEnabled id enabled).setModelCapability id text =
        { t with models := t.models.map fun m =>
            if m.id = id then { m with evalEnabled := enabled, capability := text } else m } := by
    rw [HubTables.setModelCapability, HubTables.setModelEvalEnabled, List.map_map]
    congr 2
    funext m
    by_cases hid : m.id = id
    · simp [hid]
    · simp [hid]
  rw [storedFields]
  simp only [ModelRow.withFields]
  cases req.evalEnabled with
  | none =>
    cases req.capability with
    | none => exact hnone
    | some text => rfl
  | some enabled =>
    cases req.capability with
    | none => rfl
    | some text => exact htwice enabled (trimSpace text)

@[simp] theorem endpoints_storedFields : (storedFields t id req).endpoints = t.endpoints := by
  rw [storedFields_eq]

@[simp] theorem nextEndpointId_storedFields :
    (storedFields t id req).nextEndpointId = t.nextEndpointId := by
  rw [storedFields_eq]

@[simp] theorem pairs_storedFields : (storedFields t id req).pairs = t.pairs := by
  rw [HubTables.pairs, HubTables.pairs, endpoints_storedFields]

@[simp] theorem callableOn_storedFields :
    (storedFields t id req).CallableOn modelDbId protocol ↔ t.CallableOn modelDbId protocol := by
  rw [HubTables.CallableOn, HubTables.CallableOn, endpoints_storedFields]

theorem HubTables.EndpointKeys.storedFields (h : t.EndpointKeys) :
    (HubScope.storedFields t id req).EndpointKeys where
  nodup := by simpa using h.nodup
  lt_next := by simpa using h.lt_next

/-- Storing the fields again changes nothing, whatever happened to the endpoints since. -/
theorem storedFields_storedFields (h : t'.models = (storedFields t id req).models) :
    storedFields t' id req = t' := by
  have hmodels : (t'.models.map fun m => if m.id = id then m.withFields req else m) =
      t'.models := by
    rw [h, storedFields_eq, List.map_map]
    refine List.map_congr_left fun m _ => ?_
    rw [Function.comp]
    by_cases hid : m.id = id
    · have hkept : (m.withFields req).id = id := hid
      rw [if_pos hid, if_pos hkept, ModelRow.withFields_withFields]
    · rw [if_neg hid, if_neg hid]
  rw [storedFields_eq, hmodels]

/-- The tables after a request in which every trial and store call succeeds. -/
def patched (t : HubTables) (id : ℕ) (req : PatchModelRequest) : HubTables :=
  (handlePatchModel .succeed t (some id) (some req)).1

/-- The request asks for this capability. -/
def PatchModelRequest.AsksFor (req : PatchModelRequest) (capability : String) : Prop :=
  req.capability.map trimSpace = some capability

/-- A request for a capability that exists succeeds and reconciles the endpoints. -/
theorem handlePatchModel_succeed (hmodel : t.getModel id = some m) (hasks : req.AsksFor capability)
    (hvalid : capability ∈ validCapabilities) :
    (handlePatchModel .succeed t (some id) (some req)).2.isError = false ∧
      patched t id req = reconciled .succeed (storedFields t id req) id capability := by
  obtain ⟨text, htext, rfl⟩ := Option.map_eq_some_iff.mp hasks
  obtain rfl : m.id = id := HubTables.id_of_getModel hmodel
  have hcapability (t : HubTables) (m : ModelRow) (detail : List PatchDetail) :
      (patchCapability .succeed t m req detail).2.isError = false ∧
        (patchCapability .succeed t m req detail).1 = reconciled .succeed
          (t.setModelCapability m.id (trimSpace text)) m.id (trimSpace text) := by
    simp [patchCapability, htext, hvalid, reconcileEndpoints_eq, finishPatch, PatchCalls.succeed,
      PatchAnswer.isError]
  have hrequest : handlePatchModel .succeed t (some m.id) (some req) =
      patchEvalEnabled .succeed t m req := by
    simp [handlePatchModel, PatchCalls.succeed, hmodel, htext]
  rw [patched, hrequest, patchEvalEnabled, storedFields]
  simp only [htext]
  cases req.evalEnabled with
  | none => exact hcapability t m []
  | some enabled => exact hcapability _ { m with evalEnabled := enabled } _

theorem getModel_patched (hmodel : t.getModel id = some m) (hasks : req.AsksFor capability)
    (hvalid : capability ∈ validCapabilities) :
    (patched t id req).getModel id = some (m.withFields req) := by
  rw [(handlePatchModel_succeed hmodel hasks hvalid).2, getModel_reconciled, storedFields_eq]
  have hfind := @HubTables.find_map_id id (fun m => m.withFields req) (fun _ => rfl) t.models
  rw [HubTables.getModel] at hmodel ⊢
  rw [hfind, hmodel, Option.map_some]

/-- The protocols of two capabilities are disjoint. -/
theorem notMem_protocolsForCapability : ∀ c ∈ validCapabilities, ∀ c' ∈ validCapabilities, c' ≠ c →
    ∀ p ∈ protocolsForCapability c, p ∉ protocolsForCapability c' := by
  decide

/-- **A change of capability in which nothing fails leaves the model callable on just the
protocols of the capability if and only if no endpoint of these was disabled before. Repeating
the change does nothing. Changing to another capability and back leaves the model callable on
no protocol.** -/
theorem callableOn_patched_iff (t : HubTables) (id : ℕ) (m : ModelRow) (req : PatchModelRequest)
    (capability : String) (hkeys : t.EndpointKeys) (hmodel : t.getModel id = some m)
    (hasks : req.AsksFor capability) (hvalid : capability ∈ validCapabilities) :
    ((∀ p, (patched t id req).CallableOn id p ↔ p ∈ protocolsForCapability capability) ↔
        ∀ p ∈ protocolsForCapability capability, (id, p) ∈ t.pairs → t.CallableOn id p) ∧
      patched (patched t id req) id req = patched t id req ∧
      ∀ (req' : PatchModelRequest) (capability' : String), req'.AsksFor capability' →
        capability' ∈ validCapabilities → capability' ≠ capability →
          ∀ p, ¬ (patched (patched (patched t id req) id req') id req).CallableOn id p := by
  have hpatched := (handlePatchModel_succeed hmodel hasks hvalid).2
  have hmodel' := getModel_patched hmodel hasks hvalid
  -- after the change every protocol of the capability has an endpoint
  have hpairs : ∀ p ∈ protocolsForCapability capability, (id, p) ∈ (patched t id req).pairs := by
    intro p hp
    rw [hpatched]
    exact mem_pairs_reconciled.mpr (Or.inr ⟨p, hp, rfl⟩)
  have hcallable : ∀ p, (patched t id req).CallableOn id p →
      p ∈ protocolsForCapability capability := by
    intro p hp
    rw [hpatched] at hp
    exact (callableOn_of_reconciled hp).1
  refine ⟨?_, ?_, ?_⟩
  · simp only [hpatched, callableOn_reconciled hkeys.storedFields, callableOn_storedFields,
      pairs_storedFields]
    constructor
    · exact fun h p hp hpair => ((h p).mpr hp).2.resolve_right (not_not.mpr hpair)
    · intro h p
      refine ⟨And.left, fun hp => ⟨hp, ?_⟩⟩
      by_cases hpair : (id, p) ∈ t.pairs
      · exact Or.inl (h p hp hpair)
      · exact Or.inr hpair
  · have hstored : storedFields (patched t id req) id req = patched t id req := by
      refine storedFields_storedFields (t := t) ?_
      rw [hpatched]
      exact models_foldl_createMissing _ _
    rw [(handlePatchModel_succeed hmodel' hasks hvalid).2, hstored]
    exact reconciled_of_settled hpairs hcallable
  · intro req' capability' hasks' hvalid' hother p hp
    have hback := handlePatchModel_succeed hmodel' hasks' hvalid'
    have hmodel'' := getModel_patched hmodel' hasks' hvalid'
    rw [(handlePatchModel_succeed hmodel'' hasks hvalid).2] at hp
    obtain ⟨himplied, hbefore⟩ := callableOn_of_reconciled hp
    rw [callableOn_storedFields, pairs_storedFields, hback.2] at hbefore
    rcases hbefore with hcall | hmissing
    · -- in between only endpoints of the other capability are enabled
      exact notMem_protocolsForCapability capability hvalid capability' hvalid' hother p himplied
        (callableOn_of_reconciled hcall).1
    · refine hmissing (mem_pairs_reconciled.mpr (Or.inl ?_))
      rw [pairs_storedFields]
      exact hpairs p himplied

/-- An image model whose endpoints a change to another capability disabled. -/
def disabledImageModel : HubTables where
  models := [⟨1, 1, "gpt-image-2", .manual, .active, "chat", "", true⟩]
  endpoints := [⟨1, 1, protocolImagesGeneration, false, none⟩,
    ⟨2, 1, protocolImagesEdit, false, none⟩]
  alerts := []
  nextModelId := 2
  nextEndpointId := 3

/-- A chat model that never was an image model. -/
def enabledChatModel : HubTables where
  models := [⟨1, 1, "gpt-image-2", .manual, .active, "chat", "", true⟩]
  endpoints := [⟨1, 1, protocolOpenAI, true, none⟩]
  alerts := []
  nextModelId := 2
  nextEndpointId := 2

/-- Changed to images it is callable on just their protocols, a repetition does nothing, and
changed to chat and back it is not callable. -/
theorem callableOn_patched_iff_image :
    let toImage : PatchModelRequest := ⟨some "image", none⟩
    let toChat : PatchModelRequest := ⟨some "chat", none⟩
    let changed := patched enabledChatModel 1 toImage
    (∀ p, changed.CallableOn 1 p ↔ p ∈ protocolsForCapability "image") ∧
      patched changed 1 toImage = changed ∧
      ∀ p, ¬ (patched (patched changed 1 toChat) 1 toImage).CallableOn 1 p := by
  intro toImage toChat changed
  have hasks : toImage.AsksFor "image" := congrArg some (by decide)
  have hasks' : toChat.AsksFor "chat" := congrArg some (by decide)
  obtain ⟨hiff, hagain, hback⟩ := callableOn_patched_iff enabledChatModel 1 _ toImage "image"
    ⟨by decide, by decide⟩ rfl hasks (by decide)
  have hnone : ∀ p ∈ protocolsForCapability "image", (1, p) ∉ enabledChatModel.pairs := by decide
  exact ⟨hiff.mpr fun p hp hpair => absurd hpair (hnone p hp), hagain,
    hback toChat "chat" hasks' (by decide) (by decide)⟩

/-- Changed back to images the model is not callable. -/
theorem not_callableOn_patched :
    ¬ ∀ (t : HubTables) (id : ℕ) (m : ModelRow) (req : PatchModelRequest) (capability : String),
      t.EndpointKeys → t.getModel id = some m → req.AsksFor capability →
        capability ∈ validCapabilities →
          ∀ p, (patched t id req).CallableOn id p ↔ p ∈ protocolsForCapability capability := by
  intro h
  have hcallable := (h disabledImageModel 1 _ ⟨some "image", none⟩ "image" ⟨by decide, by decide⟩ rfl
    (congrArg some (by decide)) (by decide) protocolImagesEdit).mpr (by decide)
  revert hcallable
  simp only [HubTables.CallableOn]
  decide

end HubScope
