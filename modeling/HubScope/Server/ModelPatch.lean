import HubScope.Server.Users
import HubScope.Store.Models

/-!
# Changing a model

`PATCH /api/models/{id}` takes two fields, of which one must be there. The evaluation switch is
stored as it is. A capability is checked, stored, and then the endpoints of the model are brought
in line with it: protocols the capability implies and the model lacks are created, the chat ones
after a trial; enabled endpoints of other protocols are disabled.

Which store calls fail and which trials succeed is a parameter.

## Main definitions

* `PatchCalls` — how each store call and trial ends
* `handlePatchModel` — the request, in the stages of the handler
* `WritesLast` — nothing fails after a write that changed something

## Main results

* `handlePatchModel_atomic_iff` — an error leaves the model and its endpoints as they were just
  when nothing fails after a write that changed something
-/

set_option autoImplicit false

namespace HubScope

/-! ### Store calls -/

/-- The body of the request; an absent field is `none`. -/
structure PatchModelRequest where
  capability : Option String
  evalEnabled : Option Bool
  deriving DecidableEq

/-- How a write ends that reads the row back: before it wrote, after it wrote, or well. -/
inductive CallEnd
  | failed
  | lost
  | done
  deriving DecidableEq, Repr

/-- How the store calls of a request end, and which protocols answer their trial. -/
structure PatchCalls where
  getModel : Bool
  setModelEvalEnabled : Bool
  setModelCapability : Bool
  listEndpoints : Bool
  getHub : Bool
  trial : String → Bool
  createEndpoint : String → CallEnd
  applyCreationDefaults : String → Bool
  setEndpointEnabled : ℕ → CallEnd
  listEndpointsAgain : Bool

/-- All calls and trials succeed. -/
def PatchCalls.succeed : PatchCalls where
  getModel := true
  setModelEvalEnabled := true
  setModelCapability := true
  listEndpoints := true
  getHub := true
  trial := fun _ => true
  createEndpoint := fun _ => .done
  applyCreationDefaults := fun _ => true
  setEndpointEnabled := fun _ => .done
  listEndpointsAgain := true

namespace HubTables

def getModel (t : HubTables) (id : ℕ) : Option ModelRow := t.models.find? (·.id = id)

/-- The endpoints of a model; rows stand in the order of their ids. -/
def listEndpointsByModelID (t : HubTables) (modelDbId : ℕ) : List EndpointRow :=
  t.endpoints.filter (·.modelDbId = modelDbId)

def setModelEvalEnabled (t : HubTables) (id : ℕ) (enabled : Bool) : HubTables :=
  { t with models := t.models.map fun m =>
      if m.id = id then { m with evalEnabled := enabled } else m }

def setModelCapability (t : HubTables) (id : ℕ) (capability : String) : HubTables :=
  { t with models := t.models.map fun m =>
      if m.id = id then { m with capability := capability } else m }

def setEndpointEnabled (t : HubTables) (id : ℕ) (enabled : Bool) : HubTables :=
  { t with endpoints := t.endpoints.map fun e =>
      if e.id = id then { e with enabled := enabled } else e }

end HubTables

/-! ### The handler -/

def validCapabilities : List String := ["chat", "image", "video"]

/-- The chat protocols, in the order in which endpoints are tried. -/
def modelProtocols : List String := [protocolAnthropic, protocolOpenAI]

/-- What the audit row says was done. -/
inductive PatchDetail
  | evalEnabled (old new : Bool)
  | capability (old new : String) (created disabled : List String)
  | noChange
  deriving DecidableEq

/-- The response; a success carries the model, its endpoints and what is audited. -/
inductive PatchAnswer
  | error (status : ℕ) (message : String)
  | ok (model : ModelRow) (endpoints : List EndpointRow) (detail : List PatchDetail)
  deriving DecidableEq

def PatchAnswer.isError : PatchAnswer → Bool
  | error .. => true
  | ok .. => false

/-- The protocols that answer; those created without a trial always do. -/
def trialProtocols (calls : PatchCalls) (protocols : List String) : List String :=
  protocols.filter fun p => isTrialFreeProtocol p || calls.trial p

/-- Create one endpoint and note it; an error is logged and passed over. -/
def createMissing (calls : PatchCalls) (modelDbId : ℕ) (s : HubTables × List String)
    (protocol : String) : HubTables × List String :=
  match calls.createEndpoint protocol with
  | .failed => s
  | .lost => ((createEndpoint s.1 modelDbId protocol true).1, s.2)
  | .done =>
    let (t, e, isNew) := createEndpoint s.1 modelDbId protocol true
    if isNew then
      (if calls.applyCreationDefaults protocol then applyCreationDefaults t e.id protocol else t,
        s.2 ++ [protocol])
    else (t, s.2)

/-- Disable an endpoint of a protocol that is no longer implied, and note it. -/
def disableSurplus (calls : PatchCalls) (newProtocols : List String) (s : HubTables × List String)
    (e : EndpointRow) : HubTables × List String :=
  if e.protocol ∉ newProtocols ∧ e.enabled = true then
    match calls.setEndpointEnabled e.id with
    | .failed => s
    | .lost => (s.1.setEndpointEnabled e.id false, s.2)
    | .done => (s.1.setEndpointEnabled e.id false, s.2 ++ [e.protocol])
  else s

/-- The protocols of a capability that the model has no endpoint of. -/
def missingProtocols (t : HubTables) (modelDbId : ℕ) (capability : String) : List String :=
  (protocolsForCapability capability).filter fun p =>
    p ∉ (t.listEndpointsByModelID modelDbId).map (·.protocol)

/-- The missing protocols that are created: the chat ones that answer, then the others. -/
def protocolsToCreate (calls : PatchCalls) (missing : List String) : List String :=
  trialProtocols calls (missing.filter (· ∈ modelProtocols)) ++
    missing.filter (· ∉ modelProtocols)

/-- The endpoints are listed once more for the response. -/
def finishPatch (calls : PatchCalls) (t : HubTables) (m : ModelRow) (detail : List PatchDetail) :
    HubTables × PatchAnswer :=
  if calls.listEndpointsAgain then
    (t, .ok m (t.listEndpointsByModelID m.id) (if detail = [] then [.noChange] else detail))
  else (t, .error 500 "failed to load endpoints")

/-- Create what is missing and disable what is surplus, by the endpoints listed before. -/
def reconcileEndpoints (calls : PatchCalls) (t : HubTables) (m : ModelRow) (oldCap : String)
    (detail : List PatchDetail) : HubTables × PatchAnswer :=
  if calls.listEndpoints = false then (t, .error 500 "failed to load endpoints")
  else
    let existing := t.listEndpointsByModelID m.id
    let missing := missingProtocols t m.id m.capability
    if missing.filter (· ∈ modelProtocols) ≠ [] ∧ calls.getHub = false then
      (t, .error 500 "failed to load hub")
    else
      let (t, created) := (protocolsToCreate calls missing).foldl (createMissing calls m.id) (t, [])
      let (t, disabled) :=
        existing.foldl (disableSurplus calls (protocolsForCapability m.capability)) (t, [])
      finishPatch calls t m (detail ++ [.capability oldCap m.capability created disabled])

/-- The capability, checked and stored. -/
def patchCapability (calls : PatchCalls) (t : HubTables) (m : ModelRow) (req : PatchModelRequest)
    (detail : List PatchDetail) : HubTables × PatchAnswer :=
  match req.capability with
  | none => finishPatch calls t m detail
  | some text =>
    let newCap := trimSpace text
    if newCap ∉ validCapabilities then
      (t, .error 400 "capability must be one of: chat, image, video")
    else if calls.setModelCapability = false then
      (t, .error 500 "failed to update capability")
    else
      -- the same capability is reconciled too: it repairs endpoints that drifted
      reconcileEndpoints calls (t.setModelCapability m.id newCap) { m with capability := newCap }
        m.capability detail

/-- The switch, stored before the capability is looked at. -/
def patchEvalEnabled (calls : PatchCalls) (t : HubTables) (m : ModelRow)
    (req : PatchModelRequest) : HubTables × PatchAnswer :=
  match req.evalEnabled with
  | none => patchCapability calls t m req []
  | some enabled =>
    if calls.setModelEvalEnabled = false then (t, .error 500 "failed to update eval_enabled")
    else
      patchCapability calls (t.setModelEvalEnabled m.id enabled) { m with evalEnabled := enabled }
        req (if enabled ≠ m.evalEnabled then [.evalEnabled m.evalEnabled enabled] else [])

/-- The request. An id that is not a number and a body that is not JSON are `none`. -/
def handlePatchModel (calls : PatchCalls) (t : HubTables) (id : Option ℕ)
    (body : Option PatchModelRequest) : HubTables × PatchAnswer :=
  match id with
  | none => (t, .error 400 "invalid model id")
  | some id =>
    match if calls.getModel then t.getModel id else none with
    | none => (t, .error 404 "model not found")
    | some m =>
      match body with
      | none => (t, .error 400 "invalid JSON body")
      | some req =>
        if req.capability = none ∧ req.evalEnabled = none then
          (t, .error 400 "at least one of capability or eval_enabled is required")
        else patchEvalEnabled calls t m req

/-! ### What the stages write -/

variable {calls : PatchCalls} {t t' : HubTables} {m : ModelRow} {req : PatchModelRequest}
  {newProtocols protocols : List String} {existing : List EndpointRow} {id modelDbId : ℕ}
  {s : HubTables × List String} {protocol : String}

namespace HubTables

@[simp] theorem listEndpointsByModelID_setModelEvalEnabled {enabled : Bool} :
    (t.setModelEvalEnabled id enabled).listEndpointsByModelID modelDbId =
      t.listEndpointsByModelID modelDbId := rfl

@[simp] theorem listEndpointsByModelID_setModelCapability {capability : String} :
    (t.setModelCapability id capability).listEndpointsByModelID modelDbId =
      t.listEndpointsByModelID modelDbId := rfl

/-- A write to the row of an id changes that row and keeps its id. -/
theorem find_map_id {f : ModelRow → ModelRow} (hf : ∀ m, (f m).id = m.id) (models : List ModelRow) :
    (models.map fun m => if m.id = id then f m else m).find? (·.id = id) =
      (models.find? (·.id = id)).map f := by
  induction models with
  | nil => rfl
  | cons m models ih =>
    by_cases hid : m.id = id
    · simp [hid, hf]
    · simp [hid, ih]

theorem getModel_setModelEvalEnabled {enabled : Bool} :
    (t.setModelEvalEnabled id enabled).getModel id =
      (t.getModel id).map fun m => { m with evalEnabled := enabled } :=
  find_map_id (f := fun m => { m with evalEnabled := enabled }) (fun _ => rfl) t.models

theorem getModel_setModelCapability {capability : String} :
    (t.setModelCapability id capability).getModel id =
      (t.getModel id).map fun m => { m with capability := capability } :=
  find_map_id (f := fun m => { m with capability := capability }) (fun _ => rfl) t.models

theorem id_of_getModel (h : t.getModel id = some m) : m.id = id := by
  simpa using List.find?_some h

theorem mem_listEndpointsByModelID {e : EndpointRow} :
    e ∈ t.listEndpointsByModelID modelDbId ↔ e ∈ t.endpoints ∧ e.modelDbId = modelDbId := by
  rw [listEndpointsByModelID, List.mem_filter, decide_eq_true_eq]

end HubTables

/-- The endpoint is surplus and its disabling writes. -/
def Disables (calls : PatchCalls) (newProtocols : List String) (e : EndpointRow) : Prop :=
  (e.protocol ∉ newProtocols ∧ e.enabled = true) ∧ calls.setEndpointEnabled e.id ≠ .failed

instance (calls : PatchCalls) (newProtocols : List String) :
    DecidablePred (Disables calls newProtocols) :=
  fun _ => inferInstanceAs (Decidable (_ ∧ _))

/-- The endpoint, disabled if its id is among these. -/
def EndpointRow.disableIn (ids : List ℕ) (e : EndpointRow) : EndpointRow :=
  if e.id ∈ ids then { e with enabled := false } else e

theorem EndpointRow.disableIn_nil : EndpointRow.disableIn [] = fun e => e := by
  funext e
  exact if_neg List.not_mem_nil

@[simp] theorem EndpointRow.id_disableIn {ids : List ℕ} (e : EndpointRow) :
    (e.disableIn ids).id = e.id := by
  rw [disableIn]
  split_ifs <;> rfl

@[simp] theorem EndpointRow.pair_disableIn {ids : List ℕ} (e : EndpointRow) :
    ((e.disableIn ids).modelDbId, (e.disableIn ids).protocol) = (e.modelDbId, e.protocol) := by
  rw [disableIn]
  split_ifs <;> rfl

theorem disableSurplus_fst (e : EndpointRow) : (disableSurplus calls newProtocols s e).1 =
    if Disables calls newProtocols e then s.1.setEndpointEnabled e.id false else s.1 := by
  rw [disableSurplus]
  by_cases hsurplus : e.protocol ∉ newProtocols ∧ e.enabled = true
  · rw [if_pos hsurplus]
    cases hcall : calls.setEndpointEnabled e.id with
    | failed => rw [if_neg fun h => h.2 hcall]
    | lost => rw [if_pos ⟨hsurplus, by simp [hcall]⟩]
    | done => rw [if_pos ⟨hsurplus, by simp [hcall]⟩]
  · rw [if_neg hsurplus, if_neg fun h => hsurplus h.1]

/-- The surplus endpoints are disabled and nothing else is written. -/
theorem foldl_disableSurplus (existing : List EndpointRow) (s : HubTables × List String) :
    (existing.foldl (disableSurplus calls newProtocols) s).1 =
      { s.1 with endpoints := s.1.endpoints.map (EndpointRow.disableIn
          ((existing.filter fun e => Disables calls newProtocols e).map (·.id))) } := by
  induction existing generalizing s with
  | nil => rw [List.foldl_nil, List.filter_nil, List.map_nil, EndpointRow.disableIn_nil, List.map_id']
  | cons e existing ih =>
    rw [List.foldl_cons, ih, disableSurplus_fst]
    by_cases hdisable : Disables calls newProtocols e
    · rw [if_pos hdisable, List.filter_cons_of_pos (by simpa using hdisable), List.map_cons]
      simp only [HubTables.setEndpointEnabled, List.map_map]
      congr 2
      funext x
      by_cases hid : x.id = e.id
      · simp [EndpointRow.disableIn, hid]
      · rw [Function.comp, if_neg hid]
        simp only [EndpointRow.disableIn, List.mem_cons, hid, false_or]
    · rw [if_neg hdisable, List.filter_cons_of_neg (by simpa using hdisable)]

/-- Creating an endpoint leaves every pair there and adds its own, if it writes. -/
theorem mem_pairs_createMissing {pair : ℕ × String} :
    pair ∈ (createMissing calls modelDbId s protocol).1.pairs ↔
      pair ∈ s.1.pairs ∨
        calls.createEndpoint protocol ≠ .failed ∧ pair = (modelDbId, protocol) := by
  have hcreate : pair ∈ (createEndpoint s.1 modelDbId protocol true).1.pairs ↔
      pair ∈ s.1.pairs ∨ pair = (modelDbId, protocol) := by
    rw [pairs_createEndpoint]
    split_ifs with hmem
    · exact ⟨Or.inl, fun h => h.elim id fun heq => heq ▸ hmem⟩
    · rw [List.mem_append, List.mem_singleton]
  rw [createMissing]
  cases hcall : calls.createEndpoint protocol with
  | failed => simp
  | lost => simpa using hcreate
  | done =>
    simp only [ne_eq, reduceCtorEq, not_false_eq_true, true_and]
    rw [← hcreate]
    split_ifs <;> simp

theorem mem_pairs_foldl_createMissing {pair : ℕ × String} (protocols : List String)
    (s : HubTables × List String) :
    pair ∈ (protocols.foldl (createMissing calls modelDbId) s).1.pairs ↔
      pair ∈ s.1.pairs ∨
        ∃ p ∈ protocols, calls.createEndpoint p ≠ .failed ∧ pair = (modelDbId, p) := by
  induction protocols generalizing s with
  | nil => simp
  | cons p protocols ih =>
    rw [List.foldl_cons, ih, mem_pairs_createMissing, List.exists_mem_cons_iff, or_assoc]

/-- Where every creation fails nothing is written. -/
theorem foldl_createMissing_of_failed {protocols : List String}
    (h : ∀ p ∈ protocols, calls.createEndpoint p = .failed) (s : HubTables × List String) :
    protocols.foldl (createMissing calls modelDbId) s = s := by
  induction protocols with
  | nil => rfl
  | cons p protocols ih =>
    rw [List.foldl_cons, createMissing, h p List.mem_cons_self]
    exact ih fun q hq => h q (List.mem_cons_of_mem _ hq)

@[simp] theorem models_createMissing :
    (createMissing calls modelDbId s protocol).1.models = s.1.models := by
  rw [createMissing]
  cases calls.createEndpoint protocol with
  | failed => rfl
  | lost => exact models_createEndpoint
  | done =>
    dsimp only
    split_ifs
    · exact models_applyCreationDefaults.trans models_createEndpoint
    · exact models_createEndpoint
    · exact models_createEndpoint

@[simp] theorem models_foldl_createMissing (protocols : List String)
    (s : HubTables × List String) :
    (protocols.foldl (createMissing calls modelDbId) s).1.models = s.1.models := by
  induction protocols generalizing s with
  | nil => rfl
  | cons p protocols ih => rw [List.foldl_cons, ih, models_createMissing]

/-! ### What an error leaves -/

/-- The row of the model and its endpoints are as they were. -/
def Untouched (before after : HubTables) (id : ℕ) : Prop :=
  after.getModel id = before.getModel id ∧
    after.listEndpointsByModelID id = before.listEndpointsByModelID id

/-- A capability that is not stored. -/
def Refused (calls : PatchCalls) (capability : String) : Prop :=
  capability ∉ validCapabilities ∨ calls.setModelCapability = false

/-- The endpoints cannot be listed, or the hub not loaded although a chat protocol is missing. -/
def FailsReconciling (calls : PatchCalls) (t : HubTables) (id : ℕ) (capability : String) : Prop :=
  calls.listEndpoints = false ∨
    (missingProtocols t id capability).filter (· ∈ modelProtocols) ≠ [] ∧
      calls.getHub = false

/-- A missing endpoint is created or a surplus one disabled. -/
def MovesEndpoints (calls : PatchCalls) (t : HubTables) (id : ℕ) (capability : String) : Prop :=
  (∃ p ∈ protocolsToCreate calls (missingProtocols t id capability),
      calls.createEndpoint p ≠ .failed) ∨
    ∃ e ∈ t.listEndpointsByModelID id, Disables calls (protocolsForCapability capability) e

/-- Nothing fails after a write that changed something. -/
structure WritesLast (calls : PatchCalls) (t : HubTables) (m : ModelRow)
    (req : PatchModelRequest) : Prop where
  evalEnabled : (∃ enabled ∈ req.evalEnabled, enabled ≠ m.evalEnabled) →
    (∀ capability ∈ req.capability.map trimSpace,
      ¬ Refused calls capability ∧ ¬ FailsReconciling calls t m.id capability) ∧
      calls.listEndpointsAgain = true
  capability : ∀ capability ∈ req.capability.map trimSpace, ¬ Refused calls capability →
    capability ≠ m.capability →
      ¬ FailsReconciling calls t m.id capability ∧ calls.listEndpointsAgain = true
  endpoints : ∀ capability ∈ req.capability.map trimSpace, ¬ Refused calls capability →
    ¬ FailsReconciling calls t m.id capability → MovesEndpoints calls t m.id capability →
      calls.listEndpointsAgain = true

/-- The tables after the endpoints were reconciled. -/
def reconciled (calls : PatchCalls) (t : HubTables) (id : ℕ) (capability : String) : HubTables :=
  let created := ((protocolsToCreate calls (missingProtocols t id capability)).foldl
    (createMissing calls id) (t, [])).1
  { created with endpoints := created.endpoints.map (EndpointRow.disableIn
      (((t.listEndpointsByModelID id).filter fun e =>
        Disables calls (protocolsForCapability capability) e).map (·.id))) }

@[simp] theorem getModel_reconciled {capability : String} :
    (reconciled calls t modelDbId capability).getModel id = t.getModel id := by
  simp [reconciled, HubTables.getModel]

theorem pairs_reconciled {capability : String} : (reconciled calls t id capability).pairs =
    ((protocolsToCreate calls (missingProtocols t id capability)).foldl
      (createMissing calls id) (t, [])).1.pairs := by
  rw [reconciled, HubTables.pairs, List.map_map]
  exact List.map_congr_left fun e _ => e.pair_disableIn

theorem mem_protocolsToCreate {missing : List String} {p : String}
    (hp : p ∈ protocolsToCreate calls missing) : p ∈ missing := by
  rcases List.mem_append.mp hp with hp | hp
  · exact List.mem_of_mem_filter (List.mem_of_mem_filter hp)
  · exact List.mem_of_mem_filter hp

/-- What is created is a pair that had no endpoint. -/
theorem notMem_pairs_of_missing {capability p : String}
    (hp : p ∈ missingProtocols t id capability) : (id, p) ∉ t.pairs := by
  have hmissing := (List.mem_filter.mp hp).2
  rw [decide_eq_true_eq] at hmissing
  intro hpair
  obtain ⟨e, he, heq⟩ := List.mem_map.mp hpair
  cases heq
  exact hmissing (List.mem_map_of_mem (HubTables.mem_listEndpointsByModelID.mpr ⟨he, rfl⟩))

/-- Reconciling changes the endpoints of the model just when it creates or disables one. -/
theorem listEndpoints_reconciled_iff {capability : String} :
    (reconciled calls t id capability).listEndpointsByModelID id =
        t.listEndpointsByModelID id ↔
      ¬ MovesEndpoints calls t id capability := by
  constructor
  · intro hsame hmoves
    rcases hmoves with ⟨p, hp, hcall⟩ | ⟨e, he, hdisables⟩
    · -- the pair that was created is found among the endpoints listed
      have hpair : (id, p) ∈ (reconciled calls t id capability).pairs := by
        rw [pairs_reconciled, mem_pairs_foldl_createMissing]
        exact Or.inr ⟨p, hp, hcall, rfl⟩
      obtain ⟨e, he, heq⟩ := List.mem_map.mp hpair
      have hlisted : e ∈ t.listEndpointsByModelID id := by
        rw [← hsame]
        exact HubTables.mem_listEndpointsByModelID.mpr ⟨he, (Prod.mk.inj heq).1⟩
      refine notMem_pairs_of_missing (mem_protocolsToCreate hp) (List.mem_map.mpr ⟨e, ?_, heq⟩)
      exact (HubTables.mem_listEndpointsByModelID.mp hlisted).1
    · -- the endpoint is listed enabled before and disabled after
      have hafter : e ∈ (reconciled calls t id capability).endpoints := by
        rw [← hsame] at he
        exact (HubTables.mem_listEndpointsByModelID.mp he).1
      rw [reconciled] at hafter
      obtain ⟨x, -, hx⟩ := List.mem_map.mp hafter
      have hid : x.id = e.id := by rw [← hx, EndpointRow.id_disableIn]
      have hmem : x.id ∈ ((t.listEndpointsByModelID id).filter fun e =>
          Disables calls (protocolsForCapability capability) e).map (·.id) := by
        rw [hid]
        exact List.mem_map_of_mem (List.mem_filter.mpr ⟨he, decide_eq_true hdisables⟩)
      rw [EndpointRow.disableIn, if_pos hmem] at hx
      have henabled : e.enabled = true := hdisables.1.2
      rw [← hx] at henabled
      exact Bool.false_ne_true henabled
  · intro hstill
    rw [MovesEndpoints, not_or] at hstill
    have hnone : ((t.listEndpointsByModelID id).filter fun e =>
        Disables calls (protocolsForCapability capability) e) = [] := by
      rw [List.filter_eq_nil_iff]
      exact fun e he hdisables => hstill.2 ⟨e, he, of_decide_eq_true hdisables⟩
    have hcreated : ∀ p ∈ protocolsToCreate calls (missingProtocols t id capability),
        calls.createEndpoint p = .failed := by
      intro p hp
      by_contra hcall
      exact hstill.1 ⟨p, hp, hcall⟩
    rw [reconciled, hnone, List.map_nil, EndpointRow.disableIn_nil,
      foldl_createMissing_of_failed hcreated]
    simp only [List.map_id', HubTables.listEndpointsByModelID]

/-- What the response says was done to the endpoints. -/
def reconcileDetail (calls : PatchCalls) (t : HubTables) (m : ModelRow) (oldCap : String) :
    PatchDetail :=
  let created := (protocolsToCreate calls (missingProtocols t m.id m.capability)).foldl
    (createMissing calls m.id) (t, [])
  let disabled := (t.listEndpointsByModelID m.id).foldl
    (disableSurplus calls (protocolsForCapability m.capability)) (created.1, [])
  .capability oldCap m.capability created.2 disabled.2

theorem reconcileEndpoints_eq {oldCap : String} {detail : List PatchDetail} :
    reconcileEndpoints calls t m oldCap detail =
      if calls.listEndpoints = false then (t, .error 500 "failed to load endpoints")
      else if (missingProtocols t m.id m.capability).filter (· ∈ modelProtocols) ≠ [] ∧
          calls.getHub = false then
        (t, .error 500 "failed to load hub")
      else
        finishPatch calls (reconciled calls t m.id m.capability) m
          (detail ++ [reconcileDetail calls t m oldCap]) := by
  rw [reconcileEndpoints, reconcileDetail]
  dsimp only
  rw [foldl_disableSurplus]
  rfl

/-- An error answered with these tables leaves the model and its endpoints as they were. -/
def SparesModel (before : HubTables) (id : ℕ) (r : HubTables × PatchAnswer) : Prop :=
  r.2.isError = true → Untouched before r.1 id

theorem atomic_error {status : ℕ} {message : String} :
    SparesModel t' id (t, .error status message) ↔ Untouched t' t id :=
  ⟨fun h => h rfl, fun h _ => h⟩

theorem atomic_finishPatch {detail : List PatchDetail} :
    SparesModel t' id (finishPatch calls t m detail) ↔
      Untouched t' t id ∨ calls.listEndpointsAgain = true := by
  rw [finishPatch]
  by_cases hlist : calls.listEndpointsAgain = true
  · rw [if_pos hlist]
    exact iff_of_true (fun herror => absurd herror Bool.false_ne_true) (Or.inr hlist)
  · rw [if_neg hlist, atomic_error, or_iff_left hlist]

/-- Once the capability is stored: an earlier change must not be followed by a failure, nor a
change of the endpoints by the last one. -/
theorem atomic_reconcileEndpoints {oldCap : String} {detail : List PatchDetail}
    (hendpoints : t.listEndpointsByModelID m.id = t'.listEndpointsByModelID m.id) :
    SparesModel t' m.id (reconcileEndpoints calls t m oldCap detail) ↔
      (t.getModel m.id ≠ t'.getModel m.id →
        ¬ FailsReconciling calls t m.id m.capability ∧ calls.listEndpointsAgain = true) ∧
      (¬ FailsReconciling calls t m.id m.capability → MovesEndpoints calls t m.id m.capability →
        calls.listEndpointsAgain = true) := by
  -- both early exits leave the tables as the capability's write left them
  have hstop (hfails : FailsReconciling calls t m.id m.capability) : Untouched t' t m.id ↔
      (t.getModel m.id ≠ t'.getModel m.id →
        ¬ FailsReconciling calls t m.id m.capability ∧ calls.listEndpointsAgain = true) ∧
      (¬ FailsReconciling calls t m.id m.capability → MovesEndpoints calls t m.id m.capability →
        calls.listEndpointsAgain = true) := by
    constructor
    · exact fun h => ⟨fun hmoved => absurd h.1 hmoved, fun hgo => absurd hfails hgo⟩
    · intro h
      refine ⟨?_, hendpoints⟩
      by_contra hmoved
      exact (h.1 hmoved).1 hfails
  rw [reconcileEndpoints_eq]
  by_cases hlist : calls.listEndpoints = false
  · rw [if_pos hlist, atomic_error]
    exact hstop (Or.inl hlist)
  by_cases hhub : (missingProtocols t m.id m.capability).filter (· ∈ modelProtocols) ≠ [] ∧
      calls.getHub = false
  · rw [if_neg hlist, if_pos hhub, atomic_error]
    exact hstop (Or.inr hhub)
  · have hgo : ¬ FailsReconciling calls t m.id m.capability := not_or.mpr ⟨hlist, hhub⟩
    rw [if_neg hlist, if_neg hhub, atomic_finishPatch, Untouched, getModel_reconciled, ← hendpoints,
      listEndpoints_reconciled_iff]
    by_cases hagain : calls.listEndpointsAgain = true
    · exact iff_of_true (Or.inr hagain) ⟨fun _ => ⟨hgo, hagain⟩, fun _ _ => hagain⟩
    · constructor
      · rintro (⟨hrow, hstill⟩ | h)
        · exact ⟨fun hmoved => absurd hrow hmoved, fun _ hmoves => absurd hmoves hstill⟩
        · exact absurd h hagain
      · rintro ⟨hrow, hmoves⟩
        refine Or.inl ⟨?_, fun h => hagain (hmoves hgo h)⟩
        by_contra hmoved
        exact hagain (hrow hmoved).2

/-- From the capability on, with a table whose row is that of `m` and whose endpoints are those
at the start. A change made before is not undone by storing a capability. -/
theorem atomic_patchCapability {detail : List PatchDetail} (hrow : t.getModel m.id = some m)
    (hendpoints : t.listEndpointsByModelID m.id = t'.listEndpointsByModelID m.id)
    (hmoved : some m ≠ t'.getModel m.id →
      ∀ capability, some { m with capability := capability } ≠ t'.getModel m.id) :
    SparesModel t' m.id (patchCapability calls t m req detail) ↔
      (some m ≠ t'.getModel m.id →
        (∀ capability ∈ req.capability.map trimSpace,
          ¬ Refused calls capability ∧ ¬ FailsReconciling calls t m.id capability) ∧
        calls.listEndpointsAgain = true) ∧
      (∀ capability ∈ req.capability.map trimSpace, ¬ Refused calls capability →
        some { m with capability := capability } ≠ t'.getModel m.id →
          ¬ FailsReconciling calls t m.id capability ∧ calls.listEndpointsAgain = true) ∧
      ∀ capability ∈ req.capability.map trimSpace, ¬ Refused calls capability →
        ¬ FailsReconciling calls t m.id capability → MovesEndpoints calls t m.id capability →
          calls.listEndpointsAgain = true := by
  -- up to here only the row can have changed
  have huntouched : Untouched t' t m.id ↔ some m = t'.getModel m.id := by
    rw [Untouched, hrow]
    exact and_iff_left hendpoints
  rw [patchCapability]
  cases req.capability with
  | none =>
    rw [Option.map_none]
    simp only [atomic_finishPatch, huntouched, Option.not_mem_none, false_imp_iff, implies_true,
      true_and, and_true]
    exact or_iff_not_imp_left
  | some text =>
    simp only [Option.map_some, Option.mem_some_iff, forall_eq']
    generalize trimSpace text = capability
    by_cases hvalid : capability ∉ validCapabilities
    · -- a refused capability is not stored, so that what was changed before stays changed
      have hrefused : Refused calls capability := Or.inl hvalid
      rw [if_pos hvalid, atomic_error, huntouched]
      simp only [hrefused, not_true_eq_false, false_and, false_imp_iff, and_true]
      exact not_not.symm
    by_cases hset : calls.setModelCapability = false
    · have hrefused : Refused calls capability := Or.inr hset
      rw [if_neg hvalid, if_pos hset, atomic_error, huntouched]
      simp only [hrefused, not_true_eq_false, false_and, false_imp_iff, and_true]
      exact not_not.symm
    · have hstored : ¬ Refused calls capability := not_or.mpr ⟨hvalid, hset⟩
      have hafter : (t.setModelCapability m.id capability).getModel m.id =
          some { m with capability := capability } := by
        rw [HubTables.getModel_setModelCapability, hrow, Option.map_some]
      have hreconcile := @atomic_reconcileEndpoints calls (t.setModelCapability m.id capability) t'
        { m with capability := capability } m.capability detail hendpoints
      rw [if_neg hvalid, if_neg hset, hreconcile, hafter]
      constructor
      · intro h
        exact ⟨fun hne => ⟨⟨hstored, (h.1 (hmoved hne _)).1⟩, (h.1 (hmoved hne _)).2⟩,
          fun _ => h.1, fun _ => h.2⟩
      · exact fun h => ⟨h.2.1 hstored, h.2.2 hstored⟩

/-- A row with another capability and switch is the same row just when both are its own. -/
theorem row_eq_iff {capability : String} {enabled : Bool} :
    { m with capability := capability, evalEnabled := enabled } = m ↔
      capability = m.capability ∧ enabled = m.evalEnabled := by
  cases m
  simp

/-- The conditions from the capability on are those on the request, for a row that differs from
the one at the start in its switch alone. -/
theorem writesLast_iff {m' : ModelRow} (hmodel : t.getModel m.id = some m)
    (hswitch : m' = m ∧ req.evalEnabled = none ∨
      ∃ enabled, req.evalEnabled = some enabled ∧ m' = { m with evalEnabled := enabled }) :
    WritesLast calls t m req ↔
      (some m' ≠ t.getModel m.id →
        (∀ capability ∈ req.capability.map trimSpace,
          ¬ Refused calls capability ∧ ¬ FailsReconciling calls t m.id capability) ∧
        calls.listEndpointsAgain = true) ∧
      (∀ capability ∈ req.capability.map trimSpace, ¬ Refused calls capability →
        some { m' with capability := capability } ≠ t.getModel m.id →
          ¬ FailsReconciling calls t m.id capability ∧ calls.listEndpointsAgain = true) ∧
      ∀ capability ∈ req.capability.map trimSpace, ¬ Refused calls capability →
        ¬ FailsReconciling calls t m.id capability → MovesEndpoints calls t m.id capability →
          calls.listEndpointsAgain = true := by
  -- capability and switch are the two columns a patch writes
  have hrow (capability : String) (enabled : Bool) :
      some { m with capability := capability, evalEnabled := enabled } ≠ t.getModel m.id ↔
        enabled ≠ m.evalEnabled ∨ capability ≠ m.capability := by
    rw [hmodel, ne_eq, Option.some_inj, row_eq_iff, not_and_or, or_comm]
  have hflips : some m' ≠ t.getModel m.id ↔ ∃ enabled ∈ req.evalEnabled, enabled ≠ m.evalEnabled := by
    rcases hswitch with ⟨rfl, hnone⟩ | ⟨enabled, hsome, rfl⟩
    · simp [hnone, hmodel]
    · simpa [hsome] using hrow m.capability enabled
  have hmoves (capability : String) : some { m' with capability := capability } ≠ t.getModel m.id ↔
      (∃ enabled ∈ req.evalEnabled, enabled ≠ m.evalEnabled) ∨ capability ≠ m.capability := by
    rcases hswitch with ⟨rfl, hnone⟩ | ⟨enabled, hsome, rfl⟩
    · simpa [hnone] using hrow capability m'.evalEnabled
    · simpa [hsome] using hrow capability enabled
  rw [hflips]
  simp only [hmoves]
  constructor
  · intro h
    refine ⟨h.evalEnabled, ?_, h.endpoints⟩
    rintro capability hcap hstored (hflip | hmoved)
    · exact ⟨((h.evalEnabled hflip).1 capability hcap).2, (h.evalEnabled hflip).2⟩
    · exact h.capability capability hcap hstored hmoved
  · intro h
    exact ⟨h.1, fun c hc hstored hmoved => h.2.1 c hc hstored (Or.inr hmoved), h.2.2⟩

/-- **An error leaves the model and its endpoints as they were just when nothing fails after a
write that changed something.** -/
theorem handlePatchModel_atomic_iff (calls : PatchCalls) (t : HubTables) (id : Option ℕ)
    (body : Option PatchModelRequest) :
    ((handlePatchModel calls t id body).2.isError = true →
        ∀ i ∈ id, Untouched t (handlePatchModel calls t id body).1 i) ↔
      ∀ i ∈ id, ∀ m ∈ t.getModel i, ∀ req ∈ body, calls.getModel = true →
        (req.evalEnabled ≠ none → calls.setModelEvalEnabled = true) →
          WritesLast calls t m req := by
  have hsame (i : ℕ) : Untouched t t i := ⟨rfl, rfl⟩
  cases id with
  | none => exact iff_of_true (fun _ i hi => nomatch hi) fun i hi => nomatch hi
  | some i =>
    simp only [Option.mem_some_iff, forall_eq']
    rw [handlePatchModel]
    cases hget : calls.getModel with
    | false => exact iff_of_true (fun _ => hsame i) fun m _ req _ h => nomatch h
    | true =>
      rw [if_pos rfl]
      cases hmodel : t.getModel i with
      | none => exact iff_of_true (fun _ => hsame i) fun m hm => nomatch hm
      | some m =>
        obtain rfl : m.id = i := HubTables.id_of_getModel hmodel
        cases body with
        | none => exact iff_of_true (fun _ => hsame _) fun _ _ req hreq => nomatch hreq
        | some req =>
          simp only [Option.mem_some_iff, forall_eq', forall_true_left]
          by_cases hnone : req.capability = none ∧ req.evalEnabled = none
          · rw [if_pos hnone]
            refine iff_of_true (fun _ => hsame _) fun _ => ?_
            constructor
            · simp [hnone.2]
            · simp [hnone.1]
            · simp [hnone.1]
          · rw [if_neg hnone, patchEvalEnabled]
            cases heval : req.evalEnabled with
            | none =>
              -- no switch in the request: the row is the one at the start
              have hwrites := @writesLast_iff calls t m req m hmodel (Or.inl ⟨rfl, heval⟩)
              rw [forall_prop_of_true (fun h => absurd rfl h), hwrites]
              exact atomic_patchCapability hmodel rfl fun hne => absurd hmodel.symm hne
            | some enabled =>
              by_cases hset : calls.setModelEvalEnabled = false
              · simp only [if_pos hset]
                exact iff_of_true (fun _ => hsame _) fun h => absurd (h (by simp)) (by simp [hset])
              · have hwrites := @writesLast_iff calls t m req { m with evalEnabled := enabled }
                  hmodel (Or.inr ⟨enabled, heval, rfl⟩)
                simp only [if_neg hset]
                rw [forall_prop_of_true (fun _ => by simpa using hset), hwrites]
                refine atomic_patchCapability (t := t.setModelEvalEnabled m.id enabled)
                  (m := { m with evalEnabled := enabled }) ?_ rfl fun hne capability heq => hne ?_
                · rw [HubTables.getModel_setModelEvalEnabled, hmodel, Option.map_some]
                · rw [hmodel, Option.some_inj] at heq ⊢
                  exact row_eq_iff.mpr ⟨rfl, (row_eq_iff.mp heq).2⟩

/-- A hub with one chat model that takes part in evaluations. -/
def oneChatModel : HubTables where
  models := [⟨1, 1, "m", .manual, .active, "chat", "", true⟩]
  endpoints := [⟨1, 1, protocolOpenAI, true, none⟩]
  alerts := []
  nextModelId := 2
  nextEndpointId := 2

/-- A capability that does not exist is refused after the switch was stored. -/
theorem not_handlePatchModel_atomic :
    ¬ ∀ (calls : PatchCalls) (t : HubTables) (id : Option ℕ) (body : Option PatchModelRequest),
      (handlePatchModel calls t id body).2.isError = true →
        ∀ i ∈ id, Untouched t (handlePatchModel calls t id body).1 i := by
  intro h
  have hrow := (h .succeed oneChatModel (some 1) (some ⟨some "bogus", some false⟩) (by decide)
    1 rfl).1
  revert hrow
  decide

end HubScope
