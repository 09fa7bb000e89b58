import HubScope.Evaluator.Planning

/-!
# Starting a batch

`POST /api/evals` selects the models and the suites of a new campaign: every enabled suite
for every model of the rotation, an explicit selection of either, or a single suite for
explicit models. The scheduler's weekly batch selects like the full sweep.

An explicit model list is checked model by model and used as it was sent: a repeated id stays
repeated.

## Main definitions

* `CreateEvalRequest`, `Rejection`, `Batch`
* `handleCreateEval` — the checks of a request, and the batch it starts
* `Batch.prepare` — the campaign and the runs of a batch

## Main results

* `prepareRuns_spec` — the runs of a batch are new
* `nodup_feed_of_handleCreateEval` — when an accepted batch feeds distinct models
-/

set_option autoImplicit false

namespace HubScope

/-! ### Requests -/

/-- The body of `POST /api/evals`. A zero suite is an omitted one. -/
structure CreateEvalRequest where
  suiteId : ℕ
  suiteIds : List ℕ
  modelIds : List ℕ

/-- An error response. -/
structure Rejection where
  status : ℕ
  message : String
  deriving DecidableEq, Repr

/-- What an accepted request starts. A single-suite batch runs through `RunEval`, a sweep
through `RunCampaign`. -/
structure Batch where
  single : Bool
  suites : List Suite
  modelIds : List ℕ

/-- The capability tag as the API prints it. -/
def Capability.text : Capability → String
  | .chat => "chat"
  | .nonChat => "non_chat"
  | .image => "image"
  | .video => "video"

/-- No second batch on top of an active one. -/
def checkNoActiveCampaign (st : Store) : Except Rejection Unit :=
  if st.hasUnfinishedCampaign then
    .error ⟨409, "an evaluation campaign is already running"⟩
  else .ok ()

/-- Every explicitly selected model has to exist and be chat-capable. -/
def checkModels (st : Store) : List ℕ → Except Rejection Unit
  | [] => .ok ()
  | id :: ids =>
    match st.getModel id with
    | none => .error ⟨404, s!"model {id} not found"⟩
    | some m =>
      if m.capability = .chat then checkModels st ids
      else
        let capability := m.capability.text
        let modelId := m.modelId
        .error ⟨400,
          s!"model {id} ({modelId}) has capability \"{capability}\" and cannot be evaluated"⟩

/-- The rotation: every enabled suite for every active chat model. -/
def handleFullSweep (st : Store) (hasEndpoint : ℕ → Bool) : Except Rejection Batch :=
  let modelIds := st.listActiveChatModelIDs hasEndpoint
  if modelIds = [] then .error ⟨400, "no active chat-capable models to evaluate"⟩
  else .ok ⟨false, st.listEnabledSuites, modelIds⟩

/-- A sweep over an explicit selection of suites, models or both. -/
def handleFilteredSweep (st : Store) (hasEndpoint : ℕ → Bool) (req : CreateEvalRequest) :
    Except Rejection Batch := do
  let modelIds ←
    if req.modelIds = [] then pure (st.listActiveChatModelIDs hasEndpoint)
    else do
      checkModels st req.modelIds
      pure req.modelIds
  if modelIds = [] then throw ⟨400, "no active chat-capable models to evaluate"⟩
  let suites := st.listEnabledSuites
  if req.suiteIds = [] then pure ⟨false, suites, modelIds⟩
  else
    let filtered := suites.filter (·.id ∈ req.suiteIds)
    if filtered = [] then throw ⟨400, "suite_ids matched no enabled suite"⟩
    pure ⟨false, filtered, modelIds⟩

/-- One suite for explicit models. -/
def handleSingleSuite (st : Store) (req : CreateEvalRequest) : Except Rejection Batch := do
  if req.modelIds = [] then throw ⟨400, "model_ids must be a non-empty array"⟩
  match st.getSuite req.suiteId with
  | none => throw ⟨404, "suite not found"⟩
  | some suite =>
    if ¬ suite.enabled then throw ⟨400, "suite is disabled"⟩
    checkModels st req.modelIds
    pure ⟨true, [suite], req.modelIds⟩

/-- What a request selects, once no campaign is active. -/
def selectBatch (st : Store) (hasEndpoint : ℕ → Bool) (req : CreateEvalRequest) :
    Except Rejection Batch :=
  if req.suiteId = 0 then
    if req.suiteIds = [] ∧ req.modelIds = [] then handleFullSweep st hasEndpoint
    else handleFilteredSweep st hasEndpoint req
  else handleSingleSuite st req

/-- The checks of `POST /api/evals`. -/
def handleCreateEval (st : Store) (hasEndpoint : ℕ → Bool) (req : CreateEvalRequest) :
    Except Rejection Batch := do
  checkNoActiveCampaign st
  selectBatch st hasEndpoint req

/-- The campaign of a batch with its runs created and staged. `snapshot` is the judge model at
creation, `judgeModel` the one at run start. -/
def Batch.prepare (b : Batch) (st : Store) (snapshot judgeModel : String) :
    Store × ℕ × List PreparedRun :=
  let (st, campaignId) := st.createCampaign b.modelIds
  let (st, prepared) := prepareRuns campaignId snapshot judgeModel st b.suites
  (st, campaignId, prepared)

/-! ### Selected models -/

variable {st : Store} {hasEndpoint : ℕ → Bool} {req : CreateEvalRequest} {b : Batch}

theorem nodup_listActiveChatModelIDs (h : st.Valid) :
    (st.listActiveChatModelIDs hasEndpoint).Nodup :=
  (List.filter_sublist.map _).nodup h.modelIds

/-- An accepted batch evaluates the models the request names, or the rotation. -/
theorem modelIds_of_selectBatch (h : selectBatch st hasEndpoint req = .ok b) :
    b.modelIds = req.modelIds ∨ b.modelIds = st.listActiveChatModelIDs hasEndpoint := by
  unfold selectBatch at h
  split_ifs at h
  · unfold handleFullSweep at h
    dsimp only at h
    split_ifs at h
    cases h
    exact .inr rfl
  · unfold handleFilteredSweep at h
    simp only [bind, Except.bind, pure, Except.pure, throw, throwThe, MonadExceptOf.throw] at h
    -- a filtered sweep without models takes the active ones
    by_cases hmodels : req.modelIds = []
    · rw [if_pos hmodels] at h
      split_ifs at h <;> cases h <;> exact .inr rfl
    · rw [if_neg hmodels] at h
      cases hcheck : checkModels st req.modelIds with
      | error e =>
        rw [hcheck] at h
        cases h
      | ok =>
        rw [hcheck] at h
        dsimp only at h
        split_ifs at h <;> cases h <;> exact .inl rfl
  · unfold handleSingleSuite at h
    simp only [bind, Except.bind, pure, Except.pure, throw, throwThe, MonadExceptOf.throw] at h
    split_ifs at h
    split at h
    · cases h
    · split_ifs at h
      split at h <;> cases h
      exact .inl rfl

/-- An accepted batch feeds distinct models when the named ones that pass the gate are. -/
theorem nodup_feed_of_handleCreateEval {gate : Option ProbeGate} (hvalid : st.Valid)
    (h : handleCreateEval st hasEndpoint req = .ok b)
    (hmodels : (feedOf gate req.modelIds).Nodup) : (feedOf gate b.modelIds).Nodup := by
  have hselect : selectBatch st hasEndpoint req = .ok b := by
    unfold handleCreateEval checkNoActiveCampaign at h
    split_ifs at h
    · cases h
    · exact h
  rcases modelIds_of_selectBatch hselect with heq | heq
  · exact heq ▸ hmodels
  · rw [heq]
    have hnodup : (st.listActiveChatModelIDs hasEndpoint).Nodup :=
      nodup_listActiveChatModelIDs hvalid
    cases gate with
    | none => exact hnodup
    | some gate => exact hnodup.filter _

/-! ### New runs -/

theorem resolveJudgeModel_spec (h : st.Valid) (run : EvalRun) (judgeModel : String) :
    (resolveJudgeModel st run judgeModel).1.Valid ∧
      (resolveJudgeModel st run judgeModel).1.results = st.results ∧
      (resolveJudgeModel st run judgeModel).1.runSeq = st.runSeq ∧
      (resolveJudgeModel st run judgeModel).2.id = run.id := by
  unfold resolveJudgeModel
  split_ifs
  · exact ⟨h, rfl, rfl, rfl⟩
  · exact ⟨h.updateRun _ fun _ => rfl, rfl, rfl, rfl⟩

/-- **New runs.** The runs of a batch are distinct and new, and no result is touched. -/
theorem prepareRuns_spec (h : st.Valid) (campaignId : ℕ) (snapshot judgeModel : String)
    (suites : List Suite) {st' : Store} {preps : List PreparedRun}
    (hprepare : prepareRuns campaignId snapshot judgeModel st suites = (st', preps)) :
    st'.Valid ∧ st'.results = st.results ∧ (preps.map (·.run.id)).Nodup ∧
      ∀ prep ∈ preps, st.runSeq < prep.run.id ∧ (prep.cases.map (·.id)).Nodup := by
  induction suites generalizing st preps with
  | nil =>
    obtain ⟨rfl, rfl⟩ := Prod.mk.inj hprepare
    refine ⟨h, rfl, List.nodup_nil, fun prep hprep => ?_⟩
    cases hprep
  | cons suite suites ih =>
    have hcreate := h.createEvalRun campaignId suite.id snapshot
    obtain ⟨hvalid, hresults, hseq, hid⟩ := resolveJudgeModel_spec hcreate
      (st.createEvalRun campaignId suite.id snapshot).2 judgeModel
    generalize hst₁ : resolveJudgeModel (st.createEvalRun campaignId suite.id snapshot).1
      (st.createEvalRun campaignId suite.id snapshot).2 judgeModel = resolved at *
    obtain ⟨st₁, run⟩ := resolved
    simp only [prepareRuns, prepareRun, hst₁] at hprepare
    obtain ⟨hstore, hpreps⟩ := Prod.mk.inj hprepare
    obtain ⟨hvalid', hresults', hnodup, hnew⟩ := ih hvalid (Prod.ext hstore rfl)
    -- the sequence numbered this run last, so the later runs are above it
    have hseq₁ : st₁.runSeq = st.runSeq + 1 := hseq
    have hrun : run.id = st.runSeq + 1 := hid
    subst hpreps
    refine ⟨hvalid', hresults'.trans hresults, ?_, ?_⟩
    · refine List.nodup_cons.mpr ⟨fun hmem => ?_, hnodup⟩
      obtain ⟨prep, hprep, heq⟩ := List.mem_map.mp hmem
      have hlt : st₁.runSeq < prep.run.id := (hnew prep hprep).1
      change prep.run.id = run.id at heq
      omega
    · intro prep hprep
      rcases List.mem_cons.mp hprep with rfl | hprep
      · exact ⟨by dsimp only; omega, nodup_listEnabledCases hvalid _⟩
      · have hlt : st₁.runSeq < prep.run.id := (hnew prep hprep).1
        exact ⟨by omega, (hnew prep hprep).2⟩

end HubScope
