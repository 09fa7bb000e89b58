import HubScope.Lib.Resumption
import HubScope.Registry.Validation
import HubScope.Store.Settings
import Mathlib.Data.List.ReduceOption

/-!
# The settings page

A patch of the settings is checked as a whole before any of it is written. Then the fields that it
has are written one after the other, each in a store call of its own, and the settings are read
back. Requests interleave at their store calls, and any call may fail.

## Main definitions

* `SettingsDTO`, `settingsDTO` — the settings as the page shows them
* `handlePutSettings`, `handleGetSettings` — the handlers as programs of store calls
* `Settings.InRange`, `SettingsDTO.Bounded` — the bounds, of the table and of what is shown
* `SettingsPatch.Valid`, `SettingsPatch.overlay` — the patches that are accepted, and what they set

## Main results

* `settings_of_reach` — the bounds along every interleaving, and that the evaluator reads what the
  page shows
* `run_handlePutSettings` — what an update that nothing disturbs does
-/

set_option autoImplicit false

namespace HubScope

open Numerals

/-! ### What the page shows -/

/-- The settings as the page shows them. -/
structure SettingsDTO where
  larkWebhookURL : String
  alertEnabled : Bool
  scoreDropAlertEnabled : Bool
  judgeModel : String
  juryPolicy : String
  defaultSampleCount : Int64
  evalConcurrency : Int64
  judgeConcurrency : Int64
  evalCampaignBudgetMin : Int64
  suiteWeights : SuiteWeights
  quietHoursEnabled : Bool
  quietHoursStart : Int64
  quietHoursEnd : Int64
  modelRegistryOverrides : List ModelRegistry.Override

/-- The rows of the table as they are shown. -/
def settingsDTO (t : Settings) : SettingsDTO where
  larkWebhookURL := (t .larkWebhookURL : Option String).getD ""
  alertEnabled := getSettingBool (t .alertEnabled) defaultAlertEnabled
  scoreDropAlertEnabled := getSettingBool (t .scoreDropAlertEnabled) defaultScoreDropAlertEnabled
  judgeModel := (t .judgeModel : Option String).getD defaultJudgeModel
  juryPolicy := (t .juryPolicy : Option String).getD defaultJuryPolicy
  defaultSampleCount := getSettingInt (t .defaultSampleCount) sampleCountDefault
  evalConcurrency := getSettingInt (t .evalConcurrency) defaultEvalConcurrency
  judgeConcurrency := getSettingInt (t .judgeConcurrency) defaultJudgeConcurrency
  evalCampaignBudgetMin := getSettingInt (t .evalCampaignBudgetMin) defaultEvalCampaignBudgetMin
  suiteWeights := getSuiteWeights (t .suiteWeights)
  quietHoursEnabled := getSettingBool (t .quietHoursEnabled) defaultQuietHoursEnabled
  quietHoursStart := getSettingInt (t .quietHoursStart) defaultQuietHoursStart
  quietHoursEnd := getSettingInt (t .quietHoursEnd) defaultQuietHoursEnd
  modelRegistryOverrides := getOverrides (t .modelRegistryOverrides)

/-- The keys in the order `readSettings` reads them. -/
def shownKeys : List SettingKey :=
  [.larkWebhookURL, .alertEnabled, .scoreDropAlertEnabled, .judgeModel, .juryPolicy,
    .defaultSampleCount, .evalConcurrency, .judgeConcurrency, .evalCampaignBudgetMin,
    .suiteWeights, .quietHoursEnabled, .quietHoursStart, .quietHoursEnd, .modelRegistryOverrides]

/-- The body of an update. A field that is absent or null is left as it is. The weights come in
the order in which their map is gone through. -/
structure SettingsPatch where
  larkWebhookURL : Option String
  alertEnabled : Option Bool
  scoreDropAlertEnabled : Option Bool
  judgeModel : Option String
  juryPolicy : Option String
  defaultSampleCount : Option Int64
  evalConcurrency : Option Int64
  judgeConcurrency : Option Int64
  evalCampaignBudgetMin : Option Int64
  suiteWeights : Option SuiteWeights
  quietHoursEnabled : Option Bool
  quietHoursStart : Option Int64
  quietHoursEnd : Option Int64
  modelRegistryOverrides : Option (List ModelRegistry.Override)

/-- A row to be written. -/
abbrev SettingRow := Sigma SettingKey.Value

/-- The row of a field, if the field is present. -/
def field {α : Type} (key : SettingKey) (value : α → key.Value) (o : Option α) :
    Option SettingRow := o.map fun v => ⟨key, value v⟩

/-- The rows of the fields, in the order in which they are written. -/
def SettingsPatch.fields (patch : SettingsPatch) : List (Option SettingRow) :=
  [field .larkWebhookURL (fun s => s) patch.larkWebhookURL,
    field .alertEnabled setSettingBool patch.alertEnabled,
    field .scoreDropAlertEnabled setSettingBool patch.scoreDropAlertEnabled,
    field .judgeModel (fun s => s) patch.judgeModel,
    field .juryPolicy (fun s => s) patch.juryPolicy,
    field .defaultSampleCount setSettingInt patch.defaultSampleCount,
    field .evalConcurrency setSettingInt patch.evalConcurrency,
    field .judgeConcurrency setSettingInt patch.judgeConcurrency,
    field .evalCampaignBudgetMin setSettingInt patch.evalCampaignBudgetMin,
    field .suiteWeights some patch.suiteWeights,
    field .quietHoursEnabled setSettingBool patch.quietHoursEnabled,
    field .quietHoursStart setSettingInt patch.quietHoursStart,
    field .quietHoursEnd setSettingInt patch.quietHoursEnd,
    field .modelRegistryOverrides some patch.modelRegistryOverrides]

/-- The rows of the fields that are present. -/
def SettingsPatch.updates (patch : SettingsPatch) : List SettingRow := patch.fields.reduceOption

/-! ### Store calls -/

/-- The tables the page works on: the settings, the ids of the models on all hubs, the keys of the
suites, the audit log, and how often the overview was invalidated. -/
structure SettingsServer where
  settings : Settings
  models : List String
  suites : List String
  audits : List String
  invalidations : ℕ

/-- The calls of the handlers, and what else changes the models and the suites. -/
inductive SettingsCall
  | getSetting (key : SettingKey)
  | setSetting (row : SettingRow)
  | modelExistsAnywhere (modelId : String)
  | listSuites
  | audit (detail : String)
  | invalidateOverview
  | register (models suites : List String)

namespace SettingsCall

/-- What a call answers; an error is a `none` or a false. -/
@[reducible] def Ret : SettingsCall → Type
  | getSetting key => Option (Option key.Value)
  | modelExistsAnywhere _ => Option Bool
  | listSuites => Option (List String)
  | setSetting _ | audit _ | invalidateOverview | register .. => Bool

/-- A call on the tables; one that fails changes nothing. -/
def exec (s : SettingsServer) (ok : Bool) : (op : SettingsCall) → op.Ret × SettingsServer
  | getSetting key => (if ok then some (s.settings key) else none, s)
  | setSetting row =>
    (ok, if ok then { s with settings := Function.update s.settings row.1 (some row.2) } else s)
  | modelExistsAnywhere modelId => (if ok then some (s.models.contains modelId) else none, s)
  | listSuites => (if ok then some s.suites else none, s)
  | audit detail => (ok, if ok then { s with audits := s.audits ++ [detail] } else s)
  | invalidateOverview => (true, { s with invalidations := s.invalidations + 1 })
  | register models suites => (true, { s with models := models, suites := suites })

end SettingsCall

/-- A response. The answer 400 to overrides puts `invalid model_registry_overrides: ` before the
error of their check. -/
inductive SettingsAnswer
  | error (status : ℕ) (message : String)
  | invalidOverrides (err : Bytes)
  | settings (dto : SettingsDTO)
  | noContent

def SettingsAnswer.status : SettingsAnswer → ℕ
  | .error status _ => status
  | .invalidOverrides _ => 400
  | .settings _ => 200
  | .noContent => 204

/-- A program of store calls that answers a request. -/
abbrev SettingsProgram := Resumption SettingsCall SettingsCall.Ret SettingsAnswer

/-- Read the rows of the keys. The first error ends the reading. -/
def readKeys : List SettingKey → Settings → (Option Settings → SettingsProgram) → SettingsProgram
  | [], rows, k => k (some rows)
  | key :: keys, rows, k =>
    .call (.getSetting key) fun
      | none => k none
      | some row => readKeys keys (Function.update rows key row) k

/-- `readSettings`. -/
def readSettings (k : Option SettingsDTO → SettingsProgram) : SettingsProgram :=
  readKeys shownKeys (fun _ => none) fun rows => k (rows.map settingsDTO)

/-- Write the rows. The first error ends the writing, and what is written stays. -/
def writeRows : List SettingRow → (Bool → SettingsProgram) → SettingsProgram
  | [], k => k true
  | row :: rows, k =>
    .call (.setSetting row) fun (ok : Bool) => if ok then writeRows rows k else k false

/-! ### The checks -/

section Checks

variable (quote : String → String) (inFirst : ℕ → Bool)

/-- The check that a number is within its bounds. -/
def rangeProblem (key : SettingKey) (value : Option Int64) (lo hi : Int64) :
    Option SettingsAnswer :=
  if ∃ n ∈ value, n < lo ∨ hi < n then
    some (.error 400 (key.name ++ " must be between " ++ toString lo ++ " and " ++ toString hi))
  else none

/-- The checks before the judge model's. -/
def SettingsPatch.countProblem (patch : SettingsPatch) : Option SettingsAnswer :=
  [rangeProblem .defaultSampleCount patch.defaultSampleCount 1 sampleCountMax,
    rangeProblem .evalConcurrency patch.evalConcurrency 1 maxEvalConcurrency,
    rangeProblem .judgeConcurrency patch.judgeConcurrency 1 maxEvalConcurrency,
    rangeProblem .evalCampaignBudgetMin patch.evalCampaignBudgetMin 0
      maxEvalCampaignBudgetMin].reduceOption.head?

/-- The check that a judge model is registered on some hub. An empty one is not checked. -/
def checkJudgeModel (judgeModel : Option String) (k : SettingsProgram) : SettingsProgram :=
  match judgeModel with
  | none => k
  | some modelId =>
    if modelId = "" then k
    else
      .call (.modelExistsAnywhere modelId) fun
        | none => .done (.error 500 "failed to check judge model")
        | some found =>
          if found then k
          else
            .done (.error 400 ("judge model " ++ quote modelId ++ " is not registered on any hub"))

def maxSuiteWeight : ℚ := 1000

/-- What is wrong with a weight. -/
def weightProblem (known : List String) (entry : String × ℚ) : Option String :=
  if entry.1 ∉ known then some ("suite_weights key " ++ quote entry.1 ++ " is not a suite")
  else if entry.2 ≤ 0 then some ("suite_weights[" ++ quote entry.1 ++ "] must be positive")
  else if maxSuiteWeight < entry.2 then
    some ("suite_weights[" ++ quote entry.1 ++ "] must be at most 1000")
  else none

/-- `validateSuiteWeights`. A failure to load the suites is answered like a bad weight. -/
def validateSuiteWeights (weights : Option SuiteWeights) (k : SettingsProgram) :
    SettingsProgram :=
  match weights with
  | none => k
  | some weights =>
    .call .listSuites fun
      | none => .done (.error 400 "failed to load suites")
      | some known =>
        match weights.findSome? (weightProblem quote known) with
        | some message => .done (.error 400 message)
        | none => k

/-- The checks of the hours, the overrides and the policy. -/
def SettingsPatch.lateProblem (patch : SettingsPatch) : Option SettingsAnswer :=
  let overrides := patch.modelRegistryOverrides.bind fun overrides =>
    match ModelRegistry.validate inFirst overrides with
    | .ok () => none
    | .error err => some (.invalidOverrides err)
  let policy := patch.juryPolicy.bind fun policy =>
    if policy ≠ "" ∧ validJuryPolicy policy = false then
      some (.error 400
        ("jury_policy must be one of balanced, speed, iq, cost; got " ++ quote policy))
    else none
  [rangeProblem .quietHoursStart patch.quietHoursStart 0 23,
    rangeProblem .quietHoursEnd patch.quietHoursEnd 0 23, overrides, policy].reduceOption.head?

/-! ### The handlers -/

/-- The names of the keys that are written. Their values stay out of the log. -/
def auditDetail (updates : List SettingRow) : String :=
  "keys=" ++ String.intercalate "," (updates.map fun row => row.1.name)

/-- The last part of `handlePutSettings`: write the fields, read the settings back and log. -/
def applyPatch (patch : SettingsPatch) : SettingsProgram :=
  writeRows patch.updates fun ok =>
    if ok then
      readSettings fun
        | none => .done (.error 500 "failed to read settings")
        | some dto =>
          -- an audit row that the store does not take is lost, the update stands
          .call (.audit (auditDetail patch.updates)) fun _ =>
            if patch.suiteWeights.isSome then
              .call .invalidateOverview fun _ => .done (.settings dto)
            else .done (.settings dto)
    else .done (.error 500 "failed to update settings")

/-- `PUT /api/settings`. -/
def handlePutSettings (body : Option SettingsPatch) : SettingsProgram :=
  match body with
  | none => .done (.error 400 "invalid request body")
  | some patch =>
    match patch.countProblem with
    | some answer => .done answer
    | none =>
      checkJudgeModel quote patch.judgeModel
        (validateSuiteWeights quote patch.suiteWeights
          (match patch.lateProblem quote inFirst with
          | some answer => .done answer
          | none => applyPatch patch))

/-- `GET /api/settings`. -/
def handleGetSettings : SettingsProgram :=
  readSettings fun
    | none => .done (.error 500 "failed to read settings")
    | some dto => .done (.settings dto)

/-- A request for the settings, or what else registers models and suites. -/
inductive SettingsRequest
  | get
  | put (body : Option SettingsPatch)
  | register (models suites : List String)

/-- The program of a request. -/
def serveSettings : SettingsRequest → SettingsProgram
  | .get => handleGetSettings
  | .put body => handlePutSettings quote inFirst body
  | .register models suites => .call (.register models suites) fun _ => .done .noContent

end Checks

/-! ### Bounds -/

/-- A number within its bounds, as it is stored. -/
def StoredWithin (lo hi : Int64) (s : Bytes) : Prop :=
  ∃ n, s = setSettingInt n ∧ lo ≤ n ∧ n ≤ hi

/-- A row that the checks let through. -/
def SettingKey.InRange : (key : SettingKey) → key.Value → Prop
  | .defaultSampleCount, s => StoredWithin 1 sampleCountMax s
  | .evalConcurrency, s | .judgeConcurrency, s => StoredWithin 1 maxEvalConcurrency s
  | .evalCampaignBudgetMin, s => StoredWithin 0 maxEvalCampaignBudgetMin s
  | .quietHoursStart, s | .quietHoursEnd, s => StoredWithin 0 23 s
  | .juryPolicy, policy => policy = "" ∨ validJuryPolicy policy = true
  | .suiteWeights, weights =>
    ∃ w, weights = some w ∧ ∀ e ∈ w, 0 < e.2 ∧ e.2 ≤ maxSuiteWeight
  | .modelRegistryOverrides, overrides => ∃ o, overrides = some o ∧
      o.length ≤ ModelRegistry.maxOverrides ∧ ∀ ov ∈ o, ov.Valid
  | .larkWebhookURL, _ | .alertEnabled, _ | .scoreDropAlertEnabled, _ | .judgeModel, _
  | .quietHoursEnabled, _ | .sessionSecret, _ => True

/-- Every row of the table is one that the checks let through. -/
def Settings.InRange (t : Settings) : Prop := ∀ key v, t key = some v → key.InRange v

/-- What is shown is within its bounds. -/
structure SettingsDTO.Bounded (dto : SettingsDTO) : Prop where
  defaultSampleCount : 1 ≤ dto.defaultSampleCount ∧ dto.defaultSampleCount ≤ sampleCountMax
  evalConcurrency : 1 ≤ dto.evalConcurrency ∧ dto.evalConcurrency ≤ maxEvalConcurrency
  judgeConcurrency : 1 ≤ dto.judgeConcurrency ∧ dto.judgeConcurrency ≤ maxEvalConcurrency
  evalCampaignBudgetMin :
    0 ≤ dto.evalCampaignBudgetMin ∧ dto.evalCampaignBudgetMin ≤ maxEvalCampaignBudgetMin
  quietHoursStart : 0 ≤ dto.quietHoursStart ∧ dto.quietHoursStart ≤ 23
  quietHoursEnd : 0 ≤ dto.quietHoursEnd ∧ dto.quietHoursEnd ≤ 23
  juryPolicy : dto.juryPolicy = "" ∨ validJuryPolicy dto.juryPolicy = true
  suiteWeights : ∀ e ∈ dto.suiteWeights, 0 < e.2 ∧ e.2 ≤ maxSuiteWeight
  modelRegistryOverrides : dto.modelRegistryOverrides.length ≤ ModelRegistry.maxOverrides ∧
    ∀ ov ∈ dto.modelRegistryOverrides, ov.Valid

variable {t : Settings}

theorem getSettingInt_mem {row : Option Bytes} {lo hi default : Int64}
    (hrow : ∀ s, row = some s → StoredWithin lo hi s) (hdefault : lo ≤ default ∧ default ≤ hi) :
    lo ≤ getSettingInt row default ∧ getSettingInt row default ≤ hi := by
  cases row with
  | none => rwa [getSettingInt_none]
  | some s =>
    obtain ⟨n, rfl, hn⟩ := hrow s rfl
    rwa [getSettingInt_setSettingInt]

/-- **A table in range is shown within the bounds.** Every default is within them. -/
theorem Settings.InRange.bounded (h : Settings.InRange t) : (settingsDTO t).Bounded where
  defaultSampleCount := getSettingInt_mem (h .defaultSampleCount) (by decide)
  evalConcurrency := getSettingInt_mem (h .evalConcurrency) (by decide)
  judgeConcurrency := getSettingInt_mem (h .judgeConcurrency) (by decide)
  evalCampaignBudgetMin := getSettingInt_mem (h .evalCampaignBudgetMin) (by decide)
  quietHoursStart := getSettingInt_mem (h .quietHoursStart) (by decide)
  quietHoursEnd := getSettingInt_mem (h .quietHoursEnd) (by decide)
  juryPolicy := by
    rw [settingsDTO]
    cases hrow : t .juryPolicy with
    | none =>
      have hdefault : validJuryPolicy defaultJuryPolicy = true := by decide
      exact .inr hdefault
    | some policy => exact h _ _ hrow
  suiteWeights := by
    rw [settingsDTO]
    cases hrow : t .suiteWeights with
    | none => exact fun _ he => nomatch he
    | some weights =>
      obtain ⟨w, rfl, hw⟩ := h _ _ hrow
      exact hw
  modelRegistryOverrides := by
    rw [settingsDTO]
    cases hrow : t .modelRegistryOverrides with
    | none => exact ⟨Nat.zero_le _, fun _ hov => nomatch hov⟩
    | some overrides =>
      obtain ⟨o, rfl, ho⟩ := h _ _ hrow
      exact ho

/-- What the evaluator has to make of what is shown. An empty policy stands for the default. -/
def SettingsDTO.evalSettings (dto : SettingsDTO) : EvalSettings where
  defaultSampleCount := dto.defaultSampleCount
  evalConcurrency := dto.evalConcurrency
  judgeConcurrency := dto.judgeConcurrency
  campaignBudgetMinutes := dto.evalCampaignBudgetMin
  juryPolicy := if dto.juryPolicy = "" then defaultJuryPolicy else dto.juryPolicy
  registryOverrides := dto.modelRegistryOverrides

/-- **The evaluator reads what is shown.** No clamp of its own changes a number in range. -/
theorem resolveSettings_eq (h : Settings.InRange t) :
    resolveSettings t = (settingsDTO t).evalSettings := by
  have hbounded := h.bounded
  have hpolicy : (if validJuryPolicy (settingsDTO t).juryPolicy = true
      then (settingsDTO t).juryPolicy else defaultJuryPolicy) =
      if (settingsDTO t).juryPolicy = "" then defaultJuryPolicy
      else (settingsDTO t).juryPolicy := by
    -- the evaluator takes an empty policy for an unknown one, and both for the default
    rcases hbounded.juryPolicy with hempty | hvalid
    · rw [hempty]
      rfl
    · have hne : (settingsDTO t).juryPolicy ≠ "" := by
        intro hempty
        rw [hempty] at hvalid
        exact absurd hvalid (by decide)
      rw [if_pos hvalid, if_neg hne]
  rw [resolveSettings, SettingsDTO.evalSettings, ← hpolicy]
  exact congr (congr (congr (congr (congr (congrArg EvalSettings.mk
    (clamp_eq_self hbounded.defaultSampleCount)) (clamp_eq_self hbounded.evalConcurrency))
    (clamp_eq_self hbounded.judgeConcurrency)) (clamp_eq_self hbounded.evalCampaignBudgetMin))
    rfl) rfl

/-! ### Patches -/

/-- A patch whose fields are within their bounds. -/
structure SettingsPatch.Bounded (patch : SettingsPatch) : Prop where
  defaultSampleCount : ∀ n ∈ patch.defaultSampleCount, 1 ≤ n ∧ n ≤ sampleCountMax
  evalConcurrency : ∀ n ∈ patch.evalConcurrency, 1 ≤ n ∧ n ≤ maxEvalConcurrency
  judgeConcurrency : ∀ n ∈ patch.judgeConcurrency, 1 ≤ n ∧ n ≤ maxEvalConcurrency
  evalCampaignBudgetMin :
    ∀ n ∈ patch.evalCampaignBudgetMin, 0 ≤ n ∧ n ≤ maxEvalCampaignBudgetMin
  suiteWeights : ∀ w ∈ patch.suiteWeights, ∀ e ∈ w, 0 < e.2 ∧ e.2 ≤ maxSuiteWeight
  quietHoursStart : ∀ n ∈ patch.quietHoursStart, 0 ≤ n ∧ n ≤ 23
  quietHoursEnd : ∀ n ∈ patch.quietHoursEnd, 0 ≤ n ∧ n ≤ 23
  modelRegistryOverrides : ∀ o ∈ patch.modelRegistryOverrides,
    o.length ≤ ModelRegistry.maxOverrides ∧ ∀ ov ∈ o, ov.Valid
  juryPolicy : ∀ policy ∈ patch.juryPolicy, policy = "" ∨ validJuryPolicy policy = true

/-- A patch that is accepted: within its bounds, with a judge model that is registered and weights
of suites that exist. -/
structure SettingsPatch.Valid (patch : SettingsPatch) (s : SettingsServer) : Prop where
  bounded : patch.Bounded
  judgeModel : ∀ modelId ∈ patch.judgeModel, modelId = "" ∨ modelId ∈ s.models
  suites : ∀ w ∈ patch.suiteWeights, ∀ e ∈ w, e.1 ∈ s.suites

/-- What a patch makes of what is shown. -/
def SettingsPatch.overlay (patch : SettingsPatch) (dto : SettingsDTO) : SettingsDTO where
  larkWebhookURL := patch.larkWebhookURL.getD dto.larkWebhookURL
  alertEnabled := patch.alertEnabled.getD dto.alertEnabled
  scoreDropAlertEnabled := patch.scoreDropAlertEnabled.getD dto.scoreDropAlertEnabled
  judgeModel := patch.judgeModel.getD dto.judgeModel
  juryPolicy := patch.juryPolicy.getD dto.juryPolicy
  defaultSampleCount := patch.defaultSampleCount.getD dto.defaultSampleCount
  evalConcurrency := patch.evalConcurrency.getD dto.evalConcurrency
  judgeConcurrency := patch.judgeConcurrency.getD dto.judgeConcurrency
  evalCampaignBudgetMin := patch.evalCampaignBudgetMin.getD dto.evalCampaignBudgetMin
  suiteWeights := patch.suiteWeights.getD dto.suiteWeights
  quietHoursEnabled := patch.quietHoursEnabled.getD dto.quietHoursEnabled
  quietHoursStart := patch.quietHoursStart.getD dto.quietHoursStart
  quietHoursEnd := patch.quietHoursEnd.getD dto.quietHoursEnd
  modelRegistryOverrides := patch.modelRegistryOverrides.getD dto.modelRegistryOverrides

/-- The table with the rows written. -/
def Settings.write (t : Settings) (rows : List SettingRow) : Settings :=
  rows.foldl (fun t row => Function.update t row.1 (some row.2)) t

section Fields

variable {α : Type} {key key' : SettingKey} {value : α → key.Value} {o : Option α}

/-- The table with a field written, if it is present. -/
def Settings.writeField (t : Settings) (o : Option SettingRow) : Settings :=
  Settings.write t o.toList

theorem write_reduceOption (fields : List (Option SettingRow)) :
    Settings.write t fields.reduceOption = fields.foldl Settings.writeField t := by
  induction fields generalizing t with
  | nil => rfl
  | cons o fields ih => cases o <;> simp [Settings.write, Settings.writeField, ← ih]

theorem writeField_self :
    Settings.writeField t (field key value o) key = (o.map value).or (t key) := by
  cases o with
  | none => rfl
  | some v => exact Function.update_self key _ t

theorem writeField_of_ne (h : key' ≠ key) :
    Settings.writeField t (field key value o) key' = t key' := by
  cases o with
  | none => rfl
  | some v => exact Function.update_of_ne h _ t

theorem getSettingInt_or (o : Option Int64) (row : Option Bytes) (default : Int64) :
    getSettingInt ((o.map setSettingInt).or row) default = o.getD (getSettingInt row default) := by
  cases o <;> simp

theorem getSettingBool_or (o : Option Bool) (row : Option String) (default : Bool) :
    getSettingBool ((o.map setSettingBool).or row) default =
      o.getD (getSettingBool row default) := by
  cases o <;> simp

theorem getSuiteWeights_or (o : Option SuiteWeights) (row : Option (Option SuiteWeights)) :
    getSuiteWeights ((o.map some).or row) = o.getD (getSuiteWeights row) := by
  cases o <;> rfl

theorem getOverrides_or (o : Option (List ModelRegistry.Override))
    (row : Option (Option (List ModelRegistry.Override))) :
    getOverrides ((o.map some).or row) = o.getD (getOverrides row) := by
  cases o <;> rfl

end Fields

/-- **What is written is shown.** The fields of a patch show what it says, and no other field
changes. -/
theorem settingsDTO_write (t : Settings) (patch : SettingsPatch) :
    settingsDTO (Settings.write t patch.updates) = patch.overlay (settingsDTO t) := by
  have hwrite : Settings.write t patch.updates = patch.fields.foldl Settings.writeField t :=
    write_reduceOption patch.fields
  simp [settingsDTO, SettingsPatch.overlay, hwrite, SettingsPatch.fields, writeField_self,
    writeField_of_ne, getSettingInt_or, getSettingBool_or, getSuiteWeights_or, getOverrides_or]

/-! ### What the checks let through -/

variable {quote : String → String} {inFirst : ℕ → Bool} {patch : SettingsPatch}

theorem rangeProblem_eq_none_iff {key : SettingKey} {value : Option Int64} {lo hi : Int64} :
    rangeProblem key value lo hi = none ↔ ∀ n ∈ value, lo ≤ n ∧ n ≤ hi := by
  rw [rangeProblem, ite_eq_right_iff]
  constructor
  · intro h n hn
    by_contra hout
    refine absurd (h ⟨n, hn, ?_⟩) (by simp)
    rw [← Int64.not_le, ← Int64.not_le]
    exact not_and_or.mp hout
  · rintro h ⟨n, hn, hout⟩
    obtain ⟨hlo, hhi⟩ := h n hn
    rcases hout with hout | hout
    · exact absurd hlo (Int64.not_le.mpr hout)
    · exact absurd hhi (Int64.not_le.mpr hout)

/-- The first problem of a list of checks. -/
theorem head_reduceOption_eq_none_iff {α : Type} {xs : List (Option α)} :
    xs.reduceOption.head? = none ↔ ∀ x ∈ xs, x = none := by
  rw [List.head?_eq_none_iff, List.reduceOption, List.filterMap_eq_nil_iff]
  rfl

theorem countProblem_eq_none_iff : patch.countProblem = none ↔
    (∀ n ∈ patch.defaultSampleCount, 1 ≤ n ∧ n ≤ sampleCountMax) ∧
    (∀ n ∈ patch.evalConcurrency, 1 ≤ n ∧ n ≤ maxEvalConcurrency) ∧
    (∀ n ∈ patch.judgeConcurrency, 1 ≤ n ∧ n ≤ maxEvalConcurrency) ∧
    ∀ n ∈ patch.evalCampaignBudgetMin, 0 ≤ n ∧ n ≤ maxEvalCampaignBudgetMin := by
  simp only [SettingsPatch.countProblem, head_reduceOption_eq_none_iff, List.forall_mem_cons,
    List.not_mem_nil, false_imp_iff, implies_true, and_true, rangeProblem_eq_none_iff]

theorem overridesProblem_eq_none_iff {o : List ModelRegistry.Override} :
    (match ModelRegistry.validate inFirst o with
      | .ok () => none
      | .error err => some (SettingsAnswer.invalidOverrides err)) = none ↔
    o.length ≤ ModelRegistry.maxOverrides ∧ ∀ ov ∈ o, ov.Valid := by
  have haccepted : ModelRegistry.validate inFirst o = .ok () ↔
      o.length ≤ ModelRegistry.maxOverrides ∧ ∀ ov ∈ o, ov.Valid :=
    ModelRegistry.validate_eq_ok_iff
  rw [← haccepted]
  cases ModelRegistry.validate inFirst o <;> simp

theorem lateProblem_eq_none_iff : patch.lateProblem quote inFirst = none ↔
    (∀ n ∈ patch.quietHoursStart, 0 ≤ n ∧ n ≤ 23) ∧
    (∀ n ∈ patch.quietHoursEnd, 0 ≤ n ∧ n ≤ 23) ∧
    (∀ o ∈ patch.modelRegistryOverrides,
      o.length ≤ ModelRegistry.maxOverrides ∧ ∀ ov ∈ o, ov.Valid) ∧
    ∀ policy ∈ patch.juryPolicy, policy = "" ∨ validJuryPolicy policy = true := by
  simp only [SettingsPatch.lateProblem, head_reduceOption_eq_none_iff, List.forall_mem_cons,
    List.not_mem_nil, false_imp_iff, implies_true, and_true, rangeProblem_eq_none_iff,
    Option.bind_eq_none_iff, overridesProblem_eq_none_iff, ite_eq_right_iff, reduceCtorEq]
  simp only [imp_false, not_and_or, not_not, Bool.not_eq_false, ne_eq]
  rfl

theorem weightProblem_eq_none_iff {known : List String} {e : String × ℚ} :
    weightProblem quote known e = none ↔ e.1 ∈ known ∧ 0 < e.2 ∧ e.2 ≤ maxSuiteWeight := by
  rw [weightProblem]
  split_ifs with hknown hpos hmax
  · exact iff_of_false (by simp) fun h => absurd h.2.1 (not_lt.mpr hpos)
  · exact iff_of_false (by simp) fun h => absurd h.2.2 (not_le.mpr hmax)
  · exact iff_of_true rfl ⟨hknown, not_le.mp hpos, not_lt.mp hmax⟩
  · exact iff_of_false (by simp) fun h => hknown h.1

/-- What is wrong with a field is answered 400. -/
theorem status_of_rangeProblem {key : SettingKey} {value : Option Int64} {lo hi : Int64}
    {answer : SettingsAnswer} (h : rangeProblem key value lo hi = some answer) :
    answer.status = 400 := by
  rw [rangeProblem] at h
  split_ifs at h
  cases h
  rfl

theorem status_of_countProblem {answer : SettingsAnswer}
    (h : patch.countProblem = some answer) : answer.status = 400 := by
  have hmem := List.reduceOption_mem_iff.mp (List.mem_of_mem_head? h)
  simp only [List.mem_cons, List.not_mem_nil, or_false] at hmem
  rcases hmem with hmem | hmem | hmem | hmem <;> exact status_of_rangeProblem hmem.symm

theorem status_of_lateProblem {answer : SettingsAnswer}
    (h : patch.lateProblem quote inFirst = some answer) : answer.status = 400 := by
  have hmem := List.reduceOption_mem_iff.mp (List.mem_of_mem_head? h)
  simp only [List.mem_cons, List.not_mem_nil, or_false] at hmem
  rcases hmem with hmem | hmem | hmem | hmem
  · exact status_of_rangeProblem hmem.symm
  · exact status_of_rangeProblem hmem.symm
  · obtain ⟨o, -, hproblem⟩ := Option.bind_eq_some_iff.mp hmem.symm
    cases hvalid : ModelRegistry.validate inFirst o with
    | ok => simp [hvalid] at hproblem
    | error err =>
      simp only [hvalid, Option.some.injEq] at hproblem
      rw [← hproblem]
      rfl
  · obtain ⟨policy, -, hproblem⟩ := Option.bind_eq_some_iff.mp hmem.symm
    split_ifs at hproblem
    cases hproblem
    rfl

/-- The rows of a patch within its bounds are in range. -/
theorem SettingsPatch.Bounded.updates (h : patch.Bounded) :
    ∀ row ∈ patch.updates, row.1.InRange row.2 := by
  have hfields : ∀ o ∈ patch.fields, ∀ row ∈ o, row.1.InRange row.2 := by
    simp only [SettingsPatch.fields, List.forall_mem_cons, List.not_mem_nil, false_imp_iff,
      implies_true, and_true, field, Option.mem_map, forall_exists_index, and_imp,
      forall_apply_eq_imp_iff₂]
    refine ⟨fun _ _ => trivial, fun _ _ => trivial, fun _ _ => trivial, fun _ _ => trivial,
      h.juryPolicy, fun n hn => ⟨n, rfl, h.defaultSampleCount n hn⟩,
      fun n hn => ⟨n, rfl, h.evalConcurrency n hn⟩,
      fun n hn => ⟨n, rfl, h.judgeConcurrency n hn⟩,
      fun n hn => ⟨n, rfl, h.evalCampaignBudgetMin n hn⟩,
      fun w hw => ⟨w, rfl, h.suiteWeights w hw⟩, fun _ _ => trivial,
      fun n hn => ⟨n, rfl, h.quietHoursStart n hn⟩, fun n hn => ⟨n, rfl, h.quietHoursEnd n hn⟩,
      fun o ho => ⟨o, rfl, h.modelRegistryOverrides o ho⟩⟩
  intro row hrow
  exact hfields _ (List.reduceOption_mem_iff.mp hrow) row rfl

/-! ### Every interleaving -/

/-- What a call may be answered while the table is in range. -/
def SettingsCall.Admits : (op : SettingsCall) → op.Ret → Prop
  | .getSetting key, (row : Option (Option key.Value)) => ∀ v, row = some (some v) → key.InRange v
  | .setSetting _, _ | .modelExistsAnywhere _, _ | .listSuites, _ | .audit _, _
  | .invalidateOverview, _ | .register .., _ => True

/-- A row that a call writes is in range. -/
def SettingsCall.WritesInRange : SettingsCall → Prop
  | .setSetting row => row.1.InRange row.2
  | .getSetting _ | .modelExistsAnywhere _ | .listSuites | .audit _ | .invalidateOverview
  | .register .. => True

/-- An answer that shows settings shows them within the bounds. -/
def SettingsAnswer.Bounded : SettingsAnswer → Prop
  | .settings dto => dto.Bounded
  | .error .. | .invalidOverrides _ | .noContent => True

theorem SettingsAnswer.bounded_of_refusal {answer : SettingsAnswer} (h : answer.status = 400) :
    answer.Bounded := by
  cases answer with
  | settings => cases h
  | error | invalidOverrides | noContent => trivial

/-- A program that writes rows in range and answers within the bounds. -/
abbrev SettingsProgram.Sound (p : SettingsProgram) : Prop :=
  p.Meets SettingsCall.WritesInRange SettingsCall.Admits SettingsAnswer.Bounded

theorem SettingsCall.admits_exec (s : SettingsServer) (ok : Bool) (op : SettingsCall)
    (h : Settings.InRange s.settings) : op.Admits (exec s ok op).1 := by
  cases op with
  | getSetting key =>
    intro v hv
    cases ok with
    | false => cases hv
    | true => exact h key v (Option.some.inj hv)
  | setSetting | modelExistsAnywhere | listSuites | audit | invalidateOverview | register =>
    trivial

theorem Settings.InRange.update {row : SettingRow} (h : Settings.InRange t)
    (hrow : row.1.InRange row.2) :
    Settings.InRange (Function.update t row.1 (some row.2)) := by
  intro key v hv
  -- the row that is written is in range, the others were
  by_cases hkey : key = row.1
  · subst hkey
    rw [Function.update_self] at hv
    rwa [← Option.some.inj hv]
  · rw [Function.update_of_ne hkey] at hv
    exact h key v hv

theorem SettingsCall.inRange_exec (s : SettingsServer) (ok : Bool) (op : SettingsCall)
    (hop : op.WritesInRange) (h : Settings.InRange s.settings) :
    Settings.InRange (exec s ok op).2.settings := by
  cases op with
  | setSetting row =>
    cases ok with
    | false => exact h
    | true => exact h.update hop
  | audit => cases ok <;> exact h
  | getSetting | modelExistsAnywhere | listSuites | invalidateOverview | register => exact h

theorem sound_readKeys {keys : List SettingKey} {rows : Settings}
    {k : Option Settings → SettingsProgram} (hrows : Settings.InRange rows)
    (hnone : (k none).Sound) (hsome : ∀ rows, Settings.InRange rows → (k (some rows)).Sound) :
    (readKeys keys rows k).Sound := by
  induction keys generalizing rows with
  | nil => exact hsome rows hrows
  | cons key keys ih =>
    refine .call trivial fun row hrow => ?_
    cases row with
    | none => exact hnone
    | some row =>
      refine ih fun key' v hv => ?_
      by_cases hkey : key' = key
      · subst hkey
        rw [Function.update_self] at hv
        exact hrow v (congrArg some hv)
      · rw [Function.update_of_ne hkey] at hv
        exact hrows key' v hv

theorem sound_readSettings {k : Option SettingsDTO → SettingsProgram} (hnone : (k none).Sound)
    (hsome : ∀ dto : SettingsDTO, dto.Bounded → (k (some dto)).Sound) : (readSettings k).Sound :=
  sound_readKeys (fun _ _ hv => nomatch hv) hnone fun _ hrows => hsome _ hrows.bounded

theorem sound_writeRows {rows : List SettingRow} {k : Bool → SettingsProgram}
    (hrows : ∀ row ∈ rows, row.1.InRange row.2) (hk : ∀ ok, (k ok).Sound) :
    (writeRows rows k).Sound := by
  induction rows with
  | nil => exact hk true
  | cons row rows ih =>
    refine .call (hrows row List.mem_cons_self) fun ok _ => ?_
    cases ok with
    | false => exact hk false
    | true => exact ih fun row hrow => hrows row (List.mem_cons_of_mem _ hrow)

theorem sound_applyPatch (h : patch.Bounded) : (applyPatch patch).Sound := by
  unfold applyPatch
  refine sound_writeRows h.updates fun ok => ?_
  cases ok with
  | false => exact .done trivial
  | true =>
    rw [if_pos rfl]
    apply sound_readSettings
    · exact .done trivial
    · intro dto hdto
      refine .call trivial fun _ _ => ?_
      split_ifs
      · exact .call trivial fun _ _ => .done hdto
      · exact .done hdto

theorem sound_checkJudgeModel {judgeModel : Option String} {k : SettingsProgram}
    (hk : k.Sound) : (checkJudgeModel quote judgeModel k).Sound := by
  unfold checkJudgeModel
  cases judgeModel with
  | none => exact hk
  | some modelId =>
    dsimp only
    split_ifs
    · exact hk
    · refine .call trivial fun found _ => ?_
      match found with
      | none => exact .done trivial
      | some false => exact .done trivial
      | some true => exact hk

theorem sound_validateSuiteWeights {weights : Option SuiteWeights} {k : SettingsProgram}
    (hk : (∀ w ∈ weights, ∀ e ∈ w, 0 < e.2 ∧ e.2 ≤ maxSuiteWeight) → k.Sound) :
    (validateSuiteWeights quote weights k).Sound := by
  unfold validateSuiteWeights
  cases weights with
  | none => exact hk fun _ hw => nomatch hw
  | some weights =>
    refine .call trivial fun known _ => ?_
    cases known with
    | none => exact .done trivial
    | some known =>
      dsimp only
      cases hproblem : weights.findSome? (weightProblem quote known) with
      | some message => exact .done trivial
      | none =>
        refine hk fun w hw e he => ?_
        cases hw
        exact (weightProblem_eq_none_iff.mp (List.findSome?_eq_none_iff.mp hproblem e he)).2

theorem sound_handlePutSettings (body : Option SettingsPatch) :
    (handlePutSettings quote inFirst body).Sound := by
  unfold handlePutSettings
  cases body with
  | none => exact .done trivial
  | some patch =>
    -- the checks in the order of the source: the counts, the judge model, the weights, the rest
    cases hcount : patch.countProblem with
    | some answer =>
      simp only [hcount]
      exact .done (SettingsAnswer.bounded_of_refusal (status_of_countProblem hcount))
    | none =>
      simp only [hcount]
      obtain ⟨hsamples, hexam, hjudge, hbudget⟩ := countProblem_eq_none_iff.mp hcount
      refine sound_checkJudgeModel (sound_validateSuiteWeights fun hweights => ?_)
      cases hlate : patch.lateProblem quote inFirst with
      | some answer =>
        exact .done (SettingsAnswer.bounded_of_refusal (status_of_lateProblem hlate))
      | none =>
        obtain ⟨hstart, hend, hoverrides, hpolicy⟩ := lateProblem_eq_none_iff.mp hlate
        exact sound_applyPatch
          ⟨hsamples, hexam, hjudge, hbudget, hweights, hstart, hend, hoverrides, hpolicy⟩

theorem sound_serveSettings (req : SettingsRequest) :
    (serveSettings quote inFirst req).Sound := by
  cases req with
  | get =>
    rw [serveSettings, handleGetSettings]
    apply sound_readSettings
    · exact .done trivial
    · exact fun dto hdto => .done hdto
  | put body => exact sound_handlePutSettings body
  | register models suites => exact .call trivial fun _ _ => .done trivial

/-- **Settings stay in range.** From a table in range, in every interleaving of reads and updates
with each other and with changes of the models and the suites, whatever store calls fail, the
table is in range, every answer shows the settings within their bounds, the evaluator reads what
the page shows, and a lookup in the registry under the overrides is within the bounds. -/
theorem settings_of_reach {s s' : Threads SettingsRequest SettingsCall SettingsCall.Ret
      SettingsAnswer SettingsServer} (hrange : Settings.InRange s.shared.settings)
    (hidle : s.threads = [])
    (h : Transition.Reachable (Threads.step SettingsCall.exec (serveSettings quote inFirst)) s s') :
    Settings.InRange s'.shared.settings ∧ (settingsDTO s'.shared.settings).Bounded ∧
      (∀ req dto, (req, .done (.settings dto)) ∈ s'.threads → dto.Bounded) ∧
      resolveSettings s'.shared.settings = (settingsDTO s'.shared.settings).evalSettings ∧
      ∀ modelId, (ModelRegistry.lookup modelId
        (resolveSettings s'.shared.settings).registryOverrides).Bounded := by
  -- the invariant is on the shared table, and on each program that its answers keep the bounds
  obtain ⟨hshared, hthreads⟩ := Threads.meets_of_reach
    (I := fun s : SettingsServer => Settings.InRange s.settings) SettingsCall.admits_exec
    SettingsCall.inRange_exec sound_serveSettings hrange hidle h
  refine ⟨hshared, hshared.bounded, fun req dto hth => (hthreads _ hth).result,
    resolveSettings_eq hshared, fun modelId => ?_⟩
  rw [resolveSettings_eq hshared]
  have hvalid : ModelRegistry.validate inFirst _ = .ok () :=
    ModelRegistry.validate_eq_ok_iff.mpr hshared.bounded.modelRegistryOverrides
  exact ModelRegistry.lookup_bounded modelId hvalid

/-- A server whose settings were never written. -/
def blankServer : SettingsServer := ⟨fun _ => none, ["m"], ["s"], [], 0⟩

/-- A patch without fields. -/
def noPatch : SettingsPatch :=
  ⟨none, none, none, none, none, none, none, none, none, none, none, none, none, none⟩

/-- Two updates of one number, call by call in turn until both are answered. The second is written
after the first. -/
def twoUpdates : List (ThreadLabel SettingsRequest) :=
  [.start (.put (some { noPatch with evalConcurrency := some 16 })),
    .start (.put (some { noPatch with evalConcurrency := some 2 }))] ++
    (List.replicate 16 [.call 0 true, .call 1 true]).flatten

/-- Both answers show the number that was written last. -/
theorem settings_of_reach_two : ∃ s' dto, Transition.replay
      (Threads.step SettingsCall.exec (serveSettings id fun _ => true)) ⟨blankServer, []⟩
        twoUpdates = some s' ∧
    s'.threads = [(.put (some { noPatch with evalConcurrency := some 16 }), .done (.settings dto)),
      (.put (some { noPatch with evalConcurrency := some 2 }), .done (.settings dto))] ∧
    dto.evalConcurrency = 2 ∧ dto.Bounded := by
  have hblank : Settings.InRange blankServer.settings := fun _ _ hv => by cases hv
  obtain ⟨s', hs'⟩ : ∃ s', Transition.replay (Threads.step SettingsCall.exec
      (serveSettings id fun _ => true)) ⟨blankServer, []⟩ twoUpdates = some s' := ⟨_, rfl⟩
  obtain ⟨dto, hanswers, htwo⟩ : ∃ dto, s'.threads =
      [(.put (some { noPatch with evalConcurrency := some 16 }), .done (.settings dto)),
        (.put (some { noPatch with evalConcurrency := some 2 }), .done (.settings dto))] ∧
      dto.evalConcurrency = 2 := by
    cases hs'
    exact ⟨_, rfl, by decide⟩
  refine ⟨s', dto, hs', hanswers, htwo, ?_⟩
  have hreach := settings_of_reach hblank rfl (Transition.Reach.of_replay hs')
  exact hreach.2.2.1 _ dto (hanswers ▸ List.mem_cons_self)

/-! ### An update that nothing disturbs -/

section Run

variable {outcomes : ℕ → Bool} {n : ℕ} {s : SettingsServer}

theorem forall_lt_succ_of {m : ℕ} (hn : outcomes n = true)
    (h : ∀ i < m, outcomes (n + 1 + i) = true) : ∀ i < m + 1, outcomes (n + i) = true := by
  intro i hi
  cases i with
  | zero => exact hn
  | succ i =>
    rw [Nat.add_comm i, ← Nat.add_assoc]
    exact h i (Nat.lt_of_succ_lt_succ hi)

/-- Reading the keys changes nothing. It gives the rows, or one of its calls fails. -/
theorem run_readKeys (keys : List SettingKey) (rows : Settings)
    (k : Option Settings → SettingsProgram) :
    ((∀ i < keys.length, outcomes (n + i) = true) ∧
      (readKeys keys rows k).run SettingsCall.exec outcomes n s =
        (k (some (keys.foldl (fun rows key => Function.update rows key (s.settings key)) rows))).run
          SettingsCall.exec outcomes (n + keys.length) s) ∨
    ∃ i < keys.length, outcomes (n + i) = false ∧ ∃ n',
      (readKeys keys rows k).run SettingsCall.exec outcomes n s =
        (k none).run SettingsCall.exec outcomes n' s := by
  induction keys generalizing rows n with
  | nil => exact .inl ⟨by simp, rfl⟩
  | cons key keys ih =>
    rw [readKeys, Resumption.run_call]
    cases hok : outcomes n with
    | false => exact .inr ⟨0, Nat.succ_pos _, hok, n + 1, rfl⟩
    | true =>
      rcases ih (n := n + 1) (Function.update rows key (s.settings key)) with
        ⟨hall, hrun⟩ | ⟨i, hi, hfailed, n', hrun⟩
      · refine .inl ⟨forall_lt_succ_of hok hall, ?_⟩
        rw [List.length_cons, Nat.add_comm keys.length, ← Nat.add_assoc]
        exact hrun
      · refine .inr ⟨i + 1, Nat.succ_lt_succ hi, ?_, n', hrun⟩
        rwa [Nat.add_comm i, ← Nat.add_assoc]

theorem run_readSettings (k : Option SettingsDTO → SettingsProgram) :
    ((∀ i < shownKeys.length, outcomes (n + i) = true) ∧
      (readSettings k).run SettingsCall.exec outcomes n s =
        (k (some (settingsDTO s.settings))).run SettingsCall.exec outcomes
          (n + shownKeys.length) s) ∨
    ∃ i < shownKeys.length, outcomes (n + i) = false ∧ ∃ n',
      (readSettings k).run SettingsCall.exec outcomes n s =
        (k none).run SettingsCall.exec outcomes n' s :=
  run_readKeys shownKeys (fun _ => none) fun rows => k (rows.map settingsDTO)

/-- Writing rows writes all of them, or those before the one whose call fails. -/
theorem run_writeRows (rows : List SettingRow) (k : Bool → SettingsProgram) :
    ((∀ i < rows.length, outcomes (n + i) = true) ∧
      (writeRows rows k).run SettingsCall.exec outcomes n s =
        (k true).run SettingsCall.exec outcomes (n + rows.length)
          { s with settings := Settings.write s.settings rows }) ∨
    ∃ m < rows.length, (∀ i < m, outcomes (n + i) = true) ∧ outcomes (n + m) = false ∧
      (writeRows rows k).run SettingsCall.exec outcomes n s =
        (k false).run SettingsCall.exec outcomes (n + m + 1)
          { s with settings := Settings.write s.settings (rows.take m) } := by
  induction rows generalizing n s with
  | nil => exact .inl ⟨by simp, rfl⟩
  | cons row rows ih =>
    rw [writeRows, Resumption.run_call]
    cases hok : outcomes n with
    | false => exact .inr ⟨0, Nat.succ_pos _, by simp, hok, rfl⟩
    | true =>
      rcases ih (n := n + 1)
          (s := { s with settings := Function.update s.settings row.1 (some row.2) }) with
        ⟨hall, hrun⟩ | ⟨m, hm, hbefore, hfailed, hrun⟩
      · refine .inl ⟨forall_lt_succ_of hok hall, ?_⟩
        rw [List.length_cons, Nat.add_comm rows.length, ← Nat.add_assoc]
        exact hrun
      · refine .inr ⟨m + 1, Nat.succ_lt_succ hm, forall_lt_succ_of hok hbefore, ?_, ?_⟩
        · rwa [Nat.add_comm m, ← Nat.add_assoc]
        · -- the failing write is counted among the calls, so the next one comes after it
          have hcalls : n + (m + 1) + 1 = n + 1 + m + 1 := by omega
          rw [hcalls]
          exact hrun

/-- The calls that the checks of a patch make: one for a judge model that is not empty, and one for
the weights. -/
def SettingsPatch.checkCalls (patch : SettingsPatch) : ℕ :=
  (patch.judgeModel.any (· ≠ "")).toNat + patch.suiteWeights.isSome.toNat

/-- What comes of an update whose first call is the `n`-th. It is refused and nothing is written;
a call of its checks fails; the write of a field fails, and exactly the fields before it are
written; a call that reads the settings back fails; or it is applied and shown, and logged if the
log takes it. -/
inductive PutOutcome (outcomes : ℕ → Bool) (n : ℕ) (s : SettingsServer) (patch : SettingsPatch) :
    SettingsAnswer × SettingsServer → Prop
  | refused {answer : SettingsAnswer} (hstatus : answer.status = 400) (hinvalid : ¬ patch.Valid s) :
      PutOutcome outcomes n s patch (answer, s)
  | unchecked {status : ℕ} {message : String}
      (hfailed : ∃ i < patch.checkCalls, outcomes (n + i) = false) :
      PutOutcome outcomes n s patch (.error status message, s)
  | broken (m : ℕ) (hvalid : patch.Valid s) (hm : m < patch.updates.length)
      (hwritten : ∀ i < m, outcomes (n + patch.checkCalls + i) = true)
      (hfailed : outcomes (n + patch.checkCalls + m) = false) :
      PutOutcome outcomes n s patch (.error 500 "failed to update settings",
        { s with settings := Settings.write s.settings (patch.updates.take m) })
  | unread (hvalid : patch.Valid s)
      (hwritten : ∀ i < patch.updates.length, outcomes (n + patch.checkCalls + i) = true)
      (hfailed : ∃ i < shownKeys.length,
        outcomes (n + patch.checkCalls + patch.updates.length + i) = false) :
      PutOutcome outcomes n s patch (.error 500 "failed to read settings",
        { s with settings := Settings.write s.settings patch.updates })
  | applied (hvalid : patch.Valid s)
      (hwritten : ∀ i < patch.updates.length, outcomes (n + patch.checkCalls + i) = true)
      (hread : ∀ i < shownKeys.length,
        outcomes (n + patch.checkCalls + patch.updates.length + i) = true) :
      PutOutcome outcomes n s patch
        (.settings (patch.overlay (settingsDTO s.settings)),
          { s with
            settings := Settings.write s.settings patch.updates
            audits :=
              if outcomes (n + patch.checkCalls + patch.updates.length + shownKeys.length) then
                s.audits ++ [auditDetail patch.updates]
              else s.audits
            invalidations := s.invalidations + patch.suiteWeights.isSome.toNat })

variable (quote outcomes n s)

/-- The check of the judge model goes on, refuses the model, or fails. -/
theorem run_checkJudgeModel (judgeModel : Option String) (k : SettingsProgram) :
    ((∀ modelId ∈ judgeModel, modelId = "" ∨ modelId ∈ s.models) ∧
      (checkJudgeModel quote judgeModel k).run SettingsCall.exec outcomes n s =
        k.run SettingsCall.exec outcomes (n + (judgeModel.any (· ≠ "")).toNat) s) ∨
    (∃ message, (¬ ∀ modelId ∈ judgeModel, modelId = "" ∨ modelId ∈ s.models) ∧
      (checkJudgeModel quote judgeModel k).run SettingsCall.exec outcomes n s =
        (.error 400 message, s)) ∨
    ∃ message, judgeModel.any (· ≠ "") = true ∧ outcomes n = false ∧
      (checkJudgeModel quote judgeModel k).run SettingsCall.exec outcomes n s =
        (.error 500 message, s) := by
  unfold checkJudgeModel
  cases judgeModel with
  | none => exact .inl ⟨by simp, rfl⟩
  | some modelId =>
    dsimp only
    split_ifs with hempty
    · exact .inl ⟨fun _ h => .inl (Option.some.inj h ▸ hempty), by simp [hempty]⟩
    · have hasked : (some modelId).any (· ≠ "") = true := by simpa using hempty
      rw [Resumption.run_call, hasked]
      cases hok : outcomes n with
      | false => exact .inr (.inr ⟨_, rfl, rfl, rfl⟩)
      | true =>
        by_cases hfound : modelId ∈ s.models
        · refine .inl ⟨fun _ h => .inr (Option.some.inj h ▸ hfound), ?_⟩
          simp [SettingsCall.exec, hfound]
        · refine .inr (.inl ⟨_, fun h => ?_, by simp [SettingsCall.exec, hfound]; rfl⟩)
          exact (h modelId rfl).elim hempty hfound

/-- The check of the weights goes on, refuses them, or fails. -/
theorem run_validateSuiteWeights (weights : Option SuiteWeights) (k : SettingsProgram) :
    ((∀ w ∈ weights, ∀ e ∈ w, e.1 ∈ s.suites ∧ 0 < e.2 ∧ e.2 ≤ maxSuiteWeight) ∧
      (validateSuiteWeights quote weights k).run SettingsCall.exec outcomes n s =
        k.run SettingsCall.exec outcomes (n + weights.isSome.toNat) s) ∨
    (∃ message,
      (¬ ∀ w ∈ weights, ∀ e ∈ w, e.1 ∈ s.suites ∧ 0 < e.2 ∧ e.2 ≤ maxSuiteWeight) ∧
      (validateSuiteWeights quote weights k).run SettingsCall.exec outcomes n s =
        (.error 400 message, s)) ∨
    ∃ message, weights.isSome = true ∧ outcomes n = false ∧
      (validateSuiteWeights quote weights k).run SettingsCall.exec outcomes n s =
        (.error 400 message, s) := by
  unfold validateSuiteWeights
  cases weights with
  | none => exact .inl ⟨by simp, rfl⟩
  | some weights =>
    rw [Resumption.run_call]
    cases hok : outcomes n with
    | false => exact .inr (.inr ⟨_, rfl, rfl, rfl⟩)
    | true =>
      have hiff : weights.findSome? (weightProblem quote s.suites) = none ↔
          ∀ e ∈ weights, e.1 ∈ s.suites ∧ 0 < e.2 ∧ e.2 ≤ maxSuiteWeight := by
        rw [List.findSome?_eq_none_iff]
        exact forall₂_congr fun _ _ => weightProblem_eq_none_iff
      cases hproblem : weights.findSome? (weightProblem quote s.suites) with
      | none =>
        refine .inl ⟨fun _ h => Option.some.inj h ▸ hiff.mp hproblem, ?_⟩
        simp [SettingsCall.exec, hproblem]
      | some message =>
        refine .inr (.inl ⟨message, fun h => ?_, by simp [SettingsCall.exec, hproblem]⟩)
        rw [hiff.mpr (h weights rfl)] at hproblem
        cases hproblem

variable {quote outcomes n s}

/-- A patch that passed the checks is applied, or a call fails. -/
theorem run_applyPatch (hvalid : patch.Valid s) : PutOutcome outcomes n s patch
    ((applyPatch patch).run SettingsCall.exec outcomes (n + patch.checkCalls) s) := by
  unfold applyPatch
  rcases run_writeRows (n := n + patch.checkCalls) (s := s) patch.updates _ with
    ⟨hwritten, hrun⟩ | ⟨m, hm, hwritten, hfailed, hrun⟩
  · rw [hrun, if_pos rfl]
    rcases run_readSettings (n := n + patch.checkCalls + patch.updates.length) _ with
      ⟨hread, hrun⟩ | ⟨i, hi, hfailed, _, hrun⟩
    · rw [hrun, settingsDTO_write]
      dsimp only
      rw [Resumption.run_call]
      have happlied := PutOutcome.applied hvalid hwritten hread
      generalize outcomes (n + patch.checkCalls + patch.updates.length + shownKeys.length) =
        logged at happlied ⊢
      cases hweights : patch.suiteWeights with
      | none =>
        rw [hweights] at happlied
        cases logged <;> simpa [SettingsCall.exec] using happlied
      | some weights =>
        rw [hweights] at happlied
        cases logged <;> simpa [SettingsCall.exec] using happlied
    · rw [hrun]
      exact .unread hvalid hwritten ⟨i, hi, hfailed⟩
  · rw [hrun]
    exact .broken m hvalid hm hwritten hfailed

/-- **An update alone** is refused and changes nothing if it is not valid; it is applied as a whole,
read back and logged if it is; and where the write of a field fails, exactly the fields before it
are written and nothing is logged. -/
theorem run_handlePutSettings (s : SettingsServer) (patch : SettingsPatch) (n : ℕ) :
    PutOutcome outcomes n s patch
      ((handlePutSettings quote inFirst (some patch)).run SettingsCall.exec outcomes n s) := by
  unfold handlePutSettings
  dsimp only
  cases hcount : patch.countProblem with
  | some answer =>
    refine .refused (status_of_countProblem hcount) fun hvalid => ?_
    have hbounded := hvalid.bounded
    rw [countProblem_eq_none_iff.mpr ⟨hbounded.defaultSampleCount, hbounded.evalConcurrency,
      hbounded.judgeConcurrency, hbounded.evalCampaignBudgetMin⟩] at hcount
    cases hcount
  | none =>
    obtain ⟨hsamples, hexam, hjudge, hbudget⟩ := countProblem_eq_none_iff.mp hcount
    dsimp only
    obtain ⟨hmodel, hrun⟩ | ⟨message, hmodel, hrun⟩ | ⟨message, hasked, hfailed, hrun⟩ :=
      run_checkJudgeModel quote outcomes n s patch.judgeModel _
    · rw [hrun]
      obtain ⟨hweights, hrun⟩ | ⟨message, hweights, hrun⟩ | ⟨message, hasked, hfailed, hrun⟩ :=
        run_validateSuiteWeights quote outcomes (n + (patch.judgeModel.any (· ≠ "")).toNat) s
          patch.suiteWeights _
      · rw [hrun, Nat.add_assoc]
        cases hlate : patch.lateProblem quote inFirst with
        | some answer =>
          refine .refused (status_of_lateProblem hlate) fun hvalid => ?_
          have hbounded := hvalid.bounded
          rw [lateProblem_eq_none_iff.mpr ⟨hbounded.quietHoursStart, hbounded.quietHoursEnd,
            hbounded.modelRegistryOverrides, hbounded.juryPolicy⟩] at hlate
          cases hlate
        | none =>
          obtain ⟨hstart, hend, hoverrides, hpolicy⟩ := lateProblem_eq_none_iff.mp hlate
          have hbounded : patch.Bounded := ⟨hsamples, hexam, hjudge, hbudget,
            fun w hw e he => (hweights w hw e he).2, hstart, hend, hoverrides, hpolicy⟩
          exact run_applyPatch ⟨hbounded, hmodel, fun w hw e he => (hweights w hw e he).1⟩
      · rw [hrun]
        refine .refused rfl fun hvalid => hweights fun w hw e he => ?_
        exact ⟨hvalid.suites w hw e he, hvalid.bounded.suiteWeights w hw e he⟩
      · rw [hrun]
        refine .unchecked ⟨(patch.judgeModel.any (· ≠ "")).toNat, ?_, hfailed⟩
        rw [SettingsPatch.checkCalls, hasked]
        exact Nat.lt_succ_self _
    · rw [hrun]
      exact .refused rfl fun hvalid => hmodel hvalid.judgeModel
    · rw [hrun]
      refine .unchecked ⟨0, ?_, hfailed⟩
      rw [SettingsPatch.checkCalls, hasked]
      exact Nat.lt_of_lt_of_le Nat.one_pos (Nat.le_add_right _ _)

end Run

end HubScope
