import HubScope.Lib.Numerals
import HubScope.Registry.Lookup
import Mathlib.Logic.Function.Basic

/-!
# The settings

Settings are rows of a table by key. Numbers are stored as decimals and switches as words. A row
that was never written, or a number that does not parse, reads as its default. The evaluator reads
some of them through clamps of its own, which mirror the checks of the settings page.

The columns with the suite weights and with the overrides hold their decoded JSON; `none` is a
text that does not decode.

## Main definitions

* `SettingKey`, `Settings` — the keys with their names, and the table
* `getSettingBool`, `getSettingInt` — the readers with their defaults
* `EvalSettings`, `resolveSettings` — what the evaluator reads

## Main results

* `getSettingInt_setSettingInt` — a number that is written is read back
* `clamp_eq_self` — a clamp keeps what is within its bounds
-/

set_option autoImplicit false

namespace HubScope

open Numerals Bytes

/-- The keys of the settings. -/
inductive SettingKey
  | larkWebhookURL
  | alertEnabled
  | scoreDropAlertEnabled
  | judgeModel
  | juryPolicy
  | defaultSampleCount
  | evalConcurrency
  | judgeConcurrency
  | evalCampaignBudgetMin
  | suiteWeights
  | quietHoursEnabled
  | quietHoursStart
  | quietHoursEnd
  | modelRegistryOverrides
  | sessionSecret
  deriving DecidableEq

/-- The name a key is stored under. -/
def SettingKey.name : SettingKey → String
  | larkWebhookURL => "lark_webhook_url"
  | alertEnabled => "alert_enabled"
  | scoreDropAlertEnabled => "score_drop_alert_enabled"
  | judgeModel => "judge_model"
  | juryPolicy => "jury_policy"
  | defaultSampleCount => "default_sample_count"
  | evalConcurrency => "eval_concurrency"
  | judgeConcurrency => "judge_concurrency"
  | evalCampaignBudgetMin => "eval_campaign_budget_minutes"
  | suiteWeights => "suite_weights"
  | quietHoursEnabled => "quiet_hours_enabled"
  | quietHoursStart => "quiet_hours_start"
  | quietHoursEnd => "quiet_hours_end"
  | modelRegistryOverrides => "model_registry_overrides"
  | sessionSecret => "session_secret"

/-- The weights of the suites by key. -/
abbrev SuiteWeights := List (String × ℚ)

/-- What a row of a key holds. -/
@[reducible] def SettingKey.Value : SettingKey → Type
  | defaultSampleCount | evalConcurrency | judgeConcurrency | evalCampaignBudgetMin
  | quietHoursStart | quietHoursEnd => Bytes
  | suiteWeights => Option SuiteWeights
  | modelRegistryOverrides => Option (List ModelRegistry.Override)
  | larkWebhookURL | alertEnabled | scoreDropAlertEnabled | judgeModel | juryPolicy
  | quietHoursEnabled | sessionSecret => String

/-- The table of the settings. -/
abbrev Settings := (key : SettingKey) → Option key.Value

/-! ### Defaults and bounds -/

def defaultAlertEnabled : Bool := true

def defaultScoreDropAlertEnabled : Bool := true

def defaultJudgeModel : String := "claude-opus-4-8"

def defaultJuryPolicy : String := "balanced"

/-- The default of the setting, `DefaultSampleCount`. -/
def sampleCountDefault : Int64 := 1

/-- The highest sample count, `MaxSampleCount`. -/
def sampleCountMax : Int64 := 10

def defaultEvalConcurrency : Int64 := 4

def maxEvalConcurrency : Int64 := 16

def defaultJudgeConcurrency : Int64 := defaultEvalConcurrency

def defaultEvalCampaignBudgetMin : Int64 := 60

def maxEvalCampaignBudgetMin : Int64 := 10080

def defaultQuietHoursEnabled : Bool := false

def defaultQuietHoursStart : Int64 := 23

def defaultQuietHoursEnd : Int64 := 7

/-- The policies of the jury selection. -/
def validJuryPolicy (s : String) : Bool := s ∈ ["balanced", "speed", "iq", "cost"]

/-! ### Readers and writers -/

/-- The word a switch is stored as. -/
def setSettingBool (value : Bool) : String := if value then "true" else "false"

def getSettingBool (row : Option String) (default : Bool) : Bool :=
  row.getD (setSettingBool default) = "true"

/-- The decimal a number is stored as. -/
def setSettingInt (value : Int64) : Bytes := formatInt value

def getSettingInt (row : Option Bytes) (default : Int64) : Int64 :=
  (parseInt (row.getD (formatInt default))).getD default

/-- The weights; none if the row does not decode. -/
def getSuiteWeights (row : Option (Option SuiteWeights)) : SuiteWeights := row.join.getD []

/-- The overrides; none if the row does not decode. -/
def getOverrides (row : Option (Option (List ModelRegistry.Override))) :
    List ModelRegistry.Override := row.join.getD []

@[simp] theorem getSettingBool_setSettingBool (value default : Bool) :
    getSettingBool (some (setSettingBool value)) default = value := by
  cases value <;> rfl

@[simp] theorem getSettingInt_setSettingInt (value default : Int64) :
    getSettingInt (some (setSettingInt value)) default = value := by
  rw [getSettingInt, Option.getD_some, setSettingInt, parseInt_formatInt, Option.getD_some]

@[simp] theorem getSettingInt_none (default : Int64) : getSettingInt none default = default := by
  rw [getSettingInt, Option.getD_none, parseInt_formatInt, Option.getD_some]

/-! ### What the evaluator reads -/

/-- What the evaluator takes from the settings. -/
structure EvalSettings where
  defaultSampleCount : Int64
  evalConcurrency : Int64
  judgeConcurrency : Int64
  campaignBudgetMinutes : Int64
  juryPolicy : String
  registryOverrides : List ModelRegistry.Override

/-- A number between two bounds. -/
def clamp (lo hi n : Int64) : Int64 := if n < lo then lo else if hi < n then hi else n

theorem clamp_eq_self {lo hi n : Int64} (h : lo ≤ n ∧ n ≤ hi) : clamp lo hi n = n := by
  rw [clamp, if_neg (Int64.not_lt.mpr h.1), if_neg (Int64.not_lt.mpr h.2)]

/-- The readers of the evaluator: `resolveDefaultSampleCount`, `resolveEvalConcurrency`,
`resolveJudgeConcurrency`, `resolveCampaignBudgetMinutes`, `resolveJuryPolicy` and
`resolveRegistryOverrides`. -/
def resolveSettings (t : Settings) : EvalSettings where
  defaultSampleCount :=
    clamp 1 sampleCountMax (getSettingInt (t .defaultSampleCount) sampleCountDefault)
  evalConcurrency :=
    clamp 1 maxEvalConcurrency (getSettingInt (t .evalConcurrency) defaultEvalConcurrency)
  judgeConcurrency :=
    clamp 1 maxEvalConcurrency (getSettingInt (t .judgeConcurrency) defaultJudgeConcurrency)
  campaignBudgetMinutes :=
    clamp 0 maxEvalCampaignBudgetMin
      (getSettingInt (t .evalCampaignBudgetMin) defaultEvalCampaignBudgetMin)
  juryPolicy :=
    let policy : String := (t .juryPolicy).getD defaultJuryPolicy
    if validJuryPolicy policy then policy else defaultJuryPolicy
  registryOverrides := getOverrides (t .modelRegistryOverrides)

end HubScope
