import HubScope.Evaluator.RuleVerdict
import HubScope.Evaluator.SelfMatch
import Mathlib

/-!
# Validation of cases

The case API checks a case before it is stored or changed. Among its checks are those on the
expectation of a rule case, one for each mode whose scorer could not match anything else: an
option letter, a number, a Python literal. What is admitted is then scored by code that does not
know these checks.

## Main definitions

* `validateCase` — the checks, with their messages
* `validateExpected` — those on the expectation

## Main results

* `validateExpected_of_validateCase` — an accepted rule case has an admitted expectation
* `ruleVerdict_self_iff` — an admitted expectation is a hit for itself, but for a literal with the
  answer tag in it
-/

set_option autoImplicit false

namespace HubScope

open Bytes

/-! ### The checks -/

def validVerdictTypes : List String := ["rule", "judge"]

def validRuleModes : List String :=
  ["exact", "regex", "contains", "mcq", "numeric", "output_match", "ifeval"]

def validDifficulties : List String := ["basic", "intermediate", "hard"]

/-- The most samples a case may ask for. -/
def maxSampleCount : ℤ := 10

/-- A check ends the validation with its message if it fails. -/
def require (holds : Prop) [Decidable holds] (message : String) : Except String Unit :=
  if holds then .ok () else .error message

/-- A check that is made in some cases only. -/
def onlyIf (applies : Prop) [Decidable applies] (check : Except String Unit) :
    Except String Unit :=
  if applies then check else .ok ()

/-- The checks on the expectation of a rule case, which is not empty. -/
def validateExpected (X : Checkers) (mode : String) (expected : List Char) :
    Except String Unit := do
  onlyIf (mode = "regex")
    (match X.compile expected with
    | .error err => .error s!"rule_config.expected is not a valid regex: {err}"
    | .ok _ => .ok ())
  onlyIf (mode = "mcq")
    (require (∃ w ∈ ['A', 'B', 'C', 'D'], (Text.trimSpace expected).map toUpper = [w])
      "rule_config.expected must be a single option letter A-D for mcq")
  onlyIf (mode = "numeric")
    (require (numericExpectationValid expected = true)
      "rule_config.expected must be a number for numeric")
  onlyIf (mode = "output_match")
    (require ((canonicalPyLiteral (utf8 expected)).isSome = true)
      "rule_config.expected must be a Python literal for output_match")

/-- The checks on a rule case. -/
def validateRule (X : Checkers) (c : CaseConfig) : Except String Unit :=
  let mode := c.ruleMode.getD ""
  if mode ∉ validRuleModes then
    .error "rule_config.mode must be exact, regex, contains, mcq, numeric, output_match or ifeval"
  else if mode = "ifeval" then
    match c.checkParams with
    | none => .error "rule_config.mode ifeval requires seeded check_params"
    | some params =>
      match X.validate params with
      | .error err => .error s!"check_params is not valid IFEval check parameters: {err}"
      | .ok () => .ok ()
  else
    match c.ruleExpected with
    | none | some [] => .error "rule_config.expected is required"
    | some expected => validateExpected X mode expected

/-- The checks on a case, in the order in which they are reported. -/
def validateCase (X : Checkers) (c : CaseConfig) : Except String Unit := do
  require (c.prompt ≠ []) "prompt is required"
  require (c.verdictType ∈ validVerdictTypes) "verdict_type must be rule or judge"
  onlyIf (c.verdictType = "rule") (validateRule X c)
  require (¬ (c.verdictType = "judge" ∧ (c.rubric.all fun r => Text.trimSpace r = []) = true))
    "rubric is required for judge cases"
  require (c.difficulty ∈ validDifficulties) "difficulty must be basic, intermediate or hard"
  require ((c.sampleCount.all fun n => 1 ≤ n ∧ n ≤ maxSampleCount) = true)
    s!"sample_count must be between 1 and {maxSampleCount}"

/-! ### What is admitted -/

/-- Two checks pass if both do. -/
theorem checks_eq_ok {first second : Except String Unit} :
    (do first; second) = .ok () ↔ first = .ok () ∧ second = .ok () := by
  cases first with
  | error e => simp [bind, Except.bind]
  | ok u => simp [bind, Except.bind]

theorem require_eq_ok {holds : Prop} [Decidable holds] {message : String} :
    require holds message = .ok () ↔ holds := by
  unfold require
  split_ifs with h <;> simp [h]

variable {X : Checkers} {c : CaseConfig} {mode : String} {expected : List Char}

theorem onlyIf_eq_ok {applies : Prop} [Decidable applies] {check : Except String Unit} :
    onlyIf applies check = .ok () ↔ (applies → check = .ok ()) := by
  unfold onlyIf
  split_ifs with h <;> simp [h]

/-- The expectation of an accepted rule case passed its checks. -/
theorem validateExpected_of_validateCase (h : validateCase X c = .ok ())
    (hrule : c.verdictType = "rule") (hmode : c.ruleMode = some mode) (hne : mode ≠ "ifeval")
    (hexpected : c.ruleExpected = some expected) : validateExpected X mode expected = .ok () := by
  simp only [validateCase, checks_eq_ok, onlyIf_eq_ok] at h
  obtain ⟨-, -, hcheck, -⟩ := h
  replace hcheck := hcheck hrule
  simp only [validateRule, hmode, Option.getD_some, if_neg hne] at hcheck
  split_ifs at hcheck with hvalid
  cases expected with
  | nil => simp [hexpected] at hcheck
  | cons x s => simpa only [hexpected] using hcheck

/-- What the checks on an expectation say. -/
theorem validateExpected_spec (h : validateExpected X mode expected = .ok ()) :
    (mode = "mcq" → ∃ w ∈ ['A', 'B', 'C', 'D'], (Text.trimSpace expected).map toUpper = [w]) ∧
      (mode = "numeric" → numericExpectationValid expected = true) ∧
      (mode = "output_match" → (canonicalPyLiteral (utf8 expected)).isSome = true) := by
  simp only [validateExpected, checks_eq_ok, onlyIf_eq_ok, require_eq_ok] at h
  obtain ⟨-, hmcq, hnumeric, hliteral⟩ := h
  exact ⟨hmcq, hnumeric, hliteral⟩

/-! ### The expectation as the answer -/

/-- The modes in which the answer is compared with the expectation. -/
def comparingModes : List String := ["exact", "contains", "mcq", "numeric", "output_match"]

/-- **In an accepted case of a comparing mode the expectation is a hit for itself, exactly if it is
not a literal to be matched with the opening answer tag in it.** -/
theorem ruleVerdict_self_iff (profile : VerdictProfile) (h : validateCase X c = .ok ())
    (hrule : c.verdictType = "rule") (hmode : c.ruleMode = some mode)
    (hmem : mode ∈ comparingModes) (hexpected : c.ruleExpected = some expected) :
    ruleVerdict X c expected profile = some 1 ↔
      ¬ (mode = "output_match" ∧ answerOpen <:+: utf8 expected) := by
  have hne : mode ≠ "ifeval" := by
    rintro rfl
    revert hmem
    decide
  obtain ⟨hmcq, hnumeric, hliteral⟩ :=
    validateExpected_spec (validateExpected_of_validateCase h hrule hmode hne hexpected)
  simp only [ruleVerdict, hmode, hexpected, Option.getD_some]
  simp only [comparingModes, List.mem_cons, List.not_mem_nil, or_false] at hmem
  rcases hmem with rfl | rfl | rfl | rfl | rfl
  · simp
  · simp
  · obtain ⟨w, hw, hletter⟩ := hmcq rfl
    simp [mcqVerdict_self X.nfkc c.prompt hw hletter]
  · simp [numericVerdict_self X.nfkc (hnumeric rfl)]
  · simpa using outputMatchVerdict_self_iff (hliteral rfl)

/-- Checkers for cases that use none of them. -/
def noCheckers : Checkers where
  nfkc := .plain
  compile _ := .ok fun _ => false
  validate _ := .ok ()
  check _ _ := .ok []

/-- A case that asks for what a program prints. -/
def printCase (expected : List Char) : CaseConfig where
  prompt := ['f', '(', 'x', ')']
  verdictType := "rule"
  ruleMode := some "output_match"
  ruleExpected := some expected
  rubric := none
  difficulty := "basic"
  sampleCount := none
  checkParams := none

/-- A list of two numbers is a hit for itself. -/
theorem ruleVerdict_self_iff_list :
    ruleVerdict noCheckers (printCase ['[', '1', ',', '2', ']']) ['[', '1', ',', '2', ']'] .v2 =
        some 1 ↔
      ¬ ("output_match" = "output_match" ∧ answerOpen <:+: utf8 ['[', '1', ',', '2', ']']) :=
  ruleVerdict_self_iff .v2 (by decide +kernel) rfl rfl (by decide) rfl

/-- The string that consists of the opening tag is not a hit for itself: what follows the tag is
its closing quote. -/
theorem not_ruleVerdict_self : ¬ ∀ (X : Checkers) (c : CaseConfig) (mode : String)
    (expected : List Char) (profile : VerdictProfile), validateCase X c = .ok () →
      c.verdictType = "rule" → c.ruleMode = some mode → mode ∈ comparingModes →
      c.ruleExpected = some expected → ruleVerdict X c expected profile = some 1 := by
  intro h
  have haccepted : validateCase noCheckers (printCase "'[ANSWER]'".toList) = .ok () := by
    decide +kernel
  have hmiss : ruleVerdict noCheckers (printCase "'[ANSWER]'".toList) "'[ANSWER]'".toList .v2 =
      some 0 := by
    decide +kernel
  have hhit := h noCheckers _ _ _ .v2 haccepted rfl rfl (by decide) rfl
  rw [hmiss] at hhit
  exact absurd (Option.some.inj hhit) (by decide)

end HubScope
