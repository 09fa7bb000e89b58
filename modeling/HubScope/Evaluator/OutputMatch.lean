import HubScope.Evaluator.PyLiteral
import Mathlib.Algebra.Order.Ring.Rat

/-!
# The output verdict

A model that predicts what a program prints answers with a Python literal, perhaps inside the
answer tags, a code fence or an assertion. The verdict takes these off and compares canonical
forms; an answer that commits to no literal scores nothing.

## Main definitions

* `extractOutputLiteral` — the literal of an answer
* `outputMatchVerdict` — the score of an answer, none where the expectation is no literal
-/

set_option autoImplicit false

namespace HubScope

open Bytes PyParser

/-- `[ANSWER]`. -/
def answerOpen : Bytes := ascii ['[', 'A', 'N', 'S', 'W', 'E', 'R', ']']

/-- `[/ANSWER]`. -/
def answerClose : Bytes := ascii ['[', '/', 'A', 'N', 'S', 'W', 'E', 'R', ']']

/-- Three backticks. -/
def fence : Bytes := ascii ['\x60', '\x60', '\x60']

/-- Where the first `==` outside quotes begins, after a text that leaves `quote` open. -/
def topLevelDoubleEq (quote : Option Byte) : Bytes → Option ℕ
  | [] => none
  | c :: s =>
    match quote with
    | some q =>
      if c = byte '\\' then
        match s with
        | [] => none
        | _ :: s => (topLevelDoubleEq quote s).map (· + 2)
      else if c = q then (topLevelDoubleEq none s).map (· + 1)
      else (topLevelDoubleEq quote s).map (· + 1)
    | none =>
      if isQuote c then (topLevelDoubleEq (some c) s).map (· + 1)
      else if c = byte '=' ∧ s.head? = some (byte '=') then some 0
      else (topLevelDoubleEq none s).map (· + 1)

/-- The text between the answer tags, if there are any. -/
def insideTags (s : Bytes) : Bytes :=
  match cut answerOpen s with
  | none => s
  | some (_, rest) =>
    match cut answerClose rest with
    | none => trimSpace rest
    | some (inside, _) => trimSpace inside

/-- The first line of a fenced text tells its language. -/
def isLanguageTag (line : Bytes) : Bool :=
  let tag := trimSpace line
  tag ≠ [] && !tag.any fun c => c ∈ ascii [' ', '\t']

/-- The text of a single code fence around everything. -/
def unfence (s : Bytes) : Option Bytes :=
  if fence.isPrefixOf s then
    match cut fence (s.drop 3) with
    | none => none
    | some (inner, outside) =>
      if trimSpace outside ≠ [] then none
      else
        match cut [byte '\n'] inner with
        | none => some (trimSpace inner)
        | some (line, more) => some (trimSpace (if isLanguageTag line then more else inner))
  else some s

/-- What an assertion says the result is. -/
def afterDoubleEq (s : Bytes) : Bytes :=
  match topLevelDoubleEq none s with
  | none => s
  | some i => trimSpace (s.drop (i + 2))

/-- The one literal an answer commits to. -/
def extractOutputLiteral (answer : Bytes) : Option Bytes := do
  let s := trimSpace answer
  if s = [] then none
  else do
    let s ← unfence (insideTags s)
    let s := afterDoubleEq s
    if s = [] then none else some s

/-- The score of an answer: a hit where the canonical forms agree. -/
def outputMatchVerdict (expected answer : Bytes) : Option ℚ :=
  match canonicalPyLiteral expected with
  | none => none
  | some want =>
    match extractOutputLiteral answer with
    | none => some 0
    | some literal =>
      match canonicalPyLiteral literal with
      | none => some 0
      | some got => if got = want then some 1 else some 0

/-- A hit is an answer whose literal has the expected canonical form. -/
theorem outputMatchVerdict_eq_one_iff {expected answer : Bytes} :
    outputMatchVerdict expected answer = some 1 ↔
      ∃ c literal, canonicalPyLiteral expected = some c ∧
        extractOutputLiteral answer = some literal ∧ canonicalPyLiteral literal = some c := by
  rw [outputMatchVerdict]
  cases hwant : canonicalPyLiteral expected with
  | none => simp
  | some want =>
    cases hliteral : extractOutputLiteral answer with
    | none => simp
    | some literal =>
      cases hgot : canonicalPyLiteral literal with
      | none => simp [hgot]
      | some got => by_cases heq : got = want <;> simp [heq, hgot]

end HubScope
