import HubScope.Evaluator.Mcq
import HubScope.Evaluator.Numeric
import HubScope.Evaluator.OutputMatch

/-!
# Rule verdicts

A rule case scores an answer by its mode: normalised equality or containment, a regular
expression, the option letter of a multiple-choice answer, the final number of a calculation, the
literal a program prints, or a list of instructions to follow. The score is one for a hit and
zero for a miss; a case that cannot be scored gives none. Regular expressions of a case and the
checkers of instructions are parameters.

An answer that is the expectation itself is extracted as what it is: a lone option letter, and the
one number of its only line that is not blank.

## Main definitions

* `CaseConfig` — what a case asks and how its answers are scored
* `Checkers` — the folding, the regular expressions and the instructions
* `extractFinalNumber`, `numericVerdict`, `ifevalVerdict`, `ruleVerdict` — the scores

## Main results

* `takes_numberToken` — a number in an answer is matched as a whole
* `mcqVerdict_self`, `numericVerdict_self` — an admitted expectation is its own hit
-/

set_option autoImplicit false

namespace HubScope

open Regexp Text

/-! ### Cases -/

/-- A case as it is written: what is asked, and how an answer is scored. -/
structure CaseConfig where
  prompt : List Char
  verdictType : String
  ruleMode : Option String
  ruleExpected : Option (List Char)
  rubric : Option (List Char)
  difficulty : String
  sampleCount : Option ℤ
  checkParams : Option (List Char)

/-- What the verdicts rest on: Unicode folding, the regular expressions a text compiles to, and
the instructions of check parameters, which are valid or not and which an answer follows but for
some. -/
structure Checkers where
  nfkc : Nfkc
  compile : List Char → Except String (List Char → Bool)
  validate : List Char → Except String Unit
  check : List Char → List Char → Except String (List String)

/-! ### The verdicts -/

/-- The number an answer ends with: the first one after the last `####`, or else the last one of
the last line that is not blank. -/
def extractFinalNumber (F : Nfkc) (answer : List Char) : Option (List Char) :=
  let rows := ((lines answer).map (normalizeV2 F)).reverse
  match rows.findSome? fun l => (lastAfter ['#', '#', '#', '#'] l).bind numberToken.findText with
  | some m => some (normalizeNumericToken m)
  | none =>
    match rows.find? (· ≠ []) with
    | none => none
    | some line => (numberToken.findAllText line).getLast?.map normalizeNumericToken

/-- The final number of the answer is the expected one. -/
def numericVerdict (F : Nfkc) (expected answer : List Char) : Option ℚ :=
  match extractFinalNumber F answer with
  | none => some 0
  | some got => if got = normalizeNumericToken expected then some 1 else some 0

/-- The answer follows all instructions. -/
def ifevalVerdict (X : Checkers) (checkParams : Option (List Char)) (answer : List Char) :
    Option ℚ :=
  match checkParams with
  | none => none
  | some params =>
    match X.check params answer with
    | .error _ => none
    | .ok failed => if failed = [] then some 1 else some 0

/-- The score of an answer to a rule case. -/
def ruleVerdict (X : Checkers) (c : CaseConfig) (answer : List Char) (profile : VerdictProfile) :
    Option ℚ :=
  let mode := c.ruleMode.getD ""
  let expected := c.ruleExpected.getD []
  let normalize := normalizeForVerdict X.nfkc profile
  let score : Bool → Option ℚ := fun hit => if hit then some 1 else some 0
  if mode = "mcq" then mcqVerdict X.nfkc c.prompt expected answer
  else if mode = "numeric" then numericVerdict X.nfkc expected answer
  else if mode = "output_match" then outputMatchVerdict (Bytes.utf8 expected) (Bytes.utf8 answer)
  else if mode = "ifeval" then ifevalVerdict X c.checkParams answer
  else if mode = "exact" then score (normalize answer = normalize expected)
  else if mode = "contains" then score (normalize expected <:+: normalize answer)
  else if mode = "regex" then
    match X.compile expected with
    | .error _ => none
    | .ok found => score (found answer)
  else none

/-! ### A lone option letter -/

/-- The characters whose upper case is one of the option letters. -/
theorem mem_of_toUpper {c : Char} (h : toUpper c ∈ ['A', 'B', 'C', 'D']) :
    c ∈ ['A', 'B', 'C', 'D', 'a', 'b', 'c', 'd'] := by
  have hall : ∀ n < 123, toUpper (Char.ofNat n) ∈ ['A', 'B', 'C', 'D'] →
      Char.ofNat n ∈ ['A', 'B', 'C', 'D', 'a', 'b', 'c', 'd'] := by decide
  by_cases hle : c.toNat < 123
  · rw [← Char.ofNat_toNat c] at h ⊢
    exact hall _ hle h
  · -- past the small letters no character has another one as its upper case but two
    have hbig : ¬ c.toNat ≤ 'z'.toNat := by
      rw [show 'z'.toNat = 122 from rfl]
      omega
    have hupper : c.toUpper = c := dif_neg fun hlower => hbig hlower.2
    rw [toUpper, hupper] at h
    split_ifs at h
    · exact absurd h (by decide)
    · exact absurd h (by decide)
    · exact List.mem_append_left ['a', 'b', 'c', 'd'] h

/-- A lone letter is captured, and no other one is. -/
theorem lettersOf_singleton : ∀ c ∈ ['A', 'B', 'C', 'D', 'a', 'b', 'c', 'd'],
    (lettersOf mcqPatterns [c]).dedup = [toUpper c] :=
  forall_mem_of_all (by decide)

/-- An option letter scores a hit for itself. -/
theorem mcqVerdict_self (F : Nfkc) (prompt : List Char) {expected : List Char} {w : Char}
    (hw : w ∈ ['A', 'B', 'C', 'D']) (h : (trimSpace expected).map toUpper = [w]) :
    mcqVerdict F prompt expected expected = some 1 := by
  obtain ⟨c, hc, hcw⟩ := List.map_eq_singleton_iff.mp h
  have hmem := mem_of_toUpper (hcw ▸ hw)
  have hletter : ∀ c ∈ ['A', 'B', 'C', 'D', 'a', 'b', 'c', 'd'],
      isSpace c = false ∧ c.toNat < 128 ∧ isClosingQuote c = false :=
    forall_mem_of_all (by decide)
  obtain ⟨hspace, hascii, hquote⟩ := hletter c hmem
  have hnormal : normalizeV2 F expected = [c] :=
    normalizeV2_word F hc (by simp) (by simpa using hspace) (by simpa using hascii)
      (by simpa using hquote)
  have hextract : extractOptionLetter F prompt expected expected = some w := by
    rw [extractOptionLetter, hnormal, lettersOf_singleton c hmem, hcw]
  simp only [mcqVerdict, hextract, h, if_true]

/-! ### A lone number -/

theorem takes_sign (neg : Bool) {x : Char} (hx : x.isDigit = true) (s : List Char) :
    Takes (opt (lit '-')) (signed neg []) (x :: s) := by
  cases neg with
  | true => exact Takes.opt (takes_symbol (by simp) _)
  | false => exact Fails.opt (fails_symbol (by simpa using ne_of_isDigit hx (by decide)))

theorem takes_fraction {f : List Char} (hf : ∀ c ∈ f, c.isDigit = true) :
    Takes (opt (cat [lit '.', plus digit])) (dotted f) [] := by
  unfold dotted
  split_ifs with hnil
  · exact Fails.opt (Fails.seq (fails_symbol (by simp)))
  · have hdigits : Takes (plus digit) f ([] ++ []) := takes_plus_symbol hnil hf (by simp)
    have hpoint : Takes (lit '.') ['.'] (f ++ [] ++ []) := takes_symbol (by simp) _
    have htake := hpoint.seq (hdigits.seq (takes_empty []))
    rw [List.append_nil] at htake
    exact Takes.opt htake

/-- A number is matched as a whole. -/
theorem takes_numberToken (neg : Bool) {x : Char} {u f : List Char} (hx : x.isDigit = true)
    (hu : ∀ c ∈ u, c.isDigit = true ∨ c = ',') (hf : ∀ c ∈ f, c.isDigit = true) :
    Takes numberToken (signed neg (x :: u ++ dotted f)) [] := by
  have hstop : ∀ c ∈ (dotted f ++ [] ++ []).head?, (c.isDigit || decide (c = ',')) = false := by
    unfold dotted
    split_ifs <;> simp
  have hrest : Takes (star (symbol fun c => c.isDigit || c = ',')) u (dotted f ++ [] ++ []) :=
    takes_star_symbol (by simpa using hu) hstop
  have hfraction : Takes (opt (cat [lit '.', plus digit])) (dotted f) ([] ++ []) := takes_fraction hf
  have hdigit : Takes digit [x] (u ++ (dotted f ++ []) ++ []) := takes_symbol hx _
  have hsign := takes_sign neg hx (u ++ (dotted f ++ []) ++ [])
  have htake := Takes.seq hsign (hdigit.seq (hrest.seq (hfraction.seq (takes_empty []))))
  cases neg <;> simpa [signed, numberToken, cat] using htake

/-- A number begins with a sign or a digit. -/
theorem fails_numberToken {s : List Char} (hs : ∀ c ∈ s.head?, c ≠ '-' ∧ c.isDigit = false) :
    Fails numberToken s := by
  apply Fails.seq_opt
  · exact fails_symbol (by simpa using fun c hc => (hs c hc).1)
  · exact Fails.seq (fails_symbol fun c hc => (hs c hc).2)

/-- Where the last line that is not blank is a text without marks, and so are all the others, the
number is its last one. -/
theorem extractFinalNumber_of_lines {F : Nfkc} {answer line : List Char}
    {before after : List (List Char)}
    (hlines : (lines answer).map (normalizeV2 F) = before ++ line :: after)
    (hafter : ∀ l ∈ after, l = []) (hne : line ≠ []) (hmark : ∀ l ∈ before ++ line :: after, '#' ∉ l) :
    extractFinalNumber F answer =
      (numberToken.findAllText line).getLast?.map normalizeNumericToken := by
  have hnone : (before ++ line :: after).reverse.findSome?
      (fun l => (lastAfter ['#', '#', '#', '#'] l).bind numberToken.findText) = none := by
    rw [List.findSome?_eq_none_iff]
    intro l hl
    rw [lastAfter_eq_none (hmark l (List.mem_reverse.mp hl)), Option.bind_none]
  have hlast : (before ++ line :: after).reverse.find? (· ≠ []) = some line := by
    have hskip : after.reverse.find? (· ≠ []) = none := by
      simpa [List.find?_eq_none] using hafter
    rw [List.reverse_append, List.reverse_cons, List.append_assoc, List.find?_append, hskip]
    simp [hne]
  simp only [extractFinalNumber, hlines, hnone, hlast]

/-- A character of a number with separators and a currency sign. -/
theorem numeral_spec {c : Char} (hc : c.isDigit = true ∨ c ∈ ['-', '$', '.', ',']) :
    isSpace c = false ∧ c.toNat < 128 ∧ isClosingQuote c = false ∧ c ≠ '#' := by
  rcases hc with hc | hc
  · have hle := isDigit_eq_true_iff.mp hc
    refine ⟨isSpace_eq_false_of_isDigit hc, ?_, ?_, ne_of_isDigit hc (by decide)⟩
    · exact lt_of_le_of_lt (Fin.le_def.mp hle.2 : c.toNat ≤ '9'.toNat) (by decide)
    · have hall : ∀ x ∈ ['"', '\'', '”', '’', '」', '』'], x.isDigit = false :=
        forall_mem_of_all (by decide)
      refine decide_eq_false fun hmem => ?_
      rw [hall c hmem] at hc
      cases hc
  · have hall : ∀ c ∈ ['-', '$', '.', ','],
        isSpace c = false ∧ c.toNat < 128 ∧ isClosingQuote c = false ∧ c ≠ '#' :=
      forall_mem_of_all (by decide)
    exact hall c hc

/-- A number with separators is made of such characters. -/
theorem forall_mem_signed (neg : Bool) {x : Char} {u f : List Char} (hx : x.isDigit = true)
    (hu : ∀ c ∈ u, c.isDigit = true ∨ c = ',') (hf : ∀ c ∈ f, c.isDigit = true) :
    ∀ c ∈ signed neg (x :: u ++ dotted f), c.isDigit = true ∨ c ∈ ['-', '$', '.', ','] := by
  have hfraction : ∀ c ∈ dotted f, c.isDigit = true ∨ c ∈ ['-', '$', '.', ','] := by
    unfold dotted
    split_ifs
    · simp
    · exact List.forall_mem_cons.mpr ⟨.inr (by simp), fun c hc => .inl (hf c hc)⟩
  have hwhole : ∀ c ∈ x :: u, c.isDigit = true ∨ c ∈ ['-', '$', '.', ','] := by
    refine List.forall_mem_cons.mpr ⟨.inl hx, fun c hc => ?_⟩
    exact (hu c hc).imp_right fun hcomma => by simp [hcomma]
  have hall := List.forall_mem_append.mpr ⟨hwhole, hfraction⟩
  cases neg with
  | true => exact List.forall_mem_cons.mpr ⟨.inr (by simp), hall⟩
  | false => exact hall

/-- A text of one word, in white space, has one line that is not blank. -/
theorem lines_word (F : Nfkc) {s w : List Char} (hs : trimSpace s = w) (hne : w ≠ [])
    (hspace : ∀ c ∈ w, isSpace c = false) (hascii : ∀ c ∈ w, c.toNat < 128)
    (hquote : ∀ c ∈ w, isClosingQuote c = false) : ∃ k m,
    (lines s).map (normalizeV2 F) = List.replicate k [] ++ w :: List.replicate m [] := by
  obtain ⟨a, b, ha, hb, htext⟩ := exists_trimSpace s
  rw [hs] at htext
  have hnil : normalizeV2 F [] = [] := normalizeV2_of_blank F (by simp)
  have hleft : ∀ c l, isSpace c = true → normalizeV2 F (c :: l) = normalizeV2 F l := fun c l hc =>
    normalizeV2_append_left F (a := [c]) (by simpa using hc) l
  obtain ⟨k, hk⟩ := map_lines_append hleft ha (w ++ b)
  have hbreak : '\n' ∉ w := fun hmem => absurd (hspace _ hmem) (by decide)
  refine ⟨k, (lines b).length - 1, ?_⟩
  rw [htext, hk, hnil, lines_append hbreak]
  congr 1
  cases hlines : lines b with
  | nil => exact absurd hlines (List.splitOn_ne_nil _ _)
  | cons l ls =>
    -- every line of white space is white space
    have hblank : ∀ l' ∈ l :: ls, ∀ c ∈ l', isSpace c = true := fun l' hl' c hc =>
      hb c (mem_of_mem_lines (hlines ▸ hl') hc)
    have hfirst : normalizeV2 F (w ++ l) = w := by
      refine normalizeV2_word F ?_ hne hspace hascii hquote
      rw [trimSpace_append_right (hblank l List.mem_cons_self), trimSpace_of_forall hspace]
    have hothers : ls.map (normalizeV2 F) = List.replicate ls.length [] := by
      rw [List.map_eq_replicate_iff]
      exact fun l' hl' => normalizeV2_of_blank F (hblank l' (List.mem_cons_of_mem _ hl'))
    rw [List.modifyHead_cons, List.map_cons, hfirst, hothers]
    rfl

/-- An admitted number scores a hit for itself. -/
theorem numericVerdict_self (F : Nfkc) {expected : List Char}
    (h : numericExpectationValid expected = true) : numericVerdict F expected expected = some 1 := by
  obtain ⟨neg, x, u, f, hx, hu, hf, htext⟩ := text_of_expectation h
  have htake := takes_numberToken neg hx hu hf
  have htrim := trimSpace_signed neg hx hu hf
  have hprefix : trimPrefix '$' (signed neg (x :: u ++ dotted f)) = signed neg (x :: u ++ dotted f) :=
    trimPrefix_signed neg hx (by decide) (by decide)
  have hchars := forall_mem_signed neg hx hu hf
  have hne : signed neg (x :: u ++ dotted f) ≠ [] := by cases neg <;> simp [signed]
  generalize signed neg (x :: u ++ dotted f) = t at *
  have hnil : Fails numberToken [] := fails_numberToken (by simp)
  -- the currency sign is neither part of the number nor of its canonical form
  have hfound : ∃ w, trimSpace expected = w ∧ w ≠ [] ∧ numberToken.findAllText w = [t] ∧
      (∀ c ∈ w, c.isDigit = true ∨ c ∈ ['-', '$', '.', ',']) ∧ trimPrefix '$' w = t := by
    rcases htext with htext | htext
    · refine ⟨'$' :: t, htext, by simp, ?_, ?_, trimPrefix_cons_self _ _⟩
      · exact htake.findAllText_cons hnil (fails_numberToken (by simp))
      · exact List.forall_mem_cons.mpr ⟨by simp, hchars⟩
    · exact ⟨t, htext, hne, htake.findAllText hnil hne, hchars, hprefix⟩
  obtain ⟨w, hw, hwne, hall, hwchars, hwprefix⟩ := hfound
  obtain ⟨k, m, hlines⟩ := lines_word F hw hwne (fun c hc => (numeral_spec (hwchars c hc)).1)
    (fun c hc => (numeral_spec (hwchars c hc)).2.1) fun c hc => (numeral_spec (hwchars c hc)).2.2.1
  have hmark : ∀ l ∈ List.replicate k [] ++ w :: List.replicate m [], '#' ∉ l := by
    intro l hl hmem
    have hl' : l = w := by
      have hnot : l ≠ [] := List.ne_nil_of_mem hmem
      simpa [hnot] using hl
    exact (numeral_spec (hwchars '#' (hl' ▸ hmem))).2.2.2 rfl
  have hextract := extractFinalNumber_of_lines hlines (by simp) hwne hmark
  have hsame : normalizeNumericToken t = normalizeNumericToken expected := by
    simp only [normalizeNumericToken, htrim, hprefix, hw, hwprefix]
  rw [hall, List.getLast?_singleton, Option.map_some, hsame] at hextract
  simp only [numericVerdict, hextract, if_true]

end HubScope
