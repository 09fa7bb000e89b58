import HubScope.Lib.Regexp
import HubScope.Lib.Text
import Mathlib.Data.Nat.Digits.Defs
import Mathlib.Data.Nat.Digits.Lemmas
import Mathlib.Algebra.Order.Ring.Rat
import Mathlib.Tactic.Linarith
import Mathlib.Tactic.Ring

/-!
# Numeric tokens and their canonical form

The numeric verdict compares an expectation with the last number of an answer, both in a
canonical form: without currency sign, separators and trailing decimal zeros. Leading zeros
stay, so two spellings of one number that begin with different numbers of zeros have
different forms, and so have a signed and an unsigned zero of two digits or more.

## Main definitions

* `numberToken`, `numericExpectationPattern` — which texts are numbers
* `normalizeNumericToken` — the canonical form
* `Decimal`, `numericValue` — what a text denotes
* `SpelledAlike` — equal leading zeros, and equal signs of a long zero

## Main results

* `decimal_of_numberToken` — a token is the text of a decimal
* `normalizeNumericToken_of_text` — the canonical form of a decimal
* `normalizeNumericToken_eq_iff` — two forms are equal just when the numbers are, exactly if
  equal numbers are spelled alike
-/

set_option autoImplicit false

namespace HubScope

-- The tokens of the counterexample are long for `decide`.
set_option maxRecDepth 2000

open Regexp Text

/-! ### Tokens -/

/-- `\d`. -/
def digit : Regexp Char := symbol Char.isDigit

/-- `-?\d[\d,]*(?:\.\d+)?`. -/
def numberToken : Regexp Char :=
  cat [opt (lit '-'), digit, star (symbol fun c => c.isDigit || c = ','),
    opt (cat [lit '.', plus digit])]

/-- `^\$?-?(\d{1,3}(,\d{3})+|\d+)(\.\d+)?$`. -/
def numericExpectationPattern : Regexp Char :=
  cat [bol, opt (lit '$'), opt (lit '-'),
    alt
      (cat [digit, opt (seq digit (opt digit)), plus (cat [lit ',', digit, digit, digit])])
      (plus digit),
    opt (cat [lit '.', plus digit]), eol]

/-- The expectations the case API admits. -/
def numericExpectationValid (s : List Char) : Bool :=
  (numericExpectationPattern.find? (trimSpace s)).isSome

/-- The canonical form of a numeric literal. -/
def normalizeNumericToken (tok : List Char) : List Char :=
  let s := trimPrefix '$' (trimSpace tok)
  let s := s.filter (· ≠ ',')
  let s := trimPrefix '+' s
  let s := if '.' ∈ s then (s.rdropWhile (· = '0')).rdropWhile (· = '.') else s
  if s = ['-', '0'] ∨ s = [] then ['0'] else s

/-! ### Denotation -/

/-- The value of a digit. -/
def digitValue (c : Char) : ℕ := c.toNat - '0'.toNat

/-- The number a text of digits denotes. -/
def wholeValue (ds : List Char) : ℕ := Nat.ofDigits 10 (ds.map digitValue).reverse

/-- The number a text of digits denotes after the decimal point. -/
def fractionValue : List Char → ℚ
  | [] => 0
  | c :: cs => (digitValue c + fractionValue cs) / 10

/-- A decimal number as it is written, without currency sign and separators. -/
structure Decimal where
  negative : Bool
  whole : List Char
  fraction : List Char
  whole_ne : whole ≠ []
  whole_digits : ∀ c ∈ whole, c.isDigit = true
  fraction_digits : ∀ c ∈ fraction, c.isDigit = true

/-- A fraction with its decimal point. -/
def dotted (fraction : List Char) : List Char := if fraction = [] then [] else '.' :: fraction

def signed (negative : Bool) (s : List Char) : List Char := if negative then '-' :: s else s

/-- How the decimal is written. -/
def Decimal.text (n : Decimal) : List Char := signed n.negative (n.whole ++ dotted n.fraction)

/-- The number without its sign. -/
def Decimal.size (n : Decimal) : ℚ := wholeValue n.whole + fractionValue n.fraction

def Decimal.value (n : Decimal) : ℚ := if n.negative then -n.size else n.size

/-- The zeros a decimal begins with. -/
def Decimal.leadingZeros (n : Decimal) : ℕ := (n.whole.takeWhile (· = '0')).length

/-! ### A token is the text of a decimal -/

/-- The number a text writes, without currency sign and separators. -/
def bareNumber (t : List Char) : List Char := (trimPrefix '$' (trimSpace t)).filter (· ≠ ',')

/-- The rational a text denotes. -/
def numericValue (t : List Char) : ℚ :=
  let s := trimPrefix '-' (bareNumber t)
  let size := wholeValue (s.takeWhile Char.isDigit) +
    fractionValue ((s.dropWhile Char.isDigit).drop 1)
  if (bareNumber t).head? = some '-' then -size else size

/-- The texts that are numbers: the tokens of an answer and the admitted expectations. -/
def IsNumericToken (t : List Char) : Prop :=
  numberToken.fullMatch t = true ∨ numericExpectationValid t = true

/-- The zeros a number begins with. -/
def leadingZeros (t : List Char) : ℕ :=
  ((trimPrefix '-' (bareNumber t)).takeWhile (· = '0')).length

/-- Two numbers begin with equally many zeros, and have one sign if they are zero and begin
with several. -/
def SpelledAlike (a b : List Char) : Prop :=
  leadingZeros a = leadingZeros b ∧
    (numericValue a = 0 → leadingZeros a ≠ 1 →
      ((bareNumber a).head? = some '-' ↔ (bareNumber b).head? = some '-'))

theorem isDigit_eq_true_iff {c : Char} : c.isDigit = true ↔ '0' ≤ c ∧ c ≤ '9' := by
  rw [Char.isDigit, Bool.and_eq_true, decide_eq_true_eq, decide_eq_true_eq]
  exact Iff.rfl

theorem ne_of_isDigit {c d : Char} (hc : c.isDigit = true) (hd : d.isDigit = false) : c ≠ d := by
  rintro rfl
  rw [hc] at hd
  cases hd

/-- What an optional sign took. -/
theorem ahead_of_opt_lit {x : Char} {c d : Cursor Char} (hd : d ∈ ends (opt (lit x)) c) :
    c.ahead = x :: d.ahead ∨ c.ahead = d.ahead := by
  rcases mem_ends_opt.mp hd with hd | rfl
  · exact Or.inl (ahead_of_lit hd)
  · exact Or.inr rfl

/-- What an optional fraction took. -/
theorem ahead_of_fraction {c d : Cursor Char}
    (hd : d ∈ ends (opt (cat [lit '.', plus digit])) c) :
    ∃ f, (∀ x ∈ f, x.isDigit = true) ∧ c.ahead = dotted f ++ d.ahead := by
  rcases mem_ends_opt.mp hd with hd | rfl
  · obtain ⟨m, hm, n, hn, rfl⟩ := by simpa only [mem_ends_cat_cons, mem_ends_cat_nil] using hd
    obtain ⟨f, hne, hf, hrest⟩ := ahead_of_plus_symbol hn
    exact ⟨f, hf, by rw [ahead_of_lit hm, hrest, dotted, if_neg hne]; rfl⟩
  · exact ⟨[], by simp, rfl⟩

/-- A sign, a digit, digits and separators, and a fraction: a decimal, once the separators are
dropped. -/
theorem exists_decimal (neg : Bool) {x : Char} {u f : List Char} (hx : x.isDigit = true)
    (hu : ∀ c ∈ u, c.isDigit = true ∨ c = ',') (hf : ∀ c ∈ f, c.isDigit = true) :
    ∃ n : Decimal, (signed neg (x :: u ++ dotted f)).filter (· ≠ ',') = n.text := by
  have hdigits : ∀ c ∈ x :: u.filter (· ≠ ','), c.isDigit = true := by
    refine List.forall_mem_cons.mpr ⟨hx, fun c hc => ?_⟩
    obtain ⟨hc, hne⟩ := List.mem_filter.mp hc
    exact (hu c hc).resolve_right (of_decide_eq_true hne)
  refine ⟨⟨neg, x :: u.filter (· ≠ ','), f, List.cons_ne_nil _ _, hdigits, hf⟩, ?_⟩
  have hsep : ∀ c : Char, c.isDigit = true → c ≠ ',' := fun c hc => ne_of_isDigit hc rfl
  -- only the whole part can hold commas
  have hfraction : (dotted f).filter (· ≠ ',') = dotted f := by
    rw [List.filter_eq_self]
    intro c hc
    unfold dotted at hc
    split_ifs at hc
    · cases hc
    · rcases List.mem_cons.mp hc with rfl | hc
      · decide
      · exact decide_eq_true (hsep c (hf c hc))
  have hwhole : (x :: u ++ dotted f).filter (· ≠ ',') =
      x :: u.filter (· ≠ ',') ++ dotted f := by
    rw [List.filter_append, hfraction, List.filter_cons_of_pos]
    exact decide_eq_true (hsep x hx)
  cases neg with
  | false => exact hwhole
  | true => exact congrArg ('-' :: ·) hwhole

theorem isSpace_eq_false_of_isDigit {c : Char} (hc : c.isDigit = true) : isSpace c = false := by
  obtain ⟨hlo, hhi⟩ := isDigit_eq_true_iff.mp hc
  exact isSpace_eq_false_of_visible (le_trans (by decide) hlo) (le_trans hhi (by decide))

/-- A decimal with separators has no white space. -/
theorem trimSpace_signed (neg : Bool) {x : Char} {u f : List Char} (hx : x.isDigit = true)
    (hu : ∀ c ∈ u, c.isDigit = true ∨ c = ',') (hf : ∀ c ∈ f, c.isDigit = true) :
    trimSpace (signed neg (x :: u ++ dotted f)) = signed neg (x :: u ++ dotted f) := by
  apply trimSpace_of_forall
  have hfraction : ∀ c ∈ dotted f, isSpace c = false := by
    unfold dotted
    split_ifs
    · simp
    · exact List.forall_mem_cons.mpr ⟨by decide, fun c hc => isSpace_eq_false_of_isDigit (hf c hc)⟩
  have hwhole : ∀ c ∈ x :: u ++ dotted f, isSpace c = false := by
    refine List.forall_mem_append.mpr ⟨List.forall_mem_cons.mpr ⟨?_, fun c hc => ?_⟩, hfraction⟩
    · exact isSpace_eq_false_of_isDigit hx
    · rcases hu c hc with hc | rfl
      · exact isSpace_eq_false_of_isDigit hc
      · decide
  cases neg with
  | false => exact hwhole
  | true => exact List.forall_mem_cons.mpr ⟨by decide, hwhole⟩

theorem trimPrefix_signed (neg : Bool) {c x : Char} {s : List Char} (hx : x.isDigit = true)
    (hc : c.isDigit = false) (hne : c ≠ '-') :
    trimPrefix c (signed neg (x :: s)) = signed neg (x :: s) := by
  cases neg with
  | false => exact trimPrefix_cons_of_ne (ne_of_isDigit hx hc) _
  | true => exact trimPrefix_cons_of_ne hne.symm _

/-- What an optional sign and the rest of a number took. -/
theorem eq_signed {c d : Cursor Char} {s : List Char} (hd : d ∈ ends (opt (lit '-')) c)
    (hs : d.ahead = s) : ∃ neg, c.ahead = signed neg s := by
  rcases ahead_of_opt_lit hd with hsign | hsign
  · exact ⟨true, by rw [hsign, hs]; rfl⟩
  · exact ⟨false, by rw [hsign, hs]; rfl⟩

theorem decimal_of_numberToken {t : List Char} (h : numberToken.fullMatch t = true) :
    ∃ n : Decimal, bareNumber t = n.text := by
  obtain ⟨d, hd, hend⟩ := fullMatch_iff.mp h
  simp only [numberToken, mem_ends_cat_cons, mem_ends_cat_nil] at hd
  obtain ⟨m₁, h₁, m₂, h₂, m₃, h₃, m₄, h₄, rfl⟩ := hd
  obtain ⟨x, hx, hdigit⟩ := ahead_of_symbol h₂
  obtain ⟨u, hu, hwhole⟩ := ahead_of_star_symbol h₃
  obtain ⟨f, hf, hfraction⟩ := ahead_of_fraction h₄
  have hu' : ∀ c ∈ u, c.isDigit = true ∨ c = ',' := by simpa using hu
  rw [hend, List.append_nil] at hfraction
  rw [hwhole, hfraction] at hdigit
  obtain ⟨neg, ht⟩ := eq_signed h₁ hdigit
  obtain ⟨n, hn⟩ := exists_decimal neg hx hu' hf
  refine ⟨n, ?_⟩
  rw [bareNumber, show t = _ from ht, ← List.cons_append, trimSpace_signed neg hx hu' hf,
    List.cons_append, trimPrefix_signed neg hx (by decide) (by decide), ← hn, List.cons_append]

/-- What the whole part of an expectation took. -/
theorem ahead_of_groups {c d : Cursor Char}
    (hd : d ∈ ends (alt
      (cat [digit, opt (seq digit (opt digit)), plus (cat [lit ',', digit, digit, digit])])
      (plus digit)) c) :
    ∃ x u, x.isDigit = true ∧ (∀ y ∈ u, y.isDigit = true ∨ y = ',') ∧
      c.ahead = x :: u ++ d.ahead := by
  -- a comma and three digits
  have hround : ∀ c : Cursor Char, ∀ d ∈ ends (cat [lit ',', digit, digit, digit]) c,
      ∃ u, (∀ y ∈ u, y.isDigit = true ∨ y = ',') ∧ c.ahead = u ++ d.ahead := by
    intro c d hd
    simp only [mem_ends_cat_cons, mem_ends_cat_nil] at hd
    obtain ⟨m₁, h₁, m₂, h₂, m₃, h₃, m₄, h₄, rfl⟩ := hd
    obtain ⟨x₂, hx₂, h₂⟩ := ahead_of_symbol h₂
    obtain ⟨x₃, hx₃, h₃⟩ := ahead_of_symbol h₃
    obtain ⟨x₄, hx₄, h₄⟩ := ahead_of_symbol h₄
    refine ⟨[',', x₂, x₃, x₄], by simp [hx₂, hx₃, hx₄], ?_⟩
    rw [ahead_of_lit h₁, h₂, h₃, h₄]
    rfl
  rcases mem_ends_alt.mp hd with hd | hd
  · simp only [mem_ends_cat_cons, mem_ends_cat_nil] at hd
    obtain ⟨m₁, h₁, m₂, h₂, m₃, h₃, rfl⟩ := hd
    obtain ⟨x, hx, h₁⟩ := ahead_of_symbol h₁
    obtain ⟨m₄, h₄, hd⟩ := mem_ends_seq.mp h₃
    obtain ⟨v, hv, h₄⟩ := hround _ _ h₄
    obtain ⟨w, hw, hd⟩ := ahead_of_star hround hd
    -- up to two more digits before the first comma
    have hopt : ∃ u, (∀ y ∈ u, y.isDigit = true ∨ y = ',') ∧ m₁.ahead = u ++ m₂.ahead := by
      rcases mem_ends_opt.mp h₂ with h₂ | rfl
      · obtain ⟨m₅, h₅, h₂⟩ := mem_ends_seq.mp h₂
        obtain ⟨y, hy, h₅⟩ := ahead_of_symbol h₅
        rcases mem_ends_opt.mp h₂ with h₂ | rfl
        · obtain ⟨z, hz, h₂⟩ := ahead_of_symbol h₂
          exact ⟨[y, z], by simp [hy, hz], by rw [h₅, h₂]; rfl⟩
        · exact ⟨[y], by simp [hy], h₅⟩
      · exact ⟨[], by simp, rfl⟩
    obtain ⟨u, hu, hopt⟩ := hopt
    refine ⟨x, u ++ (v ++ w), hx, ?_, ?_⟩
    · exact List.forall_mem_append.mpr ⟨hu, List.forall_mem_append.mpr ⟨hv, hw⟩⟩
    · rw [h₁, hopt, h₄, hd]
      simp
  · obtain ⟨m, hm, hd⟩ := mem_ends_seq.mp hd
    obtain ⟨x, hx, hm⟩ := ahead_of_symbol hm
    obtain ⟨u, hu, hd⟩ := ahead_of_star_symbol hd
    exact ⟨x, u, hx, fun y hy => Or.inl (hu y hy), by rw [hm, hd]; rfl⟩

/-- An admitted expectation is a decimal with separators, perhaps after a currency sign. -/
theorem text_of_expectation {t : List Char} (h : numericExpectationValid t = true) :
    ∃ neg x u f, x.isDigit = true ∧ (∀ c ∈ u, c.isDigit = true ∨ c = ',') ∧
      (∀ c ∈ f, c.isDigit = true) ∧ (trimSpace t = '$' :: signed neg (x :: u ++ dotted f) ∨
        trimSpace t = signed neg (x :: u ++ dotted f)) := by
  obtain ⟨⟨b, d⟩, hfind⟩ := Option.isSome_iff_exists.mp h
  obtain ⟨hd, htext⟩ := mem_ends_of_find hfind
  simp only [numericExpectationPattern, mem_ends_cat_cons, mem_ends_cat_nil, mem_ends_bol,
    mem_ends_eol] at hd
  obtain ⟨m₀, ⟨hstart, rfl⟩, m₁, h₁, m₂, h₂, m₃, h₃, m₄, h₄, m₅, ⟨hend, rfl⟩, rfl⟩ := hd
  obtain ⟨x, u, hx, hu, hwhole⟩ := ahead_of_groups h₃
  obtain ⟨f, hf, hfraction⟩ := ahead_of_fraction h₄
  rw [hend, List.append_nil] at hfraction
  rw [hfraction] at hwhole
  obtain ⟨neg, hsigned⟩ := eq_signed h₂ hwhole
  refine ⟨neg, x, u, f, hx, hu, hf, ?_⟩
  rw [htext, hstart, List.reverse_nil, List.nil_append, ← hsigned]
  exact ahead_of_opt_lit h₁

theorem decimal_of_expectation {t : List Char} (h : numericExpectationValid t = true) :
    ∃ n : Decimal, bareNumber t = n.text := by
  obtain ⟨neg, x, u, f, hx, hu, hf, htext⟩ := text_of_expectation h
  obtain ⟨n, hn⟩ := exists_decimal neg hx hu hf
  refine ⟨n, ?_⟩
  rcases htext with htext | htext
  · rw [bareNumber, htext, trimPrefix_cons_self, hn]
  · rw [bareNumber, htext, List.cons_append, trimPrefix_signed neg hx (by decide) (by decide),
      ← List.cons_append, hn]

theorem IsNumericToken.exists_decimal {t : List Char} (h : IsNumericToken t) :
    ∃ n : Decimal, bareNumber t = n.text :=
  h.elim decimal_of_numberToken decimal_of_expectation

/-! ### The canonical form of a decimal -/

/-- The fraction without trailing zeros. -/
def Decimal.kept (n : Decimal) : List Char := n.fraction.rdropWhile (· = '0')

/-- The digits stay, the fraction loses its trailing zeros, and a negative zero of one digit its
sign. -/
def Decimal.normal (n : Decimal) : Decimal where
  negative := n.negative && !(n.whole = ['0'] && n.kept = [])
  whole := n.whole
  fraction := n.kept
  whole_ne := n.whole_ne
  whole_digits := n.whole_digits
  fraction_digits c hc := n.fraction_digits c ((List.rdropWhile_prefix _ _).subset hc)

variable {m n : Decimal}

theorem Decimal.exists_whole (n : Decimal) :
    ∃ x u, x.isDigit = true ∧ n.whole = x :: u := by
  obtain ⟨x, u, hwhole⟩ := List.exists_cons_of_ne_nil n.whole_ne
  exact ⟨x, u, n.whole_digits x (by simp [hwhole]), hwhole⟩

theorem Decimal.trimPrefix_text (n : Decimal) {c : Char} (hc : c.isDigit = false)
    (hne : c ≠ '-') : trimPrefix c n.text = n.text := by
  obtain ⟨x, u, hx, hwhole⟩ := n.exists_whole
  rw [Decimal.text, hwhole, List.cons_append]
  exact trimPrefix_signed _ hx hc hne

/-- Without its sign a decimal is its digits and its fraction. -/
theorem Decimal.trimPrefix_sign (n : Decimal) :
    trimPrefix '-' n.text = n.whole ++ dotted n.fraction := by
  obtain ⟨x, u, hx, hwhole⟩ := n.exists_whole
  rw [Decimal.text]
  cases n.negative with
  | true => exact trimPrefix_cons_self _ _
  | false =>
    rw [hwhole]
    exact trimPrefix_cons_of_ne (ne_of_isDigit hx (by decide)) _

theorem Decimal.head_text (n : Decimal) : n.text.head? = some '-' ↔ n.negative = true := by
  obtain ⟨x, u, hx, hwhole⟩ := n.exists_whole
  rw [Decimal.text]
  cases n.negative with
  | true => simp [signed]
  | false =>
    rw [hwhole]
    simpa [signed] using ne_of_isDigit hx (by decide)

theorem dotted_head_not_digit (f : List Char) : ∀ c ∈ (dotted f).head?, c.isDigit = false := by
  unfold dotted
  split_ifs
  · simp
  · simp only [List.head?_cons, Option.mem_some_iff]
    rintro c rfl
    decide

/-- The digits a text begins with end before one that does not begin with a digit. -/
theorem takeWhile_append_of_head {p : Char → Bool} {w s : List Char} (hw : ∀ c ∈ w, p c = true)
    (hs : ∀ c ∈ s.head?, p c = false) : (w ++ s).takeWhile p = w := by
  rw [List.takeWhile_append_of_pos hw]
  cases s with
  | nil => simp
  | cons c s => rw [List.takeWhile_cons_of_neg (by simpa using hs c rfl), List.append_nil]

theorem dropWhile_append_of_head {p : Char → Bool} {w s : List Char} (hw : ∀ c ∈ w, p c = true)
    (hs : ∀ c ∈ s.head?, p c = false) : (w ++ s).dropWhile p = s := by
  rw [List.dropWhile_append_of_pos hw]
  cases s with
  | nil => rfl
  | cons c s => rw [List.dropWhile_cons_of_neg (by simpa using hs c rfl)]

theorem drop_dotted (f : List Char) : (dotted f).drop 1 = f := by
  unfold dotted
  split_ifs with hf
  · exact hf.symm
  · rfl

/-- A text denotes the value of the decimal it writes. -/
theorem numericValue_of_text {t : List Char} (h : bareNumber t = n.text) :
    numericValue t = n.value := by
  have hhead := dotted_head_not_digit n.fraction
  simp only [numericValue, h, n.trimPrefix_sign, n.head_text,
    takeWhile_append_of_head n.whole_digits hhead, dropWhile_append_of_head n.whole_digits hhead,
    drop_dotted, Decimal.value, Decimal.size]

/-- The leading zeros end before the fraction. -/
theorem leadingZeros_of_text {t : List Char} (h : bareNumber t = n.text) :
    leadingZeros t = n.leadingZeros := by
  rw [leadingZeros, h, n.trimPrefix_sign, Decimal.leadingZeros]
  congr 1
  rw [List.takeWhile_append]
  split_ifs with hall
  · have hdot : (dotted n.fraction).takeWhile (· = '0') = [] := by
      unfold dotted
      split_ifs <;> rfl
    have hself : n.whole.takeWhile (· = '0') = n.whole := by
      exact List.IsPrefix.eq_of_length (List.takeWhile_prefix _) hall
    rw [hdot, hself, List.append_nil]
  · rfl

/-- What does not satisfy the predicate stops the trimming. -/
theorem rdropWhile_append_cons {p : Char → Bool} {x : Char} (hx : p x = false)
    (s f : List Char) : (s ++ x :: f).rdropWhile p = s ++ x :: f.rdropWhile p := by
  simp only [List.rdropWhile, List.reverse_append, List.reverse_cons, List.append_assoc,
    List.dropWhile_append]
  cases hdrop : f.reverse.dropWhile p with
  | nil => simp [hx]
  | cons y ys => simp

/-- Trailing zeros and then a trailing point go, where there is a point. -/
theorem trimmed_text (n : Decimal) :
    (if '.' ∈ n.text then (n.text.rdropWhile (· = '0')).rdropWhile (· = '.') else n.text) =
      signed n.negative (n.whole ++ dotted n.kept) := by
  have htext : n.text = signed n.negative n.whole ++ dotted n.fraction := by
    rw [Decimal.text]
    cases n.negative <;> rfl
  have hcanonical : signed n.negative (n.whole ++ dotted n.kept) =
      signed n.negative n.whole ++ dotted n.kept := by
    cases n.negative <;> rfl
  -- the digits and the sign hold no point
  have hpoint : ∀ c ∈ signed n.negative n.whole, c ≠ '.' := by
    have hwhole : ∀ c ∈ n.whole, c ≠ '.' := fun c hc => ne_of_isDigit (n.whole_digits c hc) (by decide)
    cases n.negative with
    | false => exact hwhole
    | true => exact List.forall_mem_cons.mpr ⟨by decide, hwhole⟩
  have hnopoint : ∀ s : List Char, (∀ c ∈ s, c ≠ '.') → s.rdropWhile (· = '.') = s := by
    intro s hs
    rw [List.rdropWhile_eq_self_iff]
    exact fun hne => by simpa using hs _ (List.getLast_mem hne)
  rw [htext, hcanonical]
  cases hf : n.fraction with
  | nil =>
    have hkept : n.kept = [] := by rw [Decimal.kept, hf, List.rdropWhile_nil]
    have hmem : '.' ∉ signed n.negative n.whole ++ dotted [] := by
      rw [dotted, if_pos rfl, List.append_nil]
      exact fun hmem => hpoint _ hmem rfl
    rw [if_neg hmem, hkept]
  | cons c f =>
    have hdotted : dotted (c :: f) = '.' :: c :: f := rfl
    rw [hdotted, if_pos (by simp), rdropWhile_append_cons (by decide), ← hf]
    change (_ ++ '.' :: n.kept).rdropWhile _ = _
    cases hkept : n.kept with
    | nil =>
      rw [dotted, if_pos rfl, List.append_nil, List.rdropWhile_concat_pos _ _ _ (by decide),
        hnopoint _ hpoint]
    | cons d k =>
      rw [← hkept]
      have hlast : ∀ x ∈ n.kept, x ≠ '.' := by
        intro x hx
        have hmem : x ∈ n.fraction := (List.rdropWhile_prefix _ n.fraction).subset hx
        exact ne_of_isDigit (n.fraction_digits x hmem) (by decide)
      have hne : dotted n.kept = '.' :: n.kept := by rw [hkept]; rfl
      rw [hne, List.rdropWhile_eq_self_iff]
      intro hnil
      rw [List.getLast_append_of_ne_nil _ (by simp), List.getLast_cons (by simp [hkept])]
      simpa using hlast _ (List.getLast_mem (by simp [hkept]))

/-- **The canonical form of a token is how its decimal is written once it is normal.** -/
theorem normalizeNumericToken_of_text {t : List Char} (h : bareNumber t = n.text) :
    normalizeNumericToken t = n.normal.text := by
  have hform : normalizeNumericToken t =
      if signed n.negative (n.whole ++ dotted n.kept) = ['-', '0'] ∨
          signed n.negative (n.whole ++ dotted n.kept) = [] then ['0']
      else signed n.negative (n.whole ++ dotted n.kept) := by
    rw [← trimmed_text, ← n.trimPrefix_text (c := '+') (by decide) (by decide), ← h]
    rfl
  obtain ⟨x, u, hx, hwhole⟩ := n.exists_whole
  -- only a lone negative zero folds: other zeros keep their sign
  have hzero : signed n.negative (n.whole ++ dotted n.kept) = ['-', '0'] ↔
      n.negative = true ∧ n.whole = ['0'] ∧ n.kept = [] := by
    cases n.negative with
    | false =>
      have hne : x ≠ '-' := ne_of_isDigit hx (by decide)
      simp [signed, hwhole, hne]
    | true =>
      rw [signed, if_pos rfl, hwhole]
      cases n.kept <;> simp [dotted]
  have hne : signed n.negative (n.whole ++ dotted n.kept) ≠ [] := by
    cases n.negative <;> simp [signed, hwhole]
  simp only [hform, hzero, hne, or_false]
  split_ifs with hfold
  · obtain ⟨hneg, hone, hnil⟩ := hfold
    simp [Decimal.text, Decimal.normal, hone, hnil, signed, dotted]
  · have hsign : n.normal.negative = n.negative := by
      cases hneg : n.negative with
      | false => simp [Decimal.normal, hneg]
      | true => simpa [Decimal.normal, hneg, ← not_and_or] using fun hzero => hfold ⟨hneg, hzero⟩
    rw [Decimal.text, hsign]
    rfl

/-- How a decimal is written determines it. -/
theorem Decimal.text_inj (h : m.text = n.text) :
    m.negative = n.negative ∧ m.whole = n.whole ∧ m.fraction = n.fraction := by
  have hsign : m.negative = n.negative := by
    rw [Bool.eq_iff_iff, ← m.head_text, ← n.head_text, h]
  have hbare : m.whole ++ dotted m.fraction = n.whole ++ dotted n.fraction := by
    rw [← m.trimPrefix_sign, ← n.trimPrefix_sign, h]
  refine ⟨hsign, ?_, ?_⟩
  · rw [← takeWhile_append_of_head m.whole_digits (dotted_head_not_digit m.fraction), hbare,
      takeWhile_append_of_head n.whole_digits (dotted_head_not_digit n.fraction)]
  · rw [← drop_dotted m.fraction, ← drop_dotted n.fraction,
      ← dropWhile_append_of_head m.whole_digits (dotted_head_not_digit m.fraction), hbare,
      dropWhile_append_of_head n.whole_digits (dotted_head_not_digit n.fraction)]

/-! ### Values of digits -/

theorem digitValue_le {c : Char} (hc : c.isDigit = true) : digitValue c ≤ 9 := by
  obtain ⟨-, hhi⟩ := isDigit_eq_true_iff.mp hc
  have hnat : c.toNat ≤ '9'.toNat := hhi
  exact Nat.sub_le_sub_right hnat _

theorem digitValue_inj {c d : Char} (hc : c.isDigit = true) (hd : d.isDigit = true)
    (h : digitValue c = digitValue d) : c = d := by
  have hlo : '0'.toNat ≤ c.toNat := (isDigit_eq_true_iff.mp hc).1
  have hlo' : '0'.toNat ≤ d.toNat := (isDigit_eq_true_iff.mp hd).1
  apply Char.ext
  apply UInt32.toNat_inj.mp
  unfold digitValue at h
  change c.toNat = d.toNat
  omega

theorem digitValue_eq_zero_iff {c : Char} (hc : c.isDigit = true) :
    digitValue c = 0 ↔ c = '0' := by
  constructor
  · exact fun h => digitValue_inj hc (by decide) h
  · rintro rfl
    rfl

theorem fractionValue_nonneg (f : List Char) : 0 ≤ fractionValue f := by
  induction f with
  | nil => exact le_rfl
  | cons c f ih =>
    have hdigit : (0 : ℚ) ≤ digitValue c := Nat.cast_nonneg _
    unfold fractionValue
    linarith

theorem fractionValue_lt_one {f : List Char} (hf : ∀ c ∈ f, c.isDigit = true) :
    fractionValue f < 1 := by
  induction f with
  | nil => exact zero_lt_one
  | cons c f ih =>
    have hlt := ih fun x hx => hf x (by simp [hx])
    have hle : (digitValue c : ℚ) ≤ 9 := by exact_mod_cast digitValue_le (hf c (by simp))
    unfold fractionValue
    linarith

theorem fractionValue_append_zeros (f z : List Char) (hz : ∀ c ∈ z, c = '0') :
    fractionValue (f ++ z) = fractionValue f := by
  induction f with
  | nil =>
    induction z with
    | nil => rfl
    | cons c z ih =>
      have hzero := ih fun x hx => hz x (by simp [hx])
      have hc : digitValue c = 0 := by rw [hz c (by simp)]; rfl
      rw [List.nil_append] at hzero ⊢
      simp [fractionValue, hzero, hc]
  | cons c f ih => rw [List.cons_append, fractionValue, ih, fractionValue]

/-- Whole parts and fractions of equal sums are equal. -/
theorem add_fraction_inj {a b : ℕ} {x y : ℚ} (hx : 0 ≤ x) (hx' : x < 1) (hy : 0 ≤ y)
    (hy' : y < 1) (h : a + x = b + y) : a = b ∧ x = y := by
  have hlt : (a : ℚ) < b + 1 := by linarith
  have hgt : (b : ℚ) < a + 1 := by linarith
  have heq : a = b := by
    have h₁ : a < b + 1 := by exact_mod_cast hlt
    have h₂ : b < a + 1 := by exact_mod_cast hgt
    omega
  refine ⟨heq, ?_⟩
  rw [heq] at h
  linarith

/-- Equal fractions agree digit by digit. -/
theorem fractionValue_cons_inj {c d : Char} {f g : List Char}
    (hf : ∀ x ∈ c :: f, x.isDigit = true) (hg : ∀ x ∈ d :: g, x.isDigit = true)
    (h : fractionValue (c :: f) = fractionValue (d :: g)) :
    c = d ∧ fractionValue f = fractionValue g := by
  obtain ⟨hc, hf⟩ := List.forall_mem_cons.mp hf
  obtain ⟨hd, hg⟩ := List.forall_mem_cons.mp hg
  have hsum : digitValue c + fractionValue f = digitValue d + fractionValue g := by
    unfold fractionValue at h
    linarith
  obtain ⟨hdigit, hrest⟩ := add_fraction_inj (fractionValue_nonneg f) (fractionValue_lt_one hf)
    (fractionValue_nonneg g) (fractionValue_lt_one hg) hsum
  exact ⟨digitValue_inj hc hd hdigit, hrest⟩

/-- A fraction of value zero has no other digits. -/
theorem eq_zero_of_fractionValue {f : List Char} (hf : ∀ c ∈ f, c.isDigit = true)
    (h : fractionValue f = 0) : ∀ c ∈ f, c = '0' := by
  induction f with
  | nil => simp
  | cons c f ih =>
    obtain ⟨hc, hf⟩ := List.forall_mem_cons.mp hf
    have hzero : (digitValue c : ℚ) + fractionValue f = 0 := by
      unfold fractionValue at h
      linarith
    have hdigit : (0 : ℚ) ≤ digitValue c := Nat.cast_nonneg _
    have hfraction := fractionValue_nonneg f
    refine List.forall_mem_cons.mpr ⟨(digitValue_eq_zero_iff hc).mp ?_, ih hf (by linarith)⟩
    have : (digitValue c : ℚ) = 0 := by linarith
    exact_mod_cast this

/-- Fractions without trailing zeros are equal if their values are. -/
theorem fractionValue_inj {f g : List Char} (hf : ∀ c ∈ f, c.isDigit = true)
    (hg : ∀ c ∈ g, c.isDigit = true) (hlast : ∀ c ∈ f.getLast?, c ≠ '0')
    (hlast' : ∀ c ∈ g.getLast?, c ≠ '0') (h : fractionValue f = fractionValue g) : f = g := by
  induction f generalizing g with
  | nil =>
    cases g with
    | nil => rfl
    | cons d g =>
      have hmem := List.getLast_mem (List.cons_ne_nil d g)
      -- a fraction worth nothing is all zeros, but its last digit is not
      exact absurd (eq_zero_of_fractionValue hg h.symm _ hmem)
        (hlast' _ (List.getLast?_eq_some_getLast _))
  | cons c f ih =>
    cases g with
    | nil =>
      have hmem := List.getLast_mem (List.cons_ne_nil c f)
      exact absurd (eq_zero_of_fractionValue hf h _ hmem)
        (hlast _ (List.getLast?_eq_some_getLast _))
    | cons d g =>
      obtain ⟨rfl, hrest⟩ := fractionValue_cons_inj hf hg h
      have hpast : ∀ {l : List Char}, (∀ x ∈ (c :: l).getLast?, x ≠ '0') →
          ∀ x ∈ l.getLast?, x ≠ '0' := by
        intro l hl x hx
        cases l with
        | nil => cases hx
        | cons y l => exact hl x hx
      rw [ih (fun x hx => hf x (by simp [hx])) (fun x hx => hg x (by simp [hx])) (hpast hlast)
        (hpast hlast') hrest]

/-- The digits of a whole part are its leading zeros and the digits of its value. -/
theorem map_digitValue {w : List Char} (hw : ∀ c ∈ w, c.isDigit = true) :
    w.map digitValue = List.replicate (w.takeWhile (· = '0')).length 0 ++
      (Nat.digits 10 (wholeValue w)).reverse := by
  have hzeros : (w.takeWhile (· = '0')).map digitValue =
      List.replicate (w.takeWhile (· = '0')).length 0 := by
    rw [List.eq_replicate_iff, List.length_map]
    refine ⟨rfl, fun v hv => ?_⟩
    obtain ⟨c, hc, rfl⟩ := List.mem_map.mp hv
    have hzero : c = '0' := by simpa using List.mem_takeWhile_imp hc
    rw [hzero]
    rfl
  have hrest : ∀ c ∈ w.dropWhile (· = '0'), c.isDigit = true :=
    fun c hc => hw c (List.dropWhile_sublist _ |>.subset hc)
  -- leading zeros first, then the digits of the value
  have hsplit : w.map digitValue = List.replicate (w.takeWhile (· = '0')).length 0 ++
      (w.dropWhile (· = '0')).map digitValue := by
    rw [← hzeros, ← List.map_append, List.takeWhile_append_dropWhile]
  rw [hsplit, wholeValue, hsplit, List.reverse_append, List.reverse_replicate]
  congr 1
  rw [eq_comm, List.reverse_eq_iff, Nat.ofDigits_append_replicate_zero,
    Nat.digits_ofDigits 10 (by decide)]
  · intro v hv
    obtain ⟨c, hc, rfl⟩ := List.mem_map.mp (List.mem_reverse.mp hv)
    exact Nat.lt_succ_of_le (digitValue_le (hrest c hc))
  · intro hne
    have hdrop : w.dropWhile (· = '0') ≠ [] := by simpa using hne
    have hhead := List.head_dropWhile_not (fun c => decide (c = '0')) hdrop
    rw [List.getLast_reverse, List.head_map, Ne, digitValue_eq_zero_iff
      (hrest _ (List.head_mem hdrop))]
    simpa using hhead

theorem map_digitValue_inj {w w' : List Char} (hw : ∀ c ∈ w, c.isDigit = true)
    (hw' : ∀ c ∈ w', c.isDigit = true) (h : w.map digitValue = w'.map digitValue) : w = w' := by
  induction w generalizing w' with
  | nil => exact (List.map_eq_nil_iff.mp h.symm).symm
  | cons c w ih =>
    obtain ⟨d, v, rfl, hd, hv⟩ := List.map_eq_cons_iff.mp h.symm
    obtain ⟨hc, hw⟩ := List.forall_mem_cons.mp hw
    obtain ⟨hd', hw'⟩ := List.forall_mem_cons.mp hw'
    rw [digitValue_inj hd' hc hd, ih hw hw' hv.symm]

/-- Whole parts of one value are equal if they begin with as many zeros. -/
theorem whole_inj {w w' : List Char} (hw : ∀ c ∈ w, c.isDigit = true)
    (hw' : ∀ c ∈ w', c.isDigit = true) (hvalue : wholeValue w = wholeValue w')
    (hzeros : (w.takeWhile (· = '0')).length = (w'.takeWhile (· = '0')).length) : w = w' := by
  apply map_digitValue_inj hw hw'
  rw [map_digitValue hw, map_digitValue hw', hvalue, hzeros]

/-- A whole part of value zero is its leading zeros. -/
theorem whole_eq_replicate {w : List Char} (hw : ∀ c ∈ w, c.isDigit = true)
    (hvalue : wholeValue w = 0) : w = List.replicate (w.takeWhile (· = '0')).length '0' := by
  refine map_digitValue_inj hw (fun c hc => by rw [List.eq_of_mem_replicate hc]; rfl) ?_
  rw [List.map_replicate, map_digitValue hw, hvalue, Nat.digits_zero, List.reverse_nil,
    List.append_nil]
  rfl

/-! ### Equal forms and equal numbers -/

theorem Decimal.size_nonneg (n : Decimal) : 0 ≤ n.size := by
  have hwhole : (0 : ℚ) ≤ wholeValue n.whole := Nat.cast_nonneg _
  have hfraction := fractionValue_nonneg n.fraction
  unfold Decimal.size
  linarith

theorem Decimal.fractionValue_kept (n : Decimal) :
    fractionValue n.kept = fractionValue n.fraction := by
  have hsplit : n.kept ++ n.fraction.rtakeWhile (· = '0') = n.fraction :=
    List.rdropWhile_append_rtakeWhile
  conv_rhs => rw [← hsplit]
  refine (fractionValue_append_zeros _ _ fun c hc => ?_).symm
  simpa using List.mem_rtakeWhile_imp hc

theorem Decimal.kept_getLast (n : Decimal) : ∀ c ∈ n.kept.getLast?, c ≠ '0' := by
  intro c hc
  have hne : n.kept ≠ [] := by
    rintro hnil
    rw [hnil] at hc
    cases hc
  rw [List.getLast?_eq_some_getLast hne] at hc
  have hlast : ¬ decide (n.kept.getLast hne = '0') = true :=
    List.rdropWhile_last_not (fun c => decide (c = '0')) n.fraction hne
  rw [← Option.some.inj hc]
  simpa using hlast

theorem Decimal.kept_digits (n : Decimal) : ∀ c ∈ n.kept, c.isDigit = true :=
  n.normal.fraction_digits

/-- Sizes are equal just when the whole parts and the kept fractions are. -/
theorem Decimal.size_eq_iff :
    m.size = n.size ↔ wholeValue m.whole = wholeValue n.whole ∧ m.kept = n.kept := by
  unfold Decimal.size
  constructor
  · intro h
    obtain ⟨hwhole, hfraction⟩ := add_fraction_inj (fractionValue_nonneg _)
      (fractionValue_lt_one m.fraction_digits) (fractionValue_nonneg _)
      (fractionValue_lt_one n.fraction_digits) h
    refine ⟨hwhole, ?_⟩
    rw [← m.fractionValue_kept, ← n.fractionValue_kept] at hfraction
    exact fractionValue_inj m.kept_digits n.kept_digits m.kept_getLast n.kept_getLast hfraction
  · rintro ⟨hwhole, hkept⟩
    rw [← m.fractionValue_kept, ← n.fractionValue_kept, hwhole, hkept]

/-- Numbers are equal just when their sizes are and their signs, unless both are zero. -/
theorem Decimal.value_eq_iff :
    m.value = n.value ↔ m.size = n.size ∧ (m.negative = n.negative ∨ m.size = 0) := by
  have hm := m.size_nonneg
  have hn := n.size_nonneg
  unfold Decimal.value
  cases m.negative <;> cases n.negative
  · simp
  · constructor
    · intro h
      simp only [Bool.false_eq_true, if_false, if_true] at h
      -- a size and its negative agree at zero only
      exact ⟨by linarith, Or.inr (by linarith)⟩
    · rintro ⟨heq, hsign | hzero⟩
      · cases hsign
      · simp [← heq, hzero]
  · constructor
    · intro h
      simp only [Bool.false_eq_true, if_false, if_true] at h
      exact ⟨by linarith, Or.inr (by linarith)⟩
    · rintro ⟨heq, hsign | hzero⟩
      · cases hsign
      · simp [← heq, hzero]
  · simp

theorem Decimal.value_eq_zero_iff : n.value = 0 ↔ n.size = 0 := by
  unfold Decimal.value
  split_ifs <;> simp

/-- A decimal of size zero is its leading zeros, with nothing kept after the point. -/
theorem Decimal.of_size_eq_zero (hzero : n.size = 0) :
    n.whole = List.replicate n.leadingZeros '0' ∧ n.kept = [] := by
  let zero : Decimal :=
    ⟨false, ['0'], [], by decide, forall_mem_of_all (by decide), forall_mem_of_all (by decide)⟩
  have hsize : zero.size = 0 := by simp [Decimal.size, zero, wholeValue, fractionValue, digitValue]
  obtain ⟨hwhole, hkept⟩ := Decimal.size_eq_iff.mp (hzero.trans hsize.symm)
  exact ⟨whole_eq_replicate n.whole_digits hwhole, hkept⟩

/-- The normal form drops the sign of a zero of one digit only. -/
theorem Decimal.normal_negative (n : Decimal) :
    n.normal.negative = (n.negative && !(n.size = 0 && n.leadingZeros = 1)) := by
  have hiff : (n.whole = ['0'] ∧ n.kept = []) ↔ (n.size = 0 ∧ n.leadingZeros = 1) := by
    constructor
    · rintro ⟨hwhole, hkept⟩
      refine ⟨?_, by rw [Decimal.leadingZeros, hwhole]; rfl⟩
      rw [Decimal.size, ← n.fractionValue_kept, hwhole, hkept]
      simp [wholeValue, fractionValue, digitValue]
    · rintro ⟨hzero, hone⟩
      obtain ⟨hwhole, hkept⟩ := Decimal.of_size_eq_zero hzero
      exact ⟨by rw [hwhole, hone]; rfl, hkept⟩
  simp only [Decimal.normal, ← Bool.decide_and, hiff]

/-- Equal normal forms denote equal numbers. -/
theorem Decimal.value_eq_of_normal (h : m.normal.text = n.normal.text) : m.value = n.value := by
  obtain ⟨hsign, hwhole, hkept⟩ := Decimal.text_inj h
  have hwhole : m.whole = n.whole := hwhole
  have hsize : m.size = n.size := Decimal.size_eq_iff.mpr ⟨by rw [hwhole], hkept⟩
  refine Decimal.value_eq_iff.mpr ⟨hsize, ?_⟩
  rw [m.normal_negative, n.normal_negative, hsize] at hsign
  by_cases hzero : n.size = 0
  · exact Or.inr (hsize.trans hzero)
  · exact Or.inl (by simpa [hzero] using hsign)

/-- Decimals of one value have one normal form just when they are spelled alike. -/
theorem Decimal.normal_text_eq_iff (h : m.value = n.value) :
    m.normal.text = n.normal.text ↔ m.leadingZeros = n.leadingZeros ∧
      (m.value = 0 → m.leadingZeros ≠ 1 → (m.negative = true ↔ n.negative = true)) := by
  obtain ⟨hsize, hsign⟩ := Decimal.value_eq_iff.mp h
  obtain ⟨hvalue, hkept⟩ := Decimal.size_eq_iff.mp hsize
  constructor
  · intro htext
    obtain ⟨hneg, hwhole, -⟩ := Decimal.text_inj htext
    have hwhole : m.whole = n.whole := hwhole
    have hzeros : m.leadingZeros = n.leadingZeros := by rw [Decimal.leadingZeros, hwhole]; rfl
    refine ⟨hzeros, fun hzero hne => ?_⟩
    rw [m.normal_negative, n.normal_negative, ← hzeros] at hneg
    rw [← Bool.eq_iff_iff]
    simpa [hne] using hneg
  · rintro ⟨hzeros, hlong⟩
    have hwhole : m.whole = n.whole := whole_inj m.whole_digits n.whole_digits hvalue hzeros
    have hneg : m.normal.negative = n.normal.negative := by
      rw [m.normal_negative, n.normal_negative, ← hzeros, ← hsize]
      by_cases hzero : m.size = 0
      · -- a lone zero loses its sign; a zero spelled longer keeps it
        by_cases hone : m.leadingZeros = 1
        · simp [hzero, hone]
        · have hsame := hlong (Decimal.value_eq_zero_iff.mpr hzero) hone
          rw [Bool.eq_iff_iff.mpr hsame]
      · rw [hsign.resolve_right hzero]
    change signed m.normal.negative (m.whole ++ dotted m.kept) =
      signed n.normal.negative (n.whole ++ dotted n.kept)
    rw [hneg, hwhole, hkept]

/-- **Two tokens normalise alike just when they denote one number, exactly if they are spelled
alike whenever they do.** -/
theorem normalizeNumericToken_eq_iff (a b : List Char) (ha : IsNumericToken a)
    (hb : IsNumericToken b) :
    (normalizeNumericToken a = normalizeNumericToken b ↔ numericValue a = numericValue b) ↔
      (numericValue a = numericValue b → SpelledAlike a b) := by
  obtain ⟨m, hm⟩ := ha.exists_decimal
  obtain ⟨n, hn⟩ := hb.exists_decimal
  rw [normalizeNumericToken_of_text hm, normalizeNumericToken_of_text hn, SpelledAlike,
    numericValue_of_text hm, numericValue_of_text hn, leadingZeros_of_text hm,
    leadingZeros_of_text hn, hm, hn, m.head_text, n.head_text]
  constructor
  · exact fun h hvalue => (Decimal.normal_text_eq_iff hvalue).mp (h.mpr hvalue)
  · exact fun h => ⟨Decimal.value_eq_of_normal,
      fun hvalue => (Decimal.normal_text_eq_iff hvalue).mpr (h hvalue)⟩

/-- Separators and trailing zeros do not count. -/
theorem normalizeNumericToken_eq_iff_separated :
    (normalizeNumericToken "1,000.50".toList = normalizeNumericToken "$1000.5".toList ↔
        numericValue "1,000.50".toList = numericValue "$1000.5".toList) ↔
      (numericValue "1,000.50".toList = numericValue "$1000.5".toList →
        SpelledAlike "1,000.50".toList "$1000.5".toList) :=
  normalizeNumericToken_eq_iff _ _ (Or.inl (by decide)) (Or.inr (by decide))

/-- Leading zeros do: `007` and `7` are one number with two forms. -/
theorem not_normalizeNumericToken_eq :
    ¬ ∀ a b : List Char, IsNumericToken a → IsNumericToken b →
      (normalizeNumericToken a = normalizeNumericToken b ↔ numericValue a = numericValue b) := by
  intro h
  have heq := (h "007".toList "7".toList (Or.inl (by decide))
    (Or.inl (by decide))).mpr (by decide +kernel)
  revert heq
  decide +kernel

end HubScope
