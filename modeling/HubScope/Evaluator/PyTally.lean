import HubScope.Evaluator.PyNormal
import Mathlib.Algebra.BigOperators.Group.List.Basic
import Mathlib.Algebra.GroupWithZero.Nat

/-!
# What the strings of a written literal contain

A byte of a string is written as it is or as an escape. The letter `W` is counted on a text
without parsing it: once where it stands, once where its escape does. On a text that writes a
literal this is the number of times the letter occurs in the strings of the literal, and so it is
the same on texts with one canonical form; a part of a text that does not begin after a backslash
has it at most as often as the whole text.

## Main definitions

* `PyLiteral.occurrences` — how often the letter occurs in the strings of a literal
* `tally` — how often a text writes the letter
* `Unescaped` — the parts of a text that do not begin after a backslash

## Main results

* `Spells.rule` — what holds of tokens and strings holds of written literals
* `tally_eq_of_canonical` — texts with one canonical form write the letter equally often
* `Unescaped.tally_le` — a part writes it at most as often
-/

set_option autoImplicit false

namespace HubScope

-- A byte has 256 values, and `decide` goes through all of them.
set_option maxRecDepth 2000

open Bytes PyParser

/-! ### Occurrences -/

namespace PyLiteral

mutual

/-- How often the letter occurs in the strings of a literal. -/
def occurrences : PyLiteral → ℕ
  | string _ items => (content items).count (byte 'W')
  | number _ => 0
  | keyword _ => 0
  | list elems => occurrencesAll elems
  | tuple elems => occurrencesAll elems
  | dict entries => occurrencesPairs entries
  | set elems => occurrencesAll elems

def occurrencesAll : List PyLiteral → ℕ
  | [] => 0
  | v :: vs => occurrences v + occurrencesAll vs

def occurrencesPairs : List (PyLiteral × PyLiteral) → ℕ
  | [] => 0
  | (k, v) :: es => occurrences k + occurrences v + occurrencesPairs es

end

theorem occurrencesAll_eq (vs : List PyLiteral) :
    occurrencesAll vs = (vs.map occurrences).sum := by
  induction vs with
  | nil => rw [occurrencesAll, List.map_nil, List.sum_nil]
  | cons v vs ih => rw [occurrencesAll, ih, List.map_cons, List.sum_cons]

theorem occurrencesPairs_eq (es : List (PyLiteral × PyLiteral)) :
    occurrencesPairs es = (es.map fun e => e.1.occurrences + e.2.occurrences).sum := by
  induction es with
  | nil => rw [occurrencesPairs, List.map_nil, List.sum_nil]
  | cons e es ih => rw [occurrencesPairs, ih, List.map_cons, List.sum_cons]

/-- Respelling strings and sorting entries changes no occurrence. -/
theorem occurrences_normal (v : PyLiteral) : v.normal.occurrences = v.occurrences := by
  have hall : ∀ vs : List PyLiteral, (∀ v ∈ vs, v.normal.occurrences = v.occurrences) →
      ((vs.map normal).map occurrences).sum = (vs.map occurrences).sum := by
    intro vs h
    rw [List.map_map]
    exact congrArg List.sum (List.map_congr_left h)
  induction v with
  | string isBytes items => simp only [normal, occurrences, content_canonicalItem]
  | number token => simp only [normal, occurrences]
  | keyword word => simp only [normal, occurrences]
  | list elems ih =>
    simp only [normal, occurrences, occurrencesAll_eq, normalAll_eq]
    exact hall elems ih
  | tuple elems ih =>
    simp only [normal, occurrences, occurrencesAll_eq, normalAll_eq]
    exact hall elems ih
  | dict entries ih =>
    simp only [normal, occurrences, occurrencesPairs_eq, normalPairs_eq]
    -- sorting does not change what is counted
    rw [((List.perm_insertionSort entryLe _).map _).sum_eq, List.map_map]
    refine congrArg List.sum (List.map_congr_left fun e he => ?_)
    exact congrArg₂ (· + ·) (ih e he).1 (ih e he).2
  | set elems ih =>
    simp only [normal, occurrences, occurrencesAll_eq, normalAll_eq]
    rw [((List.perm_insertionSort elemLe _).map _).sum_eq]
    exact hall elems ih

end PyLiteral

open PyLiteral

/-- How often the letter occurs in the strings of what a text writes. -/
def PyForm.occurrences : PyForm → ℕ
  | .value v => v.occurrences
  | .elems vs => occurrencesAll vs
  | .entries es => occurrencesPairs es

/-! ### A rule for written literals -/

/-- A byte of the tokens between the strings of a literal. -/
def plain (c : Byte) : Bool := !isQuote c && c ∉ ascii ['\\', '=', 'W']

theorem plain_of_isWS : ∀ c, isWS c = true → plain c = true := by decide

theorem plain_of_isNumber {t : Bytes} (h : IsNumber t) : ∀ c ∈ t, plain c = true := by
  have hdigit : ∀ c, isDigit c = true → plain c = true := by decide
  have hmem : ∀ c ∈ ascii ['+', '-', '.', 'e', 'E'], plain c = true := by decide
  exact fun c hc => (h.bytes c hc).elim (hdigit c) (hmem c)

theorem plain_of_keyword {k : PyKeyword} {t : Bytes} (h : SpellsKeyword k t) :
    ∀ c ∈ t, plain c = true := by
  have hword : ∀ k : PyKeyword, ∀ word : Bytes, PyKeyword.ofWord word = some k →
      ∀ c ∈ word, c ≠ byte 'w' := by
    intro k word hofWord
    unfold PyKeyword.ofWord at hofWord
    split_ifs at hofWord with htrue hfalse hnone
    · rw [htrue]
      decide
    · rw [hfalse]
      decide
    · rw [hnone]
      decide
  have hletter : ∀ c, isLetter c = true → toLower c ≠ byte 'w' → plain c = true := by
    decide
  exact fun c hc => hletter c (h.1 c hc) (hword k _ h.2 _ (List.mem_map_of_mem hc))

section Rule

variable {M : ℕ → Bytes → Prop} (hnil : M 0 [])
  (happend : ∀ {m n : ℕ} {t u : Bytes}, M m t → M n u → M (m + n) (t ++ u))
  (hplain : ∀ c, plain c = true → M 0 [c])
  (hstring : ∀ {q : Byte} {items : List PyItem} {t : Bytes}, isQuote q = true →
    SpellsItems q items t → M ((content items).count (byte 'W')) (q :: t ++ [q]))

include hnil happend hplain

/-- A text of plain bytes has the measure of the empty one. -/
theorem measure_plain {t : Bytes} (ht : ∀ c ∈ t, plain c = true) : M 0 t := by
  induction t with
  | nil => exact hnil
  | cons c t ih =>
    obtain ⟨hc, ht⟩ := List.forall_mem_cons.mp ht
    exact happend (hplain c hc) (ih ht)

include hstring

/-- A measure that adds up over texts, that vanishes on plain bytes and that counts the letter in
strings counts it in written literals. -/
theorem Spells.rule {form : PyForm} {t : Bytes} (h : Spells form t) : M form.occurrences t := by
  have hword := @measure_plain M hnil @happend hplain
  have hspace : ∀ w, Spacing w → M 0 w := fun w hw => hword fun c hc => plain_of_isWS c (hw c hc)
  -- brackets, blanks, commas and colons are plain, so they add nothing to the measure
  have hclosed : ∀ {a b : Byte} {n : ℕ} {t : Bytes}, plain a = true → plain b = true → M n t →
      M n (a :: t ++ [b]) := by
    intro a b n t ha hb ht
    have hopen := happend (hplain a ha) ht
    rw [Nat.zero_add] at hopen
    exact happend hopen (hplain b hb)
  have hspaced : ∀ {n : ℕ} {w t w' : Bytes}, Spacing w → Spacing w' → M n t → M n (w ++ t ++ w') := by
    intro n w t w' hw hw' ht
    have hleft := happend (hspace w hw) ht
    rw [Nat.zero_add] at hleft
    exact happend hleft (hspace w' hw')
  have hthen : ∀ {m n : ℕ} {a : Byte} {t u : Bytes}, plain a = true → M m t → M n u →
      M (m + n) (t ++ a :: u) := by
    intro m n a t u ha ht hu
    have hright := happend (hplain a ha) hu
    rw [Nat.zero_add] at hright
    exact happend ht hright
  have hpair : ∀ {m n : ℕ} {w t w' x u x' : Bytes}, Spacing w → Spacing w' → Spacing x →
      Spacing x' → M m t → M n u → M (m + n) (w ++ t ++ w' ++ byte ':' :: (x ++ u) ++ x') := by
    intro m n w t w' x u x' hw hw' hx hx' ht hu
    have hvalue := happend (hspace x hx) hu
    rw [Nat.zero_add] at hvalue
    have hcolon := hthen (a := byte ':') (by decide) (hspaced hw hw' ht) hvalue
    have hall := happend hcolon (hspace x' hx')
    exact hall
  -- over the grammar, one case for each production
  induction h with
  | string hq h => exact hstring hq h
  | @bytes b q items t hb hq h =>
    have hb' : plain b = true := by rcases hb with rfl | rfl <;> decide
    have hprefix := happend (hplain b hb') (hstring hq h)
    rw [Nat.zero_add] at hprefix
    exact hprefix
  | number h => exact hword (plain_of_isNumber h)
  | keyword h => exact hword (plain_of_keyword h)
  | list h ih => exact hclosed (by decide) (by decide) ih
  | unit hw => exact hclosed (by decide) (by decide) (hspace _ hw)
  | group hw hw' h ih => exact hclosed (by decide) (by decide) (hspaced hw hw' ih)
  | tuple hw hw' h hs ih ihs =>
    exact hclosed (by decide) (by decide) (hthen (by decide) (hspaced hw hw' ih) ihs)
  | dict h ih => exact hclosed (by decide) (by decide) ih
  | set hne h ih => exact hclosed (by decide) (by decide) ih
  | noElem hw => exact hspace _ hw
  | lastElem hw hw' h ih => exact hspaced hw hw' ih
  | elem hw hw' h hs ih ihs => exact hthen (by decide) (hspaced hw hw' ih) ihs
  | noEntry hw => exact hspace _ hw
  | lastEntry hw hw' hx hx' hk hv ihk ihv =>
    have hall := hpair hw hw' hx hx' ihk ihv
    exact hall
  | entry hw hw' hx hx' hk hv hs ihk ihv ihs =>
    have hall := hthen (a := byte ',') (by decide) (hpair hw hw' hx hx' ihk ihv) ihs
    exact hall

end Rule

/-! ### Counting on a text -/

/-- How often a text writes the letter, as it is or as an escape. -/
def tally : Bytes → ℕ
  | [] => 0
  | [c] => if c = byte 'W' then 1 else 0
  | c :: e :: s =>
    if c = byte '\\' then (if ascii ['x', '5', '7'] <+: e :: s then 1 else 0) + tally s
    else (if c = byte 'W' then 1 else 0) + tally (e :: s)

theorem tally_cons {c : Byte} (hc : c ≠ byte '\\') (s : Bytes) :
    tally (c :: s) = (if c = byte 'W' then 1 else 0) + tally s := by
  cases s with
  | nil => rfl
  | cons e s => rw [tally, if_neg hc]

theorem tally_escape (e : Byte) (s : Bytes) : tally (byte '\\' :: e :: s) =
    (if ascii ['x', '5', '7'] <+: e :: s then 1 else 0) + tally s := by
  rw [tally, if_pos rfl]

theorem tally_plain {c : Byte} (hc : plain c = true) (s : Bytes) : tally (c :: s) = tally s := by
  have hne : ∀ c, plain c = true → c ≠ byte '\\' ∧ c ≠ byte 'W' := by decide
  obtain ⟨hslash, hletter⟩ := hne c hc
  rw [tally_cons hslash, if_neg hletter, Nat.zero_add]

theorem hexVal_spec : ∀ c : Byte, (hexVal c.val).all (· < 16) = true ∧
    ((hexVal c.val).isSome = true → plain c = true) ∧ (hexVal c.val = some 5 ↔ c = byte '5') ∧
    (hexVal c.val = some 7 ↔ c = byte '7') := by
  decide

theorem plain_of_hexByte {h l b : Byte} (hb : hexByte h l = some b) :
    plain h = true ∧ plain l = true := by
  obtain ⟨m, hm, hb⟩ := Option.bind_eq_some_iff.mp hb
  obtain ⟨n, hn, -⟩ := Option.bind_eq_some_iff.mp hb
  exact ⟨(hexVal_spec h).2.1 (by rw [hm]; rfl), (hexVal_spec l).2.1 (by rw [hn]; rfl)⟩

/-- The letter has one hexadecimal escape. -/
theorem hexByte_eq_iff {h l b : Byte} (hb : hexByte h l = some b) :
    h = byte '5' ∧ l = byte '7' ↔ b = byte 'W' := by
  obtain ⟨m, hm, hb⟩ := Option.bind_eq_some_iff.mp hb
  obtain ⟨n, hn, hb⟩ := Option.bind_eq_some_iff.mp hb
  have hm16 : m < 16 := by simpa [hm] using (hexVal_spec h).1
  have hn16 : n < 16 := by simpa [hn] using (hexVal_spec l).1
  rw [← (hexVal_spec h).2.2.1, ← (hexVal_spec l).2.2.2, hm, hn, ← Option.some.inj hb,
    Option.some_inj, Option.some_inj, Fin.ext_iff]
  have hvalue : (byte 'W').val = 87 := rfl
  rw [hvalue, Fin.val_ofNat]
  omega

/-- An item of a string writes the letter if it is it. -/
theorem tally_item {q : Byte} {item : PyItem} {t : Bytes} (h : SpellsItem q item t) (s : Bytes) :
    tally (t ++ s) = [item.byte].count (byte 'W') + tally s := by
  cases h with
  | raw hq hslash =>
    rw [List.singleton_append, tally_cons hslash]
    simp [PyItem.byte, List.count_singleton]
  | @letter e b he =>
    -- no escape letter but the one for hexadecimals can write the byte
    have hnone : e ≠ byte 'x' := by
      rintro rfl
      rw [show unescape (byte 'x') = none by decide] at he
      cases he
    have hother : ∀ e, (unescape e).all (· ≠ byte 'W') = true := by decide
    have hb : b ≠ byte 'W' := by simpa [he] using hother e
    have hprefix : ¬ ascii ['x', '5', '7'] <+: e :: s := by
      intro hp
      exact hnone (List.cons_prefix_cons.mp hp).1.symm
    rw [List.cons_append, List.singleton_append, tally_escape, if_neg hprefix]
    simp [PyItem.byte, hb]
  | @hex h l b hb =>
    have hprefix : ascii ['x', '5', '7'] <+: byte 'x' :: h :: l :: s ↔ b = byte 'W' := by
      rw [← hexByte_eq_iff hb]
      simp [ascii, List.cons_prefix_cons, eq_comm]
    obtain ⟨hh, hl⟩ := plain_of_hexByte hb
    simp only [List.cons_append, List.nil_append]
    rw [tally_escape, tally_plain hh, tally_plain hl]
    simp [PyItem.byte, hprefix, List.count_singleton]

theorem tally_items {q : Byte} {items : List PyItem} {t : Bytes} (h : SpellsItems q items t)
    (s : Bytes) : tally (t ++ s) = (content items).count (byte 'W') + tally s := by
  induction h with
  | nil => simp [content]
  | @cons item items t u h hs ih =>
    rw [List.append_assoc, tally_item h, ih, ← Nat.add_assoc, ← List.count_append]
    rfl

/-- A written literal writes the letter as often as it occurs in its strings. -/
theorem tally_append {form : PyForm} {t : Bytes} (h : Spells form t) (rest : Bytes) :
    tally (t ++ rest) = form.occurrences + tally rest := by
  have hquote : ∀ q, isQuote q = true → q ≠ byte '\\' ∧ q ≠ byte 'W' := by decide
  refine h.rule (M := fun n t => ∀ rest, tally (t ++ rest) = n + tally rest) ?_ ?_ ?_ ?_ rest
  · exact fun rest => (Nat.zero_add _).symm
  · intro m n t u ht hu rest
    rw [List.append_assoc, ht, hu, Nat.add_assoc]
  · intro c hc rest
    rw [List.singleton_append, tally_plain hc, Nat.zero_add]
  · intro q items t hq hitems rest
    obtain ⟨hslash, hletter⟩ := hquote q hq
    have hclose : tally (q :: rest) = tally rest := by
      rw [tally_cons hslash, if_neg hletter, Nat.zero_add]
    rw [List.append_assoc, List.cons_append, tally_cons hslash, if_neg hletter, Nat.zero_add,
      List.singleton_append, tally_items hitems, hclose]

theorem Spells.text {v : PyLiteral} {t : Bytes} (h : Spells (.value v) t) : PyText v t :=
  ⟨[], t, [], Blank.nil, Blank.nil, h, by simp⟩

/-- Written literals with one canonical form write the letter equally often. -/
theorem tally_eq_of_canonical {v v' : PyLiteral} {t t' : Bytes} (ht : Spells (.value v) t)
    (ht' : Spells (.value v') t') (h : v.canon = v'.canon) : tally t = tally t' := by
  have hnormal : v.normal = v'.normal := ht.text.normal.unique (h ▸ ht'.text.normal)
  have htally : ∀ {v : PyLiteral} {t : Bytes}, Spells (.value v) t →
      tally t = v.normal.occurrences := by
    intro v t ht
    have hall := tally_append ht []
    rw [List.append_nil] at hall
    rw [hall, occurrences_normal]
    rfl
  rw [htally ht, htally ht', hnormal]

/-! ### Parts of a text -/

/-- The first text is a part of the second that does not begin after a backslash. -/
def Unescaped (x y : Bytes) : Prop :=
  ∃ u z, y = u ++ (x ++ z) ∧ u.getLast? ≠ some (byte '\\')

theorem Unescaped.refl (x : Bytes) : Unescaped x x := ⟨[], [], by simp, by simp⟩

theorem Unescaped.trans {x y z : Bytes} (hxy : Unescaped x y) (hyz : Unescaped y z) :
    Unescaped x z := by
  obtain ⟨u, a, rfl, hu⟩ := hxy
  obtain ⟨u', a', rfl, hu'⟩ := hyz
  refine ⟨u' ++ u, a ++ a', by simp, ?_⟩
  rw [List.getLast?_append]
  cases hlast : u.getLast? with
  | none => simpa using hu'
  | some c => simpa [hlast] using hu

/-- A text after white space does not begin after a backslash. -/
theorem Unescaped.of_blank {w : Bytes} (hw : Blank w) (x z : Bytes) :
    Unescaped x (w ++ x ++ z) := by
  have hspaces : ∀ x ∈ spaces, byte '\\' ∉ x := by decide
  refine ⟨w, z, List.append_assoc w x z, fun hlast => ?_⟩
  obtain ⟨ws, hws, rfl⟩ := hw
  obtain ⟨y, hy, hmem⟩ := List.mem_flatten.mp (List.mem_of_getLast? hlast)
  exact hspaces y (hws y hy) hmem

theorem Unescaped.trimSpace (s : Bytes) : Unescaped (trimSpace s) s := by
  obtain ⟨w, w', hw, -, hs⟩ := exists_trimSpace s
  conv_rhs => rw [hs]
  exact .of_blank hw _ _

/-- The beginning of a text writes the letter at most as often as the text. -/
theorem tally_le_append : ∀ u z : Bytes, tally u ≤ tally (u ++ z)
  | [], z => Nat.zero_le _
  | [c], z => by
    rw [List.singleton_append]
    by_cases hc : c = byte '\\'
    · subst hc
      exact Nat.zero_le _
    · rw [tally_cons hc, tally_cons hc]
      exact Nat.add_le_add_left (Nat.zero_le _) _
  | c :: e :: u, z => by
    rw [List.cons_append, List.cons_append]
    by_cases hc : c = byte '\\'
    · subst hc
      rw [tally_escape, tally_escape]
      refine Nat.add_le_add ?_ (tally_le_append u z)
      split_ifs with hbegins hbegins'
      · exact le_rfl
      -- an escape that is complete stays complete
      · exact absurd (hbegins.trans (List.prefix_append (e :: u) z)) hbegins'
      · exact Nat.zero_le _
      · exact le_rfl
    · rw [tally_cons hc, tally_cons hc]
      exact Nat.add_le_add_left (tally_le_append (e :: u) z) _

/-- What follows a byte that is no backslash writes the letter at most as often as the text. -/
theorem tally_le_after {c : Byte} (hc : c ≠ byte '\\') (r : Bytes) :
    ∀ u : Bytes, tally r ≤ tally (u ++ c :: r)
  | [] => by
    rw [List.nil_append, tally_cons hc]
    exact Nat.le_add_left _ _
  | [d] => by
    rw [List.singleton_append]
    by_cases hd : d = byte '\\'
    · subst hd
      rw [tally_escape]
      exact Nat.le_add_left _ _
    · rw [tally_cons hd, tally_cons hc]
      exact (Nat.le_add_left _ _).trans (Nat.le_add_left _ _)
  | d :: e :: u => by
    rw [List.cons_append, List.cons_append]
    by_cases hd : d = byte '\\'
    · subst hd
      rw [tally_escape]
      exact (tally_le_after hc r u).trans (Nat.le_add_left _ _)
    · rw [tally_cons hd]
      exact (tally_le_after hc r (e :: u)).trans (Nat.le_add_left _ _)

theorem Unescaped.tally_le {x y : Bytes} (h : Unescaped x y) : tally x ≤ tally y := by
  obtain ⟨u, z, rfl, hu⟩ := h
  refine (tally_le_append x z).trans ?_
  cases hlast : u.getLast? with
  | none => rw [List.getLast?_eq_none_iff.mp hlast, List.nil_append]
  | some c =>
    obtain ⟨u', rfl⟩ := List.getLast?_eq_some_iff.mp hlast
    rw [List.append_assoc, List.singleton_append]
    exact tally_le_after (fun heq => hu (by rw [hlast, heq])) _ u'

end HubScope
