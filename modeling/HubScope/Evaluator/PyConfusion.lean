import HubScope.Evaluator.PyValue
import Mathlib.Algebra.GroupWithZero.Nat
import Mathlib.Algebra.Order.BigOperators.Group.List
import Mathlib.Algebra.Order.Group.Nat
import Mathlib.Data.Finset.Max

/-!
# Which literals the canonical form confuses

The canonical form keeps of a string its bytes. It therefore confuses an escape from 80 on with
the byte of its number in the encoding of another character, and it sorts the entries of a
dictionary and forgets which one came last. Nothing else is confused: a literal without foreign
strings and without conflicting keys is the only value of its canonical form. Every other one is
confused with some text, found by respelling its strings or moving an entry of a dictionary last.

## Main definitions

* `PyLiteral.Spellable`, `PyLiteral.respell` — literals that can be written, and in other ways
* `PyLiteral.Firm`, `Unconfused` — literals and texts told apart by their canonical forms

## Main results

* `PyLiteral.ascii_of_values` — a set that does not see how its strings are written is ASCII
* `PyLiteral.firm_iff`, `unconfused_iff` — exactly when the canonical form tells values apart
-/

set_option autoImplicit false

namespace HubScope

-- A byte has 256 values, and `decide` goes through all of them.
set_option maxRecDepth 2000

open Bytes PyParser

section Value

variable {ν : Type} (reading : Bytes → ν)

namespace PyLiteral

/-! ### Literals that can be written -/

/-- Some text writes the literal. -/
def Spellable (v : PyLiteral) : Prop := ∃ t, Spells (.value v) t

/-- The parts of what is written are literals that can be written. -/
def SpellableParts : PyForm → Prop
  | .value (.list vs) | .value (.tuple vs) | .elems vs => ∀ v ∈ vs, Spellable v
  | .value (.set vs) => vs ≠ [] ∧ ∀ v ∈ vs, Spellable v
  | .value (.dict es) | .entries es => ∀ e ∈ es, Spellable e.1 ∧ Spellable e.2
  | .value _ => True

theorem spellableParts {form : PyForm} {t : Bytes} (h : Spells form t) : SpellableParts form := by
  induction h with
  | string hq h => trivial
  | bytes hb hq h => trivial
  | number h => trivial
  | keyword h => trivial
  | list h ih => exact ih
  | unit hw => exact List.forall_mem_nil _
  | group hw hw' h ih => exact ih
  | tuple hw hw' h hs ih ihs => exact List.forall_mem_cons.mpr ⟨⟨_, h⟩, ihs⟩
  | dict h ih => exact ih
  | set hne h ih => exact ⟨hne, ih⟩
  | noElem hw => exact List.forall_mem_nil _
  | lastElem hw hw' h ih => exact List.forall_mem_singleton.mpr ⟨_, h⟩
  | elem hw hw' h hs ih ihs => exact List.forall_mem_cons.mpr ⟨⟨_, h⟩, ihs⟩
  | noEntry hw => exact List.forall_mem_nil _
  | lastEntry hw hw' hx hx' hk hv ihk ihv => exact List.forall_mem_singleton.mpr ⟨⟨_, hk⟩, ⟨_, hv⟩⟩
  | entry hw hw' hx hx' hk hv hs ihk ihv ihs =>
    exact List.forall_mem_cons.mpr ⟨⟨⟨_, hk⟩, ⟨_, hv⟩⟩, ihs⟩

theorem Spellable.parts {v : PyLiteral} (h : v.Spellable) : SpellableParts (.value v) := by
  obtain ⟨t, ht⟩ := h
  exact spellableParts ht

theorem exists_spells_elems {vs : List PyLiteral} (h : ∀ v ∈ vs, Spellable v) :
    ∃ t, Spells (.elems vs) t := by
  induction vs with
  | nil => exact ⟨[], .noElem Spacing.nil⟩
  | cons v vs ih =>
    obtain ⟨⟨t, ht⟩, hvs⟩ := List.forall_mem_cons.mp h
    obtain ⟨u, hu⟩ := ih hvs
    exact ⟨_, .elem Spacing.nil Spacing.nil ht hu⟩

theorem exists_spells_entries {es : List (PyLiteral × PyLiteral)}
    (h : ∀ e ∈ es, Spellable e.1 ∧ Spellable e.2) : ∃ t, Spells (.entries es) t := by
  induction es with
  | nil => exact ⟨[], .noEntry Spacing.nil⟩
  | cons e es ih =>
    obtain ⟨⟨⟨t, ht⟩, ⟨u, hu⟩⟩, hes⟩ := List.forall_mem_cons.mp h
    obtain ⟨z, hz⟩ := ih hes
    exact ⟨_, .entry Spacing.nil Spacing.nil Spacing.nil Spacing.nil ht hu hz⟩

theorem spellable_list {vs : List PyLiteral} (h : ∀ v ∈ vs, Spellable v) :
    Spellable (.list vs) := by
  obtain ⟨t, ht⟩ := exists_spells_elems h
  exact ⟨_, .list ht⟩

theorem spellable_set {vs : List PyLiteral} (hne : vs ≠ []) (h : ∀ v ∈ vs, Spellable v) :
    Spellable (.set vs) := by
  obtain ⟨t, ht⟩ := exists_spells_elems h
  exact ⟨_, .set hne ht⟩

theorem spellable_dict {es : List (PyLiteral × PyLiteral)}
    (h : ∀ e ∈ es, Spellable e.1 ∧ Spellable e.2) : Spellable (.dict es) := by
  obtain ⟨t, ht⟩ := exists_spells_entries h
  exact ⟨_, .dict ht⟩

theorem spellable_tuple {vs : List PyLiteral} (h : ∀ v ∈ vs, Spellable v) :
    Spellable (.tuple vs) := by
  cases vs with
  | nil => exact ⟨_, .unit Spacing.nil⟩
  | cons v vs =>
    obtain ⟨⟨t, ht⟩, hvs⟩ := List.forall_mem_cons.mp h
    obtain ⟨u, hu⟩ := exists_spells_elems hvs
    exact ⟨_, .tuple Spacing.nil Spacing.nil ht hu⟩

/-- A literal that can be written is the one its text writes. -/
theorem Spellable.exists_text {v : PyLiteral} (h : v.Spellable) : ∃ t, PyText v t := by
  obtain ⟨t, ht⟩ := h
  exact ⟨t, [], t, [], Blank.nil, Blank.nil, ht, by simp⟩

theorem spellable_of_text {v : PyLiteral} {s : Bytes} (h : PyText v s) : v.Spellable := by
  obtain ⟨w, t, w', -, -, ht, -⟩ := h
  exact ⟨t, ht⟩

/-- Literals with one canonical form have one normal literal. -/
theorem normal_eq_of_canon_eq {u v : PyLiteral} (hu : u.Spellable) (hv : v.Spellable)
    (h : u.canon = v.canon) : u.normal = v.normal := by
  obtain ⟨s, hs⟩ := hu.exists_text
  obtain ⟨t, ht⟩ := hv.exists_text
  exact hs.normal.unique (h ▸ ht.normal)

/-! ### Strings respelled -/

section Respell

variable (f : PyItem → PyItem)

mutual

/-- The literal with the items of its strings changed. -/
def respell : PyLiteral → PyLiteral
  | string isBytes items => string isBytes (items.map f)
  | number token => number token
  | keyword word => keyword word
  | list elems => list (respellAll elems)
  | tuple elems => tuple (respellAll elems)
  | dict entries => dict (respellPairs entries)
  | set elems => set (respellAll elems)

def respellAll : List PyLiteral → List PyLiteral
  | [] => []
  | v :: vs => respell v :: respellAll vs

def respellPairs : List (PyLiteral × PyLiteral) → List (PyLiteral × PyLiteral)
  | [] => []
  | (k, v) :: es => (respell k, respell v) :: respellPairs es

end

@[simp] theorem respellAll_eq (vs : List PyLiteral) : respellAll f vs = vs.map (respell f) := by
  induction vs with
  | nil => rw [respellAll, List.map_nil]
  | cons v vs ih => rw [respellAll, ih, List.map_cons]

@[simp] theorem respellPairs_eq (es : List (PyLiteral × PyLiteral)) :
    respellPairs f es = es.map (Prod.map (respell f) (respell f)) := by
  induction es with
  | nil => rw [respellPairs, List.map_nil]
  | cons e es ih => rw [respellPairs, ih, List.map_cons]; rfl

variable {f}

/-- The canonical form does not see how the bytes of a string are written. -/
theorem canon_respell (hf : ∀ i, (f i).byte = i.byte) (v : PyLiteral) :
    (v.respell f).canon = v.canon := by
  induction v with
  | string isBytes items =>
    have hcontent : content (items.map f) = content items := by
      rw [content, List.map_map]
      exact List.map_congr_left fun i _ => hf i
    simp only [respell, canon, hcontent]
  | number token => rfl
  | keyword word => rfl
  | list elems ih =>
    simp only [respell, canon, respellAll_eq, canonAll_eq, List.map_map]
    exact congrArg listForm (List.map_congr_left ih)
  | tuple elems ih =>
    simp only [respell, canon, respellAll_eq, canonAll_eq, List.map_map]
    exact congrArg tupleForm (List.map_congr_left ih)
  | dict entries ih =>
    simp only [respell, canon, respellPairs_eq, canonPairs_eq, List.map_map]
    exact congrArg dictForm
      (List.map_congr_left fun e he => Prod.ext (ih e he).1 (ih e he).2)
  | set elems ih =>
    simp only [respell, canon, respellAll_eq, canonAll_eq, List.map_map]
    exact congrArg setForm (List.map_congr_left ih)

/-- An item that may stand between any quotes. -/
def FreeItem : PyItem → Prop
  | .raw b => ¬ b < 128
  | .escaped _ => True

theorem exists_hexByte (b : Byte) : ∃ h l, hexByte h l = some b := by
  have hdigits : ∀ b : Byte,
      let digits := ascii ['0', '1', '2', '3', '4', '5', '6', '7', '8', '9', 'a', 'b', 'c', 'd',
        'e', 'f']
      hexByte (digits.getD (b.val / 16) 0) (digits.getD (b.val % 16) 0) = some b := by
    decide
  exact ⟨_, _, hdigits b⟩

theorem exists_spellsItems {q : Byte} (hq : isQuote q = true) {items : List PyItem}
    (h : ∀ i ∈ items, FreeItem i) : ∃ t, SpellsItems q items t := by
  have hascii : ∀ q, isQuote q = true → q < 128 := by decide
  induction items with
  | nil => exact ⟨[], .nil⟩
  | cons i items ih =>
    obtain ⟨hi, hitems⟩ := List.forall_mem_cons.mp h
    obtain ⟨t, ht⟩ := ih hitems
    cases i with
    | raw b =>
      have hq' : b ≠ q := fun heq => hi (heq ▸ hascii q hq)
      have hslash : b ≠ byte '\\' := fun heq => hi (heq ▸ by decide)
      exact ⟨_, .cons (.raw hq' hslash) ht⟩
    | escaped b =>
      obtain ⟨x, y, hxy⟩ := exists_hexByte b
      exact ⟨_, .cons (.hex hxy) ht⟩

/-- Free items can be put for the items of the strings of what is written. -/
theorem Spellable.respell (hf : ∀ i, FreeItem (f i)) {v : PyLiteral} (h : v.Spellable) :
    (v.respell f).Spellable := by
  have hall : ∀ vs : List PyLiteral, (∀ v ∈ vs, Spellable (v.respell f)) →
      ∀ v ∈ vs.map (PyLiteral.respell f), Spellable v := fun vs h => List.forall_mem_map.mpr h
  induction v with
  | string isBytes items =>
    have hdouble : isQuote (byte '"') = true := by decide
    obtain ⟨t, ht⟩ := exists_spellsItems hdouble
      (List.forall_mem_map.mpr fun i _ => hf i : ∀ i ∈ items.map f, FreeItem i)
    cases isBytes with
    | false => exact ⟨_, .string hdouble ht⟩
    | true => exact ⟨_, .bytes (.inl rfl) hdouble ht⟩
  | number token => exact h
  | keyword word => exact h
  | list elems ih =>
    simp only [PyLiteral.respell, respellAll_eq]
    exact spellable_list (hall elems fun v hv => ih v hv (h.parts v hv))
  | tuple elems ih =>
    simp only [PyLiteral.respell, respellAll_eq]
    exact spellable_tuple (hall elems fun v hv => ih v hv (h.parts v hv))
  | dict entries ih =>
    simp only [PyLiteral.respell, respellPairs_eq]
    refine spellable_dict (List.forall_mem_map.mpr fun e he => ?_)
    exact ⟨(ih e he).1 (h.parts e he).1, (ih e he).2 (h.parts e he).2⟩
  | set elems ih =>
    obtain ⟨hne, hparts⟩ := h.parts
    simp only [PyLiteral.respell, respellAll_eq]
    exact spellable_set (by simpa using hne) (hall elems fun v hv => ih v hv (hparts v hv))

end Respell

/-- Every byte as an escape. -/
def wide (i : PyItem) : PyItem := .escaped i.byte

/-- Every byte from 80 on as itself, the others as escapes. -/
def narrow (i : PyItem) : PyItem := if i.byte < 128 then .escaped i.byte else .raw i.byte

@[simp] theorem byte_wide (i : PyItem) : (wide i).byte = i.byte := rfl

@[simp] theorem byte_narrow (i : PyItem) : (narrow i).byte = i.byte := by
  rw [narrow]
  split_ifs <;> rfl

theorem free_wide (i : PyItem) : FreeItem (wide i) := trivial

theorem free_narrow (i : PyItem) : FreeItem (narrow i) := by
  rw [narrow]
  split_ifs with h
  · trivial
  · exact h

theorem utf8_narrow (i : PyItem) : (narrow i).utf8 = [i.byte] := by
  rw [narrow]
  split_ifs with h
  · exact (encode_ofNat i.byte).trans (if_pos h)
  · rfl

/-- From 80 on an escape stands for a character of two bytes. -/
theorem utf8_wide (i : PyItem) :
    if i.byte < 128 then (wide i).utf8 = [i.byte]
    else (wide i).utf8.length = 2 ∧ ∃ c ∈ (wide i).utf8, ¬ c < 128 := by
  have hsecond : ∀ b : Byte, ¬ 128 + b % 64 < 128 := by decide
  have hutf8 := encode_ofNat i.byte
  split_ifs at hutf8 ⊢ with hlow hfirst
  · exact hutf8
  · rw [wide, PyItem.utf8, hutf8]
    exact ⟨rfl, _, List.mem_cons_of_mem _ List.mem_cons_self, hsecond i.byte⟩
  · rw [wide, PyItem.utf8, hutf8]
    exact ⟨rfl, _, List.mem_cons_of_mem _ List.mem_cons_self, hsecond i.byte⟩

end PyLiteral

/-! ### What respelling changes -/

namespace PyValue

mutual

/-- The bytes of the strings of a value that can be hashed. -/
def weight : PyValue ν → ℕ
  | str utf8 => utf8.length
  | tuple elems => weightAll elems
  | _ => 0

def weightAll : List (PyValue ν) → ℕ
  | [] => 0
  | x :: xs => weight x + weightAll xs

end

mutual

/-- Some string of a value that can be hashed is not ASCII. -/
def Foreign : PyValue ν → Prop
  | str utf8 => ∃ c ∈ utf8, ¬ c < 128
  | tuple elems => ForeignAny elems
  | _ => False

def ForeignAny : List (PyValue ν) → Prop
  | [] => False
  | x :: xs => Foreign x ∨ ForeignAny xs

end

@[simp] theorem weightAll_eq (xs : List (PyValue ν)) : weightAll xs = (xs.map weight).sum := by
  induction xs with
  | nil => rfl
  | cons x xs ih => rw [weightAll, ih, List.map_cons, List.sum_cons]

@[simp] theorem foreignAny_iff {xs : List (PyValue ν)} : ForeignAny xs ↔ ∃ x ∈ xs, Foreign x := by
  induction xs with
  | nil => simp [ForeignAny]
  | cons x xs ih => simp [ForeignAny, ih]

end PyValue

namespace PyLiteral

open PyValue

theorem flatMap_narrow (items : List PyItem) :
    (items.map narrow).flatMap PyItem.utf8 = content items := by
  induction items with
  | nil => rfl
  | cons i items ih => rw [List.map_cons, List.flatMap_cons, ih, utf8_narrow]; rfl

theorem length_wide_le (items : List PyItem) :
    items.length ≤ ((items.map wide).flatMap PyItem.utf8).length := by
  induction items with
  | nil => exact le_rfl
  | cons i items ih =>
    have hitem : 1 ≤ (wide i).utf8.length := by
      have h := utf8_wide i
      split_ifs at h
      · rw [h, List.length_singleton]
      · omega
    rw [List.map_cons, List.flatMap_cons, List.length_append, List.length_cons]
    omega

theorem foreign_of_wide {items : List PyItem} (h : ∃ i ∈ items, ¬ i.byte < 128) :
    items.length < ((items.map wide).flatMap PyItem.utf8).length ∧
      ∃ c ∈ (items.map wide).flatMap PyItem.utf8, ¬ c < 128 := by
  obtain ⟨i, hi, hbyte⟩ := h
  obtain ⟨pre, post, rfl⟩ := List.append_of_mem hi
  have hitem := utf8_wide i
  rw [if_neg hbyte] at hitem
  obtain ⟨hlen, c, hc, hforeign⟩ := hitem
  have hpre := length_wide_le pre
  have hpost := length_wide_le post
  simp only [List.map_append, List.map_cons, List.flatMap_append, List.flatMap_cons,
    List.length_append, List.length_cons, List.mem_append]
  exact ⟨by omega, c, .inr (.inl hc), hforeign⟩

/-- Written with escapes only, a literal is as long as with none, and longer if it is not ASCII. -/
theorem weight_respell {v : PyLiteral} (hv : v.Hashes) :
    weight ((v.respell narrow).value reading) ≤ weight ((v.respell wide).value reading) ∧
      (¬ v.Ascii →
        weight ((v.respell narrow).value reading) < weight ((v.respell wide).value reading)) := by
  induction v with
  | string isBytes items =>
    cases isBytes with
    | true => exact ⟨le_rfl, fun h => absurd trivial h⟩
    | false =>
      simp only [respell, value, weight, flatMap_narrow, content, List.length_map]
      refine ⟨length_wide_le items, fun h => (foreign_of_wide ?_).1⟩
      by_contra hnone
      exact h fun i hi => by_contra fun hbyte => hnone ⟨i, hi, hbyte⟩
  | number token => exact ⟨le_rfl, fun h => absurd trivial h⟩
  | keyword word => exact ⟨le_rfl, fun h => absurd trivial h⟩
  | list elems ih => exact absurd hv.1 not_false
  | tuple elems ih =>
    simp only [Hashes, Each, eachOf_iff] at hv
    have hle := fun v hmem => (ih v hmem (hv.2 v hmem)).1
    simp only [respell, respellAll_eq, value, valueAll_eq, weight, weightAll_eq, List.map_map]
    -- one part that is not ASCII makes the whole heavier, since no part gets lighter
    refine ⟨List.sum_le_sum hle, fun h => ?_⟩
    simp only [Ascii, Each, eachOf_iff, not_and, not_forall] at h
    obtain ⟨v, hmem, hascii⟩ := h trivial
    exact List.sum_lt_sum _ _ hle ⟨v, hmem, (ih v hmem (hv.2 v hmem)).2 hascii⟩
  | dict entries ih => exact absurd hv.1 not_false
  | set elems ih => exact absurd hv.1 not_false

theorem foreign_respell {v : PyLiteral} (hv : v.Hashes) :
    (¬ v.Ascii → Foreign ((v.respell wide).value reading)) ∧
      (v.Ascii → ¬ Foreign ((v.respell narrow).value reading)) := by
  induction v with
  | string isBytes items =>
    cases isBytes with
    | true => exact ⟨fun h => absurd trivial h, fun _ => not_false⟩
    | false =>
      simp only [respell, value, Foreign, flatMap_narrow, content, List.mem_map]
      -- spelled wide, an item beyond ASCII leaves a foreign byte; spelled narrow, ASCII leaves none
      refine ⟨fun h => (foreign_of_wide ?_).2, fun h => ?_⟩
      · by_contra hnone
        exact h fun i hi => by_contra fun hbyte => hnone ⟨i, hi, hbyte⟩
      · rintro ⟨_, ⟨i, hi, rfl⟩, hbyte⟩
        exact hbyte (h i hi)
  | number token => exact ⟨fun h => absurd trivial h, fun _ => not_false⟩
  | keyword word =>
    exact ⟨fun h => absurd trivial h, fun _ => by cases word <;> exact not_false⟩
  | list elems ih => exact absurd hv.1 not_false
  | tuple elems ih =>
    simp only [Hashes, Each, eachOf_iff] at hv
    simp only [respell, respellAll_eq, value, valueAll_eq, Foreign, foreignAny_iff, List.map_map,
      List.mem_map, exists_exists_and_eq_and]
    refine ⟨fun h => ?_, fun h => ?_⟩
    · simp only [Ascii, Each, eachOf_iff, not_and, not_forall] at h
      obtain ⟨v, hmem, hascii⟩ := h trivial
      exact ⟨v, hmem, (ih v hmem (hv.2 v hmem)).1 hascii⟩
    · simp only [Ascii, Each, eachOf_iff] at h
      rintro ⟨v, hmem, hforeign⟩
      exact (ih v hmem (hv.2 v hmem)).2 (h.2 v hmem) hforeign
  | dict entries ih => exact absurd hv.1 not_false
  | set elems ih => exact absurd hv.1 not_false

/-- If a finite set of values does not depend on how its strings are written, they are ASCII. -/
theorem ascii_of_values {vs : List PyLiteral} (hvs : ∀ v ∈ vs, Hashes v)
    (h : ∀ x, x ∈ vs.map (fun v => (v.respell wide).value reading) →
      x ∈ vs.map (fun v => (v.respell narrow).value reading)) : ∀ v ∈ vs, Ascii v := by
  by_contra hsome
  simp only [not_forall] at hsome
  obtain ⟨v₀, hv₀, hascii₀⟩ := hsome
  have := Classical.decEq PyLiteral
  have : DecidablePred fun v : PyLiteral => ¬ v.Ascii := fun _ => Classical.dec _
  -- of the largest value with a foreign string some other literal has to be an even larger one
  obtain ⟨v, hv, hmax⟩ := Finset.exists_max_image (vs.toFinset.filter fun v => ¬ v.Ascii)
    (fun v => weight ((v.respell wide).value reading))
    ⟨v₀, Finset.mem_filter.mpr ⟨List.mem_toFinset.mpr hv₀, hascii₀⟩⟩
  obtain ⟨hmem, hascii⟩ := Finset.mem_filter.mp hv
  have hmem := List.mem_toFinset.mp hmem
  obtain ⟨u, hu, heq⟩ := List.mem_map.mp (h _ (List.mem_map_of_mem hmem))
  by_cases huascii : u.Ascii
  · have hforeign := (foreign_respell reading (hvs v hmem)).1 hascii
    rw [← heq] at hforeign
    exact (foreign_respell reading (hvs u hu)).2 huascii hforeign
  · have hlt := (weight_respell reading (hvs u hu)).2 huascii
    have hle := hmax u (Finset.mem_filter.mpr ⟨List.mem_toFinset.mpr hu, huascii⟩)
    rw [heq] at hlt
    omega

/-! ### Literals told apart by their canonical forms -/

/-- Every literal with this canonical form denotes the same value. -/
def Firm (v : PyLiteral) : Prop :=
  ∀ u : PyLiteral, u.Spellable → u.canon = v.canon → u.value reading = v.value reading

variable {reading}

theorem mem_of_value_set_eq {vs us : List PyLiteral}
    (h : value reading (.set vs) = value reading (.set us)) (x : PyValue ν) :
    x ∈ vs.map (value reading) ↔ x ∈ us.map (value reading) := by
  simp only [value, valueAll_eq, PyValue.set.injEq] at h
  have hmem := congrArg (x ∈ ·) h
  simpa using hmem

theorem mem_of_value_dict_eq {es fs : List (PyLiteral × PyLiteral)}
    (h : value reading (.dict es) = value reading (.dict fs)) (x : PyValue ν × PyValue ν) :
    x ∈ lastWins (es.map (Prod.map (value reading) (value reading))) ↔
      x ∈ lastWins (fs.map (Prod.map (value reading) (value reading))) := by
  simp only [value, valuePairs_eq, PyValue.dict.injEq] at h
  have hmem := congrArg (x ∈ ·) h
  simpa using hmem

theorem canon_dict_of_perm {es fs : List (PyLiteral × PyLiteral)}
    (h : (es.map (Prod.map canon canon)).Perm (fs.map (Prod.map canon canon))) :
    (dict es).canon = (dict fs).canon := by
  simp only [canon, canonPairs_eq, dictForm, insertionSort_eq_of_perm pairLe h]

/-- A firm literal that can be hashed is ASCII. -/
theorem Firm.ascii_of_hashes {v : PyLiteral} (h : v.Firm reading) (hs : v.Spellable)
    (hv : v.Hashes) : v.Ascii := by
  by_contra hascii
  have hwide := h _ (hs.respell free_wide) (canon_respell byte_wide v)
  have hnarrow := h _ (hs.respell free_narrow) (canon_respell byte_narrow v)
  have hlt := (weight_respell reading hv).2 hascii
  rw [hwide, hnarrow] at hlt
  exact lt_irrefl _ hlt

theorem forall_mem_replace {α : Type} {Q : α → Prop} {pre post : List α} {x y : α}
    (h : ∀ z ∈ pre ++ x :: post, Q z) (hy : Q y) : ∀ z ∈ pre ++ y :: post, Q z := by
  obtain ⟨hpre, hpost⟩ := List.forall_mem_append.mp h
  exact List.forall_mem_append.mpr
    ⟨hpre, List.forall_mem_cons.mpr ⟨hy, (List.forall_mem_cons.mp hpost).2⟩⟩

theorem Firm.of_list {vs : List PyLiteral} (h : (list vs).Firm reading)
    (hs : ∀ v ∈ vs, Spellable v) : ∀ v ∈ vs, v.Firm reading := by
  intro v hv u hu hcanon
  obtain ⟨pre, post, rfl⟩ := List.append_of_mem hv
  have hspell : Spellable (.list (pre ++ u :: post)) := spellable_list (forall_mem_replace hs hu)
  have heq := h _ hspell
    (by simp only [canon, canonAll_eq, List.map_append, List.map_cons, hcanon])
  simp only [value, valueAll_eq, PyValue.list.injEq, List.map_append, List.map_cons] at heq
  exact (List.cons.inj (List.append_cancel_left heq)).1

theorem Firm.of_tuple {vs : List PyLiteral} (h : (tuple vs).Firm reading)
    (hs : ∀ v ∈ vs, Spellable v) : ∀ v ∈ vs, v.Firm reading := by
  intro v hv u hu hcanon
  obtain ⟨pre, post, rfl⟩ := List.append_of_mem hv
  have hspell : Spellable (.tuple (pre ++ u :: post)) := spellable_tuple (forall_mem_replace hs hu)
  have heq := h _ hspell
    (by simp only [canon, canonAll_eq, List.map_append, List.map_cons, hcanon])
  simp only [value, valueAll_eq, PyValue.tuple.injEq, List.map_append, List.map_cons] at heq
  exact (List.cons.inj (List.append_cancel_left heq)).1

theorem Firm.ascii_of_set {vs : List PyLiteral} (h : (set vs).Firm reading)
    (hs : Spellable (.set vs)) (hvs : ∀ v ∈ vs, Hashes v) : ∀ v ∈ vs, Ascii v := by
  have hwide := h _ (hs.respell free_wide) (canon_respell byte_wide _)
  have hnarrow := h _ (hs.respell free_narrow) (canon_respell byte_narrow _)
  have heq := hwide.trans hnarrow.symm
  simp only [respell, respellAll_eq] at heq
  refine ascii_of_values reading hvs fun x hx => ?_
  have hmem := (mem_of_value_set_eq heq x).mp (by simpa [Function.comp_def] using hx)
  simpa [Function.comp_def] using hmem

section Dict

variable {es : List (PyLiteral × PyLiteral)} (h : (dict es).Firm reading)
  (hs : ∀ e ∈ es, Spellable e.1 ∧ Spellable e.2)

include h hs

theorem Firm.ascii_of_keys (hes : ∀ e ∈ es, Hashes e.1) : ∀ e ∈ es, Ascii e.1 := by
  have hspell := spellable_dict hs
  have hwide := h _ (hspell.respell free_wide) (canon_respell byte_wide _)
  have hnarrow := h _ (hspell.respell free_narrow) (canon_respell byte_narrow _)
  have heq := hwide.trans hnarrow.symm
  simp only [respell, respellPairs_eq] at heq
  have hkeys : ∀ k ∈ es.map Prod.fst, Ascii k := by
    refine ascii_of_values reading (List.forall_mem_map.mpr hes) fun x hx => ?_
    -- the keys are those of the entries that are left
    simp only [List.map_map, List.mem_map, Function.comp_apply] at hx ⊢
    obtain ⟨e, he, rfl⟩ := hx
    obtain ⟨p, hp, hkey⟩ := exists_mem_lastWins
      (List.mem_map_of_mem (f := Prod.map (value reading) (value reading))
        (List.mem_map_of_mem (f := Prod.map (PyLiteral.respell wide) (PyLiteral.respell wide)) he))
    have hmem := mem_of_mem_lastWins ((mem_of_value_dict_eq heq p).mp hp)
    simp only [List.map_map, List.mem_map, Function.comp_apply] at hmem
    obtain ⟨f, hf, rfl⟩ := hmem
    exact ⟨f, hf, hkey⟩
  exact List.forall_mem_map.mp hkeys

/-- An entry can be written last, and its value in another way. -/
theorem Firm.mem_lastWins {pre post : List (PyLiteral × PyLiteral)} {k w u : PyLiteral}
    (hes : es = pre ++ (k, w) :: post) (hu : u.Spellable) (hcanon : u.canon = w.canon) :
    (k.value reading, u.value reading) ∈
      lastWins (es.map (Prod.map (value reading) (value reading))) := by
  have hmem : (k, w) ∈ es := hes ▸ List.mem_append_right pre List.mem_cons_self
  have hrest : ∀ e ∈ pre ++ post, e ∈ es := by
    intro e he
    rcases List.mem_append.mp he with he | he
    · exact hes ▸ List.mem_append_left _ he
    · exact hes ▸ List.mem_append_right pre (List.mem_cons_of_mem _ he)
  have hspell : Spellable (.dict (pre ++ post ++ [(k, u)])) :=
    spellable_dict (List.forall_mem_append.mpr
      ⟨fun e he => hs e (hrest e he), List.forall_mem_singleton.mpr ⟨(hs _ hmem).1, hu⟩⟩)
  have hperm : ((pre ++ post ++ [(k, u)]).map (Prod.map canon canon)).Perm
      (es.map (Prod.map canon canon)) := by
    rw [hes]
    simp only [List.map_append, List.map_cons, List.map_nil, Prod.map, hcanon, List.append_assoc]
    exact List.Perm.append_left _ (List.perm_append_singleton _ _)
  have heq := h _ hspell (canon_dict_of_perm hperm)
  rw [← mem_of_value_dict_eq heq, List.map_append]
  exact mem_lastWins_concat _ _

theorem Firm.of_dict : ∀ e ∈ es, e.2.Firm reading := by
  rintro ⟨k, w⟩ he u hu hcanon
  obtain ⟨pre, post, hes⟩ := List.append_of_mem he
  have hother := h.mem_lastWins hs hes hu hcanon
  have hsame := h.mem_lastWins hs hes (hs _ he).2 rfl
  exact congrArg Prod.snd (eq_of_mem_lastWins hother hsame rfl)

theorem Firm.noConflict : NoConflict reading (.dict es) := by
  rintro ⟨k, w⟩ he ⟨k', w'⟩ hf hkey
  obtain ⟨pre, post, hes⟩ := List.append_of_mem he
  obtain ⟨pre', post', hes'⟩ := List.append_of_mem hf
  have hlast := h.mem_lastWins hs hes (hs _ he).2 rfl
  have hlast' := h.mem_lastWins hs hes' (hs _ hf).2 rfl
  exact congrArg Prod.snd (eq_of_mem_lastWins hlast hlast' hkey)

end Dict

/-- What holds of a literal if another property does holds everywhere in it. -/
theorem each_mono {P Q : PyLiteral → Prop} (hPQ : ∀ v, P v → Q v) {v : PyLiteral}
    (h : Each P v) : Each Q v := by
  induction v with
  | string isBytes items => exact hPQ _ h
  | number token => exact hPQ _ h
  | keyword word => exact hPQ _ h
  | list elems ih =>
    simp only [Each, eachOf_iff] at h ⊢
    exact ⟨hPQ _ h.1, fun v hv => ih v hv (h.2 v hv)⟩
  | tuple elems ih =>
    simp only [Each, eachOf_iff] at h ⊢
    exact ⟨hPQ _ h.1, fun v hv => ih v hv (h.2 v hv)⟩
  | dict entries ih =>
    simp only [Each, eachPair_iff] at h ⊢
    exact ⟨hPQ _ h.1, fun e he => ⟨(ih e he).1 (h.2 e he).1, (ih e he).2 (h.2 e he).2⟩⟩
  | set elems ih =>
    simp only [Each, eachOf_iff] at h ⊢
    exact ⟨hPQ _ h.1, fun v hv => ih v hv (h.2 v hv)⟩

theorem Hashes.consistent {v : PyLiteral} (h : v.Hashes) : v.Consistent reading :=
  each_mono (fun v hv => by cases v <;> trivial) h

/-- A firm literal has no foreign string and no conflict. -/
theorem Firm.ascii_and_consistent {v : PyLiteral} (h : v.Firm reading) (hs : v.Spellable)
    (hv : v.Hashable) : v.Ascii ∧ v.Consistent reading := by
  induction v with
  | string isBytes items => exact ⟨h.ascii_of_hashes hs trivial, trivial⟩
  | number token => exact ⟨trivial, trivial⟩
  | keyword word => exact ⟨trivial, trivial⟩
  | list elems ih =>
    simp only [Hashable, Each, eachOf_iff] at hv
    have helems := fun v hmem => ih v hmem (h.of_list hs.parts v hmem) (hs.parts v hmem) (hv.2 v hmem)
    simp only [Ascii, Consistent, Each, eachOf_iff]
    exact ⟨⟨trivial, fun v hmem => (helems v hmem).1⟩, trivial, fun v hmem => (helems v hmem).2⟩
  | tuple elems ih =>
    simp only [Hashable, Each, eachOf_iff] at hv
    have helems := fun v hmem => ih v hmem (h.of_tuple hs.parts v hmem) (hs.parts v hmem) (hv.2 v hmem)
    simp only [Ascii, Consistent, Each, eachOf_iff]
    exact ⟨⟨trivial, fun v hmem => (helems v hmem).1⟩, trivial, fun v hmem => (helems v hmem).2⟩
  | dict entries ih =>
    simp only [Hashable, Each, eachPair_iff] at hv
    -- keys are hashable, so they must be ASCII; values are reached through the induction
    have hkeys := h.ascii_of_keys hs.parts hv.1
    have hvalues := fun e he => (ih e he).2 (h.of_dict hs.parts e he) (hs.parts e he).2 (hv.2 e he).2
    simp only [Ascii, Consistent, Each, eachPair_iff]
    exact ⟨⟨trivial, fun e he => ⟨hkeys e he, (hvalues e he).1⟩⟩, h.noConflict hs.parts,
      fun e he => ⟨(hv.1 e he).consistent, (hvalues e he).2⟩⟩
  | set elems ih =>
    simp only [Hashable, Each, eachOf_iff] at hv
    simp only [Ascii, Consistent, Each, eachOf_iff]
    exact ⟨⟨trivial, h.ascii_of_set hs hv.1⟩, trivial, fun v hmem => (hv.1 v hmem).consistent⟩

/-- Exactly the literals without foreign strings and conflicts are told apart. -/
theorem firm_iff {v : PyLiteral} (hs : v.Spellable) (hv : v.Hashable) :
    v.Firm reading ↔ v.Ascii ∧ v.Consistent reading := by
  refine ⟨fun h => h.ascii_and_consistent hs hv, fun ⟨hascii, hcons⟩ u hu hcanon => ?_⟩
  have hnormal := normal_eq_of_canon_eq hu hs hcanon
  have huascii : u.Ascii := (ascii_normal u).mp (hnormal ▸ (ascii_normal v).mpr hascii)
  have hucons : u.Consistent reading :=
    (consistent_normal reading huascii).mp (hnormal ▸ (consistent_normal reading hascii).mpr hcons)
  calc u.value reading = u.normal.value reading := (value_normal reading huascii hucons).symm
    _ = v.normal.value reading := by rw [hnormal]
    _ = v.value reading := value_normal reading hascii hcons

end PyLiteral

/-! ### Texts -/

/-- Every text with the canonical form of `s` denotes what `s` does, and so does the literal of
every answer that is a hit. -/
def Unconfused (s : Bytes) : Prop :=
  (∀ t c, canonicalPyLiteral s = some c → canonicalPyLiteral t = some c →
    denotes reading t = denotes reading s) ∧
  ∀ answer, outputMatchVerdict s answer = some 1 → ∃ literal,
    extractOutputLiteral answer = some literal ∧ denotes reading literal = denotes reading s

/-- The canonical form confuses a text with no other just when its strings are ASCII and equal
keys of its dictionaries have equal values, or when it denotes nothing. -/
theorem unconfused_iff (s : Bytes) : Unconfused reading s ↔
    ∀ v, readLiteral s = some v → v.Hashable → v.Ascii ∧ v.Consistent reading := by
  have hdenotes : ∀ {t v}, readLiteral t = some v → v.Hashable →
      denotes reading t = some (v.value reading) := by
    intro t v ht hv
    rw [denotes, ht, Option.bind_some, if_pos hv]
  constructor
  · rintro ⟨htexts, -⟩ v hs hv
    have hspell := PyLiteral.spellable_of_text (readLiteral_eq_some_iff.mp hs)
    refine (PyLiteral.firm_iff hspell hv).mp fun u hu hcanon => ?_
    obtain ⟨t, ht⟩ := hu.exists_text
    have hnormal := PyLiteral.normal_eq_of_canon_eq hu hspell hcanon
    -- what has the same canonical form has the same normal form, and is hashable with it
    have huv : u.Hashable :=
      (PyLiteral.hashable_normal u).mp (hnormal ▸ (PyLiteral.hashable_normal v).mpr hv)
    have heq := htexts t v.canon (readLiteral_eq_some_iff.mp hs).canonical (hcanon ▸ ht.canonical)
    rw [hdenotes hs hv, hdenotes (readLiteral_eq_some_iff.mpr ht) huv] at heq
    exact Option.some.inj heq
  · intro h
    have htexts : ∀ t c, canonicalPyLiteral s = some c → canonicalPyLiteral t = some c →
        denotes reading t = denotes reading s := by
      intro t c hs ht
      obtain ⟨v, hv, rfl⟩ := canonicalPyLiteral_eq_some_iff.mp hs
      obtain ⟨u, hu, hcanon⟩ := canonicalPyLiteral_eq_some_iff.mp ht
      have hspell := PyLiteral.spellable_of_text hv
      have hspell' := PyLiteral.spellable_of_text hu
      have hnormal := PyLiteral.normal_eq_of_canon_eq hspell' hspell hcanon
      have hhash : u.Hashable ↔ v.Hashable := by
        rw [← PyLiteral.hashable_normal u, hnormal, PyLiteral.hashable_normal v]
      rw [← readLiteral_eq_some_iff] at hv hu
      by_cases hashable : v.Hashable
      · rw [hdenotes hv hashable, hdenotes hu (hhash.mpr hashable),
          (PyLiteral.firm_iff hspell hashable).mpr (h v hv hashable) u hspell' hcanon]
      · rw [denotes, denotes, hv, hu, Option.bind_some, Option.bind_some, if_neg hashable,
          if_neg fun hyes => hashable (hhash.mp hyes)]
    refine ⟨htexts, fun answer hhit => ?_⟩
    -- a hit compares canonical forms, so answer and expectation denote one value
    obtain ⟨c, literal, hs, hliteral, hc⟩ := outputMatchVerdict_eq_one_iff.mp hhit
    exact ⟨literal, hliteral, htexts literal c hs hc⟩

end Value

/-- The string of the one character é, and that of the two characters whose numbers are its
bytes. -/
theorem not_unconfused : ¬ ∀ s t c : Bytes, canonicalPyLiteral s = some c →
    canonicalPyLiteral t = some c → denotes id s = denotes id t := by
  intro h
  have hquote : isQuote (byte '\'') = true := by decide
  have hraw : PyText (.string false [.raw 0xc3, .raw 0xa9]) (utf8 ['\'', 'é', '\'']) :=
    ⟨[], _, [], Blank.nil, Blank.nil, .string hquote (.cons (.raw (by decide) (by decide))
      (.cons (.raw (by decide) (by decide)) .nil)), by decide⟩
  have hescaped : PyText (.string false [.escaped 0xc3, .escaped 0xa9])
      (utf8 ['\'', '\\', 'x', 'c', '3', '\\', 'x', 'a', '9', '\'']) :=
    ⟨[], _, [], Blank.nil, Blank.nil, .string hquote
      (.cons (.hex (h := byte 'c') (l := byte '3') (by decide))
        (.cons (.hex (h := byte 'a') (l := byte '9') (by decide)) .nil)),
      by decide⟩
  have heq := h _ _ _ hraw.canonical hescaped.canonical
  have hhash : ∀ items, (PyLiteral.string false items).Hashable := fun _ => trivial
  simp only [denotes, readLiteral_eq_some_iff.mpr hraw, readLiteral_eq_some_iff.mpr hescaped,
    Option.bind_some, if_pos (hhash _), Option.some.injEq, PyLiteral.value,
    PyValue.str.injEq] at heq
  exact absurd heq (by decide)

end HubScope
