import HubScope.Evaluator.OutputMatch
import HubScope.Evaluator.PyNormal
import HubScope.Lib.LastWins
import Mathlib.Data.Finset.Dedup

/-!
# What Python literals denote

The value of a literal: a string is the text of its code points, an escape standing for the code
point of its number; a dictionary is a finite map in which the later of two equal keys wins, a set
a finite set. Keywords count in any case, as the canonical form has them. How Python reads the
token of a number is left open, so that what follows holds of any reading. A literal with an
unhashable element of a set or key of a dictionary denotes nothing.

## Main definitions

* `PyValue`, `PyLiteral.value`, `denotes` — values, and the value of a text
* `PyLiteral.Ascii`, `Consistent`, `Hashable` — what the strings, keys and elements are

## Main results

* `PyLiteral.value_normal` — the normal literal denotes the same value, where strings are ASCII
  and equal keys have equal values
* `PyLiteral.consistent_normal`, `ascii_normal`, `hashable_normal` — and is of the same kind
-/

set_option autoImplicit false

namespace HubScope

open Bytes PyParser

/-! ### Values -/

/-- Python values, where `ν` are the numbers. Strings are in UTF-8; sets and dictionaries are
listed in an order that depends on their members only. -/
inductive PyValue (ν : Type)
  | str (utf8 : Bytes)
  | bytes (content : Bytes)
  | none
  | number (x : ν)
  | list (elems : List (PyValue ν))
  | tuple (elems : List (PyValue ν))
  | set (elems : List (PyValue ν))
  | dict (entries : List (PyValue ν × PyValue ν))

/-- The code point an item of a string stands for, in UTF-8. -/
def PyItem.utf8 : PyItem → Bytes
  | raw b => [b]
  | escaped b => encode (Char.ofNat b.val)

section Value

variable {ν : Type} (reading : Bytes → ν)

noncomputable instance : DecidableEq (PyValue ν) := Classical.decEq _

namespace PyLiteral

mutual

/-- The value of a literal. -/
noncomputable def value : PyLiteral → PyValue ν
  | string false items => .str (items.flatMap PyItem.utf8)
  | string true items => .bytes (content items)
  | number token => .number (reading token)
  | keyword .true => .number (reading (ascii ['1']))
  | keyword .false => .number (reading (ascii ['0']))
  | keyword .none => .none
  | list elems => .list (valueAll elems)
  | tuple elems => .tuple (valueAll elems)
  | dict entries => .dict (lastWins (valuePairs entries)).toFinset.toList
  | set elems => .set (valueAll elems).toFinset.toList

noncomputable def valueAll : List PyLiteral → List (PyValue ν)
  | [] => []
  | v :: vs => value v :: valueAll vs

noncomputable def valuePairs : List (PyLiteral × PyLiteral) → List (PyValue ν × PyValue ν)
  | [] => []
  | (k, v) :: es => (value k, value v) :: valuePairs es

end

@[simp] theorem valueAll_eq (vs : List PyLiteral) :
    valueAll reading vs = vs.map (value reading) := by
  induction vs with
  | nil => rw [valueAll, List.map_nil]
  | cons v vs ih => rw [valueAll, ih, List.map_cons]

@[simp] theorem valuePairs_eq (es : List (PyLiteral × PyLiteral)) :
    valuePairs reading es = es.map (Prod.map (value reading) (value reading)) := by
  induction es with
  | nil => rw [valuePairs, List.map_nil]
  | cons e es ih => rw [valuePairs, ih, List.map_cons]; rfl

/-! ### Properties of all the literals in a literal -/

mutual

/-- A property of a literal and of all literals in it. -/
def Each (P : PyLiteral → Prop) : PyLiteral → Prop
  | string isBytes items => P (.string isBytes items)
  | number token => P (.number token)
  | keyword word => P (.keyword word)
  | list elems => P (.list elems) ∧ EachOf P elems
  | tuple elems => P (.tuple elems) ∧ EachOf P elems
  | dict entries => P (.dict entries) ∧ EachPair P entries
  | set elems => P (.set elems) ∧ EachOf P elems

def EachOf (P : PyLiteral → Prop) : List PyLiteral → Prop
  | [] => True
  | v :: vs => Each P v ∧ EachOf P vs

def EachPair (P : PyLiteral → Prop) : List (PyLiteral × PyLiteral) → Prop
  | [] => True
  | (k, v) :: es => (Each P k ∧ Each P v) ∧ EachPair P es

end

variable {P : PyLiteral → Prop}

@[simp] theorem eachOf_iff {vs : List PyLiteral} : EachOf P vs ↔ ∀ v ∈ vs, Each P v := by
  induction vs with
  | nil => simp [EachOf]
  | cons v vs ih => rw [EachOf, ih, List.forall_mem_cons]

@[simp] theorem eachPair_iff {es : List (PyLiteral × PyLiteral)} :
    EachPair P es ↔ ∀ e ∈ es, Each P e.1 ∧ Each P e.2 := by
  induction es with
  | nil => simp [EachPair]
  | cons e es ih => rw [EachPair, ih, List.forall_mem_cons]

theorem forall_mem_sorted {vs : List PyLiteral} {Q : PyLiteral → Prop} :
    (∀ v ∈ (vs.map normal).insertionSort elemLe, Q v) ↔ ∀ v ∈ vs, Q v.normal := by
  simp only [List.mem_insertionSort, List.forall_mem_map]

theorem forall_mem_sorted_pairs {es : List (PyLiteral × PyLiteral)}
    {Q : PyLiteral × PyLiteral → Prop} :
    (∀ e ∈ (es.map (Prod.map normal normal)).insertionSort entryLe, Q e) ↔
      ∀ e ∈ es, Q (e.1.normal, e.2.normal) := by
  simp only [List.mem_insertionSort, List.forall_mem_map]
  rfl

/-- What holds of a literal as it does of the normal one holds everywhere in both. -/
theorem each_normal (hP : ∀ v : PyLiteral, P v.normal ↔ P v) (v : PyLiteral) :
    Each P v.normal ↔ Each P v := by
  induction v with
  | string isBytes items => exact hP (.string isBytes items)
  | number token => exact hP (.number token)
  | keyword word => exact hP (.keyword word)
  | list elems ih =>
    have hlocal := hP (.list elems)
    simp only [normal, normalAll_eq] at hlocal
    simp only [normal, normalAll_eq, Each, eachOf_iff, hlocal, List.forall_mem_map]
    exact and_congr_right fun _ => forall₂_congr ih
  | tuple elems ih =>
    have hlocal := hP (.tuple elems)
    simp only [normal, normalAll_eq] at hlocal
    simp only [normal, normalAll_eq, Each, eachOf_iff, hlocal, List.forall_mem_map]
    exact and_congr_right fun _ => forall₂_congr ih
  | dict entries ih =>
    have hlocal := hP (.dict entries)
    simp only [normal, normalPairs_eq] at hlocal
    simp only [normal, normalPairs_eq, Each, eachPair_iff, hlocal, forall_mem_sorted_pairs]
    exact and_congr_right fun _ =>
      forall₂_congr fun e he => and_congr (ih e he).1 (ih e he).2
  | set elems ih =>
    have hlocal := hP (.set elems)
    simp only [normal, normalAll_eq] at hlocal
    simp only [normal, normalAll_eq, Each, eachOf_iff, hlocal, forall_mem_sorted]
    exact and_congr_right fun _ => forall₂_congr ih

/-- A string of ASCII characters. -/
def AsciiString : PyLiteral → Prop
  | string false items => ∀ i ∈ items, i.byte < 128
  | _ => True

/-- All strings in the literal are of ASCII characters. -/
def Ascii (v : PyLiteral) : Prop := Each AsciiString v

/-- A value that Python can hash, if its parts can be. -/
def Atomic : PyLiteral → Prop
  | list _ | dict _ | set _ => False
  | _ => True

/-- The literal may be an element of a set or a key of a dictionary. -/
def Hashes (v : PyLiteral) : Prop := Each Atomic v

def HashableParts : PyLiteral → Prop
  | set elems => ∀ v ∈ elems, Hashes v
  | dict entries => ∀ e ∈ entries, Hashes e.1
  | _ => True

/-- The elements of sets and the keys of dictionaries can be hashed: the literal has a value. -/
def Hashable (v : PyLiteral) : Prop := Each HashableParts v

/-- Equal keys of a dictionary have equal values. -/
def NoConflict : PyLiteral → Prop
  | dict entries => ∀ e ∈ entries, ∀ f ∈ entries,
      e.1.value reading = f.1.value reading → e.2.value reading = f.2.value reading
  | _ => True

/-- Equal keys have equal values in all dictionaries in the literal. -/
def Consistent (v : PyLiteral) : Prop := Each (NoConflict reading) v

theorem ascii_normal (v : PyLiteral) : v.normal.Ascii ↔ v.Ascii := by
  refine each_normal (fun v => ?_) v
  cases v with
  | string isBytes items =>
    cases isBytes with
    | false => simp [normal, AsciiString, content]
    | true => exact Iff.rfl
  | _ => exact Iff.rfl

theorem hashes_normal (v : PyLiteral) : v.normal.Hashes ↔ v.Hashes :=
  each_normal (fun v => by cases v <;> exact Iff.rfl) v

theorem hashable_normal (v : PyLiteral) : v.normal.Hashable ↔ v.Hashable := by
  refine each_normal (fun v => ?_) v
  cases v with
  | set elems =>
    simp only [normal, normalAll_eq, HashableParts, forall_mem_sorted, hashes_normal]
  | dict entries =>
    simp only [normal, normalPairs_eq, HashableParts, forall_mem_sorted_pairs, hashes_normal]
  | _ => exact Iff.rfl

/-! ### The normal literal denotes the same value -/

theorem utf8_of_ascii {items : List PyItem} (h : ∀ i ∈ items, i.byte < 128) :
    items.flatMap PyItem.utf8 = content items := by
  induction items with
  | nil => rfl
  | cons i items ih =>
    obtain ⟨hi, hitems⟩ := List.forall_mem_cons.mp h
    have hitem : i.utf8 = [i.byte] := by
      cases i with
      | raw b => rfl
      | escaped b => exact (encode_ofNat b).trans (if_pos hi)
    rw [List.flatMap_cons, hitem, ih hitems]
    rfl

/-- A set denotes the finite set of its elements. -/
theorem value_set_congr {vs us : List PyLiteral}
    (h : ∀ x, x ∈ vs.map (value reading) ↔ x ∈ us.map (value reading)) :
    value reading (.set vs) = value reading (.set us) := by
  have hfinset : (vs.map (value reading)).toFinset = (us.map (value reading)).toFinset :=
    Finset.ext fun x => by simpa only [List.mem_toFinset] using h x
  simp only [value, valueAll_eq, hfinset]

theorem value_dict_congr {es fs : List (PyLiteral × PyLiteral)}
    (h : ∀ x, x ∈ lastWins (es.map (Prod.map (value reading) (value reading))) ↔
      x ∈ lastWins (fs.map (Prod.map (value reading) (value reading)))) :
    value reading (.dict es) = value reading (.dict fs) := by
  have hfinset : (lastWins (es.map (Prod.map (value reading) (value reading)))).toFinset =
      (lastWins (fs.map (Prod.map (value reading) (value reading)))).toFinset :=
    Finset.ext fun x => by simpa only [List.mem_toFinset] using h x
  simp only [value, valuePairs_eq, hfinset]

theorem mem_lastWins_of_noConflict {es : List (PyLiteral × PyLiteral)}
    (h : NoConflict reading (.dict es)) (x : PyValue ν × PyValue ν) :
    x ∈ lastWins (es.map (Prod.map (value reading) (value reading))) ↔
      x ∈ es.map (Prod.map (value reading) (value reading)) := by
  refine mem_lastWins_iff ?_
  simp only [List.forall_mem_map]
  exact h

/-- Sorting the elements of a set keeps their values. -/
theorem mem_values_sorted {vs : List PyLiteral}
    (h : ∀ v ∈ vs, v.normal.value reading = v.value reading) (x : PyValue ν) :
    x ∈ ((vs.map normal).insertionSort elemLe).map (value reading) ↔
      x ∈ vs.map (value reading) := by
  have hmap : (vs.map normal).map (value reading) = vs.map (value reading) := by
    rw [List.map_map]
    exact List.map_congr_left h
  rw [← hmap]
  exact ((List.perm_insertionSort elemLe _).map _).mem_iff

theorem mem_values_sorted_pairs {es : List (PyLiteral × PyLiteral)}
    (h : ∀ e ∈ es, e.1.normal.value reading = e.1.value reading ∧
      e.2.normal.value reading = e.2.value reading) (x : PyValue ν × PyValue ν) :
    x ∈ ((es.map (Prod.map normal normal)).insertionSort entryLe).map
        (Prod.map (value reading) (value reading)) ↔
      x ∈ es.map (Prod.map (value reading) (value reading)) := by
  have hmap : (es.map (Prod.map normal normal)).map (Prod.map (value reading) (value reading)) =
      es.map (Prod.map (value reading) (value reading)) := by
    rw [List.map_map]
    exact List.map_congr_left fun e he => Prod.ext (h e he).1 (h e he).2
  rw [← hmap]
  exact ((List.perm_insertionSort entryLe _).map _).mem_iff

/-- A conflict stays one when the literal is normalised. -/
theorem noConflict_sorted {es : List (PyLiteral × PyLiteral)}
    (h : ∀ e ∈ es, e.1.normal.value reading = e.1.value reading ∧
      e.2.normal.value reading = e.2.value reading) :
    NoConflict reading (.dict ((es.map (Prod.map normal normal)).insertionSort entryLe)) ↔
      NoConflict reading (.dict es) := by
  simp only [NoConflict, forall_mem_sorted_pairs]
  refine forall₂_congr fun e he => forall₂_congr fun f hf => ?_
  rw [(h e he).1, (h f hf).1, (h e he).2, (h f hf).2]

/-- The normal literal denotes the same value, where strings are ASCII and keys do not conflict. -/
theorem value_normal {v : PyLiteral} (hascii : v.Ascii) (hcons : v.Consistent reading) :
    v.normal.value reading = v.value reading := by
  induction v with
  | string isBytes items =>
    cases isBytes with
    | true => simp only [normal, value, content_canonicalItem]
    | false =>
      have hnormal := utf8_of_ascii ((ascii_normal (.string false items)).mpr hascii)
      rw [content_canonicalItem] at hnormal
      simp only [normal, value, hnormal, utf8_of_ascii hascii]
  | number token => rfl
  | keyword word => rfl
  | list elems ih =>
    simp only [Ascii, Consistent, Each, eachOf_iff] at hascii hcons
    have helems := fun v hv => ih v hv (hascii.2 v hv) (hcons.2 v hv)
    simp only [normal, value, normalAll_eq, valueAll_eq, List.map_map]
    exact congrArg PyValue.list (List.map_congr_left helems)
  | tuple elems ih =>
    simp only [Ascii, Consistent, Each, eachOf_iff] at hascii hcons
    have helems := fun v hv => ih v hv (hascii.2 v hv) (hcons.2 v hv)
    simp only [normal, value, normalAll_eq, valueAll_eq, List.map_map]
    exact congrArg PyValue.tuple (List.map_congr_left helems)
  | dict entries ih =>
    simp only [Ascii, Consistent, Each, eachPair_iff] at hascii hcons
    have hentries := fun e he => And.intro
      ((ih e he).1 (hascii.2 e he).1 (hcons.2 e he).1)
      ((ih e he).2 (hascii.2 e he).2 (hcons.2 e he).2)
    rw [normal, normalPairs_eq]
    refine value_dict_congr reading fun x => ?_
    rw [mem_lastWins_of_noConflict reading ((noConflict_sorted reading hentries).mpr hcons.1),
      mem_lastWins_of_noConflict reading hcons.1]
    exact mem_values_sorted_pairs reading hentries x
  | set elems ih =>
    simp only [Ascii, Consistent, Each, eachOf_iff] at hascii hcons
    have helems := fun v hv => ih v hv (hascii.2 v hv) (hcons.2 v hv)
    rw [normal, normalAll_eq]
    exact value_set_congr reading (mem_values_sorted reading helems)

theorem consistent_normal {v : PyLiteral} (hascii : v.Ascii) :
    v.normal.Consistent reading ↔ v.Consistent reading := by
  induction v with
  | string isBytes items => exact Iff.rfl
  | number token => exact Iff.rfl
  | keyword word => exact Iff.rfl
  | list elems ih =>
    simp only [Ascii, Each, eachOf_iff] at hascii
    simp only [Consistent, normal, normalAll_eq, Each, eachOf_iff, List.forall_mem_map]
    exact and_congr Iff.rfl (forall₂_congr fun v hv => ih v hv (hascii.2 v hv))
  | tuple elems ih =>
    simp only [Ascii, Each, eachOf_iff] at hascii
    simp only [Consistent, normal, normalAll_eq, Each, eachOf_iff, List.forall_mem_map]
    exact and_congr Iff.rfl (forall₂_congr fun v hv => ih v hv (hascii.2 v hv))
  | dict entries ih =>
    simp only [Ascii, Each, eachPair_iff] at hascii
    simp only [Consistent, normal, normalPairs_eq, Each, eachPair_iff, forall_mem_sorted_pairs]
    have hparts := forall₂_congr fun e he =>
      and_congr ((ih e he).1 (hascii.2 e he).1) ((ih e he).2 (hascii.2 e he).2)
    -- where the parts are consistent, they denote what they did
    refine (and_congr Iff.rfl hparts).trans (and_congr_left fun hcons =>
      noConflict_sorted reading fun e he => ?_)
    exact ⟨value_normal reading (hascii.2 e he).1 (hcons e he).1,
      value_normal reading (hascii.2 e he).2 (hcons e he).2⟩
  | set elems ih =>
    simp only [Ascii, Each, eachOf_iff] at hascii
    simp only [Consistent, normal, normalAll_eq, Each, eachOf_iff, forall_mem_sorted]
    exact and_congr Iff.rfl (forall₂_congr fun v hv => ih v hv (hascii.2 v hv))

end PyLiteral

open Classical in
/-- The value of a text, if it is a literal that has one. -/
noncomputable def denotes (s : Bytes) : Option (PyValue ν) :=
  (readLiteral s).bind fun v => if v.Hashable then some (v.value reading) else none

end Value

end HubScope
