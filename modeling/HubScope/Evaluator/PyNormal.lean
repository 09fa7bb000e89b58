import HubScope.Evaluator.PyGrammar

/-!
# The canonical form is a normal form

The canonical form of a literal is itself a text that writes a literal: the same one with its
strings respelled and the entries of its sets and dictionaries sorted. Reading it back therefore
leads to the same form. Spellings of one literal have one canonical form, whatever white space,
quotes and trailing commas they use, and so have literals that differ in the order of the entries
of sets and dictionaries, at any depth.

## Main definitions

* `PyLiteral.normal` — the literal with its strings respelled and its entries sorted
* `PyLiteral.Rearranged` — literals that differ in the order of entries

## Main results

* `Spells.writesNormal` — the canonical form writes the normal literal
* `PyLiteral.canon_rearranged` — the order of entries does not matter
* `canonicalPyLiteral_normalForm` — the canonical form is a normal form
-/

set_option autoImplicit false

namespace HubScope

open Bytes PyParser

/-! ### Sorted entries -/

/-- The order of pairs is the lexicographic one. -/
theorem pairLe_iff {a b : Bytes × Bytes} : pairLe a b ↔ toLex a ≤ toLex b := by
  rw [Prod.Lex.toLex_le_toLex, pairLe]
  split_ifs with h
  · exact ⟨.inl, fun hle => hle.resolve_right fun heq => h heq.1⟩
  · rw [not_not] at h
    exact ⟨fun hle => .inr ⟨h, hle⟩,
      fun hle => (hle.resolve_left fun hlt => absurd h hlt.ne).2⟩

instance : Std.Total pairLe := ⟨fun _ _ => by simpa only [pairLe_iff] using le_total _ _⟩

instance : IsTrans (Bytes × Bytes) pairLe :=
  ⟨fun _ _ _ => by simpa only [pairLe_iff] using le_trans⟩

instance : Std.Antisymm pairLe :=
  ⟨fun _ _ hab hba => toLex.injective (le_antisymm (pairLe_iff.mp hab) (pairLe_iff.mp hba))⟩

section Sorting

variable {α : Type} (r : α → α → Prop) [DecidableRel r] [Std.Total r] [IsTrans α r]

theorem insertionSort_insertionSort (l : List α) :
    (l.insertionSort r).insertionSort r = l.insertionSort r :=
  (List.pairwise_insertionSort r l).insertionSort_eq

/-- Sorting forgets the order. -/
theorem insertionSort_eq_of_perm [Std.Antisymm r] {l l' : List α} (h : l.Perm l') :
    l.insertionSort r = l'.insertionSort r :=
  ((List.perm_insertionSort r l).trans (h.trans (List.perm_insertionSort r l').symm)).eq_of_pairwise'
    (List.pairwise_insertionSort r l) (List.pairwise_insertionSort r l')

end Sorting

theorem content_canonicalItem (bytes : Bytes) : content (bytes.map canonicalItem) = bytes := by
  rw [content, List.map_map]
  exact (List.map_congr_left fun b _ => byte_canonicalItem b).trans (List.map_id bytes)

namespace PyLiteral

/-- The order of the elements of a set in the canonical form. -/
def elemLe (v v' : PyLiteral) : Prop := v.canon ≤ v'.canon

/-- The order of the entries of a dictionary in the canonical form. -/
def entryLe (e e' : PyLiteral × PyLiteral) : Prop :=
  pairLe (Prod.map canon canon e) (Prod.map canon canon e')

instance : DecidableRel elemLe := fun v v' => by unfold elemLe; infer_instance

instance : DecidableRel entryLe := fun e e' => by unfold entryLe; infer_instance

instance : Std.Total elemLe := ⟨fun v v' => le_total v.canon v'.canon⟩

instance : IsTrans PyLiteral elemLe := ⟨fun _ _ _ h h' => le_trans h h'⟩

instance : Std.Total entryLe :=
  ⟨fun e e' => total_of pairLe (Prod.map canon canon e) (Prod.map canon canon e')⟩

instance : IsTrans (PyLiteral × PyLiteral) entryLe :=
  ⟨fun _ _ _ h h' => trans_of pairLe h h'⟩

mutual

/-- The literal as its canonical form writes it. -/
def normal : PyLiteral → PyLiteral
  | string isBytes items => string isBytes ((content items).map canonicalItem)
  | number token => number token
  | keyword word => keyword word
  | list elems => list (normalAll elems)
  | tuple elems => tuple (normalAll elems)
  | dict entries => dict ((normalPairs entries).insertionSort entryLe)
  | set elems => set ((normalAll elems).insertionSort elemLe)

def normalAll : List PyLiteral → List PyLiteral
  | [] => []
  | v :: vs => normal v :: normalAll vs

def normalPairs : List (PyLiteral × PyLiteral) → List (PyLiteral × PyLiteral)
  | [] => []
  | (k, v) :: es => (normal k, normal v) :: normalPairs es

end

@[simp] theorem normalAll_eq (vs : List PyLiteral) : normalAll vs = vs.map normal := by
  induction vs with
  | nil => rw [normalAll, List.map_nil]
  | cons v vs ih => rw [normalAll, ih, List.map_cons]

@[simp] theorem normalPairs_eq (es : List (PyLiteral × PyLiteral)) :
    normalPairs es = es.map (Prod.map normal normal) := by
  induction es with
  | nil => rw [normalPairs, List.map_nil]
  | cons e es ih => rw [normalPairs, ih, List.map_cons]; rfl

/-- Sorted elements have the sorted canonical forms. -/
theorem map_canon_sorted (vs : List PyLiteral) :
    (vs.insertionSort elemLe).map canon = (vs.map canon).insertionSort (· ≤ ·) :=
  List.map_insertionSort elemLe (· ≤ ·) canon vs fun _ _ _ _ => Iff.rfl

theorem map_canon_sorted_pairs (es : List (PyLiteral × PyLiteral)) :
    (es.insertionSort entryLe).map (Prod.map canon canon) =
      (es.map (Prod.map canon canon)).insertionSort pairLe :=
  List.map_insertionSort entryLe pairLe (Prod.map canon canon) es fun _ _ _ _ => Iff.rfl

/-- The normal literal has the same canonical form. -/
@[simp] theorem canon_normal (v : PyLiteral) : v.normal.canon = v.canon := by
  have hall : ∀ vs : List PyLiteral, (∀ v ∈ vs, v.normal.canon = v.canon) →
      (vs.map normal).map canon = vs.map canon := by
    intro vs h
    rw [List.map_map]
    exact List.map_congr_left h
  have hpairs : ∀ es : List (PyLiteral × PyLiteral),
      (∀ e ∈ es, e.1.normal.canon = e.1.canon ∧ e.2.normal.canon = e.2.canon) →
      (es.map (Prod.map normal normal)).map (Prod.map canon canon) =
        es.map (Prod.map canon canon) := by
    intro es h
    rw [List.map_map]
    exact List.map_congr_left fun e he => Prod.ext (h e he).1 (h e he).2
  induction v with
  | string isBytes items => rw [normal, canon, canon, content_canonicalItem]
  | number token => rfl
  | keyword word => rfl
  | list elems ih => simp only [normal, canon, normalAll_eq, canonAll_eq, hall elems ih]
  | tuple elems ih => simp only [normal, canon, normalAll_eq, canonAll_eq, hall elems ih]
  -- sorting before the spelling is sorting after it
  | dict entries ih =>
    simp only [normal, canon, normalPairs_eq, canonPairs_eq, map_canon_sorted_pairs,
      hpairs entries ih, dictForm, insertionSort_insertionSort]
  | set elems ih =>
    simp only [normal, canon, normalAll_eq, canonAll_eq, map_canon_sorted, hall elems ih, setForm,
      insertionSort_insertionSort]

end PyLiteral

/-! ### The canonical form writes the normal literal -/

section Join

/-- Elements written with a comma between two of them. -/
theorem spells_join {vs : List PyLiteral} (h : ∀ v ∈ vs, Spells (.value v) v.canon) :
    Spells (.elems vs) (joinComma (vs.map PyLiteral.canon)) := by
  induction vs with
  | nil => exact .noElem Spacing.nil
  | cons v vs ih =>
    obtain ⟨hv, hvs⟩ := List.forall_mem_cons.mp h
    cases vs with
    | nil => simpa [joinComma] using Spells.lastElem Spacing.nil Spacing.nil hv
    | cons v' vs => simpa [joinComma] using Spells.elem Spacing.nil Spacing.nil hv (ih hvs)

theorem spells_join_pairs {es : List (PyLiteral × PyLiteral)}
    (h : ∀ e ∈ es, Spells (.value e.1) e.1.canon ∧ Spells (.value e.2) e.2.canon) :
    Spells (.entries es)
      (joinComma (es.map fun e => e.1.canon ++ byte ':' :: e.2.canon)) := by
  induction es with
  | nil => exact .noEntry Spacing.nil
  | cons e es ih =>
    obtain ⟨⟨hk, hv⟩, hes⟩ := List.forall_mem_cons.mp h
    cases es with
    | nil =>
      simpa [joinComma] using
        Spells.lastEntry Spacing.nil Spacing.nil Spacing.nil Spacing.nil hk hv
    | cons e' es =>
      simpa [joinComma] using
        Spells.entry Spacing.nil Spacing.nil Spacing.nil Spacing.nil hk hv (ih hes)

theorem spells_tupleForm {vs : List PyLiteral} (h : ∀ v ∈ vs, Spells (.value v) v.canon) :
    Spells (.value (.tuple vs)) (tupleForm (vs.map PyLiteral.canon)) := by
  cases vs with
  | nil => exact .unit Spacing.nil
  | cons v vs =>
    obtain ⟨hv, hvs⟩ := List.forall_mem_cons.mp h
    have htuple := Spells.tuple Spacing.nil Spacing.nil hv (spells_join hvs)
    -- a single element is the only one that needs the comma
    cases vs with
    | nil => simpa [tupleForm, joinComma, ascii] using htuple
    | cons v' vs => simpa [tupleForm, joinComma] using htuple

end Join

/-- The canonical form of what is written writes the normal literal. -/
def WritesNormal : PyForm → Prop
  | .value v => Spells (.value v.normal) v.normal.canon
  | .elems vs => ∀ v ∈ vs, Spells (.value v.normal) v.normal.canon
  | .entries es => ∀ e ∈ es, Spells (.value e.1.normal) e.1.normal.canon ∧
      Spells (.value e.2.normal) e.2.normal.canon

theorem spells_canonicalItems (isBytes : Bool) (bytes : Bytes) :
    Spells (.value (.string isBytes (bytes.map canonicalItem)))
      (quoted isBytes (content (bytes.map canonicalItem))) := by
  rw [content_canonicalItem]
  cases isBytes with
  | false => exact .string (by decide) (spellsItems_canonical bytes)
  | true => exact .bytes (.inl rfl) (by decide) (spellsItems_canonical bytes)

open PyLiteral in
theorem Spells.writesNormal {form : PyForm} {t : Bytes} (h : Spells form t) :
    WritesNormal form := by
  have hall : ∀ vs : List PyLiteral, (∀ v ∈ vs, Spells (.value v.normal) v.normal.canon) →
      ∀ v ∈ vs.map PyLiteral.normal, Spells (.value v) v.canon :=
    fun vs h => List.forall_mem_map.mpr h
  induction h with
  | @string q items t hq h => exact spells_canonicalItems false (content items)
  | @bytes b q items t hb hq h => exact spells_canonicalItems true (content items)
  | @number t h =>
    have hspells := Spells.number h.withoutPlus.1
    -- the sign is off already, so taking it off again changes nothing
    rw [h.trimPlus_trimPlus] at hspells
    exact hspells
  | keyword h => exact .keyword (spellsKeyword_text _)
  | @list vs t h ih =>
    rw [WritesNormal, normal, canon, canonAll_eq, normalAll_eq]
    exact .list (spells_join (hall vs ih))
  | unit hw => exact .unit Spacing.nil
  | group hw hw' h ih => exact ih
  | @tuple v vs w t w' u hw hw' h hs ih ihs =>
    rw [WritesNormal, normal, canon, canonAll_eq, normalAll_eq]
    exact spells_tupleForm (hall (v :: vs) (List.forall_mem_cons.mpr ⟨ih, ihs⟩))
  | @dict es t h ih =>
    have hes : ∀ e ∈ (es.map (Prod.map normal normal)).insertionSort entryLe,
        Spells (.value e.1) e.1.canon ∧ Spells (.value e.2) e.2.canon := by
      intro e he
      obtain ⟨e', he', rfl⟩ := List.mem_map.mp ((List.mem_insertionSort entryLe).mp he)
      exact ih e' he'
    rw [WritesNormal, normal, canon, canonPairs_eq, normalPairs_eq, dictForm,
      ← map_canon_sorted_pairs, insertionSort_insertionSort, List.map_map]
    exact .dict (spells_join_pairs hes)
  | @set vs t hne h ih =>
    have hvs : ∀ v ∈ (vs.map normal).insertionSort elemLe, Spells (.value v) v.canon :=
      fun v hv => hall vs ih v ((List.mem_insertionSort elemLe).mp hv)
    -- normalising keeps a set from becoming the empty one, which has no spelling
    have hsome : (vs.map normal).insertionSort elemLe ≠ [] := by
      rw [← List.length_pos_iff, List.length_insertionSort, List.length_map]
      exact List.length_pos_iff.mpr hne
    rw [WritesNormal, normal, canon, canonAll_eq, normalAll_eq, setForm, ← map_canon_sorted,
      insertionSort_insertionSort]
    exact .set hsome (spells_join hvs)
  | noElem hw => exact List.forall_mem_nil _
  | lastElem hw hw' h ih => exact List.forall_mem_singleton.mpr ih
  | elem hw hw' h hs ih ihs => exact List.forall_mem_cons.mpr ⟨ih, ihs⟩
  | noEntry hw => exact List.forall_mem_nil _
  | lastEntry hw hw' hx hx' hk hv ihk ihv => exact List.forall_mem_singleton.mpr ⟨ihk, ihv⟩
  | entry hw hw' hx hx' hk hv hs ihk ihv ihs => exact List.forall_mem_cons.mpr ⟨⟨ihk, ihv⟩, ihs⟩

/-- The canonical form of a written literal is a text that writes the normal one. -/
theorem PyText.normal {v : PyLiteral} {s : Bytes} (h : PyText v s) : PyText v.normal v.canon := by
  obtain ⟨w, t, w', -, -, ht, -⟩ := h
  have hspells : Spells (.value v.normal) v.normal.canon := ht.writesNormal
  rw [PyLiteral.canon_normal] at hspells
  exact ⟨[], v.canon, [], Blank.nil, Blank.nil, hspells, by simp⟩

/-! ### The order of entries -/

namespace PyLiteral

/-- One set or dictionary somewhere in the literal has its entries in another order. -/
inductive Rearranged : PyLiteral → PyLiteral → Prop
  | set {vs vs' : List PyLiteral} (h : vs.Perm vs') : Rearranged (.set vs) (.set vs')
  | dict {es es' : List (PyLiteral × PyLiteral)} (h : es.Perm es') :
      Rearranged (.dict es) (.dict es')
  | inList {vs us : List PyLiteral} {v v' : PyLiteral} (h : Rearranged v v') :
      Rearranged (.list (vs ++ v :: us)) (.list (vs ++ v' :: us))
  | inTuple {vs us : List PyLiteral} {v v' : PyLiteral} (h : Rearranged v v') :
      Rearranged (.tuple (vs ++ v :: us)) (.tuple (vs ++ v' :: us))
  | inSet {vs us : List PyLiteral} {v v' : PyLiteral} (h : Rearranged v v') :
      Rearranged (.set (vs ++ v :: us)) (.set (vs ++ v' :: us))
  | inKey {es fs : List (PyLiteral × PyLiteral)} {k k' v : PyLiteral} (h : Rearranged k k') :
      Rearranged (.dict (es ++ (k, v) :: fs)) (.dict (es ++ (k', v) :: fs))
  | inValue {es fs : List (PyLiteral × PyLiteral)} {k v v' : PyLiteral} (h : Rearranged v v') :
      Rearranged (.dict (es ++ (k, v) :: fs)) (.dict (es ++ (k, v') :: fs))

theorem canon_rearranged {v v' : PyLiteral} (h : Rearranged v v') : v.canon = v'.canon := by
  induction h with
  | set h => simp only [canon, canonAll_eq, setForm, insertionSort_eq_of_perm (· ≤ ·) (h.map canon)]
  | dict h =>
    simp only [canon, canonPairs_eq, dictForm,
      insertionSort_eq_of_perm pairLe (h.map (Prod.map canon canon))]
  | inList h ih => simp only [canon, canonAll_eq, List.map_append, List.map_cons, ih]
  | inTuple h ih => simp only [canon, canonAll_eq, List.map_append, List.map_cons, ih]
  | inSet h ih => simp only [canon, canonAll_eq, List.map_append, List.map_cons, ih]
  | inKey h ih => simp only [canon, canonPairs_eq, List.map_append, List.map_cons, Prod.map, ih]
  | inValue h ih => simp only [canon, canonPairs_eq, List.map_append, List.map_cons, Prod.map, ih]

/-- Literals that differ in the order of the entries of any of their sets and dictionaries. -/
def Alike (v v' : PyLiteral) : Prop := Relation.ReflTransGen Rearranged v v'

theorem Alike.canon_eq {v v' : PyLiteral} (h : Alike v v') : v.canon = v'.canon := by
  induction h with
  | refl => rfl
  | tail h hstep ih => exact ih.trans (canon_rearranged hstep)

end PyLiteral

/-- The canonical form of an accepted text is accepted and its own canonical form, and every text
that writes the same literal, or one alike, has the same. -/
theorem canonicalPyLiteral_normalForm {s c : Bytes} (h : canonicalPyLiteral s = some c) :
    canonicalPyLiteral c = some c ∧ (∃ v, PyText v s) ∧
      ∀ v v' t, PyText v s → v.Alike v' → PyText v' t → canonicalPyLiteral t = some c := by
  obtain ⟨v, hv, rfl⟩ := canonicalPyLiteral_eq_some_iff.mp h
  refine ⟨?_, ⟨v, hv⟩, fun u u' t hu halike ht => ?_⟩
  · rw [hv.normal.canonical, PyLiteral.canon_normal]
  · obtain rfl := hv.unique hu
    rw [ht.canonical, halike.canon_eq]

/-- A set with white space, single quotes and a trailing comma. -/
theorem canonicalPyLiteral_normalForm_set :
    canonicalPyLiteral (ascii ['{', '"', 'b', '"', ',', '1', '}']) =
        some (ascii ['{', '"', 'b', '"', ',', '1', '}']) ∧
      (∃ v, PyText v (ascii ['{', '1', ' ', ',', '\'', 'b', '\'', ',', '}'])) ∧
      ∀ v v' t, PyText v (ascii ['{', '1', ' ', ',', '\'', 'b', '\'', ',', '}']) → v.Alike v' →
        PyText v' t →
        canonicalPyLiteral t = some (ascii ['{', '"', 'b', '"', ',', '1', '}']) :=
  canonicalPyLiteral_normalForm (by decide)

end HubScope
