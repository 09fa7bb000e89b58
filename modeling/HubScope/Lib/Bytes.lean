import Mathlib.Algebra.GroupWithZero.Nat
import Mathlib.Data.Fintype.Basic
import Mathlib.Data.Fin.Basic
import Mathlib.Data.List.Infix
import Mathlib.Order.Fin.Basic

/-!
# Texts as bytes

A text of which single bytes matter is the list of its bytes. White space is what Unicode calls
so, in its encoding: no encoding begins or ends another one, so that it comes off either end of a
text in one way.

## Main definitions

* `Bytes.byte`, `Bytes.ascii`, `Bytes.utf8` — the bytes of characters
* `Bytes.hexVal` — the value of a hexadecimal digit
* `Bytes.Blank`, `Bytes.trimSpace` — white space, and a text without it at its ends
* `Bytes.cut` — a text around the first occurrence of another

## Main results

* `Bytes.trimSpace_append` — only the white space at the ends comes off
* `Bytes.exists_trimSpace` — nothing else does
* `Bytes.eq_of_cut` — what is cut out of a text
-/

set_option autoImplicit false

abbrev Byte := Fin 256

abbrev Bytes := List Byte

namespace Bytes

-- by name, so that a definition refers to the instance and holds no proof of its own
instance neZero_byte : NeZero 256 := ⟨by decide⟩

instance lawfulBEq_byte : LawfulBEq Byte := inferInstance

-- A byte has 256 values, and `decide` goes through all of them.
set_option maxRecDepth 2000

/-- The byte of an ASCII character. -/
def byte (c : Char) : Byte := Fin.ofNat 256 c.toNat

/-- A text of ASCII characters. -/
def ascii (s : List Char) : Bytes := s.map byte

/-- An ASCII string. -/
def text (s : String) : Bytes := ascii s.toList

/-- The UTF-8 encoding of a character. -/
def encode (c : Char) : Bytes := (String.utf8EncodeChar c).map UInt8.toFin

/-- The UTF-8 encoding of a text. -/
def utf8 (s : List Char) : Bytes := s.flatMap encode

/-- The value of a hexadecimal digit, by its code. -/
def hexVal (n : ℕ) : Option ℕ :=
  if 48 ≤ n ∧ n ≤ 57 then some (n - 48)
  else if 97 ≤ n ∧ n ≤ 102 then some (n - 87)
  else if 65 ≤ n ∧ n ≤ 70 then some (n - 55)
  else none

/-! ### White space -/

/-- The encodings of the Unicode property `White_Space`. -/
def spaces : List Bytes :=
  ['\t', '\n', '\x0b', '\x0c', '\r', ' ', '\u0085', '\u00a0', '\u1680', '\u2000', '\u2001',
    '\u2002', '\u2003', '\u2004', '\u2005', '\u2006', '\u2007', '\u2008', '\u2009', '\u200a',
    '\u2028', '\u2029', '\u202f', '\u205f', '\u3000'].map encode

/-- The text after the words it begins with, at most `fuel` of them. -/
def dropWords (words : List Bytes) : ℕ → Bytes → Bytes
  | 0, s => s
  | fuel + 1, s =>
    match words.find? (·.isPrefixOf s) with
    | none => s
    | some w => dropWords words fuel (s.drop w.length)

def trimLeft (s : Bytes) : Bytes := dropWords spaces s.length s

def trimRight (s : Bytes) : Bytes :=
  (dropWords (spaces.map List.reverse) s.length s.reverse).reverse

/-- The text without the white space at its ends. -/
def trimSpace (s : Bytes) : Bytes := trimRight (trimLeft s)

/-- White space and nothing else. -/
def Blank (w : Bytes) : Prop := ∃ ws : List Bytes, (∀ x ∈ ws, x ∈ spaces) ∧ w = ws.flatten

/-! ### Searching -/

/-- The text before and after the first occurrence of a pattern. -/
def cut (pattern : Bytes) : Bytes → Option (Bytes × Bytes)
  | [] => if pattern = [] then some ([], []) else none
  | c :: s =>
    if pattern.isPrefixOf (c :: s) then some ([], (c :: s).drop pattern.length)
    else (cut pattern s).map fun (before, after) => (c :: before, after)

/-! ### White space comes off in one way -/

theorem Blank.nil : Blank [] := ⟨[], by simp, rfl⟩

theorem Blank.append {w w' : Bytes} (h : Blank w) (h' : Blank w') : Blank (w ++ w') := by
  obtain ⟨ws, hws, rfl⟩ := h
  obtain ⟨ws', hws', rfl⟩ := h'
  exact ⟨ws ++ ws', List.forall_mem_append.mpr ⟨hws, hws'⟩, List.flatten_append.symm⟩

theorem Blank.of_mem {w : Bytes} (h : w ∈ spaces) : Blank w :=
  ⟨[w], by simpa using h, by simp⟩

/-- Dropping words leaves the rest of a text that begins with some of them. -/
theorem exists_dropWords (words : List Bytes) (fuel : ℕ) (s : Bytes) :
    ∃ ws : List Bytes, (∀ w ∈ ws, w ∈ words) ∧ s = ws.flatten ++ dropWords words fuel s := by
  induction fuel generalizing s with
  | zero => exact ⟨[], by simp, rfl⟩
  | succ fuel ih =>
    unfold dropWords
    split
    · exact ⟨[], by simp, rfl⟩
    · rename_i w hfind
      have hprefix := List.find?_some hfind
      obtain ⟨r, rfl⟩ := List.isPrefixOf_iff_prefix.mp hprefix
      obtain ⟨ws, hws, hrest⟩ := ih r
      refine ⟨w :: ws, List.forall_mem_cons.mpr ⟨List.mem_of_find?_eq_some hfind, hws⟩, ?_⟩
      rw [List.drop_left, List.flatten_cons, List.append_assoc, ← hrest]

/-- Where no word begins another one, the words a text begins with come off one by one. -/
theorem dropWords_flatten {words : List Bytes} (hne : [] ∉ words)
    (hfree : ∀ a ∈ words, ∀ b ∈ words, a <+: b → a = b)
    {r : Bytes} (hr : ∀ w ∈ words, ¬ w <+: r) {ws : List Bytes} (hws : ∀ w ∈ ws, w ∈ words)
    {fuel : ℕ} (hfuel : (ws.flatten ++ r).length ≤ fuel) :
    dropWords words fuel (ws.flatten ++ r) = r := by
  induction ws generalizing fuel with
  | nil =>
    have hnone : words.find? (·.isPrefixOf r) = none := by
      simpa [List.find?_eq_none] using hr
    cases fuel with
    | zero => rfl
    | succ fuel => simp only [List.flatten_nil, List.nil_append, dropWords, hnone]
  | cons w ws ih =>
    obtain ⟨hw, hws⟩ := List.forall_mem_cons.mp hws
    rw [List.flatten_cons, List.append_assoc] at hfuel ⊢
    have hpos : w ≠ [] := fun h => hne (h ▸ hw)
    have hlen := List.length_pos_iff.mpr hpos
    cases fuel with
    | zero => simp only [List.length_append, Nat.le_zero] at hfuel; omega
    | succ fuel =>
      have hfind : words.find? (·.isPrefixOf (w ++ (ws.flatten ++ r))) = some w := by
        have hsome : (words.find? (·.isPrefixOf (w ++ (ws.flatten ++ r)))).isSome :=
          List.find?_isSome.mpr ⟨w, hw, List.isPrefixOf_iff_prefix.mpr (w.prefix_append _)⟩
        obtain ⟨x, hx⟩ := Option.isSome_iff_exists.mp hsome
        have hprefix := List.find?_some hx
        have hxw := List.isPrefixOf_iff_prefix.mp hprefix
        have hmem := List.mem_of_find?_eq_some hx
        -- of two words at one place, one begins the other
        rcases List.prefix_or_prefix_of_prefix hxw (w.prefix_append _) with h | h
        · rw [hx, hfree x hmem w hw h]
        · rw [hx, hfree w hw x hmem h]
      simp only [dropWords, hfind, List.drop_left]
      refine ih hws ?_
      simp only [List.length_append] at hfuel ⊢
      omega

/-- From 80 on a byte is the number of a character of two bytes. -/
theorem encode_ofNat : ∀ b : Byte, encode (Char.ofNat b.val) =
    if b < 128 then [b] else [if b < 192 then 0xc2 else 0xc3, 128 + b % 64] := by
  decide

theorem nil_notMem_spaces : [] ∉ spaces := by decide

theorem spaces_prefix_free : ∀ a ∈ spaces, ∀ b ∈ spaces, a <+: b → a = b := by decide

theorem spaces_suffix_free : ∀ a ∈ spaces, ∀ b ∈ spaces, a <:+ b → a = b := by decide

/-- A text whose first and last byte neither begin nor end white space: it is what trimming
leaves of it. -/
structure Solid (t : Bytes) : Prop where
  nonempty : t ≠ []
  head : ∀ c ∈ t.head?, ∀ w ∈ spaces, w.head? ≠ some c
  last : ∀ c ∈ t.getLast?, ∀ w ∈ spaces, w.getLast? ≠ some c

theorem not_prefix_of_head {w t : Bytes} (hw : w ≠ []) (ht : t ≠ [])
    (hhead : ∀ c ∈ t.head?, w.head? ≠ some c) (r : Bytes) : ¬ w <+: t ++ r := by
  obtain ⟨c, w, rfl⟩ := List.exists_cons_of_ne_nil hw
  obtain ⟨d, t, rfl⟩ := List.exists_cons_of_ne_nil ht
  rintro ⟨x, hx⟩
  obtain ⟨rfl, -⟩ := List.cons.inj hx
  exact hhead c rfl rfl

theorem trimLeft_append {w t : Bytes} (hw : Blank w) (ht : Solid t) (r : Bytes) :
    trimLeft (w ++ t ++ r) = t ++ r := by
  obtain ⟨ws, hws, rfl⟩ := hw
  rw [trimLeft, List.append_assoc]
  refine dropWords_flatten nil_notMem_spaces spaces_prefix_free (fun x hx => ?_) hws le_rfl
  exact not_prefix_of_head (fun h => nil_notMem_spaces (h ▸ hx)) ht.nonempty
    (fun c hc => ht.head c hc x hx) r

theorem trimRight_append {w t : Bytes} (hw : Blank w) (ht : Solid t) :
    trimRight (t ++ w) = t := by
  obtain ⟨ws, hws, rfl⟩ := hw
  have hrev : (t ++ ws.flatten).reverse = (ws.map List.reverse).reverse.flatten ++ t.reverse := by
    rw [List.reverse_append, List.reverse_flatten]
  rw [trimRight, hrev, dropWords_flatten, List.reverse_reverse]
  · simpa using nil_notMem_spaces
  · simp only [List.forall_mem_map, List.reverse_prefix]
    exact fun a ha b hb h => congrArg List.reverse (spaces_suffix_free a ha b hb h)
  · simp only [List.forall_mem_map]
    intro x hx
    have hne : x.reverse ≠ [] := fun h => nil_notMem_spaces (List.reverse_eq_nil_iff.mp h ▸ hx)
    have hlast : ∀ c ∈ t.reverse.head?, x.reverse.head? ≠ some c := by
      simpa using fun c hc => ht.last c hc x hx
    have h := not_prefix_of_head hne (List.reverse_ne_nil_iff.mpr ht.nonempty) hlast []
    rwa [List.append_nil] at h
  · intro x hx
    obtain ⟨y, hy, rfl⟩ := List.mem_map.mp (List.mem_reverse.mp hx)
    exact List.mem_map_of_mem (hws y hy)
  · rw [← hrev, List.length_reverse]

/-- Only the white space at the ends comes off. -/
theorem trimSpace_append {w t w' : Bytes} (hw : Blank w) (ht : Solid t) (hw' : Blank w') :
    trimSpace (w ++ t ++ w') = t := by
  rw [trimSpace, trimLeft_append hw ht, trimRight_append hw' ht]

/-- What trimming takes off is white space. -/
theorem exists_trimSpace (s : Bytes) :
    ∃ w w', Blank w ∧ Blank w' ∧ s = w ++ trimSpace s ++ w' := by
  obtain ⟨ws, hws, hleft⟩ := exists_dropWords spaces s.length s
  obtain ⟨vs, hvs, hright⟩ := exists_dropWords (spaces.map List.reverse) (trimLeft s).length
    (trimLeft s).reverse
  have htrim : trimLeft s = trimSpace s ++ (vs.map List.reverse).reverse.flatten := by
    have h := congrArg List.reverse hright
    rw [List.reverse_reverse, List.reverse_append, List.reverse_flatten] at h
    rw [h, trimSpace, trimRight]
  refine ⟨ws.flatten, (vs.map List.reverse).reverse.flatten, ⟨ws, hws, rfl⟩, ⟨_, ?_, rfl⟩, ?_⟩
  · simp only [List.mem_reverse, List.forall_mem_map]
    intro v hv
    obtain ⟨x, hx, rfl⟩ := List.mem_map.mp (hvs v hv)
    rwa [List.reverse_reverse]
  · rw [List.append_assoc, ← htrim]
    exact hleft

/-! ### Searching -/

theorem eq_of_cut {pattern s before after : Bytes} (h : cut pattern s = some (before, after)) :
    s = before ++ pattern ++ after := by
  induction s generalizing before with
  | nil =>
    rw [cut] at h
    split_ifs at h with hp
    obtain ⟨rfl, rfl⟩ := Prod.mk.inj (Option.some.inj h)
    simp [hp]
  | cons c s ih =>
    rw [cut] at h
    split_ifs at h with hp
    · obtain ⟨rfl, rfl⟩ := Prod.mk.inj (Option.some.inj h)
      obtain ⟨r, hr⟩ := List.isPrefixOf_iff_prefix.mp hp
      rw [← hr, List.drop_left, List.nil_append]
    · obtain ⟨⟨before', after'⟩, hcut, heq⟩ := Option.map_eq_some_iff.mp h
      obtain ⟨rfl, rfl⟩ := Prod.mk.inj heq
      rw [ih hcut]
      rfl

/-- Every occurrence of a pattern is found, or one before it. -/
theorem isSome_cut {pattern : Bytes} (before after : Bytes) :
    (cut pattern (before ++ pattern ++ after)).isSome = true := by
  induction before with
  | nil =>
    cases h : pattern ++ after with
    | nil =>
      obtain ⟨rfl, rfl⟩ := List.append_eq_nil_iff.mp h
      rfl
    | cons c s =>
      have hp : pattern.isPrefixOf (c :: s) = true :=
        List.isPrefixOf_iff_prefix.mpr ⟨after, h⟩
      rw [List.nil_append, h, cut, if_pos hp]
      rfl
  | cons c before ih =>
    rw [List.cons_append, List.cons_append, cut]
    split_ifs
    · rfl
    · rwa [Option.isSome_map]

/-- What stands before the first occurrence of a byte does not hold it. -/
theorem notMem_of_cut {c : Byte} {s before after : Bytes} (h : cut [c] s = some (before, after)) :
    c ∉ before := by
  induction s generalizing before with
  | nil =>
    rw [cut, if_neg (List.cons_ne_nil c [])] at h
    nomatch h
  | cons d s ih =>
    rw [cut] at h
    split_ifs at h with hp
    · obtain ⟨rfl, -⟩ := Prod.mk.inj (Option.some.inj h)
      exact List.not_mem_nil
    · obtain ⟨⟨before', after'⟩, hcut, heq⟩ := Option.map_eq_some_iff.mp h
      obtain ⟨rfl, rfl⟩ := Prod.mk.inj heq
      have hne : c ≠ d := by
        rintro rfl
        exact hp (List.isPrefixOf_iff_prefix.mpr ⟨s, rfl⟩)
      exact List.not_mem_cons_of_ne_of_not_mem hne (ih hcut)

/-- A text is cut at a byte that its beginning does not hold. -/
theorem cut_append {c : Byte} {before : Bytes} (hc : c ∉ before) (after : Bytes) :
    cut [c] (before ++ [c] ++ after) = some (before, after) := by
  induction before with
  | nil =>
    have hp : [c].isPrefixOf (c :: after) = true := List.isPrefixOf_iff_prefix.mpr ⟨after, rfl⟩
    exact if_pos hp
  | cons d before ih =>
    obtain ⟨hne, hnotMem⟩ := List.ne_and_not_mem_of_not_mem_cons hc
    have hp : ¬ [c].isPrefixOf (d :: (before ++ [c] ++ after)) = true := fun h =>
      hne (List.cons_prefix_cons.mp (List.isPrefixOf_iff_prefix.mp h)).1
    rw [List.cons_append, List.cons_append, cut, if_neg hp, ih hnotMem]
    rfl

/-- A pattern that shares no byte with what a text begins with lies in the rest. -/
theorem infix_of_append {pattern w s : Bytes} (hne : pattern ≠ []) (hw : ∀ c ∈ pattern, c ∉ w)
    (h : pattern <:+: w ++ s) : pattern <:+: s := by
  induction w with
  | nil => exact h
  | cons d w ih =>
    rw [List.cons_append, List.infix_cons_iff] at h
    rcases h with hprefix | hinfix
    · obtain ⟨c, pattern, rfl⟩ := List.exists_cons_of_ne_nil hne
      have hhead := (List.cons_prefix_cons.mp hprefix).1
      exact absurd List.mem_cons_self (hhead ▸ hw c List.mem_cons_self)
    · exact ih (fun c hc hmem => hw c hc (List.mem_cons_of_mem d hmem)) hinfix

end Bytes
