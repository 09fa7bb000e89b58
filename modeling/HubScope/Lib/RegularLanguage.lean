import HubScope.Lib.Regexp
import Mathlib.Computability.Language

/-!
# The language of a regular expression

What an expression without look-arounds can take from a position is a word of its language,
wherever the position is. An expression between `^` and `$` therefore matches the texts of its
language and no others.

## Main definitions

* `Regexp.language` — the language of an expression, looks left out
* `Regexp.lookFree` — the expression has no look-around

## Main results

* `Regexp.exists_mem_ends_iff` — what can be taken from a position
* `Regexp.isSome_find_anchored_iff` — the texts that an anchored expression matches
-/

set_option autoImplicit false

namespace Regexp

open Computability

variable {α : Type*} {r : Regexp α} {c : Cursor α} {rest : List α}

/-- The language of an expression. A look takes nothing. -/
def language : Regexp α → Language α
  | empty | look _ => 1
  | symbol p => {u | ∃ x, p x = true ∧ u = [x]}
  | seq r s => language r * language s
  | alt r s => language r + language s
  | star r => (language r)∗
  | group r => language r

/-- The expression has no look-around. -/
def lookFree : Regexp α → Bool
  | empty | symbol _ => true
  | look _ => false
  | seq r s | alt r s => lookFree r && lookFree s
  | star r | group r => lookFree r

/-- The rounds of a repetition take words, each of which takes something. -/
theorem exists_mem_starEnds_iff {l : Language α} {ends : Cursor α → List (Cursor α)}
    (hends : ∀ c rest, (∃ d ∈ ends c, d.ahead = rest) ↔ ∃ u ∈ l, c.ahead = u ++ rest)
    (fuel : ℕ) (c : Cursor α) (rest : List α) : (∃ d ∈ starEnds ends fuel c, d.ahead = rest) ↔
      ∃ ws : List (List α), (∀ w ∈ ws, w ∈ l ∧ w ≠ []) ∧ ws.length ≤ fuel ∧
        c.ahead = ws.flatten ++ rest := by
  induction fuel generalizing c with
  | zero =>
    constructor
    · rintro ⟨d, hd, rfl⟩
      exact ⟨[], by simp, le_rfl, by rw [List.mem_singleton.mp hd]; rfl⟩
    · rintro ⟨ws, -, hlen, hahead⟩
      obtain rfl := List.length_eq_zero_iff.mp (Nat.le_zero.mp hlen)
      exact ⟨c, List.mem_singleton_self c, hahead⟩
  | succ fuel ih =>
    constructor
    · rintro ⟨d, hd, rfl⟩
      rcases List.mem_append.mp hd with hd | hd
      · obtain ⟨m, hm, hd⟩ := List.mem_flatMap.mp hd
        obtain ⟨hm, hlt⟩ := List.mem_filter.mp hm
        obtain ⟨w, hw, hround⟩ := (hends c m.ahead).mp ⟨m, hm, rfl⟩
        obtain ⟨ws, hws, hlen, hrest⟩ := (ih m).mp ⟨d, hd, rfl⟩
        have hne : w ≠ [] := by
          rintro rfl
          simp [hround] at hlt
        refine ⟨w :: ws, List.forall_mem_cons.mpr ⟨⟨hw, hne⟩, hws⟩,
          Nat.succ_le_succ hlen, ?_⟩
        rw [hround, hrest, List.flatten_cons, List.append_assoc]
      · exact ⟨[], by simp, Nat.zero_le _, by rw [List.mem_singleton.mp hd]; rfl⟩
    · rintro ⟨ws, hws, hlen, hahead⟩
      cases ws with
      | nil => exact ⟨c, List.mem_append_right _ (List.mem_singleton_self c), hahead⟩
      | cons w ws =>
        obtain ⟨⟨hw, hne⟩, hws⟩ := List.forall_mem_cons.mp hws
        rw [List.flatten_cons, List.append_assoc] at hahead
        obtain ⟨m, hm, hround⟩ := (hends c _).mpr ⟨w, hw, hahead⟩
        obtain ⟨d, hd, hrest⟩ := (ih m).mpr ⟨ws, hws, Nat.le_of_succ_le_succ hlen, hround⟩
        refine ⟨d, List.mem_append_left _ (List.mem_flatMap.mpr ⟨m, ?_, hd⟩), hrest⟩
        refine List.mem_filter.mpr ⟨hm, ?_⟩
        have hpos := List.length_pos_iff.mpr hne
        have hlen := congrArg List.length hahead
        rw [List.length_append] at hlen
        rw [decide_eq_true_iff, hround]
        omega

/-- Nonempty words are at most as many as the symbols they have. -/
theorem length_le_length_flatten {ws : List (List α)} (hws : ∀ w ∈ ws, w ≠ []) :
    ws.length ≤ ws.flatten.length := by
  induction ws with
  | nil => exact Nat.zero_le _
  | cons w ws ih =>
    obtain ⟨hw, hws⟩ := List.forall_mem_cons.mp hws
    have hpos := List.length_pos_iff.mpr hw
    have hrest := ih hws
    rw [List.flatten_cons, List.length_append, List.length_cons]
    omega

/-- **What can be taken** from a position are the words of the language. -/
theorem exists_mem_ends_iff (hr : r.lookFree = true) (c : Cursor α) (rest : List α) :
    (∃ d ∈ ends r c, d.ahead = rest) ↔ ∃ u ∈ r.language, c.ahead = u ++ rest := by
  induction r generalizing c rest with
  | empty => simp [language, Language.mem_one]
  | symbol p =>
    constructor
    · rintro ⟨d, hd, rfl⟩
      obtain ⟨x, hx, hcons⟩ := ahead_of_symbol hd
      exact ⟨[x], ⟨x, hx, rfl⟩, hcons⟩
    · rintro ⟨u, ⟨x, hx, rfl⟩, hcons⟩
      exact ⟨c.skip 1, mem_ends_symbol.mpr ⟨x, rest, hcons, hx, rfl⟩, by simp [hcons]⟩
  | look => cases hr
  | seq r s ihr ihs =>
    obtain ⟨hr, hs⟩ := Bool.and_eq_true_iff.mp hr
    constructor
    · rintro ⟨d, hd, rfl⟩
      obtain ⟨m, hm, hd⟩ := mem_ends_seq.mp hd
      obtain ⟨u, hu, hfirst⟩ := (ihr hr c m.ahead).mp ⟨m, hm, rfl⟩
      obtain ⟨v, hv, hsecond⟩ := (ihs hs m d.ahead).mp ⟨d, hd, rfl⟩
      refine ⟨u ++ v, Language.append_mem_mul hu hv, ?_⟩
      rw [hfirst, hsecond, List.append_assoc]
    · rintro ⟨w, hw, hahead⟩
      obtain ⟨u, hu, v, hv, rfl⟩ := Language.mem_mul.mp hw
      rw [List.append_assoc] at hahead
      obtain ⟨m, hm, hfirst⟩ := (ihr hr c _).mpr ⟨u, hu, hahead⟩
      obtain ⟨d, hd, hsecond⟩ := (ihs hs m rest).mpr ⟨v, hv, hfirst⟩
      exact ⟨d, mem_ends_seq.mpr ⟨m, hm, hd⟩, hsecond⟩
  | alt r s ihr ihs =>
    obtain ⟨hr, hs⟩ := Bool.and_eq_true_iff.mp hr
    simp only [mem_ends_alt, or_and_right, exists_or, ihr hr, ihs hs, language,
      Language.mem_add]
  | star r ih =>
    refine (exists_mem_starEnds_iff (ih hr) c.ahead.length c rest).trans ?_
    constructor
    · rintro ⟨ws, hws, -, hahead⟩
      exact ⟨ws.flatten, Language.join_mem_kstar fun w hw => (hws w hw).1, hahead⟩
    · rintro ⟨u, hu, hahead⟩
      obtain ⟨ws, rfl, hws⟩ := Language.mem_kstar_iff_exists_nonempty.mp hu
      refine ⟨ws, hws, ?_, hahead⟩
      rw [hahead, List.length_append]
      exact (length_le_length_flatten fun w hw => (hws w hw).2).trans (Nat.le_add_right _ _)
  | group r ih =>
    refine Iff.trans ⟨?_, ?_⟩ (ih hr c rest)
    · rintro ⟨d, hd, rfl⟩
      obtain ⟨m, hm, rfl⟩ := mem_ends_group.mp hd
      exact ⟨m, hm, rfl⟩
    · rintro ⟨m, hm, hrest⟩
      exact ⟨_, mem_ends_group.mpr ⟨m, hm, rfl⟩, hrest⟩

/-! ### Anchored expressions -/

/-- An expression between `^` and `$`. -/
def anchored (r : Regexp α) : Regexp α := cat [bol, r, eol]

theorem isSome_match_iff : (match? r c).isSome ↔ ∃ d, d ∈ ends r c := by
  rw [Option.isSome_iff_exists]
  constructor
  · rintro ⟨d, hd⟩
    exact ⟨d, List.mem_of_head? hd⟩
  · rintro ⟨d, hd⟩
    exact ⟨_, List.head?_eq_some_head (List.ne_nil_of_mem hd)⟩

/-- An expression is found in the next `n` positions if it matches at one of them. -/
theorem isSome_findFrom_iff {n : ℕ} :
    (findFrom r n c).isSome ↔ ∃ k ≤ n, (match? r (c.skip k)).isSome := by
  induction n generalizing c with
  | zero => simp [findFrom]
  | succ n ih =>
    rw [findFrom]
    split
    · rename_i d hd
      exact iff_of_true rfl ⟨0, Nat.zero_le _, by rw [skip_zero, hd]; rfl⟩
    · rename_i hnone
      rw [ih]
      constructor
      · rintro ⟨k, hk, hmatch⟩
        rw [skip_skip, Nat.add_comm] at hmatch
        exact ⟨k + 1, Nat.succ_le_succ hk, hmatch⟩
      · rintro ⟨k, hk, hmatch⟩
        cases k with
        | zero => simp [hnone] at hmatch
        | succ k =>
          refine ⟨k, Nat.le_of_succ_le_succ hk, ?_⟩
          rwa [skip_skip, Nat.add_comm]

theorem isSome_match_anchored_iff (hr : r.lookFree = true) :
    (match? (anchored r) c).isSome ↔ c.behind = [] ∧ c.ahead ∈ r.language := by
  have htake := exists_mem_ends_iff hr c []
  simp only [List.append_nil, exists_eq_right'] at htake
  rw [isSome_match_iff, ← htake, anchored]
  simp only [mem_ends_cat_cons, mem_ends_cat_nil, mem_ends_bol, mem_ends_eol]
  constructor
  · rintro ⟨_, _, ⟨hbehind, rfl⟩, m, hm, _, ⟨hahead, rfl⟩, rfl⟩
    exact ⟨hbehind, _, hm, hahead⟩
  · rintro ⟨hbehind, d, hd, hahead⟩
    exact ⟨d, c, ⟨hbehind, rfl⟩, d, hd, d, ⟨hahead, rfl⟩, rfl⟩

/-- **An anchored expression matches the texts of its language.** -/
theorem isSome_find_anchored_iff (hr : r.lookFree = true) (text : List α) :
    (find? (anchored r) text).isSome ↔ text ∈ r.language := by
  rw [find?, isSome_findFrom_iff]
  constructor
  · rintro ⟨k, hk, hmatch⟩
    obtain ⟨hbehind, hahead⟩ := (isSome_match_anchored_iff hr).mp hmatch
    -- Past the first position there is text behind.
    have hzero : k = 0 := by
      have hlen := congrArg List.length hbehind
      simp only [Cursor.skip, Cursor.start, List.append_nil, List.length_reverse,
        List.length_take, List.length_nil] at hlen
      omega
    rwa [hzero, skip_zero] at hahead
  · intro htext
    refine ⟨0, Nat.zero_le _, ?_⟩
    rw [skip_zero, isSome_match_anchored_iff hr]
    exact ⟨rfl, htext⟩

/-! ### The languages of the constructors -/

theorem mem_language_lit [DecidableEq α] {x : α} {u : List α} :
    u ∈ (lit x).language ↔ u = [x] := by
  constructor
  · rintro ⟨y, hy, rfl⟩
    rw [of_decide_eq_true hy]
  · rintro rfl
    exact ⟨x, decide_eq_true rfl, rfl⟩

@[simp] theorem mem_language_word [DecidableEq α] {w u : List α} :
    u ∈ (word w).language ↔ u = w := by
  induction w generalizing u with
  | nil => rfl
  | cons x w ih =>
    constructor
    · intro hu
      obtain ⟨a, ha, b, hb, rfl⟩ := Language.mem_mul.mp hu
      rw [mem_language_lit.mp ha, ih.mp hb]
      rfl
    · rintro rfl
      exact Language.append_mem_mul (mem_language_lit.mpr rfl) (ih.mpr rfl)

theorem mem_language_opt {u : List α} : u ∈ (opt r).language ↔ u ∈ r.language ∨ u = [] :=
  Language.mem_add _ _ _

theorem mem_language_star_symbol {p : α → Bool} {u : List α} :
    u ∈ (star (symbol p)).language ↔ ∀ x ∈ u, p x = true := by
  rw [language, Language.mem_kstar]
  constructor
  · rintro ⟨ws, rfl, hws⟩ x hx
    obtain ⟨w, hw, hx⟩ := List.mem_flatten.mp hx
    obtain ⟨y, hy, rfl⟩ := hws w hw
    rwa [List.mem_singleton.mp hx]
  · intro hu
    refine ⟨u.map fun x => [x], ?_, ?_⟩
    · rw [← List.flatMap_def, List.flatMap_singleton']
    · intro w hw
      obtain ⟨x, hx, rfl⟩ := List.mem_map.mp hw
      exact ⟨x, hu x hx, rfl⟩

/-! ### What the words are made of -/

/-- The symbols an expression can take. -/
def symbols : Regexp α → α → Bool
  | empty, _ | look _, _ => false
  | symbol p, x => p x
  | seq r s, x | alt r s, x => symbols r x || symbols s x
  | star r, x | group r, x => symbols r x

theorem symbols_of_mem_language {u : List α} (hu : u ∈ r.language) : ∀ x ∈ u, symbols r x = true := by
  induction r generalizing u with
  | empty | look =>
    obtain rfl := Language.mem_one u |>.mp hu
    simp
  | symbol p =>
    obtain ⟨x, hx, rfl⟩ := hu
    simpa [symbols] using hx
  | seq r s ihr ihs =>
    obtain ⟨a, ha, b, hb, rfl⟩ := Language.mem_mul.mp hu
    intro x hx
    rcases List.mem_append.mp hx with hx | hx
    · exact Bool.or_eq_true_iff.mpr (Or.inl (ihr ha x hx))
    · exact Bool.or_eq_true_iff.mpr (Or.inr (ihs hb x hx))
  | alt r s ihr ihs =>
    intro x hx
    rcases (Language.mem_add _ _ _).mp hu with hu | hu
    · exact Bool.or_eq_true_iff.mpr (Or.inl (ihr hu x hx))
    · exact Bool.or_eq_true_iff.mpr (Or.inr (ihs hu x hx))
  | star r ih =>
    obtain ⟨ws, rfl, hws⟩ := Language.mem_kstar.mp hu
    intro x hx
    obtain ⟨w, hw, hx⟩ := List.mem_flatten.mp hx
    exact ih (hws w hw) x hx
  | group r ih => exact ih hu

/-! ### Prefix-free languages -/

variable {l m : Language α} {p : α → Bool} {u v s t : List α}

/-- No word goes on to another one. -/
def PrefixFree (l : Language α) : Prop := ∀ ⦃u⦄, u ∈ l → ∀ ⦃v⦄, v ∈ l → u <+: v → u = v

/-- At most one word of a prefix-free language begins a text. -/
theorem PrefixFree.eq (hl : PrefixFree l) (hu : u ∈ l) (hv : v ∈ l) (h : u ++ s = v ++ t) :
    u = v := by
  rcases List.prefix_or_prefix_of_prefix (List.prefix_append u s) (h ▸ List.prefix_append v t) with
    huv | hvu
  · exact hl hu hv huv
  · exact (hl hv hu hvu).symm

theorem prefixFree_one : PrefixFree (1 : Language α) := by
  rintro u hu v hv -
  rw [(Language.mem_one u).mp hu, (Language.mem_one v).mp hv]

theorem prefixFree_symbol : PrefixFree (symbol p).language := by
  rintro _ ⟨x, -, rfl⟩ _ ⟨y, -, rfl⟩ h
  exact h.eq_of_length rfl

theorem PrefixFree.mul (hl : PrefixFree l) (hm : PrefixFree m) : PrefixFree (l * m) := by
  rintro _ ⟨a, ha, b, hb, rfl⟩ _ ⟨a', ha', b', hb', rfl⟩ ⟨t, ht⟩
  simp only [List.append_assoc] at ht
  obtain rfl := hl.eq ha ha' ht
  rw [hm hb hb' ⟨t, List.append_cancel_left ht⟩]

theorem prefixFree_cat {rs : List (Regexp α)} (h : ∀ r ∈ rs, PrefixFree r.language) :
    PrefixFree (cat rs).language := by
  induction rs with
  | nil => exact prefixFree_one
  | cons r rs ih =>
    obtain ⟨hr, hrs⟩ := List.forall_mem_cons.mp h
    exact hr.mul (ih hrs)

/-- Every word starts with a symbol of the class. -/
def Starts (p : α → Bool) (l : Language α) : Prop := ∀ ⦃u⦄, u ∈ l → ∃ x ∈ u.head?, p x = true

theorem starts_symbol {q : α → Bool} (h : ∀ x, q x = true → p x = true) :
    Starts p (symbol q).language := by
  rintro _ ⟨x, hx, rfl⟩
  exact ⟨x, rfl, h x hx⟩

theorem Starts.mul (hl : Starts p l) : Starts p (l * m) := by
  rintro _ ⟨a, ha, b, -, rfl⟩
  obtain ⟨x, hx, hp⟩ := hl ha
  exact ⟨x, by simp [List.head?_append, Option.mem_def.mp hx], hp⟩

/-- A run of symbols of a class ends where a word starts outside it. -/
theorem takeWhile_append_of_starts (hu : ∀ x ∈ u, p x = true)
    (hv : ∃ x ∈ v.head?, (!p x) = true) : (u ++ v ++ t).takeWhile p = u := by
  obtain ⟨x, hx, hp⟩ := hv
  obtain ⟨rest, rfl⟩ := List.head?_eq_some_iff.mp hx
  rw [List.append_assoc, List.takeWhile_append_of_pos hu, List.cons_append,
    List.takeWhile_cons_of_neg (by simpa using hp), List.append_nil]

/-- Runs of symbols of a class, then words that start outside it. -/
theorem PrefixFree.run_mul (hl : ∀ u ∈ l, ∀ x ∈ u, p x = true) (hm : PrefixFree m)
    (hstarts : Starts (!p ·) m) : PrefixFree (l * m) := by
  rintro _ ⟨a, ha, b, hb, rfl⟩ _ ⟨a', ha', b', hb', rfl⟩ ⟨t, ht⟩
  have hrun := takeWhile_append_of_starts (t := t) (hl a ha) (hstarts hb)
  have hrun' := takeWhile_append_of_starts (t := []) (hl a' ha') (hstarts hb')
  simp only [List.append_assoc, List.append_nil] at hrun hrun' ht
  obtain rfl : a = a' := by rw [← hrun, ← hrun', ht]
  rw [hm hb hb' ⟨t, List.append_cancel_left ht⟩]

theorem PrefixFree.add (hl : PrefixFree l) (hm : PrefixFree m) (hstarts : Starts p l)
    (hstarts' : Starts (!p ·) m) : PrefixFree (l + m) := by
  have hdisjoint : ∀ u ∈ l, ∀ v ∈ m, ∀ s t, u ++ s ≠ v ++ t := by
    intro u hu v hv s t h
    obtain ⟨x, hx, hp⟩ := hstarts hu
    obtain ⟨y, hy, hq⟩ := hstarts' hv
    have hhead := congrArg List.head? h
    simp only [List.head?_append, Option.mem_def.mp hx, Option.mem_def.mp hy, Option.some_or,
      Option.some.injEq] at hhead
    subst hhead
    simp [hp] at hq
  intro u hu v hv ⟨t, ht⟩
  rcases (Language.mem_add _ _ _).mp hu with hu | hu <;>
    rcases (Language.mem_add _ _ _).mp hv with hv | hv
  · exact hl hu hv ⟨t, ht⟩
  · exact absurd (ht.trans (List.append_nil v).symm) (hdisjoint u hu v hv _ _)
  · exact absurd ((List.append_nil v).trans ht.symm) (hdisjoint v hv u hu _ _)
  · exact hm hu hv ⟨t, ht⟩

end Regexp
