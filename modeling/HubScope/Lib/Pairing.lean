import Mathlib.Data.List.Nodup
import Mathlib.Data.List.Pairwise
import Mathlib.Order.WellFoundedSet

/-!
# Closing in the order of opening

A scan keeps the open elements in a queue, and each closing element closes the one that has
been open longest. If every closing element that comes is the first after the one it closes,
and elements that were opened twice stay open, then the queue never holds an element over from
an earlier round to a later one.

## Main definitions

* `Pairing.pairs`, `Pairing.left` — what a scan closes and what it leaves open
* `Pairing.Relapse` — two elements opened without a closing one between them, and two closing
  ones after them

## Main results

* `Pairing.map_fst_pairs_append` — elements are closed in the order they were opened
* `Pairing.mem_pairs_iff` — what is closed by what
* `Pairing.sound_iff` — when each closing element is the first after the one it closes
-/

set_option autoImplicit false

namespace Pairing

variable {α : Type*} {opener : α → Bool} {q xs ys : List α} {c d r : α}

/-- What a scan closes, with what, from the open elements `q`. -/
def pairs (opener : α → Bool) : List α → List α → List (α × α)
  | _, [] => []
  | q, x :: xs =>
    if opener x then pairs opener (q ++ [x]) xs
    else (q.head?.map fun d => (d, x)).toList ++ pairs opener q.tail xs

/-- What a scan leaves open. -/
def left (opener : α → Bool) : List α → List α → List α
  | q, [] => q
  | q, x :: xs =>
    if opener x then left opener (q ++ [x]) xs
    else left opener q.tail xs

theorem pairs_append (opener : α → Bool) (q xs ys : List α) :
    pairs opener q (xs ++ ys) = pairs opener q xs ++ pairs opener (left opener q xs) ys := by
  induction xs generalizing q with
  | nil => rfl
  | cons x xs ih =>
    rw [List.cons_append, pairs, pairs, left]
    split_ifs with hx
    · exact ih _
    · rw [ih, List.append_assoc]

/-- **First in, first out.** Elements are closed in the order they were opened. -/
theorem map_fst_pairs_append (opener : α → Bool) (q xs : List α) :
    (pairs opener q xs).map Prod.fst ++ left opener q xs = q ++ xs.filter opener := by
  induction xs generalizing q with
  | nil => simp [pairs, left]
  | cons x xs ih =>
    rw [pairs, left]
    split_ifs with hx
    · rw [ih, List.filter_cons_of_pos hx, List.append_assoc, List.singleton_append]
    · rw [List.filter_cons_of_neg hx, List.map_append, List.append_assoc, ih]
      cases q with
      | nil => rfl
      | cons d q => rfl

theorem mem_of_mem_left (h : d ∈ left opener [] xs) : d ∈ xs := by
  have hopener : d ∈ xs.filter opener := by
    rw [← List.nil_append (xs.filter opener), ← map_fst_pairs_append]
    exact List.mem_append_right _ h
  exact (List.mem_filter.mp hopener).1

/-- Closing elements close once each, in their order. -/
theorem map_snd_pairs_sublist (opener : α → Bool) (q xs : List α) :
    ((pairs opener q xs).map Prod.snd).Sublist (xs.filter fun x => !opener x) := by
  induction xs generalizing q with
  | nil => exact List.Sublist.refl _
  | cons x xs ih =>
    rw [pairs]
    split_ifs with hx
    · rw [List.filter_cons_of_neg (by simpa using hx)]
      exact ih _
    · rw [List.filter_cons_of_pos (by simpa using hx)]
      cases q with
      | nil => exact (ih []).cons x
      | cons d q => exact (ih q).cons_cons x

/-- **Closing.** An element is closed by the closing element that finds it in front. -/
theorem mem_pairs_iff : (d, r) ∈ pairs opener q xs ↔
    ∃ before after rest, xs = before ++ r :: after ∧ opener r = false ∧
      left opener q before = d :: rest := by
  constructor
  · intro h
    induction xs generalizing q with
    | nil => cases h
    | cons x xs ih =>
      rw [pairs] at h
      split_ifs at h with hx
      · obtain ⟨before, after, rest, rfl, hr, hleft⟩ := ih h
        refine ⟨x :: before, after, rest, rfl, hr, ?_⟩
        rw [left, if_pos hx, hleft]
      · rcases List.mem_append.mp h with hhead | h
        · -- the element in front is closed here
          cases q with
          | nil => cases hhead
          | cons e q =>
            obtain ⟨rfl, rfl⟩ := Prod.mk.inj (List.mem_singleton.mp hhead)
            exact ⟨[], xs, q, rfl, by simpa using hx, rfl⟩
        · obtain ⟨before, after, rest, rfl, hr, hleft⟩ := ih h
          refine ⟨x :: before, after, rest, rfl, hr, ?_⟩
          rw [left, if_neg hx, hleft]
  · rintro ⟨before, after, rest, rfl, hr, hleft⟩
    rw [pairs_append, hleft, pairs, if_neg (by simp [hr])]
    exact List.mem_append_right _ List.mem_cons_self

section Sorted

variable {lt : α → α → Prop} [IsStrictOrder α lt]

omit [IsStrictOrder α lt] in
/-- Of two elements of a sorted list one comes first. -/
theorem lt_or_lt_of_mem (h : xs.Pairwise lt) (hc : c ∈ xs) (hd : d ∈ xs) (hne : c ≠ d) :
    lt c d ∨ lt d c := by
  have hsymm : Std.Symm fun a b : α => lt a b ∨ lt b a := ⟨fun _ _ => Or.symm⟩
  exact (h.imp Or.inl : xs.Pairwise fun a b => lt a b ∨ lt b a).forall hc hd hne

theorem mem_of_lt_of_eq_append {before after : List α} (h : (before ++ r :: after).Pairwise lt)
    (hc : c ∈ before ++ r :: after) (hlt : lt c r) : c ∈ before := by
  obtain ⟨-, hrest, -⟩ := List.pairwise_append.mp h
  rcases List.mem_append.mp hc with hc | hc
  · exact hc
  · rcases List.mem_cons.mp hc with rfl | hc
    · exact absurd hlt (irrefl_of lt c)
    · exact absurd hlt (asymm_of lt ((List.pairwise_cons.mp hrest).1 c hc))

theorem filter_pairs_nodup (opener : α → Bool) (h : xs.Pairwise lt) :
    ((pairs opener [] xs).map Prod.fst ++ left opener [] xs).Nodup := by
  rw [map_fst_pairs_append, List.nil_append]
  exact (h.imp fun hlt => ne_of_irrefl hlt).filter _

/-- What is left open at some point was open before it, unless it was opened after. -/
theorem mem_left_of_append {before after : List α} (h : (before ++ after).Pairwise lt)
    (hd : d ∈ left opener [] (before ++ after)) (hbefore : d ∈ before) :
    d ∈ left opener [] before := by
  have hnodup := filter_pairs_nodup opener h
  have hopener : d ∈ (before ++ after).filter opener := by
    rw [← List.nil_append ((before ++ after).filter opener), ← map_fst_pairs_append]
    exact List.mem_append_right _ hd
  have hmem : d ∈ (pairs opener [] before).map Prod.fst ++ left opener [] before := by
    rw [map_fst_pairs_append, List.nil_append]
    exact List.mem_filter.mpr ⟨hbefore, (List.mem_filter.mp hopener).2⟩
  rcases List.mem_append.mp hmem with hclosed | hleft
  · -- an element that was closed is not open again
    rw [pairs_append, List.map_append] at hnodup
    have hdisjoint := (List.nodup_append.mp hnodup).2.2 d (List.mem_append_left _ hclosed) d hd
    exact absurd rfl hdisjoint
  · exact hleft

omit [IsStrictOrder α lt] in
theorem pairwise_left (opener : α → Bool) (h : xs.Pairwise lt) :
    (left opener [] xs).Pairwise lt := by
  have hsub : (left opener [] xs).Sublist (xs.filter opener) := by
    rw [← List.nil_append (xs.filter opener), ← map_fst_pairs_append]
    exact List.sublist_append_right ..
  exact h.sublist (hsub.trans List.filter_sublist)

omit [IsStrictOrder α lt] in
/-- Where an element is open a closing element closes it or one that was opened before. -/
theorem exists_pair_of_open {before after : List α} (h : xs.Pairwise lt)
    (heq : xs = before ++ c :: after) (hc : opener c = false) (hd : d ∈ left opener [] before) :
    ∃ e, (e, c) ∈ pairs opener [] xs ∧ (e = d ∨ lt e d) := by
  cases hleft : left opener [] before with
  | nil =>
    rw [hleft] at hd
    cases hd
  | cons e rest =>
    refine ⟨e, mem_pairs_iff.mpr ⟨before, after, rest, heq, hc, hleft⟩, ?_⟩
    rw [heq] at h
    have hsorted := pairwise_left opener (List.pairwise_append.mp h).1
    rw [hleft] at hsorted hd
    rcases List.mem_cons.mp hd with rfl | hd
    · exact Or.inl rfl
    · exact Or.inr ((List.pairwise_cons.mp hsorted).1 d hd)

omit [IsStrictOrder α lt] in
/-- A pair is an open element and a later closing one. -/
theorem pair_spec (h : xs.Pairwise lt) (hpair : (d, r) ∈ pairs opener [] xs) :
    d ∈ xs ∧ r ∈ xs ∧ opener d = true ∧ opener r = false ∧ lt d r := by
  obtain ⟨before, after, rest, rfl, hr, hleft⟩ := mem_pairs_iff.mp hpair
  have hd : d ∈ before.filter opener := by
    rw [← List.nil_append (before.filter opener), ← map_fst_pairs_append, hleft]
    exact List.mem_append_right _ List.mem_cons_self
  obtain ⟨hmem, hopener⟩ := List.mem_filter.mp hd
  have hlt := (List.pairwise_append.mp h).2.2 d hmem r List.mem_cons_self
  exact ⟨List.mem_append_left _ hmem, List.mem_append_right _ List.mem_cons_self, hopener, hr, hlt⟩

/-- An element is closed once. -/
theorem closer_unique (h : xs.Pairwise lt) (hr : (d, r) ∈ pairs opener [] xs)
    (hc : (d, c) ∈ pairs opener [] xs) : r = c := by
  have hnodup := (List.nodup_append.mp (filter_pairs_nodup opener h)).1
  exact congrArg Prod.snd (List.inj_on_of_nodup_map hnodup hr hc rfl)

/-- A closing element closes once. -/
theorem closed_unique (h : xs.Pairwise lt) (hd : (d, r) ∈ pairs opener [] xs)
    (hc : (c, r) ∈ pairs opener [] xs) : d = c := by
  have hnodup : ((pairs opener [] xs).map Prod.snd).Nodup :=
    ((h.imp fun hlt => ne_of_irrefl hlt).filter _).sublist (map_snd_pairs_sublist opener [] xs)
  exact congrArg Prod.fst (List.inj_on_of_nodup_map hnodup hd hc rfl)

theorem mem_closed_or_left (hd : d ∈ xs) (hopener : opener d = true) :
    (∃ r, (d, r) ∈ pairs opener [] xs) ∨ d ∈ left opener [] xs := by
  have hmem : d ∈ (pairs opener [] xs).map Prod.fst ++ left opener [] xs := by
    rw [map_fst_pairs_append, List.nil_append]
    exact List.mem_filter.mpr ⟨hd, hopener⟩
  rcases List.mem_append.mp hmem with hclosed | hleft
  · obtain ⟨⟨e, r⟩, hpair, rfl⟩ := List.mem_map.mp hclosed
    exact Or.inl ⟨r, hpair⟩
  · exact Or.inr hleft

/-- What a closing element closed was open just before it. -/
theorem mem_left_of_closed_later {before after : List α} (h : xs.Pairwise lt)
    (heq : xs = before ++ c :: after) (hpair : (d, r) ∈ pairs opener [] xs) (hdc : lt d c)
    (hcr : lt c r) : d ∈ left opener [] before := by
  obtain ⟨hd, -, hopener, -, -⟩ := pair_spec h hpair
  rw [heq] at h hd hpair
  have hbefore := mem_of_lt_of_eq_append h hd hdc
  refine (mem_closed_or_left hbefore hopener).resolve_left ?_
  rintro ⟨e, he⟩
  -- a second closing element of `d`, before `c`
  have hclosed : (d, e) ∈ pairs opener [] (before ++ c :: after) := by
    rw [pairs_append]
    exact List.mem_append_left _ he
  obtain rfl := closer_unique h hpair hclosed
  have her := (pair_spec (List.pairwise_append.mp h).1 he).2.1
  exact asymm_of lt hcr ((List.pairwise_append.mp h).2.2 r her c List.mem_cons_self)

/-- Opened twice: `c` and then `d`, and no closing element between them. -/
def Repeated (lt : α → α → Prop) (opener : α → Bool) (xs : List α) (c d : α) : Prop :=
  c ∈ xs ∧ d ∈ xs ∧ opener c = true ∧ opener d = true ∧ lt c d ∧
    ∀ r ∈ xs, opener r = false → lt c r → ¬ lt r d

/-- Two elements opened without a closing one between them, and two closing ones after them. -/
def Relapse (lt : α → α → Prop) (opener : α → Bool) (xs : List α) : Prop :=
  ∃ c d, Repeated lt opener xs c d ∧
    ∃ r ∈ xs, ∃ s ∈ xs, opener r = false ∧ opener s = false ∧ lt d r ∧ lt r s

/-- The closing element is the first after the one it closes. -/
def First (lt : α → α → Prop) (opener : α → Bool) (xs : List α) (d r : α) : Prop :=
  ∀ s ∈ xs, opener s = false → lt d s → ¬ lt s r

/-- Without a relapse every closing element is the first after the one it closes. -/
theorem first_of_not_relapse (h : xs.Pairwise lt) (hno : ¬ Relapse lt opener xs)
    (hpair : (d, r) ∈ pairs opener [] xs) : First lt opener xs d r := by
  have hd := (pair_spec h hpair).1
  suffices hevery : ∀ r, (d, r) ∈ pairs opener [] xs → First lt opener xs d r from hevery r hpair
  -- by induction on the element that is closed, along the order of the list
  have hwf : {x | x ∈ xs}.WellFoundedOn lt := (List.finite_toSet xs).wellFoundedOn
  apply hwf.induction (P := fun d => ∀ r, (d, r) ∈ pairs opener [] xs → First lt opener xs d r) hd
  intro d hd ih r hpair s hs hcloser hds hsr
  obtain ⟨-, hr, hopener, hopen, -⟩ := pair_spec h hpair
  obtain ⟨before, after, rfl⟩ := List.append_of_mem hs
  have hleft := mem_left_of_closed_later h rfl hpair hds hsr
  -- `s` closed an element that was opened before `d`, and was the first to come after it
  obtain ⟨c, hc, heq | hcd⟩ := exists_pair_of_open h rfl hcloser hleft
  · rw [heq] at hc
    rw [closer_unique h hpair hc] at hsr
    exact irrefl_of lt s hsr
  · obtain ⟨hmem, -, hcopener, -, -⟩ := pair_spec h hc
    refine hno ⟨c, d, ⟨hmem, hd, hcopener, hopener, hcd, ?_⟩, s, hs, r, hr, hcloser, hopen, hds,
      hsr⟩
    intro e he hec hce hed
    exact ih c hmem hcd s hc e he hec hce (trans_of lt hed hds)

/-- Without a relapse an element that was opened twice stays open. -/
theorem mem_left_of_not_relapse (h : xs.Pairwise lt) (hno : ¬ Relapse lt opener xs)
    (hrep : Repeated lt opener xs c d) : d ∈ left opener [] xs := by
  obtain ⟨hc, hd, hcopener, hdopener, hcd, hbetween⟩ := id hrep
  refine (mem_closed_or_left hd hdopener).resolve_left ?_
  rintro ⟨s, hpair⟩
  obtain ⟨-, hs, -, hsopener, hds⟩ := pair_spec h hpair
  obtain ⟨before, after, rest, heq, -, hleft⟩ := mem_pairs_iff.mp hpair
  have hsorted := h
  rw [heq] at hsorted
  have hbefore : c ∈ before :=
    mem_of_lt_of_eq_append hsorted (heq ▸ hc) (trans_of lt hcd hds)
  rcases mem_closed_or_left hbefore hcopener with ⟨r, hr⟩ | hopen
  · -- `c` was closed before `d` was, by a closing element behind both
    have hclosed : (c, r) ∈ pairs opener [] xs := by
      rw [heq, pairs_append]
      exact List.mem_append_left _ hr
    obtain ⟨-, hmem, -, hropener, hcr⟩ := pair_spec h hclosed
    have hrs : lt r s := (List.pairwise_append.mp hsorted).2.2 r
      (pair_spec (List.pairwise_append.mp hsorted).1 hr).2.1 s List.mem_cons_self
    have hdr : lt d r := by
      have hne : d ≠ r := by
        rintro rfl
        rw [hdopener] at hropener
        cases hropener
      exact (lt_or_lt_of_mem h hd hmem hne).resolve_right (hbetween r hmem hropener hcr)
    exact hno ⟨c, d, hrep, r, hmem, s, hs, hropener, hsopener, hdr, hrs⟩
  · -- `c` cannot stand behind `d` in the queue
    have hqueue := pairwise_left opener (List.pairwise_append.mp hsorted).1
    rw [hleft] at hqueue hopen
    rcases List.mem_cons.mp hopen with rfl | hrest
    · exact irrefl_of lt c hcd
    · exact asymm_of lt hcd ((List.pairwise_cons.mp hqueue).1 c hrest)

/-- With a relapse a closing element takes an element over that was left open. -/
theorem not_first_of_relapse (h : xs.Pairwise lt) (hrelapse : Relapse lt opener xs)
    (hstays : ∀ c d, Repeated lt opener xs c d → d ∈ left opener [] xs) :
    ∃ d r, (d, r) ∈ pairs opener [] xs ∧ ¬ First lt opener xs d r := by
  obtain ⟨c, d, hrep, r, hr, s, hs, hropener, hsopener, hdr, hrs⟩ := hrelapse
  obtain ⟨before, after, heq⟩ := List.append_of_mem hs
  have hsorted := h
  rw [heq] at hsorted
  have hbefore : d ∈ before :=
    mem_of_lt_of_eq_append hsorted (heq ▸ hrep.2.1) (trans_of lt hdr hrs)
  have hopen : d ∈ left opener [] before :=
    mem_left_of_append hsorted (heq ▸ hstays c d hrep) hbefore
  obtain ⟨e, hpair, hed⟩ := exists_pair_of_open h heq hsopener hopen
  have her : lt e r := by
    rcases hed with rfl | hed
    · exact hdr
    · exact trans_of lt hed hdr
  exact ⟨e, s, hpair, fun hfirst => hfirst r hr hropener her hrs⟩

/-- **Holding over.** Every closing element is the first after the one it closes, and elements
that were opened twice stay open, exactly when there is no relapse. -/
theorem sound_iff (h : xs.Pairwise lt) :
    ((∀ d r, (d, r) ∈ pairs opener [] xs → First lt opener xs d r) ∧
      ∀ c d, Repeated lt opener xs c d → d ∈ left opener [] xs) ↔ ¬ Relapse lt opener xs := by
  constructor
  · rintro ⟨hfirst, hstays⟩ hrelapse
    obtain ⟨d, r, hpair, hnot⟩ := not_first_of_relapse h hrelapse hstays
    exact hnot (hfirst d r hpair)
  · intro hno
    exact ⟨fun _ _ => first_of_not_relapse h hno, fun _ _ => mem_left_of_not_relapse h hno⟩

end Sorted

end Pairing
