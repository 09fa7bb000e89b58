import Mathlib.Data.List.Sort
import Mathlib.Order.RelClasses

/-!
# Ranking by a strict weak order

A stable sort leaves elements that the order ties as they came. Under a strict weak order the
ranking therefore depends on the order of the input exactly when two elements are tied.

## Main definitions

* `Ranking.sortStable` — sort by a strict order, stably

## Main results

* `Ranking.isStrictWeakOrder_of_key` — an order by keys
* `Ranking.pairwise_sortStable` — a ranking is sorted
* `Ranking.sortStable_map` — a ranking by keys that a map keeps
* `Ranking.forall_perm_iff` — when a ranking does not depend on the order of its input
-/

set_option autoImplicit false

namespace Ranking

variable {α : Type*} {less : α → α → Prop} [DecidableRel less] {xs ys : List α} {a b c : α}

/-- Sort by `less`. What is tied stays in the order it came. -/
def sortStable (less : α → α → Prop) [DecidableRel less] (xs : List α) : List α :=
  xs.insertionSort fun a b => ¬ less b a

theorem perm_sortStable (xs : List α) : (sortStable less xs).Perm xs :=
  List.perm_insertionSort _ _

@[simp] theorem mem_sortStable : a ∈ sortStable less xs ↔ a ∈ xs :=
  (perm_sortStable xs).mem_iff

/-- Sorting commutes with a map that keeps the order. -/
theorem sortStable_map {β : Type*} {less' : β → β → Prop} [DecidableRel less'] (f : α → β)
    (h : ∀ a b, less' (f a) (f b) ↔ less a b) (xs : List α) :
    sortStable less' (xs.map f) = (sortStable less xs).map f := by
  rw [sortStable, sortStable]
  exact (List.map_insertionSort _ _ f xs fun a _ b _ => not_congr (h b a).symm).symm

section Weak

omit [DecidableRel less]

variable [IsStrictWeakOrder α less]

/-- What does not come after `b` comes before or at every `c` that does not come before `b`. -/
theorem not_less_trans (hab : ¬ less b a) (hbc : ¬ less c b) : ¬ less c a := by
  intro hca
  -- either is strictly before the other in one of the pairs, or both pairs are tied
  by_cases hlt : less a b
  · exact hbc (trans_of less hca hlt)
  · by_cases hlt' : less b c
    · exact hab (trans_of less hlt' hca)
    · exact (IsStrictWeakOrder.incomp_trans a b c ⟨hlt, hab⟩ ⟨hlt', hbc⟩).2 hca

omit [IsStrictWeakOrder α less] in
/-- A relation that compares keys of a linear order is a strict weak order. -/
theorem isStrictWeakOrder_of_key {κ : Type*} [LinearOrder κ] (key : α → κ)
    (h : ∀ a b, less a b ↔ key a < key b) : IsStrictWeakOrder α less where
  irrefl a hlt := lt_irrefl _ ((h a a).mp hlt)
  trans a b c hab hbc := (h a c).mpr (((h a b).mp hab).trans ((h b c).mp hbc))
  incomp_trans a b c := by
    simp only [h, not_lt]
    rintro ⟨hba, hab⟩ ⟨hcb, hbc⟩
    exact ⟨hcb.trans hba, hab.trans hbc⟩

instance total_not_less : Std.Total fun a b : α => ¬ less b a where
  total a b := by
    by_cases hba : less b a
    · exact Or.inr (asymm_of less hba)
    · exact Or.inl hba

instance isTrans_not_less : IsTrans α fun a b : α => ¬ less b a where
  trans _ _ _ hab hbc := not_less_trans hab hbc

end Weak

section Sorted

variable [IsStrictWeakOrder α less]

/-- No element of a ranking comes before one that stands ahead of it. -/
theorem pairwise_sortStable (xs : List α) : (sortStable less xs).Pairwise fun a b => ¬ less b a :=
  List.pairwise_insertionSort _ xs

/-- Elements of a kind that comes first stand ahead of the others. -/
theorem pairwise_of_first {first : α → Prop} (h : ∀ a b, first a → ¬ first b → less a b)
    (xs : List α) : (sortStable less xs).Pairwise fun a b => first b → first a := by
  apply (pairwise_sortStable xs).imp
  intro a b hab hb
  by_contra ha
  exact hab (h b a hb ha)

/-- Without ties a ranking does not depend on the order of its input. -/
theorem sortStable_eq_of_perm
    (hdistinct : ∀ a ∈ xs, ∀ b ∈ xs, a ≠ b → less a b ∨ less b a) (h : ys.Perm xs) :
    sortStable less ys = sortStable less xs := by
  have hperm : (sortStable less ys).Perm (sortStable less xs) :=
    ((perm_sortStable ys).trans h).trans (perm_sortStable xs).symm
  apply hperm.eq_of_pairwise _ (pairwise_sortStable ys) (pairwise_sortStable xs)
  intro a b ha hb hab hba
  by_contra hne
  have ha' : a ∈ xs := h.mem_iff.mp (mem_sortStable.mp ha)
  rcases hdistinct a ha' b (mem_sortStable.mp hb) hne with hlt | hlt
  · exact hba hlt
  · exact hab hlt

omit [IsStrictWeakOrder α less] in
/-- Elements that are tied keep their order. -/
theorem pair_sublist_sortStable (htied : ¬ less b a) (h : [a, b].Sublist xs) :
    [a, b].Sublist (sortStable less xs) :=
  List.pair_sublist_insertionSort htied h

/-- A list without duplicates has two elements in one order only. -/
theorem not_pair_sublist_of_nodup (hnodup : xs.Nodup) (h : [a, b].Sublist xs) :
    ¬ [b, a].Sublist xs := by
  intro h'
  induction xs with
  | nil => cases h
  | cons x xs ih =>
    obtain ⟨hx, hrest⟩ := List.nodup_cons.mp hnodup
    cases h with
    | cons _ h =>
      cases h' with
      | cons _ h' => exact ih hrest h h'
      | cons_cons _ h' => exact hx (h.subset (by simp))
    | cons_cons _ h =>
      cases h' with
      | cons _ h' => exact hx (h'.subset (by simp))
      | cons_cons _ h' => exact hx (h.subset (List.mem_singleton_self _))

/-- **Order of the input.** The ranking of distinct elements is the same for every order they
come in exactly when no two of them are tied. -/
theorem forall_perm_iff (hnodup : xs.Nodup) :
    (∀ ys : List α, ys.Perm xs → sortStable less ys = sortStable less xs) ↔
      ∀ a ∈ xs, ∀ b ∈ xs, a ≠ b → less a b ∨ less b a := by
  classical
  refine ⟨fun hevery a ha b hb hne => ?_, fun hdistinct ys h => sortStable_eq_of_perm hdistinct h⟩
  by_contra htied
  rw [not_or] at htied
  -- two inputs, with the tied elements in either order in front
  have hb' : b ∈ xs.erase a := (List.mem_erase_of_ne hne.symm).mpr hb
  have hfront : (a :: b :: (xs.erase a).erase b).Perm xs :=
    ((List.perm_cons_erase hb').symm.cons a).trans (List.perm_cons_erase ha).symm
  have hback : (b :: a :: (xs.erase a).erase b).Perm xs := (List.Perm.swap ..).trans hfront
  have hpair : ∀ (c d : α) (rest : List α), [c, d].Sublist (c :: d :: rest) := fun c d rest =>
    List.sublist_append_left [c, d] rest
  have hab := pair_sublist_sortStable htied.2 (hpair a b ((xs.erase a).erase b))
  have hba := pair_sublist_sortStable htied.1 (hpair b a ((xs.erase a).erase b))
  rw [hevery _ hfront] at hab
  rw [hevery _ hback] at hba
  exact not_pair_sublist_of_nodup ((perm_sortStable xs).nodup_iff.mpr hnodup) hab hba

end Sorted

end Ranking
