import Mathlib.Data.List.Sort
import Mathlib.Order.Defs.LinearOrder

/-!
# Order statistics

The value of a rank in a list is told by counting: fewer values than the rank stand below it, and
at least as many do not stand above it. It is what is found at the rank when the list is sorted,
so sorting is one way to compute it, and neither the order of the list nor the algorithm matters.

## Main definitions

* `OrderStatistic.OfRank` — a value of a rank, by the two counts

## Main results

* `OrderStatistic.ofRank_insertionSort` — what the sorted list holds at an index has its rank
* `OrderStatistic.OfRank.mono` — ranks order the values
-/

set_option autoImplicit false

namespace OrderStatistic

section Sorted

variable {α : Type*} {p : α → Bool} {xs : List α}

/-- A property that passes to all earlier values holds at the indices below its count. -/
theorem getElem_iff_lt_countP (hdown : xs.Pairwise fun a b => p b = true → p a = true) {i : ℕ}
    (hi : i < xs.length) : p xs[i] = true ↔ i < xs.countP p := by
  induction xs generalizing i with
  | nil => exact absurd hi (Nat.not_lt_zero i)
  | cons x xs ih =>
    obtain ⟨hx, hrest⟩ := List.pairwise_cons.mp hdown
    cases hpx : p x with
    | true =>
      rw [List.countP_cons_of_pos hpx]
      cases i with
      | zero => simp [hpx]
      | succ i => simpa using ih hrest (Nat.lt_of_succ_lt_succ hi)
    | false =>
      -- nothing after a value without the property has it
      have hnone : ∀ y ∈ xs, ¬ p y = true := fun y hy hpy => by
        rw [hx y hy hpy] at hpx
        cases hpx
      rw [List.countP_cons_of_neg (by simp [hpx]), List.countP_eq_zero.mpr hnone]
      refine iff_of_false ?_ (Nat.not_lt_zero i)
      cases i with
      | zero => simp [hpx]
      | succ i => exact hnone _ (List.getElem_mem (Nat.lt_of_succ_lt_succ hi))

end Sorted

variable {α : Type*} [LinearOrder α] {xs ys : List α} {r r' : ℕ} {x y : α}

/-- The value of a rank: fewer than `r` values are below it, and at least `r` are not above it. -/
structure OfRank (xs : List α) (r : ℕ) (x : α) : Prop where
  upTo : r ≤ xs.countP (· ≤ x)
  below : xs.countP (· < x) < r

/-- The counts differ, so the value itself is among the values. -/
theorem OfRank.mem (h : OfRank xs r x) : x ∈ xs := by
  by_contra hx
  have hcounts : xs.countP (· ≤ x) = xs.countP (· < x) := by
    refine List.countP_congr fun y hy => ?_
    have hne : y ≠ x := fun heq => hx (heq ▸ hy)
    rw [decide_eq_true_iff, decide_eq_true_iff]
    exact ⟨fun hle => lt_of_le_of_ne hle hne, le_of_lt⟩
  exact absurd (h.upTo.trans hcounts.le) (not_le.mpr h.below)

theorem OfRank.perm (h : OfRank xs r x) (hperm : xs.Perm ys) : OfRank ys r x :=
  ⟨h.upTo.trans_eq (hperm.countP_eq _), (hperm.countP_eq _).symm.trans_lt h.below⟩

/-- A later rank has no smaller a value. -/
theorem OfRank.mono (h : OfRank xs r x) (h' : OfRank xs r' y) (hle : r ≤ r') : x ≤ y := by
  by_contra hlt
  have hcounts : xs.countP (· ≤ y) ≤ xs.countP (· < x) := by
    refine List.countP_mono_left fun z _ hz => ?_
    rw [decide_eq_true_iff] at hz ⊢
    exact hz.trans_lt (not_le.mp hlt)
  have hranks : r < r := calc
    r ≤ r' := hle
    _ ≤ xs.countP (· ≤ y) := h'.upTo
    _ ≤ xs.countP (· < x) := hcounts
    _ < r := h.below
  exact lt_irrefl r hranks

/-- What a sorted list holds at an index has the rank after it. -/
theorem ofRank_getElem (hsorted : xs.Pairwise (· ≤ ·)) {i : ℕ} (hi : i < xs.length) :
    OfRank xs (i + 1) xs[i] := by
  refine ⟨?_, ?_⟩
  · refine (getElem_iff_lt_countP ?_ hi).mp (decide_eq_true le_rfl)
    exact hsorted.imp fun hab hb => decide_eq_true (hab.trans (of_decide_eq_true hb))
  · have hdown : xs.Pairwise fun a b => decide (b < xs[i]) = true → decide (a < xs[i]) = true :=
      hsorted.imp fun hab hb => decide_eq_true (hab.trans_lt (of_decide_eq_true hb))
    have hself := mt (getElem_iff_lt_countP hdown hi).mpr (by simp)
    exact Nat.lt_succ_of_le (not_lt.mp hself)

/-- What the sorted list holds at an index has the rank after it among the values. -/
theorem ofRank_insertionSort {i : ℕ} (h : (xs.insertionSort (· ≤ ·))[i]? = some x) :
    OfRank xs (i + 1) x := by
  obtain ⟨hi, rfl⟩ := List.getElem?_eq_some_iff.mp h
  exact (ofRank_getElem (List.pairwise_insertionSort _ _) hi).perm (List.perm_insertionSort _ _)

end OrderStatistic
