import HubScope.Lib.Median
import Mathlib.Algebra.Field.Rat
import Mathlib.Algebra.Order.Ring.Rat
import Mathlib.Data.List.ReduceOption
import Mathlib.Data.List.Sort

/-!
# The partial-jury median

A judge sample's score is the median of its jury votes: three votes take the middle, two
the mean, one itself, none a null. A failed judge is a null vote and never counts as zero.

## Main definitions

* `medianOfVotes` — the sample score of slot-indexed votes

## Main results

* `medianOfVotes_perm` — the median reads the votes as a multiset
* `medianOfVotes_eq_none_iff` — a sample is unjudged exactly when every judge failed
* `medianOfVotes_eq_median` — up to three votes it is the median of those that are not null
-/

namespace HubScope

/-- The median of a sample's votes under the partial-jury rule. -/
def medianOfVotes (scores : List (Option ℚ)) : Option ℚ :=
  match scores.reduceOption.insertionSort (· ≤ ·) with
  | [] => none
  | [v] => some v
  | [v, w] => some ((v + w) / 2)
  | _ :: v :: _ => some v

/-- The order in which votes are listed does not matter. -/
theorem medianOfVotes_perm {xs ys : List (Option ℚ)} (h : xs.Perm ys) :
    medianOfVotes xs = medianOfVotes ys := by
  have hsort : xs.reduceOption.insertionSort (· ≤ ·) = ys.reduceOption.insertionSort (· ≤ ·) := by
    refine List.Perm.eq_of_pairwise' (r := (· ≤ ·)) (List.pairwise_insertionSort _ _)
      (List.pairwise_insertionSort _ _) ?_
    exact ((List.perm_insertionSort _ _).trans (h.filterMap id)).trans
      (List.perm_insertionSort _ _).symm
  unfold medianOfVotes
  rw [hsort]

/-- A sample is unjudged exactly when every judge failed. -/
theorem medianOfVotes_eq_none_iff {xs : List (Option ℚ)} :
    medianOfVotes xs = none ↔ ∀ x ∈ xs, x = none := by
  have hlen := (List.perm_insertionSort (· ≤ ·) xs.reduceOption).length_eq
  have hnil : xs.reduceOption = [] ↔ ∀ x ∈ xs, x = none := by
    simp [List.reduceOption]
  -- a median is taken just when some judge voted
  have hsome (a : ℚ) (hne : xs.reduceOption.insertionSort (· ≤ ·) ≠ []) :
      some a = none ↔ xs.reduceOption = [] := by
    refine iff_of_false (Option.some_ne_none a) fun hnil => hne ?_
    rw [hnil]
    rfl
  rw [← hnil]
  unfold medianOfVotes
  split
  · next h =>
    rw [h] at hlen
    simp [List.length_eq_zero_iff.mp hlen.symm]
  · next h => exact hsome _ (h ▸ List.cons_ne_nil _ _)
  · next h => exact hsome _ (h ▸ List.cons_ne_nil _ _)
  · next h => exact hsome _ (h ▸ List.cons_ne_nil _ _)

/-- Of up to three votes it is the median of those that are not null. -/
theorem medianOfVotes_eq_median {xs : List (Option ℚ)} (h : xs.length ≤ 3) :
    medianOfVotes xs = Median.median xs.reduceOption := by
  have hlen := (List.perm_insertionSort (· ≤ ·) xs.reduceOption).length_eq
  have hle := List.reduceOption_length_le xs
  unfold medianOfVotes
  split
  · next hsort =>
    rw [hsort] at hlen
    rw [List.length_eq_zero_iff.mp hlen.symm]
    rfl
  · next v hsort =>
    rw [hsort] at hlen
    rw [Median.median_of_odd (n := 0) hlen.symm, hsort]
    rfl
  · next v w hsort =>
    rw [hsort] at hlen
    exact (Median.median_of_even (n := 0) hlen.symm (by rw [hsort]; rfl) (by rw [hsort]; rfl)).symm
  · next u v rest hne hsort =>
    -- a third vote, and no fourth
    rw [hsort, List.length_cons, List.length_cons] at hlen
    have hrest : rest.length = 1 := by
      have hpos : rest ≠ [] := by
        rintro rfl
        exact hne rfl
      have hlt := List.length_pos_of_ne_nil hpos
      omega
    have hthree : xs.reduceOption.length = 2 * 1 + 1 := by omega
    rw [Median.median_of_odd hthree, hsort]
    rfl

example : medianOfVotes [some 1, none, some (1 / 2)] = some (3 / 4) := by decide +kernel

end HubScope
