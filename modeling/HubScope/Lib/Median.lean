import Mathlib.Algebra.Order.Field.Basic
import Mathlib.Data.List.Sort

/-!
# The median of a list

The median is the middle value of the sorted list, and the mean of the two middle values when
their number is even.

## Main definitions

* `Median.median` — the median, none for the empty list

## Main results

* `Median.median_of_odd`, `Median.median_of_even` — the median by the number of values
-/

set_option autoImplicit false

namespace Median

variable {K : Type*} [Field K] [LinearOrder K] {xs : List K} {n : ℕ}

-- by name, so that the median refers to the instance and holds no proof of its own
local instance atLeastTwo_two : Nat.AtLeastTwo 2 := ⟨le_rfl⟩

/-- The mean of the middle values of the sorted list; of an odd number they are the same. -/
def median (xs : List K) : Option K :=
  match (xs.insertionSort (· ≤ ·))[(xs.length - 1) / 2]?,
    (xs.insertionSort (· ≤ ·))[xs.length / 2]? with
  | some low, some high => some ((low + high) / 2)
  | _, _ => none

/-- An odd number of values has a middle one. -/
theorem median_of_odd [IsStrictOrderedRing K] (h : xs.length = 2 * n + 1) :
    median xs = (xs.insertionSort (· ≤ ·))[n]? := by
  have hlength := List.length_insertionSort (r := (· ≤ ·)) xs
  have hlt : n < (xs.insertionSort (· ≤ ·)).length := by omega
  have hlow : (xs.length - 1) / 2 = n := by omega
  have hhigh : xs.length / 2 = n := by omega
  rw [median, hlow, hhigh, List.getElem?_eq_getElem hlt]
  exact congrArg some (add_self_div_two _)

/-- An even number of values has two middle ones. -/
theorem median_of_even {low high : K} (h : xs.length = 2 * n + 2)
    (hlow : (xs.insertionSort (· ≤ ·))[n]? = some low)
    (hhigh : (xs.insertionSort (· ≤ ·))[n + 1]? = some high) :
    median xs = some ((low + high) / 2) := by
  have hn : (xs.length - 1) / 2 = n := by omega
  have hn' : xs.length / 2 = n + 1 := by omega
  rw [median, hn, hn', hlow, hhigh]

end Median
