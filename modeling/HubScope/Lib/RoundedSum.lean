import Mathlib.Algebra.Order.Ring.Rat
import Mathlib.Data.List.Induction
import Mathlib.Data.Rat.Cast.Order
import Mathlib.Order.Lattice

/-!
# Sums whose additions round

Numbers that are added one at a time, each sum rounded, have a sum that depends on their order.
Of the additions two things are known: a first number is itself, and the first two numbers can
be exchanged. No more than that can be relied on, so two orders of some numbers have one sum in
every such arithmetic just when they differ in the first two numbers at most.

## Main definitions

* `RoundedNumbers` — an arithmetic whose additions round
* `RoundedNumbers.sum`, `RoundedNumbers.mean` — of numbers added in order
* `EqButStart` — two orders that differ in the first two numbers at most

## Main results

* `mean_eq_iff` — two orders with one mean in every arithmetic
-/

set_option autoImplicit false

/-- An arithmetic in which numbers are added one at a time. -/
structure RoundedNumbers (α : Type) where
  Value : Type
  zero : Value
  of : α → Value
  add : Value → Value → Value
  div : Value → ℕ → Value
  zero_add : ∀ a, add zero (of a) = of a
  add_comm : ∀ a b, add (of a) (of b) = add (of b) (of a)

namespace RoundedNumbers

variable {α : Type} {xs ys zs : List α}

/-- The sum of the numbers, added in order. -/
def sum (A : RoundedNumbers α) (xs : List α) : A.Value :=
  xs.foldl (fun s x => A.add s (A.of x)) A.zero

/-- The mean of the numbers, added in order; no numbers have none. -/
def mean (A : RoundedNumbers α) (xs : List α) : Option A.Value :=
  if xs = [] then none else some (A.div (A.sum xs) xs.length)

/-- Rational numbers, each result rounded. -/
def rounded (round : ℚ → ℚ) (hround : ∀ q, round (round q) = round q) : RoundedNumbers ℚ where
  Value := ℚ
  zero := 0
  of := round
  add a b := round (a + b)
  div a n := round (a / n)
  zero_add a := by rw [Rat.zero_add, hround]
  add_comm a b := by rw [Rat.add_comm]

/-- Rational numbers, each result as it is. -/
def exact : RoundedNumbers ℚ := rounded id fun _ => rfl

theorem sum_exact (qs : List ℚ) : exact.sum qs = qs.sum := by
  rw [List.sum_eq_foldl]
  rfl

/-! ### Two orders -/

/-- The lists are equal but for the order of the first two numbers. -/
def EqButStart (xs ys : List α) : Prop :=
  xs = ys ∨ ∃ a b rest, xs = a :: b :: rest ∧ ys = b :: a :: rest

theorem EqButStart.length_eq (h : EqButStart xs ys) : xs.length = ys.length := by
  rcases h with rfl | ⟨a, b, rest, rfl, rfl⟩ <;> rfl

/-- Nothing is added to a list that is as long as the other. -/
theorem eqButStart_append_iff (hlength : xs.length = ys.length) :
    EqButStart (xs ++ zs) ys ↔ zs = [] ∧ EqButStart xs ys := by
  constructor
  · intro h
    have hnil : zs = [] := by
      have heq := h.length_eq
      rw [List.length_append] at heq
      exact List.length_eq_zero_iff.mp (by omega)
    rw [hnil, List.append_nil] at h
    exact ⟨hnil, h⟩
  · rintro ⟨rfl, h⟩
    rwa [List.append_nil]

/-- The first two numbers can be exchanged. -/
theorem sum_congr (A : RoundedNumbers α) (h : EqButStart xs ys) : A.sum xs = A.sum ys := by
  rcases h with rfl | ⟨a, b, rest, rfl, rfl⟩
  · rfl
  · simp only [sum, List.foldl_cons, A.zero_add, A.add_comm a b]

theorem mean_congr (A : RoundedNumbers α) (h : EqButStart xs ys) : A.mean xs = A.mean ys := by
  have hnil : xs = [] ↔ ys = [] := by
    rw [← List.length_eq_zero_iff, h.length_eq, List.length_eq_zero_iff]
  simp only [mean, hnil, h.length_eq, A.sum_congr h]

/-! ### The arithmetic that forgets nothing else -/

variable [LinearOrder α]

/-- Put the first two numbers in order. -/
def sortStart : List α → List α
  | a :: b :: rest => min a b :: max a b :: rest
  | xs => xs

theorem sortStart_append (xs ys : List α) : sortStart (sortStart xs ++ ys) = sortStart (xs ++ ys) := by
  rcases xs with _ | ⟨a, _ | ⟨b, rest⟩⟩
  · rfl
  · rfl
  · simp [sortStart]

/-- The arithmetic whose sums are the numbers added, up to the order of the first two. -/
def free : RoundedNumbers α where
  Value := List α
  zero := []
  of a := [a]
  add xs ys := sortStart (xs ++ ys)
  div xs _ := xs
  zero_add _ := rfl
  add_comm a b := by simp [sortStart, min_comm, max_comm]

theorem sum_free (xs : List α) : free.sum xs = sortStart xs := by
  induction xs using List.reverseRecOn with
  | nil => rfl
  | append_singleton xs x ih =>
    have hlast : free.sum (xs ++ [x]) = free.add (free.sum xs) [x] := by
      simp only [sum, List.foldl_append, List.foldl_cons, List.foldl_nil]
      rfl
    rw [hlast, ih]
    exact sortStart_append xs [x]

/-- Two numbers are known up to their order from the smaller and the larger one. -/
theorem eq_or_swap_of_min_max {a b c d : α} (hmin : min a b = min c d) (hmax : max a b = max c d) :
    a = c ∧ b = d ∨ a = d ∧ b = c := by
  rcases le_total a b with hab | hab <;> rcases le_total c d with hcd | hcd <;>
    simp only [min_eq_left, min_eq_right, max_eq_left, max_eq_right, hab, hcd] at hmin hmax
  · exact .inl ⟨hmin, hmax⟩
  · exact .inr ⟨hmin, hmax⟩
  · exact .inr ⟨hmax, hmin⟩
  · exact .inl ⟨hmax, hmin⟩

theorem eqButStart_of_sortStart (h : sortStart xs = sortStart ys) : EqButStart xs ys := by
  have hlength : ∀ l : List α, (sortStart l).length = l.length := by
    rintro (_ | ⟨a, _ | ⟨b, rest⟩⟩) <;> rfl
  have heq := congrArg List.length h
  rw [hlength, hlength] at heq
  rcases xs with _ | ⟨a, _ | ⟨b, rest⟩⟩ <;> rcases ys with _ | ⟨c, _ | ⟨d, rest'⟩⟩ <;>
    simp only [List.length_cons, List.length_nil] at heq
  case nil.nil => exact .inl rfl
  case cons.nil.cons.nil => exact .inl h
  case cons.cons.cons.cons =>
    obtain ⟨hmin, hmax, rfl⟩ : min a b = min c d ∧ max a b = max c d ∧ rest = rest' := by
      simpa [sortStart] using h
    rcases eq_or_swap_of_min_max hmin hmax with ⟨rfl, rfl⟩ | ⟨rfl, rfl⟩
    · exact .inl rfl
    · exact .inr ⟨_, _, _, rfl, rfl⟩
  all_goals omega

/-- **One mean in every arithmetic.** Two orders of numbers have it just when they differ in the
first two numbers at most. -/
theorem mean_eq_iff : (∀ A : RoundedNumbers α, A.mean xs = A.mean ys) ↔ EqButStart xs ys := by
  constructor
  · intro h
    have hfree := h free
    have hmean : ∀ l : List α, (free.mean l).getD [] = sortStart l := by
      intro l
      unfold mean
      split_ifs with hnil
      · subst hnil
        rfl
      · exact sum_free l
    apply eqButStart_of_sortStart
    rw [← hmean, hfree, hmean]
  · exact fun h A => A.mean_congr h

end RoundedNumbers
