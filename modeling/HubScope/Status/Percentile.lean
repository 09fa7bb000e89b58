import HubScope.Lib.OrderStatistic
import Mathlib.Algebra.Order.Floor.Semiring
import Mathlib.Algebra.Order.Ring.Rat
import Mathlib.Data.List.Sort
import Mathlib.Data.Rat.Floor
import Mathlib.Tactic.Linarith
import Mathlib.Tactic.Positivity

/-!
# The nearest-rank percentile

The percentile every latency on the status board and in the series is presented with.

## Main definitions

* `percentile` — the nearest-rank percentile, zero of no values
* `percentileIndex` — where it is read in the sorted values

## Main results

* `percentile_perm` — the percentile reads its values as a multiset
* `ofRank_percentile` — its index is in range, and its rank among the values is the one after it
* `percentile_mono` — a higher percentage has no smaller a percentile
* `nearestRank_percentile` — the counts that make it the nearest-rank percentile
-/

set_option autoImplicit false

namespace HubScope

/-- The `p`th percentile of the latencies by nearest rank. -/
def percentile (latencies : List ℤ) (p : ℚ) : ℚ :=
  if latencies = [] then 0
  else
    let sorted := latencies.insertionSort (· ≤ ·)
    let rank := max 1 ⌈p / 100 * latencies.length⌉₊
    sorted.getD (rank - 1) 0

/-- The order in which the latencies are listed does not matter. -/
theorem percentile_perm {xs ys : List ℤ} (h : xs.Perm ys) (p : ℚ) :
    percentile xs p = percentile ys p := by
  have hsort : xs.insertionSort (· ≤ ·) = ys.insertionSort (· ≤ ·) := by
    refine List.Perm.eq_of_pairwise' (r := (· ≤ ·)) (List.pairwise_insertionSort _ _)
      (List.pairwise_insertionSort _ _) ?_
    exact ((List.perm_insertionSort _ _).trans h).trans (List.perm_insertionSort _ _).symm
  have hnil : xs = [] ↔ ys = [] := by
    rw [← List.length_eq_zero_iff, ← List.length_eq_zero_iff, h.length_eq]
  simp only [percentile, hsort, h.length_eq, hnil]

example : percentile [30, 10, 20] 50 = 20 := by decide +kernel

/-! ### The rank -/

/-- The index the percentile of `n` values is read at, one less than its rank. -/
def percentileIndex (n : ℕ) (p : ℚ) : ℤ := max 1 ⌈p / 100 * n⌉ - 1

variable {latencies : List ℤ} {p q : ℚ}

theorem percentileIndex_nonneg (n : ℕ) (p : ℚ) : 0 ≤ percentileIndex n p :=
  sub_nonneg.mpr (le_max_left _ _)

/-- Up to a hundred percent of some values the index is one of theirs. -/
theorem percentileIndex_lt {n : ℕ} (hn : 0 < n) (hp : p ≤ 100) : percentileIndex n p < n := by
  have hshare : p / 100 * n ≤ (n : ℤ) := by
    have hone : p / 100 ≤ 1 := by linarith
    calc p / 100 * n ≤ 1 * n := mul_le_mul_of_nonneg_right hone (Nat.cast_nonneg n)
      _ = ((n : ℤ) : ℚ) := by push_cast; ring
  have hceil : ⌈p / 100 * n⌉ ≤ n := Int.ceil_le.mpr hshare
  have hmax : max 1 ⌈p / 100 * n⌉ ≤ n := max_le (by omega) hceil
  unfold percentileIndex
  omega

theorem percentileIndex_mono (n : ℕ) (h : p ≤ q) : percentileIndex n p ≤ percentileIndex n q := by
  refine sub_le_sub_right (max_le_max le_rfl (Int.ceil_le_ceil ?_)) 1
  have hshare : p / 100 ≤ q / 100 := by linarith
  exact mul_le_mul_of_nonneg_right hshare (Nat.cast_nonneg n)

/-- The index by its rank as a natural number. -/
theorem toNat_percentileIndex (n : ℕ) (p : ℚ) :
    (percentileIndex n p).toNat = max 1 ⌈p / 100 * n⌉₊ - 1 := by
  rw [percentileIndex, ← Int.ceil_toNat]
  omega

/-- Of some values the rank of a positive percentage is its share of them, rounded up. -/
theorem toNat_percentileIndex_succ {n : ℕ} (hn : 0 < n) (hp : 0 < p) :
    (percentileIndex n p).toNat + 1 = ⌈p * n / 100⌉₊ := by
  have hshare : p / 100 * n = p * n / 100 := div_mul_eq_mul_div p 100 n
  have hpos : 0 < ⌈p * n / 100⌉₊ := Nat.ceil_pos.mpr (by positivity)
  rw [toNat_percentileIndex, hshare]
  omega

/-- Of some values the percentile is what the sorted ones hold at the index. -/
theorem percentile_eq {x : ℤ}
    (h : (latencies.insertionSort (· ≤ ·))[(percentileIndex latencies.length p).toNat]? = some x) :
    percentile latencies p = x := by
  have hne : latencies ≠ [] := by
    rintro rfl
    cases h
  rw [percentile, if_neg hne]
  dsimp only
  rw [← toNat_percentileIndex, List.getD_eq_getElem?_getD, h]
  rfl

/-- Of some values the sorted ones have the index, and what stands there has the rank after it. -/
theorem ofRank_percentile (hne : latencies ≠ []) (hp : p ≤ 100) :
    ∃ x, (latencies.insertionSort (· ≤ ·))[(percentileIndex latencies.length p).toNat]? = some x ∧
      OrderStatistic.OfRank latencies ((percentileIndex latencies.length p).toNat + 1) x := by
  have hlt := percentileIndex_lt (List.length_pos_iff.mpr hne) hp
  have hnonneg := percentileIndex_nonneg latencies.length p
  have hi : (percentileIndex latencies.length p).toNat <
      (latencies.insertionSort (· ≤ ·)).length := by
    rw [List.length_insertionSort]
    omega
  have hget := List.getElem?_eq_getElem hi
  exact ⟨_, hget, OrderStatistic.ofRank_insertionSort hget⟩

/-- **A higher percentage has no smaller a percentile.** -/
theorem percentile_mono (latencies : List ℤ) (h : p ≤ q) (hq : q ≤ 100) :
    percentile latencies p ≤ percentile latencies q := by
  by_cases hne : latencies = []
  · rw [percentile, percentile, if_pos hne, if_pos hne]
  · obtain ⟨x, hx, hrank⟩ := ofRank_percentile hne (h.trans hq)
    obtain ⟨y, hy, hrank'⟩ := ofRank_percentile hne hq
    have hindex := percentileIndex_mono latencies.length h
    rw [percentile_eq hx, percentile_eq hy]
    exact Int.cast_le.mpr (hrank.mono hrank' (by omega))

/-- **The percentile is the nearest rank.** The index is in range, and what stands there is one of
the values: as many as the rank are not above it, and fewer are below it. The order of the values
does not matter. -/
theorem nearestRank_percentile (latencies : List ℤ) (p : ℚ) (hne : latencies ≠ []) (hp : 0 < p)
    (hle : p ≤ 100) :
    (0 ≤ percentileIndex latencies.length p ∧
      percentileIndex latencies.length p < latencies.length) ∧
    ∃ x ∈ latencies,
      (latencies.insertionSort (· ≤ ·))[(percentileIndex latencies.length p).toNat]? = some x ∧
      percentile latencies p = x ∧
      ⌈p * latencies.length / 100⌉₊ ≤ latencies.countP (· ≤ x) ∧
      latencies.countP (· < x) < ⌈p * latencies.length / 100⌉₊ ∧
      ∀ ys : List ℤ, ys.Perm latencies → percentile ys p = x := by
  have hn : 0 < latencies.length := List.length_pos_iff.mpr hne
  obtain ⟨x, hx, hrank⟩ := ofRank_percentile hne hle
  have hvalue := percentile_eq hx
  rw [toNat_percentileIndex_succ hn hp] at hrank
  exact ⟨⟨percentileIndex_nonneg _ p, percentileIndex_lt hn hle⟩, x, hrank.mem, hx, hvalue,
    hrank.upTo, hrank.below, fun ys hperm => (percentile_perm hperm p).trans hvalue⟩

/-- The median of five values, of which two are equal. -/
theorem nearestRank_percentile_median : percentile [40, 20, 30, 20, 10] 50 = 20 ∧
    ∀ ys : List ℤ, ys.Perm [40, 20, 30, 20, 10] → percentile ys 50 = 20 := by
  obtain ⟨-, x, -, hget, hvalue, -, -, hperm⟩ := nearestRank_percentile [40, 20, 30, 20, 10] 50
    (by decide) (by norm_num) (by norm_num)
  have hx : x = 20 := Option.some.inj (hget.symm.trans (by decide +kernel))
  subst hx
  exact ⟨hvalue, hperm⟩

end HubScope
