import Mathlib.Data.List.Basic
import Mathlib.Algebra.Group.Nat.Defs

/-!
# Counting loops

The rule for a loop over consecutive indices: what holds before it and is kept by its body at
every index holds after it.

## Main results

* `Loop.range_rule`, `Loop.range'_rule` — the rule of the loop
* `Loop.getElem?_foldl_set` — a loop that writes consecutive cells
-/

set_option autoImplicit false

namespace Loop

variable {α β : Type*} {f : β → ℕ → β} {b : β}

/-- A loop over the indices from `s` on. -/
theorem range'_rule {P : ℕ → β → Prop} (s n : ℕ) (hstart : P s b)
    (hstep : ∀ i c, s ≤ i → i < s + n → P i c → P (i + 1) (f c i)) :
    P (s + n) ((List.range' s n).foldl f b) := by
  induction n with
  | zero => exact hstart
  | succ n ih =>
    have hlast := ih fun i c hle hlt => hstep i c hle (Nat.lt_succ_of_lt hlt)
    rw [List.range'_concat, List.foldl_append, one_mul]
    exact hstep (s + n) _ (Nat.le_add_right s n) (Nat.lt_succ_self _) hlast

/-- A loop over the indices from zero on. -/
theorem range_rule {P : ℕ → β → Prop} (n : ℕ) (hstart : P 0 b)
    (hstep : ∀ i c, i < n → P i c → P (i + 1) (f c i)) : P n ((List.range n).foldl f b) := by
  have h := range'_rule (P := P) 0 n hstart fun i c _ hlt => hstep i c (by omega)
  rwa [zero_add, ← List.range_eq_range'] at h

theorem length_foldl_set (v : ℕ → α) (out : List α) (p n : ℕ) :
    ((List.range n).foldl (fun out s => out.set (p + s) (v s)) out).length = out.length :=
  range_rule (P := fun _ (c : List α) => c.length = out.length) n rfl fun _ _ _ hc =>
    List.length_set.trans hc

/-- A loop that writes the cells from `p` on. -/
theorem getElem?_foldl_set (v : ℕ → α) (out : List α) (p n : ℕ) (hfit : p + n ≤ out.length) :
    ∀ q, ((List.range n).foldl (fun out s => out.set (p + s) (v s)) out)[q]? =
      if p ≤ q ∧ q < p + n then some (v (q - p)) else out[q]? := by
  induction n with
  | zero =>
    intro q
    exact (if_neg (by omega)).symm
  | succ n ih =>
    intro q
    rw [List.range_succ, List.foldl_append, List.foldl_cons, List.foldl_nil, List.getElem?_set,
      length_foldl_set, ih (by omega)]
    by_cases hq : p + n = q
    · have hlt : p + n < out.length := by omega
      rw [if_pos hq, if_pos hlt, if_pos (by omega), ← hq, Nat.add_sub_cancel_left]
    · rw [if_neg hq]
      apply if_congr _ rfl rfl
      omega

end Loop
