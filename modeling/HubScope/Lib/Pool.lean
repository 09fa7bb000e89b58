import Mathlib.Algebra.BigOperators.Group.List.Basic
import Mathlib.Algebra.GroupWithZero.Nat

/-!
# Pools of threads and the measures summed over them

A pool is a list of thread states, and a thread's step replaces one entry. What a step
conserves is stated through a measure on thread states summed over the pool: the sum
changes exactly by what the stepping thread's own measure changes by, so a global
conservation law follows from a law about one thread.

## Main definitions

* `Pool.total` — the sum of a measure over a pool

## Main results

* `Pool.total_set` — one thread's step changes the total by that thread's change
* `Pool.le_total` — a thread's share never exceeds the total
* `Pool.total_eq_zero_iff` — an empty total is an empty share of every thread
-/

namespace Pool

variable {ω : Type*} {f g : ω → ℕ} {ws : List ω} {w w' : ω} {i : ℕ}

/-- The sum of the measure `f` over the pool `ws`. -/
def total (f : ω → ℕ) (ws : List ω) : ℕ := (ws.map f).sum

@[simp] theorem total_nil : total f [] = 0 := rfl

@[simp] theorem total_cons : total f (w :: ws) = f w + total f ws := by simp [total]

/-- Replacing thread `i` changes the total by the change of its share. -/
theorem total_set (h : ws[i]? = some w) (w' : ω) :
    total f (ws.set i w') + f w = total f ws + f w' := by
  induction ws generalizing i with
  | nil => simp at h
  | cons v vs ih =>
    cases i with
    | zero =>
      obtain rfl : v = w := by simpa using h
      simp only [List.set_cons_zero, total_cons]
      omega
    | succ i =>
      have hvs := ih (i := i) (by simpa using h)
      simp only [List.set_cons_succ, total_cons]
      omega

theorem le_total_of_mem (h : w ∈ ws) : f w ≤ total f ws := by
  induction ws with
  | nil => simp at h
  | cons v vs ih =>
    rw [total_cons]
    rcases List.mem_cons.mp h with rfl | hmem
    · omega
    · have hvs := ih hmem
      omega

/-- A thread's share never exceeds the total. -/
theorem le_total (h : ws[i]? = some w) : f w ≤ total f ws :=
  le_total_of_mem (List.mem_of_getElem? h)

theorem total_eq_zero_iff : total f ws = 0 ↔ ∀ w ∈ ws, f w = 0 := by
  induction ws with
  | nil => simp
  | cons v vs ih => simp [ih]

theorem total_replicate (n : ℕ) (h : f w = 0) : total f (List.replicate n w) = 0 := by
  rw [total_eq_zero_iff]
  intro v hv
  rw [List.eq_of_mem_replicate hv, h]

@[simp] theorem total_zero (ws : List ω) : total (fun _ => 0) ws = 0 :=
  total_eq_zero_iff.mpr fun _ _ => rfl

/-- Totals are monotone in the measure. -/
theorem total_mono (h : ∀ w ∈ ws, f w ≤ g w) : total f ws ≤ total g ws := by
  induction ws with
  | nil => simp
  | cons v vs ih =>
    have hv := h v (by simp)
    have hvs := ih fun w hw => h w (List.mem_cons_of_mem v hw)
    simp only [total_cons]
    omega

/-- What every thread satisfies, the pool satisfies after a step of one of them. -/
theorem forall_mem_set {P : ω → Prop} (hall : ∀ w ∈ ws, P w) (hw' : P w') :
    ∀ w ∈ ws.set i w', P w := by
  intro w hw
  rcases List.mem_or_eq_of_mem_set hw with h | rfl
  · exact hall w h
  · exact hw'

/-- A thread other than the stepping one stays in the pool. -/
theorem mem_set_of_ne {v : ω} (hv : v ∈ ws) (hi : ws[i]? = some w) (hne : v ≠ w) :
    v ∈ ws.set i w' := by
  obtain ⟨j, hj⟩ := List.getElem?_of_mem hv
  have hij : i ≠ j := by
    rintro rfl
    exact hne (Option.some.inj (hj.symm.trans hi))
  exact List.mem_of_getElem? ((List.getElem?_set_ne hij).trans hj)

/-- Two threads' shares together never exceed the total. -/
theorem add_le_total {j : ℕ} {v : ω} (hi : ws[i]? = some w) (hj : ws[j]? = some v)
    (hij : i ≠ j) : f w + f v ≤ total f ws := by
  induction ws generalizing i j with
  | nil => simp at hi
  | cons x xs ih =>
    rw [total_cons]
    cases i with
    | zero =>
      obtain rfl : x = w := by simpa using hi
      cases j with
      | zero => exact absurd rfl hij
      | succ j =>
        have hv : xs[j]? = some v := by simpa using hj
        have hxs := le_total (f := f) hv
        omega
    | succ i =>
      cases j with
      | zero =>
        obtain rfl : x = v := by simpa using hj
        have hw : xs[i]? = some w := by simpa using hi
        have hxs := le_total (f := f) hw
        omega
      | succ j =>
        have hxs := ih (i := i) (j := j) (by simpa using hi) (by simpa using hj) (by omega)
        omega

end Pool
