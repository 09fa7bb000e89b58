import Mathlib.Algebra.Order.Field.Basic
import Mathlib.Analysis.Real.Sqrt
import Mathlib.Tactic.FieldSimp
import Mathlib.Tactic.Linarith
import Mathlib.Tactic.Positivity
import Mathlib.Tactic.Ring

/-!
# Monotone cubics

A cubic between two values, with tangents at both ends, does not leave the corridor between the
values and is monotone if each tangent lies between zero and three times the secant. Tangents
that point the way of the secant get there when they are scaled down together to a circle of
radius three, and stay there when they are scaled down further.

## Main definitions

* `Hermite.shape` — the cubic from zero to one with tangents `a` and `b`
* `Hermite.Fits` — tangents between zero and three times the secant

## Main results

* `Hermite.shape_mono` — such a cubic is monotone
* `Hermite.fits_of_circle`, `Hermite.fits_scaled` — tangents inside the circle and scaled to it
* `Hermite.Fits.scale` — scaling down keeps what fits
-/

set_option autoImplicit false

namespace Hermite

-- by name, so that a cubic refers to the instances and holds no proof of its own
local instance atLeastTwo_two : Nat.AtLeastTwo 2 := ⟨le_rfl⟩

local instance atLeastTwo_three : Nat.AtLeastTwo 3 := ⟨Nat.le_succ 2⟩

section Shape

variable {K : Type*} [Field K]

/-- The cubic from zero to one whose tangents at the ends are `a` and `b`. -/
def shape (a b t : K) : K :=
  (t ^ 3 - 2 * t ^ 2 + t) * a + (3 * t ^ 2 - 2 * t ^ 3) + (t ^ 3 - t ^ 2) * b

@[simp] theorem shape_zero (a b : K) : shape a b 0 = 0 := by
  simp [shape]

@[simp] theorem shape_one (a b : K) : shape a b 1 = 1 := by
  simp only [shape]
  ring

/-- The cubic is a mean of the four cubics whose tangents are zero or three. -/
theorem shape_eq_mean (a b t : K) :
    9 * shape a b t = (3 - a) * (3 - b) * shape 0 0 t + a * (3 - b) * shape 3 0 t +
      (3 - a) * b * shape 0 3 t + a * b * shape 3 3 t := by
  simp only [shape]
  ring

variable [LinearOrder K] [IsStrictOrderedRing K] {a b t u : K}

theorem pow_three_le (h : t ≤ u) : t ^ 3 ≤ u ^ 3 :=
  (Odd.strictMono_pow ⟨1, rfl⟩).monotone h

theorem shape_zero_zero_mono (ht : 0 ≤ t) (htu : t ≤ u) (hu : u ≤ 1) :
    shape 0 0 t ≤ shape 0 0 u := by
  have hfactor : shape 0 0 u - shape 0 0 t =
      (u - t) * (2 * (u * (1 - u)) + 2 * (t * (1 - t)) + u * (1 - t) + t * (1 - u)) := by
    simp only [shape]
    ring
  have hu0 : 0 ≤ u := ht.trans htu
  have hu1 : 0 ≤ 1 - u := sub_nonneg.mpr hu
  have ht1 : 0 ≤ 1 - t := sub_nonneg.mpr (htu.trans hu)
  have hd : 0 ≤ u - t := sub_nonneg.mpr htu
  apply sub_nonneg.mp
  rw [hfactor]
  positivity

theorem shape_three_zero_mono (htu : t ≤ u) : shape 3 0 t ≤ shape 3 0 u := by
  have hcube : ∀ x : K, shape 3 0 x = 1 - (1 - x) ^ 3 := by
    intro x
    simp only [shape]
    ring
  rw [hcube, hcube]
  exact sub_le_sub_left (pow_three_le (sub_le_sub_left htu 1)) 1

theorem shape_zero_three_mono (htu : t ≤ u) : shape 0 3 t ≤ shape 0 3 u := by
  have hcube : ∀ x : K, shape 0 3 x = x ^ 3 := by
    intro x
    simp only [shape]
    ring
  rw [hcube, hcube]
  exact pow_three_le htu

theorem shape_three_three_mono (htu : t ≤ u) : shape 3 3 t ≤ shape 3 3 u := by
  have hcube : ∀ x : K, 2 * shape 3 3 x = (2 * x - 1) ^ 3 + 1 := by
    intro x
    simp only [shape]
    ring
  have hinner : 2 * t - 1 ≤ 2 * u - 1 := by linarith
  have hle := pow_three_le hinner
  linarith [hcube t, hcube u]

/-- **Monotone cubics.** With tangents between zero and three the cubic is monotone. -/
theorem shape_mono (ha : a ∈ Set.Icc 0 3) (hb : b ∈ Set.Icc 0 3) (ht : 0 ≤ t) (htu : t ≤ u)
    (hu : u ≤ 1) : shape a b t ≤ shape a b u := by
  have ha' : 0 ≤ 3 - a := sub_nonneg.mpr ha.2
  have hb' : 0 ≤ 3 - b := sub_nonneg.mpr hb.2
  have hmean : 9 * shape a b t ≤ 9 * shape a b u := by
    rw [shape_eq_mean a b t, shape_eq_mean a b u]
    gcongr ?_ + ?_ + ?_ + ?_
    · exact mul_le_mul_of_nonneg_left (shape_zero_zero_mono ht htu hu) (mul_nonneg ha' hb')
    · exact mul_le_mul_of_nonneg_left (shape_three_zero_mono htu) (mul_nonneg ha.1 hb')
    · exact mul_le_mul_of_nonneg_left (shape_zero_three_mono htu) (mul_nonneg ha' hb.1)
    · exact mul_le_mul_of_nonneg_left (shape_three_three_mono htu) (mul_nonneg ha.1 hb.1)
  linarith

/-- The cubic stays between zero and one. -/
theorem shape_mem_Icc (ha : a ∈ Set.Icc 0 3) (hb : b ∈ Set.Icc 0 3) (ht : t ∈ Set.Icc 0 1) :
    shape a b t ∈ Set.Icc 0 1 := by
  constructor
  · have h := shape_mono ha hb le_rfl ht.1 ht.2
    rwa [shape_zero] at h
  · have h := shape_mono ha hb ht.1 ht.2 le_rfl
    rwa [shape_one] at h

end Shape

section Fits

variable {d m₀ m₁ θ η : ℝ}

/-- Both tangents lie between zero and three times the secant `d`. -/
def Fits (d m₀ m₁ : ℝ) : Prop :=
  ∃ a ∈ Set.Icc (0 : ℝ) 3, ∃ b ∈ Set.Icc (0 : ℝ) 3, m₀ = a * d ∧ m₁ = b * d

theorem fits_zero (d : ℝ) : Fits d 0 0 :=
  ⟨0, by simp, 0, by simp, (zero_mul d).symm, (zero_mul d).symm⟩

theorem mul_mem_Icc {a : ℝ} (hθ : θ ∈ Set.Icc 0 1) (ha : a ∈ Set.Icc (0 : ℝ) 3) :
    θ * a ∈ Set.Icc (0 : ℝ) 3 :=
  ⟨mul_nonneg hθ.1 ha.1, (mul_le_of_le_one_left ha.1 hθ.2).trans ha.2⟩

/-- Tangents that fit still fit when they are scaled down. -/
theorem Fits.scale (h : Fits d m₀ m₁) (hθ : θ ∈ Set.Icc 0 1) (hη : η ∈ Set.Icc 0 1) :
    Fits d (θ * m₀) (η * m₁) := by
  obtain ⟨a, ha, b, hb, rfl, rfl⟩ := h
  exact ⟨θ * a, mul_mem_Icc hθ ha, η * b, mul_mem_Icc hη hb, (mul_assoc _ _ _).symm,
    (mul_assoc _ _ _).symm⟩

theorem div_nonneg_of_mul_nonneg (h : 0 ≤ d * m₀) : 0 ≤ m₀ / d := by
  rcases eq_or_ne d 0 with rfl | hd
  · simp
  · have heq : m₀ / d = d * m₀ / (d * d) := by field_simp
    rw [heq]
    exact div_nonneg h (mul_self_nonneg d)

/-- Tangents that point the way of the secant fit inside the circle of radius three. -/
theorem fits_of_circle (hd : d ≠ 0) (h₀ : 0 ≤ d * m₀) (h₁ : 0 ≤ d * m₁)
    (h : m₀ / d * (m₀ / d) + m₁ / d * (m₁ / d) ≤ 9) : Fits d m₀ m₁ := by
  have hle : ∀ x y : ℝ, x * x + y * y ≤ 9 → x ≤ 3 := fun x y hxy => by
    nlinarith [mul_self_nonneg y, mul_self_nonneg (x - 3)]
  refine ⟨m₀ / d, ⟨div_nonneg_of_mul_nonneg h₀, hle _ _ h⟩, m₁ / d,
    ⟨div_nonneg_of_mul_nonneg h₁, hle _ (m₀ / d) ((add_comm _ _).trans_le h)⟩, ?_, ?_⟩
  · exact (div_mul_cancel₀ m₀ hd).symm
  · exact (div_mul_cancel₀ m₁ hd).symm

/-- The factor that takes a point outside the circle onto it. -/
theorem radius_mem_Icc {s : ℝ} (hs : 9 < s) : 3 / √s ∈ Set.Icc (0 : ℝ) 1 := by
  have hthree : 3 ≤ √s := Real.le_sqrt_of_sq_le (by linarith)
  exact ⟨by positivity, (div_le_one (by linarith)).mpr hthree⟩

/-- Tangents outside the circle fit once they are scaled to it. -/
theorem fits_scaled (hd : d ≠ 0) (h₀ : 0 ≤ d * m₀) (h₁ : 0 ≤ d * m₁) {s : ℝ}
    (hs : s = m₀ / d * (m₀ / d) + m₁ / d * (m₁ / d)) (hout : 9 < s) :
    Fits d (3 / √s * m₀) (3 / √s * m₁) := by
  have hpos : 0 < s := by linarith
  have hscale := (radius_mem_Icc hout).1
  apply fits_of_circle hd
  · rw [mul_left_comm]
    exact mul_nonneg hscale h₀
  · rw [mul_left_comm]
    exact mul_nonneg hscale h₁
  · apply le_of_eq
    calc 3 / √s * m₀ / d * (3 / √s * m₀ / d) + 3 / √s * m₁ / d * (3 / √s * m₁ / d)
        = 9 / (√s * √s) * (m₀ / d * (m₀ / d) + m₁ / d * (m₁ / d)) := by ring
      _ = 9 / s * s := by rw [Real.mul_self_sqrt hpos.le, ← hs]
      _ = 9 := div_mul_cancel₀ 9 hpos.ne'

end Fits

end Hermite
