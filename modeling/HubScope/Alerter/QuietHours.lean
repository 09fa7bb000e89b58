import Mathlib.Algebra.Order.Ring.Int
import Mathlib.Tactic.Ring

/-!
# Quiet hours

Instants are nanoseconds of the server's local clock, so the hour of the day is read off the
instant. The daily window lies between two whole hours and may cross midnight; its boundary
instants belong to the side they open.

## Main definitions

* `QuietHours` — the parsed settings, with `active`, `contains` and `nextBoundary`
* `QuietHours.quiet` — the window gates sends at an instant

## Main results

* `nextBoundary_spec` — the next boundary is later, nothing flips before it, and it flips
* `nextBoundaryIn_flips` — the same for the instants of a zone
-/

set_option autoImplicit false

namespace HubScope

/-- One second in nanoseconds. -/
def second : ℤ := 1000000000

/-- One hour in nanoseconds. -/
def hourLength : ℤ := 3600 * second

theorem hourLength_pos : 0 < hourLength := by decide

/-- Whole hours up to an instant. -/
def hourIndex (now : ℤ) : ℤ := now / hourLength

/-- The daily quiet window, in hours of the day. Equal bounds mean that it is not enabled. -/
structure QuietHours where
  enabled : Bool
  startHour : ℤ
  endHour : ℤ
  deriving DecidableEq, Repr

namespace QuietHours

/-- The switch is on, the bounds differ and both are hours of the day. -/
def active (q : QuietHours) : Bool :=
  if !q.enabled || q.startHour = q.endHour then false
  else 0 ≤ q.startHour && q.startHour ≤ 23 && 0 ≤ q.endHour && q.endHour ≤ 23

/-- The hour `h` of the day falls inside the window. -/
def containsHour (q : QuietHours) (h : ℤ) : Bool :=
  if q.startHour < q.endHour then q.startHour ≤ h && h < q.endHour
  else q.startHour ≤ h || h < q.endHour

/-- `now` falls inside the window. -/
def contains (q : QuietHours) (now : ℤ) : Bool := q.containsHour (hourIndex now % 24)

/-- Midnight of the day of `now`. -/
def midnight (now : ℤ) : ℤ := now / (24 * hourLength) * (24 * hourLength)

/-- The window edges of the day of `now` and of the day after it. -/
def boundaryCandidates (q : QuietHours) (now : ℤ) : List ℤ :=
  [0, 1].flatMap fun day => [q.startHour, q.endHour].map fun hour =>
    midnight now + day * (24 * hourLength) + hour * hourLength

/-- Keep the earliest candidate after `now`. -/
def earlier (now : ℤ) (best : Option ℤ) (candidate : ℤ) : Option ℤ :=
  if now < candidate ∧ best.all (candidate < ·) then some candidate else best

/-- The smallest instant after `now` at which `contains` flips. `none` stands for the zero time,
which the source takes for no candidate yet; a candidate equal to it, the midnight that begins the
year 1 in UTC, would count as none there and is kept here. -/
def nextBoundary (q : QuietHours) (now : ℤ) : Option ℤ :=
  (q.boundaryCandidates now).foldl (earlier now) none

/-- The window gates sends at `now`. -/
def quiet (q : QuietHours) (now : ℤ) : Bool := q.active && q.contains now

/-! ### Hours -/

variable {q : QuietHours}

theorem active_iff : q.active = true ↔ q.enabled = true ∧ q.startHour ≠ q.endHour ∧
    0 ≤ q.startHour ∧ q.startHour ≤ 23 ∧ 0 ≤ q.endHour ∧ q.endHour ≤ 23 := by
  unfold active
  by_cases henabled : q.enabled <;> by_cases hne : q.startHour = q.endHour <;>
    simp [henabled, hne, and_assoc]

theorem le_hourIndex {k now : ℤ} : k ≤ hourIndex now ↔ k * hourLength ≤ now :=
  Int.le_ediv_iff_mul_le hourLength_pos

theorem hourIndex_lt {k now : ℤ} : hourIndex now < k ↔ now < k * hourLength :=
  Int.ediv_lt_iff_lt_mul hourLength_pos

@[simp] theorem hourIndex_mul (k : ℤ) : hourIndex (k * hourLength) = k :=
  Int.mul_ediv_cancel k hourLength_pos.ne'

theorem midnight_eq (now : ℤ) : midnight now = hourIndex now / 24 * 24 * hourLength := by
  unfold midnight hourIndex
  rw [Int.ediv_ediv_of_nonneg hourLength_pos.le, mul_comm hourLength 24, mul_assoc]

/-- The candidates are the window edges in whole hours. -/
theorem mem_boundaryCandidates {now c : ℤ} :
    c ∈ q.boundaryCandidates now ↔ ∃ day ∈ ([0, 1] : List ℤ),
      ∃ hour ∈ [q.startHour, q.endHour],
        c = (hourIndex now / 24 * 24 + day * 24 + hour) * hourLength := by
  simp only [boundaryCandidates, List.mem_flatMap, List.mem_map, midnight_eq]
  constructor
  · rintro ⟨day, hday, hour, hhour, rfl⟩
    exact ⟨day, hday, hour, hhour, by ring⟩
  · rintro ⟨day, hday, hour, hhour, rfl⟩
    exact ⟨day, hday, hour, hhour, by ring⟩

/-! ### The next boundary -/

/-- Folding `earlier` finds a candidate after `now` that no other one precedes. -/
theorem foldl_earlier {now : ℤ} (cs : List ℤ) (best : Option ℤ) (hbest : ∀ b ∈ best, now < b)
    (hsome : best.isSome ∨ ∃ c ∈ cs, now < c) :
    ∃ b, cs.foldl (earlier now) best = some b ∧ now < b ∧ (b ∈ cs ∨ b ∈ best) ∧
      (∀ c ∈ cs, now < c → b ≤ c) ∧ ∀ c ∈ best, b ≤ c := by
  induction cs generalizing best with
  | nil =>
    obtain ⟨b, rfl⟩ : ∃ b, best = some b := by simpa [Option.isSome_iff_exists] using hsome
    exact ⟨b, rfl, hbest b rfl, .inr rfl, by simp, by simp⟩
  | cons c cs ih =>
    rw [List.foldl_cons]
    by_cases hc : now < c ∧ best.all (c < ·)
    · -- the candidate replaces what was found so far
      rw [earlier, if_pos hc]
      obtain ⟨b, heq, hlt, hmem, hmin, hle⟩ := ih (some c) (by simpa using hc.1) (.inl rfl)
      refine ⟨b, heq, hlt, ?_, ?_, ?_⟩
      · rcases hmem with hmem | hmem
        · exact .inl (List.mem_cons_of_mem _ hmem)
        · exact .inl (by simp_all)
      · intro d hd hnow
        rcases List.mem_cons.mp hd with rfl | hd
        · exact hle _ rfl
        · exact hmin d hd hnow
      · intro d hd
        have hcd : c < d := by simpa using (Option.all_eq_true _ _).mp hc.2 d hd
        exact (hle c rfl).trans hcd.le
    · rw [earlier, if_neg hc]
      have hkeep : now < c → ∃ b, best = some b ∧ b ≤ c := by
        intro hnow
        rcases best with _ | b
        · exact absurd ⟨hnow, rfl⟩ hc
        · exact ⟨b, rfl, by simpa [hnow] using hc⟩
      have hrest : best.isSome ∨ ∃ d ∈ cs, now < d := by
        rcases hsome with hsome | ⟨d, hd, hnow⟩
        · exact .inl hsome
        · rcases List.mem_cons.mp hd with rfl | hd
          · obtain ⟨b, rfl, -⟩ := hkeep hnow
            exact .inl rfl
          · exact .inr ⟨d, hd, hnow⟩
      obtain ⟨b, heq, hlt, hmem, hmin, hle⟩ := ih best hbest hrest
      refine ⟨b, heq, hlt, hmem.imp_left (List.mem_cons_of_mem _), ?_, hle⟩
      intro d hd hnow
      rcases List.mem_cons.mp hd with rfl | hd
      · obtain ⟨b', rfl, hb'⟩ := hkeep hnow
        exact (hle b' rfl).trans hb'
      · exact hmin d hd hnow

/-- Between two edges in whole hours the window does not flip, and at the next one it does. -/
theorem containsHour_until (k : ℤ) {m : ℤ} (hq : q.active = true) (hlt : k < m)
    (hmem : ∃ day ∈ ([0, 1] : List ℤ), ∃ hour ∈ [q.startHour, q.endHour],
      m = k / 24 * 24 + day * 24 + hour)
    (hmin : ∀ day ∈ ([0, 1] : List ℤ), ∀ hour ∈ [q.startHour, q.endHour],
      k < k / 24 * 24 + day * 24 + hour → m ≤ k / 24 * 24 + day * 24 + hour) :
    (∀ j, k ≤ j → j < m → q.containsHour (j % 24) = q.containsHour (k % 24)) ∧
      q.containsHour (m % 24) = !q.containsHour (k % 24) := by
  obtain ⟨-, hne, hs, hs', he, he'⟩ := active_iff.mp hq
  -- no edge of today or tomorrow lies between `k` and `m`
  have hstart := hmin 0 (by simp) q.startHour (by simp)
  have hend := hmin 0 (by simp) q.endHour (by simp)
  have hstart' := hmin 1 (by simp) q.startHour (by simp)
  have hend' := hmin 1 (by simp) q.endHour (by simp)
  have hm : m = k / 24 * 24 + q.startHour ∨ m = k / 24 * 24 + q.endHour ∨
      m = k / 24 * 24 + 24 + q.startHour ∨ m = k / 24 * 24 + 24 + q.endHour := by
    obtain ⟨day, hday, hour, hhour, rfl⟩ := hmem
    simp only [List.mem_cons, List.not_mem_nil, or_false] at hday hhour
    rcases hday with rfl | rfl <;> rcases hhour with rfl | rfl <;> omega
  clear hmem hmin
  unfold containsHour
  split
  · constructor
    · intro j hkj hjm
      rw [Bool.eq_iff_iff]
      simp only [Bool.and_eq_true, decide_eq_true_eq]
      omega
    · rw [Bool.eq_iff_iff]
      simp only [Bool.and_eq_true, decide_eq_true_eq, Bool.not_eq_true', Bool.and_eq_false_iff,
        decide_eq_false_iff_not]
      omega
  · constructor
    · intro j hkj hjm
      rw [Bool.eq_iff_iff]
      simp only [Bool.or_eq_true, decide_eq_true_eq]
      omega
    · rw [Bool.eq_iff_iff]
      simp only [Bool.or_eq_true, decide_eq_true_eq, Bool.not_eq_true', Bool.or_eq_false_iff,
        decide_eq_false_iff_not]
      omega

/-- **Next boundary.** It is later than `now`, the window does not flip before it, and it flips
there. -/
theorem nextBoundary_spec (hq : q.active = true) (now : ℤ) :
    ∃ b, q.nextBoundary now = some b ∧ now < b ∧
      (∀ t, now ≤ t → t < b → q.contains t = q.contains now) ∧
      q.contains b = !q.contains now := by
  obtain ⟨-, -, hs, -, he, -⟩ := active_iff.mp hq
  -- an edge of tomorrow is later in any case
  have hlater : ∃ c ∈ q.boundaryCandidates now, now < c := by
    refine ⟨_, mem_boundaryCandidates.mpr ⟨1, by simp, q.startHour, by simp, rfl⟩, ?_⟩
    apply hourIndex_lt.mp
    omega
  obtain ⟨b, heq, hlt, hmem, hmin, -⟩ :=
    foldl_earlier (q.boundaryCandidates now) none (by simp) (.inr hlater)
  obtain ⟨day, hday, hour, hhour, rfl⟩ := mem_boundaryCandidates.mp (by simpa using hmem)
  have huntil := containsHour_until (hourIndex now) hq (hourIndex_lt.mpr hlt)
    ⟨day, hday, hour, hhour, rfl⟩ (by
      intro day' hday' hour' hhour' hk
      have hle := hmin _ (mem_boundaryCandidates.mpr ⟨day', hday', hour', hhour', rfl⟩)
        (hourIndex_lt.mp hk)
      exact le_of_mul_le_mul_right hle hourLength_pos)
  refine ⟨_, heq, hlt, fun t hle ht => ?_, ?_⟩
  · apply huntil.1
    · exact le_hourIndex.mpr ((le_hourIndex.mp le_rfl).trans hle)
    · exact hourIndex_lt.mpr ht
  · unfold contains
    rw [hourIndex_mul]
    exact huntil.2

end QuietHours

/-! ### Instants of a zone -/

/-- An instant in nanoseconds, read in a zone whose clock is so many seconds ahead. -/
structure ZonedTime where
  instant : ℤ
  offset : ℤ

/-- What the clock of the zone shows. -/
def ZonedTime.clock (t : ZonedTime) : ℤ := t.instant + t.offset * second

namespace QuietHours

/-- The instant falls inside the window of its zone. -/
def containsIn (q : QuietHours) (t : ZonedTime) : Bool := q.contains t.clock

/-- The next boundary, as an instant of the same zone. -/
def nextBoundaryIn (q : QuietHours) (t : ZonedTime) : Option ZonedTime :=
  (q.nextBoundary t.clock).map fun b => ⟨b - t.offset * second, t.offset⟩

/-- **Boundaries in a zone.** In every zone with a fixed offset the next boundary is later than
the instant, the window does not flip before it, and it flips there. -/
theorem nextBoundaryIn_flips (q : QuietHours) (hq : q.active = true) (t : ZonedTime) :
    ∃ b, q.nextBoundaryIn t = some b ∧ b.offset = t.offset ∧ t.instant < b.instant ∧
      (∀ i, t.instant ≤ i → i < b.instant → q.containsIn ⟨i, t.offset⟩ = q.containsIn t) ∧
      q.containsIn b = !q.containsIn t := by
  obtain ⟨b, hnext, hlt, hstays, hflips⟩ := nextBoundary_spec hq t.clock
  refine ⟨⟨b - t.offset * second, t.offset⟩, ?_, rfl, ?_, fun i hle hi => ?_, ?_⟩
  · rw [nextBoundaryIn, hnext, Option.map_some]
  · exact lt_sub_iff_add_lt.mpr hlt
  · apply hstays
    · exact (Int.add_le_add_iff_right _).mpr hle
    · exact lt_sub_iff_add_lt.mp hi
  · change q.contains (b - t.offset * second + t.offset * second) = !q.contains t.clock
    rw [sub_add_cancel]
    exact hflips

/-- Half past eleven in the evening, eight hours ahead, in a window that crosses midnight. -/
theorem nextBoundaryIn_flips_night : ∃ b : ZonedTime,
    (⟨true, 23, 7⟩ : QuietHours).nextBoundaryIn ⟨15 * hourLength + 1800 * second, 28800⟩ = some b ∧
      (⟨true, 23, 7⟩ : QuietHours).containsIn b = false := by
  obtain ⟨b, hnext, -, -, -, hflips⟩ :=
    nextBoundaryIn_flips ⟨true, 23, 7⟩ (by decide) ⟨15 * hourLength + 1800 * second, 28800⟩
  refine ⟨b, hnext, hflips.trans ?_⟩
  decide

end QuietHours

end HubScope
