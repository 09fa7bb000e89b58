import HubScope.Lib.Hermite
import HubScope.Lib.Loop
import Mathlib.Order.Interval.Set.UnorderedInterval

/-!
# Monotone smoothing of evidence charts

A chart smooths a series by a cubic for every two measured neighbours, sampled at a fixed rate.
The tangents of a run are limited by one pass over its segments, which scales the two tangents
of a segment in place when they are too steep. A tangent that a later segment touches again only
becomes flatter, so what the pass has reached for a segment is not lost.

## Main definitions

* `hermite`, `monotoneTangents`, `smoothSeries` — the smoothing, over the reals
* `Smooths` — a sampled series that invents no shape

## Main results

* `fits_monotoneTangents` — all tangents of a run fit their segments
* `smooths_smoothSeries` — smoothing invents no shape
-/

set_option autoImplicit false

namespace HubScope

namespace MonotoneSmooth

noncomputable section

/-! ### Tangents -/

/-- Cubic Hermite basis for a segment of width one. -/
def hermite (t y0 y1 m0 m1 : ℝ) : ℝ :=
  let t2 := t * t
  let t3 := t2 * t
  (2 * t3 - 3 * t2 + 1) * y0 + (t3 - 2 * t2 + t) * m0 + (-2 * t3 + 3 * t2) * y1 + (t3 - t2) * m1

/-- The secants of a run. -/
def secants (ys : List ℝ) : List ℝ :=
  (List.range (ys.length - 1)).map fun i => ys.getD (i + 1) 0 - ys.getD i 0

/-- The tangent at an inner point. A local extremum gets a zero tangent. -/
def innerTangent (d : List ℝ) (i : ℕ) : ℝ :=
  if d.getD (i - 1) 0 * d.getD i 0 ≤ 0 then 0 else (d.getD (i - 1) 0 + d.getD i 0) / 2

/-- The tangents of a run of `n` points before they are limited. -/
def startTangents (d : List ℝ) (n : ℕ) : List ℝ :=
  let m := ((List.replicate n 0).set 0 (d.getD 0 0)).set (n - 1) (d.getD (n - 2) 0)
  (List.range' 1 (n - 2)).foldl (fun m i => m.set i (innerTangent d i)) m

/-- Limit the tangents of segment `i`. -/
def limitSegment (d m : List ℝ) (i : ℕ) : List ℝ :=
  if d.getD i 0 = 0 then (m.set i 0).set (i + 1) 0
  else
    let a := m.getD i 0 / d.getD i 0
    let b := m.getD (i + 1) 0 / d.getD i 0
    let s := a * a + b * b
    if 9 < s then
      let tau := 3 / √s
      (m.set i (tau * a * d.getD i 0)).set (i + 1) (tau * b * d.getD i 0)
    else m

/-- Fritsch–Carlson tangents of a run. -/
def monotoneTangents (ys : List ℝ) : List ℝ :=
  let d := secants ys
  (List.range (ys.length - 1)).foldl (limitSegment d) (startTangents d ys.length)

/-! ### Series -/

/-- Sample segment `p`, and write the point at its end. -/
def writeSegment (k p : ℕ) (y0 y1 m0 m1 : ℝ) (out : List (Option ℝ)) : List (Option ℝ) :=
  ((List.range k).foldl (fun out s => out.set (p * k + s) (some (hermite (s / k) y0 y1 m0 m1)))
    out).set ((p + 1) * k) (some y1)

/-- Write the run that begins at `i`. -/
def writeRun (k i : ℕ) (run : List ℝ) (out : List (Option ℝ)) : List (Option ℝ) :=
  let out := out.set (i * k) (some (run.getD 0 0))
  if run.length = 1 then out
  else
    let m := monotoneTangents run
    (List.range (run.length - 1)).foldl (fun out seg => writeSegment k (i + seg)
      (run.getD seg 0) (run.getD (seg + 1) 0) (m.getD seg 0) (m.getD (seg + 1) 0) out) out

/-- Write the runs of the values from `i` on. Nulls stay gaps. -/
def writeRuns (k : ℕ) : ℕ → List (Option ℝ) → List (Option ℝ) → List (Option ℝ)
  | _, [], out => out
  | i, none :: values, out => writeRuns k (i + 1) values out
  | i, some y :: values, out =>
    let run := y :: (values.takeWhile Option.isSome).reduceOption
    writeRuns k (i + run.length) (values.dropWhile Option.isSome) (writeRun k i run out)
termination_by _ values => values.length
decreasing_by
  · simp
  · exact Nat.lt_succ_of_le (List.dropWhile_sublist _).length_le

/-- The number of samples of a segment. -/
def sampleRate (samplesPerSegment : ℝ) : ℕ := (max 1 ⌊samplesPerSegment + 1 / 2⌋).toNat

/-- Expand a series into a densely sampled, smoothed one. -/
def smoothSeries (values : List (Option ℝ)) (samplesPerSegment : ℝ) : List (Option ℝ) :=
  let n := values.length
  if n = 0 then []
  else
    let k := sampleRate samplesPerSegment
    if n = 1 ∨ k = 1 then values
    else writeRuns k 0 values (List.replicate ((n - 1) * k + 1) none)

/-! ### Tangents that fit -/

variable {d m m' ys : List ℝ} {i j n k : ℕ} {v : ℝ}

theorem getD_set (m : List ℝ) (i j : ℕ) (v : ℝ) :
    (m.set i v).getD j 0 = if i = j ∧ i < m.length then v else m.getD j 0 := by
  rw [List.getD_eq_getElem?_getD, List.getElem?_set, List.getD_eq_getElem?_getD]
  split_ifs with hij hlt hboth hboth hboth
  · rfl
  · exact absurd ⟨hij, hlt⟩ hboth
  · exact absurd hboth.2 hlt
  · rw [← hij, List.getElem?_eq_none (not_lt.mp hlt)]
  · exact absurd hboth.1 hij
  · rfl

/-- Every tangent of `m'` is one of `m`, scaled down. -/
def Flatter (m m' : List ℝ) : Prop :=
  m'.length = m.length ∧ ∀ j, ∃ θ ∈ Set.Icc (0 : ℝ) 1, m'.getD j 0 = θ * m.getD j 0

theorem Flatter.refl (m : List ℝ) : Flatter m m :=
  ⟨rfl, fun j => ⟨1, by simp, (one_mul _).symm⟩⟩

/-- Scaling one tangent down. -/
theorem flatter_set (m : List ℝ) (i : ℕ) {θ : ℝ} (hθ : θ ∈ Set.Icc (0 : ℝ) 1)
    (hv : v = θ * m.getD i 0) : Flatter m (m.set i v) := by
  refine ⟨List.length_set, fun j => ?_⟩
  rw [getD_set]
  split_ifs with hij
  · exact ⟨θ, hθ, by rw [hv, hij.1]⟩
  · exact ⟨1, by simp, (one_mul _).symm⟩

theorem Flatter.trans {m'' : List ℝ} (h : Flatter m m') (h' : Flatter m' m'') : Flatter m m'' := by
  refine ⟨h'.1.trans h.1, fun j => ?_⟩
  obtain ⟨θ, hθ, heq⟩ := h.2 j
  obtain ⟨η, hη, heq'⟩ := h'.2 j
  refine ⟨η * θ, ⟨mul_nonneg hη.1 hθ.1, mul_le_one₀ hη.2 hθ.1 hθ.2⟩, ?_⟩
  rw [heq', heq, mul_assoc]

/-- The tangents of a segment, written in turn. -/
theorem flatter_set_set (m : List ℝ) (i : ℕ) {θ x y : ℝ} (hθ : θ ∈ Set.Icc (0 : ℝ) 1)
    (hx : x = θ * m.getD i 0) (hy : y = θ * m.getD (i + 1) 0) :
    Flatter m ((m.set i x).set (i + 1) y) := by
  apply (flatter_set m i hθ hx).trans
  apply flatter_set _ _ hθ
  rw [getD_set, if_neg (by omega), hy]

theorem getD_set_set (x y : ℝ) (hi : i + 1 < m.length) :
    ((m.set i x).set (i + 1) y).getD i 0 = x ∧
      ((m.set i x).set (i + 1) y).getD (i + 1) 0 = y := by
  constructor
  · rw [getD_set, if_neg (by omega), getD_set, if_pos ⟨rfl, by omega⟩]
  · rw [getD_set, List.length_set, if_pos ⟨rfl, hi⟩]

/-- The tangents at the ends of segment `i` point the way of its secant. -/
def Agrees (d m : List ℝ) (i : ℕ) : Prop :=
  0 ≤ d.getD i 0 * m.getD i 0 ∧ 0 ≤ d.getD i 0 * m.getD (i + 1) 0

/-- The tangents at the ends of segment `i` fit its secant. -/
def FitsAt (d m : List ℝ) (i : ℕ) : Prop :=
  Hermite.Fits (d.getD i 0) (m.getD i 0) (m.getD (i + 1) 0)

theorem Agrees.flatter (h : Agrees d m i) (hflat : Flatter m m') : Agrees d m' i := by
  obtain ⟨θ, hθ, heq⟩ := hflat.2 i
  obtain ⟨η, hη, heq'⟩ := hflat.2 (i + 1)
  constructor
  · rw [heq, mul_left_comm]
    exact mul_nonneg hθ.1 h.1
  · rw [heq', mul_left_comm]
    exact mul_nonneg hη.1 h.2

theorem FitsAt.flatter (h : FitsAt d m i) (hflat : Flatter m m') : FitsAt d m' i := by
  obtain ⟨θ, hθ, heq⟩ := hflat.2 i
  obtain ⟨η, hη, heq'⟩ := hflat.2 (i + 1)
  rw [FitsAt, heq, heq']
  exact h.scale hθ hη

/-- How far outside the circle the tangents of a segment lie. -/
def steepness (d m : List ℝ) (i : ℕ) : ℝ :=
  m.getD i 0 / d.getD i 0 * (m.getD i 0 / d.getD i 0) +
    m.getD (i + 1) 0 / d.getD i 0 * (m.getD (i + 1) 0 / d.getD i 0)

/-- Limiting a segment scales both of its tangents by one factor. -/
theorem limitSegment_eq (d m : List ℝ) (i : ℕ) : limitSegment d m i =
    if d.getD i 0 = 0 then (m.set i 0).set (i + 1) 0
    else if 9 < steepness d m i then
      (m.set i (3 / √(steepness d m i) * m.getD i 0)).set (i + 1)
        (3 / √(steepness d m i) * m.getD (i + 1) 0)
    else m := by
  by_cases hd : d.getD i 0 = 0
  · rw [limitSegment, if_pos hd, if_pos hd]
  · rw [limitSegment, if_neg hd, if_neg hd]
    simp only [mul_assoc, div_mul_cancel₀ _ hd]
    rfl

/-- Limiting a segment only makes tangents flatter. -/
theorem flatter_limitSegment (d m : List ℝ) (i : ℕ) : Flatter m (limitSegment d m i) := by
  rw [limitSegment_eq]
  split_ifs with hd hs
  · exact flatter_set_set m i ⟨le_rfl, zero_le_one⟩ (zero_mul _).symm (zero_mul _).symm
  · exact flatter_set_set m i (Hermite.radius_mem_Icc hs) rfl rfl
  · exact Flatter.refl m

/-- Limiting a segment makes its tangents fit. -/
theorem fitsAt_limitSegment (hi : i + 1 < m.length) (h : Agrees d m i) :
    FitsAt d (limitSegment d m i) i := by
  rw [FitsAt, limitSegment_eq]
  split_ifs with hd hs
  · rw [(getD_set_set 0 0 hi).1, (getD_set_set 0 0 hi).2]
    exact Hermite.fits_zero _
  · rw [(getD_set_set _ _ hi).1, (getD_set_set _ _ hi).2]
    exact Hermite.fits_scaled hd h.1 h.2 rfl hs
  · exact Hermite.fits_of_circle hd h.1 h.2 (not_lt.mp hs)

/-- **The limiting pass.** If the tangents point the way of the secants, then after the pass
those of every segment fit. -/
theorem fitsAt_limited (hn : n < m.length) (h : ∀ i < n, Agrees d m i) :
    ∀ i < n, FitsAt d ((List.range n).foldl (limitSegment d) m) i := by
  have hpass : Flatter m ((List.range n).foldl (limitSegment d) m) ∧
      ∀ i < n, FitsAt d ((List.range n).foldl (limitSegment d) m) i := by
    -- what the segments so far have reached stays, as later steps only make tangents flatter
    apply Loop.range_rule (P := fun c m' => Flatter m m' ∧ ∀ i < c, FitsAt d m' i) n
    · exact ⟨Flatter.refl m, fun i hi => absurd hi (Nat.not_lt_zero i)⟩
    · rintro c m' hc ⟨hflat, hfits⟩
      have hstep := flatter_limitSegment d m' c
      refine ⟨hflat.trans hstep, fun i hi => ?_⟩
      rcases Nat.lt_succ_iff_lt_or_eq.mp hi with hlt | rfl
      · exact (hfits i hlt).flatter hstep
      · apply fitsAt_limitSegment
        · rw [hflat.1]
          omega
        · exact (h i hc).flatter hflat
  exact hpass.2

/-! ### The tangents of a run -/

theorem length_startTangents (d : List ℝ) (n : ℕ) : (startTangents d n).length = n := by
  apply Loop.range'_rule (P := fun _ (m : List ℝ) => m.length = n)
  · rw [List.length_set, List.length_set, List.length_replicate]
  · exact fun _ _ _ _ hm => List.length_set.trans hm

/-- The tangents a run starts with: the secants at its ends, and the inner tangents. -/
theorem getD_startTangents (d : List ℝ) (hn : 2 ≤ n) (hj : j < n) :
    (startTangents d n).getD j 0 = if 1 ≤ j ∧ j < n - 1 then innerTangent d j
      else if j = n - 1 then d.getD (n - 2) 0 else if j = 0 then d.getD 0 0 else 0 := by
  have hloop : (startTangents d n).length = n ∧ ∀ j < n, (startTangents d n).getD j 0 =
      if 1 ≤ j ∧ j < 1 + (n - 2) then innerTangent d j
      else if j = n - 1 then d.getD (n - 2) 0 else if j = 0 then d.getD 0 0 else 0 := by
    -- the invariant of the loop: the inner tangents below the counter are set
    apply Loop.range'_rule (P := fun c (m : List ℝ) => m.length = n ∧ ∀ j < n, m.getD j 0 =
      if 1 ≤ j ∧ j < c then innerTangent d j
      else if j = n - 1 then d.getD (n - 2) 0 else if j = 0 then d.getD 0 0 else 0)
    · refine ⟨by simp, fun j hj => ?_⟩
      rw [if_neg (by omega), getD_set, getD_set, List.length_set, List.length_replicate]
      apply if_congr (by omega) rfl
      apply if_congr (by omega) rfl
      simp [hj]
    · rintro i m hle hlt ⟨hlength, hm⟩
      refine ⟨List.length_set.trans hlength, fun j hj => ?_⟩
      rw [getD_set, hm j hj, hlength]
      by_cases hij : i = j
      · rw [if_pos ⟨hij, hij ▸ hj⟩, if_pos (by omega), hij]
      · rw [if_neg (fun h => hij h.1)]
        apply if_congr _ rfl rfl
        omega
  rw [hloop.2 j hj]
  apply if_congr _ rfl rfl
  omega

theorem mul_innerTangent_nonneg (d : List ℝ) (i : ℕ) :
    0 ≤ d.getD (i - 1) 0 * innerTangent d i ∧ 0 ≤ d.getD i 0 * innerTangent d i := by
  rw [innerTangent]
  split_ifs with h
  · simp
  · constructor
    · nlinarith [mul_self_nonneg (d.getD (i - 1) 0)]
    · nlinarith [mul_self_nonneg (d.getD i 0)]

/-- The tangents a run starts with point the way of the secants. -/
theorem agrees_startTangents (d : List ℝ) (hi : i + 1 < n) : Agrees d (startTangents d n) i := by
  have hn : 2 ≤ n := by omega
  constructor
  · rw [getD_startTangents d hn (by omega)]
    split_ifs with hinner hlast hfirst
    · exact (mul_innerTangent_nonneg d i).2
    · omega
    · rw [hfirst]
      exact mul_self_nonneg _
    · simp
  · rw [getD_startTangents d hn hi]
    split_ifs with hinner hlast
    · exact (mul_innerTangent_nonneg d (i + 1)).1
    · rw [show n - 2 = i by omega]
      exact mul_self_nonneg _
    · omega
    · simp

theorem getD_secants (hi : i + 1 < ys.length) :
    (secants ys).getD i 0 = ys.getD (i + 1) 0 - ys.getD i 0 := by
  rw [secants, List.getD_eq_getElem?_getD, List.getElem?_map, List.getElem?_range (by omega)]
  rfl

/-- **Tangents of a run.** Those of every segment fit its secant. -/
theorem fits_monotoneTangents (hi : i + 1 < ys.length) :
    Hermite.Fits (ys.getD (i + 1) 0 - ys.getD i 0) ((monotoneTangents ys).getD i 0)
      ((monotoneTangents ys).getD (i + 1) 0) := by
  rw [← getD_secants hi]
  apply fitsAt_limited (d := secants ys) (m := startTangents (secants ys) ys.length)
  · rw [length_startTangents]
    omega
  · exact fun j hj => agrees_startTangents _ (by omega)
  · omega

/-! ### Samples -/

variable {values xs ys : List (Option ℝ)} {out out' : List (Option ℝ)} {run : List ℝ}
  {p q x : ℕ} {y0 y1 m0 m1 : ℝ}

@[simp] theorem hermite_zero (y0 y1 m0 m1 : ℝ) : hermite 0 y0 y1 m0 m1 = y0 := by
  simp [hermite]

/-- A segment whose tangents are multiples of the secant is a shape of its corridor. -/
theorem hermite_eq_shape (t y0 y1 a b : ℝ) :
    hermite t y0 y1 (a * (y1 - y0)) (b * (y1 - y0)) = y0 + (y1 - y0) * Hermite.shape a b t := by
  simp only [hermite, Hermite.shape]
  ring

/-- The samples of segment `p` between two values. -/
def SegmentAt (k p : ℕ) (out : List (Option ℝ)) : Option ℝ → Option ℝ → Prop
  | some y0, some y1 => ∃ m0 m1, Hermite.Fits (y1 - y0) m0 m1 ∧
      ∀ s < k, out[p * k + s]? = some (some (hermite (s / k) y0 y1 m0 m1))
  | _, _ => ∀ s, 0 < s → s < k → out[p * k + s]? = some none

/-- The samples of the values from `i` on. -/
structure Sampled (k i : ℕ) (values out : List (Option ℝ)) : Prop where
  points : ∀ q v, values[q]? = some v → out[(i + q) * k]? = some v
  segments : ∀ q v w, values[q]? = some v → values[q + 1]? = some w → SegmentAt k (i + q) out v w

theorem slot_add_le (h : p < q) (k : ℕ) : p * k + k ≤ q * k := by
  rw [← Nat.succ_mul]
  exact Nat.mul_le_mul_right k h

theorem length_writeSegment (k p : ℕ) (y0 y1 m0 m1 : ℝ) (out : List (Option ℝ)) :
    (writeSegment k p y0 y1 m0 m1 out).length = out.length := by
  rw [writeSegment, List.length_set]
  exact Loop.length_foldl_set (fun s => some (hermite (s / k) y0 y1 m0 m1)) out (p * k) k

/-- What a segment writes. -/
theorem getElem?_writeSegment (hfit : (p + 1) * k < out.length) (y0 y1 m0 m1 : ℝ) (x : ℕ) :
    (writeSegment k p y0 y1 m0 m1 out)[x]? = if x = (p + 1) * k then some (some y1)
      else if p * k ≤ x ∧ x < p * k + k then
        some (some (hermite ((x - p * k : ℕ) / k) y0 y1 m0 m1))
      else out[x]? := by
  have hlength := Loop.length_foldl_set (fun s => some (hermite (s / k) y0 y1 m0 m1)) out (p * k) k
  rw [Nat.succ_mul] at hfit ⊢
  rw [writeSegment, List.getElem?_set, hlength, Nat.succ_mul]
  by_cases hx : x = p * k + k
  · rw [if_pos hx.symm, if_pos hfit, if_pos hx]
  · rw [if_neg (Ne.symm hx), if_neg hx]
    exact Loop.getElem?_foldl_set (fun s => some (hermite (s / k) y0 y1 m0 m1)) out (p * k) k
      hfit.le x

theorem SegmentAt.congr {v w : Option ℝ} (h : SegmentAt k p out v w)
    (hsame : ∀ s < k, out'[p * k + s]? = out[p * k + s]?) : SegmentAt k p out' v w := by
  match v, w, h with
  | some _, some _, ⟨m0, m1, hfits, h⟩ =>
    exact ⟨m0, m1, hfits, fun s hs => (hsame s hs).trans (h s hs)⟩
  | none, _, h => exact fun s hpos hs => (hsame s hs).trans (h s hpos hs)
  | some _, none, h => exact fun s hpos hs => (hsame s hs).trans (h s hpos hs)

/-- Samples are read off the slots up to the last value. -/
theorem Sampled.congr (h : Sampled k i values out) (hk : 0 < k)
    (hsame : ∀ x < (i + values.length) * k, out'[x]? = out[x]?) : Sampled k i values out' := by
  have hlt : ∀ q v, values[q]? = some v → ∀ s < k, (i + q) * k + s < (i + values.length) * k := by
    intro q v hv s hs
    obtain ⟨hq, -⟩ := List.getElem?_eq_some_iff.mp hv
    have hle := slot_add_le (Nat.add_lt_add_left hq i) k
    omega
  constructor
  · intro q v hv
    exact (hsame _ (hlt q v hv 0 hk)).trans (h.points q v hv)
  · intro q v w hv hw
    exact (h.segments q v w hv hw).congr fun s hs => hsame _ (hlt q v hv s hs)

/-- Samples of two stretches of values, and of the segment between them. -/
theorem Sampled.append (hxs : Sampled k i xs out) (hys : Sampled k (i + xs.length) ys out)
    (hjoin : ∀ v w, xs.getLast? = some v → ys.head? = some w →
      SegmentAt k (i + (xs.length - 1)) out v w) : Sampled k i (xs ++ ys) out := by
  have hback : ∀ q, xs.length ≤ q → i + xs.length + (q - xs.length) = i + q := by
    intro q hq
    omega
  constructor
  · intro q v hv
    rw [List.getElem?_append] at hv
    split_ifs at hv with hq
    · exact hxs.points q v hv
    · have h := hys.points _ v hv
      rwa [hback q (not_lt.mp hq)] at h
  · intro q v w hv hw
    rw [List.getElem?_append] at hv hw
    split_ifs at hv hw with hq hq'
    · exact hxs.segments q v w hv hw
    · -- the segment between the stretches
      have hlast : q = xs.length - 1 := by omega
      rw [hlast]
      apply hjoin v w
      · rw [List.getLast?_eq_getElem?, ← hlast]
        exact hv
      · rw [List.head?_eq_getElem?]
        rwa [show q + 1 - xs.length = 0 by omega] at hw
    · omega
    · rw [show q + 1 - xs.length = q - xs.length + 1 by omega] at hw
      have h := hys.segments _ v w hv hw
      rwa [hback q (not_lt.mp hq)] at h

/-! ### Runs -/

/-- The first `c` segments of a run are written, and nothing else. -/
structure Written (k i c : ℕ) (run : List ℝ) (out out' : List (Option ℝ)) : Prop where
  length : out'.length = out.length
  points : ∀ q ≤ c, out'[(i + q) * k]? = some (some (run.getD q 0))
  segments : ∀ q < c, SegmentAt k (i + q) out' (some (run.getD q 0)) (some (run.getD (q + 1) 0))
  before : ∀ x < i * k, out'[x]? = out[x]?
  after : ∀ x, (i + c) * k < x → out'[x]? = out[x]?

theorem written_zero (run : List ℝ) (hfit : i * k < out.length) :
    Written k i 0 run out (out.set (i * k) (some (run.getD 0 0))) := by
  refine ⟨List.length_set, fun q hq => ?_, fun q hq => absurd hq (Nat.not_lt_zero q), ?_, ?_⟩
  · rw [Nat.le_zero.mp hq, add_zero, List.getElem?_set_self hfit]
  · exact fun x hx => List.getElem?_set_ne hx.ne'
  · exact fun x hx => List.getElem?_set_ne hx.ne

/-- Writing the next segment. -/
theorem Written.succ {c : ℕ} (h : Written k i c run out out') (hk : 0 < k)
    (hfit : (i + c + 1) * k < out.length)
    (hfits : Hermite.Fits (run.getD (c + 1) 0 - run.getD c 0) m0 m1) :
    Written k i (c + 1) run out
      (writeSegment k (i + c) (run.getD c 0) (run.getD (c + 1) 0) m0 m1 out') := by
  have hslot := getElem?_writeSegment (hfit.trans_eq h.length.symm) (run.getD c 0)
    (run.getD (c + 1) 0) m0 m1
  have hnext : (i + c) * k + k = (i + c + 1) * k := (Nat.succ_mul _ _).symm
  -- slots of the segments before stay as they are
  have hold : ∀ x < (i + c) * k,
      (writeSegment k (i + c) (run.getD c 0) (run.getD (c + 1) 0) m0 m1 out')[x]? = out'[x]? := by
    intro x hx
    rw [hslot, if_neg (by omega), if_neg (by omega)]
  -- the segment itself
  have hnew : ∀ s < k,
      (writeSegment k (i + c) (run.getD c 0) (run.getD (c + 1) 0) m0 m1 out')[(i + c) * k + s]? =
        some (some (hermite (s / k) (run.getD c 0) (run.getD (c + 1) 0) m0 m1)) := by
    intro s hs
    rw [hslot, if_neg (by omega), if_pos (by omega), Nat.add_sub_cancel_left]
  refine ⟨(length_writeSegment ..).trans h.length, fun q hq => ?_, fun q hq => ?_, ?_, ?_⟩
  · rcases Nat.lt_succ_iff_lt_or_eq.mp (Nat.lt_succ_of_le hq) with hlt | rfl
    · rcases Nat.lt_succ_iff_lt_or_eq.mp hlt with hlt | rfl
      · have hle := slot_add_le (Nat.add_lt_add_left hlt i) k
        rw [hold _ (by omega)]
        exact h.points q hlt.le
      · have hzero := hnew 0 hk
        rwa [Nat.cast_zero, zero_div, hermite_zero] at hzero
    · rw [hslot, if_pos (by rw [Nat.add_assoc])]
  · rcases Nat.lt_succ_iff_lt_or_eq.mp hq with hlt | rfl
    · apply (h.segments q hlt).congr
      intro s hs
      have hle := slot_add_le (Nat.add_lt_add_left hlt i) k
      exact hold _ (by omega)
    · exact ⟨m0, m1, hfits, hnew⟩
  · intro x hx
    have hle : i * k ≤ (i + c) * k := Nat.mul_le_mul_right k (Nat.le_add_right i c)
    rw [hold x (by omega)]
    exact h.before x hx
  · intro x hx
    rw [← Nat.add_assoc] at hx
    rw [hslot, if_neg (by omega), if_neg (by omega)]
    exact h.after x (by omega)

/-- What a run writes. -/
theorem written_writeRun (hk : 0 < k) (hrun : run ≠ [])
    (hfit : (i + (run.length - 1)) * k < out.length) :
    Written k i (run.length - 1) run out (writeRun k i run out) := by
  have hpos := List.length_pos_iff.mpr hrun
  have hle : ∀ c ≤ run.length - 1, (i + c) * k < out.length := fun c hc =>
    (Nat.mul_le_mul_right k (Nat.add_le_add_left hc i)).trans_lt hfit
  have hzero := written_zero run (hle 0 (Nat.zero_le _))
  rw [writeRun]
  split_ifs with hone
  · rw [hone]
    exact hzero
  · apply Loop.range_rule (P := fun c out' => Written k i c run out out') _ hzero
    intro c out' hc h
    exact h.succ hk (hle (c + 1) hc) (fits_monotoneTangents (by omega))

/-! ### Series of runs -/

/-- The samples a run writes are samples of its values. -/
theorem Written.sampled (h : Written k i (run.length - 1) run out out') :
    Sampled k i (run.map some) out' := by
  have hvalue : ∀ q v, (run.map some)[q]? = some v → q < run.length ∧ v = some (run.getD q 0) := by
    intro q v hv
    rw [List.getElem?_map] at hv
    obtain ⟨y, hy, rfl⟩ := Option.map_eq_some_iff.mp hv
    exact ⟨(List.getElem?_eq_some_iff.mp hy).1, by rw [List.getD_eq_getElem?_getD, hy]; rfl⟩
  constructor
  · intro q v hv
    obtain ⟨hq, rfl⟩ := hvalue q v hv
    exact h.points q (by omega)
  · intro q v w hv hw
    obtain ⟨-, rfl⟩ := hvalue q v hv
    obtain ⟨hq, rfl⟩ := hvalue (q + 1) w hw
    exact h.segments q (by omega)

/-- The values in front of the first null are a run. -/
theorem map_some_run (values : List (Option ℝ)) :
    (values.takeWhile Option.isSome).reduceOption.map some = values.takeWhile Option.isSome := by
  induction values with
  | nil => rfl
  | cons v values ih =>
    cases v with
    | none => rfl
    | some y => exact congrArg (some y :: ·) ih

/-- A maximal run ends at a null. -/
theorem eq_none_of_head_dropWhile {w : Option ℝ}
    (h : (values.dropWhile Option.isSome).head? = some w) : w = none := by
  have hnot := List.head?_dropWhile_not Option.isSome values
  rw [h] at hnot
  simpa using hnot

theorem cons_eq_run_append (y : ℝ) (values : List (Option ℝ)) :
    some y :: values = (y :: (values.takeWhile Option.isSome).reduceOption).map some ++
      values.dropWhile Option.isSome := by
  rw [List.map_cons, map_some_run, List.cons_append, List.takeWhile_append_dropWhile]

theorem segmentAt_of_null {v w : Option ℝ} (hnull : v = none ∨ w = none)
    (h : ∀ s, 0 < s → s < k → out[p * k + s]? = some none) : SegmentAt k p out v w := by
  rcases hnull with rfl | rfl
  · exact h
  · cases v with
    | none => exact h
    | some y => exact h

/-- A stretch of values with blank slots behind it, and the samples of what follows a null. -/
theorem Sampled.extend (hk : 0 < k) (hxs : Sampled k i xs out) (hne : xs ≠ [])
    (hblank : ∀ x, (i + (xs.length - 1)) * k < x → x < out.length → out[x]? = some none)
    (hsame : ∀ x < (i + xs.length) * k, out'[x]? = out[x]?)
    (hys : Sampled k (i + xs.length) ys out')
    (hfit : ys ≠ [] → (i + xs.length) * k < out.length)
    (hnull : ∀ v w, xs.getLast? = some v → ys.head? = some w → v = none ∨ w = none) :
    Sampled k i (xs ++ ys) out' := by
  have hpos := List.length_pos_iff.mpr hne
  have hnext : (i + (xs.length - 1)) * k + k = (i + xs.length) * k := by
    rw [← Nat.succ_mul]
    congr 1
    omega
  -- between the two stretches one of the values is null, and its slots were never written
  apply (hxs.congr hk hsame).append hys
  intro v w hv hw
  apply segmentAt_of_null (hnull v w hv hw)
  intro s hs hlt
  have hys' : ys ≠ [] := by
    rintro rfl
    cases hw
  have hroom := hfit hys'
  rw [hsame _ (by omega)]
  exact hblank _ (by omega) (by omega)

/-- **Writing all runs.** From blank slots on, the runs of the values are sampled, and the slots
before them stay as they are. -/
theorem sampled_writeRuns (hk : 0 < k) (hfit : ∀ q < values.length, (i + q) * k < out.length)
    (hblank : ∀ x, i * k ≤ x → x < out.length → out[x]? = some none) :
    (writeRuns k i values out).length = out.length ∧
      (∀ x < i * k, (writeRuns k i values out)[x]? = out[x]?) ∧
      Sampled k i values (writeRuns k i values out) := by
  induction i, values, out using writeRuns.induct k with
  | case1 i out =>
    rw [writeRuns]
    exact ⟨rfl, fun _ _ => rfl, fun q v hv => by simp at hv, fun q v w hv => by simp at hv⟩
  | case2 i values out ih =>
    rw [writeRuns]
    have hnext : (i + 1) * k = i * k + k := Nat.succ_mul i k
    have hfit' : ∀ q < values.length, (i + 1 + q) * k < out.length := by
      intro q hq
      have h := hfit (q + 1) (Nat.succ_lt_succ hq)
      rwa [Nat.add_comm q 1, ← Nat.add_assoc] at h
    obtain ⟨hlength, hbefore, hsampled⟩ := ih hfit' fun x hx => hblank x (by omega)
    refine ⟨hlength, fun x hx => hbefore x (by omega), ?_⟩
    -- the slot of the null is blank already
    have hnull : Sampled k i [none] out := by
      constructor
      · intro q v hv
        obtain ⟨hq, hv⟩ := List.getElem?_eq_some_iff.mp hv
        obtain rfl := Nat.lt_one_iff.mp hq
        rw [← hv]
        exact hblank _ le_rfl (hfit 0 (Nat.succ_pos _))
      · intro q v w _ hw
        simp at hw
    apply hnull.extend hk (List.cons_ne_nil _ _) _ hbefore hsampled
    · exact fun hne => hfit' 0 (List.length_pos_iff.mpr hne)
    · exact fun v w hv _ => Or.inl (Option.some.inj hv).symm
    · exact fun x hx => hblank x hx.le
  | case3 i y values out run ih =>
    rw [writeRuns]
    have hlist : some y :: values = run.map some ++ values.dropWhile Option.isSome :=
      cons_eq_run_append y values
    have hcount : (some y :: values).length = run.length +
        (values.dropWhile Option.isSome).length := by
      rw [hlist, List.length_append, List.length_map]
    have hpos : 0 < run.length := Nat.succ_pos _
    have hstart : i * k ≤ (i + (run.length - 1)) * k :=
      Nat.mul_le_mul_right k (Nat.le_add_right _ _)
    have hend : (i + (run.length - 1)) * k ≤ (i + run.length) * k :=
      Nat.mul_le_mul_right k (Nat.add_le_add_left (Nat.sub_le _ _) i)
    have hwritten : Written k i (run.length - 1) run out (writeRun k i run out) :=
      written_writeRun hk (List.cons_ne_nil _ _) (hfit (run.length - 1) (by omega))
    have hfit' : ∀ q < (values.dropWhile Option.isSome).length,
        (i + run.length + q) * k < (writeRun k i run out).length := by
      intro q hq
      rw [hwritten.length, Nat.add_assoc]
      exact hfit (run.length + q) (by omega)
    have hblank' : ∀ x, (i + (run.length - 1)) * k < x → x < (writeRun k i run out).length →
        (writeRun k i run out)[x]? = some none := by
      intro x hx hlt
      rw [hwritten.after x hx]
      exact hblank x (by omega) (hwritten.length ▸ hlt)
    have hstrict : (i + (run.length - 1)) * k < (i + run.length) * k :=
      Nat.mul_lt_mul_of_pos_right (by omega) hk
    obtain ⟨hlength, hbefore, hsampled⟩ := ih hfit' fun x hx => hblank' x (by omega)
    refine ⟨hlength.trans hwritten.length, fun x hx => ?_, ?_⟩
    · rw [hbefore x (by omega)]
      exact hwritten.before x hx
    · rw [hlist]
      apply hwritten.sampled.extend hk
      · simp [run]
      · rwa [List.length_map]
      · rwa [List.length_map]
      · rwa [List.length_map]
      · intro hne
        rw [List.length_map]
        exact hfit' 0 (List.length_pos_iff.mpr hne)
      · exact fun v w _ hw => Or.inr (eq_none_of_head_dropWhile hw)

/-! ### No invented shape -/

/-- A series sampled with `k` samples a segment that invents no shape: it passes through every
value, a segment between two measured points stays in their corridor and is monotone, and a
segment at a null is a gap. -/
structure Smooths (values : List (Option ℝ)) (k : ℕ) (out : List (Option ℝ)) : Prop where
  slots : out.length = if values = [] then 0 else (values.length - 1) * k + 1
  points : ∀ i v, values[i]? = some v → out[i * k]? = some v
  corridors : ∀ i y0 y1, values[i]? = some (some y0) → values[i + 1]? = some (some y1) →
    ∃ f : ℕ → ℝ, (∀ s ≤ k, out[i * k + s]? = some (some (f s))) ∧
      (∀ s ≤ k, f s ∈ Set.uIcc y0 y1) ∧
      (MonotoneOn f (Set.Iic k) ∨ AntitoneOn f (Set.Iic k))
  gaps : ∀ i v w, values[i]? = some v → values[i + 1]? = some w → v = none ∨ w = none →
    ∀ s, 0 < s → s < k → out[i * k + s]? = some none

/-- The shape of a corridor stays in it and is monotone. -/
theorem corridor_of_fits {a b : ℝ} (ha : a ∈ Set.Icc (0 : ℝ) 3) (hb : b ∈ Set.Icc (0 : ℝ) 3)
    (hk : 0 < k) (y0 y1 : ℝ) :
    (∀ s ≤ k, y0 + (y1 - y0) * Hermite.shape a b ((s : ℝ) / k) ∈ Set.uIcc y0 y1) ∧
      (MonotoneOn (fun s : ℕ => y0 + (y1 - y0) * Hermite.shape a b ((s : ℝ) / k)) (Set.Iic k) ∨
        AntitoneOn (fun s : ℕ => y0 + (y1 - y0) * Hermite.shape a b ((s : ℝ) / k)) (Set.Iic k)) := by
  have hk' : (0 : ℝ) < k := Nat.cast_pos.mpr hk
  have hmem : ∀ s ≤ k, (s : ℝ) / k ∈ Set.Icc (0 : ℝ) 1 := fun s hs =>
    ⟨by positivity, (div_le_one hk').mpr (Nat.cast_le.mpr hs)⟩
  have hmono : ∀ s t : ℕ, s ≤ t → t ≤ k →
      Hermite.shape a b ((s : ℝ) / k) ≤ Hermite.shape a b ((t : ℝ) / k) := by
    intro s t hst ht
    apply Hermite.shape_mono ha hb (hmem s (hst.trans ht)).1 _ (hmem t ht).2
    exact div_le_div_of_nonneg_right (Nat.cast_le.mpr hst) hk'.le
  constructor
  · intro s hs
    obtain ⟨hlow, hhigh⟩ := Hermite.shape_mem_Icc ha hb (hmem s hs)
    rw [Set.mem_uIcc]
    -- the shape runs from 0 to 1, so the direction is that of the values
    rcases le_total y0 y1 with h | h
    · exact Or.inl ⟨by nlinarith, by nlinarith⟩
    · exact Or.inr ⟨by nlinarith, by nlinarith⟩
  · rcases le_total y0 y1 with h | h
    · refine Or.inl fun s _ t ht hst => ?_
      exact add_le_add_right (mul_le_mul_of_nonneg_left (hmono s t hst ht) (sub_nonneg.mpr h)) y0
    · refine Or.inr fun s _ t ht hst => ?_
      exact add_le_add_right (mul_le_mul_of_nonpos_left (hmono s t hst ht) (sub_nonpos.mpr h)) y0

/-- Samples invent no shape. -/
theorem Sampled.smooths (hk : 0 < k) (h : Sampled k 0 values out)
    (hslots : out.length = if values = [] then 0 else (values.length - 1) * k + 1) :
    Smooths values k out := by
  have hpoint : ∀ i v, values[i]? = some v → out[i * k]? = some v := by
    intro i v hv
    have hpoint := h.points i v hv
    rwa [Nat.zero_add] at hpoint
  have hsegment : ∀ i v w, values[i]? = some v → values[i + 1]? = some w →
      SegmentAt k i out v w := by
    intro i v w hv hw
    have hsegment := h.segments i v w hv hw
    rwa [Nat.zero_add] at hsegment
  refine ⟨hslots, hpoint, fun i y0 y1 hv hw => ?_, fun i v w hv hw hnull => ?_⟩
  · obtain ⟨m0, m1, ⟨a, ha, b, hb, rfl, rfl⟩, hsamples⟩ := hsegment i _ _ hv hw
    obtain ⟨hcorridor, hmonotone⟩ := corridor_of_fits ha hb hk y0 y1
    refine ⟨_, fun s hs => ?_, hcorridor, hmonotone⟩
    rcases Nat.lt_or_eq_of_le hs with hlt | rfl
    · rw [hsamples s hlt, hermite_eq_shape]
    · -- the last sample is the next point
      have hone : (s : ℝ) / s = 1 := div_self (Nat.cast_ne_zero.mpr hk.ne')
      rw [← Nat.succ_mul, hpoint _ _ hw, hone, Hermite.shape_one, mul_one, add_sub_cancel]
  · have hgap := hsegment i v w hv hw
    match v, w, hgap with
    | some _, some _, _ => simp at hnull
    | none, _, hgap => exact hgap
    | some _, none, hgap => exact hgap

theorem sampleRate_pos (samplesPerSegment : ℝ) : 0 < sampleRate samplesPerSegment := by
  rw [sampleRate, Int.lt_toNat]
  exact lt_max_of_lt_left (by decide)

theorem sampleRate_natCast (hk : 0 < k) : sampleRate k = k := by
  have hfloor : ⌊(k : ℝ) + 1 / 2⌋ = k := by
    rw [Int.floor_eq_iff]
    constructor <;> push_cast <;> linarith
  rw [sampleRate, hfloor, max_eq_right (by omega), Int.toNat_natCast]

/-- One sample a segment is the series itself. -/
theorem sampled_one (values : List (Option ℝ)) : Sampled 1 0 values values := by
  constructor
  · intro q v hv
    rwa [Nat.mul_one, Nat.zero_add]
  · intro q v w hv hw
    rw [Nat.zero_add]
    match v, w, hv with
    | some y0, some y1, hv =>
      refine ⟨0, 0, Hermite.fits_zero _, fun s hs => ?_⟩
      obtain rfl := Nat.lt_one_iff.mp hs
      rw [Nat.mul_one, Nat.add_zero, hv, Nat.cast_zero, zero_div, hermite_zero]
    | none, _, _ => exact fun s hpos hs => by omega
    | some _, none, _ => exact fun s hpos hs => by omega

/-- A single value has no segment. -/
theorem sampled_singleton (k : ℕ) (v : Option ℝ) : Sampled k 0 [v] [v] := by
  constructor
  · intro q w hw
    obtain ⟨hq, hw⟩ := List.getElem?_eq_some_iff.mp hw
    obtain rfl := Nat.lt_one_iff.mp hq
    rw [Nat.add_zero, Nat.zero_mul, ← hw]
    rfl
  · intro q w w' _ hw'
    simp at hw'

/-- **Smoothing invents no shape.** For every series of numbers and nulls, whatever the rate, the
samples pass through the values, stay in the corridors of measured neighbours and are monotone
there, and leave a gap at every null; a whole rate from one on is taken as it is. -/
theorem smooths_smoothSeries :
    (∀ (values : List (Option ℝ)) (samplesPerSegment : ℝ),
      Smooths values (sampleRate samplesPerSegment) (smoothSeries values samplesPerSegment)) ∧
    ∀ k : ℕ, sampleRate (k + 1 : ℕ) = k + 1 := by
  refine ⟨fun values samplesPerSegment => ?_, fun k => sampleRate_natCast (Nat.succ_pos k)⟩
  have hk := sampleRate_pos samplesPerSegment
  simp only [smoothSeries]
  split_ifs with hzero hplain
  · rw [List.length_eq_zero_iff.mp hzero]
    refine ⟨rfl, ?_, ?_, ?_⟩ <;> simp
  · rcases hplain with hone | hone
    · -- a single value is returned as it is, and so are all at one sample a segment
      obtain ⟨v, rfl⟩ := List.length_eq_one_iff.mp hone
      exact (sampled_singleton _ v).smooths hk (by simp)
    · rw [hone]
      apply (sampled_one values).smooths Nat.one_pos
      rw [if_neg (fun h => hzero (List.length_eq_zero_iff.mpr h))]
      omega
  · -- the slots the samples are written into
    have hblank : ∀ x, 0 * sampleRate samplesPerSegment ≤ x →
        x < (List.replicate ((values.length - 1) * sampleRate samplesPerSegment + 1)
          (none : Option ℝ)).length →
        (List.replicate ((values.length - 1) * sampleRate samplesPerSegment + 1)
          (none : Option ℝ))[x]? = some none := by
      intro x _ hx
      rw [List.length_replicate] at hx
      rw [List.getElem?_replicate, if_pos hx]
    have hfit : ∀ q < values.length, (0 + q) * sampleRate samplesPerSegment <
        (List.replicate ((values.length - 1) * sampleRate samplesPerSegment + 1)
          (none : Option ℝ)).length := by
      intro q hq
      rw [List.length_replicate, Nat.zero_add]
      exact Nat.lt_succ_of_le (Nat.mul_le_mul_right _ (by omega))
    obtain ⟨hlength, -, hsampled⟩ := sampled_writeRuns hk hfit hblank
    apply hsampled.smooths hk
    rw [hlength, List.length_replicate, if_neg (fun h => hzero (List.length_eq_zero_iff.mpr h))]

end

end MonotoneSmooth

end HubScope
