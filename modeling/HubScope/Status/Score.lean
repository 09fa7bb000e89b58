import HubScope.Status.Percentile
import Mathlib.Algebra.Order.Round

/-!
# Status and score of an endpoint

From one snapshot of an endpoint two judgements are derived, each by a cascade of its own: the
status, and a score from 0 to 100. The score starts at 100, loses points for a low success rate
and for slow answers, and is capped by the status it should agree with.

Rates and percentiles are floating-point numbers in the program. The arithmetic is a parameter
without laws, so that what is proved holds of rounded numbers and of exact ones alike.

## Main definitions

* `Arithmetic` — what the cascades compute with
* `Status.Input`, `Status.evaluate`, `Status.score` — the snapshot and the two judgements

## Main results

* `Status.kind_evaluate` — when the status is which
* `Status.value_of_score` — the score is the deductions under the cap of the status
* `Status.score_agrees` — status and score agree
* `Status.nearestRank_rat` — on exact numbers the percentile is the one of the series
-/

set_option autoImplicit false

namespace HubScope

/-- Numbers with the operations the judgements use. `fixed` writes a number with so many
decimals. -/
class Arithmetic (F : Type) extends Div F, Mul F, Sub F, IntCast F where
  less : F → F → Bool
  round : F → ℤ
  ceil : F → ℤ
  fixed : ℕ → F → String

namespace Status

inductive Kind
  | healthy
  | degraded
  | down
  | failing
  deriving DecidableEq, Repr

/-- Why an endpoint is degraded. -/
inductive Cause
  | availability
  | latency
  deriving DecidableEq, Repr

/-- The number of consecutive failures that marks an endpoint as down. -/
def downThreshold : ℤ := 3

structure Sample where
  ok : Bool
  latencyMs : ℤ

/-- What is known about an endpoint. -/
structure Input (F : Type) where
  totalProbes : ℤ
  consecutiveFailures : ℤ
  lastError : String
  samples24h : List Sample
  baselineP50Ms : F
  hasBaseline : Bool

structure Result where
  kind : Kind
  reason : String
  causes : List Cause

structure ScoreResult where
  value : ℤ
  hasScore : Bool
  reasons : List String

section Judgements

variable {F : Type} [Arithmetic F]

/-- A decimal fraction. -/
def ratio (a b : ℤ) : F := (a : F) / (b : F)

/-- The least acceptable success rate of 24 hours. -/
def minSuccessRate : F := ratio 95 100

/-- How many times the baseline the 95th percentile may reach. -/
def latencyDegradeFactor : F := ((2 : ℤ) : F)

/-- The nearest-rank percentile. -/
def nearestRank (latencies : List ℤ) (p : ℤ) : F :=
  if latencies = [] then ((0 : ℤ) : F)
  else
    let sorted := latencies.insertionSort (· ≤ ·)
    let rank := max 1 (Arithmetic.ceil ((ratio p 100 : F) * ((latencies.length : ℤ) : F)))
    ((sorted.getD (rank - 1).toNat 0 : ℤ) : F)

/-- The share of successful samples, of some samples. -/
def successRate (samples : List Sample) : Option F :=
  if samples = [] then none
  else some (ratio (samples.countP (·.ok)) samples.length)

def latencies (samples : List Sample) : List ℤ := samples.map (·.latencyMs)

/-- The degradation by the success rate, with its text. -/
def lowCause (i : Input F) : List (Cause × String) :=
  let hundred : F := ((100 : ℤ) : F)
  match successRate (F := F) i.samples24h with
  | none => []
  | some rate =>
    if Arithmetic.less rate minSuccessRate then
      let percent := Arithmetic.fixed 1 (rate * hundred)
      let least := Arithmetic.fixed 0 ((minSuccessRate : F) * hundred)
      [(.availability, s!"24h 成功率 {percent}% 低于 {least}%")]
    else []

/-- The degradation by the latency, with its text. -/
def slowCause (i : Input F) : List (Cause × String) :=
  let thousand : F := ((1000 : ℤ) : F)
  if i.hasBaseline = true ∧ i.samples24h ≠ [] then
    let p95 : F := nearestRank (latencies i.samples24h) 95
    if Arithmetic.less (latencyDegradeFactor * i.baselineP50Ms) p95 then
      let seconds := Arithmetic.fixed 1 (p95 / thousand)
      let baseline := Arithmetic.fixed 1 (i.baselineP50Ms / thousand)
      [(.latency, s!"P95 延迟 {seconds}s 超过基线 2 倍(基线 {baseline}s)")]
    else []
  else []

/-- The status: down, failing, degraded for one or both causes, or healthy. -/
def evaluate (i : Input F) : Result :=
  let lastError := if i.lastError = "" then "未知错误" else i.lastError
  if downThreshold ≤ i.consecutiveFailures then
    ⟨.down, s!"连续 {i.consecutiveFailures} 次失败,最近错误: {lastError}", []⟩
  else if 0 < i.consecutiveFailures then
    ⟨.failing, s!"连续 {i.consecutiveFailures} 次失败,最近错误: {lastError}", []⟩
  else
    let found := lowCause i ++ slowCause i
    if found ≠ [] then ⟨.degraded, "；".intercalate (found.map (·.2)), found.map (·.1)⟩
    else if i.totalProbes = 0 then ⟨.healthy, "暂无探测数据", []⟩
    else ⟨.healthy, "运行正常", []⟩

def scoreCapDown : ℤ := 20
def scoreCapFailing : ℤ := 50
def scoreCapDegraded : ℤ := 80
def latencyDegradeDeduction : ℤ := 15

/-- The deduction for the success rate: a point for each percentage point that is missing. -/
def lowDeduction (i : Input F) : Option (ℤ × List String) :=
  let hundred : F := ((100 : ℤ) : F)
  match successRate (F := F) i.samples24h with
  | none => none
  | some rate =>
    if Arithmetic.less rate minSuccessRate then
      let deduction := Arithmetic.round ((minSuccessRate - rate) * hundred)
      let percent := Arithmetic.fixed 1 (rate * hundred)
      some (deduction, if 0 < deduction then [s!"24h 成功率 {percent}%,扣 {deduction} 分"] else [])
    else none

/-- The deduction for the latency. -/
def slowDeduction (i : Input F) : Option (ℤ × List String) :=
  if i.hasBaseline = true ∧ i.samples24h ≠ [] then
    let p95 : F := nearestRank (latencies i.samples24h) 95
    if Arithmetic.less (latencyDegradeFactor * i.baselineP50Ms) p95 then
      let millis := Arithmetic.fixed 0 p95
      some (latencyDegradeDeduction,
        [s!"P95 延迟 {millis} ms 超基线 2 倍,扣 {latencyDegradeDeduction} 分"])
    else none
  else none

/-- The score: 100 without the deductions, under the cap of the failures or of a degradation. -/
def score (i : Input F) : ScoreResult :=
  if i.totalProbes = 0 then ⟨0, false, []⟩
  else
    let deductions := (lowDeduction i).toList ++ (slowDeduction i).toList
    let value := 100 - (deductions.map (·.1)).sum
    let reasons := deductions.flatMap (·.2)
    let capped : ℤ × List String :=
      if downThreshold ≤ i.consecutiveFailures then
        (min value scoreCapDown,
          reasons ++ [s!"连续 {i.consecutiveFailures} 次失败,封顶 {scoreCapDown} 分"])
      else if 0 < i.consecutiveFailures then
        (min value scoreCapFailing,
          reasons ++ [s!"连续 {i.consecutiveFailures} 次失败,封顶 {scoreCapFailing} 分"])
      else if (lowDeduction i).isSome || (slowDeduction i).isSome then
        (min value scoreCapDegraded, reasons ++ [s!"性能降级,封顶 {scoreCapDegraded} 分"])
      else (value, reasons)
    ⟨min (max capped.1 0) 100, true, capped.2⟩

/-! ### Agreement -/

/-- The success rate gives a cause exactly when it costs points. -/
theorem lowCause_eq_nil_iff (i : Input F) : lowCause i = [] ↔ lowDeduction i = none := by
  unfold lowCause lowDeduction
  cases successRate (F := F) i.samples24h with
  | none => exact iff_of_true rfl rfl
  | some rate => by_cases hless : Arithmetic.less rate (minSuccessRate : F) = true <;> simp [hless]

/-- The latency gives a cause exactly when it costs points. -/
theorem slowCause_eq_nil_iff (i : Input F) : slowCause i = [] ↔ slowDeduction i = none := by
  unfold slowCause slowDeduction
  by_cases hbase : i.hasBaseline = true ∧ i.samples24h ≠ []
  · rw [if_pos hbase, if_pos hbase]
    by_cases hslow : Arithmetic.less (latencyDegradeFactor * i.baselineP50Ms)
        (nearestRank (latencies i.samples24h) 95) = true <;> simp [hslow]
  · exact iff_of_true (if_neg hbase) (if_neg hbase)

/-- The status, by the failures and by the deductions. -/
theorem kind_evaluate (i : Input F) : (evaluate i).kind =
    if downThreshold ≤ i.consecutiveFailures then .down
    else if 0 < i.consecutiveFailures then .failing
    else if (lowDeduction i).isSome || (slowDeduction i).isSome then .degraded
    else .healthy := by
  have hfound : lowCause i ++ slowCause i ≠ [] ↔
      ((lowDeduction i).isSome || (slowDeduction i).isSome) = true := by
    rw [ne_eq, List.append_eq_nil_iff, lowCause_eq_nil_iff, slowCause_eq_nil_iff]
    cases lowDeduction i <;> cases slowDeduction i <;> simp
  unfold evaluate
  dsimp only
  rw [if_congr hfound rfl rfl]
  split_ifs <;> rfl

/-- The cap of a status. -/
def Kind.cap : Kind → ℤ
  | .healthy => 100
  | .degraded => scoreCapDegraded
  | .down => scoreCapDown
  | .failing => scoreCapFailing

/-- The score is what the deductions leave, under the cap of the status; a healthy endpoint has
none. -/
theorem value_of_score (i : Input F) (h : (score i).hasScore = true) :
    ∃ v : ℤ, (score i).value = min (max (min v (evaluate i).kind.cap) 0) 100 ∧
      ((evaluate i).kind = .healthy → v = 100) := by
  rw [kind_evaluate]
  refine ⟨100 - (((lowDeduction i).toList ++ (slowDeduction i).toList).map (·.1)).sum, ?_, ?_⟩
  · unfold score at h ⊢
    split_ifs at h ⊢ with hprobes hdown hfailing hdegraded
    · rfl
    · rfl
    · rfl
    · -- without deductions nothing is above the cap
      have hnone : lowDeduction i = none ∧ slowDeduction i = none := by simpa using hdegraded
      rw [hnone.1, hnone.2]
      rfl
  · split_ifs with hdown hfailing hdegraded
    · simp
    · simp
    · simp
    · have hnone : lowDeduction i = none ∧ slowDeduction i = none := by simpa using hdegraded
      rw [hnone.1, hnone.2]
      exact fun _ => rfl

/-- **A score lies between 0 and 100, is 100 for a healthy endpoint and stays under the cap of
every other status.** -/
theorem score_agrees (i : Input F) (h : (score i).hasScore = true) :
    (0 ≤ (score i).value ∧ (score i).value ≤ 100) ∧
      ((evaluate i).kind = .healthy → (score i).value = 100) ∧
      ((evaluate i).kind = .down → (score i).value ≤ 20) ∧
      ((evaluate i).kind = .failing → (score i).value ≤ 50) ∧
      ((evaluate i).kind = .degraded → (score i).value ≤ 80) := by
  obtain ⟨v, hvalue, hhealthy⟩ := value_of_score i h
  rw [hvalue]
  refine ⟨⟨by omega, by omega⟩, fun hkind => ?_, fun hkind => ?_, fun hkind => ?_, fun hkind => ?_⟩
  · rw [hhealthy hkind, hkind]
    rfl
  all_goals
    rw [hkind]
    simp only [Kind.cap, scoreCapDown, scoreCapFailing, scoreCapDegraded]
    omega

end Judgements

/-! ### Exact arithmetic -/

/-- The nearest integer, and of two the one away from zero. -/
def roundAway (q : ℚ) : ℤ := if 0 ≤ q then ⌊q + 1 / 2⌋ else ⌈q - 1 / 2⌉

/-- A number with so many decimals. -/
def decimals (n : ℕ) (q : ℚ) : String :=
  let k := (roundAway (q * 10 ^ n)).natAbs
  let digits := toString (k % 10 ^ n)
  let fraction := if n = 0 then "" else "." ++ "".pushn '0' (n - digits.length) ++ digits
  (if q < 0 then "-" else "") ++ toString (k / 10 ^ n) ++ fraction

instance : Arithmetic ℚ where
  less a b := a < b
  round := roundAway
  ceil := Int.ceil
  fixed := decimals

/-- On exact numbers the percentile is the one of the series. -/
theorem nearestRank_rat (latencies : List ℤ) (p : ℤ) :
    nearestRank latencies p = percentile latencies p := by
  have hindex : ∀ x : ℚ, (max 1 ⌈x⌉ - 1).toNat = max 1 ⌈x⌉₊ - 1 := fun x => by
    rw [← Int.ceil_toNat]
    omega
  unfold nearestRank percentile
  split_ifs
  · rfl
  · dsimp only
    rw [← hindex]
    rfl

/-- An endpoint whose one probe failed. -/
def oneFailure : Input ℚ where
  totalProbes := 1
  consecutiveFailures := 1
  lastError := "timeout"
  samples24h := [⟨false, 40⟩]
  baselineP50Ms := 0
  hasBaseline := false

theorem score_agrees_oneFailure : (0 ≤ (score oneFailure).value ∧ (score oneFailure).value ≤ 100) ∧
    ((evaluate oneFailure).kind = .healthy → (score oneFailure).value = 100) ∧
    ((evaluate oneFailure).kind = .down → (score oneFailure).value ≤ 20) ∧
    ((evaluate oneFailure).kind = .failing → (score oneFailure).value ≤ 50) ∧
    ((evaluate oneFailure).kind = .degraded → (score oneFailure).value ≤ 80) :=
  score_agrees oneFailure rfl

end Status

end HubScope
