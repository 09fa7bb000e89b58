import Mathlib.Data.List.AList
import Mathlib.Data.Rat.Defs
import Mathlib.Algebra.Order.BigOperators.Group.Finset
import Mathlib.Algebra.Order.Field.Rat
import Mathlib.Algebra.BigOperators.Ring.Finset
import Mathlib.Tactic.Linarith
import Mathlib.Tactic.Positivity

/-!
# Scores of a campaign's report

The leaderboard has one row for each model. The raw means of its suites are normalised against
the nadir of the suite, the total is the weighted mean of the suites that have a score, and the
coverage gate takes the total from a row that misses a suite the campaign covers.

The map of a row's suite scores is a list of entries. What the total is does not depend on the
order they are walked in.

## Main definitions

* `normalizeScore`, `totalScore`, `buildReportRows`, `applyCoverageGate` — the report
* `entryScore` — the entry of a model and a suite that counts

## Main results

* `collected_buildReportRows` — what a row holds
* `totalScore_eq` — the total as a mean over the scored suites
* `totals_of_report` — bounds, missing totals and monotonicity
-/

set_option autoImplicit false

namespace HubScope

/-! ### The report -/

/-- The raw mean on the nadir-normalised scale from zero to one. -/
def normalizeScore01 (raw nadir : ℚ) : ℚ :=
  if nadir ≤ 0 ∨ 1 ≤ nadir then raw
  else
    let v := (raw - nadir) / (1 - nadir)
    if v < 0 then 0 else if 1 < v then 1 else v

/-- The raw mean on the report's scale from zero to a hundred. -/
def normalizeScore (raw nadir : ℚ) : ℚ := normalizeScore01 raw nadir * 100

/-- One model's aggregate score in one suite within a campaign. -/
structure CampaignSuiteScore where
  modelDbId : ℕ
  modelId : String
  family : String
  suiteKey : String
  score : Option ℚ

/-- A suite the campaign covers. -/
structure ReportSuiteDTO where
  id : ℕ
  key : String

/-- A row of the leaderboard. -/
structure ReportRowDTO where
  modelDbId : ℕ
  modelId : String
  family : String
  totalScore : Option ℚ
  suiteScores : AList fun _ : String => Option ℚ
  complete : Option Bool
  missingSuites : ℕ

/-- The score of a suite, if there is one. -/
def ReportRowDTO.suiteScore (row : ReportRowDTO) (key : String) : Option ℚ :=
  (row.suiteScores.lookup key).join

/-- What a suite weighs: one, unless a positive weight is configured. -/
def suiteWeight (weights : String → ℚ) (key : String) : ℚ :=
  if weights key ≤ 0 then 1 else weights key

/-- Add a suite to the weighted sum and the sum of the weights. -/
def totalStep (weights : String → ℚ) (acc : ℚ × ℚ) (e : Sigma fun _ : String => Option ℚ) :
    ℚ × ℚ :=
  match e.2 with
  | none => acc
  | some score => (acc.1 + suiteWeight weights e.1 * score, acc.2 + suiteWeight weights e.1)

/-- The weighted mean of the suites that have a score. -/
def totalScore (suiteScores : AList fun _ : String => Option ℚ) (weights : String → ℚ) :
    Option ℚ :=
  let (sum, wsum) := suiteScores.entries.foldl (totalStep weights) (0, 0)
  if wsum = 0 then none else some (sum / wsum)

def ReportRowDTO.setScore (row : ReportRowDTO) (key : String) (score : Option ℚ) : ReportRowDTO :=
  { row with suiteScores := row.suiteScores.insert key score }

/-- The score on the report's scale. -/
def CampaignSuiteScore.scaled (nadirs : String → ℚ) (sc : CampaignSuiteScore) : Option ℚ :=
  sc.score.map fun raw => normalizeScore raw (nadirs sc.suiteKey)

/-- Put a score into the row of its model. A model without a row gets one. -/
def addScore (nadirs : String → ℚ) (rows : List ReportRowDTO) (sc : CampaignSuiteScore) :
    List ReportRowDTO :=
  match rows.findIdx? (·.modelDbId = sc.modelDbId) with
  | some idx => rows.modify idx (·.setScore sc.suiteKey (sc.scaled nadirs))
  | none =>
    let row : ReportRowDTO := ⟨sc.modelDbId, sc.modelId, sc.family, none, ∅, none, 0⟩
    rows ++ [row.setScore sc.suiteKey (sc.scaled nadirs)]

/-- The rows of the leaderboard with their totals. -/
def buildReportRows (scores : List CampaignSuiteScore) (weights nadirs : String → ℚ) :
    List ReportRowDTO :=
  (scores.foldl (addScore nadirs) []).map fun row =>
    { row with totalScore := HubScope.totalScore row.suiteScores weights }

/-- Mark a row complete or not. An incomplete row forfeits its total. -/
def gateRow (suites : List ReportSuiteDTO) (row : ReportRowDTO) : ReportRowDTO :=
  let missing := suites.countP fun suite => row.suiteScore suite.key = none
  if missing = 0 then { row with complete := some true }
  else { row with complete := some false, missingSuites := missing, totalScore := none }

def applyCoverageGate (rows : List ReportRowDTO) (suites : List ReportSuiteDTO) :
    List ReportRowDTO :=
  rows.map (gateRow suites)

/-! ### Normalised scores -/

theorem normalizeScore01_mono (nadir : ℚ) {raw raw' : ℚ} (h : raw ≤ raw') :
    normalizeScore01 raw nadir ≤ normalizeScore01 raw' nadir := by
  unfold normalizeScore01
  by_cases hnadir : nadir ≤ 0 ∨ 1 ≤ nadir
  · rw [if_pos hnadir, if_pos hnadir]
    exact h
  · rw [if_neg hnadir, if_neg hnadir]
    rw [not_or, not_le, not_le] at hnadir
    have hscaled : (raw - nadir) / (1 - nadir) ≤ (raw' - nadir) / (1 - nadir) := by
      apply div_le_div_of_nonneg_right (sub_le_sub_right h nadir)
      exact sub_nonneg.mpr hnadir.2.le
    dsimp only
    split_ifs <;> linarith

/-- A mean between zero and one stays there. -/
theorem normalizeScore01_mem {raw nadir : ℚ} (h₀ : 0 ≤ raw) (h₁ : raw ≤ 1) :
    0 ≤ normalizeScore01 raw nadir ∧ normalizeScore01 raw nadir ≤ 1 := by
  unfold normalizeScore01
  dsimp only
  split_ifs with hnadir hlow hhigh
  · exact ⟨h₀, h₁⟩
  · exact ⟨le_rfl, zero_le_one⟩
  · exact ⟨zero_le_one, le_rfl⟩
  · exact ⟨not_lt.mp hlow, not_lt.mp hhigh⟩

theorem normalizeScore_mono (nadir : ℚ) {raw raw' : ℚ} (h : raw ≤ raw') :
    normalizeScore raw nadir ≤ normalizeScore raw' nadir :=
  mul_le_mul_of_nonneg_right (normalizeScore01_mono nadir h) (by norm_num)

theorem normalizeScore_mem {raw nadir : ℚ} (h₀ : 0 ≤ raw) (h₁ : raw ≤ 1) :
    0 ≤ normalizeScore raw nadir ∧ normalizeScore raw nadir ≤ 100 := by
  obtain ⟨hlow, hhigh⟩ : 0 ≤ normalizeScore01 raw nadir ∧ normalizeScore01 raw nadir ≤ 1 :=
    normalizeScore01_mem h₀ h₁
  unfold normalizeScore
  constructor <;> linarith

/-! ### Totals -/

section Total

variable {m m' : AList fun _ : String => Option ℚ} {weights : String → ℚ} {key : String}

theorem suiteWeight_pos (weights : String → ℚ) (key : String) : 0 < suiteWeight weights key := by
  unfold suiteWeight
  split_ifs with h
  · exact one_pos
  · exact not_le.mp h

/-- The suites that have a score. -/
def scoredKeys (m : AList fun _ : String => Option ℚ) : Finset String :=
  m.keys.toFinset.filter fun key => (m.lookup key).join ≠ none

/-- The score of a suite, zero without one. -/
def scoreOr0 (m : AList fun _ : String => Option ℚ) (key : String) : ℚ :=
  (m.lookup key).join.getD 0

theorem mem_scoredKeys : key ∈ scoredKeys m ↔ (m.lookup key).join ≠ none := by
  rw [scoredKeys, Finset.mem_filter, List.mem_toFinset, ← AList.mem_keys]
  refine ⟨And.right, fun h => ⟨?_, h⟩⟩
  by_contra hnot
  rw [AList.lookup_eq_none.mpr hnot] at h
  exact h rfl

/-- The two sums of the total, walked in any order. -/
theorem foldl_totalStep (weights : String → ℚ) (entries : List (Sigma fun _ : String => Option ℚ))
    (acc : ℚ × ℚ) :
    entries.foldl (totalStep weights) acc =
      (acc.1 + (entries.map fun e => if e.2 = none then 0
          else suiteWeight weights e.1 * e.2.getD 0).sum,
        acc.2 + (entries.map fun e => if e.2 = none then 0 else suiteWeight weights e.1).sum) := by
  induction entries generalizing acc with
  | nil => simp
  | cons e entries ih =>
    obtain ⟨key, score⟩ := e
    rw [List.foldl_cons, ih]
    cases score with
    | none => simp [totalStep]
    | some score => simp [totalStep, add_assoc]

/-- A sum over the entries of the scored suites is a sum over their keys. -/
theorem sum_entries (m : AList fun _ : String => Option ℚ) (f : String → ℚ → ℚ) :
    (m.entries.map fun e => if e.2 = none then 0 else f e.1 (e.2.getD 0)).sum =
      ∑ key ∈ scoredKeys m, f key (scoreOr0 m key) := by
  have hkeys : (m.entries.map fun e => if e.2 = none then 0 else f e.1 (e.2.getD 0)) =
      m.keys.map fun key => if (m.lookup key).join ≠ none then f key (scoreOr0 m key) else 0 := by
    rw [AList.keys, List.keys, List.map_map]
    apply List.map_congr_left
    intro e he
    have hlookup : m.lookup e.1 = some e.2 := AList.mem_lookup_iff.mpr he
    simp only [Function.comp_apply, scoreOr0, hlookup, Option.join_some, ne_eq, ite_not]
  rw [hkeys, ← List.sum_toFinset _ m.keys_nodup, scoredKeys, Finset.sum_filter]

/-- **The total.** It is the weighted mean over the scored suites. -/
theorem totalScore_eq (m : AList fun _ : String => Option ℚ) (weights : String → ℚ) :
    totalScore m weights = if scoredKeys m = ∅ then none
      else some ((∑ key ∈ scoredKeys m, suiteWeight weights key * scoreOr0 m key) /
        ∑ key ∈ scoredKeys m, suiteWeight weights key) := by
  have hsum := sum_entries m fun key score => suiteWeight weights key * score
  have hwsum := sum_entries m fun key _ => suiteWeight weights key
  have hzero : ∑ key ∈ scoredKeys m, suiteWeight weights key = 0 ↔ scoredKeys m = ∅ := by
    constructor
    · intro h
      by_contra hne
      exact (Finset.sum_pos (fun key _ => suiteWeight_pos weights key)
        (Finset.nonempty_iff_ne_empty.mpr hne)).ne' h
    · intro h
      rw [h, Finset.sum_empty]
  rw [totalScore, foldl_totalStep]
  simp only [zero_add, hsum, hwsum, hzero]

theorem totalScore_eq_none_iff :
    totalScore m weights = none ↔ ∀ key, (m.lookup key).join = none := by
  rw [totalScore_eq]
  constructor
  · intro h key
    by_contra hscored
    rw [if_neg (Finset.ne_empty_of_mem (mem_scoredKeys.mpr hscored))] at h
    cases h
  · intro h
    apply if_pos
    apply Finset.eq_empty_of_forall_notMem
    intro key hkey
    exact mem_scoredKeys.mp hkey (h key)

theorem scoreOr0_eq {q : ℚ} (h : (m.lookup key).join = some q) : scoreOr0 m key = q := by
  rw [scoreOr0, h, Option.getD_some]

/-- **Bounds.** A total lies between the lowest and the highest score. -/
theorem totalScore_mem {t lo hi : ℚ} (h : totalScore m weights = some t)
    (hbounds : ∀ key q, (m.lookup key).join = some q → lo ≤ q ∧ q ≤ hi) : lo ≤ t ∧ t ≤ hi := by
  rw [totalScore_eq] at h
  split_ifs at h with hempty
  cases h
  -- some suite is scored and weights are positive, so the quotient is a weighted mean
  have hpos : 0 < ∑ key ∈ scoredKeys m, suiteWeight weights key :=
    Finset.sum_pos (fun key _ => suiteWeight_pos weights key)
      (Finset.nonempty_iff_ne_empty.mpr hempty)
  have hscore : ∀ key ∈ scoredKeys m, lo ≤ scoreOr0 m key ∧ scoreOr0 m key ≤ hi := by
    intro key hkey
    obtain ⟨q, hq⟩ := Option.ne_none_iff_exists'.mp (mem_scoredKeys.mp hkey)
    rw [scoreOr0_eq hq]
    exact hbounds key q hq
  constructor
  · rw [le_div_iff₀ hpos, Finset.mul_sum]
    apply Finset.sum_le_sum
    intro key hkey
    rw [mul_comm]
    exact mul_le_mul_of_nonneg_left (hscore key hkey).1 (suiteWeight_pos weights key).le
  · rw [div_le_iff₀ hpos, Finset.mul_sum]
    apply Finset.sum_le_sum
    intro key hkey
    rw [mul_comm hi]
    exact mul_le_mul_of_nonneg_left (hscore key hkey).2 (suiteWeight_pos weights key).le

/-- The scores of a suite before and after a raise. -/
def Raised (score score' : Option ℚ) : Prop := Option.Rel (· ≤ ·) score score'

namespace Raised

variable {score score' : Option ℚ}

theorem refl (score : Option ℚ) : Raised score score := by
  cases score with
  | none => exact Option.Rel.none
  | some q => exact Option.Rel.some le_rfl

/-- A raise neither adds a score nor takes one. -/
theorem ne_none_iff (h : Raised score score') : score' ≠ none ↔ score ≠ none := by
  cases h with
  | some => simp
  | none => simp

theorem getD_le (h : Raised score score') : score.getD 0 ≤ score'.getD 0 := by
  cases h with
  | some hle => exact hle
  | none => exact le_rfl

theorem map {f : ℚ → ℚ} (hf : Monotone f) (h : Raised score score') :
    Raised (score.map f) (score'.map f) := by
  cases h with
  | some hle => exact Option.Rel.some (hf hle)
  | none => exact Option.Rel.none

end Raised

/-- **Monotonicity.** A row whose scores are raised has a raised total. -/
theorem totalScore_raised (h : ∀ key, Raised (m.lookup key).join (m'.lookup key).join) :
    Raised (totalScore m weights) (totalScore m' weights) := by
  have hkeys : scoredKeys m = scoredKeys m' := by
    ext key
    rw [mem_scoredKeys, mem_scoredKeys]
    exact (h key).ne_none_iff.symm
  have hscore : ∀ key, scoreOr0 m key ≤ scoreOr0 m' key := fun key => (h key).getD_le
  rw [totalScore_eq, totalScore_eq, ← hkeys]
  split_ifs with hempty
  · exact Option.Rel.none
  · apply Option.Rel.some
    have hpos : 0 < ∑ key ∈ scoredKeys m, suiteWeight weights key :=
      Finset.sum_pos (fun key _ => suiteWeight_pos weights key)
        (Finset.nonempty_iff_ne_empty.mpr hempty)
    apply div_le_div_of_nonneg_right _ hpos.le
    apply Finset.sum_le_sum
    intro key _
    exact mul_le_mul_of_nonneg_left (hscore key) (suiteWeight_pos weights key).le

end Total

/-! ### Rows -/

section Rows

variable {scores scores' : List CampaignSuiteScore} {weights nadirs : String → ℚ}
  {rows : List ReportRowDTO} {row row' : ReportRowDTO} {key : String}

/-- The normalised score of the last entry of a model and a suite. -/
def entryScore (nadirs : String → ℚ) (scores : List CampaignSuiteScore) (modelDbId : ℕ)
    (key : String) : Option ℚ :=
  (scores.reverse.find? fun sc => sc.modelDbId = modelDbId ∧ sc.suiteKey = key).bind
    (·.scaled nadirs)

theorem entryScore_concat (nadirs : String → ℚ) (scores : List CampaignSuiteScore)
    (sc : CampaignSuiteScore) (modelDbId : ℕ) (key : String) :
    entryScore nadirs (scores ++ [sc]) modelDbId key =
      if sc.modelDbId = modelDbId ∧ sc.suiteKey = key then sc.scaled nadirs
      else entryScore nadirs scores modelDbId key := by
  rw [entryScore, List.reverse_concat, List.find?_cons]
  split_ifs with hmatch
  · simp only [hmatch, and_self, decide_true]
    rfl
  · simp only [hmatch, decide_false]
    rfl

/-- The rows hold the scores: one row for each model, and of each suite the entry that
counts. -/
structure Collected (nadirs : String → ℚ) (scores : List CampaignSuiteScore)
    (rows : List ReportRowDTO) : Prop where
  nodup : (rows.map (·.modelDbId)).Nodup
  models : ∀ modelDbId, modelDbId ∈ rows.map (·.modelDbId) ↔
    ∃ sc ∈ scores, sc.modelDbId = modelDbId
  scores : ∀ row ∈ rows, ∀ key, row.suiteScore key = entryScore nadirs scores row.modelDbId key

theorem suiteScore_setScore (row : ReportRowDTO) (key key' : String) (score : Option ℚ) :
    (row.setScore key score).suiteScore key' =
      if key = key' then score else row.suiteScore key' := by
  unfold ReportRowDTO.setScore ReportRowDTO.suiteScore
  split_ifs with hkey
  · rw [hkey, AList.lookup_insert, Option.join_some]
  · rw [AList.lookup_insert_ne (Ne.symm hkey)]

/-- A model without entries has no score. -/
theorem entryScore_eq_none {modelDbId : ℕ} (h : ∀ sc ∈ scores, sc.modelDbId ≠ modelDbId) :
    entryScore nadirs scores modelDbId key = none := by
  have hnone : (scores.reverse.find? fun sc => sc.modelDbId = modelDbId ∧ sc.suiteKey = key) =
      none := by
    apply List.find?_eq_none.mpr
    intro sc hsc
    rw [decide_eq_true_iff]
    exact fun hmatch => h sc (List.mem_reverse.mp hsc) hmatch.1
  rw [entryScore, hnone]
  rfl

/-- Changing the row found for a model is changing the rows of the model. -/
theorem modify_eq_map (hnodup : (rows.map (·.modelDbId)).Nodup) {modelDbId idx : ℕ}
    (h : rows.findIdx? (·.modelDbId = modelDbId) = some idx) (f : ReportRowDTO → ReportRowDTO) :
    rows.modify idx f = rows.map fun row => if row.modelDbId = modelDbId then f row else row := by
  obtain ⟨hlt, hfound, -⟩ := List.findIdx?_eq_some_iff_getElem.mp h
  have hid : rows[idx].modelDbId = modelDbId := of_decide_eq_true hfound
  apply List.ext_getElem (by simp)
  intro j hj hj'
  rw [List.length_modify] at hj
  rw [List.getElem_modify, List.getElem_map]
  by_cases hidx : idx = j
  · subst hidx
    rw [if_pos rfl, if_pos hid]
  · rw [if_neg hidx, if_neg]
    intro hother
    have hlt' : idx < (rows.map (·.modelDbId)).length := by simpa using hlt
    have hj'' : j < (rows.map (·.modelDbId)).length := by simpa using hj
    have heq : (rows.map (·.modelDbId))[idx] = (rows.map (·.modelDbId))[j] := by
      rw [List.getElem_map, List.getElem_map, hid, hother]
    exact hidx (hnodup.getElem_inj_iff.mp heq)

/-- Adding a score. -/
theorem Collected.addScore (h : Collected nadirs scores rows) (sc : CampaignSuiteScore) :
    Collected nadirs (scores ++ [sc]) (addScore nadirs rows sc) := by
  have hmodels : ∀ modelDbId, (∃ sc' ∈ scores ++ [sc], sc'.modelDbId = modelDbId) ↔
      modelDbId ∈ rows.map (·.modelDbId) ∨ modelDbId = sc.modelDbId := by
    intro modelDbId
    rw [h.models]
    constructor
    · rintro ⟨sc', hsc', rfl⟩
      rcases List.mem_append.mp hsc' with hold | hnew
      · exact Or.inl ⟨sc', hold, rfl⟩
      · exact Or.inr (congrArg _ (List.mem_singleton.mp hnew))
    · rintro (⟨sc', hsc', rfl⟩ | rfl)
      · exact ⟨sc', List.mem_append_left _ hsc', rfl⟩
      · exact ⟨sc, List.mem_append_right _ (List.mem_singleton_self sc), rfl⟩
  rw [HubScope.addScore]
  split
  · -- the row of the model takes the score
    rename_i idx hidx
    rw [modify_eq_map h.nodup hidx]
    have hid : sc.modelDbId ∈ rows.map (·.modelDbId) := by
      obtain ⟨hlt, hfound, -⟩ := List.findIdx?_eq_some_iff_getElem.mp hidx
      rw [← of_decide_eq_true hfound]
      exact List.mem_map_of_mem (List.getElem_mem hlt)
    have hids : ((rows.map fun row => if row.modelDbId = sc.modelDbId then
        row.setScore sc.suiteKey (sc.scaled nadirs) else row).map (·.modelDbId)) =
          rows.map (·.modelDbId) := by
      rw [List.map_map]
      apply List.map_congr_left
      intro row _
      rw [Function.comp_apply]
      split_ifs
      · rfl
      · rfl
    refine ⟨?_, fun modelDbId => ?_, fun row hrow key => ?_⟩
    · rw [hids]
      exact h.nodup
    · rw [hids, hmodels]
      exact ⟨Or.inl, fun hmem => hmem.elim id fun heq => heq ▸ hid⟩
    · obtain ⟨row₀, hrow₀, rfl⟩ := List.mem_map.mp hrow
      rw [entryScore_concat]
      split_ifs with hmodel hmatch hmatch
      · rw [suiteScore_setScore, if_pos hmatch.2]
      · rw [suiteScore_setScore, if_neg fun hkey => hmatch ⟨hmodel.symm, hkey⟩]
        exact h.scores row₀ hrow₀ key
      · exact absurd hmatch.1.symm hmodel
      · exact h.scores row₀ hrow₀ key
  · -- the model has no row yet
    rename_i hnone
    have hfresh : ∀ row ∈ rows, row.modelDbId ≠ sc.modelDbId := fun row hrow heq => by
      have hfalse := List.findIdx?_eq_none_iff.mp hnone row hrow
      rw [decide_eq_true heq] at hfalse
      cases hfalse
    refine ⟨?_, fun modelDbId => ?_, fun row hrow key => ?_⟩
    · rw [List.map_append]
      apply List.nodup_append.mpr
      refine ⟨h.nodup, List.nodup_singleton _, fun a ha b hb => ?_⟩
      obtain ⟨row, hrow, rfl⟩ := List.mem_map.mp ha
      rw [List.mem_singleton.mp hb]
      exact hfresh row hrow
    · rw [hmodels, List.map_append, List.mem_append, List.map_singleton, List.mem_singleton]
      exact Iff.rfl
    · rw [entryScore_concat]
      rcases List.mem_append.mp hrow with hold | hnew
      · rw [if_neg fun hmatch => hfresh row hold hmatch.1.symm]
        exact h.scores row hold key
      · rw [List.mem_singleton.mp hnew, suiteScore_setScore]
        have hempty : entryScore nadirs scores sc.modelDbId key = none := by
          apply entryScore_eq_none
          intro sc' hsc' heq
          obtain ⟨row', hrow', heq'⟩ := List.mem_map.mp ((h.models sc.modelDbId).mpr ⟨sc', hsc', heq⟩)
          exact hfresh row' hrow' heq'
        by_cases hkey : sc.suiteKey = key
        · rw [if_pos hkey, if_pos ⟨rfl, hkey⟩]
        · rw [if_neg hkey, if_neg fun hmatch => hkey hmatch.2]
          exact hempty.symm

theorem collected_foldl (nadirs : String → ℚ) (scores : List CampaignSuiteScore) :
    Collected nadirs scores (scores.foldl (HubScope.addScore nadirs) []) := by
  induction scores using List.reverseRecOn with
  | nil => exact ⟨List.nodup_nil, by simp, fun row hrow => absurd hrow List.not_mem_nil⟩
  | append_singleton scores sc ih =>
    rw [List.foldl_concat]
    exact ih.addScore sc

/-- **Rows.** What the rows of a report hold. -/
theorem collected_buildReportRows (scores : List CampaignSuiteScore) (weights nadirs : String → ℚ) :
    Collected nadirs scores (buildReportRows scores weights nadirs) := by
  have h := collected_foldl nadirs scores
  have hids : (buildReportRows scores weights nadirs).map (·.modelDbId) =
      (scores.foldl (addScore nadirs) []).map (·.modelDbId) := List.map_map
  refine ⟨?_, fun modelDbId => ?_, fun row hrow key => ?_⟩
  · rw [hids]
    exact h.nodup
  · rw [hids]
    exact h.models modelDbId
  · obtain ⟨row₀, hrow₀, rfl⟩ := List.mem_map.mp hrow
    exact h.scores row₀ hrow₀ key

theorem totalScore_of_mem (h : row ∈ buildReportRows scores weights nadirs) :
    row.totalScore = totalScore row.suiteScores weights := by
  obtain ⟨row₀, -, rfl⟩ := List.mem_map.mp h
  rfl

/-! ### The coverage gate -/

theorem suiteScore_gateRow (suites : List ReportSuiteDTO) (row : ReportRowDTO) (key : String) :
    (gateRow suites row).suiteScore key = row.suiteScore key := by
  rw [gateRow]
  split_ifs
  · rfl
  · rfl

/-- A row keeps its total when it has a score in every suite the campaign covers. -/
theorem totalScore_gateRow (suites : List ReportSuiteDTO) (row : ReportRowDTO) :
    (gateRow suites row).totalScore =
      if ∀ suite ∈ suites, row.suiteScore suite.key ≠ none then row.totalScore else none := by
  have hmissing : suites.countP (fun suite => row.suiteScore suite.key = none) = 0 ↔
      ∀ suite ∈ suites, row.suiteScore suite.key ≠ none := by
    rw [List.countP_eq_zero]
    simp only [decide_eq_true_eq, ne_eq]
  rw [gateRow]
  simp only [hmissing]
  split_ifs
  · rfl
  · rfl

/-! ### Raised means -/

/-- A report's raw means before and after a raise. -/
def RaisedMeans (scores scores' : List CampaignSuiteScore) : Prop :=
  List.Forall₂ (fun sc sc' => sc'.modelDbId = sc.modelDbId ∧ sc'.suiteKey = sc.suiteKey ∧
    Raised sc.score sc'.score) scores scores'

/-- Raising one mean. -/
theorem raisedMeans_set {i : ℕ} {sc : CampaignSuiteScore} {q q' : ℚ} (hi : scores[i]? = some sc)
    (hq : sc.score = some q) (hle : q ≤ q') :
    RaisedMeans scores (scores.set i { sc with score := some q' }) := by
  apply List.forall₂_iff_get.mpr
  refine ⟨(List.length_set ..).symm, fun j hj hj' => ?_⟩
  rw [List.get_eq_getElem, List.get_eq_getElem, List.getElem_set]
  split_ifs with hij
  · subst hij
    obtain ⟨hlt, rfl⟩ := List.getElem?_eq_some_iff.mp hi
    refine ⟨rfl, rfl, ?_⟩
    rw [hq]
    exact Option.Rel.some hle
  · exact ⟨rfl, rfl, Raised.refl _⟩

theorem scaled_raised {sc sc' : CampaignSuiteScore} (hkey : sc'.suiteKey = sc.suiteKey)
    (h : Raised sc.score sc'.score) : Raised (sc.scaled nadirs) (sc'.scaled nadirs) := by
  unfold CampaignSuiteScore.scaled
  rw [hkey]
  exact h.map fun _ _ hle => normalizeScore_mono _ hle

/-- The score of a model in a suite is raised with the means. -/
theorem entryScore_raised (h : RaisedMeans scores scores') (modelDbId : ℕ) (key : String) :
    Raised (entryScore nadirs scores modelDbId key) (entryScore nadirs scores' modelDbId key) := by
  have hreverse := List.rel_reverse h
  unfold entryScore
  generalize scores.reverse = xs, scores'.reverse = ys at hreverse
  induction hreverse with
  | nil => exact Option.Rel.none
  | @cons sc sc' xs ys hsc _ ih =>
    obtain ⟨hmodel, hkey, hraised⟩ := hsc
    rw [List.find?_cons, List.find?_cons, hmodel, hkey]
    by_cases hmatch : sc.modelDbId = modelDbId ∧ sc.suiteKey = key
    · simp only [hmatch, and_self, decide_true]
      exact scaled_raised hkey hraised
    · simp only [hmatch, decide_false]
      exact ih

/-- A model that has a row before a raise has one after it, with a raised total, before the
gate and behind it. -/
theorem exists_raised_row (suites : List ReportSuiteDTO) (h : RaisedMeans scores scores')
    (hrow : row ∈ buildReportRows scores weights nadirs) :
    ∃ row' ∈ buildReportRows scores' weights nadirs, row'.modelDbId = row.modelDbId ∧
      Raised row.totalScore row'.totalScore ∧
        Raised (gateRow suites row).totalScore (gateRow suites row').totalScore := by
  have hcollected := collected_buildReportRows scores weights nadirs
  have hcollected' := collected_buildReportRows scores' weights nadirs
  -- the models are the same
  have hmodels : ∃ sc ∈ scores', sc.modelDbId = row.modelDbId := by
    obtain ⟨sc, hsc, hid⟩ := (hcollected.models _).mp (List.mem_map_of_mem hrow)
    obtain ⟨i, hi, rfl⟩ := List.getElem_of_mem hsc
    obtain ⟨hlength, hget⟩ := List.forall₂_iff_get.mp h
    have hi' : i < scores'.length := hlength ▸ hi
    exact ⟨scores'[i], List.getElem_mem hi', (hget i hi hi').1.trans hid⟩
  obtain ⟨row', hrow', hid⟩ := List.mem_map.mp ((hcollected'.models _).mpr hmodels)
  have hscores : ∀ key, Raised (row.suiteScore key) (row'.suiteScore key) := by
    intro key
    rw [hcollected.scores row hrow, hcollected'.scores row' hrow', hid]
    exact entryScore_raised h _ key
  have htotal : Raised row.totalScore row'.totalScore := by
    rw [totalScore_of_mem hrow, totalScore_of_mem hrow']
    exact totalScore_raised hscores
  have hcomplete : (∀ suite ∈ suites, row'.suiteScore suite.key ≠ none) ↔
      ∀ suite ∈ suites, row.suiteScore suite.key ≠ none := by
    apply forall₂_congr
    intro suite _
    exact (hscores suite.key).ne_none_iff
  refine ⟨row', hrow', hid, htotal, ?_⟩
  rw [totalScore_gateRow, totalScore_gateRow]
  simp only [hcomplete]
  split_ifs
  · exact htotal
  · exact Option.Rel.none

/-! ### Totals of a report -/

/-- The total of a row that is not gated: it is missing when the row has no score, and it lies
between the lowest and the highest of the row's scores. -/
structure TotalWithin (row : ReportRowDTO) : Prop where
  missing : row.totalScore = none ↔ ∀ key, row.suiteScore key = none
  between : ∀ t, row.totalScore = some t → ∃ lowest lo highest hi,
    row.suiteScore lowest = some lo ∧ row.suiteScore highest = some hi ∧
      (∀ key q, row.suiteScore key = some q → lo ≤ q ∧ q ≤ hi) ∧ lo ≤ t ∧ t ≤ hi

/-- A row with a score has a lowest and a highest one. -/
theorem exists_extremes (m : AList fun _ : String => Option ℚ)
    (h : ∃ key, (m.lookup key).join ≠ none) :
    ∃ lowest lo highest hi, (m.lookup lowest).join = some lo ∧ (m.lookup highest).join = some hi ∧
      ∀ key q, (m.lookup key).join = some q → lo ≤ q ∧ q ≤ hi := by
  obtain ⟨key, hkey⟩ := h
  have hnonempty : (scoredKeys m).Nonempty := ⟨key, mem_scoredKeys.mpr hkey⟩
  obtain ⟨lowest, hlowest, hmin⟩ := (scoredKeys m).exists_min_image (scoreOr0 m) hnonempty
  obtain ⟨highest, hhighest, hmax⟩ := (scoredKeys m).exists_max_image (scoreOr0 m) hnonempty
  obtain ⟨lo, hlo⟩ := Option.ne_none_iff_exists'.mp (mem_scoredKeys.mp hlowest)
  obtain ⟨hi, hhi⟩ := Option.ne_none_iff_exists'.mp (mem_scoredKeys.mp hhighest)
  refine ⟨lowest, lo, highest, hi, hlo, hhi, fun key q hq => ?_⟩
  have hmem : key ∈ scoredKeys m := by
    rw [mem_scoredKeys, hq]
    exact Option.some_ne_none q
  have hle := hmin key hmem
  have hge := hmax key hmem
  rw [scoreOr0_eq hlo, scoreOr0_eq hq] at hle
  rw [scoreOr0_eq hhi, scoreOr0_eq hq] at hge
  exact ⟨hle, hge⟩

theorem totalWithin_of_mem (h : row ∈ buildReportRows scores weights nadirs) :
    TotalWithin row := by
  constructor
  · rw [totalScore_of_mem h]
    exact totalScore_eq_none_iff
  · intro t ht
    have hscored : ∃ key, row.suiteScore key ≠ none := by
      by_contra hnone
      push Not at hnone
      rw [totalScore_of_mem h, totalScore_eq_none_iff.mpr hnone] at ht
      cases ht
    obtain ⟨lowest, lo, highest, hi, hlo, hhi, hbounds⟩ := exists_extremes row.suiteScores hscored
    rw [totalScore_of_mem h] at ht
    exact ⟨lowest, lo, highest, hi, hlo, hhi, hbounds, totalScore_mem ht hbounds⟩

/-- A score that counts is the score of an entry. -/
theorem exists_entry {modelDbId : ℕ} {q : ℚ} (h : entryScore nadirs scores modelDbId key = some q) :
    ∃ sc ∈ scores, ∃ raw, sc.score = some raw ∧ q = normalizeScore raw (nadirs sc.suiteKey) := by
  obtain ⟨sc, hfound, hscaled⟩ := Option.bind_eq_some_iff.mp h
  obtain ⟨raw, hraw, rfl⟩ := Option.map_eq_some_iff.mp hscaled
  exact ⟨sc, List.mem_reverse.mp (List.mem_of_find?_eq_some hfound), raw, hraw, rfl⟩

/-- **Totals of a report.** Each row holds its model's normalised scores. Its total is bounded
by them, so it lies on the report's scale; behind the gate it is there when every covered
suite has a score and the row has one; and it is not lowered when a mean is raised. -/
theorem totals_of_report (scores : List CampaignSuiteScore) (weights nadirs : String → ℚ)
    (suites : List ReportSuiteDTO)
    (hraw : ∀ sc ∈ scores, ∀ q, sc.score = some q → 0 ≤ q ∧ q ≤ 1) :
    (∀ row ∈ buildReportRows scores weights nadirs,
      (∀ key, row.suiteScore key = entryScore nadirs scores row.modelDbId key) ∧
        TotalWithin row ∧ ∀ t, row.totalScore = some t → 0 ≤ t ∧ t ≤ 100) ∧
    (∀ row ∈ applyCoverageGate (buildReportRows scores weights nadirs) suites,
      row.totalScore ≠ none ↔ (∀ suite ∈ suites, row.suiteScore suite.key ≠ none) ∧
        ∃ key, row.suiteScore key ≠ none) ∧
    ∀ i sc q q', scores[i]? = some sc → sc.score = some q → q ≤ q' →
      ∀ row ∈ buildReportRows scores weights nadirs,
        ∃ row' ∈ buildReportRows (scores.set i { sc with score := some q' }) weights nadirs,
          row'.modelDbId = row.modelDbId ∧ Raised row.totalScore row'.totalScore ∧
            Raised (gateRow suites row).totalScore (gateRow suites row').totalScore := by
  have hcollected := collected_buildReportRows scores weights nadirs
  refine ⟨fun row hrow => ⟨hcollected.scores row hrow, totalWithin_of_mem hrow, fun t ht => ?_⟩,
    fun row hrow => ?_, fun i sc q q' hi hq hle row hrow => ?_⟩
  · rw [totalScore_of_mem hrow] at ht
    apply totalScore_mem ht
    intro key q hq
    change row.suiteScore key = some q at hq
    rw [hcollected.scores row hrow] at hq
    -- a suite's score comes from an entry, whose raw score was within the unit
    obtain ⟨sc, hsc, raw, hscore, rfl⟩ := exists_entry hq
    exact normalizeScore_mem (hraw sc hsc raw hscore).1 (hraw sc hsc raw hscore).2
  · obtain ⟨row₀, hrow₀, rfl⟩ := List.mem_map.mp hrow
    have hmissing := (totalWithin_of_mem hrow₀).missing
    simp only [suiteScore_gateRow]
    rw [totalScore_gateRow]
    split_ifs with hcovered
    · rw [ne_eq, hmissing, not_forall]
      exact (and_iff_right hcovered).symm
    · exact iff_of_false (fun h => h rfl) fun h => hcovered h.1
  · exact exists_raised_row suites (raisedMeans_set hi hq hle) hrow

end Rows

/-! ### A model with one score -/

/-- One model with a score in the first of two suites. -/
def halfScored : List CampaignSuiteScore :=
  [⟨1, "m1", "f", "a", some (1 / 2)⟩, ⟨1, "m1", "f", "b", none⟩]

theorem halfScored_raw : ∀ sc ∈ halfScored, ∀ q, sc.score = some q → 0 ≤ q ∧ q ≤ 1 := by
  intro sc hsc q hq
  rcases List.mem_cons.mp hsc with rfl | hsc
  · cases hq
    norm_num
  · rw [List.mem_singleton.mp hsc] at hq
    cases hq

theorem exists_halfScored_row : ∃ row ∈ buildReportRows halfScored (fun _ => 0) fun _ => 0,
    row.totalScore ≠ none := by
  have hcollected := collected_buildReportRows halfScored (fun _ => 0) fun _ => 0
  obtain ⟨row, hrow, hid⟩ := List.mem_map.mp ((hcollected.models 1).mpr ⟨_, List.mem_cons_self, rfl⟩)
  have hscore : row.suiteScore "a" = some (normalizeScore (1 / 2) 0) := by
    rw [hcollected.scores row hrow, hid]
    rfl
  refine ⟨row, hrow, fun hnone => ?_⟩
  rw [(totalWithin_of_mem hrow).missing.mp hnone] at hscore
  cases hscore

/-- The model's total is on the scale, and raising its one score does not lower it. -/
theorem totals_of_report_halfScored :
    ∃ row ∈ buildReportRows halfScored (fun _ => 0) fun _ => 0,
      row.totalScore ≠ none ∧ (∀ t, row.totalScore = some t → 0 ≤ t ∧ t ≤ 100) ∧
        ∃ row' ∈ buildReportRows (halfScored.set 0 ⟨1, "m1", "f", "a", some 1⟩) (fun _ => 0)
          fun _ => 0, Raised row.totalScore row'.totalScore := by
  obtain ⟨hrows, -, hraise⟩ := totals_of_report halfScored (fun _ => 0) (fun _ => 0) []
    halfScored_raw
  obtain ⟨row, hrow, htotal⟩ := exists_halfScored_row
  obtain ⟨row', hrow', -, hraised, -⟩ := hraise 0 ⟨1, "m1", "f", "a", some (1 / 2)⟩ (1 / 2) 1 rfl
    rfl (by norm_num) row hrow
  exact ⟨row, hrow, htotal, (hrows row hrow).2.2, row', hrow', hraised⟩

/-- **No covered suite.** A campaign whose suites were all emptied gates on none, and the total
of a model it scored stays. -/
theorem not_totalScore_iff_covered :
    ¬ ∀ (scores : List CampaignSuiteScore) (weights nadirs : String → ℚ)
        (suites : List ReportSuiteDTO),
      (∀ sc ∈ scores, ∀ q, sc.score = some q → 0 ≤ q ∧ q ≤ 1) →
      ∀ row ∈ applyCoverageGate (buildReportRows scores weights nadirs) suites,
        row.totalScore ≠ none ↔
          (∀ suite ∈ suites, row.suiteScore suite.key ≠ none) ∧ suites ≠ [] := by
  intro hall
  obtain ⟨row, hrow, htotal⟩ := exists_halfScored_row
  have hgated : (gateRow [] row).totalScore ≠ none := by
    rw [totalScore_gateRow, if_pos fun suite hsuite => absurd hsuite List.not_mem_nil]
    exact htotal
  exact ((hall _ _ _ [] halfScored_raw _ (List.mem_map_of_mem hrow)).mp hgated).2 rfl

end HubScope
