import HubScope.Alerter.Reporting
import HubScope.Lib.Grouping
import HubScope.Store.Tables
import Mathlib.Algebra.BigOperators.Group.List.Basic
import Mathlib.Algebra.Order.Field.Rat
import Mathlib.Data.Prod.Lex
import Mathlib.Tactic.NormNum

/-!
# Score drops of a settled campaign

A campaign that is done is compared with the history, suite by suite. The baseline of a run is the
latest done run of its suite in an earlier done campaign. Runs of different suite versions or
verdict profiles are not compared; the skip is recorded instead. Otherwise every model whose mean
fell by more than the threshold is reported, in one message for all suites.

Scores are exact rationals. The text of a message is left out; what it shows is there.

## Main definitions

* `ScoreTables` — the rows that are read
* `previousDoneCampaignRun` — the baseline
* `compareSuiteRun`, `modelAlerts` — the comparison, and its grouping by model
* `handleCampaign` — the locked section, with the comparison it makes
* `Baseline`, `Comparable`, `Dropped` — what the comparison is to find

## Main results

* `previousDoneCampaignRun_eq_some_iff`, `aggregate_score` — the query and the fold
* `mem_campaignDrops_iff`, `mem_campaignSkips_iff` — what one comparison reports
* `handleCampaign_spec` — who is alerted, by how many messages, and what is skipped
-/

set_option autoImplicit false

namespace HubScope.ScoreDrop

/-! ### Tables -/

/-- An `eval_runs` row, with the suite version it ran. -/
structure SuiteRun where
  id : ℕ
  campaignId : ℕ
  suiteId : ℕ
  suiteVersion : ℕ
  status : Status
  deriving DecidableEq

/-- An `eval_results` row as the comparison reads it. -/
structure ScoredRow where
  runId : ℕ
  modelDbId : ℕ
  modelId : String
  caseId : ℕ
  score : Option ℚ
  verdictProfile : String
  deriving DecidableEq

/-- A case with its prompt. -/
structure PromptedCase where
  id : ℕ
  suiteId : ℕ
  prompt : String
  deriving DecidableEq

/-- The tables of the comparison, rows in the order of their ids. The suite of a run is there. -/
structure ScoreTables where
  campaigns : List Campaign
  runs : List SuiteRun
  results : List ScoredRow
  cases : List PromptedCase
  suiteName : ℕ → String

/-- Ids are keys. -/
structure ScoreTables.Keyed (t : ScoreTables) : Prop where
  campaigns : (t.campaigns.map (·.id)).Nodup
  runs : (t.runs.map (·.id)).Nodup

namespace ScoreTables

def getCampaign (t : ScoreTables) (id : ℕ) : Option Campaign := t.campaigns.find? (·.id = id)

def listEvalRunsByCampaign (t : ScoreTables) (campaignId : ℕ) : List SuiteRun :=
  t.runs.filter (·.campaignId = campaignId)

def listEvalResults (t : ScoreTables) (runId : ℕ) : List ScoredRow :=
  t.results.filter (·.runId = runId)

/-- The campaign is there and done. -/
def DoneCampaign (t : ScoreTables) (id : ℕ) : Prop :=
  ∃ c ∈ t.campaigns, c.id = id ∧ c.status = .done

instance (t : ScoreTables) (id : ℕ) : Decidable (t.DoneCampaign id) :=
  inferInstanceAs (Decidable (∃ _ ∈ _, _))

/-- A done run of a suite in a done campaign before the given one. -/
def Earlier (t : ScoreTables) (campaignId suiteId : ℕ) (r : SuiteRun) : Prop :=
  (r.status = .done ∧ r.suiteId = suiteId ∧ r.campaignId < campaignId) ∧
    t.DoneCampaign r.campaignId

instance (t : ScoreTables) (campaignId suiteId : ℕ) : DecidablePred (t.Earlier campaignId suiteId) :=
  fun _ => inferInstanceAs (Decidable (_ ∧ _))

end ScoreTables

/-- What the baseline is chosen by. -/
def SuiteRun.key (r : SuiteRun) : ℕ ×ₗ ℕ := toLex (r.campaignId, r.id)

/-- The order of the query: by campaign and id, descending. -/
def NewestFirst (r r' : SuiteRun) : Prop := r'.key ≤ r.key

instance : DecidableRel NewestFirst := fun r r' => inferInstanceAs (Decidable (r'.key ≤ r.key))

instance : Std.Total NewestFirst := ⟨fun r r' => le_total r'.key r.key⟩

instance : IsTrans SuiteRun NewestFirst := ⟨fun _ _ _ h h' => le_trans h' h⟩

/-- `ORDER BY campaign_id DESC, id DESC LIMIT 1` over the earlier runs of the suite. -/
def previousDoneCampaignRun (t : ScoreTables) (campaignId suiteId : ℕ) : Option SuiteRun :=
  ((t.runs.filter fun r => t.Earlier campaignId suiteId r).insertionSort NewestFirst).head?

/-! ### The comparison -/

def scoreDropThreshold : ℚ := 1 / 5

def promptSnippetRunes : ℕ := 16

/-- A case that lost its score or fell beyond the threshold. -/
structure CaseChange where
  caseId : ℕ
  prompt : String
  previous : ℚ
  current : Option ℚ
  deriving DecidableEq

/-- The drop of a model in a suite. -/
structure SuiteDrop where
  suiteId : ℕ
  suiteName : String
  previous : ℚ
  current : ℚ
  changes : List CaseChange
  deriving DecidableEq

/-- A drop with the model it is of. -/
structure ModelSuiteDrop where
  modelDbId : ℕ
  modelId : String
  drop : SuiteDrop
  deriving DecidableEq

/-- The drops of one model, which one message shows. -/
structure ModelAlert where
  modelDbId : ℕ
  modelId : String
  drops : List SuiteDrop
  deriving DecidableEq

/-- The newest profile among the rows; empty for a run without rows. -/
def runVerdictProfile (results : List ScoredRow) : String :=
  results.foldl (fun profile r => if profile < r.verdictProfile then r.verdictProfile else profile) ""

/-- The models of the rows, once each and in order. -/
def sortedPairIDs (results : List ScoredRow) : List ℕ :=
  (Grouping.firstSeen (results.map (·.modelDbId))).insertionSort (· ≤ ·)

/-- Add a row to the model id, the sum and the number of the scores of a model. -/
def addRow (modelDbId : ℕ) (acc : String × ℚ × ℕ) (r : ScoredRow) : String × ℚ × ℕ :=
  if r.modelDbId ≠ modelDbId then acc
  else
    match r.score with
    | some x => (r.modelId, acc.2.1 + x, acc.2.2 + 1)
    | none => (r.modelId, acc.2)

/-- The model id of the rows of a model, and the mean of those that are scored. -/
def aggregate (results : List ScoredRow) (modelDbId : ℕ) : String × Option ℚ :=
  let (modelId, sum, count) := results.foldl (addRow modelDbId) ("", 0, 0)
  (modelId, if count = 0 then none else some (sum / count))

/-- A text cut to `n` characters. -/
def snippet (s : String) (n : ℕ) : String :=
  if s.toList.length ≤ n then s else String.ofList (s.toList.take n) ++ "…"

/-- The excerpt of a case's prompt; empty for a case that is not in the suite. -/
def casePrompt (t : ScoreTables) (suiteId caseId : ℕ) : String :=
  match t.cases.find? fun c => c.suiteId = suiteId ∧ c.id = caseId with
  | some c => snippet c.prompt promptSnippetRunes
  | none => ""

/-- The score of a case before; of several rows the last one counts. -/
def previousByCase (previousResults : List ScoredRow) (modelDbId caseId : ℕ) : Option ℚ :=
  ((previousResults.filter fun r => r.modelDbId = modelDbId ∧ r.caseId = caseId).getLast?).bind
    (·.score)

/-- The cases of a model that explain its drop. -/
def caseChanges (t : ScoreTables) (suiteId : ℕ) (previousResults currentResults : List ScoredRow)
    (modelDbId : ℕ) : List CaseChange :=
  ((currentResults.filter (·.modelDbId = modelDbId)).filterMap fun r =>
    match previousByCase previousResults modelDbId r.caseId, r.score with
    | none, _ => none
    | some previous, none => some ⟨r.caseId, casePrompt t suiteId r.caseId, previous, none⟩
    | some previous, some current =>
      if scoreDropThreshold < previous - current then
        some ⟨r.caseId, casePrompt t suiteId r.caseId, previous, some current⟩
      else none).insertionSort (·.caseId ≤ ·.caseId)

/-- The drop of a model between two runs, if it is beyond the threshold. -/
def modelDrop (t : ScoreTables) (suiteId : ℕ) (previousResults currentResults : List ScoredRow)
    (modelDbId : ℕ) : Option ModelSuiteDrop :=
  match aggregate currentResults modelDbId with
  | (_, none) => none
  | (modelId, some current) =>
    match (aggregate previousResults modelDbId).2 with
    | none => none
    | some previous =>
      if previous - current ≤ scoreDropThreshold then none
      else
        some ⟨modelDbId, modelId, suiteId, t.suiteName suiteId, previous, current,
          caseChanges t suiteId previousResults currentResults modelDbId⟩

/-- How the comparison of a run ends. -/
inductive Comparison
  | silent
  | versionSkip (previousRun : SuiteRun)
  | profileSkip (previousRun : SuiteRun) (previousProfile currentProfile : String)
  | drops (ds : List ModelSuiteDrop)

/-- Compare a done run with its baseline. -/
def compareSuiteRun (t : ScoreTables) (campaignId : ℕ) (run : SuiteRun) : Comparison :=
  match previousDoneCampaignRun t campaignId run.suiteId with
  | none => .silent
  | some previousRun =>
    if previousRun.suiteVersion ≠ run.suiteVersion then .versionSkip previousRun
    else
      let currentResults := t.listEvalResults run.id
      let previousResults := t.listEvalResults previousRun.id
      let previousProfile := runVerdictProfile previousResults
      let currentProfile := runVerdictProfile currentResults
      if previousProfile ≠ "" ∧ currentProfile ≠ "" ∧ previousProfile ≠ currentProfile then
        .profileSkip previousRun previousProfile currentProfile
      else
        .drops ((sortedPairIDs currentResults).filterMap
          (modelDrop t run.suiteId previousResults currentResults))

def Comparison.found : Comparison → List ModelSuiteDrop
  | drops ds => ds
  | silent | versionSkip _ | profileSkip .. => []

def Comparison.skipped : Comparison → Option SuiteRun
  | versionSkip previousRun | profileSkip previousRun .. => some previousRun
  | silent | drops _ => none

/-- The done runs of a campaign, if it is done itself. -/
def comparedRuns (t : ScoreTables) (campaignId : ℕ) : List SuiteRun :=
  match t.getCampaign campaignId with
  | none => []
  | some c =>
    if c.status = .done then (t.listEvalRunsByCampaign campaignId).filter (·.status = .done) else []

/-- The drops that the runs of a campaign report. -/
def campaignDrops (t : ScoreTables) (campaignId : ℕ) : List ModelSuiteDrop :=
  (comparedRuns t campaignId).flatMap fun run => (compareSuiteRun t campaignId run).found

/-- The skipped comparisons, each with the run and its baseline. -/
def campaignSkips (t : ScoreTables) (campaignId : ℕ) : List (SuiteRun × SuiteRun) :=
  (comparedRuns t campaignId).filterMap fun run =>
    (compareSuiteRun t campaignId run).skipped.map fun previousRun => (run, previousRun)

/-- The drops by model, in the order of the models. -/
def modelAlerts (t : ScoreTables) (campaignId : ℕ) : List ModelAlert :=
  ((Grouping.group (·.modelDbId) (campaignDrops t campaignId)).map fun g =>
    (⟨g.1, (g.2.map (·.modelId)).headD "", g.2.map (·.drop)⟩ : ModelAlert)).insertionSort
      (·.modelDbId ≤ ·.modelDbId)

/-- `HandleCampaign`, with the comparison it makes under its lock. -/
def handleCampaign (s : Alerter) (t : ScoreTables) (campaignId : ℕ) (outcome : ℕ → Bool) :
    Alerter :=
  match t.getCampaign campaignId with
  | none => s
  | some c =>
    s.handleCampaign campaignId (c.status = .done) (campaignSkips t campaignId).length
      ((modelAlerts t campaignId).map (·.modelDbId)) outcome

/-! ### What the comparison is to find -/

/-- The latest of the earlier runs of the suite. -/
def Baseline (t : ScoreTables) (campaignId suiteId : ℕ) (previousRun : SuiteRun) : Prop :=
  (previousRun ∈ t.runs ∧ t.Earlier campaignId suiteId previousRun) ∧
    ∀ r ∈ t.runs, t.Earlier campaignId suiteId r → r.key ≤ previousRun.key

/-- The runs ran the same suite version under the same profile, as far as it is known. -/
def Comparable (t : ScoreTables) (previousRun run : SuiteRun) : Prop :=
  previousRun.suiteVersion = run.suiteVersion ∧
    (runVerdictProfile (t.listEvalResults previousRun.id) = "" ∨
      runVerdictProfile (t.listEvalResults run.id) = "" ∨
      runVerdictProfile (t.listEvalResults previousRun.id) =
        runVerdictProfile (t.listEvalResults run.id))

/-- The scores of a model in a run, without those of unjudged cases. -/
def scoresIn (t : ScoreTables) (runId modelDbId : ℕ) : List ℚ :=
  (t.results.filter fun r => r.runId = runId ∧ r.modelDbId = modelDbId).filterMap (·.score)

/-- The mean of some scores, if there are any. -/
def meanOf (xs : List ℚ) : Option ℚ := if xs = [] then none else some (xs.sum / xs.length)

/-- A done run of a done campaign. -/
def Settled (t : ScoreTables) (campaignId : ℕ) (run : SuiteRun) : Prop :=
  t.DoneCampaign campaignId ∧ run ∈ t.runs ∧ run.campaignId = campaignId ∧ run.status = .done

/-- The mean of the model fell from the baseline to the run by more than the threshold. -/
def Dropped (t : ScoreTables) (campaignId : ℕ) (run : SuiteRun) (modelDbId : ℕ) : Prop :=
  Settled t campaignId run ∧ ∃ previousRun, Baseline t campaignId run.suiteId previousRun ∧
    Comparable t previousRun run ∧
    ∃ previous current, meanOf (scoresIn t previousRun.id modelDbId) = some previous ∧
      meanOf (scoresIn t run.id modelDbId) = some current ∧ 1 / 5 < previous - current

/-! ### The baseline -/

variable {t : ScoreTables} {campaignId suiteId modelDbId : ℕ} {run previousRun : SuiteRun}

/-- What a sorted list begins with is not after any other of its elements. -/
theorem head?_insertionSort {α : Type*} (r : α → α → Prop) [DecidableRel r] [Std.Total r]
    [IsTrans α r] {l : List α} {x : α} (h : (l.insertionSort r).head? = some x) :
    x ∈ l ∧ ∀ y ∈ l, r x y := by
  obtain ⟨xs, hxs⟩ := List.head?_eq_some_iff.mp h
  have hsorted : (x :: xs).Pairwise r := hxs ▸ List.pairwise_insertionSort r l
  have hmem (y : α) : y ∈ l ↔ y ∈ x :: xs := by rw [← hxs, List.mem_insertionSort]
  refine ⟨(hmem x).mpr List.mem_cons_self, fun y hy => ?_⟩
  rcases List.mem_cons.mp ((hmem y).mp hy) with rfl | hy
  · exact (Std.Total.total (r := r) y y).elim id id
  · exact (List.pairwise_cons.mp hsorted).1 y hy

/-- The query finds the baseline. -/
theorem previousDoneCampaignRun_eq_some_iff (hkeys : t.Keyed) :
    previousDoneCampaignRun t campaignId suiteId = some previousRun ↔
      Baseline t campaignId suiteId previousRun := by
  -- the first of the sorted runs, as far as there is one, is a baseline
  have hfirst (r : SuiteRun) (h : previousDoneCampaignRun t campaignId suiteId = some r) :
      Baseline t campaignId suiteId r := by
    obtain ⟨hmem, hle⟩ := head?_insertionSort NewestFirst h
    obtain ⟨hrun, hearlier⟩ := List.mem_filter.mp hmem
    refine ⟨⟨hrun, of_decide_eq_true hearlier⟩, fun r' hr' hearlier' => ?_⟩
    exact hle r' (List.mem_filter.mpr ⟨hr', decide_eq_true hearlier'⟩)
  refine ⟨hfirst previousRun, fun hbase => ?_⟩
  cases hfound : previousDoneCampaignRun t campaignId suiteId with
  | none =>
    have hnil : (t.runs.filter fun r => t.Earlier campaignId suiteId r) = [] := by
      rw [previousDoneCampaignRun, List.head?_eq_none_iff] at hfound
      have hlength := List.length_insertionSort NewestFirst
        (t.runs.filter fun r => t.Earlier campaignId suiteId r)
      rw [hfound] at hlength
      exact List.length_eq_zero_iff.mp hlength.symm
    have hmem : previousRun ∈ t.runs.filter fun r => t.Earlier campaignId suiteId r :=
      List.mem_filter.mpr ⟨hbase.1.1, decide_eq_true hbase.1.2⟩
    rw [hnil] at hmem
    cases hmem
  | some r =>
    have hr := hfirst r hfound
    have hkey : r.key = previousRun.key :=
      le_antisymm (hbase.2 r hr.1.1 hr.1.2) (hr.2 previousRun hbase.1.1 hbase.1.2)
    have hid : r.id = previousRun.id := congrArg (fun k => (ofLex k).2) hkey
    rw [List.inj_on_of_nodup_map hkeys.runs hr.1.1 hbase.1.1 hid]

theorem Baseline.unique (hkeys : t.Keyed) {r r' : SuiteRun} (h : Baseline t campaignId suiteId r)
    (h' : Baseline t campaignId suiteId r') : r = r' :=
  Option.some.inj (((previousDoneCampaignRun_eq_some_iff hkeys).mpr h).symm.trans
    ((previousDoneCampaignRun_eq_some_iff hkeys).mpr h'))

/-! ### Means -/

/-- The fold adds up the scores of the model and counts them. -/
theorem foldl_addRow (results : List ScoredRow) (acc : String × ℚ × ℕ) :
    let xs := (results.filter (·.modelDbId = modelDbId)).filterMap (·.score)
    (results.foldl (addRow modelDbId) acc).2 = (acc.2.1 + xs.sum, acc.2.2 + xs.length) := by
  induction results generalizing acc with
  | nil => simp
  | cons r results ih =>
    rw [List.foldl_cons, ih]
    by_cases hmodel : r.modelDbId = modelDbId
    · cases hscore : r.score with
      | none => simp [addRow, hmodel, hscore]
      | some x => simp [addRow, hmodel, hscore, add_assoc, add_comm 1]
    · simp [addRow, hmodel]

theorem aggregate_score (results : List ScoredRow) (modelDbId : ℕ) :
    (aggregate results modelDbId).2 =
      meanOf ((results.filter (·.modelDbId = modelDbId)).filterMap (·.score)) := by
  have hfold := @foldl_addRow modelDbId results ("", 0, 0)
  rw [aggregate, meanOf]
  simp only [hfold, zero_add, List.length_eq_zero_iff]

/-- The mean of a model in a run. -/
theorem aggregate_listEvalResults (runId modelDbId : ℕ) :
    (aggregate (t.listEvalResults runId) modelDbId).2 = meanOf (scoresIn t runId modelDbId) := by
  rw [aggregate_score, ScoreTables.listEvalResults, List.filter_filter, scoresIn]
  simp only [Bool.and_comm, Bool.decide_and]

/-- A model with a mean has a row. -/
theorem mem_sortedPairIDs_of_mean {runId : ℕ} {x : ℚ}
    (h : meanOf (scoresIn t runId modelDbId) = some x) :
    modelDbId ∈ sortedPairIDs (t.listEvalResults runId) := by
  have hscores : scoresIn t runId modelDbId ≠ [] := by
    intro hnil
    rw [meanOf, if_pos hnil] at h
    cases h
  obtain ⟨y, hy⟩ := List.exists_mem_of_ne_nil _ hscores
  obtain ⟨r, hr, -⟩ := List.mem_filterMap.mp hy
  obtain ⟨hr, hrow⟩ := List.mem_filter.mp hr
  rw [decide_eq_true_eq] at hrow
  rw [sortedPairIDs, List.mem_insertionSort, Grouping.mem_firstSeen, List.mem_map]
  exact ⟨r, List.mem_filter.mpr ⟨hr, decide_eq_true hrow.1⟩, hrow.2⟩

/-! ### One comparison -/

variable {previousResults currentResults : List ScoredRow} {d : ModelSuiteDrop}

theorem modelDrop_eq_some_iff :
    modelDrop t suiteId previousResults currentResults modelDbId = some d ↔
      ∃ previous current, (aggregate previousResults modelDbId).2 = some previous ∧
        (aggregate currentResults modelDbId).2 = some current ∧ 1 / 5 < previous - current ∧
        d = ⟨modelDbId, (aggregate currentResults modelDbId).1, suiteId, t.suiteName suiteId,
          previous, current, caseChanges t suiteId previousResults currentResults modelDbId⟩ := by
  rw [modelDrop]
  rcases haggregate : aggregate currentResults modelDbId with ⟨modelId, current⟩
  cases current with
  | none => simp
  | some current =>
    cases hprevious : (aggregate previousResults modelDbId).2 with
    | none => simp
    | some previous =>
      by_cases hbeyond : previous - current ≤ scoreDropThreshold
      · have hnot : ¬ 1 / 5 < previous - current := not_lt.mpr hbeyond
        simp only [if_pos hbeyond, Option.some_inj]
        refine iff_of_false (fun h => nomatch h) ?_
        rintro ⟨_, _, rfl, rfl, hdrop, -⟩
        exact hnot hdrop
      · simp only [if_neg hbeyond, Option.some_inj]
        constructor
        · rintro rfl
          exact ⟨previous, current, rfl, rfl, not_le.mp hbeyond, rfl⟩
        · rintro ⟨_, _, rfl, rfl, -, rfl⟩
          rfl

theorem not_comparable_iff : ¬ Comparable t previousRun run ↔
    previousRun.suiteVersion ≠ run.suiteVersion ∨
      runVerdictProfile (t.listEvalResults previousRun.id) ≠ "" ∧
        runVerdictProfile (t.listEvalResults run.id) ≠ "" ∧
        runVerdictProfile (t.listEvalResults previousRun.id) ≠
          runVerdictProfile (t.listEvalResults run.id) := by
  rw [Comparable, not_and_or, not_or, not_or]

/-- A comparison by its baseline. -/
theorem compareSuiteRun_of_baseline (hkeys : t.Keyed)
    (hbase : Baseline t campaignId run.suiteId previousRun) :
    (Comparable t previousRun run ∧ compareSuiteRun t campaignId run =
        .drops ((sortedPairIDs (t.listEvalResults run.id)).filterMap
          (modelDrop t run.suiteId (t.listEvalResults previousRun.id)
            (t.listEvalResults run.id)))) ∨
      ¬ Comparable t previousRun run ∧
        (compareSuiteRun t campaignId run).skipped = some previousRun ∧
        (compareSuiteRun t campaignId run).found = [] := by
  rw [not_comparable_iff, compareSuiteRun, (previousDoneCampaignRun_eq_some_iff hkeys).mpr hbase]
  dsimp only
  by_cases hversion : previousRun.suiteVersion ≠ run.suiteVersion
  · rw [if_pos hversion]
    exact Or.inr ⟨Or.inl hversion, rfl, rfl⟩
  · rw [if_neg hversion]
    split_ifs with hprofile
    · exact Or.inr ⟨Or.inr hprofile, rfl, rfl⟩
    · refine Or.inl ⟨⟨not_not.mp hversion, ?_⟩, rfl⟩
      by_contra hbreak
      rw [not_or, not_or] at hbreak
      exact hprofile hbreak

theorem compareSuiteRun_of_none (hkeys : t.Keyed)
    (hnone : ∀ previousRun, ¬ Baseline t campaignId run.suiteId previousRun) :
    compareSuiteRun t campaignId run = .silent := by
  rw [compareSuiteRun]
  cases hfound : previousDoneCampaignRun t campaignId run.suiteId with
  | none => rfl
  | some previousRun =>
    exact absurd ((previousDoneCampaignRun_eq_some_iff hkeys).mp hfound) (hnone previousRun)

/-- The drop of a model from the baseline to a run, as a message shows it. -/
def IsDrop (t : ScoreTables) (campaignId : ℕ) (run : SuiteRun) (d : ModelSuiteDrop) : Prop :=
  ∃ previousRun, Baseline t campaignId run.suiteId previousRun ∧ Comparable t previousRun run ∧
    ∃ previous current, meanOf (scoresIn t previousRun.id d.modelDbId) = some previous ∧
      meanOf (scoresIn t run.id d.modelDbId) = some current ∧ 1 / 5 < previous - current ∧
      d.modelId = (aggregate (t.listEvalResults run.id) d.modelDbId).1 ∧
      d.drop = ⟨run.suiteId, t.suiteName run.suiteId, previous, current,
        caseChanges t run.suiteId (t.listEvalResults previousRun.id) (t.listEvalResults run.id)
          d.modelDbId⟩

theorem mem_found_iff (hkeys : t.Keyed) :
    d ∈ (compareSuiteRun t campaignId run).found ↔ IsDrop t campaignId run d := by
  by_cases hbaseline : ∃ previousRun, Baseline t campaignId run.suiteId previousRun
  · obtain ⟨previousRun, hbase⟩ := hbaseline
    rcases compareSuiteRun_of_baseline hkeys hbase with ⟨hcomparable, heq⟩ | ⟨hskip, -, heq⟩
    · rw [heq, Comparison.found, List.mem_filterMap]
      constructor
      · rintro ⟨m, -, hdrop⟩
        obtain ⟨previous, current, hprevious, hcurrent, hbeyond, rfl⟩ :=
          modelDrop_eq_some_iff.mp hdrop
        rw [aggregate_listEvalResults] at hprevious hcurrent
        exact ⟨previousRun, hbase, hcomparable, previous, current, hprevious, hcurrent, hbeyond,
          rfl, rfl⟩
      · rintro ⟨previousRun', hbase', -, previous, current, hprevious, hcurrent, hbeyond, hid,
          hdrop⟩
        obtain rfl := hbase.unique hkeys hbase'
        refine ⟨d.modelDbId, mem_sortedPairIDs_of_mean hcurrent, modelDrop_eq_some_iff.mpr ?_⟩
        rw [← aggregate_listEvalResults] at hprevious hcurrent
        refine ⟨previous, current, hprevious, hcurrent, hbeyond, ?_⟩
        rw [← hid, ← hdrop]
    · rw [heq]
      refine iff_of_false List.not_mem_nil ?_
      rintro ⟨previousRun', hbase', hcomparable, -⟩
      obtain rfl := hbase.unique hkeys hbase'
      exact hskip hcomparable
  · rw [not_exists] at hbaseline
    rw [compareSuiteRun_of_none hkeys hbaseline]
    refine iff_of_false List.not_mem_nil ?_
    rintro ⟨previousRun, hbase, -⟩
    exact hbaseline previousRun hbase

theorem skipped_eq_some_iff (hkeys : t.Keyed) :
    (compareSuiteRun t campaignId run).skipped = some previousRun ↔
      Baseline t campaignId run.suiteId previousRun ∧ ¬ Comparable t previousRun run := by
  by_cases hbaseline : ∃ previousRun, Baseline t campaignId run.suiteId previousRun
  · obtain ⟨r, hbase⟩ := hbaseline
    rcases compareSuiteRun_of_baseline hkeys hbase with ⟨hcomparable, heq⟩ | ⟨hskip, heq, -⟩
    · rw [heq]
      refine iff_of_false (fun h => nomatch h) ?_
      rintro ⟨hbase', hskip⟩
      obtain rfl := hbase.unique hkeys hbase'
      exact hskip hcomparable
    · rw [heq, Option.some_inj]
      constructor
      · rintro rfl
        exact ⟨hbase, hskip⟩
      · exact fun h => hbase.unique hkeys h.1
  · rw [not_exists] at hbaseline
    rw [compareSuiteRun_of_none hkeys hbaseline]
    exact iff_of_false (fun h => nomatch h) fun h => hbaseline previousRun h.1

/-! ### The campaign -/

theorem getCampaign_eq_some_iff (hkeys : t.Keyed) {c : Campaign} :
    t.getCampaign campaignId = some c ↔ c ∈ t.campaigns ∧ c.id = campaignId := by
  constructor
  · intro h
    exact ⟨List.mem_of_find?_eq_some h, by simpa using List.find?_some h⟩
  · rintro ⟨hc, rfl⟩
    cases hfind : t.getCampaign c.id with
    | none => exact absurd (List.find?_eq_none.mp hfind c hc) (by simp)
    | some c' =>
      have hid : c'.id = c.id := by simpa using List.find?_some hfind
      rw [List.inj_on_of_nodup_map hkeys.campaigns (List.mem_of_find?_eq_some hfind) hc hid]

theorem mem_comparedRuns (hkeys : t.Keyed) :
    run ∈ comparedRuns t campaignId ↔ Settled t campaignId run := by
  rw [comparedRuns]
  cases hget : t.getCampaign campaignId with
  | none =>
    refine iff_of_false List.not_mem_nil ?_
    rintro ⟨⟨c, hc, hid, -⟩, -⟩
    rw [(getCampaign_eq_some_iff hkeys).mpr ⟨hc, hid⟩] at hget
    cases hget
  | some c =>
    obtain ⟨hc, hid⟩ := (getCampaign_eq_some_iff hkeys).mp hget
    have hdone : t.DoneCampaign campaignId ↔ c.status = .done := by
      constructor
      · rintro ⟨c', hc', hid', hdone⟩
        obtain rfl : c' = c :=
          List.inj_on_of_nodup_map hkeys.campaigns hc' hc (hid'.trans hid.symm)
        exact hdone
      · exact fun h => ⟨c, hc, hid, h⟩
    rw [Settled, hdone]
    dsimp only
    split_ifs with hstatus
    · simp only [ScoreTables.listEvalRunsByCampaign, List.mem_filter, decide_eq_true_eq, hstatus,
        true_and, and_assoc]
    · exact iff_of_false List.not_mem_nil fun h => hstatus h.1

theorem mem_campaignDrops_iff (hkeys : t.Keyed) :
    d ∈ campaignDrops t campaignId ↔
      ∃ run, Settled t campaignId run ∧ IsDrop t campaignId run d := by
  rw [campaignDrops, List.mem_flatMap]
  refine exists_congr fun run => ?_
  rw [mem_comparedRuns hkeys, mem_found_iff hkeys]

theorem mem_campaignSkips_iff (hkeys : t.Keyed) :
    (run, previousRun) ∈ campaignSkips t campaignId ↔
      Settled t campaignId run ∧ Baseline t campaignId run.suiteId previousRun ∧
        ¬ Comparable t previousRun run := by
  rw [campaignSkips, List.mem_filterMap, ← skipped_eq_some_iff hkeys, ← mem_comparedRuns hkeys]
  constructor
  · rintro ⟨r, hr, hskip⟩
    obtain ⟨p, hp, heq⟩ := Option.map_eq_some_iff.mp hskip
    cases heq
    exact ⟨hr, hp⟩
  · rintro ⟨hrun, hskip⟩
    exact ⟨run, hrun, by rw [hskip, Option.map_some]⟩

theorem nodup_comparedRuns (hkeys : t.Keyed) : (comparedRuns t campaignId).Nodup := by
  have hruns : t.runs.Nodup := List.Nodup.of_map _ hkeys.runs
  rw [comparedRuns]
  cases t.getCampaign campaignId with
  | none => exact List.nodup_nil
  | some c =>
    dsimp only
    split_ifs
    · exact (hruns.filter _).filter _
    · exact List.nodup_nil

/-- No pair of runs is skipped twice. -/
theorem nodup_campaignSkips (hkeys : t.Keyed) : (campaignSkips t campaignId).Nodup := by
  refine (nodup_comparedRuns hkeys).filterMap ?_
  intro r r' p hr hr'
  obtain ⟨_, -, rfl⟩ := Option.map_eq_some_iff.mp (Option.mem_def.mp hr)
  obtain ⟨_, -, heq⟩ := Option.map_eq_some_iff.mp (Option.mem_def.mp hr')
  exact (congrArg Prod.fst heq).symm

/-! ### Messages -/

theorem mem_modelAlerts_iff {a : ModelAlert} : a ∈ modelAlerts t campaignId ↔
    ∃ ds, (a.modelDbId, ds) ∈ Grouping.group (·.modelDbId) (campaignDrops t campaignId) ∧
      a.modelId = (ds.map (·.modelId)).headD "" ∧ a.drops = ds.map (·.drop) := by
  rw [modelAlerts, List.mem_insertionSort, List.mem_map]
  constructor
  · rintro ⟨⟨id, ds⟩, hg, rfl⟩
    exact ⟨ds, hg, rfl, rfl⟩
  · rintro ⟨ds, hg, hid, hdrops⟩
    refine ⟨(a.modelDbId, ds), hg, ?_⟩
    rw [← hid, ← hdrops]

/-- The message of a model shows all its drops and no other. -/
theorem exists_mem_modelAlerts_iff {p : SuiteDrop → Prop} :
    (∃ a ∈ modelAlerts t campaignId, a.modelDbId = modelDbId ∧ ∃ d ∈ a.drops, p d) ↔
      ∃ d ∈ campaignDrops t campaignId, d.modelDbId = modelDbId ∧ p d.drop := by
  constructor
  · rintro ⟨a, ha, rfl, drop, hdrop, hp⟩
    obtain ⟨ds, hg, -, hdrops⟩ := mem_modelAlerts_iff.mp ha
    obtain ⟨-, rfl⟩ := Grouping.mem_group.mp hg
    rw [hdrops] at hdrop
    obtain ⟨d, hd, rfl⟩ := List.mem_map.mp hdrop
    obtain ⟨hd, hid⟩ := List.mem_filter.mp hd
    exact ⟨d, hd, of_decide_eq_true hid, hp⟩
  · rintro ⟨d, hd, rfl, hp⟩
    have hg : (d.modelDbId, (campaignDrops t campaignId).filter (·.modelDbId = d.modelDbId)) ∈
        Grouping.group (·.modelDbId) (campaignDrops t campaignId) :=
      Grouping.mem_group.mpr ⟨⟨d, hd, rfl⟩, rfl⟩
    refine ⟨⟨d.modelDbId, _, _⟩, mem_modelAlerts_iff.mpr ⟨_, hg, rfl, rfl⟩, rfl, d.drop, ?_, hp⟩
    exact List.mem_map_of_mem (List.mem_filter.mpr ⟨hd, decide_eq_true rfl⟩)

/-- A model has one message, and it is not empty. -/
theorem nodup_modelAlerts : ((modelAlerts t campaignId).map (·.modelDbId)).Nodup := by
  have hperm := (List.perm_insertionSort (fun a b : ModelAlert => a.modelDbId ≤ b.modelDbId)
    ((Grouping.group (·.modelDbId) (campaignDrops t campaignId)).map fun g =>
      (⟨g.1, (g.2.map (·.modelId)).headD "", g.2.map (·.drop)⟩ : ModelAlert))).map (·.modelDbId)
  rw [modelAlerts, hperm.nodup_iff, List.map_map]
  exact Grouping.group_keys_nodup _ _

theorem drops_ne_nil {a : ModelAlert} (ha : a ∈ modelAlerts t campaignId) : a.drops ≠ [] := by
  obtain ⟨ds, hg, -, hdrops⟩ := mem_modelAlerts_iff.mp ha
  obtain ⟨⟨d, hd, hid⟩, rfl⟩ := Grouping.mem_group.mp hg
  rw [hdrops]
  refine List.ne_nil_of_mem (List.mem_map_of_mem (a := d) (List.mem_filter.mpr ⟨hd, ?_⟩))
  exact decide_eq_true hid

/-! ### The locked section -/

variable {s : Alerter}

/-- The kinds of the recorded events. -/
def kinds (s : Alerter) : List AlertKind := s.log.events.map (·.kind)

theorem kinds_annotateSkips (s : Alerter) (n : ℕ) :
    kinds (s.annotateSkips n) = kinds s ++ List.replicate n .scoreDropSkipped := by
  induction n generalizing s with
  | zero => simp [Alerter.annotateSkips]
  | succ n ih =>
    rw [Alerter.annotateSkips, ih, List.replicate_succ, ← List.singleton_append,
      ← List.append_assoc]
    congr 1
    simp [kinds, AlertLog.createAlertEvent]

/-- Every model is recorded once; outside quiet hours it is sent a card, inside it waits for the
summary. -/
theorem alertModels_records (s : Alerter) (quiet : Bool) (outcome : ℕ → Bool) (models : List ℕ) :
    let s' := s.alertModels campaignId quiet outcome models
    kinds s' = kinds s ++ List.replicate models.length .scoreDrop ∧
      s'.deliveries.map (·.card) = s.deliveries.map (·.card) ++
        (if quiet then [] else models.map (Card.scoreDrop campaignId)) ∧
      s'.quietScoreDrops.length = s.quietScoreDrops.length +
        (if quiet then models.length else 0) := by
  induction models generalizing s outcome with
  | nil => cases quiet <;> simp [Alerter.alertModels]
  | cons m models ih =>
    rw [Alerter.alertModels]
    cases quiet with
    | true =>
      obtain ⟨hkinds, hcards, hwaiting⟩ := ih s.deferScoreDrop fun k => outcome (k + 1)
      refine ⟨?_, ?_, ?_⟩
      · rw [if_pos rfl, hkinds, List.length_cons, List.replicate_succ, ← List.singleton_append,
          ← List.append_assoc]
        simp [kinds, Alerter.deferScoreDrop, AlertLog.createAlertEvent]
      · rw [if_pos rfl, hcards]
        rfl
      · rw [if_pos rfl, hwaiting]
        simp [Alerter.deferScoreDrop]
        omega
    | false =>
      obtain ⟨hkinds, hcards, hwaiting⟩ := ih (s.sendModelAlert campaignId m (outcome 0))
        fun k => outcome (k + 1)
      refine ⟨?_, ?_, ?_⟩
      · rw [if_neg Bool.false_ne_true, hkinds, List.length_cons, List.replicate_succ,
          ← List.singleton_append, ← List.append_assoc]
        simp [kinds, Alerter.sendModelAlert, AlertLog.createAlertEvent]
      · rw [if_neg Bool.false_ne_true, hcards]
        simp [Alerter.sendModelAlert]
      · rw [if_neg Bool.false_ne_true, hwaiting]
        rfl

/-- What a settled campaign is to do to the alerter. -/
structure Reported (t : ScoreTables) (campaignId : ℕ) (s s' : Alerter) : Prop where
  /-- The pairs of a model and a suite that are alerted are those that dropped. -/
  alerted : ∀ modelDbId suiteId,
    (∃ a ∈ modelAlerts t campaignId, a.modelDbId = modelDbId ∧ ∃ d ∈ a.drops, d.suiteId = suiteId) ↔
      ∃ run, run.suiteId = suiteId ∧ Dropped t campaignId run modelDbId
  /-- A model has one message, which is not empty. -/
  once : ((modelAlerts t campaignId).map (·.modelDbId)).Nodup ∧
    ∀ a ∈ modelAlerts t campaignId, a.drops ≠ []
  /-- The pairs of runs that are skipped are those that are not comparable, once each. -/
  skipped : (∀ run previousRun, (run, previousRun) ∈ campaignSkips t campaignId ↔
      Settled t campaignId run ∧ Baseline t campaignId run.suiteId previousRun ∧
        ¬ Comparable t previousRun run) ∧
    (campaignSkips t campaignId).Nodup
  /-- Every skip and every message is recorded by one event. -/
  recorded : kinds s' = kinds s ++
    List.replicate (campaignSkips t campaignId).length .scoreDropSkipped ++
    List.replicate (modelAlerts t campaignId).length .scoreDrop
  /-- Outside quiet hours every message is sent, and inside it waits for the summary. -/
  sent : if s.settings.quietHours.quiet s.now then
      s'.deliveries.map (·.card) = s.deliveries.map (·.card) ∧
        s'.quietScoreDrops.length =
          s.quietScoreDrops.length + (modelAlerts t campaignId).length
    else
      s'.deliveries.map (·.card) = s.deliveries.map (·.card) ++
          (modelAlerts t campaignId).map fun a => Card.scoreDrop campaignId a.modelDbId

/-- Without a done campaign nothing is compared. -/
theorem comparedRuns_of_not_done (h : ∀ c, t.getCampaign campaignId = some c → c.status ≠ .done) :
    comparedRuns t campaignId = [] := by
  rw [comparedRuns]
  cases hget : t.getCampaign campaignId with
  | none => rfl
  | some c => exact if_neg (h c hget)

/-- **With the switch on and a webhook set, the pairs alerted are exactly those whose mean fell
beyond the threshold against a comparable baseline, one message for each model, and every
incomparable pair of runs is recorded as one skip.** -/
theorem handleCampaign_spec (t : ScoreTables) (hkeys : t.Keyed) (s : Alerter) (campaignId : ℕ)
    (outcome : ℕ → Bool) (hon : s.settings.scoreDropAlertEnabled = true)
    (hwebhook : s.settings.webhook ≠ "") :
    Reported t campaignId s (handleCampaign s t campaignId outcome) := by
  -- what is compared, and whom it concerns, is read off the tables alone
  have halerted (modelDbId suiteId : ℕ) : (∃ a ∈ modelAlerts t campaignId,
      a.modelDbId = modelDbId ∧ ∃ d ∈ a.drops, d.suiteId = suiteId) ↔
        ∃ run, run.suiteId = suiteId ∧ Dropped t campaignId run modelDbId := by
    rw [exists_mem_modelAlerts_iff]
    constructor
    · rintro ⟨d, hd, rfl, rfl⟩
      obtain ⟨run, hsettled, r, hbase, hcomparable, x, y, hx, hy, hbeyond, -, hdrop⟩ :=
        (mem_campaignDrops_iff hkeys).mp hd
      exact ⟨run, by rw [hdrop], hsettled, r, hbase, hcomparable, x, y, hx, hy, hbeyond⟩
    · rintro ⟨run, rfl, hsettled, r, hbase, hcomparable, x, y, hx, hy, hbeyond⟩
      have hdrop : IsDrop t campaignId run ⟨modelDbId,
          (aggregate (t.listEvalResults run.id) modelDbId).1, run.suiteId, t.suiteName run.suiteId,
          x, y, caseChanges t run.suiteId (t.listEvalResults r.id) (t.listEvalResults run.id)
            modelDbId⟩ :=
        ⟨r, hbase, hcomparable, x, y, hx, hy, hbeyond, rfl, rfl⟩
      exact ⟨_, (mem_campaignDrops_iff hkeys).mpr ⟨run, hsettled, hdrop⟩, rfl, rfl⟩
  have honce : ((modelAlerts t campaignId).map (·.modelDbId)).Nodup ∧
      ∀ a ∈ modelAlerts t campaignId, a.drops ≠ [] := ⟨nodup_modelAlerts, fun _ => drops_ne_nil⟩
  have hskipped : (∀ run previousRun, (run, previousRun) ∈ campaignSkips t campaignId ↔
      Settled t campaignId run ∧ Baseline t campaignId run.suiteId previousRun ∧
        ¬ Comparable t previousRun run) ∧ (campaignSkips t campaignId).Nodup :=
    ⟨fun _ _ => mem_campaignSkips_iff hkeys, nodup_campaignSkips hkeys⟩
  by_cases hdone : ∃ c, t.getCampaign campaignId = some c ∧ c.status = .done
  · -- of a done campaign the skips are recorded first, then the alerts
    obtain ⟨c, hget, hstatus⟩ := hdone
    obtain ⟨log, hskips⟩ := annotateSkips_spec s (campaignSkips t campaignId).length
    have hkinds := kinds_annotateSkips s (campaignSkips t campaignId).length
    obtain ⟨hrecorded, hcards, hwaiting⟩ := @alertModels_records campaignId
      (s.annotateSkips (campaignSkips t campaignId).length).syncQuietTimer
      (s.settings.quietHours.quiet s.now) outcome ((modelAlerts t campaignId).map (·.modelDbId))
    have hhandle : handleCampaign s t campaignId outcome =
        ((s.annotateSkips (campaignSkips t campaignId).length).syncQuietTimer).alertModels campaignId
          (s.settings.quietHours.quiet s.now) outcome
          ((modelAlerts t campaignId).map (·.modelDbId)) := by
      rw [handleCampaign, hget]
      simp only [Alerter.handleCampaign, hstatus, hon, hwebhook]
      rw [hskips]
      simp [Alerter.syncQuietTimer]
    rw [← hhandle] at hrecorded hcards hwaiting
    refine ⟨halerted, honce, hskipped, ?_, ?_⟩
    · rw [hrecorded, List.length_map, ← hkinds]
      rfl
    · rw [List.length_map] at hwaiting
      rw [List.map_map] at hcards
      rw [hskips] at hcards hwaiting
      split_ifs at hcards hwaiting ⊢ with hquiet
      · exact ⟨hcards.trans (List.append_nil _), hwaiting⟩
      · exact hcards
  · -- no other campaign has runs to compare
    have hnone : comparedRuns t campaignId = [] :=
      comparedRuns_of_not_done fun c hget hstatus => hdone ⟨c, hget, hstatus⟩
    have hdrops : campaignDrops t campaignId = [] := by rw [campaignDrops, hnone, List.flatMap_nil]
    have hskips : campaignSkips t campaignId = [] := by rw [campaignSkips, hnone, List.filterMap_nil]
    have halerts : modelAlerts t campaignId = [] := by rw [modelAlerts, hdrops]; rfl
    have hsame : handleCampaign s t campaignId outcome = s := by
      rw [handleCampaign]
      cases hget : t.getCampaign campaignId with
      | none => rfl
      | some c =>
        have hstatus : c.status ≠ .done := fun h => hdone ⟨c, hget, h⟩
        simp [Alerter.handleCampaign, hstatus]
    refine ⟨halerted, honce, hskipped, ?_, ?_⟩
    · simp [hsame, hskips, halerts]
    · simp [hsame, halerts]

/-- Two done campaigns over one suite; the mean of a model falls from 1 to 1/2. -/
def halvedTables : ScoreTables where
  campaigns := [⟨1, .done⟩, ⟨2, .done⟩]
  runs := [⟨10, 1, 5, 1, .done⟩, ⟨20, 2, 5, 1, .done⟩]
  results := [⟨10, 7, "m", 1, some 1, "v3"⟩, ⟨20, 7, "m", 1, some (1 / 2), "v3"⟩]
  cases := [⟨1, 5, "prompt"⟩]
  suiteName := fun _ => "suite"

/-- The model is alerted for the suite. -/
theorem handleCampaign_spec_halved :
    ∃ a ∈ modelAlerts halvedTables 2, a.modelDbId = 7 ∧ ∃ d ∈ a.drops, d.suiteId = 5 := by
  have hspec := handleCampaign_spec halvedTables ⟨by decide, by decide⟩
    (.start 0 ⟨"webhook", true, true, ⟨false, 0, 0⟩⟩ [] ⟨[], 0⟩) 2 (fun _ => true) rfl (by decide)
  refine (hspec.alerted 7 5).mpr ⟨⟨20, 2, 5, 1, .done⟩, rfl, ⟨by decide, by decide, rfl, rfl⟩,
    ⟨10, 1, 5, 1, .done⟩, ⟨⟨by decide, by decide⟩, by decide⟩, ⟨rfl, ?_⟩, 1, 1 / 2, ?_, ?_, ?_⟩
  · exact Or.inr (Or.inr (by decide))
  · have hscores : scoresIn halvedTables 10 7 = [1] := rfl
    norm_num [hscores, meanOf]
  · have hscores : scoresIn halvedTables 20 7 = [1 / 2] := rfl
    norm_num [hscores, meanOf]
  · norm_num

end HubScope.ScoreDrop
