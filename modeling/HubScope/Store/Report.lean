import HubScope.Lib.Grouping
import HubScope.Lib.Ranking
import HubScope.Server.ReportRanking
import HubScope.Store.Tables
import Mathlib.Data.List.ReduceOption

/-!
# What a report reads

The queries behind the report of a campaign. They join the results of the campaign's runs with
the models they are of, leaving out the models that are retired or gone, and aggregate them: by
suite for the scores, and by run for the progress and for what they cost.

## Main definitions

* `ReportTables` — the tables a report reads
* `ReportTables.joined` — the results of a campaign with their runs and models
* `ReportTables.listCampaignSuiteScores`, `ReportTables.listCampaignCellProgress`,
  `ReportTables.campaignCostTotals`, `ReportTables.listCampaignCostRows` — the aggregates

## Main results

* `ReportTables.sum_cellProgress`, `ReportTables.sum_costRows` — the costs add up to the totals
-/

set_option autoImplicit false

namespace HubScope

/-- A `models` row with its family. -/
structure ReportModel where
  id : ℕ
  modelId : String
  family : String
  retired : Bool
  deriving DecidableEq

/-- A `suites` row with its key and name. -/
structure ReportSuite where
  id : ℕ
  key : String
  name : String
  deriving DecidableEq

/-- One model's outcome at the probe gate. -/
structure JuryProbe where
  ok : Bool
  succ : ℕ
  rounds : ℕ
  tps : ℚ
  deriving DecidableEq

/-- A jury snapshot that decodes. -/
structure JurySnapshot where
  policy : String
  juries : List (ℕ × List String)
  probe : List (String × JuryProbe)
  deriving DecidableEq

/-- An `eval_runs` row. The jury and the estimate are decoded. -/
structure ReportRun where
  id : ℕ
  campaignId : ℕ
  suiteId : ℕ
  suiteVersion : ℕ
  nadir : ℚ
  status : Status
  jury : Option JurySnapshot
  estimatedCost : Option (ℚ × ℚ)
  deriving DecidableEq

/-- A `campaigns` row. -/
structure ReportCampaign where
  id : ℕ
  trigger : String
  status : Status
  startedAt : Option String
  finishedAt : Option String
  createdAt : String
  deriving DecidableEq

/-- The tables a report reads, each in id order, and the weights that are configured. -/
structure ReportTables where
  models : List ReportModel
  suites : List ReportSuite
  cases : List Case
  campaigns : List ReportCampaign
  campaignModels : List (ℕ × ℕ)
  runs : List ReportRun
  results : List EvalResult
  answers : List EvalAnswer
  suiteWeights : String → ℚ

/-- One model's progress and cost inside one run. -/
structure CampaignCellProgress where
  runId : ℕ
  suiteId : ℕ
  modelDbId : ℕ
  modelId : String
  family : String
  judgedCases : ℕ
  totalCases : ℕ
  samples : ℕ
  latencyMs : ℕ
  inputTokens : ℕ
  outputTokens : ℕ
  deriving DecidableEq

/-- The cost of a campaign. -/
structure CampaignCostTotals where
  latencyMs : ℕ
  inputTokens : ℕ
  outputTokens : ℕ
  deriving DecidableEq

/-- One model's cost inside one run. Tokens are null when none were recorded. -/
structure CampaignCostRow where
  modelId : String
  suiteKey : String
  suiteName : String
  runStatus : Status
  latencyMs : ℕ
  inputTokens : Option ℕ
  outputTokens : Option ℕ
  avgTps : Option ℚ
  deriving DecidableEq

/-- A result with the run and the model it belongs to. -/
structure JoinedResult where
  run : ReportRun
  res : EvalResult
  model : ReportModel
  deriving DecidableEq

/-- The sum of a column over the rows where it is not null. -/
def sumNull (column : List (Option ℕ)) : Option ℕ :=
  if column.reduceOption = [] then none else some column.reduceOption.sum

/-- The mean of a column over the rows where it is not null. -/
def avgNull (column : List (Option ℚ)) : Option ℚ :=
  if column.reduceOption = [] then none
  else some (column.reduceOption.sum / column.reduceOption.length)

namespace ReportTables

variable (t : ReportTables)

/-- `ListEvalRunsByCampaign`. -/
def listEvalRunsByCampaign (campaignId : ℕ) : List ReportRun :=
  t.runs.filter fun r => r.campaignId = campaignId

/-- The model of a result, unless it is retired or gone. -/
def visibleModel (modelDbId : ℕ) : Option ReportModel :=
  (t.models.find? fun m => m.id = modelDbId).filter fun m => !m.retired

/-- The results of a campaign's runs, with the models that are not retired. -/
def joined (campaignId : ℕ) : List JoinedResult :=
  (t.listEvalRunsByCampaign campaignId).flatMap fun run =>
    (t.results.filter fun res => res.runId = run.id).filterMap fun res =>
      (t.visibleModel res.modelDbId).map fun model => ⟨run, res, model⟩

/-- `listCampaignSuiteScores`, over the runs whose status counts. -/
def listSuiteScores (campaignId : ℕ) (counts : Status → Bool) : List CampaignSuiteScore :=
  let groups := Grouping.group (fun j => (j.res.modelDbId, j.run.suiteId))
    ((t.joined campaignId).filter fun j => counts j.run.status)
  (Ranking.sortStable (fun a b => toLex a.1 < toLex b.1) groups).filterMap fun group =>
    group.2.head?.bind fun j =>
      (t.suites.find? fun s => s.id = j.run.suiteId).map fun suite =>
        ⟨j.res.modelDbId, j.res.modelId, j.model.family, suite.key,
          avgNull (group.2.map fun j => j.res.score)⟩

/-- `ListCampaignSuiteScores`: of the runs that are done. -/
def listCampaignSuiteScores (campaignId : ℕ) : List CampaignSuiteScore :=
  t.listSuiteScores campaignId fun status => status = .done

/-- `ListCampaignLiveSuiteScores`: of those that are done or running. -/
def listCampaignLiveSuiteScores (campaignId : ℕ) : List CampaignSuiteScore :=
  t.listSuiteScores campaignId fun status => status = .done ∨ status = .running

/-- The case of a result. -/
def caseOf (res : EvalResult) : Option Case := t.cases.find? fun c => c.id = res.caseId

/-- The progress that a group of results makes. -/
def cellProgress (first : JoinedResult) (group : List JoinedResult) : CampaignCellProgress where
  runId := first.run.id
  suiteId := first.run.suiteId
  modelDbId := first.res.modelDbId
  modelId := first.res.modelId
  family := first.model.family
  judgedCases := group.countP fun j => j.res.score.isSome
  totalCases := group.length
  -- COALESCE(sample_count, 1): a case that declares none was asked once
  samples := ((group.filter fun j => j.res.score.isSome).map fun j =>
    ((t.caseOf j.res).bind Case.sampleCount).getD 1).sum
  latencyMs := (group.map fun j => j.res.latencyMs).sum
  inputTokens := (group.map fun j => j.res.inputTokens.getD 0).sum
  outputTokens := (group.map fun j => j.res.outputTokens.getD 0).sum

/-- `ListCampaignCellProgress`. -/
def listCampaignCellProgress (campaignId : ℕ) : List CampaignCellProgress :=
  let groups := Grouping.group (fun j => (j.run.id, j.res.modelDbId))
    ((t.joined campaignId).filter fun j => (t.caseOf j.res).isSome)
  Ranking.sortStable (fun a b => toLex (a.modelId, a.runId) < toLex (b.modelId, b.runId))
    (groups.filterMap fun group => group.2.head?.map fun first => t.cellProgress first group.2)

/-- `CampaignCostTotals`. -/
def campaignCostTotals (campaignId : ℕ) : CampaignCostTotals where
  latencyMs := ((t.joined campaignId).map fun j => j.res.latencyMs).sum
  inputTokens := ((t.joined campaignId).map fun j => j.res.inputTokens.getD 0).sum
  outputTokens := ((t.joined campaignId).map fun j => j.res.outputTokens.getD 0).sum

/-- The mean output speed of a model's answers in a run. -/
def avgTps (runId modelDbId : ℕ) : Option ℚ :=
  let answered := t.answers.filter fun a =>
    a.runId = runId ∧ a.modelDbId = modelDbId ∧ a.status = .answered
  let latency := (answered.map fun a => a.latencyMs).sum
  -- NULLIF: no speed without a latency
  if latency = 0 then none
  else (sumNull (answered.map fun a => a.outputTokens)).map fun tokens =>
    (tokens : ℚ) * 1000 / latency

/-- `ListCampaignCostRows`. -/
def listCampaignCostRows (campaignId : ℕ) : List CampaignCostRow :=
  let groups := Grouping.group (fun j => (j.run.id, j.res.modelDbId)) (t.joined campaignId)
  Ranking.sortStable (fun a b => toLex (a.modelId, a.suiteKey) < toLex (b.modelId, b.suiteKey))
    (groups.filterMap fun group => group.2.head?.bind fun first =>
      (t.suites.find? fun s => s.id = first.run.suiteId).map fun suite =>
        ⟨first.res.modelId, suite.key, suite.name, first.run.status,
          (group.2.map fun j => j.res.latencyMs).sum,
          sumNull (group.2.map fun j => j.res.inputTokens),
          sumNull (group.2.map fun j => j.res.outputTokens),
          t.avgTps first.run.id first.res.modelDbId⟩)

/-- `CountCampaignNullScoreResults`. -/
def countCampaignNullScoreResults (campaignId : ℕ) : ℕ :=
  ((t.listEvalRunsByCampaign campaignId).map fun run =>
    t.results.countP fun res => res.runId = run.id ∧ res.score = none).sum

/-- `ListCampaignMembers`. -/
def listCampaignMembers (campaignId : ℕ) : List ReportMember :=
  Ranking.sortStable (fun a b => a.modelId < b.modelId)
    ((t.campaignModels.filter fun cm => cm.1 = campaignId).filterMap fun cm =>
      (t.visibleModel cm.2).map fun m => ⟨m.id, m.modelId, m.family⟩)

/-- The order of the verdict profiles' names. -/
def profileRank : VerdictProfile → ℕ
  | .v1 => 1
  | .v2 => 2
  | .v3 => 3

/-- `CampaignVerdictProfiles`: the newest profile of a suite's results in the runs that are
done. -/
def campaignVerdictProfile (campaignId suiteId : ℕ) : Option ℕ :=
  (((t.listEvalRunsByCampaign campaignId).filter fun r =>
      r.status = .done ∧ r.suiteId = suiteId).flatMap fun r =>
    (t.results.filter fun res => res.runId = r.id).map fun res => profileRank res.verdictProfile).max?

/-- `PreviousDoneCampaign`. -/
def previousDoneCampaign (campaignId : ℕ) : Option ReportCampaign :=
  (t.campaigns.filter fun c => c.status = .done ∧ c.id < campaignId).getLast?

/-- `LatestSettledCampaign`. -/
def latestSettledCampaign : Option ReportCampaign :=
  (t.campaigns.filter fun c => c.status.terminal).getLast?

/-- `HasUnfinishedCampaign`. -/
def hasUnfinishedCampaign : Bool := t.campaigns.any fun c => !c.status.terminal

/-- The number of enabled cases of a suite. -/
def enabledCases (suiteId : ℕ) : ℕ := t.cases.countP fun c => c.suiteId = suiteId ∧ c.enabled

/-! ### The costs add up -/

/-- The keys of the tables: an id is one row's, and the suite of a run and the case of a result
are there. -/
structure Keyed : Prop where
  runs : (t.runs.map ReportRun.id).Nodup
  suites : (t.suites.map ReportSuite.id).Nodup
  suiteOf : ∀ run ∈ t.runs, (t.suites.find? fun s => s.id = run.suiteId).isSome
  caseOf : ∀ res ∈ t.results, (t.caseOf res).isSome

end ReportTables

/-- What a result cost, with the tokens it lacks as zero. -/
def JoinedResult.amounts (j : JoinedResult) : ℕ × ℕ × ℕ :=
  (j.res.latencyMs, j.res.inputTokens.getD 0, j.res.outputTokens.getD 0)

/-- What a campaign cost. -/
def CampaignCostTotals.amounts (totals : CampaignCostTotals) : ℕ × ℕ × ℕ :=
  (totals.latencyMs, totals.inputTokens, totals.outputTokens)

/-- What a model cost in a run. -/
def CampaignCellProgress.amounts (p : CampaignCellProgress) : ℕ × ℕ × ℕ :=
  (p.latencyMs, p.inputTokens, p.outputTokens)

/-- What a line of the cost table comes to, with the tokens it lacks as zero. -/
def CampaignCostRow.amounts (row : CampaignCostRow) : ℕ × ℕ × ℕ :=
  (row.latencyMs, row.inputTokens.getD 0, row.outputTokens.getD 0)

theorem getD_sumNull (column : List (Option ℕ)) :
    (sumNull column).getD 0 = (column.map fun n => n.getD 0).sum := by
  have hsum : column.reduceOption.sum = (column.map fun n => n.getD 0).sum := by
    induction column with
    | nil => rfl
    | cons n column ih =>
      cases n <;>
        simp_all [List.reduceOption_cons_of_some, List.reduceOption_cons_of_none]
  rw [← hsum, sumNull]
  by_cases hnil : column.reduceOption = []
  · simp [hnil]
  · simp [hnil]

theorem sum_amounts (js : List JoinedResult) :
    (js.map JoinedResult.amounts).sum =
      ((js.map fun j => j.res.latencyMs).sum, (js.map fun j => j.res.inputTokens.getD 0).sum,
        (js.map fun j => j.res.outputTokens.getD 0).sum) := by
  induction js with
  | nil => rfl
  | cons j js ih =>
    simp only [List.map_cons, List.sum_cons, ih]
    rfl

namespace ReportTables

variable {t : ReportTables} {campaignId : ℕ} {j : JoinedResult}

theorem mem_joined (hj : j ∈ t.joined campaignId) :
    j.run ∈ t.listEvalRunsByCampaign campaignId ∧ j.res ∈ t.results ∧ j.res.runId = j.run.id := by
  obtain ⟨run, hrun, hj⟩ := List.mem_flatMap.mp hj
  obtain ⟨res, hres, hj⟩ := List.mem_filterMap.mp hj
  obtain ⟨model, -, rfl⟩ := Option.map_eq_some_iff.mp hj
  obtain ⟨hres, hid⟩ := List.mem_filter.mp hres
  exact ⟨hrun, hres, by simpa using hid⟩

/-- The first row of a bucket is a row of the list with the key of the bucket. -/
theorem head_of_group {key : JoinedResult → ℕ × ℕ} {js : List JoinedResult}
    {b : (ℕ × ℕ) × List JoinedResult} (hb : b ∈ Grouping.group key js) :
    ∃ first ∈ js, b.2.head? = some first ∧ key first = b.1 := by
  obtain ⟨first, rest, hrows⟩ := List.exists_cons_of_ne_nil (Grouping.ne_nil_of_mem_group hb)
  have hmem : first ∈ b.2 := by simp [hrows]
  rw [(Grouping.mem_group.mp hb).2] at hmem
  obtain ⟨hmem, hkey⟩ := List.mem_filter.mp hmem
  exact ⟨first, hmem, by simp [hrows], by simpa using hkey⟩

/-- The progress has one entry for a model in a run. -/
theorem nodup_cellProgress (t : ReportTables) (campaignId : ℕ) :
    ((t.listCampaignCellProgress campaignId).map fun p => (p.runId, p.modelDbId)).Nodup := by
  rw [listCampaignCellProgress, ((Ranking.perm_sortStable _).map _).nodup_iff, List.map_filterMap]
  -- an entry has the key of its group, and groups have different keys
  have hkeys (js : List JoinedResult) :
      ((Grouping.group (fun j => (j.run.id, j.res.modelDbId)) js).filterMap fun b =>
        (b.2.head?.map fun first => t.cellProgress first b.2).map fun p =>
          (p.runId, p.modelDbId)) =
      (Grouping.group (fun j => (j.run.id, j.res.modelDbId)) js).map Prod.fst := by
    rw [← List.filterMap_eq_map]
    refine List.filterMap_congr fun b hb => ?_
    obtain ⟨first, -, hfirst, hkey⟩ := head_of_group hb
    rw [hfirst, Function.comp_apply, ← hkey]
    rfl
  rw [hkeys]
  exact Grouping.group_keys_nodup _ _

/-- The progress is of the campaign's runs. -/
theorem runId_mem_of_mem_cellProgress {p : CampaignCellProgress}
    (hp : p ∈ t.listCampaignCellProgress campaignId) :
    p.runId ∈ (t.listEvalRunsByCampaign campaignId).map ReportRun.id := by
  obtain ⟨b, hb, hrow⟩ := List.mem_filterMap.mp (Ranking.mem_sortStable.mp hp)
  obtain ⟨first, hmem, hfirst, -⟩ := head_of_group hb
  rw [hfirst, Option.map_some, Option.some.injEq] at hrow
  rw [← hrow]
  exact List.mem_map_of_mem (mem_joined (List.mem_of_mem_filter hmem)).1

/-- **The progress adds up.** The cells of a campaign together cost what the campaign does. -/
theorem sum_cellProgress (hkeyed : t.Keyed) (campaignId : ℕ) :
    ((t.listCampaignCellProgress campaignId).map CampaignCellProgress.amounts).sum =
      (t.campaignCostTotals campaignId).amounts := by
  have hall : ((t.joined campaignId).filter fun j => (t.caseOf j.res).isSome) =
      t.joined campaignId :=
    List.filter_eq_self.mpr fun j hj => hkeyed.caseOf j.res (mem_joined hj).2.1
  rw [listCampaignCellProgress, ((Ranking.perm_sortStable _).map _).sum_eq, hall]
  refine (Grouping.sum_filterMap_group (g := JoinedResult.amounts) fun b hb => ?_).trans
    (sum_amounts _)
  obtain ⟨first, -, hfirst, -⟩ := head_of_group hb
  exact ⟨t.cellProgress first b.2, by simp [hfirst], (sum_amounts b.2).symm⟩

/-- **The cost table adds up.** Its lines together cost what the campaign does. -/
theorem sum_costRows (hkeyed : t.Keyed) (campaignId : ℕ) :
    ((t.listCampaignCostRows campaignId).map CampaignCostRow.amounts).sum =
      (t.campaignCostTotals campaignId).amounts := by
  rw [listCampaignCostRows, ((Ranking.perm_sortStable _).map _).sum_eq]
  refine (Grouping.sum_filterMap_group (g := JoinedResult.amounts) fun b hb => ?_).trans
    (sum_amounts _)
  obtain ⟨first, hmem, hfirst, -⟩ := head_of_group hb
  have hrun := List.mem_of_mem_filter (mem_joined hmem).1
  obtain ⟨suite, hsuite⟩ := Option.isSome_iff_exists.mp (hkeyed.suiteOf first.run hrun)
  refine ⟨_, by rw [hfirst, Option.bind_some, hsuite, Option.map_some], ?_⟩
  simp only [CampaignCostRow.amounts, getD_sumNull, List.map_map, sum_amounts]
  rfl

end ReportTables

end HubScope
