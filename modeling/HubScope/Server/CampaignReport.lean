import HubScope.Store.Report

/-!
# The report of a campaign

The report of a campaign is read in three places: in a session, through a share link, and, for the
newest campaign that has settled, on the public board. A settled campaign has a ranked board with
the deltas against the previous one. An unfinished one has a live board in the session, and through
a share link only its progress: what was scored so far must not leave the session.

## Main definitions

* `CampaignReportDTO` — the report, and `buildCampaignReport` — how it is built
* `sharedReport`, `sessionReport`, `publicEvalBoard` — the places it is read in
* `ReportTables.view` — the tables without what was scored, spent and selected

## Main results

* `sharedReport_eq_of_view` — a shared report of an unfinished campaign tells nothing of the scores
* `publicReport_settled` — the reports of a settled campaign, and what the public board adds
* `cost_accounted` — the costs on a board add up
-/

set_option autoImplicit false

namespace HubScope

/-- A suite a campaign covers, with the version its runs were scored against. -/
structure CoveredSuite extends ReportSuiteDTO where
  name : String
  version : ℕ

/-- The state of a cell. -/
inductive CellStatus
  | pending
  | running
  | done
  | failed
  deriving DecidableEq, Repr

/-- One model's progress in one suite. The costs are there in the session only. -/
structure ReportCellDTO where
  suiteKey : String
  status : CellStatus
  judgedCases : ℕ
  expectedCases : ℕ
  samples : ℕ
  latencyMs : Option ℕ
  inputTokens : Option ℕ
  outputTokens : Option ℕ
  deriving DecidableEq

/-- A row of the board with its delta and its cells. -/
structure ReportBoardRow extends ReportRowDTO where
  totalDelta : Option ℚ
  cells : List ReportCellDTO

/-- The previous campaign, and whether the two can be compared. -/
structure ReportBaselineDTO where
  campaignId : ℕ
  comparable : Bool
  reason : String
  deriving DecidableEq

/-- The counts of a campaign's runs. -/
structure CampaignProgressDTO where
  total : ℕ
  done : ℕ
  failed : ℕ
  running : ℕ
  deriving DecidableEq

/-- A line of the cost table, with the price of its answers. -/
structure CostRowDTO extends CampaignCostRow where
  examCost : Option ℚ

/-- The estimates of the runs, and the number of runs without one. -/
structure EstimatedCostDTO where
  exam : ℚ
  judge : ℚ
  unknownRuns : ℕ
  deriving DecidableEq

/-- The jury of a campaign. -/
structure JuryInfoDTO where
  policy : String
  judges : List String
  probe : List (String × JuryProbe)
  juries : List (ℕ × List String)
  deriving DecidableEq

/-- The live queues of a running campaign. -/
structure QueueDepthDTO where
  examPending : ℤ
  examInflight : ℤ
  judgePending : ℤ
  judgeInflight : ℤ
  models : List (ℕ × ℕ × ℕ)
  probeDone : ℕ
  probeTotal : ℕ
  deriving DecidableEq

/-- The report. -/
structure CampaignReportDTO where
  campaign : ReportCampaign
  progress : CampaignProgressDTO
  suites : List CoveredSuite
  weights : List (String × ℚ)
  rows : List ReportBoardRow
  baseline : Option ReportBaselineDTO
  failedResults : ℕ
  cost : Option CampaignCostTotals
  costRows : Option (List CostRowDTO)
  estimatedCost : Option EstimatedCostDTO
  jury : Option JuryInfoDTO
  queueDepth : Option QueueDepthDTO
  awaitingConfirmation : Bool

/-- The parameters of a query: the column to sort by and the family to show. Empty ones are not
given. -/
structure ReportQuery where
  sort : String
  family : String
  deriving DecidableEq

/-- What the server knows beside its tables: the prices of the models, and the queues of the
campaigns it is executing. -/
structure ReportServer where
  price : String → Option (ℚ × ℚ)
  queueDepth : ℕ → Option QueueDepthDTO
  awaitingConfirmation : ℕ → Bool

/-! ### Suites, weights and cells -/

/-- The last run of a suite. -/
def CellIndex.runBySuite (runs : List ReportRun) (suiteId : ℕ) : Option ReportRun :=
  runs.reverse.find? fun r => r.suiteId = suiteId

/-- The suites covered by the runs, in id order. -/
def campaignSuites (t : ReportTables) (runs : List ReportRun) : List CoveredSuite :=
  t.suites.filterMap fun s => (CellIndex.runBySuite runs s.id).map fun r =>
    ⟨⟨s.id, s.key⟩, s.name, r.suiteVersion⟩

/-- The weight of each suite: the configured one if it is positive, and one otherwise. -/
def effectiveWeights (t : ReportTables) (suites : List CoveredSuite) : List (String × ℚ) :=
  suites.map fun s => (s.key, if t.suiteWeights s.key ≤ 0 then 1 else t.suiteWeights s.key)

/-- A weight by key, as the last suite with the key has it. -/
def weightOf (weights : List (String × ℚ)) (key : String) : ℚ :=
  ((weights.reverse.find? fun w => w.1 = key).map Prod.snd).getD 0

/-- The nadir of each suite, from the last run of it. -/
def nadirBySuiteKey (suites : List CoveredSuite) (runs : List ReportRun) (key : String) : ℚ :=
  ((suites.reverse.find? fun s => s.key = key).bind fun s =>
    (CellIndex.runBySuite runs s.id).map ReportRun.nadir).getD 0

/-- The progress of a model in a run. -/
def CellIndex.progressByCell (progress : List CampaignCellProgress) (runId modelDbId : ℕ) :
    Option CampaignCellProgress :=
  progress.reverse.find? fun p => p.runId = runId ∧ p.modelDbId = modelDbId

/-- The state of a cell from that of its run and the results of its model. -/
def cellStatus (runStatus : Status) (p : Option CampaignCellProgress) (planned : ℕ) : CellStatus :=
  match runStatus with
  | .done => .done
  | .failed => .failed
  | .pending | .running =>
    match p with
    | none => .pending
    | some p => if 0 < planned ∧ planned ≤ p.totalCases then .done else .running

/-- The cases a cell expects: those a finished run has, and otherwise those that are enabled. -/
def cellExpected (runStatus : Status) (p : Option CampaignCellProgress) (planned : ℕ) : ℕ :=
  if runStatus = .done ∧ p.isSome then (p.map CampaignCellProgress.totalCases).getD 0
  else if 0 < planned then planned
  else (p.map CampaignCellProgress.totalCases).getD 0

/-- The cell of a model in a suite, if a run covers the suite. -/
def cellFor (runs : List ReportRun) (progress : List CampaignCellProgress) (suite : CoveredSuite)
    (modelDbId planned : ℕ) (withSamples withCost : Bool) : Option ReportCellDTO :=
  (CellIndex.runBySuite runs suite.id).map fun run =>
    let p := CellIndex.progressByCell progress run.id modelDbId
    { suiteKey := suite.key
      status := cellStatus run.status p planned
      judgedCases := (p.map CampaignCellProgress.judgedCases).getD 0
      expectedCases := cellExpected run.status p planned
      samples := if withSamples then (p.map CampaignCellProgress.samples).getD 0 else 0
      latencyMs := if withCost then some ((p.map CampaignCellProgress.latencyMs).getD 0) else none
      inputTokens :=
        if withCost then some ((p.map CampaignCellProgress.inputTokens).getD 0) else none
      outputTokens :=
        if withCost then some ((p.map CampaignCellProgress.outputTokens).getD 0) else none }

/-- The cells of a model. -/
def cellsOf (t : ReportTables) (runs : List ReportRun) (progress : List CampaignCellProgress)
    (suites : List CoveredSuite) (modelDbId : ℕ) (withSamples withCost : Bool) :
    List ReportCellDTO :=
  suites.filterMap fun suite =>
    cellFor runs progress suite modelDbId (t.enabledCases suite.id) withSamples withCost

/-- `attachReportCells`. -/
def attachReportCells (t : ReportTables) (runs : List ReportRun)
    (progress : List CampaignCellProgress) (suites : List CoveredSuite) (withCost : Bool)
    (rows : List (ReportRowDTO × Option ℚ)) : List ReportBoardRow :=
  rows.map fun row =>
    ⟨row.1, row.2, cellsOf t runs progress suites row.1.modelDbId true withCost⟩

/-- The member that a model's progress is of. -/
def CampaignCellProgress.member (p : CampaignCellProgress) : ReportMember :=
  ⟨p.modelDbId, p.modelId, p.family⟩

/-- Add a model that is not listed yet. -/
def appendRef (ordered : List ReportMember) (m : ReportMember) : List ReportMember :=
  if ordered.any (·.modelDbId = m.modelDbId) then ordered else ordered ++ [m]

/-- The progress board of an unfinished campaign that is shared. It is built without any score. -/
def sharedProgressRows (t : ReportTables) (members : List ReportMember)
    (suites : List CoveredSuite) (runs : List ReportRun) (progress : List CampaignCellProgress) :
    List ReportBoardRow :=
  let ordered := (members ++ progress.map CampaignCellProgress.member).foldl appendRef []
  (Ranking.sortStable (fun a b => a.modelId < b.modelId) ordered).map fun ref =>
    ⟨⟨ref.modelDbId, ref.modelId, ref.family, none, ∅, none, 0⟩, none,
      cellsOf t runs progress suites ref.modelDbId false false⟩

/-! ### The baseline -/

/-- Why the previous campaign cannot be compared, if it cannot. -/
def baselineBreak (t : ReportTables) (campaignId prevId : ℕ) (suites : List CoveredSuite) :
    String :=
  let prevRuns := t.listEvalRunsByCampaign prevId
  -- the first suite that differs gives the reason, the profiles come last
  let broken := suites.findSome? fun s =>
    match CellIndex.runBySuite prevRuns s.id with
    | none => some "suite_missing"
    | some r => if r.suiteVersion ≠ s.version then some "suite_changed" else none
  match broken with
  | some reason => reason
  | none =>
    if suites.any fun s =>
      match t.campaignVerdictProfile campaignId s.id, t.campaignVerdictProfile prevId s.id with
      | some cur, some prev => cur ≠ prev
      -- a side without results has no profile to differ in
      | _, _ => false
    then "profile_changed" else ""

/-- The totals of the previous campaign. -/
def previousTotals (t : ReportTables) (prevId : ℕ) (suites gateSuites : List CoveredSuite)
    (weights : List (String × ℚ)) : List ReportRowDTO :=
  applyCoverageGate
    (buildReportRows (t.listCampaignSuiteScores prevId) (weightOf weights)
      (nadirBySuiteKey suites (t.listEvalRunsByCampaign prevId)))
    (gateSuites.map CoveredSuite.toReportSuiteDTO)

/-- `reportBaseline`: the previous campaign, and the delta of each row. -/
def reportBaseline (t : ReportTables) (campaignId : ℕ) (suites gateSuites : List CoveredSuite)
    (weights : List (String × ℚ)) (rows : List ReportRowDTO) :
    Option ReportBaselineDTO × List (ReportRowDTO × Option ℚ) :=
  match t.previousDoneCampaign campaignId with
  | none => (none, rows.map fun row => (row, none))
  | some prev =>
    let reason := baselineBreak t campaignId prev.id suites
    if reason = "" then
      let prevRows := previousTotals t prev.id suites gateSuites weights
      (some ⟨prev.id, true, ""⟩, rows.map fun row =>
        (row, (prevRows.find? fun p => p.modelDbId = row.modelDbId).bind fun p =>
          p.totalScore.bind fun prevTotal => row.totalScore.map fun total => total - prevTotal))
    else (some ⟨prev.id, false, reason⟩, rows.map fun row => (row, none))

/-! ### Costs, jury and queues -/

/-- The price of a line's answers. -/
def examCostOf (srv : ReportServer) (row : CampaignCostRow) : Option ℚ :=
  (srv.price row.modelId).map fun price =>
    ((row.inputTokens.getD 0 : ℕ) * price.1 + (row.outputTokens.getD 0 : ℕ) * price.2) / 1000000

/-- The estimates of the runs. -/
def campaignEstimatedCost (runs : List ReportRun) : EstimatedCostDTO where
  exam := (runs.filterMap fun r => r.estimatedCost.map Prod.fst).sum
  judge := (runs.filterMap fun r => r.estimatedCost.map Prod.snd).sum
  unknownRuns := runs.countP fun r => r.estimatedCost.isNone

/-- The jury in the first snapshot. It is not given to a shared report. -/
def campaignJuryInfo (runs : List ReportRun) (shared : Bool) : Option JuryInfoDTO :=
  if shared then none
  else (runs.findSome? ReportRun.jury).map fun j =>
    ⟨j.policy, Ranking.sortStable (· < ·) (j.juries.flatMap Prod.snd).dedup, j.probe, j.juries⟩

/-- The counts of the runs. -/
def campaignProgress (runs : List ReportRun) : CampaignProgressDTO where
  total := runs.length
  done := runs.countP fun r => r.status = .done
  failed := runs.countP fun r => r.status = .failed
  running := runs.countP fun r => !r.status.terminal

/-! ### The report -/

/-- The rows of a settled campaign, with the baseline. -/
def settledRows (t : ReportTables) (campaign : ReportCampaign) (suites : List CoveredSuite)
    (runs : List ReportRun) (q : ReportQuery) :
    Option ReportBaselineDTO × List (ReportRowDTO × Option ℚ) :=
  let weights := effectiveWeights t suites
  let sortKey := if q.sort = "" then "total" else q.sort
  -- a suite whose cases are all disabled gates nobody
  let gateSuites := suites.filter fun s => 0 < t.enabledCases s.id
  let rows := applyCoverageGate
    (buildReportRows (t.listCampaignSuiteScores campaign.id) (weightOf weights)
      (nadirBySuiteKey suites runs))
    (gateSuites.map CoveredSuite.toReportSuiteDTO)
  let rows := if q.family = "" then rows else rows.filter fun row => row.family = q.family
  reportBaseline t campaign.id suites gateSuites weights (sortReportRows rows sortKey)

/-- The rows of the live board of an unfinished campaign. -/
def liveRows (t : ReportTables) (campaign : ReportCampaign) (suites : List CoveredSuite)
    (runs : List ReportRun) (q : ReportQuery) : List (ReportRowDTO × Option ℚ) :=
  -- while the campaign runs its runs are not done, so the live query reads them all
  let scores := if campaign.status = .running then t.listCampaignLiveSuiteScores campaign.id
    else t.listCampaignSuiteScores campaign.id
  let rows := liveReportRows (t.listCampaignMembers campaign.id)
    ((t.listCampaignCellProgress campaign.id).map CampaignCellProgress.member) scores
    (weightOf (effectiveWeights t suites)) (nadirBySuiteKey suites runs)
  let rows := if q.family = "" then rows else rows.filter fun row => row.family = q.family
  rows.map fun row => (row, none)

/-- `buildCampaignReport`. The column to sort by must be the total or a suite of the campaign. -/
def buildCampaignReport (srv : ReportServer) (t : ReportTables) (campaign : ReportCampaign)
    (q : ReportQuery) (shared withCost : Bool) : Except (ℕ × String) CampaignReportDTO :=
  let runs := t.listEvalRunsByCampaign campaign.id
  let suites := campaignSuites t runs
  let progress := t.listCampaignCellProgress campaign.id
  if q.sort ≠ "" ∧ q.sort ≠ "total" ∧ suites.all fun s => s.key ≠ q.sort then
    .error (400, "sort must be \"total\" or a suite key of this campaign")
  else
    let board : Option ReportBaselineDTO × List ReportBoardRow :=
      if campaign.status.terminal then
        let (baseline, rows) := settledRows t campaign suites runs q
        (baseline, attachReportCells t runs progress suites withCost rows)
      -- neither scores nor samples: a link shows how far the campaign is
      else if shared then
        (none, sharedProgressRows t (t.listCampaignMembers campaign.id) suites runs progress)
      else
        (none, attachReportCells t runs progress suites withCost
          (liveRows t campaign suites runs q))
    .ok {
      campaign
      progress := campaignProgress runs
      suites
      weights := effectiveWeights t suites
      rows := board.2
      baseline := board.1
      failedResults := t.countCampaignNullScoreResults campaign.id
      cost := if withCost then some (t.campaignCostTotals campaign.id) else none
      costRows :=
        if withCost then
          some ((t.listCampaignCostRows campaign.id).map fun row => ⟨row, examCostOf srv row⟩)
        else none
      estimatedCost := if withCost then some (campaignEstimatedCost runs) else none
      jury := campaignJuryInfo runs shared
      queueDepth :=
        if !shared ∧ campaign.status = .running then srv.queueDepth campaign.id else none
      awaitingConfirmation :=
        !shared && campaign.status = .running && srv.awaitingConfirmation campaign.id }

/-- The report in a session. -/
def sessionReport (srv : ReportServer) (t : ReportTables) (campaign : ReportCampaign)
    (q : ReportQuery) : Except (ℕ × String) CampaignReportDTO :=
  buildCampaignReport srv t campaign q false true

/-- The report through a share link. -/
def sharedReport (srv : ReportServer) (t : ReportTables) (campaign : ReportCampaign)
    (q : ReportQuery) : Except (ℕ × String) CampaignReportDTO :=
  buildCampaignReport srv t campaign q true false

/-- The public board: the report of the newest campaign that has settled, without parameters, and
whether a campaign is unfinished. -/
def publicEvalBoard (srv : ReportServer) (t : ReportTables) :
    Except (ℕ × String) (Option CampaignReportDTO × Bool) :=
  match t.latestSettledCampaign with
  | none => .ok (none, t.hasUnfinishedCampaign)
  | some campaign =>
    (buildCampaignReport srv t campaign ⟨"", ""⟩ false false).map fun report =>
      (some report, t.hasUnfinishedCampaign)

/-! ### What a shared report may depend on -/

/-- A run without its nadir, its jury and its estimate. -/
def ReportRun.view (run : ReportRun) : ReportRun :=
  { run with nadir := 0, jury := none, estimatedCost := none }

/-- A result without what was answered, scored and spent: only whether it has a score is left. -/
def EvalResult.view (res : EvalResult) : EvalResult :=
  { res with
    answerText := none
    score := res.score.map fun _ => 0
    verdictProfile := .v1
    latencyMs := 0
    inputTokens := none
    outputTokens := none }

/-- A case without the number of samples it declares. -/
def Case.view (c : Case) : Case := { c with sampleCount := none }

/-- The tables without what was scored, spent and selected. -/
def ReportTables.view (t : ReportTables) : ReportTables :=
  { t with
    cases := t.cases.map Case.view
    runs := t.runs.map ReportRun.view
    results := t.results.map EvalResult.view
    answers := [] }

def JoinedResult.view (j : JoinedResult) : JoinedResult := ⟨j.run.view, j.res.view, j.model⟩

/-- A model's progress without its samples and its cost. -/
def CampaignCellProgress.view (p : CampaignCellProgress) : CampaignCellProgress :=
  { p with samples := p.judgedCases, latencyMs := 0, inputTokens := 0, outputTokens := 0 }

section View

variable (t : ReportTables) (runs : List ReportRun) (campaignId : ℕ)

theorem listEvalRunsByCampaign_view :
    t.view.listEvalRunsByCampaign campaignId =
      (t.listEvalRunsByCampaign campaignId).map ReportRun.view := by
  rw [ReportTables.listEvalRunsByCampaign, ReportTables.view, List.filter_map]
  rfl

theorem joined_view : t.view.joined campaignId = (t.joined campaignId).map JoinedResult.view := by
  rw [ReportTables.joined, ReportTables.joined, listEvalRunsByCampaign_view, List.flatMap_map,
    List.map_flatMap]
  refine List.flatMap_congr fun run _ => ?_
  have hresults : (t.view.results.filter fun res => res.runId = run.view.id) =
      (t.results.filter fun res => res.runId = run.id).map EvalResult.view := by
    rw [ReportTables.view, List.filter_map]
    rfl
  rw [hresults, List.filterMap_map, List.map_filterMap]
  refine List.filterMap_congr fun res _ => ?_
  rw [Option.map_map]
  rfl

theorem caseOf_view (res : EvalResult) : t.view.caseOf res.view = (t.caseOf res).map Case.view := by
  rw [ReportTables.caseOf, ReportTables.view, List.find?_map]
  rfl

theorem enabledCases_view (suiteId : ℕ) : t.view.enabledCases suiteId = t.enabledCases suiteId := by
  rw [ReportTables.enabledCases, ReportTables.view, List.countP_map]
  rfl

theorem isSome_score_view (j : JoinedResult) : j.view.res.score.isSome = j.res.score.isSome :=
  Option.isSome_map

/-- The progress of a group. A judged case counts once, as no case declares samples. -/
theorem cellProgress_view (first : JoinedResult) (group : List JoinedResult) :
    t.view.cellProgress first.view (group.map JoinedResult.view) =
      (t.cellProgress first group).view := by
  -- no case of the view declares samples, so each judged case counts once
  have hsamples (j : JoinedResult) :
      ((t.view.caseOf j.view.res).bind Case.sampleCount).getD 1 = 1 := by
    have hcase : t.view.caseOf j.view.res = (t.caseOf j.res).map Case.view := caseOf_view t j.res
    rw [hcase]
    cases t.caseOf j.res <;> rfl
  simp only [ReportTables.cellProgress, CampaignCellProgress.view, List.filter_map,
    List.countP_map, List.length_map, List.map_map, Function.comp_def, isSome_score_view, hsamples]
  simp [JoinedResult.view, ReportRun.view, EvalResult.view, List.countP_eq_length_filter]

theorem listCampaignCellProgress_view :
    t.view.listCampaignCellProgress campaignId =
      (t.listCampaignCellProgress campaignId).map CampaignCellProgress.view := by
  -- the join on the cases keeps the same rows, then the groups are compared one by one
  have hcases : ((t.view.joined campaignId).filter fun j => (t.view.caseOf j.res).isSome) =
      ((t.joined campaignId).filter fun j => (t.caseOf j.res).isSome).map JoinedResult.view := by
    rw [joined_view, List.filter_map]
    refine congrArg _ (List.filter_congr fun j _ => ?_)
    exact (congrArg Option.isSome (caseOf_view t j.res)).trans Option.isSome_map
  rw [ReportTables.listCampaignCellProgress, ReportTables.listCampaignCellProgress, hcases,
    Grouping.group_map, List.filterMap_map]
  refine Eq.trans (congrArg _ ?_)
    (Ranking.sortStable_map CampaignCellProgress.view (fun _ _ => Iff.rfl) _)
  rw [List.map_filterMap]
  refine List.filterMap_congr fun b _ => ?_
  cases hhead : b.2.head? with
  | none => simp [hhead]
  | some first => simp [hhead, cellProgress_view]

theorem countCampaignNullScoreResults_view :
    t.view.countCampaignNullScoreResults campaignId =
      t.countCampaignNullScoreResults campaignId := by
  rw [ReportTables.countCampaignNullScoreResults, ReportTables.countCampaignNullScoreResults,
    listEvalRunsByCampaign_view, List.map_map]
  refine congrArg _ (List.map_congr_left fun run _ => ?_)
  rw [Function.comp_apply, ReportTables.view, List.countP_map]
  refine List.countP_congr fun res _ => ?_
  cases hscore : res.score <;> simp [EvalResult.view, ReportRun.view, hscore]

theorem runBySuite_view (suiteId : ℕ) :
    CellIndex.runBySuite (runs.map ReportRun.view) suiteId =
      (CellIndex.runBySuite runs suiteId).map ReportRun.view := by
  rw [CellIndex.runBySuite, ← List.map_reverse, List.find?_map]
  rfl

theorem campaignSuites_view :
    campaignSuites t.view (runs.map ReportRun.view) = campaignSuites t runs := by
  refine List.filterMap_congr fun suite _ => ?_
  rw [runBySuite_view, Option.map_map]
  rfl

theorem effectiveWeights_view (suites : List CoveredSuite) :
    effectiveWeights t.view suites = effectiveWeights t suites := rfl

theorem listCampaignMembers_view :
    t.view.listCampaignMembers campaignId = t.listCampaignMembers campaignId := rfl

theorem campaignProgress_view :
    campaignProgress (runs.map ReportRun.view) = campaignProgress runs := by
  simp only [campaignProgress, List.length_map, List.countP_map]
  rfl

/-- A cell without samples and cost. -/
theorem cellFor_view (progress : List CampaignCellProgress) (suite : CoveredSuite)
    (modelDbId planned : ℕ) :
    cellFor (runs.map ReportRun.view) (progress.map CampaignCellProgress.view) suite modelDbId
      planned false false = cellFor runs progress suite modelDbId planned false false := by
  -- what a cell shows of its progress is in the view: the status, the counts, the judged cases
  have hprogress (runId : ℕ) :
      CellIndex.progressByCell (progress.map CampaignCellProgress.view) runId modelDbId =
        (CellIndex.progressByCell progress runId modelDbId).map CampaignCellProgress.view := by
    rw [CellIndex.progressByCell, ← List.map_reverse, List.find?_map]
    rfl
  have hstatus (status : Status) (p : Option CampaignCellProgress) :
      cellStatus status (p.map CampaignCellProgress.view) planned = cellStatus status p planned := by
    cases status <;> cases p <;> rfl
  have hexpected (status : Status) (p : Option CampaignCellProgress) :
      cellExpected status (p.map CampaignCellProgress.view) planned =
        cellExpected status p planned := by
    cases p <;> rfl
  have hjudged (p : Option CampaignCellProgress) :
      (p.map CampaignCellProgress.view).map CampaignCellProgress.judgedCases =
        p.map CampaignCellProgress.judgedCases := by
    cases p <;> rfl
  rw [cellFor, cellFor, runBySuite_view, Option.map_map]
  refine congrArg (Option.map · _) (funext fun run => ?_)
  simp only [Function.comp_apply, hprogress, hstatus, hexpected, hjudged]
  rfl

theorem sharedProgressRows_view (members : List ReportMember) (suites : List CoveredSuite)
    (progress : List CampaignCellProgress) :
    sharedProgressRows t.view members suites (runs.map ReportRun.view)
      (progress.map CampaignCellProgress.view) =
      sharedProgressRows t members suites runs progress := by
  simp only [sharedProgressRows, cellsOf, List.map_map, cellFor_view, enabledCases_view]
  rfl

end View

variable {srv srv' : ReportServer} {t t' : ReportTables} {campaign : ReportCampaign}
  {q q' : ReportQuery}

/-- A shared report of an unfinished campaign is built from what is left of the tables. -/
theorem sharedReport_view (hopen : campaign.status.terminal = false) (hsort : q.sort = q'.sort) :
    sharedReport srv t campaign q = sharedReport srv' t.view campaign q' := by
  simp [sharedReport, buildCampaignReport, listEvalRunsByCampaign_view, campaignSuites_view,
    listCampaignCellProgress_view, campaignProgress_view, countCampaignNullScoreResults_view,
    sharedProgressRows_view, effectiveWeights_view, listCampaignMembers_view, campaignJuryInfo,
    hopen, hsort]

/-- **What was scored stays in the session.** Two states of the tables that agree on everything
but the scores, the costs, the answers, the profiles, the jury and the estimates have one shared
report, whatever family is asked for and whatever the server has in its queues. -/
theorem sharedReport_eq_of_view (hopen : campaign.status.terminal = false)
    (hview : t.view = t'.view) (hsort : q.sort = q'.sort) :
    sharedReport srv t campaign q = sharedReport srv' t' campaign q' :=
  calc sharedReport srv t campaign q
      = sharedReport srv t.view campaign q := sharedReport_view hopen rfl
    _ = sharedReport srv t'.view campaign q := by rw [hview]
    _ = sharedReport srv' t' campaign q' := (sharedReport_view hopen hsort.symm).symm

/-- A campaign that runs, and a server that knows no prices and no queues. -/
def runningCampaign : ReportCampaign := ⟨1, "manual", .running, none, none, ""⟩

def idleServer : ReportServer := ⟨fun _ => none, fun _ => none, fun _ => false⟩

/-- One model, with a scored result in the campaign's run. -/
def scoredTables (score : ℚ) : ReportTables where
  models := [⟨1, "m", "f", false⟩]
  suites := [⟨1, "s", "S"⟩]
  cases := [⟨1, 1, .judge, some 3, true⟩]
  campaigns := [runningCampaign]
  campaignModels := [(1, 1)]
  runs := [⟨1, 1, 1, 1, 0, .running, none, none⟩]
  results := [⟨1, 1, "m", 1, none, some score, .v1, 5, some 2, some 3⟩]
  answers := []
  suiteWeights := fun _ => 1

/-- The totals a report shows. -/
def CampaignReportDTO.totals (report : CampaignReportDTO) : List (Option ℚ) :=
  report.rows.map fun row => row.totalScore

/-- A shared report does not tell a score of zero from a full one. In the session they differ. -/
theorem sharedReport_eq_of_view_scored :
    sharedReport idleServer (scoredTables 0) runningCampaign ⟨"", ""⟩ =
      sharedReport idleServer (scoredTables 1) runningCampaign ⟨"", "f"⟩ ∧
    (sessionReport idleServer (scoredTables 0) runningCampaign ⟨"", ""⟩).toOption.map (·.totals) =
      some [some 0] ∧
    (sessionReport idleServer (scoredTables 1) runningCampaign ⟨"", ""⟩).toOption.map (·.totals) =
      some [some 100] :=
  ⟨sharedReport_eq_of_view rfl rfl rfl, by decide +kernel, by decide +kernel⟩

/-! ### Settled campaigns -/

/-- A cell without its costs. -/
def ReportCellDTO.stripped (cell : ReportCellDTO) : ReportCellDTO :=
  { cell with latencyMs := none, inputTokens := none, outputTokens := none }

def ReportBoardRow.stripped (row : ReportBoardRow) : ReportBoardRow :=
  { row with cells := row.cells.map ReportCellDTO.stripped }

/-- A report without what is operational: the costs, the jury and the queues. -/
def CampaignReportDTO.stripped (report : CampaignReportDTO) : CampaignReportDTO :=
  { report with
    rows := report.rows.map ReportBoardRow.stripped
    cost := none
    costRows := none
    estimatedCost := none
    jury := none
    queueDepth := none
    awaitingConfirmation := false }

theorem cellFor_stripped (runs : List ReportRun) (progress : List CampaignCellProgress)
    (suite : CoveredSuite) (modelDbId planned : ℕ) :
    cellFor runs progress suite modelDbId planned true false =
      (cellFor runs progress suite modelDbId planned true true).map ReportCellDTO.stripped := by
  rw [cellFor, cellFor, Option.map_map]
  rfl

theorem attachReportCells_stripped (t : ReportTables) (runs : List ReportRun)
    (progress : List CampaignCellProgress) (suites : List CoveredSuite)
    (rows : List (ReportRowDTO × Option ℚ)) :
    attachReportCells t runs progress suites false rows =
      (attachReportCells t runs progress suites true rows).map ReportBoardRow.stripped := by
  rw [attachReportCells, attachReportCells, List.map_map]
  refine List.map_congr_left fun row _ => ?_
  rw [cellsOf, Function.comp_apply, ReportBoardRow.stripped, cellsOf, List.map_filterMap]
  simp only [cellFor_stripped]

/-- The report of a settled campaign outside a session. The jury is left in unless it is shared. -/
theorem buildCampaignReport_settled (hsettled : campaign.status.terminal = true) (shared : Bool) :
    buildCampaignReport srv t campaign q shared false =
      (sessionReport srv t campaign q).map fun report =>
        { report.stripped with jury := if shared then none else report.jury } := by
  -- a settled campaign has no queue and waits for no confirmation
  have hidle : campaign.status ≠ .running := by
    intro hrunning
    rw [hrunning] at hsettled
    cases hsettled
  by_cases hsort : q.sort ≠ "" ∧ q.sort ≠ "total" ∧
      (campaignSuites t (t.listEvalRunsByCampaign campaign.id)).all fun s => s.key ≠ q.sort
  · simp only [sessionReport, buildCampaignReport, if_pos hsort]
    rfl
  · simp only [sessionReport, buildCampaignReport, if_neg hsort, hsettled, hidle, if_true,
      attachReportCells_stripped]
    cases shared <;> simp [Except.map, CampaignReportDTO.stripped, campaignJuryInfo]

/-- **The report of a settled campaign is one report.** A share link shows the session's without
the costs and the jury. The public board shows it without the costs and with the jury. -/
theorem publicReport_settled (srv : ReportServer) (t : ReportTables) (q : ReportQuery) :
    (∀ campaign : ReportCampaign, campaign.status.terminal = true →
      sharedReport srv t campaign q =
        (sessionReport srv t campaign q).map CampaignReportDTO.stripped) ∧
    publicEvalBoard srv t =
      match t.latestSettledCampaign with
      | none => .ok (none, t.hasUnfinishedCampaign)
      | some campaign => (sessionReport srv t campaign ⟨"", ""⟩).map fun report =>
          (some { report.stripped with jury := report.jury }, t.hasUnfinishedCampaign) := by
  constructor
  · intro campaign hsettled
    exact buildCampaignReport_settled hsettled true
  · rw [publicEvalBoard]
    cases hlatest : t.latestSettledCampaign with
    | none => rfl
    | some campaign =>
      have hsettled : campaign.status.terminal = true := by
        have hmem := List.mem_of_getLast? hlatest
        simpa using (List.mem_filter.mp hmem).2
      simp only [buildCampaignReport_settled hsettled]
      cases sessionReport srv t campaign ⟨"", ""⟩ <;> rfl

/-! ### The costs of a board -/

/-- What a cell shows as spent. -/
def ReportCellDTO.amounts (cell : ReportCellDTO) : ℕ × ℕ × ℕ :=
  (cell.latencyMs.getD 0, cell.inputTokens.getD 0, cell.outputTokens.getD 0)

/-- What the cells of a row add up to. -/
def ReportBoardRow.amounts (row : ReportBoardRow) : ℕ × ℕ × ℕ :=
  (row.cells.map ReportCellDTO.amounts).sum

theorem sum_filterMap {α M : Type*} [AddCommMonoid M] (f : α → Option M) (xs : List α) :
    (xs.filterMap f).sum = (xs.map fun x => (f x).toList.sum).sum := by
  induction xs with
  | nil => rfl
  | cons x xs ih => cases hx : f x <;> simp [hx, ih]

section Costs

variable {runs : List ReportRun} {progress : List CampaignCellProgress} {modelDbId : ℕ}

/-- A cell with costs shows those of its model in its run. -/
theorem amounts_cellFor (hkeys : (progress.map fun p => (p.runId, p.modelDbId)).Nodup)
    (suite : CoveredSuite) (planned : ℕ) (withSamples : Bool) :
    (cellFor runs progress suite modelDbId planned withSamples true).map ReportCellDTO.amounts =
      (CellIndex.runBySuite runs suite.id).map fun run =>
        ((progress.filter fun p => (p.runId, p.modelDbId) = (run.id, modelDbId)).map
          CampaignCellProgress.amounts).sum := by
  rw [cellFor, Option.map_map]
  refine congrArg (Option.map · _) (funext fun run => ?_)
  have hcell : CellIndex.progressByCell progress run.id modelDbId =
      progress.reverse.find? fun p => (p.runId, p.modelDbId) = (run.id, modelDbId) := by
    simp only [CellIndex.progressByCell, Prod.mk.injEq]
  rw [Grouping.filter_eq_find? hkeys, ← hcell, Function.comp_apply]
  cases CellIndex.progressByCell progress run.id modelDbId <;> rfl

/-- A row shows what its model cost in the campaign's runs, if each run has a suite of its own. -/
theorem amounts_cellsOf (modelDbId : ℕ) (hkeyed : t.Keyed) (hruns : ∀ run ∈ runs, run ∈ t.runs)
    (honce : (runs.map ReportRun.suiteId).Nodup) (hids : (runs.map ReportRun.id).Nodup)
    (hkeys : (progress.map fun p => (p.runId, p.modelDbId)).Nodup)
    (hprogress : ∀ p ∈ progress, p.runId ∈ runs.map ReportRun.id) :
    ((cellsOf t runs progress (campaignSuites t runs) modelDbId true true).map
        ReportCellDTO.amounts).sum =
      ((progress.filter fun p => p.modelDbId = modelDbId).map CampaignCellProgress.amounts).sum := by
  -- what the model cost in a run
  let spent (run : ReportRun) : ℕ × ℕ × ℕ :=
    ((progress.filter fun p => (p.runId, p.modelDbId) = (run.id, modelDbId)).map
      CampaignCellProgress.amounts).sum
  -- one run a suite: the cell of a suite shows what its runs spent
  have hsuite (s : ReportSuite) :
      (((CellIndex.runBySuite runs s.id).map fun run => (⟨⟨s.id, s.key⟩, s.name, run.suiteVersion⟩ :
        CoveredSuite)).bind fun suite =>
          (CellIndex.runBySuite runs suite.id).map spent).toList.sum =
        ((runs.filter fun run => run.suiteId = s.id).map spent).sum := by
    rw [Grouping.filter_eq_find? honce, ← CellIndex.runBySuite]
    cases hrun : CellIndex.runBySuite runs s.id <;> simp [hrun]
  -- every run is of a suite of the table, so none is left out of the sum
  have hcovered : (runs.filter fun run => run.suiteId ∈ t.suites.map ReportSuite.id) = runs := by
    refine List.filter_eq_self.mpr fun run hrun => ?_
    obtain ⟨suite, hsuite⟩ := Option.isSome_iff_exists.mp (hkeyed.suiteOf run (hruns run hrun))
    have hid : suite.id = run.suiteId := by simpa using List.find?_some hsuite
    simpa [hid] using ⟨suite, List.mem_of_find?_eq_some hsuite, hid⟩
  have hspent : spent = fun run =>
      (((progress.filter fun p => p.modelDbId = modelDbId).filter fun p => p.runId = run.id).map
        CampaignCellProgress.amounts).sum := by
    funext run
    simp only [spent, List.filter_filter, Prod.mk.injEq, Bool.decide_and]
  -- and all progress is that of a run of the campaign
  have hall : ((progress.filter fun p => p.modelDbId = modelDbId).filter fun p =>
      p.runId ∈ runs.map ReportRun.id) = progress.filter fun p => p.modelDbId = modelDbId :=
    List.filter_eq_self.mpr fun p hp => by simpa using hprogress p (List.mem_of_mem_filter hp)
  calc ((cellsOf t runs progress (campaignSuites t runs) modelDbId true true).map
        ReportCellDTO.amounts).sum
      = (t.suites.map fun s => ((runs.filter fun run => run.suiteId = s.id).map spent).sum).sum := by
        rw [cellsOf, campaignSuites, List.filterMap_filterMap, List.map_filterMap, sum_filterMap]
        refine congrArg List.sum (List.map_congr_left fun s _ => ?_)
        rw [← hsuite, Option.map_bind]
        simp only [Function.comp_def, amounts_cellFor hkeys]
        rfl
    _ = (runs.map spent).sum := by
        have hsum := Grouping.sum_keys ReportRun.suiteId spent runs hkeyed.suites
        rw [hcovered, List.map_map] at hsum
        exact hsum
    _ = ((progress.filter fun p => p.modelDbId = modelDbId).map
          CampaignCellProgress.amounts).sum := by
        have hsum := Grouping.sum_keys CampaignCellProgress.runId CampaignCellProgress.amounts
          (progress.filter fun p => p.modelDbId = modelDbId) hids
        rw [hall, List.map_map] at hsum
        rw [hspent]
        exact hsum

end Costs

/-! ### The rows of a board -/

/-- The model ids of a board's rows. -/
def boardIds (rows : List (ReportRowDTO × Option ℚ)) : List ℕ := rows.map fun row => row.1.modelDbId

theorem boardIds_reportBaseline (t : ReportTables) (campaignId : ℕ)
    (suites gateSuites : List CoveredSuite) (weights : List (String × ℚ))
    (rows : List ReportRowDTO) :
    boardIds (reportBaseline t campaignId suites gateSuites weights rows).2 =
      rows.map (·.modelDbId) := by
  rw [reportBaseline]
  cases t.previousDoneCampaign campaignId with
  | none => exact List.map_map
  | some prev =>
    dsimp only
    split_ifs
    · exact List.map_map
    · exact List.map_map

theorem modelDbId_gateRow (suites : List ReportSuiteDTO) (row : ReportRowDTO) :
    (gateRow suites row).modelDbId = row.modelDbId := by
  rw [gateRow]
  split_ifs <;> rfl

/-- The rows of one family, or all of them. -/
theorem familyRows_sublist (family : String) (rows : List ReportRowDTO) :
    (if family = "" then rows else rows.filter fun row => row.family = family).Sublist rows := by
  split_ifs
  · exact List.Sublist.refl rows
  · exact List.filter_sublist

/-- A model has one row on a settled board. -/
theorem nodup_settledRows (t : ReportTables) (campaign : ReportCampaign)
    (suites : List CoveredSuite) (runs : List ReportRun) (q : ReportQuery) :
    (boardIds (settledRows t campaign suites runs q).2).Nodup := by
  rw [settledRows, boardIds_reportBaseline, sortReportRows,
    ((Ranking.perm_sortStable _).map _).nodup_iff]
  refine List.Nodup.sublist ((familyRows_sublist q.family _).map _) ?_
  rw [applyCoverageGate, List.map_map]
  simp only [Function.comp_def, modelDbId_gateRow]
  exact (collected_buildReportRows _ _ _).nodup

/-- The rows of a live board so far: one for each model of a member. -/
structure Listed (members : List ReportMember) (rows : List ReportRowDTO) : Prop where
  nodup : (rows.map (·.modelDbId)).Nodup
  mem : ∀ m ∈ members, m.modelDbId ∈ rows.map (·.modelDbId)

theorem Listed.appendRow {members : List ReportMember} {rows : List ReportRowDTO}
    (h : Listed members rows) (scored : List ReportRowDTO) (m : ReportMember) :
    Listed (members ++ [m]) (appendRow scored rows m) := by
  have hadd (row : ReportRowDTO) (hid : row.modelDbId = m.modelDbId)
      (hnew : m.modelDbId ∉ rows.map (·.modelDbId)) : Listed (members ++ [m]) (rows ++ [row]) := by
    refine ⟨?_, fun m' hm' => ?_⟩
    · rw [List.map_append, List.map_singleton, hid]
      rw [← List.concat_eq_append]
      exact h.nodup.concat hnew
    · rw [List.map_append, List.map_singleton, hid]
      rcases List.mem_append.mp hm' with hold | hlast
      · exact List.mem_append_left _ (h.mem m' hold)
      · rw [List.mem_singleton.mp hlast]
        exact List.mem_append_right _ (List.mem_singleton_self _)
  rw [HubScope.appendRow]
  split_ifs with hany
  · refine ⟨h.nodup, fun m' hm' => ?_⟩
    rcases List.mem_append.mp hm' with hold | hlast
    · exact h.mem m' hold
    · rw [List.mem_singleton.mp hlast]
      simpa using hany
  · have hnew : m.modelDbId ∉ rows.map (·.modelDbId) := by simpa using hany
    cases hfound : scored.find? (·.modelDbId = m.modelDbId) with
    | some row => exact hadd row (by simpa using List.find?_some hfound) hnew
    | none => exact hadd _ rfl hnew

theorem listed_foldl (scored : List ReportRowDTO) (members : List ReportMember) :
    Listed members (members.foldl (appendRow scored) []) := by
  induction members using List.reverseRecOn with
  | nil => exact ⟨List.nodup_nil, fun m hm => nomatch hm⟩
  | append_singleton members m ih =>
    rw [List.foldl_concat]
    exact ih.appendRow scored m

/-- A model has one row on a live board. -/
theorem nodup_liveRows (t : ReportTables) (campaign : ReportCampaign) (suites : List CoveredSuite)
    (runs : List ReportRun) (q : ReportQuery) :
    (boardIds (liveRows t campaign suites runs q)).Nodup := by
  rw [liveRows, boardIds, List.map_map]
  refine List.Nodup.sublist ((familyRows_sublist q.family _).map _) ?_
  rw [liveReportRows, ((Ranking.perm_sortStable _).map _).nodup_iff]
  exact (listed_foldl _ _).nodup

/-- A live board that shows all families has a row of every model with progress. -/
theorem mem_liveRows (suites : List CoveredSuite) (runs : List ReportRun) (hfamily : q.family = "")
    {p : CampaignCellProgress} (hp : p ∈ t.listCampaignCellProgress campaign.id) :
    p.modelDbId ∈ boardIds (liveRows t campaign suites runs q) := by
  rw [liveRows, boardIds, List.map_map, if_pos hfamily, liveReportRows,
    ((Ranking.perm_sortStable _).map _).mem_iff]
  exact (listed_foldl _ _).mem p.member (List.mem_append_right _ (List.mem_map_of_mem hp))

/-- What the progress costs is what that of the models in a list costs, and what the rest does. -/
theorem sum_split (progress : List CampaignCellProgress) (ids : List ℕ) :
    (progress.map CampaignCellProgress.amounts).sum =
      ((progress.filter fun p => p.modelDbId ∈ ids).map CampaignCellProgress.amounts).sum +
      ((progress.filter fun p => p.modelDbId ∉ ids).map CampaignCellProgress.amounts).sum := by
  have hperm := List.filter_append_perm (fun p : CampaignCellProgress => p.modelDbId ∈ ids) progress
  rw [← (hperm.map _).sum_eq, List.map_append, List.sum_append]
  simp only [decide_not]

/-- What a board shows is what the models on it cost. -/
theorem amounts_attachReportCells (hkeyed : t.Keyed) (campaignId : ℕ)
    (honce : ((t.listEvalRunsByCampaign campaignId).map ReportRun.suiteId).Nodup)
    {rows : List (ReportRowDTO × Option ℚ)} (hrows : (boardIds rows).Nodup) :
    ((attachReportCells t (t.listEvalRunsByCampaign campaignId)
        (t.listCampaignCellProgress campaignId)
        (campaignSuites t (t.listEvalRunsByCampaign campaignId)) true rows).map
          ReportBoardRow.amounts).sum =
      (((t.listCampaignCellProgress campaignId).filter fun p => p.modelDbId ∈ boardIds rows).map
        CampaignCellProgress.amounts).sum := by
  have hids : ((t.listEvalRunsByCampaign campaignId).map ReportRun.id).Nodup :=
    hkeyed.runs.sublist (List.filter_sublist.map _)
  have hrow (modelDbId : ℕ) := amounts_cellsOf modelDbId hkeyed
    (fun run hrun => List.mem_of_mem_filter hrun) honce hids (t.nodup_cellProgress campaignId)
    fun p hp => ReportTables.runId_mem_of_mem_cellProgress hp
  rw [attachReportCells, List.map_map, ← Grouping.sum_keys _ _ _ hrows, boardIds, List.map_map]
  refine congrArg List.sum (List.map_congr_left fun row _ => ?_)
  exact hrow row.1.modelDbId

/-- The rows of a session's board. -/
def sessionRows (t : ReportTables) (campaign : ReportCampaign) (q : ReportQuery) :
    List (ReportRowDTO × Option ℚ) :=
  let runs := t.listEvalRunsByCampaign campaign.id
  let suites := campaignSuites t runs
  if campaign.status.terminal then (settledRows t campaign suites runs q).2
  else liveRows t campaign suites runs q

theorem nodup_sessionRows (t : ReportTables) (campaign : ReportCampaign) (q : ReportQuery) :
    (boardIds (sessionRows t campaign q)).Nodup := by
  rw [sessionRows]
  split_ifs
  · exact nodup_settledRows _ _ _ _ _
  · exact nodup_liveRows _ _ _ _ _

theorem mem_sessionRows (hopen : campaign.status.terminal = false) (hfamily : q.family = "")
    {p : CampaignCellProgress} (hp : p ∈ t.listCampaignCellProgress campaign.id) :
    p.modelDbId ∈ boardIds (sessionRows t campaign q) := by
  rw [sessionRows, hopen]
  exact mem_liveRows _ _ hfamily hp

/-- The board and the costs of a session's report. -/
theorem sessionReport_eq_ok {report : CampaignReportDTO}
    (hreport : sessionReport srv t campaign q = .ok report) :
    report.cost = some (t.campaignCostTotals campaign.id) ∧
    report.costRows = some ((t.listCampaignCostRows campaign.id).map fun row =>
      ⟨row, examCostOf srv row⟩) ∧
    report.rows = attachReportCells t (t.listEvalRunsByCampaign campaign.id)
      (t.listCampaignCellProgress campaign.id)
      (campaignSuites t (t.listEvalRunsByCampaign campaign.id)) true
      (sessionRows t campaign q) := by
  by_cases hsort : q.sort ≠ "" ∧ q.sort ≠ "total" ∧
      (campaignSuites t (t.listEvalRunsByCampaign campaign.id)).all fun s => s.key ≠ q.sort
  · simp only [sessionReport, buildCampaignReport, if_pos hsort] at hreport
    cases hreport
  · simp only [sessionReport, buildCampaignReport, if_neg hsort] at hreport
    cases hreport
    refine ⟨rfl, rfl, ?_⟩
    rw [sessionRows]
    cases campaign.status.terminal <;> rfl

/-- **The costs on a board.** The lines of the cost table add up to the costs of the campaign. So do
the cells of the board together with what was spent on models that have no row. A live board that
shows all families leaves no model out. -/
theorem cost_accounted {report : CampaignReportDTO} (hkeyed : t.Keyed)
    (honce : ((t.listEvalRunsByCampaign campaign.id).map ReportRun.suiteId).Nodup)
    (hreport : sessionReport srv t campaign q = .ok report) :
    ∃ totals lines, report.cost = some totals ∧ report.costRows = some lines ∧
      (lines.map fun line => line.amounts).sum = totals.amounts ∧
      (report.rows.map ReportBoardRow.amounts).sum +
          (((t.listCampaignCellProgress campaign.id).filter fun p =>
            p.modelDbId ∉ report.rows.map fun row => row.modelDbId).map
              CampaignCellProgress.amounts).sum = totals.amounts ∧
      (campaign.status.terminal = false → q.family = "" →
        (∀ p ∈ t.listCampaignCellProgress campaign.id,
          p.modelDbId ∈ report.rows.map fun row => row.modelDbId) ∧
        (report.rows.map ReportBoardRow.amounts).sum = totals.amounts) := by
  obtain ⟨hcost, hlines, hrows⟩ := sessionReport_eq_ok hreport
  have hids : (report.rows.map fun row => row.modelDbId) = boardIds (sessionRows t campaign q) := by
    rw [hrows, attachReportCells, List.map_map]
    rfl
  have hsplit : (report.rows.map ReportBoardRow.amounts).sum +
      (((t.listCampaignCellProgress campaign.id).filter fun p =>
        p.modelDbId ∉ report.rows.map fun row => row.modelDbId).map
          CampaignCellProgress.amounts).sum = (t.campaignCostTotals campaign.id).amounts := by
    rw [hids, hrows, amounts_attachReportCells hkeyed campaign.id honce (nodup_sessionRows t _ q),
      ← sum_split, ReportTables.sum_cellProgress hkeyed]
  refine ⟨_, _, hcost, hlines, ?_, hsplit, fun hopen hfamily => ?_⟩
  · rw [List.map_map, ← ReportTables.sum_costRows hkeyed]
    rfl
  · have hshown : ∀ p ∈ t.listCampaignCellProgress campaign.id,
        p.modelDbId ∈ report.rows.map fun row => row.modelDbId := by
      intro p hp
      rw [hids]
      exact mem_sessionRows hopen hfamily hp
    have hnone : ((t.listCampaignCellProgress campaign.id).filter fun p =>
        p.modelDbId ∉ report.rows.map fun row => row.modelDbId) = [] :=
      List.filter_eq_nil_iff.mpr fun p hp => by simpa using hshown p hp
    refine ⟨hshown, ?_⟩
    rw [← hsplit, hnone, List.map_nil, List.sum_nil, add_zero]

/-- One model on a live board: the board shows all that was spent. -/
theorem cost_accounted_scored :
    ∃ report, sessionReport idleServer (scoredTables 1) runningCampaign ⟨"", ""⟩ = .ok report ∧
      report.cost = some ⟨5, 2, 3⟩ ∧ (report.rows.map ReportBoardRow.amounts).sum = (5, 2, 3) := by
  have hkeyed : (scoredTables 1).Keyed := ⟨by decide, by decide, by decide, by decide⟩
  obtain ⟨totals, _, hcost, -, -, -, hlive⟩ := cost_accounted hkeyed (by decide)
    (rfl : sessionReport idleServer (scoredTables 1) runningCampaign ⟨"", ""⟩ = .ok _)
  cases hcost
  exact ⟨_, rfl, rfl, (hlive rfl rfl).2⟩

end HubScope
