import HubScope.Evaluator.Units
import HubScope.Lib.Grouping
import HubScope.Store.Valid

/-!
# What an execution is planned from

A batch asks every case of its suites of every model that passed the probe gate, model by
model. A null-score retry asks the units whose row has no score, a targeted retry the units
it was given, and a resume the units without a scored row. Each of the three skips cases that
are gone or disabled, in its own way.

## Main definitions

* `PreparedRun`, `prepareRuns`, `ProbeGate`, `executePrepared` — planning a batch
* `planNullScoreCells`, `planAnsweredUnits`, `planResume` — planning a retry
* `acceptUnits` — the units the retry handler accepts
* `Retry`, `Retry.start` — the reopening retries of a settled campaign

## Main results

* `planned_le_one` — when a plan asks a unit at most once
-/

set_option autoImplicit false

namespace HubScope

/-! ### Batches -/

/-- A run staged for execution with the enabled cases of its suite. -/
structure PreparedRun where
  run : EvalRun
  cases : List Case

/-- Record the judge model the settings name now on the run. -/
def resolveJudgeModel (st : Store) (run : EvalRun) (judgeModel : String) : Store × EvalRun :=
  if judgeModel = "" ∨ judgeModel = run.judgeModel then (st, run)
  else (st.setEvalRunJudgeModel run.id judgeModel, { run with judgeModel := judgeModel })

/-- Stage one run. -/
def prepareRun (st : Store) (run : EvalRun) (judgeModel : String) : Store × PreparedRun :=
  let (st, run) := resolveJudgeModel st run judgeModel
  (st, ⟨run, st.listEnabledCases run.suiteId⟩)

/-- Create and stage one run per suite; `snapshot` is the judge model at creation, `judgeModel`
the one the settings name when the runs start. -/
def prepareRuns (campaignId : ℕ) (snapshot judgeModel : String) (st : Store) :
    List Suite → Store × List PreparedRun
  | [] => (st, [])
  | suite :: suites =>
    let (st, run) := st.createEvalRun campaignId suite.id snapshot
    let (st, prep) := prepareRun st run judgeModel
    let (st, preps) := prepareRuns campaignId snapshot judgeModel st suites
    (st, prep :: preps)

/-- What the probe gate measured: the models that answered, and the jury selected for each of
them. -/
structure ProbeGate where
  reachable : ℕ → Bool
  juries : List (ℕ × List String)

/-- The models that are fed. A gate canceled midway measured nothing and feeds everything. -/
def feedOf (gate : Option ProbeGate) (modelIds : List ℕ) : List ℕ :=
  match gate with
  | some gate => modelIds.filter gate.reachable
  | none => modelIds

/-- Snapshot the juries on every run, in the store and in memory. -/
def selectJuries (st : Store) (prepared : List PreparedRun) (juries : List (ℕ × List String)) :
    Store × List PreparedRun :=
  (prepared.foldl (fun st prep => st.setEvalRunJuryModels prep.run.id juries) st,
    prepared.map fun prep => { prep with run := { prep.run with juryModels := some juries } })

/-- The cells of a batch, model-major. -/
def batchCells (prepared : List PreparedRun) (feed : List ℕ) : List Cell :=
  feed.flatMap fun modelDbId => prepared.map fun prep => ⟨prep.run, modelDbId, prep.cases⟩

def batchPlan (campaignId : ℕ) (prepared : List PreparedRun) (feed : List ℕ) : Plan where
  path := .executePrepared
  campaignId := campaignId
  runs := prepared.map (·.run.id)
  cells := batchCells prepared feed

/-- A batch up to its cells. When no model passed the gate every run fails and nothing is
executed. -/
def executePrepared (st : Store) (campaignId : ℕ) (prepared : List PreparedRun)
    (modelIds : List ℕ) (gate : Option ProbeGate) : Store × Option Plan :=
  match gate with
  | none => (st, some (batchPlan campaignId prepared modelIds))
  | some g =>
    if feedOf gate modelIds = [] ∧ modelIds ≠ [] then
      (prepared.foldl (fun st prep => st.finishEvalRun prep.run.id .failed) st, none)
    else
      let (st, prepared) := selectJuries st prepared g.juries
      (st, some (batchPlan campaignId prepared (feedOf gate modelIds)))

/-! ### Null-score retries -/

/-- The enabled case of a unit. -/
def enabledCase (st : Store) (caseId : ℕ) : Option Case := (st.getCase caseId).filter (·.enabled)

/-- The cells of one run: its null-score units grouped by model, without the cases that are
gone or disabled. -/
def nullScoreCells (st : Store) (run : EvalRun) (nulls : List RetryUnit) : List Cell :=
  let asked := nulls.filterMap fun n => (enabledCase st n.caseId).map fun c => (n.modelDbId, c)
  (Grouping.group Prod.fst asked).map fun (modelDbId, asked) =>
    ⟨run, modelDbId, asked.map Prod.snd⟩

/-- The null-score units of a run a retry asks; `units` restricts a targeted retry. -/
def requestedNulls (st : Store) (runId : ℕ) (units : Option (List RetryUnit)) : List RetryUnit :=
  match units with
  | none => st.listNullScoreCells runId
  | some units => (st.listNullScoreCells runId).filter (· ∈ units)

/-- The cells of a null-score retry. A run whose failed cases are all gone is done at once. -/
def planNullScoreRuns (units : Option (List RetryUnit)) (st : Store) :
    List EvalRun → Store × List Cell
  | [] => (st, [])
  | run :: runs =>
    let nulls := requestedNulls st run.id units
    let cells := nullScoreCells st run nulls
    let st := if nulls ≠ [] ∧ cells = [] then st.finishEvalRun run.id .done else st
    let (st, rest) := planNullScoreRuns units st runs
    (st, cells ++ rest)

/-- The plan of `retryNullScoreCells`, after the reopen. -/
def planNullScoreCells (st : Store) (campaignId : ℕ) (units : Option (List RetryUnit)) :
    Store × Plan :=
  let (st, cells) := planNullScoreRuns units st (st.listEvalRunsByCampaign campaignId)
  (st, {
    path := .retryNullScoreCells
    campaignId := campaignId
    runs := Grouping.firstSeen (cells.map (·.run.id))
    cells := cells })

/-! ### Targeted retries -/

/-- The units the retry handler accepts: the distinct requested units that hold a row. -/
def acceptUnits (st : Store) (campaignId : ℕ) (items : List RetryUnit) : List RetryUnit :=
  st.campaignAnsweredUnits campaignId (Grouping.firstSeen items)

/-- The run of a suite; of several the last one. -/
def runBySuite (runs : List EvalRun) (suiteId : ℕ) : Option EvalRun :=
  runs.reverse.find? (·.suiteId = suiteId)

/-- The run and the case a requested unit is asked under. -/
def answeredUnit (st : Store) (runs : List EvalRun) (u : RetryUnit) : Option (EvalRun × Case) :=
  (enabledCase st u.caseId).bind fun c => (runBySuite runs c.suiteId).map fun run => (run, c)

/-- The cells of a targeted retry: its units grouped by run and model. -/
def answeredCells (st : Store) (runs : List EvalRun) (units : List RetryUnit) : List Cell :=
  let asked := units.filterMap fun u =>
    (answeredUnit st runs u).map fun (run, c) => ((run, u.modelDbId), c)
  (Grouping.group Prod.fst asked).map fun ((run, modelDbId), asked) =>
    ⟨run, modelDbId, asked.map Prod.snd⟩

/-- The plan of `RetryAnsweredUnits`. -/
def planAnsweredUnits (st : Store) (campaignId : ℕ) (units : List RetryUnit) (settled : Bool) :
    Plan :=
  let cells := answeredCells st (st.listEvalRunsByCampaign campaignId) units
  { path := .retryAnsweredUnits settled
    campaignId := campaignId
    runs := cells.map (·.run.id)
    cells := cells }

/-! ### Resumes -/

/-- The score of a unit's last row among the results of a run. -/
def lastScore (results : List EvalResult) (modelDbId caseId : ℕ) : Option (Option ℚ) :=
  (results.reverse.find? fun r => r.modelDbId = modelDbId ∧ r.caseId = caseId).map (·.score)

/-- The cases of a run a model still owes: without a row, or with a null score. -/
def resumeCases (results : List EvalResult) (cases : List Case) (modelDbId : ℕ) : List Case :=
  cases.filter fun c =>
    match lastScore results modelDbId c.id with
    | some (some _) => false
    | _ => true

/-- The cells of one run of a resume, one per reachable member that owes cases. -/
def resumeCells (run : EvalRun) (results : List EvalResult) (cases : List Case)
    (members : List ℕ) : List Cell :=
  (members.map fun m => (⟨run, m, resumeCases results cases m⟩ : Cell)).filter (·.cases ≠ [])

/-- The plan of `ResumeCampaign`, before the reopen. -/
def planResume (st : Store) (campaignId : ℕ) (reachable : ℕ → Bool) : Plan :=
  let members := ((st.listCampaignMembers campaignId).map (·.id)).filter reachable
  let cells := (st.listEvalRunsByCampaign campaignId).flatMap fun run =>
    resumeCells run (st.listEvalResults run.id) (st.listEnabledCases run.suiteId) members
  { path := .resumeCampaign
    campaignId := campaignId
    runs := cells.map (·.run.id)
    cells := cells }

/-- Reopen the runs a resume has cells of; without cells nothing is reopened. -/
def resumeCampaign (st : Store) (campaignId : ℕ) (reachable : ℕ → Bool) : Option (Store × Plan) :=
  let plan := planResume st campaignId reachable
  if plan.cells = [] then none
  else (st.reopenCampaignRuns campaignId (Grouping.firstSeen plan.runs)).map fun st => (st, plan)

/-! ### The reopening retries -/

/-- What is executed on a settled campaign: `RetryFailedResults`, `RetryUnits`,
`RetryAnsweredUnits` and `ResumeCampaign`. -/
inductive Retry
  | failedResults
  | units (units : List RetryUnit)
  | answeredUnits (units : List RetryUnit)
  | resume (reachable : ℕ → Bool)

/-- Reopen and plan. A retry that reopens nothing executes nothing. -/
def Retry.start (st : Store) (campaignId : ℕ) : Retry → Option (Store × Plan)
  | failedResults =>
    (st.reopenCampaignForRetry campaignId).map fun st => planNullScoreCells st campaignId none
  | units us =>
    (st.reopenCampaignForUnitRetry campaignId us).map fun st =>
      planNullScoreCells st campaignId (some us)
  | answeredUnits us =>
    (st.reopenCampaignForUnitRetryAny campaignId us).map fun st =>
      (st, planAnsweredUnits st campaignId us true)
  | resume reachable => resumeCampaign st campaignId reachable

/-- A retry of units of a campaign that is executing: nothing is reopened, and the batch keeps
its runs. -/
def Retry.startLive (st : Store) (campaignId : ℕ) : Retry → Option (Store × Plan)
  | answeredUnits us => some (st, planAnsweredUnits st campaignId us false)
  | failedResults | units _ | resume _ => none

/-! ### Units asked at most once -/

variable {plan : Plan}

/-- A plan with one cell per run and model, and distinct cases in each, asks no unit twice. -/
theorem planned_le_one
    (hcells : plan.cells.Pairwise fun a b => a.run.id = b.run.id → a.modelDbId ≠ b.modelDbId)
    (hcases : ∀ cell ∈ plan.cells, (cell.cases.map (·.id)).Nodup) (u : UnitKey) :
    plan.planned u ≤ 1 := by
  refine List.nodup_iff_count_le_one.mp (List.nodup_flatMap.mpr ⟨?_, ?_⟩) u
  · intro cell hcell
    have hunits : cell.units =
        (cell.cases.map (·.id)).map fun id => ⟨cell.run.id, cell.modelDbId, id⟩ := by
      rw [Cell.units, List.map_map]
      rfl
    rw [hunits]
    refine (hcases cell hcell).map fun i j h => ?_
    exact congrArg UnitKey.caseId h
  · refine hcells.imp fun {a b} hab => ?_
    rintro u ha hb
    obtain ⟨c, -, rfl⟩ := List.mem_map.mp ha
    obtain ⟨d, -, hd⟩ := List.mem_map.mp hb
    obtain ⟨hrun, hmodel, -⟩ := UnitKey.mk.inj hd
    exact hab hrun.symm hmodel.symm

theorem nodup_listEnabledCases {st : Store} (h : st.Valid) (suiteId : ℕ) :
    ((st.listEnabledCases suiteId).map (·.id)).Nodup :=
  (List.filter_sublist.map _).nodup h.caseIds

theorem nodup_listEvalRunsByCampaign {st : Store} (h : st.Valid) (campaignId : ℕ) :
    ((st.listEvalRunsByCampaign campaignId).map (·.id)).Nodup :=
  (List.filter_sublist.map _).nodup h.runIds

theorem nodup_listCampaignMembers {st : Store} (h : st.Valid) (campaignId : ℕ) :
    ((st.listCampaignMembers campaignId).map (·.id)).Nodup := by
  rw [Store.listCampaignMembers, ((List.perm_insertionSort _ _).map _).nodup_iff]
  exact (List.filter_sublist.map _).nodup h.modelIds

/-- A batch asks no unit twice when its fed models and its runs are distinct. -/
theorem planned_batchPlan_le_one {campaignId : ℕ} {prepared : List PreparedRun} {feed : List ℕ}
    (hfeed : feed.Nodup) (hruns : (prepared.map (·.run.id)).Nodup)
    (hcases : ∀ prep ∈ prepared, (prep.cases.map (·.id)).Nodup) (u : UnitKey) :
    (batchPlan campaignId prepared feed).planned u ≤ 1 := by
  refine planned_le_one ?_ ?_ u
  · refine List.pairwise_flatMap.mpr ⟨?_, ?_⟩
    · intro m _
      refine List.pairwise_map.mpr ?_
      exact (List.pairwise_map.mp hruns).imp fun hab hrun => absurd hrun hab
    · refine hfeed.imp fun {m m'} hm => ?_
      intro a ha b hb _
      obtain ⟨p, -, rfl⟩ := List.mem_map.mp ha
      obtain ⟨p', -, rfl⟩ := List.mem_map.mp hb
      exact hm
  · intro cell hcell
    obtain ⟨m, -, hcell⟩ := List.mem_flatMap.mp hcell
    obtain ⟨prep, hprep, rfl⟩ := List.mem_map.mp hcell
    exact hcases prep hprep

/-- A resume asks no unit twice. -/
theorem planned_planResume_le_one {st : Store} (h : st.Valid) (campaignId : ℕ)
    (reachable : ℕ → Bool) (u : UnitKey) :
    (planResume st campaignId reachable).planned u ≤ 1 := by
  refine planned_le_one ?_ ?_ u
  · refine List.pairwise_flatMap.mpr ⟨?_, ?_⟩
    · intro run _
      refine List.Pairwise.filter _ (List.pairwise_map.mpr ?_)
      have hmembers := (nodup_listCampaignMembers h campaignId).filter reachable
      refine List.Pairwise.imp ?_ hmembers
      exact fun hab _ => hab
    · have hruns := List.pairwise_map.mp (nodup_listEvalRunsByCampaign h campaignId)
      refine hruns.imp fun {r r'} hr => ?_
      intro a ha b hb hab
      obtain ⟨m, -, rfl⟩ := List.mem_map.mp (List.mem_of_mem_filter ha)
      obtain ⟨m', -, rfl⟩ := List.mem_map.mp (List.mem_of_mem_filter hb)
      exact absurd hab hr
  · intro cell hcell
    obtain ⟨run, -, hcell⟩ := List.mem_flatMap.mp hcell
    obtain ⟨m, -, rfl⟩ := List.mem_map.mp (List.mem_of_mem_filter hcell)
    exact (List.filter_sublist.map _).nodup (nodup_listEnabledCases h run.suiteId)

/-! ### Grouped units -/

/-- Grouping what is asked into cells neither drops nor repeats a unit. -/
theorem count_units_group {κ : Type} [DecidableEq κ] (run : κ → EvalRun) (model : κ → ℕ)
    (asked : List (κ × Case)) (u : UnitKey) :
    (((Grouping.group Prod.fst asked).map fun (k, ys) =>
        (⟨run k, model k, ys.map Prod.snd⟩ : Cell)).flatMap Cell.units).count u =
      asked.countP fun (k, c) => (⟨(run k).id, model k, c.id⟩ : UnitKey) = u := by
  rw [← Grouping.countP_group Prod.fst, List.flatMap_map, List.count_flatMap]
  congr 1
  refine List.map_congr_left fun b hb => ?_
  obtain ⟨k, ys⟩ := b
  obtain ⟨-, rfl⟩ := Grouping.mem_group.mp hb
  rw [Function.comp_apply, Cell.units, List.map_map, List.count, List.countP_map]
  refine List.countP_congr fun x hx => ?_
  obtain rfl : x.1 = k := by simpa using List.of_mem_filter hx
  simp [Function.comp_apply]

/-- Picking what can be asked of a list of units repeats none. -/
theorem countP_filterMap_le {α β : Type} [DecidableEq β] {f : α → Option β} {p : β → Bool}
    {q : α → Bool} (h : ∀ a b, f a = some b → p b = true → q a = true) (xs : List α) :
    (xs.filterMap f).countP p ≤ xs.countP q := by
  induction xs with
  | nil => exact le_rfl
  | cons a xs ih =>
    cases hf : f a with
    | none =>
      rw [List.filterMap_cons_none hf, List.countP_cons]
      exact ih.trans (Nat.le_add_right _ _)
    | some b =>
      rw [List.filterMap_cons_some hf, List.countP_cons, List.countP_cons]
      by_cases hp : p b = true
      · rw [if_pos hp, if_pos (h a b hf hp)]
        exact Nat.add_le_add_right ih 1
      · rw [if_neg hp]
        exact ih.trans (Nat.le_add_right _ _)

theorem getCase_id {st : Store} {id : ℕ} {c : Case} (h : st.getCase id = some c) : c.id = id := by
  simpa using List.find?_some h

theorem enabledCase_id {st : Store} {id : ℕ} {c : Case} (h : enabledCase st id = some c) :
    c.id = id :=
  getCase_id (Option.eq_some_of_filter_eq_some h)

/-- A targeted retry asks a unit no more often than it is requested. -/
theorem planned_planAnsweredUnits_le (st : Store) (campaignId : ℕ) (units : List RetryUnit)
    (settled : Bool) (u : UnitKey) :
    (planAnsweredUnits st campaignId units settled).planned u ≤ units.count u.retryUnit := by
  refine (count_units_group (fun k : EvalRun × ℕ => k.1) (fun k => k.2) _ u).trans_le ?_
  refine countP_filterMap_le (q := fun n => n == u.retryUnit) ?_ units
  rintro n ⟨⟨run, m⟩, c⟩ hasked hp
  obtain ⟨⟨run', c'⟩, hn, heq⟩ := Option.map_eq_some_iff.mp hasked
  obtain ⟨⟨rfl, rfl⟩, rfl⟩ : (run' = run ∧ n.modelDbId = m) ∧ c' = c := by simpa using heq
  obtain ⟨c₀, hc₀, hrun⟩ := Option.bind_eq_some_iff.mp hn
  obtain ⟨run₀, -, heq⟩ := Option.map_eq_some_iff.mp hrun
  obtain ⟨-, rfl⟩ := Prod.mk.inj heq
  have hid := enabledCase_id hc₀
  obtain rfl := of_decide_eq_true hp
  rw [beq_iff_eq, UnitKey.retryUnit, hid]

/-- The cells of one run of a null-score retry ask a unit no more often than it is listed. -/
theorem count_nullScoreCells_le (st : Store) (run : EvalRun) (nulls : List RetryUnit)
    (u : UnitKey) : ((nullScoreCells st run nulls).flatMap Cell.units).count u ≤
      if run.id = u.runId then nulls.count u.retryUnit else 0 := by
  refine (count_units_group (fun _ => run) (fun m => m) _ u).trans_le ?_
  split_ifs with hrun
  · refine countP_filterMap_le (q := fun n => n == u.retryUnit) ?_ nulls
    rintro n ⟨m, c⟩ hasked hp
    obtain ⟨c', hc', heq⟩ := Option.map_eq_some_iff.mp hasked
    obtain ⟨rfl, rfl⟩ : n.modelDbId = m ∧ c' = c := by simpa using heq
    have hid := enabledCase_id hc'
    obtain rfl := of_decide_eq_true hp
    rw [beq_iff_eq, UnitKey.retryUnit, hid]
  · refine (List.countP_eq_zero.mpr fun x _ hp => hrun ?_).le
    exact congrArg UnitKey.runId (of_decide_eq_true hp)

/-- How many null-score rows a unit has. -/
def nullCount (st : Store) (u : UnitKey) : ℕ :=
  st.results.countP fun r => r.unit = u ∧ r.score = none

theorem nullCount_le_rowCount (st : Store) (u : UnitKey) : nullCount st u ≤ st.rowCount u := by
  refine List.countP_mono_left fun r _ hr => ?_
  simp only [decide_eq_true_eq] at hr ⊢
  exact hr.1

theorem count_listNullScoreCells (st : Store) (u : UnitKey) :
    (st.listNullScoreCells u.runId).count u.retryUnit = nullCount st u := by
  unfold Store.listNullScoreCells nullCount
  rw [(List.perm_insertionSort _ _).count_eq, List.count, List.countP_map, List.countP_filter]
  refine List.countP_congr fun r _ => ?_
  simp only [Function.comp_apply, Bool.and_eq_true, beq_iff_eq, decide_eq_true_eq]
  constructor
  · rintro ⟨hunit, hrun, hscore⟩
    refine ⟨?_, hscore⟩
    obtain ⟨hmodel, hcase⟩ := RetryUnit.mk.inj hunit
    exact UnitKey.mk.injEq .. ▸ ⟨hrun, hmodel, hcase⟩
  · rintro ⟨rfl, hscore⟩
    exact ⟨rfl, rfl, hscore⟩

theorem count_requestedNulls_le (st : Store) (units : Option (List RetryUnit)) (u : UnitKey) :
    (requestedNulls st u.runId units).count u.retryUnit ≤ nullCount st u := by
  rw [← count_listNullScoreCells]
  cases units with
  | none => exact le_rfl
  | some units => exact List.filter_sublist.count_le _

/-- Planning a null-score retry finishes runs and leaves the results alone. -/
theorem planNullScoreRuns_results (units : Option (List RetryUnit)) (st : Store)
    (runs : List EvalRun) : (planNullScoreRuns units st runs).1.results = st.results := by
  induction runs generalizing st with
  | nil => rfl
  | cons run runs ih =>
    refine (ih _).trans ?_
    split_ifs <;> rfl

/-- A null-score retry asks a unit no more often than it has null-score rows. -/
theorem count_planNullScoreRuns_le (units : Option (List RetryUnit)) (st : Store)
    (runs : List EvalRun) (u : UnitKey) :
    ((planNullScoreRuns units st runs).2.flatMap Cell.units).count u ≤
      runs.countP (·.id = u.runId) * nullCount st u := by
  induction runs generalizing st with
  | nil => exact Nat.zero_le _
  | cons run runs ih =>
    have hrest := ih (if requestedNulls st run.id units ≠ [] ∧
      nullScoreCells st run (requestedNulls st run.id units) = [] then
        st.finishEvalRun run.id .done else st)
    -- finishing a run leaves its results, so the nulls are the same for the runs after it
    have hnulls : ∀ st' : Store, st'.results = st.results → nullCount st' u = nullCount st u := by
      intro st' h
      rw [nullCount, h, nullCount]
    rw [hnulls _ (by split_ifs <;> rfl)] at hrest
    have hcells := count_nullScoreCells_le st run (requestedNulls st run.id units) u
    rw [planNullScoreRuns, List.flatMap_append, List.count_append, List.countP_cons,
      Nat.add_mul, Nat.add_comm (_ * _)]
    refine Nat.add_le_add (hcells.trans ?_) hrest
    by_cases hrun : run.id = u.runId
    · rw [if_pos hrun, hrun, if_pos (decide_eq_true rfl), Nat.one_mul]
      exact count_requestedNulls_le st units u
    · rw [if_neg hrun]
      exact Nat.zero_le _

theorem planned_planNullScoreCells_le {st : Store} (h : st.Valid) (campaignId : ℕ)
    (units : Option (List RetryUnit)) (u : UnitKey) :
    (planNullScoreCells st campaignId units).2.planned u ≤ nullCount st u := by
  have hruns : (st.listEvalRunsByCampaign campaignId).countP (·.id = u.runId) ≤ 1 := by
    have hcount := List.nodup_iff_count_le_one.mp (nodup_listEvalRunsByCampaign h campaignId)
      u.runId
    rw [List.count, List.countP_map] at hcount
    refine hcount.trans' (List.countP_mono_left fun r _ hr => ?_)
    simpa using hr
  calc (planNullScoreCells st campaignId units).2.planned u
      ≤ _ * nullCount st u := count_planNullScoreRuns_le units st _ u
    _ ≤ 1 * nullCount st u := Nat.mul_le_mul_right _ hruns
    _ = nullCount st u := Nat.one_mul _

end HubScope
