import HubScope.Evaluator.Rows
import HubScope.Evaluator.Samples
import HubScope.Server.Evals

/-!
# The result grid of a batch

A batch asks every case of its suites of every model that passed the probe gate. When nothing
stops it, every unit it planned ends with one row, but for the cells a model's setup skipped:
what was not lost was taken up, and what was taken up was written, since no vote was dropped.

This needs the units to be distinct, and they are when the models are. A request that repeats
a model id has two cells ask the same units, and each of the two writes its row.

## Main definitions

* `Accounted` — the units lost to a skipped or an unfed cell
* `Selected` — a unit of the grid

## Main results

* `rowCount_of_returned` — the rows of a batch that nothing stopped
* `grid_of_reach` — the grid of an accepted request
-/

set_option autoImplicit false

namespace HubScope

variable {env : Env} {plan : Plan} {st st' : Store} {m m' : Shared} {s : State} {u : UnitKey}

/-! ### Lost units -/

/-- A batch loses the units of the cells it skips and of the cells it does not feed, and
while its context is live it drops neither cells nor votes. -/
structure Accounted (d : Driver) (m : Shared) : Prop where
  lost : d = .evalModel → ∀ u,
    m.hist.lost.count u = ((m.hist.skipped ++ m.hist.unfed).flatMap Cell.units).count u
  unfed : m.canceled = false → m.hist.unfed = []
  dropped : m.canceled = false → m.hist.dropped = []

namespace Accounted

variable {d : Driver}

theorem of_hist (h : Accounted d m) (hhist : m'.hist.lost = m.hist.lost ∧
    m'.hist.skipped = m.hist.skipped ∧ m'.hist.unfed = m.hist.unfed ∧
      m'.hist.dropped = m.hist.dropped) (hlive : m'.canceled = false → m.canceled = false) :
    Accounted d m' where
  lost hd u := by
    rw [hhist.1, hhist.2.1, hhist.2.2.1]
    exact h.lost hd u
  unfed hcan := by
    rw [hhist.2.2.1]
    exact h.unfed (hlive hcan)
  dropped hcan := by
    rw [hhist.2.2.2]
    exact h.dropped (hlive hcan)

theorem skipCell (h : Accounted d m) (cell : Cell) : Accounted d (m.skipCell cell) where
  lost hd u := by
    have hlost := h.lost hd u
    simp only [Shared.skipCell, List.flatMap_append, List.count_append, List.flatMap_singleton]
      at hlost ⊢
    omega
  unfed := h.unfed
  dropped := h.dropped

theorem cutCell (h : Accounted d m) (l : CellCursor) (hd : d ≠ .evalModel) :
    Accounted d (m.cutCell l) where
  lost heq := absurd heq hd
  unfed := h.unfed
  dropped := h.dropped

/-- Cells are left unfed only under a canceled context. -/
theorem dropCells (h : Accounted d m) (cells : List Cell) (hcan : m'.canceled = true)
    (hhist : m'.hist = (m.dropCells cells).hist) : Accounted d m' where
  lost hd u := by
    have hlost := h.lost hd u
    rw [hhist]
    simp only [Shared.dropCells, List.flatMap_append, List.count_append] at hlost ⊢
    omega
  unfed hlive := absurd (hcan.symm.trans hlive) (by decide)
  dropped hlive := absurd (hcan.symm.trans hlive) (by decide)

/-- Votes are dropped only under a canceled context. -/
theorem dropVotes (h : Accounted d m) (jobs : List JudgeJob) (hcan : m.canceled = true) :
    Accounted d (m.dropVotes jobs) where
  lost := h.lost
  unfed := h.unfed
  dropped hlive := absurd (hcan.symm.trans hlive) (by decide)

end Accounted

theorem reportCell_live {cell : Cell} {answered : Bool}
    (h : (reportCell plan (m.endCell cell) cell.run.id answered).1.canceled = false) :
    m.canceled = false := by
  unfold reportCell at h
  split at h
  · dsimp only at h
    split at h
    · simp only [Bool.or_eq_false_iff] at h
      exact h.1.1
    · exact h
  · exact h

theorem ExamStep.accounted {pc pc' : ExamPc} (h : ExamStep env plan st m pc st' m' pc')
    (hm : Accounted plan.path.driver m) : Accounted plan.path.driver m' := by
  cases h with
  | overBudget hlive hbudget => exact hm.of_hist ⟨rfl, rfl, rfl, rfl⟩ fun hcan => hlive
  | skip cell n =>
    refine Accounted.skipCell ?_ cell
    exact hm.of_hist ⟨rfl, rfl, rfl, rfl⟩ id
  | cut l hdriver => exact hm.cutCell l hdriver
  | dropped k jobs _ hcan => exact hm.dropVotes jobs hcan
  | reported | reportedLast =>
    exact hm.of_hist (by rw [reportCell_hist]; exact ⟨rfl, rfl, rfl, rfl⟩) reportCell_live
  | _ => exact hm.of_hist ⟨rfl, rfl, rfl, rfl⟩ id

theorem JudgeStep.accounted {d : Driver} {pc pc' : JudgePc}
    (h : JudgeStep env plan st m pc st' m' pc') (hm : Accounted d m) : Accounted d m' := by
  cases h <;> exact hm.of_hist ⟨rfl, rfl, rfl, rfl⟩ id

theorem MainStep.accounted {d : Driver} {examDone judgeDone : Bool} {pc pc' : MainPc}
    (h : MainStep plan st m examDone judgeDone pc st' m' pc') (hm : Accounted d m) :
    Accounted d m' := by
  cases h with
  | stopped c cs hcan | dropped c cs hcan => exact hm.dropCells _ hcan rfl
  | overBudget c cs => exact hm.dropCells _ rfl rfl
  | _ => exact hm.of_hist ⟨rfl, rfl, rfl, rfl⟩ id

theorem accounted_of_reach (h : Reached env plan s) : Accounted plan.path.driver s.mem := by
  refine Reached.invariant (I := fun t => Accounted plan.path.driver t.mem) ?_ ?_
    (fun _ _ ht => ht) h
  · intro st
    exact ⟨fun _ _ => rfl, fun _ => rfl, fun _ => rfl⟩
  · rintro t a t' - ht - hcases
    cases hcases with
    | main hm => exact hm.accounted ht
    | exam hi he => exact he.accounted ht
    | judge hj he => exact he.accounted ht
    | cancel => exact ht.of_hist ⟨rfl, rfl, rfl, rfl⟩ fun hcan => by cases hcan
    | _ => exact ht.of_hist ⟨rfl, rfl, rfl, rfl⟩ id

/-! ### Rows of a batch -/

/-- A unit that a batch asks at most once was written if it was planned and its cell was not
skipped. -/
theorem written_of_returned (hd : plan.path.driver = .evalModel) (hplanned : plan.planned u ≤ 1)
    (h : Reached env plan s) (hok : s.mem.panicked = false) (hreturned : s.main = .returned)
    (hlive : s.mem.canceled = false) :
    s.mem.hist.written.count u =
      if u ∈ plan.cells.flatMap Cell.units ∧ u ∉ s.mem.hist.skipped.flatMap Cell.units then 1
      else 0 := by
  have haccounted := accounted_of_reach h
  have htodo := todo_of_reach u h hok
  have hflight := flight_of_reach hplanned h hok
  rw [held_of_returned _ rfl rfl rfl h hreturned] at htodo
  -- no vote was dropped, so no aggregate is left
  have hclosed : inFlight s.toExec u = 0 := by
    rw [inFlight, held_of_returned _ rfl rfl rfl h hreturned, Pipeline.opened, if_neg]
    rw [mem_aggs_iff_of_returned hplanned h hok hreturned, haccounted.dropped hlive]
    rintro ⟨j, hj, -⟩
    cases hj
  have hlost := haccounted.lost hd u
  rw [haccounted.unfed hlive, List.append_nil] at hlost
  by_cases hin : u ∈ plan.cells.flatMap Cell.units
  · have hpos : 0 < plan.planned u := List.count_pos_iff.mpr hin
    by_cases hskip : u ∈ s.mem.hist.skipped.flatMap Cell.units
    · have hskipped := List.count_pos_iff.mpr hskip
      rw [if_neg fun hcell => hcell.2 hskip]
      omega
    · have hzero := List.count_eq_zero.mpr hskip
      rw [if_pos ⟨hin, hskip⟩]
      omega
  · have hzero : plan.planned u = 0 := List.count_eq_zero.mpr hin
    rw [if_neg fun hcell => hin hcell.1]
    omega

/-- **Rows of a batch.** A batch that nothing stopped adds one row for each unit it planned and
did not skip. -/
theorem rowCount_of_returned {guard : State → Label → Prop} (hd : plan.path.driver = .evalModel)
    (hplanned : plan.planned u ≤ 1)
    (h : Transition.Reach (step env plan) guard (plan.start env st) s)
    (hok : s.mem.panicked = false) (hreturned : s.main = .returned)
    (hlive : s.mem.canceled = false) :
    s.store.rowCount u = st.rowCount u +
      if u ∈ plan.cells.flatMap Cell.units ∧ u ∉ s.mem.hist.skipped.flatMap Cell.units then 1
      else 0 := by
  obtain ⟨rs, hlength, hrows⟩ := unitRows_of_reach hplanned h hok
  rw [hd, Driver.kept, ite_self] at hrows
  rw [← length_unitRows, ← length_unitRows, hrows, List.length_append, hlength,
    written_of_returned hd hplanned (reached_of_reach h) hok hreturned hlive]

/-! ### Accepted requests -/

/-- The unit is of a run of the batch, a case of the run's suite and a model that is fed. -/
def Selected (preps : List PreparedRun) (feed : List ℕ) (u : UnitKey) : Prop :=
  u.modelDbId ∈ feed ∧ ∃ prep ∈ preps, prep.run.id = u.runId ∧ u.caseId ∈ prep.cases.map (·.id)

instance (preps : List PreparedRun) (feed : List ℕ) (u : UnitKey) :
    Decidable (Selected preps feed u) := inferInstanceAs (Decidable (_ ∧ _))

theorem mem_units_batchPlan {c : ℕ} {preps : List PreparedRun} {feed : List ℕ} :
    u ∈ (batchPlan c preps feed).cells.flatMap Cell.units ↔ Selected preps feed u := by
  constructor
  · intro hu
    obtain ⟨cell, hcell, hu⟩ := List.mem_flatMap.mp hu
    obtain ⟨model, hmodel, hcell⟩ := List.mem_flatMap.mp hcell
    obtain ⟨prep, hprep, rfl⟩ := List.mem_map.mp hcell
    obtain ⟨x, hx, rfl⟩ := List.mem_map.mp hu
    exact ⟨hmodel, prep, hprep, rfl, List.mem_map_of_mem hx⟩
  · rintro ⟨hmodel, prep, hprep, hrun, hcase⟩
    obtain ⟨x, hx, hid⟩ := List.mem_map.mp hcase
    refine List.mem_flatMap.mpr ⟨⟨prep.run, u.modelDbId, prep.cases⟩, ?_, ?_⟩
    · exact List.mem_flatMap.mpr ⟨_, hmodel, List.mem_map.mpr ⟨prep, hprep, rfl⟩⟩
    · refine List.mem_map.mpr ⟨x, hx, ?_⟩
      rw [hrun, hid]

/-- Staging the juries on the runs changes neither the runs and cases nor the results. -/
theorem selectJuries_spec (st : Store) (preps : List PreparedRun)
    (juries : List (ℕ × List String)) :
    (selectJuries st preps juries).1.results = st.results ∧
      (selectJuries st preps juries).2.map (fun prep => (prep.run.id, prep.cases)) =
        preps.map fun prep => (prep.run.id, prep.cases) := by
  refine ⟨?_, ?_⟩
  · unfold selectJuries
    dsimp only
    induction preps generalizing st with
    | nil => rfl
    | cons prep preps ih => exact ih _
  · rw [selectJuries, List.map_map]
    rfl

theorem results_finishAll (st : Store) (preps : List PreparedRun) :
    (preps.foldl (fun st prep => st.finishEvalRun prep.run.id .failed) st).results =
      st.results := by
  induction preps generalizing st with
  | nil => rfl
  | cons prep preps ih => exact ih _

/-- What is executed of a batch: the plan of the same runs and cases for the fed models, over
the same results. -/
theorem executePrepared_spec {c : ℕ} {preps : List PreparedRun} {modelIds : List ℕ}
    {gate : Option ProbeGate} {next : Option Plan}
    (h : executePrepared st c preps modelIds gate = (st', next)) :
    st'.results = st.results ∧ ∀ plan, next = some plan →
      ∃ preps', plan = batchPlan c preps' (feedOf gate modelIds) ∧
        preps'.map (fun prep => (prep.run.id, prep.cases)) =
          preps.map fun prep => (prep.run.id, prep.cases) := by
  cases gate with
  | none =>
    obtain ⟨rfl, rfl⟩ := Prod.mk.inj h
    refine ⟨rfl, fun plan hplan => ?_⟩
    cases hplan
    exact ⟨preps, rfl, rfl⟩
  | some g =>
    unfold executePrepared at h
    dsimp only at h
    split_ifs at h
    · obtain ⟨rfl, rfl⟩ := Prod.mk.inj h
      refine ⟨results_finishAll st preps, fun plan hplan => ?_⟩
      cases hplan
    · obtain ⟨rfl, rfl⟩ := Prod.mk.inj h
      -- selecting juries replaces the snapshots and keeps runs and cases
      obtain ⟨hresults, hpreps⟩ := selectJuries_spec st preps g.juries
      refine ⟨hresults, fun plan hplan => ?_⟩
      cases hplan
      exact ⟨_, rfl, hpreps⟩

/-- Which units are selected depends on the runs and cases alone. -/
theorem selected_congr {preps preps' : List PreparedRun} {feed : List ℕ}
    (h : preps'.map (fun prep => (prep.run.id, prep.cases)) =
      preps.map fun prep => (prep.run.id, prep.cases)) :
    Selected preps' feed u ↔ Selected preps feed u := by
  have hmem : ∀ preps : List PreparedRun, Selected preps feed u ↔
      u.modelDbId ∈ feed ∧ ∃ p ∈ preps.map (fun prep => (prep.run.id, prep.cases)),
        p.1 = u.runId ∧ u.caseId ∈ p.2.map (·.id) := by
    intro preps
    simp only [Selected, List.mem_map, exists_exists_and_eq_and]
  rw [hmem, hmem, h]

/-- **Result grid.** A batch of an accepted request whose gated models are distinct, or whose
suites have no cases, never misses an aggregate. When it returns with nothing having stopped
it, each unit of its runs has one row if it is of a gated model and its cell was not skipped,
else none. -/
theorem grid_of_reach {hasEndpoint : ℕ → Bool} {req : CreateEvalRequest} {batch : Batch}
    {gate : Option ProbeGate} {st₀ st₁ st₂ : Store} {snapshot judgeModel : String} {c : ℕ}
    {preps : List PreparedRun} {next : Option Plan}
    (hvalid₀ : st₀.Valid) (haccept : handleCreateEval st₀ hasEndpoint req = .ok batch)
    (hmodels : (feedOf gate req.modelIds).Nodup ∨ ∀ prep ∈ preps, prep.cases = [])
    (hvalid : st.Valid) (hprepare : batch.prepare st snapshot judgeModel = (st₁, c, preps))
    (hexecute : executePrepared st₁ c preps batch.modelIds gate = (st₂, next)) :
    (next = none → ∀ u, u.runId ∈ preps.map (·.run.id) → st₂.rowCount u = 0) ∧
    ∀ plan, next = some plan → ∀ s,
      Transition.Reachable (step env plan) (plan.start env st₂) s →
        s.mem.panicked = false ∧
        (s.main = .returned → s.mem.canceled = false →
          ∀ u, u.runId ∈ preps.map (·.run.id) →
            s.store.rowCount u =
              if Selected preps (feedOf gate batch.modelIds) u ∧
                u ∉ s.mem.hist.skipped.flatMap Cell.units then 1 else 0) := by
  have hruns : prepareRuns c snapshot judgeModel (st.createCampaign batch.modelIds).1
      batch.suites = (st₁, preps) := by
    unfold Batch.prepare at hprepare
    cases hprepare
    rfl
  obtain ⟨-, hresults, hruns, hnew⟩ := prepareRuns_spec
    (hvalid.createCampaign batch.modelIds) c snapshot judgeModel batch.suites hruns
  obtain ⟨hresults₂, hplan⟩ := executePrepared_spec hexecute
  -- the runs are new, so they start without rows
  have hzero : ∀ u, u.runId ∈ preps.map (·.run.id) → st₂.rowCount u = 0 := by
    intro u hu
    obtain ⟨prep, hprep, hid⟩ := List.mem_map.mp hu
    have hlt : st.runSeq < u.runId := hid ▸ (hnew prep hprep).1
    rw [Store.rowCount, hresults₂, hresults]
    exact hvalid.rowCount_eq_zero hlt
  refine ⟨fun _ => hzero, fun plan hnext s hs => ?_⟩
  obtain ⟨preps', rfl, hpreps⟩ := hplan plan hnext
  have hids : preps'.map (·.run.id) = preps.map (·.run.id) := by
    have hfst := congrArg (List.map Prod.fst) hpreps
    rwa [List.map_map, List.map_map] at hfst
  have hcases : ∀ prep' ∈ preps', ∃ prep ∈ preps, prep.cases = prep'.cases := by
    intro prep' hprep'
    have hmem := List.mem_map_of_mem (f := fun p : PreparedRun => (p.run.id, p.cases)) hprep'
    rw [hpreps] at hmem
    obtain ⟨prep, hprep, heq⟩ := List.mem_map.mp hmem
    exact ⟨prep, hprep, (Prod.mk.inj heq).2⟩
  have hplanned : ∀ u, (batchPlan c preps' (feedOf gate batch.modelIds)).planned u ≤ 1 := by
    intro u
    rcases hmodels with hmodels | hempty
    · have hfeed := nodup_feed_of_handleCreateEval hvalid₀ haccept hmodels
      refine planned_batchPlan_le_one hfeed (hids ▸ hruns) (fun prep' hprep' => ?_) u
      obtain ⟨prep, hprep, heq⟩ := hcases prep' hprep'
      exact heq ▸ (hnew prep hprep).2
    · -- nothing is asked
      refine (List.count_eq_zero.mpr fun hu => ?_).trans_le (Nat.zero_le _)
      obtain ⟨-, prep', hprep', -, hcase⟩ := mem_units_batchPlan.mp hu
      obtain ⟨prep, hprep, heq⟩ := hcases prep' hprep'
      rw [← heq, hempty prep hprep] at hcase
      cases hcase
  have hok := panicked_of_reach hplanned (reached_of_reach hs)
  refine ⟨hok, fun hreturned hlive u hu => ?_⟩
  rw [rowCount_of_returned rfl (hplanned u) hs hok hreturned hlive, hzero u hu, Nat.zero_add]
  simp only [mem_units_batchPlan, selected_congr hpreps]

/-! ### A repeated model id -/

/-- A suite with one rule case, two models and no campaign yet. -/
def freshStore : Store where
  models := [⟨1, "m1", .chat, false, true⟩, ⟨2, "m2", .chat, false, true⟩]
  suites := [⟨1, true⟩]
  cases := [ruleCase 1]
  campaigns := []
  campaignModels := []
  runs := []
  results := []
  answers := []
  judgeScores := []
  campaignSeq := 0
  runSeq := 0
  answerSeq := 0

theorem freshStore_valid : freshStore.Valid := by
  constructor <;> simp [freshStore, ruleCase]

/-- A gate every model passed, with one judge for model 1. -/
def openGate : ProbeGate := ⟨fun _ => true, [(1, ["judge"])]⟩

/-- Suite 1 for the given models. -/
def freshBatch (modelIds : List ℕ) : Batch := ⟨true, [⟨1, true⟩], modelIds⟩

/-- The batch with its campaign and its run created. -/
def freshPrepared (st : Store) (modelIds : List ℕ) : Store × ℕ × List PreparedRun :=
  (freshBatch modelIds).prepare st "judge" "judge"

/-- The batch after the gate. -/
def freshStart (st : Store) (modelIds : List ℕ) : Store × Option Plan :=
  executePrepared (freshPrepared st modelIds).1 (freshPrepared st modelIds).2.1
    (freshPrepared st modelIds).2.2 modelIds (some openGate)

/-- The feeder hands a cell over and the worker asks its one rule case. -/
def ruleCellLabels : List Label :=
  [.main, .exam 0 .go, .handCell 0, .exam 0 (.setup (.ready "m1")), .exam 0 .go, .exam 0 .go,
    .exam 0 (.answer (.answered "a" 1 none none)), .exam 0 .go, .exam 0 .go, .exam 0 .go,
    .exam 0 .go, .exam 0 .go, .exam 0 .go]

/-- The run is finished, the pools close and the campaign settles. -/
def closingLabels : List Label :=
  [.exam 0 .go, .exam 0 .go, .main, .exam 0 .go, .exam 0 .go, .main, .judge 0 .go, .judge 0 .go,
    .main, .main, .main, .main, .main, .main, .main]

/-- A judge case and a rule case. -/
def twoCaseStore : Store := { freshStore with cases := [judgeCase 1, ruleCase 2] }

theorem twoCaseStore_valid : twoCaseStore.Valid := by
  constructor <;> simp [twoCaseStore, freshStore, judgeCase, ruleCase]

/-- One model asks the judge case and offers its sample for a vote, asks the rule case, and the
judge votes last. -/
def twoCaseLabels : List Label :=
  [.main, .main, .exam 0 .go, .judge 0 .go, .handCell 0, .exam 0 (.setup (.ready "m1")),
    .exam 0 .go, .exam 0 .go, .exam 0 (.answer (.answered "a" 1 none none)), .exam 0 .go,
    .exam 0 .go, .exam 0 .go, .handJob 0 0, .exam 0 .go, .exam 0 .go, .exam 0 .go, .exam 0 .go,
    .exam 0 (.answer (.answered "a" 1 none none)), .exam 0 .go, .exam 0 .go, .exam 0 .go,
    .exam 0 .go, .exam 0 .go, .exam 0 .go, .exam 0 .go, .exam 0 .go, .judge 0 .go,
    .judge 0 (.verdict (.scored (1 / 2) none none)), .judge 0 .go, .judge 0 .go, .judge 0 .go,
    .judge 0 .go, .judge 0 .go, .judge 0 .go, .judge 0 .go, .judge 0 .go, .main, .exam 0 .go,
    .main, .judge 0 .go, .main, .main, .main, .main, .main, .main, .main]

/-- One model and two cases, one of them judged: one row each. -/
theorem grid_of_reach_single : ∃ (plan : Plan) (s : State),
    (freshStart twoCaseStore [1]).2 = some plan ∧
    Transition.Reachable (step soloEnv plan) (plan.start soloEnv (freshStart twoCaseStore [1]).1) s ∧
    s.main = .returned ∧ s.store.rowCount ⟨1, 1, 1⟩ = 1 ∧ s.store.rowCount ⟨1, 1, 2⟩ = 1 := by
  obtain ⟨plan, hplan⟩ : ∃ plan, (freshStart twoCaseStore [1]).2 = some plan := ⟨_, rfl⟩
  obtain ⟨s, hs⟩ : ∃ s, Transition.replay (step soloEnv plan)
      (plan.start soloEnv (freshStart twoCaseStore [1]).1) twoCaseLabels = some s := by
    cases hplan
    exact ⟨_, rfl⟩
  -- the request, its preparation and its execution, as the handler chains them
  have haccept : handleCreateEval twoCaseStore (fun _ => true) ⟨1, [], [1]⟩ =
    .ok (freshBatch [1]) := rfl
  have hprepare : (freshBatch [1]).prepare twoCaseStore "judge" "judge" =
    ((freshPrepared twoCaseStore [1]).1, (freshPrepared twoCaseStore [1]).2.1,
      (freshPrepared twoCaseStore [1]).2.2) := rfl
  have hexecute : executePrepared (freshPrepared twoCaseStore [1]).1
    (freshPrepared twoCaseStore [1]).2.1 (freshPrepared twoCaseStore [1]).2.2
    (freshBatch [1]).modelIds (some openGate) =
      ((freshStart twoCaseStore [1]).1, (freshStart twoCaseStore [1]).2) := rfl
  obtain ⟨-, hrow⟩ := (grid_of_reach twoCaseStore_valid haccept (.inl (by decide))
    twoCaseStore_valid hprepare hexecute).2 plan hplan s (.of_replay hs)
  have hreturned : s.main = .returned ∧ s.mem.canceled = false ∧ s.mem.hist.skipped = [] := by
    cases hplan
    cases hs
    exact ⟨rfl, rfl, rfl⟩
  have hrows := hrow hreturned.1 hreturned.2.1
  rw [hreturned.2.2] at hrows
  refine ⟨plan, s, hplan, .of_replay hs, hreturned.1, ?_, ?_⟩
  · rw [hrows ⟨1, 1, 1⟩ (by decide), if_pos ⟨by decide, List.not_mem_nil⟩]
  · rw [hrows ⟨1, 1, 2⟩ (by decide), if_pos ⟨by decide, List.not_mem_nil⟩]

/-- **Repeated models.** A request that names a model twice is accepted, and the unit of its
case ends with two rows. -/
theorem not_grid_of_reach :
    ¬ ∀ (env : Env) (hasEndpoint : ℕ → Bool) (req : CreateEvalRequest) (batch : Batch)
        (gate : Option ProbeGate) (st st₁ st₂ : Store) (c : ℕ) (preps : List PreparedRun)
        (plan : Plan) (s : State) (u : UnitKey),
      st.Valid → handleCreateEval st hasEndpoint req = .ok batch →
      batch.prepare st "judge" "judge" = (st₁, c, preps) →
      executePrepared st₁ c preps batch.modelIds gate = (st₂, some plan) →
      Transition.Reachable (step env plan) (plan.start env st₂) s →
      s.main = .returned → s.mem.canceled = false → u.runId ∈ preps.map (·.run.id) →
        s.store.rowCount u =
          if Selected preps (feedOf gate batch.modelIds) u ∧
            u ∉ s.mem.hist.skipped.flatMap Cell.units then 1 else 0 := by
  intro h
  -- a request that names the model twice feeds two cells of one unit
  obtain ⟨plan, hplan⟩ : ∃ plan, (freshStart freshStore [1, 1]).2 = some plan := ⟨_, rfl⟩
  obtain ⟨s, hs⟩ : ∃ s, Transition.replay (step soloEnv plan)
      (plan.start soloEnv (freshStart freshStore [1, 1]).1)
      ([.main] ++ ruleCellLabels ++ ruleCellLabels ++ closingLabels) = some s := by
    cases hplan
    exact ⟨_, rfl⟩
  have hrows : s.main = .returned ∧ s.mem.canceled = false ∧ s.store.rowCount ⟨1, 1, 1⟩ = 2 := by
    cases hplan
    cases hs
    exact ⟨rfl, rfl, rfl⟩
  have hone := h soloEnv (fun _ => true) ⟨1, [], [1, 1]⟩ (freshBatch [1, 1]) (some openGate)
    freshStore (freshPrepared freshStore [1, 1]).1 (freshStart freshStore [1, 1]).1
      (freshPrepared freshStore [1, 1]).2.1
    (freshPrepared freshStore [1, 1]).2.2 plan s ⟨1, 1, 1⟩ freshStore_valid rfl rfl
    (Prod.ext rfl hplan) (.of_replay hs) hrows.1 hrows.2.1 (by decide)
  rw [hrows.2.2] at hone
  split_ifs at hone
  · cases hone

end HubScope
