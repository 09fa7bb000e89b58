import HubScope.Server.Mutex

/-!
# Operations plan within their campaigns

Between planning a unit and storing its row an operation takes many steps, and others take theirs
in between. What a unit was planned from stays all the while: a run keeps its campaign and its
suite, a campaign its members, a suite its cases. So every row that an execution stores is of a
member of its run's campaign and of a case of the run's suite.

## Main definitions

* `Exec.writes`, `World.writes` — the units a step stores rows for
* `Growth` — runs, members and cases stay, and new ones may come
* `OpPc.Sound` — what an operation has planned belongs to its campaign

## Main results

* `planned_of_writes` — rows are stored for planned units only
* `OpStep.gridCall` — what a step of an operation does to runs, members and cases
* `sound_opStep` — operations plan within their campaigns
-/

set_option autoImplicit false

namespace HubScope

variable {env : Env} {plan : Plan} {st st' : Store} {s s' : State} {u : UnitKey}

/-! ### Rows that a step stores -/

/-- The units an exam worker stores a row for with its next step. -/
def ExamPc.writes : ExamPc → List UnitKey
  | .write k _ => [k.unit]
  | .stamp cell _ cases _ => ({ cell with cases := cases } : Cell).units
  | _ => []

/-- The unit a judge worker stores a row for with its next step. -/
def JudgePc.writes : JudgePc → List UnitKey
  | .write j _ => [j.unit]
  | _ => []

/-- The units an execution stores a row for with a step. -/
def Exec.writes (e : Exec) : Label → List UnitKey
  | .exam i _ => e.exam[i]?.elim [] ExamPc.writes
  | .judge j _ => e.judge[j]?.elim [] JudgePc.writes
  | _ => []

/-- The units the server stores a row for with a step. -/
def World.writes (w : World) : WorldLabel → List UnitKey
  | .op i (.exec a) => (w.ops[i]?.bind fun op => op.pc.execution).elim [] fun x => x.2.2.writes a
  | _ => []

/-- The campaign the server makes active with a step. -/
def World.starts (w : World) : WorldLabel → Option ℕ
  | .op i _ => w.ops[i]?.bind fun op => op.pc.starts w.store
  | _ => none

theorem mem_results_createEvalResult {r r' : EvalResult}
    (h : r ∈ (st.createEvalResult r').results) : r ∈ st.results ∨ r.unit = r'.unit := by
  rcases List.mem_append.mp h with h | h
  · exact .inl h
  · exact .inr (congrArg EvalResult.unit (List.mem_singleton.mp h))

/-- An execution stores rows of these units and of no others. -/
theorem Step.results_written {a : Label} (h : Step env plan s a s') {r : EvalResult}
    (hr : r ∈ s'.store.results) : r ∈ s.store.results ∨ r.unit ∈ s.toExec.writes a := by
  cases h with
  | main hm =>
    -- the driver changes the columns of runs
    generalize s.main = pc at hm
    left
    cases hm with
    | flushRun r rs _ hst =>
      subst hst
      revert hr
      split <;> exact id
    | tailRun r rs =>
      revert hr
      dsimp only
      split <;> exact id
    | _ => exact hr
  | @exam i c pc st m pc' hi he =>
    have hwrites : s.toExec.writes (.exam i c) = pc.writes := by
      simp only [Exec.writes, hi, Option.elim_some]
    rw [hwrites]
    cases he with
    | clearNull | clearAny => exact .inl (List.mem_of_mem_filter hr)
    | wrote k agg =>
      rcases mem_results_createEvalResult hr with hr | hr
      · exact .inl hr
      · exact .inr (List.mem_singleton.mpr hr)
    | stamped cell modelId cases answered =>
      rcases List.mem_append.mp hr with hr | hr
      · exact .inl hr
      · obtain ⟨c, hc, rfl⟩ := List.mem_map.mp hr
        exact .inr (List.mem_map.mpr ⟨c, hc, rfl⟩)
    | finished runId =>
      left
      revert hr
      dsimp only
      split <;> exact id
    | _ => exact .inl hr
  | @judge i c pc st m pc' hj he =>
    have hwrites : s.toExec.writes (.judge i c) = pc.writes := by
      simp only [Exec.writes, hj, Option.elim_some]
    rw [hwrites]
    cases he with
    | recorded j o =>
      left
      obtain ⟨rows, heq⟩ := s.store.createEvalJudgeScore_eq (judgeScoreRow j o)
      dsimp only at hr
      rwa [heq] at hr
    | wrote j agg =>
      rcases mem_results_createEvalResult hr with hr | hr
      · exact .inl hr
      · exact .inr (List.mem_singleton.mpr hr)
    | finished j =>
      left
      revert hr
      dsimp only
      split <;> exact id
    | _ => exact .inl hr
  | _ => exact .inl hr

/-- An execution stores rows of planned units only. -/
theorem planned_of_writes {a : Label} (h : Reached env plan s) (hok : s.mem.panicked = false)
    (hu : u ∈ s.toExec.writes a) : u ∈ plan.cells.flatMap Cell.units := by
  by_contra hnot
  have hplanned : plan.planned u = 0 := List.count_eq_zero.mpr hnot
  -- an unplanned unit is neither to be done nor in flight anywhere, by the ledgers of both
  have htodo := todo_of_reach u h hok
  have hflight := flight_of_reach (by omega) h hok (u := u)
  simp only [inFlight] at hflight
  cases a with
  | exam i c =>
    cases hi : s.exam[i]? with
    | none => simp [Exec.writes, hi] at hu
    | some pc =>
      simp only [Exec.writes, hi, Option.elim_some] at hu
      have hheld := Ledger.exam_le_held (L := todoLedger plan u) hi
      have hheld' := Ledger.exam_le_held (L := flightLedger u) hi
      cases pc with
      | write k agg =>
        have hone : (flightLedger u).exam (.write k agg) = 1 := by
          simp [flightLedger, ExamPc.holds, List.mem_singleton.mp hu]
        omega
      | stamp cell modelId cases answered =>
        have hpos : 0 < (todoLedger plan u).exam (.stamp cell modelId cases answered) :=
          List.count_pos_iff.mpr hu
        omega
      | _ => cases hu
  | judge i c =>
    cases hi : s.judge[i]? with
    | none => simp [Exec.writes, hi] at hu
    | some pc =>
      simp only [Exec.writes, hi, Option.elim_some] at hu
      have hheld := Ledger.judge_le_held (L := flightLedger u) hi
      cases pc with
      | write j agg =>
        have hone : (flightLedger u).judge (.write j agg) = 1 := by
          simp [flightLedger, JudgePc.holds, List.mem_singleton.mp hu]
        omega
      | _ => cases hu
  | _ => cases hu

/-! ### What stays of runs, members and cases -/

/-- What no store call changes of a run. -/
def EvalRun.key (run : EvalRun) : ℕ × ℕ × ℕ := (run.id, run.campaignId, run.suiteId)

/-- What no store call changes of a case. -/
def Case.key (c : Case) : ℕ × ℕ := (c.id, c.suiteId)

/-- Run and case ids are distinct, and no run id is above the sequence. -/
structure GridKeys (st : Store) : Prop where
  runIds : (st.runs.map (·.id)).Nodup
  runSeq : ∀ run ∈ st.runs, run.id ≤ st.runSeq
  caseIds : (st.cases.map (·.id)).Nodup

/-- Runs, members and cases of one store are those of another, with new ones. -/
structure Growth (st st' : Store) : Prop where
  runs : st.runs.map EvalRun.key ⊆ st'.runs.map EvalRun.key
  members : st.campaignModels ⊆ st'.campaignModels
  cases : st.cases.map Case.key ⊆ st'.cases.map Case.key

/-- What a store call of an operation does to runs, members and cases. -/
inductive GridCall (st st' : Store) : Prop
  | kept : st'.runs.map EvalRun.key = st.runs.map EvalRun.key → st'.runSeq = st.runSeq →
      st'.campaignModels = st.campaignModels → st'.cases = st.cases → GridCall st st'
  | created (modelIds : List ℕ) : st' = (st.createCampaign modelIds).1 → GridCall st st'
  | runCreated (c suiteId : ℕ) (snapshot : String) : st' = (st.createEvalRun c suiteId snapshot).1 →
      GridCall st st'

theorem GridCall.growth (h : GridCall st st') : Growth st st' := by
  cases h with
  | kept hruns _ hmembers hcases =>
    exact ⟨hruns ▸ List.Subset.refl _, hmembers ▸ List.Subset.refl _, hcases ▸ List.Subset.refl _⟩
  | created modelIds h =>
    subst h
    exact ⟨List.Subset.refl _, List.subset_append_left _ _, List.Subset.refl _⟩
  | runCreated c suiteId snapshot h =>
    subst h
    refine ⟨?_, List.Subset.refl _, List.Subset.refl _⟩
    exact List.map_subset _ (List.subset_append_left _ _)

theorem GridCall.cases_eq (h : GridCall st st') : st'.cases = st.cases := by
  cases h with
  | kept _ _ _ hcases => exact hcases
  | created modelIds h => rw [h, Store.createCampaign]
  | runCreated c suiteId snapshot h => rw [h, Store.createEvalRun]

theorem GridCall.keys (h : GridCall st st') (hkeys : GridKeys st) : GridKeys st' := by
  have hid : ∀ runs : List EvalRun, runs.map (·.id) = (runs.map EvalRun.key).map (·.1) := by
    intro runs
    rw [List.map_map]
    rfl
  cases h with
  -- runs keep their ids, whatever else of them changes
  | kept hruns hseq _ hcases =>
    refine ⟨?_, fun run hrun => ?_, hcases ▸ hkeys.caseIds⟩
    · rw [hid, hruns, ← hid]
      exact hkeys.runIds
    · have hmem : run.key ∈ st.runs.map EvalRun.key := hruns ▸ List.mem_map_of_mem hrun
      obtain ⟨run₀, hrun₀, hkey⟩ := List.mem_map.mp hmem
      have heq : run₀.id = run.id := congrArg Prod.fst hkey
      have hle := hkeys.runSeq run₀ hrun₀
      omega
  | created modelIds h =>
    subst h
    exact ⟨hkeys.runIds, hkeys.runSeq, hkeys.caseIds⟩
  | runCreated c suiteId snapshot h =>
    subst h
    refine ⟨?_, fun run hrun => ?_, hkeys.caseIds⟩
    · simp only [Store.createEvalRun, List.map_append, List.map_cons, List.map_nil]
      refine List.nodup_append.mpr ⟨hkeys.runIds, List.nodup_singleton _, ?_⟩
      intro id hid id' hid'
      obtain ⟨run, hrun, rfl⟩ := List.mem_map.mp hid
      obtain rfl := List.mem_singleton.mp hid'
      have hle := hkeys.runSeq run hrun
      omega
    · change run.id ≤ st.runSeq + 1
      rcases List.mem_append.mp hrun with hrun | hrun
      · exact Nat.le_succ_of_le (hkeys.runSeq run hrun)
      · rw [List.mem_singleton.mp hrun]

theorem GridKeys.eq_of_id (h : GridKeys st) {run run' : EvalRun} (hrun : run ∈ st.runs)
    (hrun' : run' ∈ st.runs) (hid : run.id = run'.id) : run = run' :=
  List.inj_on_of_nodup_map h.runIds hrun hrun' hid

/-- Rewriting runs in place keeps what stays of them. -/
theorem gridCall_of_runs {f : EvalRun → EvalRun} (hf : ∀ run, (f run).key = run.key)
    (hruns : st'.runs = st.runs.map f) (hseq : st'.runSeq = st.runSeq)
    (hmembers : st'.campaignModels = st.campaignModels) (hcases : st'.cases = st.cases) :
    GridCall st st' := by
  refine .kept ?_ hseq hmembers hcases
  rw [hruns, List.map_map]
  exact List.map_congr_left fun run _ => hf run

theorem gridCall_updateRun (st : Store) (id : ℕ) {f : EvalRun → EvalRun}
    (hf : ∀ run, (f run).key = run.key) : GridCall st (st.updateRun id f) := by
  refine gridCall_of_runs (f := fun run => if run.id = id then f run else run) ?_ rfl rfl rfl rfl
  intro run
  split_ifs
  · exact hf run
  · rfl

theorem gridCall_finishEvalRun (st : Store) (id : ℕ) (status : Status) :
    GridCall st (st.finishEvalRun id status) := gridCall_updateRun st id fun _ => rfl

theorem gridCall_refl (st : Store) : GridCall st st := .kept rfl rfl rfl rfl

theorem gridCall_reopenCampaign {c : ℕ} {rejoin : EvalRun → Bool}
    (h : st.reopenCampaign c rejoin = some st') : GridCall st st' := by
  unfold Store.reopenCampaign at h
  split_ifs at h
  cases h
  refine gridCall_of_runs (f := _) ?_ rfl rfl rfl rfl
  intro run
  split_ifs <;> rfl

/-- A step of an execution rewrites runs in place. -/
theorem Step.gridCall {a : Label} (h : Step env plan s a s') : GridCall s.store s'.store := by
  cases h with
  | main hm =>
    generalize s.main = pc at hm
    cases hm with
    -- stamps and costs write a run, and everything else other tables
    | finished r rs => exact gridCall_finishEvalRun _ _ _
    | flushRun r rs _ hst =>
      subst hst
      split
      · exact gridCall_updateRun _ _ fun _ => rfl
      · exact gridCall_refl _
    | tailRun r rs =>
      dsimp only
      split
      · exact gridCall_refl _
      · exact gridCall_finishEvalRun _ _ _
    | _ => exact .kept rfl rfl rfl rfl
  | exam hi he =>
    cases he with
    | finished runId =>
      dsimp only
      split
      · exact gridCall_finishEvalRun _ _ _
      · exact gridCall_refl _
    | _ => exact .kept rfl rfl rfl rfl
  | judge hj he =>
    cases he with
    | recorded j o =>
      obtain ⟨rows, heq⟩ := s.store.createEvalJudgeScore_eq (judgeScoreRow j o)
      dsimp only
      rw [heq]
      exact .kept rfl rfl rfl rfl
    | finished j =>
      dsimp only
      split
      · exact gridCall_finishEvalRun _ _ _
      · exact gridCall_refl _
    | _ => exact .kept rfl rfl rfl rfl
  | _ => exact .kept rfl rfl rfl rfl

/-- So does every store call of an operation that creates nothing. -/
theorem OpStep.gridCall {o : Operation} {pc pc' : OpPc} {choice : OpChoice}
    (h : OpStep st o pc choice st' pc') : GridCall st st' := by
  cases h with
  | created b snapshot c => exact .created b.modelIds rfl
  | runCreated c b snapshot suite => exact .runCreated c suite.id snapshot rfl
  | reopened c units rejoin job st' hreopen => exact gridCall_reopenCampaign hreopen
  | runsReopened c cells rejoin st' hreopen => exact gridCall_reopenCampaign hreopen
  | prepared c b snapshot run suites prepared name =>
    unfold prepareRun resolveJudgeModel
    split_ifs
    · exact gridCall_refl _
    · exact gridCall_updateRun _ _ fun _ => rfl
  | settledEmpty c =>
    unfold Store.settleEmptyCampaign
    split_ifs
    · exact gridCall_refl _
    · exact .kept rfl rfl rfl rfl
  | juryStored => exact gridCall_updateRun _ _ fun _ => rfl
  | runFailed => exact gridCall_finishEvalRun _ _ _
  | goneFinished => exact gridCall_finishEvalRun _ _ _
  | executed single registered env plan e a s hs => exact (step_cases hs).2.gridCall
  | _ => exact .kept rfl rfl rfl rfl

/-! ### What an operation has planned -/

/-- The models are members of the campaign. -/
def Store.Members (st : Store) (c : ℕ) (models : List ℕ) : Prop :=
  ∀ m ∈ models, (c, m) ∈ st.campaignModels

/-- The runs are runs of the campaign. -/
def Store.RunsOf (st : Store) (c : ℕ) (runs : List EvalRun) : Prop :=
  ∀ run ∈ runs, run.campaignId = c ∧ run.key ∈ st.runs.map EvalRun.key

/-- The cases are of the run's suite. -/
def Store.CasesOf (st : Store) (run : EvalRun) (cases : List Case) : Prop :=
  ∀ c ∈ cases, (c.id, run.suiteId) ∈ st.cases.map Case.key

/-- The unit is of a member of its run's campaign and of a case of the run's suite. -/
def Store.Placed (st : Store) (u : UnitKey) : Prop :=
  ∃ run ∈ st.runs, run.id = u.runId ∧ (run.campaignId, u.modelDbId) ∈ st.campaignModels ∧
    (u.caseId, run.suiteId) ∈ st.cases.map Case.key

/-- The cell is of a member of its run's campaign, with cases of the run's suite. -/
structure Cell.Sound (st : Store) (cell : Cell) : Prop where
  run : cell.run.key ∈ st.runs.map EvalRun.key
  member : (cell.run.campaignId, cell.modelDbId) ∈ st.campaignModels
  cases : st.CasesOf cell.run cell.cases

/-- The run is staged for the campaign, with cases of its suite. -/
structure PreparedRun.Sound (st : Store) (c : ℕ) (prep : PreparedRun) : Prop where
  campaign : prep.run.campaignId = c
  run : prep.run.key ∈ st.runs.map EvalRun.key
  cases : st.CasesOf prep.run prep.cases

/-- What the goroutine was left with belongs to the campaign. -/
def Job.Sound (st : Store) (c : ℕ) : Job → Prop
  | .runCampaign b _ => st.Members c b.modelIds
  | .runEval prepared modelIds => (∀ prep ∈ prepared, prep.Sound st c) ∧ st.Members c modelIds
  | .retryAnsweredUnits units _ => st.Members c (units.map (·.modelDbId))
  | .retryFailedResults | .resumeCampaign => True

/-- What the operation has planned belongs to its campaign. -/
def OpPc.Sound (st : Store) (o : Operation) : OpPc → Prop
  | .getCampaign c | .inspect c _ => ∀ c' items, o = .retryUnits c' items → c' = c
  | .check units => units = [] ∨
      ∃ c items, o = .retryUnits c items ∧ st.Members c (units.map (·.modelDbId))
  | .reopen c units | .isExecuting c units => st.Members c (units.map (·.modelDbId))
  | .register c job | .listRuns c job => job.Sound st c
  | .createRun c b _ _ prepared => st.Members c b.modelIds ∧ ∀ prep ∈ prepared, prep.Sound st c
  | .prepareRun c b _ run _ prepared =>
      st.RunsOf c [run] ∧ st.Members c b.modelIds ∧ ∀ prep ∈ prepared, prep.Sound st c
  | .probeGate c _ prepared modelIds | .selectJuries c _ _ _ prepared modelIds =>
      (∀ prep ∈ prepared, prep.Sound st c) ∧ st.Members c modelIds
  | .readNulls c runs cells | .finishGone c _ runs cells =>
      st.RunsOf c runs ∧ ∀ cell ∈ cells, cell.Sound st
  | .listMembers c runs => st.RunsOf c runs
  | .probeMembers c runs members => st.RunsOf c runs ∧ st.Members c members
  | .readResults c runs members cells =>
      st.RunsOf c runs ∧ st.Members c members ∧ ∀ cell ∈ cells, cell.Sound st
  | .reopenRuns _ cells => ∀ cell ∈ cells, cell.Sound st
  | .launch _ plan | .executing _ _ _ plan _ => ∀ cell ∈ plan.cells, cell.Sound st
  | .selectBatch | .createCampaign _ _ | .settleEmpty _ | .failRuns _ _ _ | .settleSelect _ _
  | .settleUpdate _ _ _ | .unregister _ _ | .returned => True

section Growth

variable {c : ℕ} (hgrow : Growth st st')

include hgrow

theorem Growth.members_of {models : List ℕ} (h : st.Members c models) : st'.Members c models :=
  fun m hm => hgrow.members (h m hm)

theorem Growth.runsOf {runs : List EvalRun} (h : st.RunsOf c runs) : st'.RunsOf c runs :=
  fun run hrun => ⟨(h run hrun).1, hgrow.runs (h run hrun).2⟩

theorem Growth.casesOf {run : EvalRun} {cases : List Case} (h : st.CasesOf run cases) :
    st'.CasesOf run cases :=
  fun x hx => hgrow.cases (h x hx)

theorem Growth.placed (h : st.Placed u) : st'.Placed u := by
  obtain ⟨run, hrun, hid, hmember, hcase⟩ := h
  obtain ⟨run', hrun', hkey⟩ := List.mem_map.mp (hgrow.runs (List.mem_map_of_mem hrun))
  obtain ⟨hid', hcampaign, hsuite⟩ : run'.id = run.id ∧ run'.campaignId = run.campaignId ∧
      run'.suiteId = run.suiteId := by
    simpa [EvalRun.key] using hkey
  refine ⟨run', hrun', hid'.trans hid, ?_, ?_⟩
  · rw [hcampaign]
    exact hgrow.members hmember
  · rw [hsuite]
    exact hgrow.cases hcase

theorem Growth.cells {cells : List Cell} (h : ∀ cell ∈ cells, cell.Sound st) :
    ∀ cell ∈ cells, cell.Sound st' := fun cell hcell =>
  ⟨hgrow.runs (h cell hcell).run, hgrow.members (h cell hcell).member,
    hgrow.casesOf (h cell hcell).cases⟩

theorem Growth.prepared {prepared : List PreparedRun} (h : ∀ prep ∈ prepared, prep.Sound st c) :
    ∀ prep ∈ prepared, prep.Sound st' c := fun prep hprep =>
  ⟨(h prep hprep).campaign, hgrow.runs (h prep hprep).run, hgrow.casesOf (h prep hprep).cases⟩

theorem Growth.job {job : Job} (h : job.Sound st c) : job.Sound st' c := by
  cases job with
  | runCampaign b snapshot => exact hgrow.members_of h
  | runEval prepared modelIds => exact ⟨hgrow.prepared h.1, hgrow.members_of h.2⟩
  | retryAnsweredUnits units settled => exact hgrow.members_of h
  | retryFailedResults | resumeCampaign => trivial

/-- What others do to the store leaves what was planned in its campaign. -/
theorem Growth.sound {o : Operation} {pc : OpPc} (h : pc.Sound st o) : pc.Sound st' o := by
  cases pc with
  | check units =>
    rcases h with h | ⟨c, items, ho, hmembers⟩
    · exact .inl h
    · exact .inr ⟨c, items, ho, hgrow.members_of hmembers⟩
  | reopen c units | isExecuting c units => exact hgrow.members_of h
  | inspect | getCampaign => exact h
  | register c job | listRuns c job => exact hgrow.job h
  | createRun c b snapshot suites prepared => exact ⟨hgrow.members_of h.1, hgrow.prepared h.2⟩
  | prepareRun c b snapshot run suites prepared =>
    exact ⟨hgrow.runsOf h.1, hgrow.members_of h.2.1, hgrow.prepared h.2.2⟩
  | probeGate | selectJuries => exact ⟨hgrow.prepared h.1, hgrow.members_of h.2⟩
  | readNulls | finishGone => exact ⟨hgrow.runsOf h.1, hgrow.cells h.2⟩
  | listMembers => exact hgrow.runsOf h
  | probeMembers => exact ⟨hgrow.runsOf h.1, hgrow.members_of h.2⟩
  | readResults => exact ⟨hgrow.runsOf h.1, hgrow.members_of h.2.1, hgrow.cells h.2.2⟩
  | reopenRuns | launch | executing => exact hgrow.cells h
  | _ => trivial

end Growth

/-- The units of a sound cell are placed. -/
theorem Cell.Sound.placed {cell : Cell} (h : cell.Sound st) (hu : u ∈ cell.units) :
    st.Placed u := by
  obtain ⟨c, hc, rfl⟩ := List.mem_map.mp hu
  obtain ⟨run, hrun, hkey⟩ := List.mem_map.mp h.run
  obtain ⟨hid, hcampaign, hsuite⟩ : run.id = cell.run.id ∧ run.campaignId = cell.run.campaignId ∧
      run.suiteId = cell.run.suiteId := by
    simpa [EvalRun.key] using hkey
  refine ⟨run, hrun, hid, ?_, ?_⟩
  · rw [hcampaign]
    exact h.member
  · rw [hsuite]
    exact h.cases c hc

/-! ### Planning -/

theorem casesOf_listEnabledCases (st : Store) (run : EvalRun) :
    st.CasesOf run (st.listEnabledCases run.suiteId) := by
  intro c hc
  obtain ⟨hc, hcase⟩ := List.mem_filter.mp hc
  have hsuite : c.suiteId = run.suiteId := (of_decide_eq_true hcase).1
  exact List.mem_map.mpr ⟨c, hc, by rw [Case.key, hsuite]⟩

theorem sound_batchCells {c : ℕ} {prepared : List PreparedRun} {feed : List ℕ}
    (hprepared : ∀ prep ∈ prepared, prep.Sound st c) (hfeed : st.Members c feed) :
    ∀ cell ∈ batchCells prepared feed, cell.Sound st := by
  intro cell hcell
  obtain ⟨m, hm, hcell⟩ := List.mem_flatMap.mp hcell
  obtain ⟨prep, hprep, rfl⟩ := List.mem_map.mp hcell
  obtain ⟨hcampaign, hrun, hcases⟩ := hprepared prep hprep
  refine ⟨hrun, ?_, hcases⟩
  change (prep.run.campaignId, m) ∈ st.campaignModels
  rw [hcampaign]
  exact hfeed m hm

theorem sound_resumeCells {c : ℕ} {run : EvalRun} {members : List ℕ} (results : List EvalResult)
    (hrun : st.RunsOf c [run]) (hmembers : st.Members c members) :
    ∀ cell ∈ resumeCells run results (st.listEnabledCases run.suiteId) members,
      cell.Sound st := by
  intro cell hcell
  obtain ⟨m, hm, rfl⟩ := List.mem_map.mp (List.mem_of_mem_filter hcell)
  obtain ⟨hcampaign, hkey⟩ := hrun run List.mem_cons_self
  refine ⟨hkey, ?_, fun x hx => casesOf_listEnabledCases st run x (List.mem_of_mem_filter hx)⟩
  change (run.campaignId, m) ∈ st.campaignModels
  rw [hcampaign]
  exact hmembers m hm

theorem enabledCase_spec {caseId : ℕ} {x : Case} (h : enabledCase st caseId = some x) :
    x ∈ st.cases ∧ x.id = caseId := by
  obtain ⟨hcase, -⟩ := Option.filter_eq_some_iff.mp h
  exact ⟨List.mem_of_find?_eq_some hcase, by simpa using List.find?_some hcase⟩

/-- The run of a placed unit, by its key. -/
theorem GridKeys.placed_iff (hkeys : GridKeys st) {run : EvalRun}
    (hrun : run.key ∈ st.runs.map EvalRun.key) (hu : u.runId = run.id) : st.Placed u ↔
      (run.campaignId, u.modelDbId) ∈ st.campaignModels ∧
        (u.caseId, run.suiteId) ∈ st.cases.map Case.key := by
  obtain ⟨run₀, hrun₀, hkey⟩ := List.mem_map.mp hrun
  obtain ⟨hid, hcampaign, hsuite⟩ : run₀.id = run.id ∧ run₀.campaignId = run.campaignId ∧
      run₀.suiteId = run.suiteId := by
    simpa [EvalRun.key] using hkey
  rw [← hcampaign, ← hsuite]
  constructor
  · rintro ⟨run', hrun', hid', hplaced⟩
    obtain rfl : run' = run₀ := hkeys.eq_of_id hrun' hrun₀ (by rw [hid', hu, hid])
    exact hplaced
  · rintro hplaced
    exact ⟨run₀, hrun₀, by rw [hid, hu], hplaced⟩

theorem sound_nullScoreCells (hkeys : GridKeys st) (hrows : ∀ r ∈ st.results, st.Placed r.unit)
    {run : EvalRun} (hrun : run.key ∈ st.runs.map EvalRun.key) :
    ∀ cell ∈ nullScoreCells st run (requestedNulls st run.id none), cell.Sound st := by
  -- a unit without a score has a row, and rows are placed
  have hasked : ∀ n ∈ st.listNullScoreCells run.id,
      (run.campaignId, n.modelDbId) ∈ st.campaignModels ∧
        (n.caseId, run.suiteId) ∈ st.cases.map Case.key := by
    intro n hn
    obtain ⟨r, hr, rfl⟩ := List.mem_map.mp ((List.perm_insertionSort _ _).mem_iff.mp hn)
    obtain ⟨hr, hnull⟩ := List.mem_filter.mp hr
    have hid : r.unit.runId = run.id := (of_decide_eq_true hnull).1
    exact (hkeys.placed_iff hrun hid).mp (hrows r hr)
  have hfound : ∀ p ∈ (requestedNulls st run.id none).filterMap fun n =>
      (enabledCase st n.caseId).map fun c => (n.modelDbId, c),
      (run.campaignId, p.1) ∈ st.campaignModels ∧
        (p.2.id, run.suiteId) ∈ st.cases.map Case.key := by
    intro p hp
    obtain ⟨n, hn, hcase⟩ := List.mem_filterMap.mp hp
    obtain ⟨c, hc, rfl⟩ := Option.map_eq_some_iff.mp hcase
    rw [(enabledCase_spec hc).2]
    exact hasked n hn
  intro cell hcell
  obtain ⟨⟨m, asked⟩, hgroup, rfl⟩ := List.mem_map.mp hcell
  obtain ⟨⟨p, hp, rfl⟩, rfl⟩ := Grouping.mem_group.mp hgroup
  refine ⟨hrun, (hfound p hp).1, fun x hx => ?_⟩
  obtain ⟨q, hq, rfl⟩ := List.mem_map.mp hx
  exact (hfound q (List.mem_of_mem_filter hq)).2

theorem sound_answeredCells {c : ℕ} {units : List RetryUnit}
    (hunits : st.Members c (units.map (·.modelDbId))) :
    ∀ cell ∈ answeredCells st (st.listEvalRunsByCampaign c) units, cell.Sound st := by
  -- what a unit resolves to: a run of the campaign and an enabled case of its suite
  have hfound : ∀ p ∈ units.filterMap fun u =>
      (answeredUnit st (st.listEvalRunsByCampaign c) u).map fun q => ((q.1, u.modelDbId), q.2),
      p.1.1 ∈ st.runs ∧ (p.1.1.campaignId, p.1.2) ∈ st.campaignModels ∧
        (p.2.id, p.1.1.suiteId) ∈ st.cases.map Case.key := by
    intro p hp
    obtain ⟨u, hu, hasked⟩ := List.mem_filterMap.mp hp
    obtain ⟨⟨run, x⟩, hunit, rfl⟩ := Option.map_eq_some_iff.mp hasked
    obtain ⟨x', hx, hrun⟩ := Option.bind_eq_some_iff.mp hunit
    obtain ⟨run', hfind, heq⟩ := Option.map_eq_some_iff.mp hrun
    obtain ⟨rfl, rfl⟩ := Prod.mk.inj heq
    have hmem := List.mem_reverse.mp (List.mem_of_find?_eq_some hfind)
    obtain ⟨hrun', hcampaign⟩ := List.mem_filter.mp hmem
    have hsuite : run'.suiteId = x'.suiteId := by simpa using List.find?_some hfind
    refine ⟨hrun', ?_, ?_⟩
    · change (run'.campaignId, u.modelDbId) ∈ st.campaignModels
      rw [of_decide_eq_true hcampaign]
      exact hunits _ (List.mem_map_of_mem hu)
    · change (x'.id, run'.suiteId) ∈ st.cases.map Case.key
      rw [hsuite]
      exact List.mem_map_of_mem (enabledCase_spec hx).1
  intro cell hcell
  obtain ⟨⟨⟨run, m⟩, asked⟩, hgroup, rfl⟩ := List.mem_map.mp hcell
  obtain ⟨⟨p, hp, heq⟩, rfl⟩ := Grouping.mem_group.mp hgroup
  obtain ⟨rfl, rfl⟩ := Prod.mk.inj heq
  obtain ⟨hrun, hmember, -⟩ := hfound p hp
  refine ⟨List.mem_map_of_mem hrun, hmember, fun x hx => ?_⟩
  obtain ⟨q, hq, rfl⟩ := List.mem_map.mp hx
  obtain ⟨hq, hkey⟩ := List.mem_filter.mp hq
  have hcase := (hfound q hq).2.2
  rw [of_decide_eq_true hkey] at hcase
  exact hcase

/-- The units a retry accepts are of members: they have rows. -/
theorem members_acceptUnits (hkeys : GridKeys st) (hrows : ∀ r ∈ st.results, st.Placed r.unit)
    (c : ℕ) (items : List RetryUnit) :
    st.Members c ((acceptUnits st c items).map (·.modelDbId)) := by
  intro m hm
  obtain ⟨u, hu, rfl⟩ := List.mem_map.mp hm
  obtain ⟨r, hr, hrow⟩ := List.any_eq_true.mp (List.mem_filter.mp hu).2
  obtain ⟨hunit, hrun⟩ := of_decide_eq_true hrow
  obtain ⟨run, hrun, hid⟩ := List.any_eq_true.mp hrun
  obtain ⟨hid, hcampaign⟩ := of_decide_eq_true hid
  obtain ⟨hmember, -⟩ := (hkeys.placed_iff (List.mem_map_of_mem hrun) hid.symm).mp (hrows r hr)
  rw [hcampaign] at hmember
  rw [← hunit]
  exact hmember

theorem runsOf_listEvalRunsByCampaign (st : Store) (c : ℕ) :
    st.RunsOf c (st.listEvalRunsByCampaign c) := by
  intro run hrun
  obtain ⟨hrun, hcampaign⟩ := List.mem_filter.mp hrun
  exact ⟨of_decide_eq_true hcampaign, List.mem_map_of_mem hrun⟩

theorem members_listCampaignMembers (st : Store) (c : ℕ) :
    st.Members c ((st.listCampaignMembers c).map (·.id)) := by
  intro m hm
  obtain ⟨model, hmodel, rfl⟩ := List.mem_map.mp hm
  have hlisted := (List.perm_insertionSort _ _).mem_iff.mp hmodel
  exact (of_decide_eq_true (List.mem_filter.mp hlisted).2).1

/-! ### The steps of an operation -/

section OpSound

variable {executing executing' : ℕ → Bool} {o : Operation} {pc pc' : OpPc} {choice : OpChoice}
  {c : ℕ}

theorem sound_listRuns {job : Job} (hjob : job.Sound st c)
    (h : opStep st executing o (.listRuns c job) choice = some (st', executing', pc')) :
    pc'.Sound st' o := by
  cases choice with
  | go =>
    cases job with
    | retryAnsweredUnits units settled =>
      cases h
      exact sound_answeredCells hjob
    | resumeCampaign =>
      cases h
      exact runsOf_listEvalRunsByCampaign st c
    | _ =>
      cases h
      exact ⟨runsOf_listEvalRunsByCampaign st c, fun cell hcell => by cases hcell⟩
  | _ => cases h

theorem sound_gatePassed {single : Bool} {prepared staged : List PreparedRun}
    {modelIds feed : List ℕ} {g : ProbeGate} {juries : List (ℕ × List String)}
    (hpc : (OpPc.probeGate c single prepared modelIds).Sound st o)
    (h : opStep st executing o (.probeGate c single prepared modelIds) (.gate (some g)) =
      some (st', executing', .selectJuries c single juries prepared staged feed)) :
    (OpPc.selectJuries c single juries prepared staged feed).Sound st' o := by
  simp only [opStep] at h
  split_ifs at h
  · cases h
  · cases h
    refine ⟨fun prep hprep => ?_, fun m hm => hpc.2 m (List.mem_of_mem_filter hm)⟩
    -- a staged run carries its jury and is otherwise the prepared one
    obtain ⟨prep₀, hprep₀, rfl⟩ := List.mem_map.mp hprep
    obtain ⟨hcampaign, hrun, hcases⟩ := hpc.1 prep₀ hprep₀
    exact ⟨hcampaign, hrun, hcases⟩

theorem sound_readNulls (hkeys : GridKeys st) (hrows : ∀ r ∈ st.results, st.Placed r.unit)
    {runs : List EvalRun} {cells : List Cell} (hruns : st.RunsOf c runs)
    (hcells : ∀ cell ∈ cells, cell.Sound st)
    (h : opStep st executing o (.readNulls c runs cells) choice = some (st', executing', pc')) :
    pc'.Sound st' o := by
  cases choice with
  | go =>
    cases runs with
    | nil =>
      cases h
      exact hcells
    | cons run runs =>
      have hrest : st.RunsOf c runs := fun r hr => hruns r (List.mem_cons_of_mem _ hr)
      simp only [opStep] at h
      split_ifs at h
      · cases h
        exact ⟨hrest, hcells⟩
      · cases h
        refine ⟨hrest, fun cell hcell => ?_⟩
        -- the cells planned before, and those of the run that is read
        rcases List.mem_append.mp hcell with hcell | hcell
        · exact hcells cell hcell
        · exact sound_nullScoreCells hkeys hrows (hruns run List.mem_cons_self).2 cell hcell
  | _ => cases h

theorem sound_listMembers {runs : List EvalRun} (hruns : st.RunsOf c runs)
    (h : opStep st executing o (.listMembers c runs) choice = some (st', executing', pc')) :
    pc'.Sound st' o := by
  cases choice with
  | go =>
    cases h
    exact ⟨hruns, members_listCampaignMembers st c⟩
  | _ => cases h

/-- Where an admitted operation goes. -/
theorem sound_admission (status : Status) (h : (OpPc.getCampaign c).Sound st o) :
    (admission o status c).Sound st o := by
  cases o with
  | createEval | runBatch => trivial
  | retryFailed c' =>
    unfold admission
    dsimp only
    split_ifs
    · exact h
    · trivial
  | retryUnits c' items =>
    unfold admission
    dsimp only
    split_ifs
    · trivial
    · trivial
    · trivial
    · exact h
  | restart c' =>
    unfold admission
    dsimp only
    split_ifs
    · exact .inl rfl
    · trivial

theorem sound_passed {units : List RetryUnit} (h : (OpPc.check units).Sound st o) :
    (passed o units).Sound st o := by
  cases o with
  | createEval | runBatch => trivial
  | retryFailed c' =>
    rcases h with rfl | ⟨c, items, ho, -⟩
    · exact fun m hm => by cases hm
    · cases ho
  | retryUnits c' items =>
    rcases h with rfl | ⟨c, items, ho, hmembers⟩
    · exact fun m hm => by cases hm
    · cases ho
      exact hmembers
  | restart c' => trivial

theorem sound_registered {job : Job} (h : job.Sound st c) : (registered c job).Sound st o := by
  cases job with
  | runCampaign b snapshot =>
    unfold registered
    dsimp only
    split_ifs
    · trivial
    · exact ⟨h, fun prep hprep => by cases hprep⟩
  | _ => exact h

theorem sound_answersFound (hkeys : GridKeys st) (hrows : ∀ r ∈ st.results, st.Placed r.unit)
    (settled : Bool) (h : (OpPc.inspect c settled).Sound st o) :
    (if settled then OpPc.check (acceptUnits st c o.items)
      else .isExecuting c (acceptUnits st c o.items)).Sound st o := by
  have hmembers := members_acceptUnits hkeys hrows c o.items
  cases settled with
  | false => exact hmembers
  | true =>
    cases o with
    | retryUnits c' items =>
      obtain rfl : c' = c := h c' items rfl
      exact .inr ⟨c', items, rfl, hmembers⟩
    | _ => exact .inl rfl

/-- A run is prepared with its campaign and its suite, and with cases of the suite. -/
theorem sound_prepareRun {run : EvalRun} {name : String}
    (hrun : run.campaignId = c ∧ run.key ∈ (prepareRun st run name).1.runs.map EvalRun.key) :
    (prepareRun st run name).2.Sound (prepareRun st run name).1 c := by
  have hsame : (prepareRun st run name).2.run.key = run.key := by
    unfold prepareRun resolveJudgeModel
    split_ifs <;> rfl
  obtain ⟨-, hcampaign, -⟩ : (prepareRun st run name).2.run.id = run.id ∧
      (prepareRun st run name).2.run.campaignId = run.campaignId ∧
      (prepareRun st run name).2.run.suiteId = run.suiteId := by
    simpa [EvalRun.key] using hsame
  exact ⟨hcampaign.trans hrun.1, hsame ▸ hrun.2, casesOf_listEnabledCases _ _⟩

/-- **Planning.** What an operation has planned stays in its campaign. -/
theorem sound_opStep (hkeys : GridKeys st) (hrows : ∀ r ∈ st.results, st.Placed r.unit)
    (hpc : pc.Sound st o)
    (h : opStep st executing o pc choice = some (st', executing', pc')) : pc'.Sound st' o := by
  have hcases := opStep_cases h
  -- what the next point carries was placed before the step, and the step only adds
  have hgrow := hcases.gridCall.growth
  cases hcases with
  | quit => trivial
  | admitted c status => exact sound_admission status hpc
  | nullsFound => exact .inl rfl
  | answersFound c settled => exact sound_answersFound hkeys hrows settled hpc
  | passed units => exact sound_passed hpc
  | selected => trivial
  | created b snapshot c hc =>
    subst hc
    have hmembers : (st.createCampaign b.modelIds).1.Members (st.createCampaign b.modelIds).2
        b.modelIds := by
      intro m hm
      refine List.mem_append_right _ (List.mem_map.mpr ⟨m, List.mem_dedup.mpr hm, rfl⟩)
    split_ifs
    · exact ⟨hmembers, fun prep hprep => by cases hprep⟩
    · exact hmembers
  | reopened c units rejoin job st' hreopen hjob =>
    rcases hjob with rfl | rfl
    · trivial
    · exact hgrow.members_of hpc
  | joined c units => exact hpc
  | registered c job => exact sound_registered hpc
  | runCreated c b snapshot suite suites prepared =>
    refine ⟨fun run hrun => ?_, hgrow.members_of hpc.1, hgrow.prepared hpc.2⟩
    obtain rfl := List.mem_singleton.mp hrun
    exact ⟨rfl, List.mem_map_of_mem (List.mem_append_right _ (List.mem_singleton.mpr rfl))⟩
  | runsCreated c b snapshot prepared =>
    split_ifs
    · exact ⟨hpc.2, hpc.1⟩
    · exact ⟨hpc.2, hpc.1⟩
  | canceled => exact ⟨hpc.2, hpc.1⟩
  | prepared c b snapshot run suites prepared name =>
    obtain ⟨hrun, hmembers, hprepared⟩ := hpc
    refine ⟨hgrow.members_of hmembers, fun prep hprep => ?_⟩
    rcases List.mem_append.mp hprep with hprep | hprep
    · exact hgrow.prepared hprepared prep hprep
    · obtain rfl := List.mem_singleton.mp hprep
      exact sound_prepareRun (hgrow.runsOf hrun run List.mem_cons_self)
  | settledEmpty => trivial
  | gateCanceled => exact sound_batchCells hpc.1 hpc.2
  | gateFailed => trivial
  | gatePassed => exact sound_gatePassed hpc h
  | juryStored c single juries prep left prepared feed =>
    exact ⟨hgrow.prepared hpc.1, hgrow.members_of hpc.2⟩
  | juriesStored => exact sound_batchCells hpc.1 hpc.2
  | runFailed => trivial
  | runsFailed => split_ifs <;> trivial
  | answersListed | resumeListed | nullsListed =>
    refine sound_listRuns ?_ h
    exact hpc
  | nullsRead | nullsGone | nullsPlanned => exact sound_readNulls hkeys hrows hpc.1 hpc.2 h
  | goneFinished => exact ⟨hgrow.runsOf hpc.1, hgrow.cells hpc.2⟩
  | membersListed => exact sound_listMembers hpc h
  | membersProbed c runs members reachable =>
    exact ⟨hpc.1, fun m hm => hpc.2 m (List.mem_of_mem_filter hm), fun cell hcell => by cases hcell⟩
  | resultsRead c run runs members cells =>
    obtain ⟨hruns, hmembers, hcells⟩ := hpc
    refine ⟨fun r hr => hruns r (List.mem_cons_of_mem _ hr), hmembers, fun cell hcell => ?_⟩
    rcases List.mem_append.mp hcell with hcell | hcell
    · exact hcells cell hcell
    · refine sound_resumeCells _ (fun r hr => ?_) hmembers cell hcell
      obtain rfl := List.mem_singleton.mp hr
      exact hruns r List.mem_cons_self
  | nothingOwed => trivial
  | resultsPlanned => exact hpc.2.2
  | runsReopened => exact hgrow.cells hpc
  | raceLost => trivial
  | launched => exact hpc
  | executed => exact hgrow.cells hpc
  | execReturned => exact hpc
  | verdict => trivial
  | unsettled c registered | updated c registered => cases registered <;> trivial
  | unregistered => split_ifs <;> trivial

theorem sound_begin (st : Store) (o : Operation) : o.begin.Sound st o := by
  cases o with
  | createEval | runBatch => exact .inl rfl
  | retryFailed | restart =>
    intro c items ho
    cases ho
  | retryUnits =>
    intro c items ho
    cases ho
    rfl

end OpSound

end HubScope
