import HubScope.Server.Overlap

/-!
# Scored results stay

Null-score retries delete null rows only. The cell job of targeted retries deletes a unit's row
whatever its score, and resumes run through the same job: what keeps a resume from deleting a
scored row is that it planned only units that had none. It plans before it reopens the campaign,
so a retry that reopens the campaign in between, scores the unit and settles the campaign again
leaves the plan out of date, and the resume deletes the score.

## Main definitions

* `Immutable` — a step keeps every scored row, except of units its own request names
* `OpPc.owes` — a resume planned the unit and has not taken it up
* `UpToDate` — no scored row is stored for a unit that a resume owes

## Main results

* `immutable_of_reach` — every step of an up-to-date run keeps the scored rows
-/

set_option autoImplicit false

namespace HubScope

variable {env : Env} {plan : Plan} {st st' : Store} {m m' : Shared} {s s' : State} {u : UnitKey}
  {r : EvalResult} {o : Operation} {pc pc' : OpPc} {choice : OpChoice} {w w' : World}

/-! ### What is promised -/

/-- The step belongs to an operation whose request names the unit. -/
def World.names (w : World) (u : UnitKey) : WorldLabel → Prop
  | .op i _ => ∃ op ∈ w.ops[i]?, u.retryUnit ∈ op.operation.items
  | .arrive _ | .cancelCampaign _ => False

/-- The step from `w` to `w'` deletes no scored row, except of units its own request names. -/
def Immutable (w : World) (a : WorldLabel) (w' : World) : Prop :=
  ∀ r : EvalResult, r.score.isSome = true →
    w.store.results.count r ≤ w'.store.results.count r ∨ w.names r.unit a

/-! ### What a resume relies on -/

/-- The operation is a resume that planned the unit and has not taken it up. -/
def OpPc.owes (u : UnitKey) : OpPc → Prop
  | .readResults _ _ _ cells | .reopenRuns _ cells => u ∈ cells.flatMap Cell.units
  | .launch _ plan => plan.path = .resumeCampaign ∧ u ∈ plan.cells.flatMap Cell.units
  | .executing _ _ _ plan e => plan.path = .resumeCampaign ∧ 0 < (todoLedger plan u).held e
  | _ => False

instance (u : UnitKey) (pc : OpPc) : Decidable (pc.owes u) := by
  cases pc <;> unfold OpPc.owes <;> infer_instance

/-- The row a worker stores with its next step; stamps apart, which have no score. -/
def Exec.stores (e : Exec) : Label → Option EvalResult
  | .exam i _ =>
    match e.exam[i]? with
    | some (.write k agg) => some (caseResult k.unit agg)
    | _ => none
  | .judge j _ =>
    match e.judge[j]? with
    | some (.write j agg) => some (caseResult j.unit agg)
    | _ => none
  | _ => none

/-- The row an operation stores with a step of its execution. -/
def OpPc.stores (pc : OpPc) : OpChoice → Option EvalResult
  | .exec a => pc.execution.bind fun (_, _, e) => e.stores a
  | _ => none

/-- The run an operation reads for a resume with its next step. -/
def OpPc.reads : OpPc → Option ℕ
  | .readResults _ (run :: _) _ _ => some run.id
  | _ => none

/-- In the run, a unit with a scored row has a score in its last row. -/
def Store.LastScored (st : Store) (runId : ℕ) : Prop :=
  ∀ r ∈ st.results, r.runId = runId → r.score.isSome = true →
    (lastScore (st.listEvalResults runId) r.modelDbId r.caseId).join.isSome = true

instance (st : Store) (runId : ℕ) : Decidable (st.LastScored runId) :=
  inferInstanceAs (Decidable (∀ r ∈ st.results, r.runId = runId → r.score.isSome = true →
    (lastScore (st.listEvalResults runId) r.modelDbId r.caseId).join.isSome = true))

/-- No scored row is stored for a unit that a resume owes, and a resume reads no run in which a
unit has a null row after a scored one. -/
def UpToDate (w : World) : WorldLabel → Prop
  | .op i choice => ∀ op ∈ w.ops[i]?,
      (∀ r ∈ op.pc.stores choice, r.score.isSome = true → ∀ op' ∈ w.ops, ¬ op'.pc.owes r.unit) ∧
        ∀ runId ∈ op.pc.reads, w.store.LastScored runId
  | .arrive _ | .cancelCampaign _ => True

instance (w : World) (a : WorldLabel) : Decidable (UpToDate w a) :=
  match a with
  | .op i choice => inferInstanceAs (Decidable (∀ op ∈ w.ops[i]?,
      (∀ r ∈ op.pc.stores choice, r.score.isSome = true → ∀ op' ∈ w.ops, ¬ op'.pc.owes r.unit) ∧
        ∀ runId ∈ op.pc.reads, w.store.LastScored runId))
  | .arrive _ | .cancelCampaign _ => inferInstanceAs (Decidable True)

/-! ### Rows an execution deletes and stores -/

theorem count_deleteNullScoreResult (st : Store) (u : UnitKey) (hscore : r.score.isSome = true) :
    (st.deleteNullScoreResult u).results.count r = st.results.count r := by
  refine List.count_filter ?_
  have hne : r.score ≠ none := Option.isSome_iff_ne_none.mp hscore
  simp [hne]

theorem count_deleteUnitResult (st : Store) (hu : r.unit ≠ u) :
    (st.deleteUnitResult u).results.count r = st.results.count r :=
  List.count_filter (by simpa using hu)

/-- Only the cell job of targeted retries and resumes deletes a scored row, of the unit it takes
up. -/
theorem ExamStep.count_le {pc pc' : ExamPc} (h : ExamStep env plan st m pc st' m' pc')
    (hscore : r.score.isSome = true) :
    st.results.count r ≤ st'.results.count r ∨
      plan.path.driver = .retryModelAny ∧ r.unit ∈ pc.todo := by
  cases h with
  | clearNull l c rest hdriver hrest hcan =>
    exact .inl (count_deleteNullScoreResult st _ hscore).ge
  | clearAny l c rest hdriver hrest hcan =>
    -- the only step that deletes a scored row, of the unit it takes up
    by_cases hu : r.unit = ⟨l.cell.run.id, l.cell.modelDbId, c.id⟩
    · refine .inr ⟨hdriver, ?_⟩
      rw [ExamPc.todo, todo_cons hrest, hu]
      exact List.mem_cons_self ..
    · exact .inl (count_deleteUnitResult st hu).ge
  | wrote k agg =>
    refine .inl ?_
    change _ ≤ (st.results ++ _).count r
    rw [List.count_append]
    exact Nat.le_add_right _ _
  | stamped cell modelId cases answered =>
    refine .inl ?_
    change _ ≤ (st.results ++ _).count r
    rw [List.count_append]
    exact Nat.le_add_right _ _
  | finished r' =>
    refine .inl (le_of_eq ?_)
    split <;> rfl
  | _ => exact .inl le_rfl

theorem JudgeStep.count_le {pc pc' : JudgePc} (h : JudgeStep env plan st m pc st' m' pc') :
    st.results.count r ≤ st'.results.count r := by
  cases h with
  | recorded j o =>
    obtain ⟨rows, heq⟩ := st.createEvalJudgeScore_eq (judgeScoreRow j o)
    rw [heq]
  | wrote j agg =>
    change _ ≤ (st.results ++ _).count r
    rw [List.count_append]
    exact Nat.le_add_right _ _
  | finished j => split <;> exact le_rfl
  | _ => exact le_rfl

theorem MainStep.results_eq {examDone judgeDone : Bool} {pc pc' : MainPc}
    (h : MainStep plan st m examDone judgeDone pc st' m' pc') : st'.results = st.results := by
  cases h with
  | flushRun r rs _ hst =>
    subst hst
    split <;> rfl
  | tailRun r rs => split <;> rfl
  | _ => rfl

theorem Step.count_le {a : Label} (h : Step env plan s a s') (hscore : r.score.isSome = true) :
    s.store.results.count r ≤ s'.store.results.count r ∨
      plan.path.driver = .retryModelAny ∧ 0 < (todoLedger plan r.unit).held s.toExec := by
  cases h with
  | main hm => exact .inl (by rw [hm.results_eq])
  | exam hi he =>
    refine (he.count_le hscore).imp_right fun ⟨hdriver, htodo⟩ => ⟨hdriver, ?_⟩
    exact (List.count_pos_iff.mpr htodo).trans_le
      (Ledger.exam_le_held (L := todoLedger plan r.unit) hi)
  | judge hj he => exact .inl he.count_le
  | _ => exact .inl le_rfl

theorem ExamStep.mem_results {pc pc' : ExamPc} (h : ExamStep env plan st m pc st' m' pc')
    (hr : r ∈ st'.results) (hscore : r.score.isSome = true) :
    r ∈ st.results ∨ ∃ k agg, pc = .write k agg ∧ r = caseResult k.unit agg := by
  cases h with
  | clearNull | clearAny => exact .inl (List.mem_of_mem_filter hr)
  | wrote k agg =>
    refine (List.mem_append.mp hr).imp_right fun hnew => ⟨k, agg, rfl, ?_⟩
    exact List.mem_singleton.mp hnew
  | stamped cell modelId cases answered =>
    refine (List.mem_append.mp hr).imp_right fun hnew => ?_
    obtain ⟨c, -, rfl⟩ := List.mem_map.mp hnew
    cases hscore
  | finished r' =>
    refine .inl ?_
    split at hr <;> exact hr
  | _ => exact .inl hr

theorem JudgeStep.mem_results {pc pc' : JudgePc} (h : JudgeStep env plan st m pc st' m' pc')
    (hr : r ∈ st'.results) :
    r ∈ st.results ∨ ∃ j agg, pc = .write j agg ∧ r = caseResult j.unit agg := by
  cases h with
  | recorded j o =>
    obtain ⟨rows, heq⟩ := st.createEvalJudgeScore_eq (judgeScoreRow j o)
    rw [heq] at hr
    exact .inl hr
  | wrote j agg =>
    refine (List.mem_append.mp hr).imp_right fun hnew => ⟨j, agg, rfl, ?_⟩
    exact List.mem_singleton.mp hnew
  | finished j =>
    refine .inl ?_
    split at hr <;> exact hr
  | _ => exact .inl hr

/-- A scored row is an old one or the one a worker was about to store. -/
theorem Step.mem_results {a : Label} (h : Step env plan s a s') (hr : r ∈ s'.store.results)
    (hscore : r.score.isSome = true) : r ∈ s.store.results ∨ s.toExec.stores a = some r := by
  cases h with
  | main hm =>
    rw [hm.results_eq] at hr
    exact .inl hr
  | exam hi he =>
    refine (he.mem_results hr hscore).imp_right ?_
    rintro ⟨k, agg, rfl, rfl⟩
    simp only [Exec.stores, hi]
  | judge hj he =>
    refine (he.mem_results hr).imp_right ?_
    rintro ⟨k, agg, rfl, rfl⟩
    simp only [Exec.stores, hj]
  | _ => exact .inl hr

/-! ### Units to be taken up -/

theorem ExamStep.lost_prefix {pc pc' : ExamPc} (h : ExamStep env plan st m pc st' m' pc') :
    m.hist.lost <+: m'.hist.lost := by
  cases h with
  | skip | cut => exact List.prefix_append _ _
  | reported | reportedLast =>
    rw [reportCell_hist]
    exact List.prefix_refl _
  | _ => exact List.prefix_refl _

theorem Step.lost_prefix {a : Label} (h : Step env plan s a s') :
    s.mem.hist.lost <+: s'.mem.hist.lost := by
  cases h with
  | main hm =>
    obtain ⟨-, cells, -, hlost⟩ := hm.units_eq
    rw [hlost]
    exact List.prefix_append _ _
  | exam hi he => exact he.lost_prefix
  | judge hj he => cases he <;> exact List.prefix_refl _
  | _ => exact List.prefix_refl _

/-- An execution plans no unit anew. -/
theorem todo_step {a : Label} (h : Step env plan s a s') (hok : s'.mem.panicked = false) :
    (todoLedger plan u).held s'.toExec ≤ (todoLedger plan u).held s.toExec := by
  have hvalue := Ledger.value_step_eq (todoLedger_law u) h hok
  have hstarted : s.mem.hist.started.count u ≤ s'.mem.hist.started.count u := by
    rw [h.started_eq, List.count_append]
    exact Nat.le_add_right _ _
  have hlost : s.mem.hist.lost.count u ≤ s'.mem.hist.lost.count u :=
    h.lost_prefix.sublist.count_le u
  simp only [Ledger.value, todoLedger] at hvalue ⊢
  omega

theorem todo_startExec (env : Env) (plan : Plan) (u : UnitKey) :
    (todoLedger plan u).held (plan.startExec env) = plan.planned u := by
  have hexam : Pool.total (todoLedger plan u).exam (plan.startExec env).exam = 0 :=
    Pool.total_replicate _ rfl
  have hjudge : Pool.total (todoLedger plan u).judge (plan.startExec env).judge = 0 :=
    Pool.total_replicate _ rfl
  rw [Ledger.held, hexam, hjudge]
  rfl

/-- A unit that a resume plans from the results of a run has no score in its last row. -/
theorem lastScore_of_mem_resumeCells {run : EvalRun} {results : List EvalResult}
    {cases : List Case} {members : List ℕ}
    (hu : u ∈ (resumeCells run results cases members).flatMap Cell.units) :
    u.runId = run.id ∧ (lastScore results u.modelDbId u.caseId).join = none := by
  obtain ⟨cell, hcell, hu⟩ := List.mem_flatMap.mp hu
  obtain ⟨member, -, rfl⟩ := List.mem_map.mp (List.mem_of_mem_filter hcell)
  obtain ⟨c, hc, rfl⟩ := List.mem_map.mp hu
  have howed := List.of_mem_filter hc
  refine ⟨rfl, ?_⟩
  change (lastScore results member c.id).join = none
  split at howed
  next => cases howed
  next hnot =>
    rw [Option.join_eq_none_iff]
    rcases hlast : lastScore results member c.id with - | (- | q)
    · exact .inl rfl
    · exact .inr rfl
    · exact (hnot q hlast).elim

/-! ### Requested units -/

/-- The units a job was accepted for. -/
def Job.units : Job → List RetryUnit
  | .retryAnsweredUnits units _ => units
  | _ => []

/-- A targeted retry asks only the given units. -/
def Plan.AsksOnly (plan : Plan) (items : List RetryUnit) : Prop :=
  ∀ settled, plan.path = .retryAnsweredUnits settled →
    ∀ u ∈ plan.cells.flatMap Cell.units, u.retryUnit ∈ items

/-- The operation goes on with requested units only. -/
def OpPc.Requested (items : List RetryUnit) : OpPc → Prop
  | .check units | .reopen _ units | .isExecuting _ units => units ⊆ items
  | .register _ job | .listRuns _ job => job.units ⊆ items
  | .launch _ plan | .executing _ _ _ plan _ => plan.AsksOnly items
  | _ => True

theorem acceptUnits_subset (st : Store) (c : ℕ) (items : List RetryUnit) :
    acceptUnits st c items ⊆ items := by
  intro u hu
  exact Grouping.mem_firstSeen.mp (List.mem_of_mem_filter hu)

theorem asksOnly_planAnsweredUnits (st : Store) (c : ℕ) (units : List RetryUnit)
    (settled : Bool) : (planAnsweredUnits st c units settled).AsksOnly units := by
  intro settled' _ u hu
  have hle := planned_planAnsweredUnits_le st c units settled u
  exact List.count_pos_iff.mp ((List.count_pos_iff.mpr hu).trans_le hle)

theorem OpStep.requested (h : OpStep st o pc choice st' pc') (hpc : pc.Requested o.items) :
    pc'.Requested o.items := by
  cases h with
  | admitted c status =>
    cases o with
    | createEval | runBatch => trivial
    | retryFailed | retryUnits | restart =>
      unfold admission
      dsimp only
      split_ifs <;> first | trivial | exact List.nil_subset _
  | nullsFound => exact List.nil_subset _
  | answersFound c settled => split_ifs <;> exact acceptUnits_subset _ _ _
  | passed units =>
    cases o with
    | createEval | runBatch => trivial
    | retryFailed | retryUnits => exact hpc
    | restart => exact List.nil_subset _
  | created => split_ifs <;> first | trivial | exact List.nil_subset _
  -- the job of a reopened campaign asks for nothing yet, or for the units that were accepted
  | reopened c units rejoin job st' _ hjob =>
    rcases hjob with rfl | rfl
    · exact List.nil_subset _
    · exact hpc
  | joined => exact hpc
  | registered c job =>
    cases job with
    | runCampaign b snapshot =>
      unfold HubScope.registered
      dsimp only
      split_ifs <;> trivial
    | runEval => trivial
    | _ => exact hpc
  | runsCreated => split_ifs <;> first | trivial | exact List.nil_subset _
  -- planning the answered units asks for no unit outside those accepted
  | answersListed c units settled =>
    intro settled' hpath u hu
    exact hpc (asksOnly_planAnsweredUnits st c units settled settled' hpath u hu)
  | gateCanceled | juriesStored | nullsPlanned | runsReopened =>
    intro settled hpath
    cases hpath
  | launched | executed | execReturned => exact hpc
  | runsFailed | unregistered => split_ifs <;> trivial
  | unsettled c registered | updated c registered => cases registered <;> trivial
  | _ => trivial

theorem requested_of_world {guard : World → WorldLabel → Prop}
    (h : Transition.Reach worldStep guard (.start st) w) :
    ∀ op ∈ w.ops, op.pc.Requested op.operation.items := by
  refine ops_of_world (Q := fun o pc => pc.Requested o.items) (fun o => ?_)
    (fun _ _ _ _ _ _ hpc hcases => hcases.requested hpc) h
  cases o with
  | createEval | runBatch => exact List.nil_subset _
  | _ => trivial

/-! ### Units a resume owes -/

/-- An operation owes what it owed before, or what it just read of a run. -/
theorem OpStep.owes (h : OpStep st o pc choice st' pc') (hlive : pc'.crashed = false)
    (howes : pc'.owes u) : pc.owes u ∨ st' = st ∧ ∃ c run runs members cells,
      pc = .readResults c (run :: runs) members cells ∧
        u ∈ (resumeCells run (st.listEvalResults run.id) (st.listEnabledCases run.suiteId)
          members).flatMap Cell.units := by
  cases h with
  | resultsRead c run runs members cells =>
    rw [OpPc.owes, List.flatMap_append, List.mem_append] at howes
    exact howes.imp_right fun hnew => ⟨rfl, c, run, runs, members, cells, rfl, hnew⟩
  | resultsPlanned => exact .inl howes
  | runsReopened c cells => exact .inl howes.2
  | launched single plan env =>
    refine .inl ⟨howes.1, ?_⟩
    have hheld := howes.2
    rw [todo_startExec] at hheld
    exact List.count_pos_iff.mp hheld
  -- what the execution owes after a step it owed before
  | executed single registered env plan e a s hs =>
    exact .inl ⟨howes.1, howes.2.trans_le (todo_step (step_cases hs).2 hlive)⟩
  | execReturned => exact .inl howes
  | membersProbed c runs members reachable => cases howes
  | gateCanceled | juriesStored | nullsPlanned | answersListed => cases howes.1
  | admitted c status =>
    exfalso
    cases o with
    | createEval | runBatch => exact howes
    | retryFailed | retryUnits | restart =>
      unfold admission at howes
      dsimp only at howes
      split_ifs at howes <;> exact howes
  | passed units => cases o <;> exact howes.elim
  | registered c job =>
    exfalso
    cases job with
    | runCampaign b snapshot =>
      unfold HubScope.registered at howes
      dsimp only at howes
      split_ifs at howes <;> exact howes
    | _ => exact howes
  | created | answersFound | runsCreated | runsFailed | unregistered =>
    exfalso
    split_ifs at howes <;> exact howes
  | unsettled c registered | updated c registered => cases registered <;> exact howes.elim
  | _ => exact howes.elim

theorem OpStep.mem_results (h : OpStep st o pc choice st' pc') (hr : r ∈ st'.results)
    (hscore : r.score.isSome = true) : r ∈ st.results ∨ pc.stores choice = some r := by
  cases h.advance with
  | idle _ hresults => exact .inl (hresults ▸ hr)
  | kept _ hstore => exact .inl (hstore ▸ hr)
  | launched _ _ _ _ hstore => exact .inl (hstore ▸ hr)
  | executed env plan e a s hchoice hexec hs hstore =>
    rw [hstore] at hr
    refine ((step_cases hs).2.mem_results hr hscore).imp_right fun hstores => ?_
    rw [hchoice, OpPc.stores, hexec]
    exact hstores

theorem OpPc.owes_of_execution {e : Exec} (h : pc.execution = some (env, plan, e))
    (hpath : plan.path = .resumeCampaign) (htodo : 0 < (todoLedger plan u).held e) :
    pc.owes u := by
  cases pc with
  | executing =>
    cases h
    exact ⟨hpath, htodo⟩
  | _ => cases h

theorem OpPc.Requested.asksOnly {items : List RetryUnit} {e : Exec} (h : pc.Requested items)
    (hexec : pc.execution = some (env, plan, e)) : plan.AsksOnly items := by
  cases pc with
  | executing =>
    cases hexec
    exact h
  | _ => cases hexec

/-! ### Runs -/

/-- No unit that a resume owes has a scored row. -/
def OwedUnscored (w : World) : Prop :=
  ∀ op ∈ w.ops, ∀ r ∈ w.store.results, r.score.isSome = true → ¬ op.pc.owes r.unit

variable {a : WorldLabel}

theorem OwedUnscored.step (h : OwedUnscored w) (hcurrent : UpToDate w a)
    (hstep : WorldStep w a w') (hlive : w'.crashed = false) : OwedUnscored w' := by
  cases hstep with
  | arrived o =>
    intro op hop r hr hscore howes
    rcases List.mem_append.mp hop with hop | hop
    · exact h op hop r hr hscore howes
    · rw [List.mem_singleton.mp hop] at howes
      cases o <;> exact howes
  | canceled c => exact h
  | @stepped i op choice st executing pc hi hop =>
    have hcases := opStep_cases hop
    obtain ⟨hstored, hread⟩ := hcurrent op hi
    intro op' hop' r hr hscore howes
    have hold : ∀ op'' ∈ w.ops, ¬ op''.pc.owes r.unit := by
      intro op'' hop''
      rcases hcases.mem_results hr hscore with hr | hr
      · exact h op'' hop'' r hr hscore
      · exact hstored r hr hscore op'' hop''
    rcases List.mem_or_eq_of_mem_set hop' with hop' | rfl
    · exact hold op' hop' howes
    · have hlive' : pc.crashed = false := by
        have hmem : ({ op with pc := pc } : Op) ∈ w.ops.set i { op with pc := pc } :=
          List.mem_set (List.getElem?_eq_some_iff.mp hi).1 _
        exact Bool.eq_false_of_not_eq_true (List.any_eq_false.mp hlive _ hmem)
      rcases hcases.owes hlive' howes with hbefore | ⟨rfl, c, run, runs, members, cells, hpc, hnew⟩
      · exact hold op (List.mem_of_getElem? hi) hbefore
      · -- what was read of the run has no score in the unit's last row
        obtain ⟨hrun, hnone⟩ := lastScore_of_mem_resumeCells hnew
        have hlast := hread run.id (by rw [hpc]; rfl) r hr hrun hscore
        change (lastScore _ r.modelDbId r.caseId).join = none at hnone
        rw [hnone] at hlast
        cases hlast

theorem owedUnscored_of_reach (h : Transition.Reach worldStep UpToDate (.start st) w) :
    w.crashed = false → OwedUnscored w := by
  refine h.invariant (I := fun w => w.crashed = false → OwedUnscored w) ?_ ?_
  · intro _ op hop
    cases hop
  · intro t a t' ht hcurrent hstep hlive
    obtain ⟨hlive', hcases⟩ := worldStep_cases hstep
    exact (ht hlive').step hcurrent hcases hlive

/-- **Scored results stay.** In every run that keeps what its resumes read up to date, a step
deletes no scored row, except a step of a `retry-units` request that names the row's unit. -/
theorem immutable_of_reach (h : Transition.Reach worldStep UpToDate (.start st) w)
    (hstep : worldStep w a = some w') : Immutable w a w' := by
  intro r hscore
  obtain ⟨hlive, hcases⟩ := worldStep_cases hstep
  cases hcases with
  | arrived | canceled => exact .inl le_rfl
  | @stepped i op choice st executing pc hi hop =>
    have hmem := List.mem_of_getElem? hi
    cases (opStep_cases hop).advance with
    | idle _ hresults => exact .inl (by rw [hresults])
    | kept _ hstore => exact .inl (by rw [hstore])
    | launched _ _ _ _ hstore => exact .inl (by rw [hstore])
    | executed env plan e label s hchoice hexec hs hstore =>
      obtain ⟨hok, hsteps⟩ := step_cases hs
      rcases hsteps.count_le hscore with hkeep | ⟨hdriver, htodo⟩
      · exact .inl (by rw [hstore]; exact hkeep)
      · by_cases hr : r ∈ w.store.results
        · cases hpath : plan.path with
          | executePrepared | retryNullScoreCells =>
            rw [hpath] at hdriver
            cases hdriver
          | retryAnsweredUnits settled =>
            -- the execution asks what its request named
            have hplanned := todo_of_reach r.unit (reached_of_world h hmem hexec w.store) hok
            have hasked : r.unit ∈ plan.cells.flatMap Cell.units := by
              refine List.count_pos_iff.mp ?_
              change 0 < plan.planned r.unit
              omega
            have hrequested := (requested_of_world h op hmem).asksOnly hexec
            exact .inr ⟨op, hi, hrequested settled hpath r.unit hasked⟩
          | resumeCampaign =>
            have howes := OpPc.owes_of_execution hexec hpath htodo
            exact absurd howes (owedUnscored_of_reach h hlive op hmem r hr hscore)
        · rw [List.count_eq_zero.mpr hr]
          exact .inl (Nat.zero_le _)

/-! ### A resume that planned too early -/

/-- A settled campaign with one null result of a rule case. -/
def nullStore : Store :=
  { failedStore with
    cases := [ruleCase 1]
    results := [failedResult (soloRun .done) 1 "m1" (ruleCase 1)] }

/-- The same beside a scored result of another case. -/
def mixedStore : Store :=
  { failedStore with
    cases := [ruleCase 1, ruleCase 2]
    results := [failedResult (soloRun .done) 1 "m1" (ruleCase 1),
      { failedResult (soloRun .done) 1 "m1" (ruleCase 2) with score := some 0 }] }

/-- Operation `i` is a restart that has read the results of the one run. -/
def restartReads (i : ℕ) : List WorldLabel :=
  .arrive (.restart 1) :: List.replicate 5 (.op i .go) ++ [.op i (.probed fun _ => true), .op i .go]

/-- It reopens the campaign and begins to execute. -/
def restartReopens (i : ℕ) : List WorldLabel :=
  [.op i .go, .op i .go, .op i (.launched soloEnv)]

/-- Operation `i` retries the failed results of the campaign, up to its execution. -/
def failedRetry (i : ℕ) : List WorldLabel :=
  .arrive (.retryFailed 1) :: List.replicate 8 (.op i .go) ++ [.op i (.launched soloEnv)]

/-- The execution of operation `i` ends after its last row and settles the campaign. -/
def settleLabels (i : ℕ) : List WorldLabel :=
  [.exam 0 .go, .exam 0 .go, .exam 0 .go, .exam 0 .go, .exam 0 .go, .main, .exam 0 .go, .main,
    .judge 0 .go, .judge 0 .go, .main, .main, .main, .main, .main, .main, .main].map
    fun a => .op i (.exec a)

/-- A resume on its own deletes the null row it plans to replace, and nothing else. -/
theorem immutable_of_reach_resume : ∃ w w' : World,
    w.store.results.length = 2 ∧ w'.store.results.map (·.caseId) = [2] ∧
      Immutable w (.op 0 (.exec (.exam 0 .go))) w' := by
  obtain ⟨w, hw, hrows⟩ : ∃ w, Transition.replayWith worldStep UpToDate (.start mixedStore)
      (restartReads 0 ++ restartReopens 0 ++ (takeUpLabels 0).dropLast) = some w ∧
        w.store.results.length = 2 := ⟨_, rfl, rfl⟩
  obtain ⟨w', hw', hrows'⟩ : ∃ w', worldStep w (.op 0 (.exec (.exam 0 .go))) = some w' ∧
      w'.store.results.map (·.caseId) = [2] := by
    cases hw
    exact ⟨_, rfl, rfl⟩
  exact ⟨w, w', hrows, hrows', immutable_of_reach (.of_replayWith hw) hw'⟩

/-- **A score lost to a resume.** A resume that planned a unit while its result was null deletes
the score that a retry of the failed results stored before the resume reopened the campaign. -/
theorem not_immutable_of_reach :
    ¬ ∀ (st : Store) (w w' : World) (a : WorldLabel), st.Valid →
      Transition.Reachable worldStep (.start st) w → worldStep w a = some w' →
        Immutable w a w' := by
  intro h
  -- the restart reads the null, a retry scores the unit, and the restart asks it anew
  obtain ⟨w, hw, hscored, hitems⟩ : ∃ w, Transition.replay worldStep (.start nullStore)
      (restartReads 0 ++ failedRetry 1 ++ takeUpLabels 1 ++ answerLabels 1 ++ settleLabels 1 ++
        restartReopens 0 ++ (takeUpLabels 0).dropLast) = some w ∧
        w.store.results.map (·.score.isSome) = [true] ∧
          w.ops[0]?.map (·.operation.items) = some [] := ⟨_, rfl, rfl, rfl⟩
  obtain ⟨w', hw', hnone⟩ : ∃ w', worldStep w (.op 0 (.exec (.exam 0 .go))) = some w' ∧
      w'.store.results = [] := by
    cases hw
    exact ⟨_, rfl, rfl⟩
  have hvalid : nullStore.Valid := by
    constructor <;> simp [nullStore, failedStore, soloRun, failedResult, ruleCase]
  obtain ⟨r, hr, hscore⟩ := List.map_eq_singleton_iff.mp hscored
  rcases h nullStore w w' _ hvalid (.of_replay hw) hw' r hscore with hcount | ⟨op, hop, hnamed⟩
  · rw [hr, hnone, List.count_singleton_self] at hcount
    cases hcount
  · rw [hop, Option.map_some, Option.some.injEq] at hitems
    rw [hitems] at hnamed
    cases hnamed

end HubScope
