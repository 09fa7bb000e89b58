import HubScope.Evaluator.Units

/-!
# The result rows of a unit along an execution

An execution changes the result grid in three ways: it clears a unit's rows when a retry
takes the unit up, it writes a completed case's row, and it stamps the cases it gives up. The
rows of a unit are therefore the ones it had before, or what the driver's clearing leaves of
them once the unit was taken up, followed by the rows the execution wrote.

## Main definitions

* `Store.unitRows` — the result rows of a unit
* `Driver.kept` — what a driver leaves of a unit's rows when it takes the unit up

## Main results

* `unitRows_of_reach` — the rows of a unit that is planned at most once
-/

set_option autoImplicit false

namespace HubScope

variable {env : Env} {plan : Plan} {st st' : Store} {m m' : Shared} {s s' : State} {u : UnitKey}

/-- The result rows of a unit. -/
def Store.unitRows (st : Store) (u : UnitKey) : List EvalResult := st.results.filter (·.unit = u)

/-- What a driver leaves of a unit's rows when it takes the unit up. -/
def Driver.kept (d : Driver) (rows : List EvalResult) : List EvalResult :=
  match d with
  | .evalModel => rows
  | .retryModel => rows.filter (·.score.isSome)
  | .retryModelAny => []

theorem length_unitRows (st : Store) (u : UnitKey) : (st.unitRows u).length = st.rowCount u := by
  rw [Store.unitRows, Store.rowCount, List.countP_eq_length_filter]

/-! ### Store calls -/

theorem unitRows_deleteNullScoreResult (st : Store) (v u : UnitKey) :
    (st.deleteNullScoreResult v).unitRows u =
      if v = u then (st.unitRows u).filter (·.score.isSome) else st.unitRows u := by
  unfold Store.deleteNullScoreResult Store.unitRows
  rw [List.filter_filter]
  split_ifs with h
  · subst h
    rw [List.filter_filter]
    refine List.filter_congr fun r _ => ?_
    by_cases hu : r.unit = v
    · cases hscore : r.score <;> simp [hu]
    · simp [hu]
  · refine List.filter_congr fun r _ => ?_
    by_cases hu : r.unit = u
    · subst hu
      simp [Ne.symm h]
    · simp [hu]

theorem unitRows_deleteUnitResult (st : Store) (v u : UnitKey) :
    (st.deleteUnitResult v).unitRows u = if v = u then [] else st.unitRows u := by
  unfold Store.deleteUnitResult Store.unitRows
  rw [List.filter_filter]
  split_ifs with h
  · subst h
    rw [List.filter_eq_nil_iff]
    intro r _
    simp
  · refine List.filter_congr fun r _ => ?_
    by_cases hu : r.unit = u
    · subst hu
      simp [Ne.symm h]
    · simp [hu]

theorem unitRows_createEvalJudgeScore (st : Store) (row : EvalJudgeScore) (u : UnitKey) :
    (st.createEvalJudgeScore row).unitRows u = st.unitRows u := by
  obtain ⟨rows, heq⟩ := st.createEvalJudgeScore_eq row
  rw [heq]
  rfl

theorem unitRows_createEvalResult (st : Store) (r : EvalResult) (u : UnitKey) :
    (st.createEvalResult r).unitRows u = st.unitRows u ++ if r.unit = u then [r] else [] := by
  unfold Store.createEvalResult Store.unitRows
  rw [List.filter_append]
  split_ifs with h <;> simp [h]

theorem unitRows_createEvalResultsBatch (st : Store) (rs : List EvalResult) (u : UnitKey) :
    (st.createEvalResultsBatch rs).unitRows u = st.unitRows u ++ rs.filter (·.unit = u) := by
  unfold Store.createEvalResultsBatch Store.unitRows
  rw [List.filter_append]

theorem length_filter_failedResult (cell : Cell) (modelId : String) (cases : List Case)
    (u : UnitKey) :
    ((cases.map (failedResult cell.run cell.modelDbId modelId)).filter (·.unit = u)).length =
      ({ cell with cases := cases } : Cell).units.count u := by
  rw [← List.countP_eq_length_filter, List.countP_map, List.count, Cell.units, List.countP_map]
  refine List.countP_congr fun c _ => ?_
  rw [Function.comp_apply, Function.comp_apply, decide_eq_true_eq, beq_iff_eq]
  rfl

/-! ### Steps -/

/-- What a step does to the rows of a unit: it takes the unit up and clears what the driver
clears, or it leaves the rows and writes `rs` after them, stamps included. -/
inductive RowStep (d : Driver) (u : UnitKey) (m m' : Shared) (rows rows' : List EvalResult) :
    Prop
  | start : m'.hist.started.count u = m.hist.started.count u + 1 →
      m'.hist.written.count u = m.hist.written.count u → rows' = d.kept rows →
      RowStep d u m m' rows rows'
  | write (rs : List EvalResult) : m'.hist.started.count u = m.hist.started.count u →
      m'.hist.written.count u = m.hist.written.count u + rs.length → rows' = rows ++ rs →
      RowStep d u m m' rows rows'
  | stamp (rs : List EvalResult) : d = .evalModel →
      m'.hist.started.count u = m.hist.started.count u + rs.length →
      m'.hist.written.count u = m.hist.written.count u + rs.length → rows' = rows ++ rs →
      RowStep d u m m' rows rows'

theorem RowStep.quiet {d : Driver} {rows rows' : List EvalResult}
    (hstarted : m'.hist.started = m.hist.started) (hwritten : m'.hist.written = m.hist.written)
    (hrows : rows' = rows) : RowStep d u m m' rows rows' :=
  .write [] (by rw [hstarted]) (by rw [hwritten, List.length_nil, Nat.add_zero])
    (by rw [hrows, List.append_nil])

/-- A step that takes up one unit. -/
theorem RowStep.start_of {d : Driver} {rows rows' : List EvalResult} {v : UnitKey}
    (hrows : rows' = if v = u then d.kept rows else rows) :
    RowStep d u m (m.startUnits [v]) rows rows' := by
  by_cases hv : v = u
  · rw [if_pos hv] at hrows
    exact .start (by simp [Shared.startUnits, hv]) rfl hrows
  · rw [if_neg hv] at hrows
    exact .write [] (by simp [Shared.startUnits, hv]) rfl (by rw [hrows, List.append_nil])

/-- A step that writes one row. -/
theorem RowStep.write_of {d : Driver} {rows rows' : List EvalResult} {r : EvalResult}
    (hrows : rows' = rows ++ if r.unit = u then [r] else []) :
    RowStep d u m (m.writeUnits [r.unit]) rows rows' := by
  by_cases hu : r.unit = u
  · rw [if_pos hu] at hrows
    exact .write [r] rfl (by simp [Shared.writeUnits, hu]) hrows
  · rw [if_neg hu] at hrows
    exact .write [] rfl (by simp [Shared.writeUnits, hu]) hrows

/-- Only a batch stamps cases. -/
def ExamPc.stampsOnly (d : Driver) : ExamPc → Prop
  | .stamp _ _ _ _ => d = .evalModel
  | _ => True

theorem stampsOnly_sampleDone (k : SampleCursor) :
    (sampleDone env plan k).stampsOnly plan.path.driver :=
  sampleDone_rule k (fun _ => trivial) fun _ =>
    caseDone_rule k (fun hdriver => hdriver) fun _ _ => trivial

theorem stampsOnly_of_reach (h : Reached env plan s) :
    ∀ pc ∈ s.exam, pc.stampsOnly plan.path.driver := by
  refine (workers_of_reach (R := fun _ => True) ?_ trivial ?_ (by simp) ?_ ?_ h).1
  · trivial
  · intro st m pc st' m' pc' _ he
    cases he with
    | stampAll cell n modelId hdriver => exact hdriver
    | settled | wrote | offeredAll | dropped => exact stampsOnly_sampleDone _
    | recorded => exact routeSample_rule _ _ _ (fun _ => trivial) fun _ => trivial
    | _ => trivial
  · exact fun _ _ => trivial
  · exact fun _ _ _ _ => ⟨trivial, trivial⟩

theorem ExamStep.rows {pc pc' : ExamPc} (h : ExamStep env plan st m pc st' m' pc')
    (hstamp : pc.stampsOnly plan.path.driver) (u : UnitKey) :
    RowStep plan.path.driver u m m' (st.unitRows u) (st'.unitRows u) := by
  cases h with
  | begin l c rest hdriver hrest =>
    refine .start_of ?_
    rw [hdriver, Driver.kept, ite_self]
  | clearNull l c rest hdriver hrest hcan =>
    refine .start_of ?_
    rw [hdriver, unitRows_deleteNullScoreResult]
    rfl
  | clearAny l c rest hdriver hrest hcan =>
    refine .start_of ?_
    rw [hdriver, unitRows_deleteUnitResult]
    rfl
  | wrote k agg => exact .write_of (r := caseResult k.unit agg) (unitRows_createEvalResult _ _ _)
  -- one null row for each case that is given up
  | stamped cell modelId cases answered =>
    have hlength := length_filter_failedResult cell modelId cases u
    refine .stamp _ hstamp ?_ ?_ (unitRows_createEvalResultsBatch _ _ _)
    · rw [hlength]
      simp [Shared.startUnits, Shared.writeUnits]
    · rw [hlength]
      simp [Shared.startUnits, Shared.writeUnits]
  | reported | reportedLast =>
    exact .quiet (by rw [reportCell_hist]; rfl) (by rw [reportCell_hist]; rfl) rfl
  | finished r =>
    refine .quiet rfl rfl ?_
    split <;> rfl
  | _ => exact .quiet rfl rfl rfl

theorem JudgeStep.rows {pc pc' : JudgePc} (h : JudgeStep env plan st m pc st' m' pc')
    (u : UnitKey) : RowStep plan.path.driver u m m' (st.unitRows u) (st'.unitRows u) := by
  cases h with
  | recorded j o => exact .quiet rfl rfl (unitRows_createEvalJudgeScore _ _ _)
  | wrote j agg => exact .write_of (r := caseResult j.unit agg) (unitRows_createEvalResult _ _ _)
  | finished j =>
    refine .quiet rfl rfl ?_
    split <;> rfl
  | _ => exact .quiet rfl rfl rfl

theorem MainStep.rows {examDone judgeDone : Bool} {pc pc' : MainPc}
    (h : MainStep plan st m examDone judgeDone pc st' m' pc') (u : UnitKey) :
    RowStep plan.path.driver u m m' (st.unitRows u) (st'.unitRows u) := by
  cases h with
  | flushRun r rs _ hst =>
    subst hst
    refine .quiet rfl rfl ?_
    split <;> rfl
  | tailRun r rs =>
    refine .quiet rfl rfl ?_
    split <;> rfl
  | _ => exact .quiet rfl rfl rfl

/-- What a step does to the rows of a unit. -/
theorem Step.rows {a : Label} (h : Step env plan s a s') (hreached : Reached env plan s)
    (u : UnitKey) :
    RowStep plan.path.driver u s.mem s'.mem (s.store.unitRows u) (s'.store.unitRows u) := by
  cases h with
  | main hm => exact hm.rows u
  | exam hi he => exact he.rows (stampsOnly_of_reach hreached _ (List.mem_of_getElem? hi)) u
  | judge hj he => exact he.rows u
  | _ => exact .quiet rfl rfl rfl

/-! ### Runs -/

/-- The rows of a unit are the ones it had, or what is kept of them once it was taken up,
and the rows written since. -/
def RowsOf (d : Driver) (rows₀ : List EvalResult) (u : UnitKey) (s : State) : Prop :=
  ∃ rs : List EvalResult, rs.length = s.mem.hist.written.count u ∧
    s.store.unitRows u = (if s.mem.hist.started.count u = 0 then rows₀ else d.kept rows₀) ++ rs

theorem rowsOf_step {d : Driver} {rows₀ : List EvalResult} (hs : RowsOf d rows₀ u s)
    (hwritten : s.mem.hist.written.count u ≤ s.mem.hist.started.count u)
    (honce : s'.mem.hist.started.count u ≤ 1)
    (h : RowStep d u s.mem s'.mem (s.store.unitRows u) (s'.store.unitRows u)) :
    RowsOf d rows₀ u s' := by
  obtain ⟨rs, hlength, hrows⟩ := hs
  cases h with
  | start hstarted hwrote heq =>
    -- taken up for the first time, so nothing was written before
    have hzero : s.mem.hist.started.count u = 0 := by omega
    obtain rfl : rs = [] := List.eq_nil_of_length_eq_zero (by omega)
    refine ⟨[], by rw [hwrote, ← hlength], ?_⟩
    rw [heq, hrows, if_pos hzero, if_neg (by omega), List.append_nil, List.append_nil]
  | write rs' hstarted hwrote heq =>
    refine ⟨rs ++ rs', by rw [List.length_append, hwrote, hlength], ?_⟩
    rw [heq, hrows, hstarted, List.append_assoc]
  | stamp rs' hd hstarted hwrote heq =>
    refine ⟨rs ++ rs', by rw [List.length_append, hwrote, hlength], ?_⟩
    rw [heq, hrows, List.append_assoc, hd]
    simp only [Driver.kept, ite_self]

/-- **Rows of a unit.** An execution that plans a unit at most once leaves it the rows it
had, or what the driver keeps of them once it took the unit up, and the rows it wrote. -/
theorem unitRows_of_reach {guard : State → Label → Prop} (hplanned : plan.planned u ≤ 1)
    (h : Transition.Reach (step env plan) guard (plan.start env st) s)
    (hok : s.mem.panicked = false) : RowsOf plan.path.driver (st.unitRows u) u s := by
  induction h with
  | refl => exact ⟨[], rfl, (List.append_nil _).symm⟩
  | @tail t v a hrun hg hstep ih =>
    obtain ⟨hlive, hcases⟩ := step_cases hstep
    have hreached := reached_of_reach hrun
    have hflight := flight_of_reach hplanned hreached hlive
    have htodo := todo_of_reach u (hreached.step hstep) hok
    exact rowsOf_step (ih hlive) (by omega) (by omega) (hcases.rows hreached u)

end HubScope
