import HubScope.Evaluator.Votes

/-!
# Where the units of an execution are

A unit of the plan is still to be asked, lost to a skip or a cancellation, or taken up. A
unit that was taken up is in flight until its row is stored: with the exam worker that opens
it, behind the pipeline's lock as an open aggregate, or with the worker that writes its row.
When no unit is planned twice, no two cases share an aggregate.

## Main definitions

* `ExamPc.todo`, `Plan.planned` — the units not taken up yet, the units of the plan
* `todoLedger`, `flightLedger` — the two accounts
* `inFlight` — how often a unit is between being taken up and its row

## Main results

* `todo_of_reach`, `flight_of_reach` — every unit of the plan is accounted for
* `notMem_aggs_of_openCase` — an aggregate is opened for a unit that has none
-/

set_option autoImplicit false

namespace HubScope

variable {env : Env} {plan : Plan} {st st' : Store} {m m' : Shared} {s s' : State} {u : UnitKey}

/-! ### Units to be taken up -/

/-- The units of its cell an exam worker has not taken up. -/
def ExamPc.todo : ExamPc → List UnitKey
  | .setup cell => cell.units
  | .stamp cell _ cases _ => ({ cell with cases := cases } : Cell).units
  | .nextCase l => l.todo
  | .openCase k | .call k | .persist k _ | .record k _ _ | .settle k _ | .write k _
  | .enqueue k _ | .offer k _ | .noteOffered k _ => k.inCell.todo
  | .check | .select | .report _ _ | .mark _ | .finish _ | .exited => []

@[simp] theorem todo_caseDone (k : SampleCursor) : (caseDone plan k).todo = k.inCell.todo :=
  caseDone_rule k (fun _ => rfl) fun _ _ => rfl

@[simp] theorem todo_sampleDone (k : SampleCursor) :
    (sampleDone env plan k).todo = k.inCell.todo :=
  sampleDone_rule k (fun _ => rfl) fun _ => todo_caseDone k

@[simp] theorem todo_routeSample (k : SampleCursor) (id : ℕ) (text : String) :
    (routeSample env k id text).todo = k.inCell.todo :=
  routeSample_rule k id text (fun _ => rfl) fun _ => rfl

/-- How often the plan has a unit. -/
def Plan.planned (plan : Plan) (u : UnitKey) : ℕ := (plan.cells.flatMap Cell.units).count u

/-- The unit, to be taken up, lost or taken up. -/
def todoLedger (plan : Plan) (u : UnitKey) : Ledger where
  mem m := m.hist.started.count u + m.hist.lost.count u
  main pc := ((plan.left pc).flatMap Cell.units).count u
  exam pc := pc.todo.count u
  judge _ := 0

theorem MainStep.units_eq {examDone judgeDone : Bool} {pc pc' : MainPc}
    (h : MainStep plan st m examDone judgeDone pc st' m' pc') :
    m'.hist.started = m.hist.started ∧ ∃ cells, plan.left pc = cells ++ plan.left pc' ∧
      m'.hist.lost = m.hist.lost ++ cells.flatMap Cell.units := by
  obtain ⟨cells, hhist, hleft⟩ := h.hist_eq
  exact ⟨by rw [hhist]; rfl, cells, hleft, by rw [hhist]; rfl⟩

theorem todo_cons {l : CellCursor} {c : Case} {rest : List Case} (h : l.rest = c :: rest) :
    l.todo =
      ⟨l.cell.run.id, l.cell.modelDbId, c.id⟩ :: ({ l with rest := rest } : CellCursor).todo := by
  simp [CellCursor.todo, Cell.units, h]

theorem todoLedger_law (u : UnitKey) : (todoLedger plan u).Law (· = ·) env plan s where
  main pc st m pc' _ h := by
    obtain ⟨hstarted, cells, hleft, hlost⟩ := h.units_eq
    simp only [todoLedger, hstarted, hleft, hlost, List.flatMap_append, List.count_append]
    omega
  exam pc st m pc' _ h hok := by
    cases h with
    | skip cell n =>
      simp only [todoLedger, Shared.skipCell, ExamPc.todo, List.count_append, List.count_nil]
      omega
    | casesDone l hrest =>
      simp [todoLedger, ExamPc.todo, CellCursor.todo, Cell.units, hrest]
    | cut l hdriver hcan hrest =>
      simp only [todoLedger, Shared.cutCell, ExamPc.todo, List.count_append, List.count_nil]
      omega
    | begin l c rest hdriver hrest | clearNull l c rest hdriver hrest hcan
    | clearAny l c rest hdriver hrest hcan =>
      simp only [todoLedger, Shared.startUnits, ExamPc.todo, todo_cons hrest, List.count_append,
        List.count_cons, List.count_nil]
      omega
    | recorded =>
      simp only [todoLedger, todo_routeSample]
      rfl
    | settled | wrote | offeredAll | dropped =>
      simp only [todoLedger, todo_sampleDone]
      rfl
    | stamped cell modelId cases answered =>
      simp only [todoLedger, Shared.startUnits, Shared.writeUnits, ExamPc.todo, List.count_append,
        List.count_nil]
      omega
    | reported cell answered | reportedLast cell answered =>
      simp only [todoLedger, reportCell_hist]
      rfl
    | recordCrash | settleCrash => simp [Shared.panic] at hok
    | _ => rfl
  judge pc st m pc' _ h hok := by
    cases h with
    | settleCrash => simp [Shared.panic] at hok
    | _ => rfl
  handCell c cs := by
    change c.units.count u + (cs.flatMap Cell.units).count u =
      0 + ((c :: cs).flatMap Cell.units).count u
    rw [List.flatMap_cons, List.count_append, Nat.zero_add]

/-! ### Units in flight -/

/-- How often an exam worker is opening the unit or writing its row. -/
def ExamPc.holds (u : UnitKey) : ExamPc → ℕ
  | .openCase k | .write k _ => if k.unit = u then 1 else 0
  | _ => 0

/-- Whether a judge worker is writing the unit's row. -/
def JudgePc.holds (u : UnitKey) : JudgePc → ℕ
  | .write j _ => if j.unit = u then 1 else 0
  | _ => 0

theorem holds_write (k : SampleCursor) (agg : CaseAggregate) :
    (ExamPc.write k agg).holds u = if k.unit = u then 1 else 0 := rfl

@[simp] theorem holds_caseDone (k : SampleCursor) : (caseDone plan k).holds u = 0 :=
  caseDone_rule k (fun _ => rfl) fun _ _ => rfl

@[simp] theorem holds_sampleDone (k : SampleCursor) : (sampleDone env plan k).holds u = 0 :=
  sampleDone_rule k (fun _ => rfl) fun _ => holds_caseDone k

@[simp] theorem holds_routeSample (k : SampleCursor) (id : ℕ) (text : String) :
    (routeSample env k id text).holds u = 0 :=
  routeSample_rule k id text (fun _ => rfl) fun _ => rfl

/-- How many aggregates the unit has open. -/
def Pipeline.opened (p : Pipeline) (u : UnitKey) : ℕ := if u ∈ p.aggs then 1 else 0

/-- The unit, in flight or stored, less the times it was taken up. -/
def flightLedger (u : UnitKey) : Ledger where
  mem m := m.hist.written.count u + m.pipe.opened u - m.hist.started.count u
  main _ := 0
  exam pc := pc.holds u
  judge pc := pc.holds u

/-- How often the unit is between being taken up and its row. -/
def inFlight (e : Exec) (u : UnitKey) : ℕ := e.mem.pipe.opened u + (flightLedger u).held e

theorem opened_recordAnswer {p p' : Pipeline} {v : UnitKey} {latencyMs : ℕ} {i o : Option ℕ}
    {text : String} (h : p.recordAnswer v latencyMs i o text = some p') :
    p'.opened u = p.opened u := by
  obtain ⟨agg, agg', hagg, rfl, -⟩ := Pipeline.recordAnswer_spec h
  have hmem : v ∈ p.aggs := AList.lookup_isSome.mp (by simp [hagg])
  simp only [Pipeline.opened, AList.mem_insert]
  by_cases hu : u = v
  · simp [hu, hmem]
  · simp [hu]

theorem opened_settleSample_open {p p' : Pipeline} {v : UnitKey} {median : Option ℚ}
    (h : p.settleSample v median = some (p', none)) : p'.opened u = p.opened u := by
  obtain ⟨agg, hagg, -, rfl⟩ := Pipeline.settleSample_open h
  have hmem : v ∈ p.aggs := AList.lookup_isSome.mp (by simp [hagg])
  simp only [Pipeline.opened, AList.mem_insert]
  by_cases hu : u = v
  · simp [hu, hmem]
  · simp [hu]

theorem opened_settleSample_complete {p p' : Pipeline} {v : UnitKey} {median : Option ℚ}
    {agg : CaseAggregate} (h : p.settleSample v median = some (p', some agg)) :
    p'.opened u + (if v = u then 1 else 0) = p.opened u := by
  obtain ⟨agg, hagg, -, -, rfl⟩ := Pipeline.settleSample_complete h
  have hmem : v ∈ p.aggs := AList.lookup_isSome.mp (by simp [hagg])
  simp only [Pipeline.opened, AList.mem_erase]
  by_cases hu : u = v
  · subst hu
    simp [hmem]
  · simp [hu, Ne.symm hu]

theorem opened_openCase {p : Pipeline} {v : UnitKey} {modelId : String}
    {profile : VerdictProfile} {expected : ℕ} (h : v ∉ p.aggs) :
    (p.openCase v modelId profile expected).opened u =
      p.opened u + if v = u then 1 else 0 := by
  rw [Pipeline.openCase_of_notMem h]
  simp only [Pipeline.opened, AList.mem_insert]
  by_cases hu : u = v
  · subst hu
    simp [h]
  · simp [hu, Ne.symm hu]

theorem opened_openCase_of_ne {p : Pipeline} {v : UnitKey} {modelId : String}
    {profile : VerdictProfile} {expected : ℕ} (hu : v ≠ u) :
    (p.openCase v modelId profile expected).opened u = p.opened u := by
  by_cases h : v ∈ p.aggs
  · rw [Pipeline.openCase_of_mem h]
  · rw [opened_openCase h, if_neg hu, Nat.add_zero]

/-- The flight account is conserved as long as no case opens an aggregate that is open. -/
theorem flightLedger_law (u : UnitKey)
    (hopen : ∀ k, .openCase k ∈ s.exam → k.unit = u → u ∉ s.mem.pipe.aggs) :
    (flightLedger u).Law (· = ·) env plan s where
  main pc st m pc' _ h := by
    cases h with
    | marked | markedLast =>
      simp only [flightLedger, Pipeline.opened, Pipeline.markCellsDone_aggs]
    | _ => rfl
  exam pc st m pc' hpc h hok := by
    cases h with
    | begin l c rest hdriver hrest | clearNull l c rest hdriver hrest hcan
    | clearAny l c rest hdriver hrest hcan =>
      have hunit : (⟨{ l with rest := rest }, c, 1, false⟩ : SampleCursor).unit =
        ⟨l.cell.run.id, l.cell.modelDbId, c.id⟩ := rfl
      simp only [flightLedger, Shared.startUnits, ExamPc.holds, hunit, List.count_append,
        List.count_cons, List.count_nil, beq_iff_eq]
      omega
    | opened k =>
      -- here the hypothesis is used: the aggregate is a new one
      by_cases hu : k.unit = u
      · have hnot := hopen k hpc hu
        subst hu
        simp only [flightLedger, opened_openCase hnot, ExamPc.holds, if_true]
        omega
      · simp only [flightLedger, opened_openCase_of_ne hu, ExamPc.holds, if_neg hu]
    | recorded k id text latencyMs i o cost p hp =>
      simp only [flightLedger, opened_recordAnswer hp, holds_routeSample]
      rfl
    | settled k median p hp =>
      simp only [flightLedger, opened_settleSample_open hp, holds_sampleDone]
      rfl
    | completed k median p agg hp =>
      have hopened := opened_settleSample_complete (u := u) hp
      simp only [flightLedger, ExamPc.holds]
      omega
    | wrote k agg =>
      simp only [flightLedger, Shared.writeUnits, holds_sampleDone, holds_write,
        List.count_append, List.count_cons, List.count_nil, beq_iff_eq]
      omega
    | offeredAll | dropped =>
      simp only [flightLedger, holds_sampleDone]
      rfl
    | stamped cell modelId cases answered =>
      simp only [flightLedger, Shared.startUnits, Shared.writeUnits, ExamPc.holds,
        List.count_append]
      omega
    | reported cell answered | reportedLast cell answered =>
      obtain ⟨n, hpipe⟩ := reportCell_pipe plan (s.mem.endCell cell) cell.run.id answered
      simp only [flightLedger, reportCell_hist, hpipe]
      rfl
    | marked | markedLast =>
      simp only [flightLedger, Pipeline.opened, Pipeline.markCellsDone_aggs]
      rfl
    | recordCrash | settleCrash => simp [Shared.panic] at hok
    | _ => rfl
  judge pc st m pc' _ h hok := by
    cases h with
    | landed j score p hp | votesIn j score p median hp =>
      obtain ⟨votes, rfl⟩ := Pipeline.landVote_eq hp
      rfl
    | settled j median p hp =>
      simp only [flightLedger, opened_settleSample_open hp]
      rfl
    | completed j median p agg hp =>
      have hopened := opened_settleSample_complete (u := u) hp
      simp only [flightLedger, JudgePc.holds]
      omega
    | wrote j agg =>
      simp only [flightLedger, Shared.writeUnits, JudgePc.holds, List.count_append,
        List.count_cons, List.count_nil, beq_iff_eq]
      omega
    | decremented j | decrementedLast j =>
      simp only [flightLedger, Pipeline.opened, Pipeline.decrementPending_aggs]
      rfl
    | settleCrash => simp [Shared.panic] at hok
    | _ => rfl

/-- **Unit accounting.** Every unit of the plan is to be taken up, lost or taken up. -/
theorem todo_of_reach (u : UnitKey)
    (h : Reached env plan s) (hok : s.mem.panicked = false) :
    s.mem.hist.started.count u + s.mem.hist.lost.count u + (todoLedger plan u).held s.toExec =
      plan.planned u := by
  have hvalue : (todoLedger plan u).value s = plan.planned u := by
    refine Ledger.value_of_reach ?_ (fun _ _ _ _ => todoLedger_law u) h hok
    intro st
    rw [Ledger.value_start st rfl rfl]
    simp [todoLedger, Plan.startExec, Plan.startMem, Plan.left, Plan.planned]
  simp only [Ledger.value, todoLedger] at hvalue ⊢
  omega

/-- A unit that is planned once has no aggregate when its case is opened. -/
theorem notMem_aggs_of_value (hplanned : plan.planned u ≤ 1)
    (h : Reached env plan s) (hok : s.mem.panicked = false) (hvalue : (flightLedger u).value s = 0)
    {k : SampleCursor} (hpc : .openCase k ∈ s.exam) (hu : k.unit = u) : u ∉ s.mem.pipe.aggs := by
  intro hmem
  have htodo := todo_of_reach u h hok
  obtain ⟨i, hi⟩ := List.getElem?_of_mem hpc
  have hheld := Ledger.exam_le_held (L := flightLedger u) hi
  have hone : (flightLedger u).exam (.openCase k) = 1 := by simp [flightLedger, ExamPc.holds, hu]
  have hopened : s.mem.pipe.opened u = 1 := if_pos hmem
  simp only [Ledger.value, flightLedger] at hvalue hheld hone
  omega

/-- **Flight accounting.** A unit that is planned at most once was taken up as often as it is
in flight or stored. -/
theorem flight_of_reach (hplanned : plan.planned u ≤ 1)
    (h : Reached env plan s) (hok : s.mem.panicked = false) :
    s.mem.hist.written.count u + inFlight s.toExec u = s.mem.hist.started.count u := by
  have hvalue : (flightLedger u).value s = 0 := by
    refine Ledger.value_of_reach ?_ (fun t ht hlive hzero => flightLedger_law u fun k hpc hu =>
      notMem_aggs_of_value hplanned ht hlive hzero hpc hu) h hok
    intro st
    rw [Ledger.value_start st rfl rfl]
    simp [flightLedger, Plan.startMem, newPipeline, Pipeline.opened]
  simp only [Ledger.value, flightLedger] at hvalue
  simp only [inFlight, flightLedger]
  omega

theorem notMem_aggs_of_openCase (hplanned : plan.planned u ≤ 1)
    (h : Reached env plan s) (hok : s.mem.panicked = false)
    {k : SampleCursor} (hpc : .openCase k ∈ s.exam)
    (hu : k.unit = u) : u ∉ s.mem.pipe.aggs := by
  refine notMem_aggs_of_value hplanned h hok ?_ hpc hu
  have hflight := flight_of_reach hplanned h hok
  simp only [inFlight, Ledger.value, flightLedger] at hflight ⊢
  omega

end HubScope
