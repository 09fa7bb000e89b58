import HubScope.Server.Operations

/-!
# One result row for a unit, across executions

Several executions of a campaign can run at once: its batch and any number of live retries, or a
reopened retry and whoever joined in since. Each clears a unit's row when it takes the unit up
and stores a new one when the last vote of the case is in. Whether a unit may be asked again is
decided from its row, and a unit that another execution has in flight has none: two executions
that both clear a unit before either stores its row store two.

A unit is held by its rows or by the executions that have it in flight, and as long as a unit is
taken up only when nobody holds it on, the two add up to at most one.

## Main definitions

* `ExamPc.takesUp`, `World.takeUp` — the units a step takes up
* `World.inFlight` — how many executions are between taking a unit up and storing its row
* `Apart` — units are taken up when no execution has them in flight and no row of them stays

## Main results

* `rowCount_le_one_of_reach` — runs whose take-ups are apart keep one row a unit
-/

set_option autoImplicit false

namespace HubScope

variable {env : Env} {plan : Plan} {st st' : Store} {m m' : Shared} {s s' : State} {u : UnitKey}

/-! ### Taking units up -/

/-- The units an exam worker takes up with its next step: the next case of its cell, or the
cases it is about to stamp. -/
def ExamPc.takesUp (plan : Plan) (m : Shared) : ExamPc → List UnitKey
  | .nextCase l =>
    match l.rest with
    | [] => []
    | c :: _ =>
      if plan.path.driver ≠ .evalModel ∧ m.canceled then []
      else [⟨l.cell.run.id, l.cell.modelDbId, c.id⟩]
  | .stamp cell _ cases _ => ({ cell with cases := cases } : Cell).units
  | _ => []

/-- The units an execution takes up with a step. -/
def Exec.takesUp (plan : Plan) (e : Exec) : Label → List UnitKey
  | .exam i _ =>
    match e.exam[i]? with
    | some pc => pc.takesUp plan e.mem
    | none => []
  | _ => []

theorem takesUp_of_evalModel {l : CellCursor} {c : Case} {rest : List Case}
    (hdriver : plan.path.driver = .evalModel) (hrest : l.rest = c :: rest) :
    (ExamPc.nextCase l).takesUp plan m = [⟨l.cell.run.id, l.cell.modelDbId, c.id⟩] := by
  simp only [ExamPc.takesUp, hrest, hdriver, ne_eq, not_true_eq_false, false_and, if_false]

theorem takesUp_of_not_canceled {l : CellCursor} {c : Case} {rest : List Case}
    (hcan : m.canceled = false) (hrest : l.rest = c :: rest) :
    (ExamPc.nextCase l).takesUp plan m = [⟨l.cell.run.id, l.cell.modelDbId, c.id⟩] := by
  simp only [ExamPc.takesUp, hrest, hcan, Bool.false_eq_true, and_false, if_false]

theorem takesUp_of_canceled {l : CellCursor} (hdriver : plan.path.driver ≠ .evalModel)
    (hcan : m.canceled = true) : (ExamPc.nextCase l).takesUp plan m = [] := by
  cases hrest : l.rest with
  | nil => simp only [ExamPc.takesUp, hrest]
  | cons c rest =>
    simp only [ExamPc.takesUp, hrest]
    exact if_pos ⟨hdriver, hcan⟩

theorem ExamStep.started_eq {pc pc' : ExamPc} (h : ExamStep env plan st m pc st' m' pc') :
    m'.hist.started = m.hist.started ++ pc.takesUp plan m := by
  cases h with
  | casesDone l hrest =>
    simp only [ExamPc.takesUp, hrest, List.append_nil]
  | cut l hdriver hcan hrest =>
    rw [takesUp_of_canceled hdriver hcan, List.append_nil]
    rfl
  | begin l c rest hdriver hrest =>
    rw [takesUp_of_evalModel hdriver hrest]
    rfl
  | clearNull l c rest hdriver hrest hcan | clearAny l c rest hdriver hrest hcan =>
    rw [takesUp_of_not_canceled hcan hrest]
    rfl
  | stamped => rfl
  | reported | reportedLast =>
    rw [reportCell_hist]
    exact (List.append_nil _).symm
  | _ => exact (List.append_nil _).symm

theorem Step.started_eq {a : Label} (h : Step env plan s a s') :
    s'.mem.hist.started = s.mem.hist.started ++ s.toExec.takesUp plan a := by
  cases h with
  | main hm =>
    rw [hm.units_eq.1]
    exact (List.append_nil _).symm
  | exam hi he =>
    rw [he.started_eq]
    simp only [Exec.takesUp, hi]
  | judge hj he =>
    refine Eq.trans ?_ (List.append_nil _).symm
    cases he <;> rfl
  | _ => exact (List.append_nil _).symm

/-! ### Rows and flights of one execution -/

/-- A crash stores nothing. -/
theorem Step.store_eq_of_panicked {a : Label} (h : Step env plan s a s')
    (hlive : s.mem.panicked = false) (hdead : s'.mem.panicked = true) : s'.store = s.store := by
  cases h with
  | main hm =>
    rw [hm.panicked_eq, hlive] at hdead
    cases hdead
  | exam hi he =>
    cases he with
    | recordCrash | settleCrash | reported | reportedLast => rfl
    | _ => exact absurd (hlive.symm.trans hdead) Bool.false_ne_true
  | judge hj he =>
    cases he with
    | settleCrash => rfl
    | _ => exact absurd (hlive.symm.trans hdead) Bool.false_ne_true
  | _ => exact absurd (hlive.symm.trans hdead) Bool.false_ne_true

/-- A unit that one execution has in flight at most once is opened only when it is not open. -/
theorem notMem_aggs_of_inFlight (hflight : inFlight s.toExec u ≤ 1) {k : SampleCursor}
    (hpc : .openCase k ∈ s.exam) (hu : k.unit = u) : u ∉ s.mem.pipe.aggs := by
  intro hmem
  obtain ⟨i, hi⟩ := List.getElem?_of_mem hpc
  have hheld := Ledger.exam_le_held (L := flightLedger u) hi
  have hone : (flightLedger u).exam (.openCase k) = 1 := by simp [flightLedger, ExamPc.holds, hu]
  have hopened : s.mem.pipe.opened u = 1 := if_pos hmem
  simp only [inFlight] at hflight
  omega

/-- A unit is in flight from being taken up to its row. -/
theorem inFlight_step {a : Label} (h : Step env plan s a s') (hok : s'.mem.panicked = false)
    (hflight : inFlight s.toExec u ≤ 1) :
    s'.mem.hist.written.count u + inFlight s'.toExec u + s.mem.hist.started.count u =
      s.mem.hist.written.count u + inFlight s.toExec u + s'.mem.hist.started.count u := by
  have hvalue := Ledger.value_step_eq (flightLedger_law u fun k hpc hu =>
    notMem_aggs_of_inFlight hflight hpc hu) h hok
  simp only [Ledger.value, flightLedger] at hvalue
  simp only [inFlight, flightLedger]
  omega

/-- The rows of a unit and its flights add up to what they did, unless the step takes the unit
up. -/
theorem rowCount_add_inFlight {a : Label} (h : Step env plan s a s') (hreached : Reached env plan s)
    (hok : s'.mem.panicked = false) (hflight : inFlight s.toExec u ≤ 1)
    (hup : u ∉ s.toExec.takesUp plan a) :
    s'.store.rowCount u + inFlight s'.toExec u = s.store.rowCount u + inFlight s.toExec u := by
  have hstarted : s'.mem.hist.started.count u = s.mem.hist.started.count u := by
    rw [h.started_eq, List.count_append, List.count_eq_zero.mpr hup, Nat.add_zero]
  have hflights := inFlight_step h hok hflight
  rw [← length_unitRows, ← length_unitRows]
  cases h.rows hreached u with
  | start hstart => omega
  | write rs _ hwritten hrows | stamp rs _ _ hwritten hrows =>
    rw [hrows, List.length_append]
    omega

/-- A unit that is taken up once, with no row that stays and no flight, is held once. -/
theorem rowCount_add_inFlight_le {a : Label} (h : Step env plan s a s')
    (hreached : Reached env plan s) (hok : s'.mem.panicked = false)
    (hflight : inFlight s.toExec u = 0)
    (hup : (s.toExec.takesUp plan a).count u = 1)
    (hkept : plan.path.driver.kept (s.store.unitRows u) = []) :
    s'.store.rowCount u + inFlight s'.toExec u ≤ 1 := by
  have hstarted : s'.mem.hist.started.count u = s.mem.hist.started.count u + 1 := by
    rw [h.started_eq, List.count_append, hup]
  have hflights := inFlight_step h hok (u := u) (by omega)
  rw [← length_unitRows]
  cases h.rows hreached u with
  | start _ hwritten hrows =>
    rw [hrows, hkept, List.length_nil]
    omega
  | write rs hstart => omega
  | stamp rs hdriver hstart hwritten hrows =>
    have hnil : s.store.unitRows u = [] := by
      rw [hdriver] at hkept
      exact hkept
    rw [hrows, hnil, List.nil_append]
    omega

/-! ### The server -/

/-- How often the operation has the unit in flight. -/
def OpPc.inFlight (u : UnitKey) (pc : OpPc) : ℕ :=
  match pc.execution with
  | some (_, _, e) => HubScope.inFlight e u
  | none => 0

/-- How many executions are between taking the unit up and storing its row. -/
def World.inFlight (w : World) (u : UnitKey) : ℕ := Pool.total (fun op => op.pc.inFlight u) w.ops

/-- The units a step of an execution takes up, and the driver that does. -/
def World.takeUp (w : World) : WorldLabel → Option (Driver × List UnitKey)
  | .op i (.exec a) =>
    (w.ops[i]?.bind fun op => op.pc.execution).map fun (_, plan, e) =>
      (plan.path.driver, e.takesUp plan a)
  | _ => none

/-- A step takes units up one time each, and only those that no execution has in flight and that
keep no row. -/
def Apart (w : World) (a : WorldLabel) : Prop :=
  ∀ x ∈ w.takeUp a, x.2.Nodup ∧
    ∀ u ∈ x.2, w.inFlight u = 0 ∧ x.1.kept (w.store.unitRows u) = []

instance (w : World) (a : WorldLabel) : Decidable (Apart w a) :=
  inferInstanceAs (Decidable (∀ x ∈ w.takeUp a, x.2.Nodup ∧
    ∀ u ∈ x.2, w.inFlight u = 0 ∧ x.1.kept (w.store.unitRows u) = []))

variable {w w' : World} {a : WorldLabel} {pc : OpPc} {e : Exec}

theorem OpPc.inFlight_of_none (h : pc.execution = none) : pc.inFlight u = 0 := by
  rw [OpPc.inFlight, h]

theorem OpPc.inFlight_of_some (h : pc.execution = some (env, plan, e)) :
    pc.inFlight u = HubScope.inFlight e u := by
  rw [OpPc.inFlight, h]

theorem inFlight_startExec (env : Env) (plan : Plan) (u : UnitKey) :
    inFlight (plan.startExec env) u = 0 := by
  have hexam : Pool.total (flightLedger u).exam (plan.startExec env).exam = 0 :=
    Pool.total_replicate _ rfl
  have hjudge : Pool.total (flightLedger u).judge (plan.startExec env).judge = 0 :=
    Pool.total_replicate _ rfl
  have hopened : (plan.startExec env).mem.pipe.opened u = 0 := by
    simp [Plan.startExec, Plan.startMem, newPipeline, Pipeline.opened]
  rw [inFlight, Ledger.held, hexam, hjudge, hopened]
  rfl

theorem OpPc.crashed_of_execution (h : pc.execution = some (env, plan, e)) :
    pc.crashed = e.mem.panicked := by
  cases pc with
  | executing => cases h; rfl
  | _ => cases h

/-- The unit is held at most once, by its row or by an execution. -/
structure UnitHeld (w : World) (u : UnitKey) : Prop where
  row : w.store.rowCount u ≤ 1
  held : w.crashed = false → w.store.rowCount u + w.inFlight u ≤ 1

/-- The flights of a unit after a step of operation `i`. -/
theorem inFlight_set {i : ℕ} {op : Op} (hi : w.ops[i]? = some op) (pc : OpPc) :
    Pool.total (fun op : Op => op.pc.inFlight u) (w.ops.set i { op with pc := pc }) +
      op.pc.inFlight u = w.inFlight u + pc.inFlight u :=
  Pool.total_set (f := fun op : Op => op.pc.inFlight u) hi _

theorem UnitHeld.executed {i : ℕ} {op : Op} {choice : OpChoice} {label : Label}
    {executing : ℕ → Bool} (h : UnitHeld w u) (hlive : w.crashed = false)
    (hi : w.ops[i]? = some op) (hexec : op.pc.execution = some (env, plan, e))
    (hreached : Reached env plan { e with store := w.store })
    (hchoice : choice = .exec label) (hapart : Apart w (.op i choice))
    (hs : step env plan { e with store := w.store } label = some s)
    (hexec' : pc.execution = some (env, plan, s.toExec)) :
    UnitHeld
      { store := s.store
        executing := executing
        ops := w.ops.set i { op with pc := pc }
        startedSince := w.note i op.pc } u := by
  obtain ⟨hok, hstep⟩ := step_cases hs
  have hheld := h.held hlive
  cases hcrash : s.mem.panicked with
  | true =>
    have hstore := hstep.store_eq_of_panicked hok hcrash
    refine ⟨by rw [hstore]; exact h.row, fun hlive' => ?_⟩
    -- the server crashed with the execution
    have hmem : ({ op with pc := pc } : Op) ∈ w.ops.set i { op with pc := pc } :=
      List.mem_set (List.getElem?_eq_some_iff.mp hi).1 _
    have hpc := List.any_eq_false.mp hlive' _ hmem
    rw [OpPc.crashed_of_execution hexec'] at hpc
    exact absurd hcrash hpc
  | false =>
    have hset := inFlight_set (u := u) hi pc
    rw [OpPc.inFlight_of_some hexec, OpPc.inFlight_of_some hexec'] at hset
    have hle : inFlight e u ≤ w.inFlight u := by
      have hle := Pool.le_total (f := fun op : Op => op.pc.inFlight u) hi
      rwa [OpPc.inFlight_of_some hexec] at hle
    have hkey : s.store.rowCount u + Pool.total (fun op : Op => op.pc.inFlight u)
        (w.ops.set i { op with pc := pc }) ≤ 1 := by
      -- a unit taken up was in no other operation's hands and had no row; any other is only carried
      -- on
      by_cases hup : u ∈ e.takesUp plan label
      · have htakeUp : w.takeUp (.op i choice) =
            some (plan.path.driver, e.takesUp plan label) := by
          rw [hchoice, World.takeUp, hi, Option.bind_some, hexec]
          rfl
        obtain ⟨hnodup, hfree⟩ := hapart _ htakeUp
        obtain ⟨hflight, hkept⟩ := hfree u hup
        have hstored := rowCount_add_inFlight_le hstep hreached hcrash (u := u)
          (Nat.eq_zero_of_le_zero (hflight ▸ hle)) (List.count_eq_one_of_mem hnodup hup) hkept
        omega
      · have hstored := rowCount_add_inFlight hstep hreached hcrash (u := u)
          (by change inFlight e u ≤ 1; omega) hup
        change s.store.rowCount u + inFlight s.toExec u = w.store.rowCount u + inFlight e u
          at hstored
        omega
    exact ⟨(Nat.le_add_right _ _).trans hkey, fun _ => hkey⟩

theorem UnitHeld.step (h : UnitHeld w u)
    (hreached : ∀ op ∈ w.ops, ∀ env plan e, op.pc.execution = some (env, plan, e) →
      Reached env plan { e with store := w.store })
    (hapart : Apart w a) (hstep : worldStep w a = some w') : UnitHeld w' u := by
  obtain ⟨hlive, hcases⟩ := worldStep_cases hstep
  have hheld := h.held hlive
  cases hcases with
  | arrived o =>
    refine ⟨h.row, fun _ => ?_⟩
    have hbegin : o.begin.inFlight u = 0 := OpPc.inFlight_of_none (by cases o <;> rfl)
    simp only [World.inFlight, Pool.total, List.map_append, List.sum_append, List.map_cons,
      List.map_nil, List.sum_cons, List.sum_nil, hbegin] at hheld ⊢
    exact hheld
  | canceled c => exact ⟨h.row, fun _ => hheld⟩
  | @stepped i op choice st executing pc hi hop =>
    -- the operation that steps is the only one whose share changes
    have hset := inFlight_set (u := u) hi pc
    cases (opStep_cases hop).advance with
    | idle hnone hresults =>
      have hrow : st.rowCount u = w.store.rowCount u := by rw [Store.rowCount, hresults]; rfl
      rw [OpPc.inFlight_of_none hnone] at hset
      refine ⟨hrow.trans_le h.row, fun _ => ?_⟩
      change st.rowCount u + Pool.total _ (w.ops.set i { op with pc := pc }) ≤ 1
      omega
    | kept heq hstore =>
      subst hstore
      have hflight : pc.inFlight u = op.pc.inFlight u := by
        rw [OpPc.inFlight, heq]
        rfl
      refine ⟨h.row, fun _ => ?_⟩
      change w.store.rowCount u + Pool.total _ (w.ops.set i { op with pc := pc }) ≤ 1
      omega
    | launched single env plan hpc hstore hexec =>
      subst hstore
      rw [OpPc.inFlight_of_some hexec, inFlight_startExec] at hset
      refine ⟨h.row, fun _ => ?_⟩
      change w.store.rowCount u + Pool.total _ (w.ops.set i { op with pc := pc }) ≤ 1
      omega
    | executed env plan e label s hchoice hexec hs hstore hexec' =>
      subst hstore
      exact h.executed hlive hi hexec
        (hreached op (List.mem_of_getElem? hi) env plan e hexec) hchoice hapart hs hexec'

/-- **One row for a unit.** In every run that takes units up apart from each other a unit has at
most one result row, when it had at most one at the start. -/
theorem rowCount_le_one_of_reach (hstart : ∀ u, st.rowCount u ≤ 1)
    (h : Transition.Reach worldStep Apart (.start st) w) : ∀ u, w.store.rowCount u ≤ 1 := by
  intro u
  refine (h.invariant_of (I := fun w => UnitHeld w u) (fun _ ht => ht) ⟨hstart u, fun _ => ?_⟩
    fun t a t' ht hheld hapart hstep => ?_).row
  · exact hstart u
  · exact hheld.step (fun op hop env plan e he => reached_of_world ht hop he _) hapart hstep

/-! ### Two retries of one unit -/

/-- A settled campaign with one scored result of a rule case. -/
def scoredStore : Store :=
  { failedStore with
    cases := [ruleCase 1]
    results := [{ failedResult (soloRun .done) 1 "m1" (ruleCase 1) with score := some 0 }] }

/-- Operation `i` is a `retry-units` of the one unit, up to its execution: it reopens the settled
campaign. -/
def reopeningRetry (i : ℕ) : List WorldLabel :=
  .arrive (.retryUnits 1 [⟨1, 1⟩]) :: List.replicate 6 (.op i .go) ++ [.op i (.launched soloEnv)]

/-- The same while the campaign is executing. -/
def liveRetry (i : ℕ) : List WorldLabel :=
  .arrive (.retryUnits 1 [⟨1, 1⟩]) :: List.replicate 5 (.op i .go) ++ [.op i (.launched soloEnv)]

/-- The execution of operation `i` takes the unit up. -/
def takeUpLabels (i : ℕ) : List WorldLabel :=
  [.main, .main, .exam 0 .go, .handCell 0, .exam 0 (.setup (.ready "m1")), .exam 0 .go].map
    fun a => .op i (.exec a)

/-- The answer arrives and its row is stored. -/
def answerLabels (i : ℕ) : List WorldLabel :=
  [.exam 0 .go, .exam 0 (.answer (.answered "a" 1 none none)), .exam 0 .go, .exam 0 .go,
    .exam 0 .go, .exam 0 .go].map fun a => .op i (.exec a)

theorem scoredStore_rowCount (u : UnitKey) : scoredStore.rowCount u ≤ 1 := by
  refine List.countP_le_length.trans ?_
  rfl

/-- One retry of a unit: its row is a new one. -/
theorem rowCount_le_one_of_reach_retry : ∃ w : World,
    w.store.results.map (·.answerText) = [some "a"] ∧ ∀ u, w.store.rowCount u ≤ 1 := by
  obtain ⟨w, hw, hanswer⟩ : ∃ w, Transition.replayWith worldStep Apart (.start scoredStore)
      (reopeningRetry 0 ++ takeUpLabels 0 ++ answerLabels 0) = some w ∧
        w.store.results.map (·.answerText) = [some "a"] := ⟨_, rfl, rfl⟩
  exact ⟨w, hanswer, rowCount_le_one_of_reach scoredStore_rowCount (.of_replayWith hw)⟩

/-- **Two rows for a unit.** A retry of a settled campaign and a live one that joins it before it
reaches the unit both clear the unit's row, and both store one. -/
theorem not_rowCount_le_one :
    ¬ ∀ (st : Store) (w : World), st.Valid → (∀ u, st.rowCount u ≤ 1) →
      Transition.Reachable worldStep (.start st) w → ∀ u, w.store.rowCount u ≤ 1 := by
  intro h
  obtain ⟨w, hw, hrows⟩ : ∃ w, Transition.replay worldStep (.start scoredStore)
      (reopeningRetry 0 ++ liveRetry 1 ++ takeUpLabels 0 ++ takeUpLabels 1 ++ answerLabels 0 ++
        answerLabels 1) = some w ∧ w.store.rowCount ⟨1, 1, 1⟩ = 2 := ⟨_, rfl, rfl⟩
  have hvalid : scoredStore.Valid := by
    constructor <;> simp [scoredStore, failedStore, soloRun, failedResult, ruleCase]
  have hone := h scoredStore w hvalid scoredStore_rowCount (.of_replay hw) ⟨1, 1, 1⟩
  rw [hrows] at hone
  omega

end HubScope
