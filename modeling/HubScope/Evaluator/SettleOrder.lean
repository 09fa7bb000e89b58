import HubScope.Evaluator.Scripted

/-!
# The order in which the samples of a case settle

The score of a case is a sum that is rounded, so it depends on the order in which the medians
are added. The log of a run says in which order the samples of a case settled, and with which
aggregate its row was written: one that added the medians in that order.

## Main definitions

* `CaseEvent`, `caseEvents` — what the steps of a run do to a case
* `settleOrder`, `writtenAggs` — the samples in the order they settled, the rows written
* `SettleOrdered` — the invariant of the run and its log

## Main results

* `settleOrdered_of_logged` — the invariant over every run
* `wrote_of_returned` — the one row of the case when the execution returns
-/

set_option autoImplicit false

namespace HubScope

variable {env : Env} {plan : Plan} {st' : Store} {m' : Shared} {s s' : State} {u : UnitKey}
  {k₁ : SampleCursor} {σ : Script} {rows : List EvalResult}

/-! ### What happens to a case -/

/-- A sample of the case settles, or its row is written. -/
inductive CaseEvent
  | settled (sampleNo : ℕ)
  | wrote (agg : CaseAggregate)

variable {log : List CaseEvent}

def CaseEvent.settled? : CaseEvent → Option ℕ
  | settled n => some n
  | wrote _ => none

def CaseEvent.wrote? : CaseEvent → Option CaseAggregate
  | settled _ => none
  | wrote agg => some agg

/-- What an exam worker does next to the case. -/
def ExamPc.caseEvents (u : UnitKey) : ExamPc → List CaseEvent
  | .settle k _ => if k.unit = u then [.settled k.sampleNo] else []
  | .write k agg => if k.unit = u then [.wrote agg] else []
  | _ => []

/-- What a judge worker does next to the case. -/
def JudgePc.caseEvents (u : UnitKey) : JudgePc → List CaseEvent
  | .settle j _ => if j.unit = u then [.settled j.sampleNo] else []
  | .write j agg => if j.unit = u then [.wrote agg] else []
  | _ => []

/-- What a step does to the case. -/
def caseEvents (u : UnitKey) (s : State) : Label → List CaseEvent
  | .exam i _ => (s.exam[i]?).elim [] (ExamPc.caseEvents u)
  | .judge i _ => (s.judge[i]?).elim [] (JudgePc.caseEvents u)
  | _ => []

/-- The samples in the order they settled. -/
def settleOrder (log : List CaseEvent) : List ℕ := log.filterMap CaseEvent.settled?

/-- The aggregates the rows were written from. -/
def writtenAggs (log : List CaseEvent) : List CaseAggregate := log.filterMap CaseEvent.wrote?

@[simp] theorem settleOrder_append (log log' : List CaseEvent) :
    settleOrder (log ++ log') = settleOrder log ++ settleOrder log' := List.filterMap_append

@[simp] theorem writtenAggs_append (log log' : List CaseEvent) :
    writtenAggs (log ++ log') = writtenAggs log ++ writtenAggs log' := List.filterMap_append

theorem ExamPc.caseEvents_of_unit? {pc : ExamPc} (hu : pc.unit? ≠ some u) :
    pc.caseEvents u = [] := by
  cases pc with
  | settle k median | write k agg => exact if_neg fun h => hu (congrArg some h)
  | _ => rfl

theorem JudgePc.caseEvents_of_unit? {pc : JudgePc} (hu : pc.unit? ≠ some u) :
    pc.caseEvents u = [] := by
  cases pc with
  | settle j median | write j agg => exact if_neg fun h => hu (congrArg some h)
  | _ => rfl

/-! ### The aggregate of a case -/

/-- The aggregate of the unit is open, or a worker is about to write it. -/
inductive Holds (u : UnitKey) (s : State) (agg : CaseAggregate) : Prop
  | opened (h : s.mem.pipe.aggs.lookup u = some agg)
  | exam (k : SampleCursor) (h : .write k agg ∈ s.exam) (hu : k.unit = u)
  | judge (j : JudgeJob) (h : .write j agg ∈ s.judge) (hu : j.unit = u)

theorem Holds.mono {agg : CaseAggregate} (hagg : Holds u s' agg)
    (haggs : s'.mem.pipe.aggs.lookup u = s.mem.pipe.aggs.lookup u) (hexam : s'.exam = s.exam)
    (hjudge : s'.judge = s.judge) : Holds u s agg := by
  cases hagg with
  | opened h => exact .opened (haggs.symm.trans h)
  | exam k h hu => exact .exam k (hexam ▸ h) hu
  | judge j h hu => exact .judge j (hjudge ▸ h) hu

/-- The worker is about to open a case or to write one. -/
def ExamPc.edges : ExamPc → Bool
  | .openCase _ | .write _ _ => true
  | _ => false

theorem ne_openCase_of_edges {pc : ExamPc} (h : pc.edges = false) (k : SampleCursor) :
    pc ≠ .openCase k := by
  rintro rfl
  cases h

theorem ne_write_of_edges {pc : ExamPc} (h : pc.edges = false) (k : SampleCursor)
    (agg : CaseAggregate) : pc ≠ .write k agg := by
  rintro rfl
  cases h

theorem edges_sampleDone (k : SampleCursor) : (sampleDone env plan k).edges = false := by
  refine sampleDone_rule k (fun _ => rfl) fun _ => ?_
  exact caseDone_rule k (fun _ => rfl) fun _ _ => rfl

theorem edges_routeSample (k : SampleCursor) (id : ℕ) (text : String) :
    (routeSample env k id text).edges = false :=
  routeSample_rule k id text (fun _ => rfl) fun _ => rfl

/-- A unit whose aggregate is open has no row, is not about to be opened and not about to be
written. -/
theorem unwritten_of_open (hplanned : plan.planned u ≤ 1) (h : Reached env plan s)
    (hok : s.mem.panicked = false) (hopen : u ∈ s.mem.pipe.aggs) :
    s.mem.hist.written.count u = 0 ∧ (flightLedger u).held s.toExec = 0 := by
  have hflight := flight_of_reach hplanned h hok
  have htodo := todo_of_reach u h hok
  have hopened : s.mem.pipe.opened u = 1 := if_pos hopen
  simp only [inFlight] at hflight
  omega

/-- Then no worker is about to write it. -/
theorem exam_unit_ne_of_held (hnone : (flightLedger u).held s.toExec = 0) {k : SampleCursor}
    {agg : CaseAggregate} (hmem : .write k agg ∈ s.exam) : k.unit ≠ u := by
  intro hu
  obtain ⟨i, hi⟩ := List.getElem?_of_mem hmem
  have hle := Ledger.exam_le_held (L := flightLedger u) hi
  have hone : (flightLedger u).exam (.write k agg) = 1 := if_pos hu
  omega

theorem judge_unit_ne_of_held (hnone : (flightLedger u).held s.toExec = 0) {j : JudgeJob}
    {agg : CaseAggregate} (hmem : .write j agg ∈ s.judge) : j.unit ≠ u := by
  intro hu
  obtain ⟨i, hi⟩ := List.getElem?_of_mem hmem
  have hle := Ledger.judge_le_held (L := flightLedger u) hi
  have hone : (flightLedger u).judge (.write j agg) = 1 := if_pos hu
  omega

/-! ### The invariant -/

/-- The aggregate settled the samples of the log. -/
def SettledAs (env : Env) (k₁ : SampleCursor) (σ : Script) (log : List CaseEvent)
    (agg : CaseAggregate) : Prop :=
  Tallied agg ((settleOrder log).map (σ.median env k₁))

/-- The run and its log: nothing has settled while the case waits to be opened, and the
aggregate that is held and those that were written settled the samples of the log. -/
structure SettleOrdered (env : Env) (k₁ : SampleCursor) (σ : Script) (rows : List EvalResult)
    (s : State) (log : List CaseEvent) : Prop where
  waits : ∀ k, .openCase k ∈ s.exam → k.unit = k₁.unit → settleOrder log = []
  held : ∀ agg, Holds k₁.unit s agg → SettledAs env k₁ σ log agg
  wrote : ∀ agg ∈ writtenAggs log, Completes env k₁ σ agg ∧ SettledAs env k₁ σ log agg
  rows : s.store.unitRows k₁.unit = rows ++ (writtenAggs log).map (caseResult k₁.unit)

namespace SettleOrdered

/-- A step in which no sample of the case settles and no row of it is written. -/
theorem quiet (ho : SettleOrdered env k₁ σ rows s log)
    (hrows : s'.store.unitRows k₁.unit = s.store.unitRows k₁.unit)
    (hwaits : ∀ k, .openCase k ∈ s'.exam → k.unit = k₁.unit → .openCase k ∈ s.exam)
    (hheld : ∀ agg, Holds k₁.unit s' agg → SettledAs env k₁ σ log agg) :
    SettleOrdered env k₁ σ rows s' log :=
  ⟨fun k hk hu => ho.waits k (hwaits k hk hu) hu, hheld, ho.wrote, hrows.trans ho.rows⟩

/-- A sample settles while the aggregate is open. -/
theorem settle (ho : SettleOrdered env k₁ σ rows s log) (hs : Scripted env k₁ σ rows s) {n : ℕ}
    {agg : CaseAggregate} (hagg : s.mem.pipe.aggs.lookup k₁.unit = some agg)
    (hwritten : s.mem.hist.written.count k₁.unit = 0)
    (hrows : s'.store.unitRows k₁.unit = s.store.unitRows k₁.unit)
    (hwaits : ∀ k, .openCase k ∈ s'.exam → k.unit ≠ k₁.unit)
    (hheld : ∀ agg', Holds k₁.unit s' agg' → agg' = agg.settle (σ.median env k₁ n)) :
    SettleOrdered env k₁ σ rows s' (log ++ [.settled n]) where
  waits k hk hu := absurd hu (hwaits k hk)
  held agg' hagg' := by
    rw [hheld agg' hagg', SettledAs, settleOrder_append, List.map_append]
    exact (ho.held agg (.opened hagg)).settle _
  wrote := by
    -- a row that is written is one of the rows since the case was opened, and there is none
    have hnone : writtenAggs log = [] := by
      have heq := hs.rows.symm.trans ho.rows
      rw [hwritten, List.append_cancel_left_eq] at heq
      exact List.map_eq_nil_iff.mp heq.symm
    rw [writtenAggs_append, hnone]
    intro agg' hagg'
    cases hagg'
  rows := by
    rw [writtenAggs_append, hrows, ho.rows]
    exact congrArg _ (congrArg _ (List.append_nil _).symm)

/-- A row is written from an aggregate that is held. -/
theorem write (ho : SettleOrdered env k₁ σ rows s log) {agg : CaseAggregate}
    (hagg : Holds k₁.unit s agg) (hcompletes : Completes env k₁ σ agg)
    (hrows : s'.store.unitRows k₁.unit = s.store.unitRows k₁.unit ++ [caseResult k₁.unit agg])
    (hwaits : ∀ k, .openCase k ∈ s'.exam → k.unit = k₁.unit → .openCase k ∈ s.exam)
    (hheld : ∀ agg', Holds k₁.unit s' agg' → Holds k₁.unit s agg') :
    SettleOrdered env k₁ σ rows s' (log ++ [.wrote agg]) := by
  have hsettled : settleOrder (log ++ [.wrote agg]) = settleOrder log := by
    rw [settleOrder_append]
    exact List.append_nil _
  constructor
  · intro k hk hu
    rw [hsettled]
    exact ho.waits k (hwaits k hk hu) hu
  · intro agg' hagg'
    rw [SettledAs, hsettled]
    exact ho.held agg' (hheld agg' hagg')
  · intro agg' hagg'
    rw [SettledAs, hsettled]
    rw [writtenAggs_append] at hagg'
    rcases List.mem_append.mp hagg' with hold | hnew
    · exact ho.wrote agg' hold
    · obtain rfl := List.mem_singleton.mp hnew
      exact ⟨hcompletes, ho.held _ hagg⟩
  · rw [hrows, ho.rows, writtenAggs_append, List.map_append, List.append_assoc]
    rfl

end SettleOrdered

/-! ### Steps of an exam worker -/

section

variable {i : ℕ} {pc pc' : ExamPc}

/-- A step in which the worker neither settles a sample of the case nor writes it. -/
theorem SettleOrdered.exam_quiet (ho : SettleOrdered env k₁ σ rows s log)
    (hedge : pc'.edges = true → pc'.unit? ≠ some k₁.unit)
    (hrows : st'.unitRows k₁.unit = s.store.unitRows k₁.unit)
    (haggs : ∀ agg, m'.pipe.aggs.lookup k₁.unit = some agg → SettledAs env k₁ σ log agg) :
    SettleOrdered env k₁ σ rows { s with store := st', mem := m', exam := s.exam.set i pc' }
      log := by
  refine ho.quiet hrows (fun k hk hu => ?_) fun agg hagg => ?_
  · rcases List.mem_or_eq_of_mem_set hk with hold | rfl
    · exact hold
    · exact absurd (congrArg some hu) (hedge rfl)
  · cases hagg with
    | opened h => exact haggs agg h
    | exam k h hu =>
      rcases List.mem_or_eq_of_mem_set h with hold | rfl
      · exact ho.held agg (.exam k hold hu)
      · exact absurd (congrArg some hu) (hedge rfl)
    | judge j h hu => exact ho.held agg (.judge j h hu)

/-- An exam worker settles a sample of the case. -/
theorem settleOrdered_exam_settle (hplanned : plan.planned k₁.unit ≤ 1) (h : Reached env plan s)
    (hok : s.mem.panicked = false) (hs : Scripted env k₁ σ rows s)
    (ho : SettleOrdered env k₁ σ rows s log) {k : SampleCursor} {agg : CaseAggregate}
    {aggs : AList fun _ : UnitKey => CaseAggregate}
    (hk : k₁.InCase env k) (hagg : s.mem.pipe.aggs.lookup k.unit = some agg)
    (hpc' : ∀ k, pc' = .openCase k → k.unit ≠ k₁.unit)
    (haggs : ∀ agg', aggs.lookup k₁.unit = some agg' →
      agg' = agg.settle (σ.median env k₁ k.sampleNo))
    (hwrite : ∀ k' agg', pc' = .write k' agg' → agg' = agg.settle (σ.median env k₁ k.sampleNo)) :
    SettleOrdered env k₁ σ rows { s with
      mem := { s.mem with pipe := { s.mem.pipe with aggs := aggs } }
      exam := s.exam.set i pc' } (log ++ [.settled k.sampleNo]) := by
  rw [hk.unit] at hagg
  have hopen : k₁.unit ∈ s.mem.pipe.aggs := AList.lookup_isSome.mp (by simp [hagg])
  obtain ⟨hwritten, hnone⟩ := unwritten_of_open hplanned h hok hopen
  -- the aggregate is open, so nobody waits to open the case or is about to write it
  refine ho.settle hs hagg hwritten rfl ?_ ?_
  · intro k' hk' hu
    rcases List.mem_or_eq_of_mem_set hk' with hold | heq
    · exact notMem_aggs_of_openCase hplanned h hok hold hu hopen
    · exact hpc' k' heq.symm hu
  · intro agg' hheld
    cases hheld with
    | opened h => exact haggs agg' h
    | exam k' h' hu =>
      rcases List.mem_or_eq_of_mem_set h' with hold | heq
      · exact absurd hu (exam_unit_ne_of_held hnone hold)
      · exact hwrite k' agg' heq.symm
    | judge j h' hu => exact absurd hu (judge_unit_ne_of_held hnone h')

/-- A step of an exam worker. -/
theorem settleOrdered_exam (hplanned : ∀ v, plan.planned v ≤ 1) (h : Reached env plan s)
    (hok : s.mem.panicked = false) (hstarted : 0 < s.mem.hist.started.count k₁.unit)
    (hs : Scripted env k₁ σ rows s) (ho : SettleOrdered env k₁ σ rows s log)
    (hi : s.exam[i]? = some pc) (he : ExamStep env plan s.store s.mem pc st' m' pc')
    (hok' : m'.panicked = false) :
    SettleOrdered env k₁ σ rows { s with store := st', mem := m', exam := s.exam.set i pc' }
      (log ++ pc.caseEvents k₁.unit) := by
  have hpc := List.mem_of_getElem? hi
  by_cases hu : pc.unit? = some k₁.unit
  · have hscripted := hs.exam pc hpc hu
    have hheld : ∀ agg, s.mem.pipe.aggs.lookup k₁.unit = some agg → SettledAs env k₁ σ log agg :=
      fun agg hagg => ho.held agg (.opened hagg)
    have hsame : pc.caseEvents k₁.unit = [] → log = log ++ pc.caseEvents k₁.unit := by
      intro hnil
      rw [hnil, List.append_nil]
    cases he with
    | opened k =>
      have hk := hscripted.1.unit
      rw [← hsame rfl]
      refine ho.exam_quiet (by simp [ExamPc.edges]) rfl fun agg hagg => ?_
      -- the case waited to be opened, so nothing of it has settled
      have hnot := notMem_aggs_of_openCase (hplanned _) h hok hpc hk
      rw [hk, Pipeline.openCase_of_notMem hnot] at hagg
      dsimp only at hagg
      rw [AList.lookup_insert] at hagg
      cases hagg
      rw [SettledAs, ho.waits k hpc hk]
      exact ⟨rfl, rfl, rfl⟩
    | called | persisted | unanswered | registered | noted =>
      rw [← hsame rfl]
      exact ho.exam_quiet (by simp [ExamPc.edges]) rfl hheld
    | offeredAll k | dropped k =>
      rw [← hsame rfl]
      exact ho.exam_quiet (by simp [edges_sampleDone]) rfl hheld
    | recorded k id text latencyMs i' o cost p hp =>
      have hk := hscripted.1.unit
      rw [← hsame rfl]
      obtain ⟨agg, agg', hagg, rfl, -, -, -, -, htally⟩ := recordAnswer_payload hp
      refine ho.exam_quiet (by simp [edges_routeSample]) rfl fun a ha => ?_
      dsimp only at ha
      rw [hk, AList.lookup_insert] at ha
      cases ha
      rw [hk] at hagg
      exact htally _ (hheld agg hagg)
    | settled k median p hp =>
      obtain ⟨hk, rfl⟩ := hscripted
      obtain ⟨agg, hagg, -, rfl⟩ := Pipeline.settleSample_open hp
      have hevent : (ExamPc.settle k (σ.median env k₁ k.sampleNo)).caseEvents k₁.unit =
        [.settled k.sampleNo] := if_pos hk.unit
      rw [hevent]
      have hedge : (sampleDone env plan k).edges = false := edges_sampleDone k
      refine settleOrdered_exam_settle (hplanned _) h hok hs ho hk hagg ?_ (fun a ha => ?_) ?_
      · exact fun k' heq => absurd heq (ne_openCase_of_edges hedge k')
      · rw [hk.unit, AList.lookup_insert] at ha
        exact (Option.some.inj ha).symm
      · exact fun k' a heq => absurd heq (ne_write_of_edges hedge k' a)
    | completed k median p done hp =>
      obtain ⟨hk, rfl⟩ := hscripted
      obtain ⟨agg, hagg, -, rfl, rfl⟩ := Pipeline.settleSample_complete hp
      have hevent : (ExamPc.settle k (σ.median env k₁ k.sampleNo)).caseEvents k₁.unit =
        [.settled k.sampleNo] := if_pos hk.unit
      rw [hevent]
      refine settleOrdered_exam_settle (hplanned _) h hok hs ho hk hagg (by simp)
        (fun a ha => ?_) ?_
      · rw [hk.unit, AList.lookup_erase] at ha
        cases ha
      · rintro k' a ⟨⟩
        rfl
    | wrote k agg =>
      obtain ⟨hk, hcompletes⟩ := hscripted
      have hevent : (ExamPc.write k agg).caseEvents k₁.unit = [.wrote agg] := if_pos hk.unit
      have hedge : (sampleDone env plan k).edges = false := edges_sampleDone k
      rw [hevent]
      refine ho.write (.exam k hpc hk.unit) hcompletes ?_ ?_ ?_
      · rw [unitRows_createEvalResult, caseResult_unit, if_pos hk.unit, hk.unit]
      · intro k' hk' hu'
        rcases List.mem_or_eq_of_mem_set hk' with hold | heq
        · exact hold
        · exact absurd heq.symm (ne_openCase_of_edges hedge k')
      · intro agg' hagg'
        cases hagg' with
        | opened h => exact .opened h
        | exam k' h' hu' =>
          rcases List.mem_or_eq_of_mem_set h' with hold | heq
          · exact .exam k' hold hu'
          · exact absurd heq.symm (ne_write_of_edges hedge k' agg')
        | judge j h' hu' => exact .judge j h' hu'
    | recordCrash | settleCrash => simp [Shared.panic] at hok'
    | _ => cases hu
  · -- the step is beside the unit
    have htodo := notMem_todo_of_started (hplanned _) h hok hstarted hpc
    obtain ⟨hbeside, hu'⟩ := he.beside hu htodo
    rw [ExamPc.caseEvents_of_unit? hu, List.append_nil]
    refine ho.exam_quiet (fun _ => hu') hbeside.rows fun agg hagg => ?_
    rw [hbeside.agg] at hagg
    exact ho.held agg (.opened hagg)

end

/-! ### Steps of a judge worker -/

section

variable {i : ℕ} {pc pc' : JudgePc}

/-- What is held after a judge worker's step that writes nothing of the case. -/
theorem Holds.of_judge_set (hne : ∀ j agg, pc' = .write j agg → j.unit ≠ u)
    (haggs : m'.pipe.aggs.lookup u = s.mem.pipe.aggs.lookup u) {agg : CaseAggregate}
    (hagg : Holds u { s with store := st', mem := m', judge := s.judge.set i pc' } agg) :
    Holds u s agg := by
  cases hagg with
  | opened h => exact .opened (haggs.symm.trans h)
  | exam k h hu => exact .exam k h hu
  | judge j h hu =>
    rcases List.mem_or_eq_of_mem_set h with hold | heq
    · exact .judge j hold hu
    · exact absurd hu (hne j agg heq.symm)

/-- A judge worker settles a sample of the case. -/
theorem settleOrdered_judge_settle (hplanned : plan.planned k₁.unit ≤ 1) (h : Reached env plan s)
    (hok : s.mem.panicked = false) (hs : Scripted env k₁ σ rows s)
    (ho : SettleOrdered env k₁ σ rows s log) {j : JudgeJob} {agg : CaseAggregate}
    {aggs : AList fun _ : UnitKey => CaseAggregate}
    (hj : j.unit = k₁.unit) (hagg : s.mem.pipe.aggs.lookup j.unit = some agg)
    (haggs : ∀ agg', aggs.lookup k₁.unit = some agg' →
      agg' = agg.settle (σ.median env k₁ j.sampleNo))
    (hwrite : ∀ j' agg', pc' = .write j' agg' → agg' = agg.settle (σ.median env k₁ j.sampleNo)) :
    SettleOrdered env k₁ σ rows { s with
      mem := { s.mem with pipe := { s.mem.pipe with aggs := aggs } }
      judge := s.judge.set i pc' } (log ++ [.settled j.sampleNo]) := by
  rw [hj] at hagg
  have hopen : k₁.unit ∈ s.mem.pipe.aggs := AList.lookup_isSome.mp (by simp [hagg])
  obtain ⟨hwritten, hnone⟩ := unwritten_of_open hplanned h hok hopen
  refine ho.settle hs hagg hwritten rfl ?_ ?_
  · exact fun k hk hu => notMem_aggs_of_openCase hplanned h hok hk hu hopen
  · intro agg' hheld
    cases hheld with
    | opened h => exact haggs agg' h
    | exam k h' hu => exact absurd hu (exam_unit_ne_of_held hnone h')
    | judge j' h' hu =>
      rcases List.mem_or_eq_of_mem_set h' with hold | heq
      · exact absurd hu (judge_unit_ne_of_held hnone hold)
      · exact hwrite j' agg' heq.symm

/-- A step of a judge worker. -/
theorem settleOrdered_judge (hplanned : ∀ v, plan.planned v ≤ 1) (h : Reached env plan s)
    (hok : s.mem.panicked = false) (hs : Scripted env k₁ σ rows s)
    (ho : SettleOrdered env k₁ σ rows s log) (hi : s.judge[i]? = some pc)
    (he : JudgeStep env plan s.store s.mem pc st' m' pc') (hok' : m'.panicked = false) :
    SettleOrdered env k₁ σ rows { s with store := st', mem := m', judge := s.judge.set i pc' }
      (log ++ pc.caseEvents k₁.unit) := by
  have hpc := List.mem_of_getElem? hi
  by_cases hu : pc.unit? = some k₁.unit
  · have hscripted := hs.judge pc hpc hu
    have hsame : pc.caseEvents k₁.unit = [] → log = log ++ pc.caseEvents k₁.unit := by
      intro hnil
      rw [hnil, List.append_nil]
    -- a step that neither settles nor writes leaves the aggregate where it is
    have hquiet : st'.unitRows k₁.unit = s.store.unitRows k₁.unit →
        m'.pipe.aggs = s.mem.pipe.aggs → (∀ j agg, pc' ≠ .write j agg) → SettleOrdered env k₁ σ rows
          { s with store := st', mem := m', judge := s.judge.set i pc' } log :=
      fun hrows haggs hne => ho.quiet hrows (fun _ hk _ => hk) fun agg hagg =>
        ho.held agg (hagg.of_judge_set (fun j a heq => absurd heq (hne j a)) (by rw [haggs]))
    cases he with
    | took | called | noted =>
      rw [← hsame rfl]
      exact hquiet rfl rfl (by simp)
    | recorded j o cost =>
      rw [← hsame rfl]
      exact hquiet (unitRows_createEvalJudgeScore _ _ _) rfl (by simp)
    | landed j score p hp =>
      rw [← hsame rfl]
      refine hquiet rfl ?_ (by simp)
      rcases Pipeline.landVote_open hp with ⟨-, rfl⟩ | ⟨_, -, -, rfl⟩ <;> rfl
    | votesIn j score p median hp =>
      rw [← hsame rfl]
      refine hquiet rfl ?_ (by simp)
      obtain ⟨_, -, -, -, rfl⟩ := Pipeline.landVote_complete hp
      rfl
    | decremented j | decrementedLast j =>
      rw [← hsame rfl]
      exact hquiet rfl (Pipeline.decrementPending_aggs _ _) (by simp)
    | finished j =>
      rw [← hsame rfl]
      refine hquiet ?_ rfl (by simp)
      split <;> rfl
    | settled j median p hp =>
      obtain rfl : median = σ.median env k₁ j.sampleNo := hscripted
      have hj : j.unit = k₁.unit := Option.some.inj hu
      obtain ⟨agg, hagg, -, rfl⟩ := Pipeline.settleSample_open hp
      have hevent : (JudgePc.settle j (σ.median env k₁ j.sampleNo)).caseEvents k₁.unit =
        [.settled j.sampleNo] := if_pos hj
      rw [hevent]
      refine settleOrdered_judge_settle (hplanned _) h hok hs ho hj hagg (fun a ha => ?_) (by simp)
      rw [hj, AList.lookup_insert] at ha
      exact (Option.some.inj ha).symm
    | completed j median p done hp =>
      obtain rfl : median = σ.median env k₁ j.sampleNo := hscripted
      have hj : j.unit = k₁.unit := Option.some.inj hu
      obtain ⟨agg, hagg, -, rfl, rfl⟩ := Pipeline.settleSample_complete hp
      have hevent : (JudgePc.settle j (σ.median env k₁ j.sampleNo)).caseEvents k₁.unit =
        [.settled j.sampleNo] := if_pos hj
      rw [hevent]
      refine settleOrdered_judge_settle (hplanned _) h hok hs ho hj hagg (fun a ha => ?_) ?_
      · rw [hj, AList.lookup_erase] at ha
        cases ha
      · rintro j' a ⟨⟩
        rfl
    | wrote j agg =>
      have hj : j.unit = k₁.unit := Option.some.inj hu
      have hevent : (JudgePc.write j agg).caseEvents k₁.unit = [.wrote agg] := if_pos hj
      rw [hevent]
      refine ho.write (.judge j hpc hj) hscripted ?_ (fun _ hk _ => hk) fun agg' hagg' => ?_
      · rw [unitRows_createEvalResult, caseResult_unit, if_pos hj, hj]
      · have haggs : (s.mem.writeUnits [j.unit]).pipe.aggs.lookup k₁.unit =
          s.mem.pipe.aggs.lookup k₁.unit := rfl
        exact Holds.of_judge_set (fun _ _ heq => absurd heq (by simp)) haggs hagg'
    | settleCrash => simp [Shared.panic] at hok'
    | _ => cases hu
  · -- the step is beside the unit
    obtain ⟨hbeside, hu'⟩ := he.beside hu
    rw [JudgePc.caseEvents_of_unit? hu, List.append_nil]
    refine ho.quiet hbeside.rows (fun _ hk _ => hk) fun agg hagg => ho.held agg ?_
    refine hagg.of_judge_set (fun j a heq hj => hu' ?_) hbeside.agg
    rw [heq]
    exact congrArg some hj

end

/-! ### Runs -/

/-- A step of a run that drops no vote of the case keeps the invariant. -/
theorem settleOrdered_step {a : Label} (hplanned : ∀ v, plan.planned v ≤ 1) (h : Reached env plan s)
    (hstarted : 0 < s.mem.hist.started.count k₁.unit) (hs : Scripted env k₁ σ rows s)
    (ho : SettleOrdered env k₁ σ rows s log) (hstep : step env plan s a = some s') :
    SettleOrdered env k₁ σ rows s' (log ++ caseEvents k₁.unit s a) := by
  have hok := panicked_of_reach hplanned h
  have hok' := panicked_of_reach hplanned (h.step hstep)
  -- only the workers settle and write
  have hsame : ∀ es, caseEvents k₁.unit s a = es → es = [] →
      SettleOrdered env k₁ σ rows s' log →
        SettleOrdered env k₁ σ rows s' (log ++ caseEvents k₁.unit s a) := by
    rintro es rfl hnil hordered
    rwa [hnil, List.append_nil]
  cases (step_cases hstep).2 with
  | main hm =>
    have hbeside := hm.beside (u := k₁.unit)
    exact hsame _ rfl rfl (ho.quiet hbeside.rows (fun _ hk _ => hk) fun agg hagg =>
      ho.held agg (hagg.mono hbeside.agg rfl rfl))
  | exam hi he =>
    rw [caseEvents, hi]
    exact settleOrdered_exam hplanned h hok hstarted hs ho hi he hok'
  | judge hi he =>
    rw [caseEvents, hi]
    exact settleOrdered_judge hplanned h hok hs ho hi he hok'
  | @handCell i c cs hmain hi =>
    have hhanded : SettleOrdered env k₁ σ rows { s with exam := s.exam.set i (.setup c) } log :=
      ho.exam_quiet (by simp [ExamPc.edges]) rfl fun agg hagg => ho.held agg (.opened hagg)
    exact hsame _ rfl rfl (hhanded.quiet rfl (fun _ hk _ => hk) fun agg hagg =>
      hhanded.held agg (hagg.mono rfl rfl rfl))
  | @handJob i j k job jobs hi hj =>
    have hsent : SettleOrdered env k₁ σ rows
        { s with exam := s.exam.set i (.noteOffered k jobs) } log :=
      ho.exam_quiet (by simp [ExamPc.edges]) rfl fun agg hagg => ho.held agg (.opened hagg)
    refine hsame _ rfl rfl (hsent.quiet rfl (fun _ hk _ => hk) fun agg hagg => hsent.held agg ?_)
    cases hagg with
    | opened h => exact .opened h
    | exam k' h hu => exact .exam k' h hu
    | judge j' h hu =>
      rcases List.mem_or_eq_of_mem_set h with hold | heq
      · exact .judge j' hold hu
      · cases heq
  | cancel | expire =>
    exact hsame _ rfl rfl (ho.quiet rfl (fun _ hk _ => hk) fun agg hagg =>
      ho.held agg (hagg.mono rfl rfl rfl))

/-- The case is opened with nothing of it settled. -/
theorem settleOrdered_start (hplanned : ∀ v, plan.planned v ≤ 1) (h : Reached env plan s)
    (hk : .openCase k₁ ∈ s.exam) : SettleOrdered env k₁ σ (s.store.unitRows k₁.unit) s [] := by
  have hok := panicked_of_reach hplanned h
  have hnot := notMem_aggs_of_openCase (hplanned _) h hok hk rfl
  have hflight := flight_of_reach (hplanned k₁.unit) h hok
  have hstarted := (started_of_openCase (hplanned _) h hok hk rfl).1
  obtain ⟨i, hi⟩ := List.getElem?_of_mem hk
  have hone : (flightLedger k₁.unit).exam (.openCase k₁) = 1 := if_pos rfl
  have hexam := Pool.le_total (f := (flightLedger k₁.unit).exam) hi
  refine ⟨fun _ _ _ => rfl, fun agg hagg => ?_, by simp [writtenAggs], (List.append_nil _).symm⟩
  cases hagg with
  | opened hagg => exact absurd (AList.lookup_isSome.mp (by simp [hagg])) hnot
  | exam k hmem hu =>
    -- the worker that opens the case is the only one in it
    obtain ⟨j, hj⟩ := List.getElem?_of_mem hmem
    obtain rfl := unit?_unique (hplanned _) h hok hi hj rfl (congrArg some hu)
    rw [hi] at hj
    cases hj
  | judge j hmem hu =>
    obtain ⟨i', hi'⟩ := List.getElem?_of_mem hmem
    have hjudge := Pool.le_total (f := (flightLedger k₁.unit).judge) hi'
    have hone' : (flightLedger k₁.unit).judge (.write j agg) = 1 := if_pos hu
    simp only [inFlight, Ledger.held] at hflight
    omega

/-- **Settle order.** From the state in which a case is opened, in a run that follows the script
and drops no vote of the case: the aggregate of the case settled the samples of the log in its
order, and so did those it was written from. -/
theorem settleOrdered_of_logged {s₁ : State} (hplanned : ∀ v, plan.planned v ≤ 1)
    (h : Reached env plan s₁) (hk : .openCase k₁ ∈ s₁.exam)
    (hrun : Transition.Logged (step env plan) (Follows k₁.unit σ) (caseEvents k₁.unit) s₁ s log)
    (hkept : ∀ j ∈ s.mem.hist.dropped, j.unit ≠ k₁.unit) :
    SettleOrdered env k₁ σ (s₁.store.unitRows k₁.unit) s log := by
  have hok := panicked_of_reach hplanned h
  have hstarted := (started_of_openCase (hplanned _) h hok hk rfl).1
  induction hrun with
  | refl => exact settleOrdered_start hplanned h hk
  | @tail t v a bs hrun hfollows hstep ih =>
    have hkept' : ∀ j ∈ t.mem.hist.dropped, j.unit ≠ k₁.unit := fun j hj =>
      hkept j ((step_cases hstep).2.dropped_subset hj)
    refine settleOrdered_step hplanned (h.trans hrun.reach) ?_ ?_ (ih hkept') hstep
    · exact started_of_run h hrun.reach (Nat.lt_of_lt_of_eq Nat.one_pos hstarted.symm)
    · exact scripted_of_reach hplanned h hk hrun.reach hkept'

/-- **The row of a case.** When the execution returns, the case was written once, from an
aggregate that settled its samples in the order of the log. -/
theorem wrote_of_returned {s₁ : State} (hplanned : ∀ v, plan.planned v ≤ 1)
    (h : Reached env plan s₁) (hk : .openCase k₁ ∈ s₁.exam)
    (hrun : Transition.Logged (step env plan) (Follows k₁.unit σ) (caseEvents k₁.unit) s₁ s log)
    (hlive : s.mem.canceled = false) (hreturned : s.main = .returned) :
    ∃ agg, writtenAggs log = [agg] ∧ Completes env k₁ σ agg ∧ SettledAs env k₁ σ log agg ∧
      s.store.unitRows k₁.unit = s₁.store.unitRows k₁.unit ++ [caseResult k₁.unit agg] := by
  have hordered := settleOrdered_of_logged hplanned h hk hrun
    (kept_of_live (h.trans hrun.reach) hlive)
  have hrows := unitRows_of_returned hplanned h hk hrun.reach hlive hreturned
  obtain ⟨agg, hagg⟩ : ∃ agg, writtenAggs log = [agg] := by
    rw [hordered.rows, List.append_cancel_left_eq] at hrows
    have hlength := congrArg List.length hrows
    rw [List.length_map] at hlength
    exact List.length_eq_one_iff.mp hlength
  obtain ⟨hcompletes, hsettled⟩ := hordered.wrote agg (by simp [hagg])
  refine ⟨agg, hagg, hcompletes, hsettled, ?_⟩
  rw [hordered.rows, hagg]
  rfl

end HubScope
