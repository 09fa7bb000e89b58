import HubScope.Evaluator.Rows
import HubScope.Evaluator.Samples
import HubScope.Server.Grid

/-!
# One unit along an execution

What an execution does to one unit is done by the exam worker that is in the unit's case and
by the judge workers that carry its votes: every other step leaves the unit's rows, its
aggregate and its open samples alone. A unit that is planned at most once has at most one
exam worker in its case, and once it was taken up nobody takes it up again.

## Main definitions

* `ExamPc.unit?`, `JudgePc.unit?` — the unit a worker is at
* `Beside` — a step beside the unit
* `Outstanding` — a vote of the unit is on offer or with a judge worker

## Main results

* `ExamStep.beside`, `JudgeStep.beside`, `MainStep.beside` — steps of other units
* `unit?_unique` — one exam worker is in the unit's case
* `notMem_todo_of_started` — a unit that was taken up is not taken up again
-/

set_option autoImplicit false

namespace HubScope

variable {env : Env} {plan : Plan} {st st' : Store} {m m' : Shared} {s s' : State} {u : UnitKey}

/-! ### The unit a worker is at -/

/-- The unit whose case an exam worker is in. -/
def ExamPc.unit? : ExamPc → Option UnitKey
  | .openCase k | .call k | .persist k _ | .record k _ _ | .settle k _ | .write k _
  | .enqueue k _ | .offer k _ | .noteOffered k _ => some k.unit
  | .check | .select | .setup _ | .nextCase _ | .stamp _ _ _ _ | .report _ _ | .mark _
  | .finish _ | .exited => none

/-- The unit whose vote a judge worker is at. -/
def JudgePc.unit? : JudgePc → Option UnitKey
  | .take j | .call j | .record j _ | .land j _ | .settle j _ | .write j _ | .decrement j
  | .finish j | .noteDone j => some j.unit
  | .check | .select | .exited => none

theorem unit?_caseDone (k : SampleCursor) : (caseDone plan k).unit? = none :=
  caseDone_rule k (fun _ => rfl) fun _ _ => rfl

theorem unit?_sampleDone_ne {k : SampleCursor} (hu : k.unit ≠ u) :
    (sampleDone env plan k).unit? ≠ some u := by
  unfold sampleDone
  split_ifs
  · exact fun h => hu (Option.some.inj h)
  · rw [unit?_caseDone]
    exact Option.some_ne_none u ∘ Eq.symm

theorem unit?_routeSample (k : SampleCursor) (id : ℕ) (text : String) :
    (routeSample env k id text).unit? = some k.unit :=
  routeSample_rule k id text (fun _ => rfl) fun _ => rfl

/-! ### Steps beside a unit -/

/-- A step beside the unit: its rows, its aggregate and its open samples stay. -/
structure Beside (u : UnitKey) (st : Store) (m : Shared) (st' : Store) (m' : Shared) : Prop where
  rows : st'.unitRows u = st.unitRows u
  started : m'.hist.started.count u = m.hist.started.count u
  written : m'.hist.written.count u = m.hist.written.count u
  agg : m'.pipe.aggs.lookup u = m.pipe.aggs.lookup u
  votes : ∀ n, m'.pipe.votes.lookup ⟨u, n⟩ = m.pipe.votes.lookup ⟨u, n⟩

namespace Beside

theorem of_eq (hrows : st'.unitRows u = st.unitRows u)
    (hstarted : m'.hist.started = m.hist.started) (hwritten : m'.hist.written = m.hist.written)
    (haggs : m'.pipe.aggs = m.pipe.aggs) (hvotes : m'.pipe.votes = m.pipe.votes) :
    Beside u st m st' m' where
  rows := hrows
  started := by rw [hstarted]
  written := by rw [hwritten]
  agg := by rw [haggs]
  votes n := by rw [hvotes]

/-- A step that changes only the aggregates, and not the unit's. -/
theorem of_aggs {aggs : AList fun _ : UnitKey => CaseAggregate}
    (hagg : aggs.lookup u = m.pipe.aggs.lookup u) :
    Beside u st m st { m with pipe := { m.pipe with aggs := aggs } } :=
  ⟨rfl, rfl, rfl, hagg, fun _ => rfl⟩

/-- A step that changes only the votes, and not the unit's. -/
theorem of_votes {votes : AList fun _ : SampleKey => SampleVotes} {κ : SampleKey}
    (hκ : κ.unit ≠ u) (h : (∃ sv, votes = m.pipe.votes.insert κ sv) ∨
      votes = m.pipe.votes.erase κ)
    (hpipe : m'.pipe.votes = votes) (haggs : m'.pipe.aggs = m.pipe.aggs)
    (hstarted : m'.hist.started = m.hist.started)
    (hwritten : m'.hist.written = m.hist.written) : Beside u st m st m' where
  rows := rfl
  started := by rw [hstarted]
  written := by rw [hwritten]
  agg := by rw [haggs]
  votes n := by
    have hne : (⟨u, n⟩ : SampleKey) ≠ κ := fun heq => hκ (congrArg SampleKey.unit heq).symm
    rw [hpipe]
    rcases h with ⟨sv, rfl⟩ | rfl
    · exact AList.lookup_insert_ne hne
    · exact AList.lookup_erase_ne hne

/-- Another unit is taken up. -/
theorem startUnits {v : UnitKey} (hv : v ≠ u) (hrows : st'.unitRows u = st.unitRows u) :
    Beside u st m st' (m.startUnits [v]) where
  rows := hrows
  started := by simp [Shared.startUnits, hv]
  written := rfl
  agg := rfl
  votes _ := rfl

/-- Another unit's row is written. -/
theorem writeUnits {r : EvalResult} (hv : r.unit ≠ u) :
    Beside u st m (st.createEvalResult r) (m.writeUnits [r.unit]) where
  rows := by rw [unitRows_createEvalResult, if_neg hv, List.append_nil]
  started := rfl
  written := by simp [Shared.writeUnits, hv]
  agg := rfl
  votes _ := rfl

end Beside

theorem ne_of_notMem_todo {l : CellCursor} {c : Case} {rest : List Case}
    (hrest : l.rest = c :: rest) (h : u ∉ (ExamPc.nextCase l).todo) :
    (⟨l.cell.run.id, l.cell.modelDbId, c.id⟩ : UnitKey) ≠ u := by
  rintro rfl
  apply h
  change _ ∈ l.todo
  rw [todo_cons hrest]
  exact List.mem_cons_self ..

theorem lookup_openCase_ne (p : Pipeline) {v : UnitKey} (modelId : String)
    (profile : VerdictProfile) (expected : ℕ) (hu : v ≠ u) :
    (p.openCase v modelId profile expected).aggs.lookup u = p.aggs.lookup u := by
  by_cases hmem : v ∈ p.aggs
  · rw [Pipeline.openCase_of_mem hmem]
  · rw [Pipeline.openCase_of_notMem hmem]
    exact AList.lookup_insert_ne (Ne.symm hu)

theorem lookup_settleSample_ne {p q : Pipeline} {v : UnitKey} {median : Option ℚ}
    {done : Option CaseAggregate} (hu : v ≠ u) (h : p.settleSample v median = some (q, done)) :
    q.aggs.lookup u = p.aggs.lookup u := by
  cases done with
  | none =>
    obtain ⟨agg, -, -, rfl⟩ := Pipeline.settleSample_open h
    exact AList.lookup_insert_ne (Ne.symm hu)
  | some done =>
    obtain ⟨agg, -, -, -, rfl⟩ := Pipeline.settleSample_complete h
    exact AList.lookup_erase_ne (Ne.symm hu)

/-- A step of an exam worker that is not in the unit's case and has it not to be taken up. -/
theorem ExamStep.beside {pc pc' : ExamPc} (h : ExamStep env plan st m pc st' m' pc')
    (hu : pc.unit? ≠ some u) (htodo : u ∉ pc.todo) :
    Beside u st m st' m' ∧ pc'.unit? ≠ some u := by
  cases h with
  | begin l c rest hdriver hrest =>
    -- the worker takes up a unit of its own list, on which `u` is not
    have hne := ne_of_notMem_todo hrest htodo
    exact ⟨.startUnits hne rfl, fun heq => hne (Option.some.inj heq)⟩
  | clearNull l c rest hdriver hrest hcan =>
    have hne := ne_of_notMem_todo hrest htodo
    refine ⟨.startUnits hne ?_, fun heq => hne (Option.some.inj heq)⟩
    rw [unitRows_deleteNullScoreResult, if_neg hne]
  | clearAny l c rest hdriver hrest hcan =>
    have hne := ne_of_notMem_todo hrest htodo
    refine ⟨.startUnits hne ?_, fun heq => hne (Option.some.inj heq)⟩
    rw [unitRows_deleteUnitResult, if_neg hne]
  | opened k =>
    have hne : k.unit ≠ u := fun heq => hu (congrArg some heq)
    obtain ⟨aggs, hp⟩ := Pipeline.openCase_eq m.pipe k.unit k.inCell.modelId k.profile
      (env.samples k.case)
    have hagg := lookup_openCase_ne m.pipe k.inCell.modelId k.profile (env.samples k.case) hne
    rw [hp] at hagg ⊢
    exact ⟨.of_aggs hagg, hu⟩
  | recorded k id text latencyMs i o cost p hp =>
    have hne : k.unit ≠ u := fun heq => hu (congrArg some heq)
    obtain ⟨agg, agg', -, rfl, -⟩ := Pipeline.recordAnswer_spec hp
    refine ⟨⟨rfl, rfl, rfl, AList.lookup_insert_ne (Ne.symm hne), fun _ => rfl⟩, ?_⟩
    rw [unit?_routeSample]
    exact hu
  | settled k median p hp =>
    have hne : k.unit ≠ u := fun heq => hu (congrArg some heq)
    have hagg := lookup_settleSample_ne hne hp
    obtain ⟨aggs, rfl⟩ := Pipeline.settleSample_eq hp
    exact ⟨.of_aggs hagg, unit?_sampleDone_ne hne⟩
  | completed k median p agg hp =>
    have hne : k.unit ≠ u := fun heq => hu (congrArg some heq)
    have hagg := lookup_settleSample_ne hne hp
    obtain ⟨aggs, rfl⟩ := Pipeline.settleSample_eq hp
    exact ⟨.of_aggs hagg, hu⟩
  | wrote k agg =>
    have hne : k.unit ≠ u := fun heq => hu (congrArg some heq)
    exact ⟨.writeUnits (r := caseResult k.unit agg) hne, unit?_sampleDone_ne hne⟩
  | registered k id =>
    have hne : k.unit ≠ u := fun heq => hu (congrArg some heq)
    exact ⟨.of_votes (κ := k.sample) hne (.inl ⟨_, rfl⟩) rfl rfl rfl rfl, hu⟩
  | offeredAll k | dropped k =>
    have hne : k.unit ≠ u := fun heq => hu (congrArg some heq)
    exact ⟨.of_eq rfl rfl rfl rfl rfl, unit?_sampleDone_ne hne⟩
  | stamped cell modelId cases answered =>
    -- none of the cases that are stamped is of `u`
    have hzero : ({ cell with cases := cases } : Cell).units.count u = 0 :=
      List.count_eq_zero_of_not_mem htodo
    have hrows := length_filter_failedResult cell modelId cases u
    rw [hzero, List.length_eq_zero_iff] at hrows
    refine ⟨⟨?_, ?_, ?_, rfl, fun _ => rfl⟩, Option.some_ne_none u ∘ Eq.symm⟩
    · rw [unitRows_createEvalResultsBatch, hrows, List.append_nil]
    · simp [Shared.startUnits, Shared.writeUnits, hzero]
    · simp [Shared.startUnits, Shared.writeUnits, hzero]
  | reported cell answered | reportedLast cell answered =>
    obtain ⟨n, hpipe⟩ := reportCell_pipe plan (m.endCell cell) cell.run.id answered
    refine ⟨.of_eq rfl ?_ ?_ ?_ ?_, Option.some_ne_none u ∘ Eq.symm⟩
    · rw [reportCell_hist]
      rfl
    · rw [reportCell_hist]
      rfl
    · rw [hpipe]
      rfl
    · rw [hpipe]
      rfl
  | marked r | markedLast r =>
    refine ⟨.of_eq rfl rfl rfl ?_ ?_, Option.some_ne_none u ∘ Eq.symm⟩
    · exact Pipeline.markCellsDone_aggs m.pipe r
    · exact Pipeline.markCellsDone_votes m.pipe r
  | finished r =>
    refine ⟨.of_eq ?_ rfl rfl rfl rfl, Option.some_ne_none u ∘ Eq.symm⟩
    split <;> rfl
  | called | persisted | unanswered | noted => exact ⟨.of_eq rfl rfl rfl rfl rfl, hu⟩
  | _ => exact ⟨.of_eq rfl rfl rfl rfl rfl, Option.some_ne_none u ∘ Eq.symm⟩

/-- A step of a judge worker with a vote of another unit. -/
theorem JudgeStep.beside {pc pc' : JudgePc} (h : JudgeStep env plan st m pc st' m' pc')
    (hu : pc.unit? ≠ some u) : Beside u st m st' m' ∧ pc'.unit? ≠ some u := by
  cases h with
  | recorded j o =>
    refine ⟨.of_eq ?_ rfl rfl rfl rfl, hu⟩
    exact unitRows_createEvalJudgeScore _ _ _
  | landed j score p hp =>
    have hne : j.unit ≠ u := fun heq => hu (congrArg some heq)
    refine ⟨?_, hu⟩
    rcases Pipeline.landVote_open hp with ⟨-, rfl⟩ | ⟨sv, -, -, rfl⟩
    · exact .of_eq rfl rfl rfl rfl rfl
    · exact .of_votes (κ := j.sample) hne (.inl ⟨_, rfl⟩) rfl rfl rfl rfl
  | votesIn j score p median hp =>
    have hne : j.unit ≠ u := fun heq => hu (congrArg some heq)
    obtain ⟨sv, -, -, -, rfl⟩ := Pipeline.landVote_complete hp
    exact ⟨.of_votes (κ := j.sample) hne (.inr rfl) rfl rfl rfl rfl, hu⟩
  -- the aggregate of another unit is not looked up by this one
  | settled j median p hp | completed j median p agg hp =>
    have hne : j.unit ≠ u := fun heq => hu (congrArg some heq)
    have hagg := lookup_settleSample_ne hne hp
    obtain ⟨aggs, rfl⟩ := Pipeline.settleSample_eq hp
    exact ⟨.of_aggs hagg, hu⟩
  | wrote j agg =>
    have hne : j.unit ≠ u := fun heq => hu (congrArg some heq)
    exact ⟨.writeUnits (r := caseResult j.unit agg) hne, hu⟩
  | decremented j | decrementedLast j =>
    refine ⟨.of_eq rfl rfl rfl ?_ ?_, hu⟩
    · exact Pipeline.decrementPending_aggs m.pipe _
    · exact Pipeline.decrementPending_votes m.pipe _
  | finished j =>
    refine ⟨.of_eq ?_ rfl rfl rfl rfl, hu⟩
    split <;> rfl
  | took | called => exact ⟨.of_eq rfl rfl rfl rfl rfl, hu⟩
  | _ => exact ⟨.of_eq rfl rfl rfl rfl rfl, Option.some_ne_none u ∘ Eq.symm⟩

/-- The driver's goroutine is at no unit. -/
theorem MainStep.beside {examDone judgeDone : Bool} {pc pc' : MainPc}
    (h : MainStep plan st m examDone judgeDone pc st' m' pc') : Beside u st m st' m' := by
  cases h with
  | marked r rs | markedLast r rs =>
    refine .of_eq rfl rfl rfl ?_ ?_
    · exact Pipeline.markCellsDone_aggs m.pipe r
    · exact Pipeline.markCellsDone_votes m.pipe r
  | flushRun r rs _ hst =>
    subst hst
    refine .of_eq ?_ rfl rfl rfl rfl
    split <;> rfl
  | tailRun r rs =>
    refine .of_eq ?_ rfl rfl rfl rfl
    split <;> rfl
  | _ => exact .of_eq rfl rfl rfl rfl rfl

/-! ### One exam worker in a case -/

/-- A worker in a unit's case may still ask every late enough sample of it. -/
theorem asks_of_unit? {pc : ExamPc} (hu : pc.unit? = some u) :
    ∃ n, ∀ N, n ≤ N → 0 < pc.asks ⟨u, N⟩ := by
  have hasks : ∀ (k : SampleCursor) (i N : ℕ), k.unit = u → i ≤ N →
      k.asksFrom ⟨u, N⟩ i = 1 := fun k i N hk hN => if_pos ⟨hk, hN⟩
  cases pc with
  | openCase k | call k | persist k o | record k o id | settle k median | enqueue k id =>
    refine ⟨k.sampleNo, fun N hN => ?_⟩
    have hone := hasks k k.sampleNo N (Option.some.inj hu) hN
    exact Nat.lt_of_lt_of_eq (Nat.add_pos_right _ Nat.one_pos) (congrArg _ hone.symm)
  | write k agg | offer k jobs | noteOffered k jobs =>
    refine ⟨k.sampleNo + 1, fun N hN => ?_⟩
    have hone := hasks k (k.sampleNo + 1) N (Option.some.inj hu) hN
    exact Nat.lt_of_lt_of_eq (Nat.add_pos_right _ Nat.one_pos) (congrArg _ hone.symm)
  | _ => cases hu

/-- **One worker.** A unit that is planned at most once has one exam worker in its case. -/
theorem unit?_unique (hplanned : plan.planned u ≤ 1) (h : Reached env plan s)
    (hok : s.mem.panicked = false) {i j : ℕ} {pc pc' : ExamPc} (hi : s.exam[i]? = some pc)
    (hj : s.exam[j]? = some pc') (hu : pc.unit? = some u) (hu' : pc'.unit? = some u) : i = j := by
  by_contra hij
  obtain ⟨n, hn⟩ := asks_of_unit? hu
  obtain ⟨n', hn'⟩ := asks_of_unit? hu'
  -- both workers could still ask a sample beyond the ones they are at
  have hfirst := hn (max n n') (le_max_left ..)
  have hsecond := hn' (max n n') (le_max_right ..)
  have hvalue := askLedger_of_reach ⟨u, max n n'⟩ h hok
  have hboth := Pool.add_le_total (f := (askLedger plan ⟨u, max n n'⟩).exam) hi hj hij
  have hmem : 0 ≤ (askLedger plan ⟨u, max n n'⟩).mem s.mem := by
    simp only [askLedger]
    split_ifs <;> decide
  simp only [Ledger.value, Ledger.held] at hvalue
  change 0 < (askLedger plan ⟨u, max n n'⟩).exam pc at hfirst
  change 0 < (askLedger plan ⟨u, max n n'⟩).exam pc' at hsecond
  omega

/-- **Taken up once.** A unit that was taken up is not left to anyone. -/
theorem notMem_todo_of_started (hplanned : plan.planned u ≤ 1) (h : Reached env plan s)
    (hok : s.mem.panicked = false) (hstarted : 0 < s.mem.hist.started.count u) {pc : ExamPc}
    (hpc : pc ∈ s.exam) : u ∉ pc.todo := by
  intro hmem
  have htodo := todo_of_reach u h hok
  obtain ⟨i, hi⟩ := List.getElem?_of_mem hpc
  have hheld := Ledger.exam_le_held (L := todoLedger plan u) hi
  have hcount : 0 < (todoLedger plan u).exam pc := List.count_pos_iff.mpr hmem
  omega

/-- A worker in a unit's case has taken the unit up. -/
theorem started_of_openCase (hplanned : plan.planned u ≤ 1) (h : Reached env plan s)
    (hok : s.mem.panicked = false) {k : SampleCursor} (hpc : .openCase k ∈ s.exam)
    (hu : k.unit = u) : s.mem.hist.started.count u = 1 ∧ s.mem.hist.written.count u = 0 := by
  have hflight := flight_of_reach hplanned h hok
  have htodo := todo_of_reach u h hok
  obtain ⟨i, hi⟩ := List.getElem?_of_mem hpc
  have hheld := Ledger.exam_le_held (L := flightLedger u) hi
  have hone : (flightLedger u).exam (.openCase k) = 1 := if_pos hu
  simp only [inFlight] at hflight
  omega

/-! ### Outstanding votes -/

/-- A vote of the slot is on offer or with a judge worker. -/
def Outstanding (κ : SampleKey) (slot : ℕ) (e : Exec) : Prop :=
  ∃ j : JudgeJob, j.sample = κ ∧ j.slot = slot ∧
    ((∃ pc ∈ e.exam, j ∈ pc.jobs) ∨ ∃ pc ∈ e.judge, pc.vote? = some j)

/-- Votes leave the offer loop for a judge worker, or they are dropped. -/
theorem ExamStep.jobs_subset {pc pc' : ExamPc} (h : ExamStep env plan st m pc st' m' pc') :
    pc.jobs ⊆ pc'.jobs ∨ pc.jobs ⊆ m'.hist.dropped := by
  cases h with
  | dropped k jobs => exact .inr (List.subset_append_right m.hist.dropped jobs)
  | noted => exact .inl (List.Subset.refl _)
  | _ => exact .inl (List.nil_subset _)

/-- A vote stays with its judge worker until it lands. -/
theorem JudgeStep.vote?_eq {pc pc' : JudgePc} (h : JudgeStep env plan st m pc st' m' pc')
    {j : JudgeJob} (hj : pc.vote? = some j) : pc'.vote? = some j ∨ ∃ score, pc = .land j score := by
  cases h with
  | took | called | recorded => exact .inl hj
  | landed j' score | votesIn j' score =>
    obtain rfl : j' = j := Option.some.inj hj
    exact .inr ⟨score, rfl⟩
  | _ => cases hj

/-- A vote of a sample none of whose votes is dropped stays outstanding until it lands. -/
theorem outstanding_step {a : Label} {κ : SampleKey} {slot : ℕ}
    (h : Step env plan s a s') (hkept : ∀ j ∈ s'.mem.hist.dropped, j.sample ≠ κ)
    (hout : Outstanding κ slot s.toExec) : Outstanding κ slot s'.toExec ∨
      ∃ i j score, s.judge[i]? = some (.land j score) ∧ j.sample = κ ∧ j.slot = slot ∧
        ∃ c, a = .judge i c := by
  obtain ⟨j, hκ, hslot, hat⟩ := hout
  cases h with
  | main hm => exact .inl ⟨j, hκ, hslot, hat⟩
  | @exam i c pc st m pc' hi he =>
    refine .inl ⟨j, hκ, hslot, ?_⟩
    rcases hat with ⟨pc₀, hpc₀, hjob⟩ | hjudge
    · by_cases hpc : pc₀ = pc
      · subst hpc
        rcases he.jobs_subset with hjobs | hdropped
        · refine .inl ⟨pc', ?_, hjobs hjob⟩
          exact List.mem_set (List.getElem?_eq_some_iff.mp hi).1 _
        · exact absurd hκ (hkept j (hdropped hjob))
      · exact .inl ⟨pc₀, Pool.mem_set_of_ne hpc₀ hi hpc, hjob⟩
    · exact .inr hjudge
  | @judge i c pc st m pc' hi he =>
    rcases hat with hexam | ⟨pc₀, hpc₀, hvote⟩
    · exact .inl ⟨j, hκ, hslot, .inl hexam⟩
    · by_cases hpc : pc₀ = pc
      · subst hpc
        rcases he.vote?_eq hvote with hkept | ⟨score, rfl⟩
        · refine .inl ⟨j, hκ, hslot, .inr ⟨pc', ?_, hkept⟩⟩
          exact List.mem_set (List.getElem?_eq_some_iff.mp hi).1 _
        · exact .inr ⟨i, j, score, hi, hκ, hslot, c, rfl⟩
      · exact .inl ⟨j, hκ, hslot, .inr ⟨pc₀, Pool.mem_set_of_ne hpc₀ hi hpc, hvote⟩⟩
  | @handCell i c cs hmain hi =>
    refine .inl ⟨j, hκ, hslot, hat.imp_left ?_⟩
    rintro ⟨pc₀, hpc₀, hjob⟩
    refine ⟨pc₀, Pool.mem_set_of_ne hpc₀ hi ?_, hjob⟩
    rintro rfl
    cases hjob
  | @handJob i i' k job jobs hi hj =>
    refine .inl ?_
    rcases hat with ⟨pc₀, hpc₀, hjob⟩ | ⟨pc₀, hpc₀, hvote⟩
    · by_cases hpc : pc₀ = .offer k (job :: jobs)
      · subst hpc
        rcases List.mem_cons.mp hjob with rfl | hrest
        · -- the vote handed over is now with the judge worker
          refine ⟨j, hκ, hslot, .inr ⟨.take j, ?_, rfl⟩⟩
          exact List.mem_set (List.getElem?_eq_some_iff.mp hj).1 _
        · refine ⟨j, hκ, hslot, .inl ⟨.noteOffered k jobs, ?_, hrest⟩⟩
          exact List.mem_set (List.getElem?_eq_some_iff.mp hi).1 _
      · exact ⟨j, hκ, hslot, .inl ⟨pc₀, Pool.mem_set_of_ne hpc₀ hi hpc, hjob⟩⟩
    · refine ⟨j, hκ, hslot, .inr ⟨pc₀, Pool.mem_set_of_ne hpc₀ hj ?_, hvote⟩⟩
      rintro rfl
      cases hvote
  | cancel => exact .inl ⟨j, hκ, hslot, hat⟩
  | expire => exact .inl ⟨j, hκ, hslot, hat⟩

end HubScope
