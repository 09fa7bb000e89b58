import HubScope.Evaluator.Execution
import HubScope.Lib.Pool
import HubScope.Lib.Transition

/-!
# What a step of an execution can do

One constructor for each way a goroutine can step, with the guards it passed, and the
inversion lemmas from the step functions. Every invariant of an execution is a case
analysis over these.

## Main definitions

* `ExamStep`, `JudgeStep`, `MainStep` — the steps of one goroutine
* `Reached` — the states of an execution whose store others change too
* `Ledger` — a quantity the goroutines and the memory hold shares of

## Main results

* `examStep_cases`, `judgeStep_cases`, `mainStep_cases`, `step_cases` — inversion
* `workers_of_reach` — what every step of a worker keeps, every worker of a run has
* `Ledger.value_step` — a law of the single goroutines is a law of the execution
-/

namespace HubScope

variable {env : Env} {plan : Plan} {st st' : Store} {m m' : Shared}

/-! ### Branches of an exam worker -/

/-- What holds of the next case and of the stamp of what is left holds after a case. -/
@[elab_as_elim]
theorem caseDone_rule {motive : ExamPc → Prop} (k : SampleCursor)
    (stamp : plan.path.driver = .evalModel →
      motive (.stamp k.inCell.cell k.inCell.modelId k.inCell.rest k.inCell.answered))
    (next : ∀ answered failed,
      motive (.nextCase { k.inCell with answered := answered, consecutiveFailed := failed })) :
    motive (caseDone plan k) := by
  unfold caseDone
  dsimp only
  split
  · rename_i hdriver
    split_ifs
    · exact next true 0
    · exact stamp hdriver
    · exact next _ _
  · exact next k.inCell.answered k.inCell.consecutiveFailed
  · exact next k.inCell.answered k.inCell.consecutiveFailed

/-- What holds of the next sample and after the case holds after a sample. -/
@[elab_as_elim]
theorem sampleDone_rule {motive : ExamPc → Prop} (k : SampleCursor)
    (call : k.sampleNo < env.samples k.case →
      motive (.call { k with sampleNo := k.sampleNo + 1 }))
    (caseDone : ¬ k.sampleNo < env.samples k.case → motive (caseDone plan k)) :
    motive (sampleDone env plan k) := by
  unfold sampleDone
  split_ifs with hmore
  · exact call hmore
  · exact caseDone hmore

/-- What holds of settling a sample and of sending it to the jury holds of where an answered
sample goes. -/
@[elab_as_elim]
theorem routeSample_rule {motive : ExamPc → Prop} (k : SampleCursor) (id : ℕ) (text : String)
    (settle : ∀ median, motive (.settle k median))
    (enqueue : k.judges ≠ [] → motive (.enqueue k id)) : motive (routeSample env k id text) := by
  unfold routeSample
  split
  · exact settle _
  · split_ifs with hjudges
    · exact settle none
    · exact enqueue hjudges

/-! ### Steps -/

/-- The steps of an exam worker. -/
inductive ExamStep (env : Env) (plan : Plan) (st : Store) (m : Shared) :
    ExamPc → Store → Shared → ExamPc → Prop
  | stopped : m.canceled = true → ExamStep env plan st m .check st m .exited
  | overBudget : m.canceled = false → budgetExceeded plan m = true →
      ExamStep env plan st m .check st { m with canceled := true } .exited
  | polled : m.canceled = false → budgetExceeded plan m = false →
      ExamStep env plan st m .check st m .select
  | leave : m.canceled = true ∨ m.cellsClosed = true →
      ExamStep env plan st m .select st m .exited
  | skip (cell n) : ExamStep env plan st m (.setup cell) st
      ({ m with pipe := { m.pipe with examStarted := n } }.skipCell cell) (.report cell false)
  | stampAll (cell n modelId) : plan.path.driver = .evalModel →
      ExamStep env plan st m (.setup cell) st
        { m with pipe := { m.pipe with examStarted := n } }
        (.stamp cell modelId cell.cases false)
  | ready (cell n modelId) : ExamStep env plan st m (.setup cell) st
      { m with pipe := { m.pipe with examStarted := n } }
      (.nextCase ⟨cell, modelId, false, 0, cell.cases⟩)
  | casesDone (l) : l.rest = [] →
      ExamStep env plan st m (.nextCase l) st m (.report l.cell l.answered)
  | cut (l) : plan.path.driver ≠ .evalModel → m.canceled = true → l.rest ≠ [] →
      ExamStep env plan st m (.nextCase l) st (m.cutCell l) (.report l.cell l.answered)
  | begin (l c rest) : plan.path.driver = .evalModel → l.rest = c :: rest →
      ExamStep env plan st m (.nextCase l) st
        (m.startUnits [⟨l.cell.run.id, l.cell.modelDbId, c.id⟩])
        (.openCase ⟨{ l with rest := rest }, c, 1, false⟩)
  | clearNull (l c rest) : plan.path.driver = .retryModel → l.rest = c :: rest →
      m.canceled = false →
      ExamStep env plan st m (.nextCase l)
        (st.deleteNullScoreResult ⟨l.cell.run.id, l.cell.modelDbId, c.id⟩)
        (m.startUnits [⟨l.cell.run.id, l.cell.modelDbId, c.id⟩])
        (.openCase ⟨{ l with rest := rest }, c, 1, false⟩)
  | clearAny (l c rest) : plan.path.driver = .retryModelAny → l.rest = c :: rest →
      m.canceled = false →
      ExamStep env plan st m (.nextCase l)
        (st.deleteUnitResult ⟨l.cell.run.id, l.cell.modelDbId, c.id⟩)
        (m.startUnits [⟨l.cell.run.id, l.cell.modelDbId, c.id⟩])
        (.openCase ⟨{ l with rest := rest }, c, 1, false⟩)
  | opened (k) : ExamStep env plan st m (.openCase k) st
      { m with pipe := m.pipe.openCase k.unit k.inCell.modelId k.profile (env.samples k.case) }
      (.call k)
  | called (k o) : ExamStep env plan st m (.call k) st m (.persist k o)
  | persisted (k o) : ExamStep env plan st m (.persist k o)
      (st.createEvalAnswer (answerRow k o)).1 m
      (.record k o (st.createEvalAnswer (answerRow k o)).2)
  | unanswered (k id latencyMs i o) :
      ExamStep env plan st m (.record k (.failed latencyMs i o) id) st m (.settle k none)
  | recordCrash (k id text latencyMs i o) : k.unit ∉ m.pipe.aggs →
      ExamStep env plan st m (.record k (.answered text latencyMs i o) id) st m.panic .exited
  | recorded (k id text latencyMs i o cost p) :
      (m.pipe.recordExamCost k.unit.runId cost).recordAnswer k.unit latencyMs i o text = some p →
      cost = Pipeline.callCostUSD env.price k.inCell.modelId i o →
      ExamStep env plan st m (.record k (.answered text latencyMs i o) id) st
        { m with pipe := p } (routeSample env { k with answered := true } id text)
  | settleCrash (k median) : m.pipe.settleSample k.unit median = none →
      ExamStep env plan st m (.settle k median) st m.panic .exited
  | settled (k median p) : m.pipe.settleSample k.unit median = some (p, none) →
      ExamStep env plan st m (.settle k median) st { m with pipe := p } (sampleDone env plan k)
  | completed (k median p agg) : m.pipe.settleSample k.unit median = some (p, some agg) →
      ExamStep env plan st m (.settle k median) st { m with pipe := p } (.write k agg)
  | wrote (k agg) : ExamStep env plan st m (.write k agg)
      (st.createEvalResult (caseResult k.unit agg)) (m.writeUnits [k.unit])
      (sampleDone env plan k)
  | registered (k id) : ExamStep env plan st m (.enqueue k id) st
      { m.enqueueVotes (jobsOf k id) with
        pipe := m.pipe.registerVotes k.sample k.judges.length } (.offer k (jobsOf k id))
  | offeredAll (k) : ExamStep env plan st m (.offer k []) st m (sampleDone env plan k)
  | dropped (k jobs) : jobs ≠ [] → m.canceled = true →
      ExamStep env plan st m (.offer k jobs) st (m.dropVotes jobs) (sampleDone env plan k)
  | noted (k jobs n) : ExamStep env plan st m (.noteOffered k jobs) st
      { m with pipe := { m.pipe with judgeOffered := n } } (.offer k jobs)
  | stamped (cell modelId cases answered) :
      ExamStep env plan st m (.stamp cell modelId cases answered)
        (st.createEvalResultsBatch (cases.map (failedResult cell.run cell.modelDbId modelId)))
        ((m.startUnits ({ cell with cases := cases } : Cell).units).writeUnits
          ({ cell with cases := cases } : Cell).units) (.report cell answered)
  | reported (cell answered) :
      (reportCell plan (m.endCell cell) cell.run.id answered).2 = false →
      ExamStep env plan st m (.report cell answered) st
        (reportCell plan (m.endCell cell) cell.run.id answered).1 .check
  | reportedLast (cell answered) :
      (reportCell plan (m.endCell cell) cell.run.id answered).2 = true →
      ExamStep env plan st m (.report cell answered) st
        (reportCell plan (m.endCell cell) cell.run.id answered).1 (.mark cell.run.id)
  | marked (runId) : (m.pipe.markCellsDone runId).2 = false →
      ExamStep env plan st m (.mark runId) st
        { m with pipe := (m.pipe.markCellsDone runId).1 } .check
  | markedLast (runId) : (m.pipe.markCellsDone runId).2 = true →
      ExamStep env plan st m (.mark runId) st
        { m with pipe := (m.pipe.markCellsDone runId).1 } (.finish runId)
  | finished (runId) : ExamStep env plan st m (.finish runId)
      (if plan.path.finishesRuns then st.finishEvalRun runId .done else st) m .check

/-- The steps of a judge worker. -/
inductive JudgeStep (env : Env) (plan : Plan) (st : Store) (m : Shared) :
    JudgePc → Store → Shared → JudgePc → Prop
  | stopped : m.canceled = true → JudgeStep env plan st m .check st m .exited
  | overBudget : m.canceled = false → budgetExceeded plan m = true →
      JudgeStep env plan st m .check st m .exited
  | polled : m.canceled = false → budgetExceeded plan m = false →
      JudgeStep env plan st m .check st m .select
  | leave : m.canceled = true ∨ m.jobsClosed = true →
      JudgeStep env plan st m .select st m .exited
  | took (j n) : JudgeStep env plan st m (.take j) st
      { m with pipe := { m.pipe with judgeTaken := n } } (.call j)
  | called (j o) : (∀ i o', o = .cutOff i o' → m.canceled = true) →
      JudgeStep env plan st m (.call j) st m (.record j o)
  | recorded (j o cost) :
      cost = Pipeline.callCostUSD env.price j.judgeModel o.inputTokens o.outputTokens →
      JudgeStep env plan st m (.record j o)
      (st.createEvalJudgeScore (judgeScoreRow j o))
      { m with
        pipe := m.pipe.recordJudgeCost j.unit.runId cost
        hist := { m.hist with verdicts := m.hist.verdicts ++ [(j, o)] } }
      (.land j o.score)
  | landed (j score p) : m.pipe.landVote j score = (p, none) →
      JudgeStep env plan st m (.land j score) st { m with pipe := p } (.decrement j)
  | votesIn (j score p median) : m.pipe.landVote j score = (p, some median) →
      JudgeStep env plan st m (.land j score) st { m with pipe := p } (.settle j median)
  | settleCrash (j median) : m.pipe.settleSample j.unit median = none →
      JudgeStep env plan st m (.settle j median) st m.panic .exited
  | settled (j median p) : m.pipe.settleSample j.unit median = some (p, none) →
      JudgeStep env plan st m (.settle j median) st { m with pipe := p } (.decrement j)
  | completed (j median p agg) : m.pipe.settleSample j.unit median = some (p, some agg) →
      JudgeStep env plan st m (.settle j median) st { m with pipe := p } (.write j agg)
  | wrote (j agg) : JudgeStep env plan st m (.write j agg)
      (st.createEvalResult (caseResult j.unit agg)) (m.writeUnits [j.unit]) (.decrement j)
  | decremented (j) : (m.pipe.decrementPending j.unit.runId).2 = false →
      JudgeStep env plan st m (.decrement j) st
        { m with pipe := (m.pipe.decrementPending j.unit.runId).1 } (.noteDone j)
  | decrementedLast (j) : (m.pipe.decrementPending j.unit.runId).2 = true →
      JudgeStep env plan st m (.decrement j) st
        { m with pipe := (m.pipe.decrementPending j.unit.runId).1 } (.finish j)
  | finished (j) : JudgeStep env plan st m (.finish j)
      (if plan.path.finishesRuns then st.finishEvalRun j.unit.runId .done else st) m (.noteDone j)
  | noted (j n f) : JudgeStep env plan st m (.noteDone j) st
      { m with pipe := { m.pipe with judgeDone := n, judgeDoneByModel := f } } .check

/-- The steps of the driver's goroutine. -/
inductive MainStep (plan : Plan) (st : Store) (m : Shared) (examDone judgeDone : Bool) :
    MainPc → Store → Shared → MainPc → Prop
  | begun : MainStep plan st m examDone judgeDone (.begin []) st m (.feed plan.cells)
  | marked (r rs) : (m.pipe.markCellsDone r).2 = false →
      MainStep plan st m examDone judgeDone (.begin (r :: rs)) st
        { m with pipe := (m.pipe.markCellsDone r).1 } (.begin rs)
  | markedLast (r rs) : (m.pipe.markCellsDone r).2 = true →
      MainStep plan st m examDone judgeDone (.begin (r :: rs)) st
        { m with pipe := (m.pipe.markCellsDone r).1 } (.beginFinish r rs)
  | finished (r rs) : MainStep plan st m examDone judgeDone (.beginFinish r rs)
      (st.finishEvalRun r .done) m (.begin rs)
  | fedAll : MainStep plan st m examDone judgeDone (.feed []) st { m with cellsClosed := true }
      .wait
  | stopped (c cs) : m.canceled = true →
      MainStep plan st m examDone judgeDone (.feed (c :: cs)) st
        { m.dropCells (c :: cs) with cellsClosed := true } .wait
  | overBudget (c cs) : m.canceled = false → budgetExceeded plan m = true →
      MainStep plan st m examDone judgeDone (.feed (c :: cs)) st
        { m.dropCells (c :: cs) with canceled := true, cellsClosed := true } .wait
  | polled (c cs) : m.canceled = false → budgetExceeded plan m = false →
      MainStep plan st m examDone judgeDone (.feed (c :: cs)) st m (.offer c cs)
  | dropped (c cs) : m.canceled = true →
      MainStep plan st m examDone judgeDone (.offer c cs) st
        { m.dropCells (c :: cs) with cellsClosed := true } .wait
  | waited : examDone = true →
      MainStep plan st m examDone judgeDone .wait st { m with jobsClosed := true } .drain
  | drained : judgeDone = true →
      MainStep plan st m examDone judgeDone .drain st m (.flush plan.runs)
  | flushed : plan.path.finishesRuns = true →
      MainStep plan st m examDone judgeDone (.flush []) st m (.tail plan.runs)
  | flushedLive : plan.path.finishesRuns = false →
      MainStep plan st m examDone judgeDone (.flush []) st m .returned
  | flushRun (r rs st') : st' = (match m.pipe.costs r with
        | some cs => st.setEvalRunCost r cs.stored
        | none => st) →
      MainStep plan st m examDone judgeDone (.flush (r :: rs)) st' m (.flush rs)
  | tailDone : MainStep plan st m examDone judgeDone (.tail []) st m .settleSelect
  | tailRun (r rs) : MainStep plan st m examDone judgeDone (.tail (r :: rs))
      (if m.pipe.finished r then st else st.finishEvalRun r .failed) m (.tail rs)
  | verdict (status) : st.settleVerdict plan.campaignId = some status →
      MainStep plan st m examDone judgeDone .settleSelect st m (.settleUpdate status)
  | unsettled : st.settleVerdict plan.campaignId = none →
      MainStep plan st m examDone judgeDone .settleSelect st m .returned
  | updated (status) : MainStep plan st m examDone judgeDone (.settleUpdate status)
      (st.settleUpdate plan.campaignId status) m .returned

/-! ### Inversion -/

theorem recordAnswer_eq_none_iff {p : Pipeline} {u : UnitKey} {latencyMs : ℕ}
    {i o : Option ℕ} {text : String} :
    p.recordAnswer u latencyMs i o text = none ↔ u ∉ p.aggs := by
  simp [Pipeline.recordAnswer, AList.lookup_eq_none]

theorem recordExamCost_aggs {p : Pipeline} {r : ℕ} {cost : Option ℚ} :
    (p.recordExamCost r cost).aggs = p.aggs := rfl

theorem examStep_cases {pc pc' : ExamPc} {c : ExamChoice}
    (h : examStep env plan st m pc c = some (st', m', pc')) :
    ExamStep env plan st m pc st' m' pc' := by
  unfold examStep at h
  split at h
  -- the branches of `examStep` in its order; each is one step of the relation
  case h_1 =>
    split_ifs at h with hc hb
    · cases h
      exact .stopped hc
    · cases h
      exact .overBudget (by simpa using hc) hb
    · cases h
      exact .polled (by simpa using hc) (by simpa using hb)
  case h_2 =>
    split_ifs at h with hc
    cases h
    exact .leave hc
  case h_3 cell o =>
    have hstart : ∃ n, (if plan.path.guarded = true then
        { m with pipe := { m.pipe with examStarted := m.pipe.examStarted + 1 } } else m) =
        { m with pipe := { m.pipe with examStarted := n } } := by
      split_ifs
      · exact ⟨_, rfl⟩
      · exact ⟨m.pipe.examStarted, rfl⟩
    obtain ⟨n, hn⟩ := hstart
    simp only [hn] at h
    split at h
    · cases h
      exact .ready cell n _
    · split_ifs at h
      · cases h
        exact .skip cell n
      · cases h
        exact .ready cell n _
    · split at h
      · cases h
        exact .stampAll cell n _ (by assumption)
      · cases h
        exact .skip cell n
  case h_4 l =>
    split at h
    · cases h
      exact .casesDone l (by assumption)
    · rename_i c rest hrest
      have hne : l.rest ≠ [] := by simp [hrest]
      split at h
      · cases h
        exact .begin l c rest (by assumption) hrest
      · rename_i hdriver
        split_ifs at h with hc
        · cases h
          exact .cut l (by simp [hdriver]) hc hne
        · cases h
          exact .clearNull l c rest hdriver hrest (by simpa using hc)
      · rename_i hdriver
        split_ifs at h with hc
        · cases h
          exact .cut l (by simp [hdriver]) hc hne
        · cases h
          exact .clearAny l c rest hdriver hrest (by simpa using hc)
  case h_5 k =>
    cases h
    exact .opened k
  case h_6 k o =>
    cases h
    exact .called k o
  case h_7 k o =>
    cases h
    exact .persisted k o
  case h_8 k o id =>
    split at h
    · cases h
      exact .unanswered k id _ _ _
    · dsimp only at h
      split at h
      · rename_i hp
        cases h
        exact .recordCrash k id _ _ _ _
          (recordExamCost_aggs ▸ recordAnswer_eq_none_iff.mp hp)
      · rename_i hp
        cases h
        exact .recorded k id _ _ _ _ _ _ hp rfl
  case h_9 k median =>
    split at h
    · rename_i hp
      cases h
      exact .settleCrash k median hp
    · rename_i hp
      cases h
      exact .settled k median _ hp
    · rename_i hp
      cases h
      exact .completed k median _ _ hp
  case h_10 k agg =>
    cases h
    exact .wrote k agg
  case h_11 k id =>
    cases h
    exact .registered k id
  case h_12 k jobs =>
    split_ifs at h with hj hc
    · cases h
      subst hj
      exact .offeredAll k
    · cases h
      exact .dropped k jobs hj hc
  case h_13 k jobs =>
    cases h
    exact .noted k jobs _
  case h_14 cell modelId cases answered =>
    cases h
    exact .stamped cell modelId cases answered
  case h_15 cell answered =>
    simp only [Option.some.injEq, Prod.mk.injEq] at h
    obtain ⟨rfl, rfl, rfl⟩ := h
    split_ifs with hlast
    · exact .reportedLast cell answered hlast
    · exact .reported cell answered (by simpa using hlast)
  case h_16 runId =>
    simp only [Option.some.injEq, Prod.mk.injEq] at h
    obtain ⟨rfl, rfl, rfl⟩ := h
    split_ifs with hlast
    · exact .markedLast runId hlast
    · exact .marked runId (by simpa using hlast)
  case h_17 runId =>
    cases h
    exact .finished runId
  case h_18 => cases h

theorem judgeStep_cases {pc pc' : JudgePc} {c : JudgeChoice}
    (h : judgeStep env plan st m pc c = some (st', m', pc')) :
    JudgeStep env plan st m pc st' m' pc' := by
  unfold judgeStep at h
  split at h
  -- the branches of `judgeStep` in its order
  case h_1 =>
    split_ifs at h with hc
    · cases h
      by_cases hcan : m.canceled = true
      · exact .stopped hcan
      · exact .overBudget (by simpa using hcan) (hc.resolve_left hcan)
    · cases h
      obtain ⟨hcan, hbudget⟩ := not_or.mp hc
      exact .polled (by simpa using hcan) (by simpa using hbudget)
  case h_2 =>
    split_ifs at h with hc
    cases h
    exact .leave hc
  case h_3 j =>
    cases h
    exact .took j _
  case h_4 j o =>
    split at h
    · split_ifs at h with hc
      cases h
      exact .called j _ fun _ _ _ => hc
    · rename_i hne
      cases h
      exact .called j o fun i o' ho => absurd ho (hne i o')
  case h_5 j o =>
    cases h
    exact .recorded j o _ rfl
  case h_6 j score =>
    split at h
    · rename_i hp
      cases h
      exact .landed j score _ hp
    · rename_i hp
      cases h
      exact .votesIn j score _ _ hp
  case h_7 j median =>
    split at h
    · rename_i hp
      cases h
      exact .settleCrash j median hp
    · rename_i hp
      cases h
      exact .settled j median _ hp
    · rename_i hp
      cases h
      exact .completed j median _ _ hp
  case h_8 j agg =>
    cases h
    exact .wrote j agg
  case h_9 j =>
    simp only [Option.some.injEq, Prod.mk.injEq] at h
    obtain ⟨rfl, rfl, rfl⟩ := h
    split_ifs with hlast
    · exact .decrementedLast j hlast
    · exact .decremented j (by simpa using hlast)
  case h_10 j =>
    cases h
    exact .finished j
  case h_11 j =>
    cases h
    exact .noted j _ _
  case h_12 => cases h

theorem mainStep_cases {examDone judgeDone : Bool} {pc pc' : MainPc}
    (h : mainStep plan st m examDone judgeDone pc = some (st', m', pc')) :
    MainStep plan st m examDone judgeDone pc st' m' pc' := by
  unfold mainStep at h
  split at h
  -- the branches of `mainStep` in its order
  case h_1 =>
    cases h
    exact .begun
  case h_2 r rs =>
    simp only [Option.some.injEq, Prod.mk.injEq] at h
    obtain ⟨rfl, rfl, rfl⟩ := h
    split_ifs with hlast
    · exact .markedLast r rs hlast
    · exact .marked r rs (by simpa using hlast)
  case h_3 r rs =>
    cases h
    exact .finished r rs
  case h_4 =>
    cases h
    exact .fedAll
  case h_5 c cs =>
    split_ifs at h with hc hb
    · cases h
      exact .stopped c cs hc
    · cases h
      exact .overBudget c cs (by simpa using hc) hb
    · cases h
      exact .polled c cs (by simpa using hc) (by simpa using hb)
  case h_6 c cs =>
    split_ifs at h with hc
    cases h
    exact .dropped c cs hc
  case h_7 =>
    split_ifs at h with hd
    cases h
    exact .waited hd
  case h_8 =>
    split_ifs at h with hd
    cases h
    exact .drained hd
  case h_9 =>
    simp only [Option.some.injEq, Prod.mk.injEq] at h
    obtain ⟨rfl, rfl, rfl⟩ := h
    split_ifs with hfinish
    · exact .flushed hfinish
    · exact .flushedLive (by simpa using hfinish)
  case h_10 r rs =>
    cases h
    exact .flushRun r rs _ rfl
  case h_11 =>
    cases h
    exact .tailDone
  case h_12 r rs =>
    cases h
    exact .tailRun r rs
  case h_13 =>
    split at h
    · rename_i hv
      cases h
      exact .verdict _ hv
    · rename_i hv
      cases h
      exact .unsettled hv
  case h_14 status =>
    cases h
    exact .updated status
  case h_15 => cases h

/-- A step of an execution is a step of one goroutine, a rendezvous or a change of the
environment. -/
inductive Step (env : Env) (plan : Plan) (s : State) : Label → State → Prop
  | main {st m pc} : MainStep plan s.store s.mem (s.exam.all (· = .exited))
        (s.judge.all (· = .exited)) s.main st m pc →
      Step env plan s .main { s with store := st, mem := m, main := pc }
  | exam {i c pc st m pc'} : s.exam[i]? = some pc → ExamStep env plan s.store s.mem pc st m pc' →
      Step env plan s (.exam i c) { s with store := st, mem := m, exam := s.exam.set i pc' }
  | judge {j c pc st m pc'} : s.judge[j]? = some pc →
      JudgeStep env plan s.store s.mem pc st m pc' →
      Step env plan s (.judge j c) { s with store := st, mem := m, judge := s.judge.set j pc' }
  | handCell {i c cs} : s.main = .offer c cs → s.exam[i]? = some .select →
      Step env plan s (.handCell i) { s with exam := s.exam.set i (.setup c), main := .feed cs }
  | handJob {i j k job jobs} : s.exam[i]? = some (.offer k (job :: jobs)) →
      s.judge[j]? = some .select →
      Step env plan s (.handJob i j)
        { s with exam := s.exam.set i (.noteOffered k jobs), judge := s.judge.set j (.take job) }
  | cancel : Step env plan s .cancel { s with mem := { s.mem with canceled := true } }
  | expire : Step env plan s .expire { s with mem := { s.mem with expired := true } }

variable {s s' : State}

/-- **Inversion.** What a step of an execution can do. -/
theorem step_cases {a : Label} (h : step env plan s a = some s') :
    s.mem.panicked = false ∧ Step env plan s a s' := by
  unfold step at h
  split_ifs at h with hp
  refine ⟨by simpa using hp, ?_⟩
  cases a with
  | main =>
    simp only [Option.map_eq_some_iff, Prod.exists] at h
    obtain ⟨st, m, pc, hpc, rfl⟩ := h
    exact .main (mainStep_cases hpc)
  | exam i c =>
    simp only [Option.bind_eq_some_iff, Option.map_eq_some_iff, Prod.exists] at h
    obtain ⟨pc, hi, st, m, pc', hpc, rfl⟩ := h
    exact .exam hi (examStep_cases hpc)
  | judge j c =>
    simp only [Option.bind_eq_some_iff, Option.map_eq_some_iff, Prod.exists] at h
    obtain ⟨pc, hj, st, m, pc', hpc, rfl⟩ := h
    exact .judge hj (judgeStep_cases hpc)
  | handCell i =>
    dsimp only at h
    split at h
    · rename_i hmain hexam
      cases h
      exact .handCell hmain hexam
    · cases h
  | handJob i j =>
    dsimp only at h
    split at h
    · rename_i hexam hjudge
      cases h
      exact .handJob hexam hjudge
    · cases h
  | cancel =>
    cases h
    exact .cancel
  | expire =>
    cases h
    exact .expire

/-- The outcome of an answer call is the one the label gives. -/
theorem answer_of_step {i : ℕ} {c : ExamChoice} {k : SampleCursor} {o : AnswerOutcome}
    (hi : s.exam[i]? = some (.call k))
    (h : step env plan s (.exam i c) =
      some { s with store := st, mem := m, exam := s.exam.set i (.persist k o) }) :
    c = .answer o := by
  have hlt : i < s.exam.length := (List.getElem?_eq_some_iff.mp hi).1
  unfold step at h
  split_ifs at h
  simp only [hi, Option.bind_some] at h
  cases c with
  | answer o' =>
    simp only [examStep, Option.map_some, Option.some.injEq, State.mk.injEq, Exec.mk.injEq] at h
    have hpc := congrArg (·[i]?) h.1.2.1
    simp only [List.getElem?_set_self hlt, Option.some.injEq, ExamPc.persist.injEq] at hpc
    rw [hpc.2]
  | go | setup o' => simp [examStep] at h

/-- The outcome of a judge call is the one the label gives. -/
theorem verdict_of_step {i : ℕ} {c : JudgeChoice} {j : JudgeJob} {o : JudgeOutcome}
    (hi : s.judge[i]? = some (.call j))
    (h : step env plan s (.judge i c) =
      some { s with store := st, mem := m, judge := s.judge.set i (.record j o) }) :
    c = .verdict o := by
  have hlt : i < s.judge.length := (List.getElem?_eq_some_iff.mp hi).1
  unfold step at h
  split_ifs at h
  simp only [hi, Option.bind_some] at h
  cases c with
  | verdict o' =>
    obtain ⟨⟨st₁, m₁, pc₁⟩, hjudge, heq⟩ := Option.map_eq_some_iff.mp h
    have hpc := congrArg (fun t : State => t.judge[i]?) heq
    simp only [List.getElem?_set_self hlt, Option.some.injEq] at hpc
    subst hpc
    unfold judgeStep at hjudge
    dsimp only at hjudge
    split at hjudge
    · split_ifs at hjudge
      cases hjudge
      rfl
    · cases hjudge
      rfl
  | go => simp [judgeStep] at h

/-! ### Reached states -/

/-- The states of an execution. Between its steps, what others do to the store is theirs. -/
inductive Reached (env : Env) (plan : Plan) : State → Prop
  | start (st : Store) : Reached env plan (plan.start env st)
  | step {s s' : State} {a : Label} : Reached env plan s → HubScope.step env plan s a = some s' →
      Reached env plan s'
  | others {s : State} (st : Store) : Reached env plan s → Reached env plan { s with store := st }

/-- A run that nobody interferes with. -/
theorem reached_of_reach {guard : State → Label → Prop} {s : State}
    (h : Transition.Reach (step env plan) guard (plan.start env st) s) : Reached env plan s :=
  h.invariant (.start st) fun _ _ _ hs _ hstep => hs.step hstep

/-- What an execution goes on to reach it reaches. -/
theorem Reached.trans {guard : State → Label → Prop} {s t : State} (h : Reached env plan s)
    (hrun : Transition.Reach (HubScope.step env plan) guard s t) : Reached env plan t :=
  hrun.invariant h fun _ _ _ hs _ hstep => hs.step hstep

/-- **Invariant rule.** What an execution starts with and its steps keep, and what no store
call of another can take from it, it has in every state. -/
theorem Reached.invariant {I : State → Prop} (hstart : ∀ st, I (plan.start env st))
    (hstep : ∀ s a s', Reached env plan s → I s → s.mem.panicked = false →
      Step env plan s a s' → I s')
    (hothers : ∀ s st, I s → I { s with store := st }) {s : State} (h : Reached env plan s) :
    I s := by
  induction h with
  | start st => exact hstart st
  | step hrun hs ih =>
    obtain ⟨hlive, hcases⟩ := step_cases hs
    exact hstep _ _ _ hrun ih hlive hcases
  | others st _ ih => exact hothers _ st ih

/-- **Goroutine rule.** What a worker has at the top of its loop, keeps in its steps and is
handed over the channels with, every worker has in every state of a run. -/
theorem workers_of_reach {Q : ExamPc → Prop}
    {R : JudgePc → Prop} (hcheck : Q .check) (hcheck' : R .check)
    (hexam : ∀ st m pc st' m' pc', Q pc → ExamStep env plan st m pc st' m' pc' → Q pc')
    (hjudge : ∀ st m pc st' m' pc', R pc → JudgeStep env plan st m pc st' m' pc' → R pc')
    (hcell : ∀ c ∈ plan.cells, Q (.setup c))
    (hjob : ∀ k job jobs, Q (.offer k (job :: jobs)) → Q (.noteOffered k jobs) ∧ R (.take job))
    {s : State} (h : Reached env plan s) :
    (∀ pc ∈ s.exam, Q pc) ∧ (∀ pc ∈ s.judge, R pc) ∧ plan.left s.main ⊆ plan.cells := by
  refine Reached.invariant (I := fun t : State => (∀ pc ∈ t.exam, Q pc) ∧
    (∀ pc ∈ t.judge, R pc) ∧ plan.left t.main ⊆ plan.cells) (fun st => ⟨?_, ?_, ?_⟩) ?_
    (fun _ _ ht => ht) h
  · intro pc hpc
    rwa [List.eq_of_mem_replicate hpc]
  · intro pc hpc
    rwa [List.eq_of_mem_replicate hpc]
  · exact List.Subset.refl _
  · rintro t a u - ⟨hQ, hR, hleft⟩ - hcases
    cases hcases with
    | main hm =>
      -- the driver feeds the cells of the plan, from the front
      refine ⟨hQ, hR, ?_⟩
      generalize t.main = pc₀ at hm hleft
      cases hm with
      | begun => exact List.Subset.refl _
      | marked | markedLast | finished | polled => exact hleft
      | _ => exact List.nil_subset _
    | exam hi he =>
      exact ⟨Pool.forall_mem_set hQ (hexam _ _ _ _ _ _ (hQ _ (List.mem_of_getElem? hi)) he), hR,
        hleft⟩
    | judge hj he =>
      exact ⟨hQ, Pool.forall_mem_set hR (hjudge _ _ _ _ _ _ (hR _ (List.mem_of_getElem? hj)) he),
        hleft⟩
    | handCell hmain hi =>
      rw [hmain] at hleft
      refine ⟨Pool.forall_mem_set hQ (hcell _ (hleft (List.mem_cons_self ..))), hR, ?_⟩
      exact fun c hc => hleft (List.mem_cons_of_mem _ hc)
    | handJob hi hj =>
      obtain ⟨hnote, htake⟩ := hjob _ _ _ (hQ _ (List.mem_of_getElem? hi))
      exact ⟨Pool.forall_mem_set hQ hnote, Pool.forall_mem_set hR htake, hleft⟩
    | cancel => exact ⟨hQ, hR, hleft⟩
    | expire => exact ⟨hQ, hR, hleft⟩

/-! ### Ledgers -/

/-- A quantity of an execution: the shares its goroutines hold, and the balance the memory
holds of it, negative where it owes. -/
structure Ledger where
  mem : Shared → ℤ
  main : MainPc → ℕ
  exam : ExamPc → ℕ
  judge : JudgePc → ℕ

namespace Ledger

variable {L : Ledger} {s s' : State} {a : Label}

/-- The threads' part of the quantity. -/
def held (L : Ledger) (s : Exec) : ℕ :=
  L.main s.main + Pool.total L.exam s.exam + Pool.total L.judge s.judge

/-- The whole quantity in a state. -/
def value (L : Ledger) (s : State) : ℤ := L.mem s.mem + L.held s.toExec

/-- The steps of single goroutines relate the quantity by `R`, the rendezvous and the
environment leave it alone. -/
structure Law (L : Ledger) (R : ℤ → ℤ → Prop) (env : Env) (plan : Plan) (s : State) :
    Prop where
  main : ∀ pc st m pc', pc = s.main → MainStep plan s.store s.mem (s.exam.all (· = .exited))
    (s.judge.all (· = .exited)) pc st m pc' →
      R (L.mem m + L.main pc') (L.mem s.mem + L.main pc)
  exam : ∀ pc st m pc', pc ∈ s.exam → ExamStep env plan s.store s.mem pc st m pc' →
    m.panicked = false → R (L.mem m + L.exam pc') (L.mem s.mem + L.exam pc)
  judge : ∀ pc st m pc', pc ∈ s.judge → JudgeStep env plan s.store s.mem pc st m pc' →
    m.panicked = false → R (L.mem m + L.judge pc') (L.mem s.mem + L.judge pc)
  handCell : ∀ c cs, L.exam (.setup c) + L.main (.feed cs) =
    L.exam .select + L.main (.offer c cs) := by intros; rfl
  handJob : ∀ k job jobs, L.exam (.noteOffered k jobs) + L.judge (.take job) =
    L.exam (.offer k (job :: jobs)) + L.judge .select := by intros; rfl
  cancel : L.mem { s.mem with canceled := true } = L.mem s.mem := by rfl
  expire : L.mem { s.mem with expired := true } = L.mem s.mem := by rfl

/-- An exam worker's step changes the quantity by what the worker and the memory change by. -/
theorem value_exam (L : Ledger) {i : ℕ} {pc : ExamPc} (hi : s.exam[i]? = some pc) (st : Store)
    (m : Shared) (pc' : ExamPc) :
    L.value { s with store := st, mem := m, exam := s.exam.set i pc' } +
      (L.mem s.mem + L.exam pc) = L.value s + (L.mem m + L.exam pc') := by
  have hset := Pool.total_set (f := L.exam) hi pc'
  simp only [value, held]
  omega

/-- The same for a judge worker. -/
theorem value_judge (L : Ledger) {i : ℕ} {pc : JudgePc} (hi : s.judge[i]? = some pc) (st : Store)
    (m : Shared) (pc' : JudgePc) :
    L.value { s with store := st, mem := m, judge := s.judge.set i pc' } +
      (L.mem s.mem + L.judge pc) = L.value s + (L.mem m + L.judge pc') := by
  have hset := Pool.total_set (f := L.judge) hi pc'
  simp only [value, held]
  omega

/-- **Ledger rule.** A law of the goroutines is a law of the execution: a step that does
not crash relates the whole quantity by `R`. -/
theorem value_step {R : ℤ → ℤ → Prop} (hrefl : ∀ x, R x x)
    (hadd : ∀ x y z, R x y → R (x + z) (y + z)) (hlaw : L.Law R env plan s)
    (h : Step env plan s a s') (hok : s'.mem.panicked = false) :
    R (L.value s') (L.value s) := by
  -- the share of the goroutines that stand still is the `z` of each case
  have hframe : ∀ x y x' y' : ℤ, R x y → x' - y' = x - y → R x' y' := by
    intro x y x' y' hxy heq
    have hz := hadd x y (y' - y) hxy
    rwa [show x + (y' - y) = x' by omega, show y + (y' - y) = y' by omega] at hz
  cases h with
  | main hm =>
    refine hframe _ _ _ _ (hlaw.main _ _ _ _ rfl hm) ?_
    simp only [value, held]
    omega
  | @exam i c pc st m pc' hi he =>
    refine hframe _ _ _ _ (hlaw.exam _ _ _ _ (List.mem_of_getElem? hi) he hok) ?_
    have hvalue := L.value_exam hi st m pc'
    omega
  | @judge j c pc st m pc' hj he =>
    refine hframe _ _ _ _ (hlaw.judge _ _ _ _ (List.mem_of_getElem? hj) he hok) ?_
    have hvalue := L.value_judge hj st m pc'
    omega
  | @handCell i c cs hmain hi =>
    refine hframe _ _ _ _ (hrefl (L.value s)) ?_
    have hcell := hlaw.handCell c cs
    have hset := Pool.total_set (f := L.exam) hi (.setup c)
    simp only [value, held, hmain]
    omega
  | @handJob i j k job jobs hi hj =>
    refine hframe _ _ _ _ (hrefl (L.value s)) ?_
    have hjob := hlaw.handJob k job jobs
    have hexam := Pool.total_set (f := L.exam) hi (.noteOffered k jobs)
    have hjudge := Pool.total_set (f := L.judge) hj (.take job)
    simp only [value, held]
    omega
  | cancel =>
    refine hframe _ _ _ _ (hrefl (L.value s)) ?_
    simp only [value, held, hlaw.cancel]
  | expire =>
    refine hframe _ _ _ _ (hrefl (L.value s)) ?_
    simp only [value, held, hlaw.expire]

/-- A conserved quantity is conserved by a step of the execution. -/
theorem value_step_eq (hlaw : L.Law (· = ·) env plan s) (h : Step env plan s a s')
    (hok : s'.mem.panicked = false) : L.value s' = L.value s :=
  value_step (fun _ => rfl) (fun _ _ z h => congrArg (· + z) h) hlaw h hok

/-- A quantity no goroutine increases is not increased by a step of the execution. -/
theorem value_step_le (hlaw : L.Law (· ≤ ·) env plan s) (h : Step env plan s a s')
    (hok : s'.mem.panicked = false) : L.value s' ≤ L.value s :=
  value_step le_refl (fun _ _ _ h => by omega) hlaw h hok

/-- A worker that has taken nothing holds nothing at the start. -/
theorem value_start (st : Store) (hexam : L.exam .check = 0) (hjudge : L.judge .check = 0) :
    L.value (plan.start env st) = L.mem plan.startMem + L.main (plan.startExec env).main := by
  have hpool : Pool.total L.exam (plan.start env st).exam = 0 := Pool.total_replicate _ hexam
  have hpool' : Pool.total L.judge (plan.start env st).judge = 0 := Pool.total_replicate _ hjudge
  simp only [value, held, hpool, hpool', Nat.add_zero]
  rfl

/-- A quantity with a conservation law keeps its starting value while nobody crashes. -/
theorem value_of_reach {c : ℤ} (hstart : ∀ st, L.value (plan.start env st) = c)
    (hlaw : ∀ t, Reached env plan t → t.mem.panicked = false → L.value t = c →
      L.Law (· = ·) env plan t)
    (h : Reached env plan s) (hok : s.mem.panicked = false) : L.value s = c := by
  refine Reached.invariant (I := fun t => t.mem.panicked = false → L.value t = c)
    (fun st _ => hstart st) ?_ (fun _ _ ht => ht) h hok
  intro t a u hrun ht hlive hcases hok
  have hvalue := ht hlive
  exact (value_step_eq (hlaw t hrun hlive hvalue) hcases hok).trans hvalue

/-- A quantity that no goroutine increases never exceeds its starting value. -/
theorem value_le_of_reach {c : ℤ} (hstart : ∀ st, L.value (plan.start env st) ≤ c)
    (hlaw : ∀ t, Reached env plan t → t.mem.panicked = false → L.Law (· ≤ ·) env plan t)
    (h : Reached env plan s) (hok : s.mem.panicked = false) : L.value s ≤ c := by
  refine Reached.invariant (I := fun t => t.mem.panicked = false → L.value t ≤ c)
    (fun st _ => hstart st) ?_ (fun _ _ ht => ht) h hok
  intro t a u hrun ht hlive hcases hok
  exact (value_step_le (hlaw t hrun hlive) hcases hok).trans (ht hlive)

/-- What one exam worker holds is part of the quantity. -/
theorem exam_le_held {i : ℕ} {e : Exec} {pc : ExamPc} (hi : e.exam[i]? = some pc) :
    L.exam pc ≤ L.held e := by
  have hle := Pool.le_total (f := L.exam) hi
  unfold held
  omega

/-- What one judge worker holds is part of the quantity. -/
theorem judge_le_held {j : ℕ} {e : Exec} {pc : JudgePc} (hj : e.judge[j]? = some pc) :
    L.judge pc ≤ L.held e := by
  have hle := Pool.le_total (f := L.judge) hj
  unfold held
  omega

end Ledger

end HubScope
