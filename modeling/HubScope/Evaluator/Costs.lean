import HubScope.Evaluator.Samples
import HubScope.Evaluator.Settling
import Mathlib.Tactic.Ring

/-!
# What a run is said to have cost

An execution adds up the price of every call it makes for a run and stores the estimate when
its pools are done, null if one of the calls was to a model without a price. The sum starts at
nothing in each execution and is stored over what was there: after a retry or a resume the
stored estimate is that of the last execution that called for the run, not of all of them.

## Main definitions

* `calls` — the prices of the calls a step makes for a run
* `Books` — the accumulator of a run holds these prices
* `unbookedLedger` — the calls made and not yet added
* `CostEvent`, `costEvents` — what an execution does for a run, step by step
* `Executions` — executions one after the other, each of them possibly cut short
* `keptCalls`, `droppedCalls` — the calls the stored estimate is of, and the other ones
* `NeverPartial` — the estimate is the sum of all calls, null if one has no price

## Main results

* `booked_of_logged` — every call is added, or about to be
* `estimated_of_logged` — what an execution stores
* `neverPartial_iff_of_executions` — when the stored estimate is that of all calls
-/

set_option autoImplicit false

namespace HubScope

variable {env : Env} {plan : Plan} {st st' : Store} {m m' : Shared} {s s' : State} {r : ℕ}
  {booked : List (Option ℚ)}

/-! ### Executions over a store that others write to -/

/-- A step of an execution, or a store call of another. -/
def sharedStep (env : Env) (plan : Plan) (s : State) : Label ⊕ Store → Option State
  | .inl a => step env plan s a
  | .inr st => some { s with store := st }

/-- The estimate stored for a run, if the run is there. -/
def storedCost (st : Store) (r : ℕ) : Option (Option (ℚ × ℚ)) :=
  (st.getEvalRun r).map (·.estimatedCost)

/-- Others leave the stored estimate of the run alone. -/
def Spares (r : ℕ) (s : State) : Label ⊕ Store → Prop
  | .inl _ => True
  | .inr st => storedCost st r = storedCost s.store r

theorem reached_of_shared {guard : State → Label ⊕ Store → Prop}
    (h : Transition.Reach (sharedStep env plan) guard (plan.start env st) s) :
    Reached env plan s := by
  induction h with
  | refl => exact .start st
  | @tail t u a _ _ hstep ih =>
    cases a with
    | inl a => exact ih.step hstep
    | inr st' =>
      cases hstep
      exact ih.others st'

/-! ### Prices of calls -/

/-- The price of the answer call at hand and the run it is for; a failed one costs nothing. -/
def answerCharge (env : Env) (k : SampleCursor) : AnswerOutcome → Option (ℕ × Option ℚ)
  | .answered _ _ i o =>
    some (k.unit.runId, Pipeline.callCostUSD env.price k.inCell.modelId i o)
  | .failed _ _ _ => none

/-- The price of a judge call and the run it is for. -/
def judgeCharge (env : Env) (j : JudgeJob) (o : JudgeOutcome) : ℕ × Option ℚ :=
  (j.unit.runId, Pipeline.callCostUSD env.price j.judgeModel o.inputTokens o.outputTokens)

/-- The charge an exam worker has not added to its run. -/
def ExamPc.charge? (env : Env) : ExamPc → Option (ℕ × Option ℚ)
  | .persist k o | .record k o _ => answerCharge env k o
  | _ => none

/-- The charge a judge worker has not added to its run. -/
def JudgePc.charge? (env : Env) : JudgePc → Option (ℕ × Option ℚ)
  | .record j o => some (judgeCharge env j o)
  | _ => none

/-- The price of a charge if it is for the run. -/
def chargeTo (r : ℕ) : Option (ℕ × Option ℚ) → List (Option ℚ)
  | some (r', price) => if r' = r then [price] else []
  | none => []

/-- The prices of the calls that return for the run in a step. -/
def calls (env : Env) (r : ℕ) (s : State) : Label ⊕ Store → List (Option ℚ)
  | .inl (.exam i (.answer o)) =>
    match s.exam[i]? with
    | some (.call k) => chargeTo r (answerCharge env k o)
    | _ => []
  | .inl (.judge i (.verdict o)) =>
    match s.judge[i]? with
    | some (.call j) => chargeTo r (some (judgeCharge env j o))
    | _ => []
  | _ => []

theorem charge?_caseDone (k : SampleCursor) : (caseDone plan k).charge? env = none :=
  caseDone_rule k (fun _ => rfl) fun _ _ => rfl

theorem charge?_sampleDone (k : SampleCursor) : (sampleDone env plan k).charge? env = none :=
  sampleDone_rule k (fun _ => rfl) fun _ => charge?_caseDone k

theorem charge?_routeSample (k : SampleCursor) (id : ℕ) (text : String) :
    (routeSample env k id text).charge? env = none :=
  routeSample_rule k id text (fun _ => rfl) fun _ => rfl

/-! ### The accumulator of a run -/

/-- The accumulator holds these prices; there is none before the first. -/
def Books (cs : Option CostState) (booked : List (Option ℚ)) : Prop :=
  match cs with
  | none => booked = []
  | some cs => booked ≠ [] ∧ cs.exam + cs.judge = booked.reduceOption.sum ∧
    (cs.unknown = true ↔ none ∈ booked)

/-- Adding a price to one of the two parts of an accumulator. -/
theorem Books.add {p : Pipeline} (h : Books (p.costs r) booked) {cs : CostState} {c : Option ℚ}
    (hprice : ∀ q, c = some q → cs.exam + cs.judge =
      (p.costFor r).exam + (p.costFor r).judge + q ∧ cs.unknown = (p.costFor r).unknown)
    (hnone : c = none → cs.exam + cs.judge = (p.costFor r).exam + (p.costFor r).judge ∧
      cs.unknown = true) : Books (some cs) (booked ++ [c]) := by
  -- an accumulator that is created here holds nothing
  have hold : (p.costFor r).exam + (p.costFor r).judge = booked.reduceOption.sum ∧
      ((p.costFor r).unknown = true ↔ none ∈ booked) := by
    unfold Pipeline.costFor
    unfold Books at h
    cases hcosts : p.costs r with
    | none =>
      rw [hcosts] at h
      subst h
      simp
    | some cs =>
      rw [hcosts] at h
      exact h.2
  refine ⟨by simp, ?_, ?_⟩
  · rw [List.reduceOption_append, List.sum_append, ← hold.1]
    cases c with
    | none => simpa using (hnone rfl).1
    | some q => simpa using (hprice q rfl).1
  · rw [List.mem_append, ← hold.2]
    cases c with
    | none => simp [(hnone rfl).2]
    | some q => simp [(hprice q rfl).2]

theorem Books.recordExamCost {p : Pipeline} {r' : ℕ} {c : Option ℚ}
    (h : Books (p.costs r) booked) :
    Books ((p.recordExamCost r' c).costs r) (booked ++ chargeTo r (some (r', c))) := by
  by_cases hr : r' = r
  · subst hr
    simp only [chargeTo, if_pos]
    change Books (Function.update p.costs r' _ r') _
    rw [Function.update_self]
    apply h.add
    · rintro q rfl
      exact ⟨by ring, rfl⟩
    · rintro rfl
      exact ⟨rfl, rfl⟩
  · simp only [chargeTo, if_neg hr, List.append_nil]
    change Books (Function.update p.costs r' _ r) _
    rwa [Function.update_of_ne (Ne.symm hr)]

theorem Books.recordJudgeCost {p : Pipeline} {r' : ℕ} {c : Option ℚ}
    (h : Books (p.costs r) booked) :
    Books ((p.recordJudgeCost r' c).costs r) (booked ++ chargeTo r (some (r', c))) := by
  by_cases hr : r' = r
  · subst hr
    simp only [chargeTo, if_pos]
    change Books (Function.update p.costs r' _ r') _
    rw [Function.update_self]
    apply h.add
    · rintro q rfl
      exact ⟨by ring, rfl⟩
    · rintro rfl
      exact ⟨rfl, rfl⟩
  · simp only [chargeTo, if_neg hr, List.append_nil]
    change Books (Function.update p.costs r' _ r) _
    rwa [Function.update_of_ne (Ne.symm hr)]

/-! ### Charges of a step -/

/-- What a step of an exam worker does to the charge it holds and to the accumulators. -/
inductive ExamCharge (env : Env) (m m' : Shared) (pc pc' : ExamPc) : Prop
  | quiet : (∀ k, pc ≠ .call k) → pc'.charge? env = pc.charge? env →
      m'.pipe.costs = m.pipe.costs → ExamCharge env m m' pc pc'
  | called (k o) : pc = .call k → pc' = .persist k o → m' = m → ExamCharge env m m' pc pc'
  | booked (r c) : (∀ k, pc ≠ .call k) → pc.charge? env = some (r, c) →
      pc'.charge? env = none → m'.pipe.costs = (m.pipe.recordExamCost r c).costs →
      ExamCharge env m m' pc pc'

theorem ExamStep.charge {pc pc' : ExamPc} (h : ExamStep env plan st m pc st' m' pc')
    (hok : m'.panicked = false) : ExamCharge env m m' pc pc' := by
  cases h with
  | recordCrash | settleCrash => cases hok
  | called k o => exact .called k o rfl rfl rfl
  -- the only step that books: the charge of the answer moves from the worker to the run
  | recorded k id text latencyMs i o cost p hp hcost =>
    obtain ⟨agg, agg', -, rfl, -⟩ := Pipeline.recordAnswer_spec hp
    exact .booked k.unit.runId cost (by simp) (by rw [hcost]; rfl) (charge?_routeSample _ _ _) rfl
  | opened k =>
    obtain ⟨aggs, heq⟩ := Pipeline.openCase_eq m.pipe k.unit k.inCell.modelId k.profile
      (env.samples k.case)
    exact .quiet (by simp) rfl (by rw [heq])
  | settled k median p hp =>
    obtain ⟨aggs, rfl⟩ := Pipeline.settleSample_eq hp
    exact .quiet (by simp) (charge?_sampleDone k) rfl
  | completed k median p agg hp =>
    obtain ⟨aggs, rfl⟩ := Pipeline.settleSample_eq hp
    exact .quiet (by simp) rfl rfl
  | wrote k | offeredAll k | dropped k => exact .quiet (by simp) (charge?_sampleDone k) rfl
  | reported cell answered | reportedLast cell answered =>
    obtain ⟨n, hpipe⟩ := reportCell_pipe plan (m.endCell cell) cell.run.id answered
    exact .quiet (by simp) rfl (by rw [hpipe]; rfl)
  | marked r | markedLast r =>
    obtain ⟨finished, hpipe⟩ := Pipeline.runFinishedLocked_eq
      { m.pipe with cellsDone := Function.update m.pipe.cellsDone r true } r
    exact .quiet (by simp) rfl (by rw [Pipeline.markCellsDone, hpipe])
  | _ => exact .quiet (by simp) rfl rfl

/-- What a step of a judge worker does to the charge it holds and to the accumulators. -/
inductive JudgeCharge (env : Env) (m m' : Shared) (pc pc' : JudgePc) : Prop
  | quiet : (∀ j, pc ≠ .call j) → pc'.charge? env = pc.charge? env →
      m'.pipe.costs = m.pipe.costs → JudgeCharge env m m' pc pc'
  | called (j o) : pc = .call j → pc' = .record j o → m' = m → JudgeCharge env m m' pc pc'
  | booked (r c) : (∀ j, pc ≠ .call j) → pc.charge? env = some (r, c) →
      pc'.charge? env = none → m'.pipe.costs = (m.pipe.recordJudgeCost r c).costs →
      JudgeCharge env m m' pc pc'

theorem JudgeStep.charge {pc pc' : JudgePc} (h : JudgeStep env plan st m pc st' m' pc')
    (hok : m'.panicked = false) : JudgeCharge env m m' pc pc' := by
  cases h with
  | settleCrash => cases hok
  | called j o => exact .called j o rfl rfl rfl
  | recorded j o cost hcost =>
    exact .booked j.unit.runId cost (by simp) (by rw [hcost]; rfl) rfl rfl
  | landed j score p hp | votesIn j score p median hp =>
    obtain ⟨votes, rfl⟩ := Pipeline.landVote_eq hp
    exact .quiet (by simp) rfl rfl
  | settled j median p hp | completed j median p agg hp =>
    obtain ⟨aggs, rfl⟩ := Pipeline.settleSample_eq hp
    exact .quiet (by simp) rfl rfl
  | decremented j | decrementedLast j =>
    obtain ⟨finished, hpipe⟩ := Pipeline.runFinishedLocked_eq { m.pipe with
      judgePending := Function.update m.pipe.judgePending j.unit.runId
        (m.pipe.judgePending j.unit.runId - 1) } j.unit.runId
    exact .quiet (by simp) rfl (by rw [Pipeline.decrementPending, hpipe])
  | _ => exact .quiet (by simp) rfl rfl

theorem MainStep.costs_eq {examDone judgeDone : Bool} {pc pc' : MainPc}
    (h : MainStep plan st m examDone judgeDone pc st' m' pc') : m'.pipe.costs = m.pipe.costs := by
  cases h with
  | marked r rs | markedLast r rs =>
    obtain ⟨finished, hpipe⟩ := Pipeline.runFinishedLocked_eq
      { m.pipe with cellsDone := Function.update m.pipe.cellsDone r true } r
    rw [Pipeline.markCellsDone, hpipe]
  | _ => rfl

/-! ### The books of a run -/

/-- How often a call at this price for the run has returned and is not added yet. -/
def unbookedLedger (env : Env) (r : ℕ) (price : Option ℚ) : Ledger where
  mem _ := 0
  main _ := 0
  exam pc := (chargeTo r (pc.charge? env)).count price
  judge pc := (chargeTo r (pc.charge? env)).count price

/-- Every call made for the run is in its accumulator or still held by the worker that made it. -/
def Booked (env : Env) (r : ℕ) (s : State) (made : List (Option ℚ)) : Prop :=
  ∃ booked, Books (s.mem.pipe.costs r) booked ∧
    ∀ price, (made.count price : ℤ) = booked.count price + (unbookedLedger env r price).value s

/-- What a step takes over from the calls in flight it adds to the books, and what it hands over
it made. -/
theorem Booked.advance {made emitted before after added : List (Option ℚ)}
    (hs : Booked env r s made)
    (hvalue : ∀ price, (unbookedLedger env r price).value s' + before.count price =
      (unbookedLedger env r price).value s + after.count price)
    (hbooks : ∀ booked, Books (s.mem.pipe.costs r) booked →
      Books (s'.mem.pipe.costs r) (booked ++ added))
    (hlists : ∀ price, emitted.count price + before.count price =
      after.count price + added.count price) : Booked env r s' (made ++ emitted) := by
  obtain ⟨booked, hbooked, hcount⟩ := hs
  refine ⟨booked ++ added, hbooks booked hbooked, fun price => ?_⟩
  have hv := hvalue price
  have hl := hlists price
  have hc := hcount price
  rw [List.count_append, List.count_append]
  omega

theorem calls_exam_of_ne {i : ℕ} {c : ExamChoice} {pc : ExamPc} (hi : s.exam[i]? = some pc)
    (hpc : ∀ k, pc ≠ .call k) : calls env r s (.inl (.exam i c)) = [] := by
  cases c with
  | answer o =>
    cases pc with
    | call k => exact absurd rfl (hpc k)
    | _ => simp only [calls, hi]
  | _ => rfl

theorem calls_judge_of_ne {i : ℕ} {c : JudgeChoice} {pc : JudgePc} (hi : s.judge[i]? = some pc)
    (hpc : ∀ j, pc ≠ .call j) : calls env r s (.inl (.judge i c)) = [] := by
  cases c with
  | verdict o =>
    cases pc with
    | call j => exact absurd rfl (hpc j)
    | _ => simp only [calls, hi]
  | _ => rfl

theorem Booked.exam {made : List (Option ℚ)} (hs : Booked env r s made) {i : ℕ} {c : ExamChoice}
    {pc pc' : ExamPc} (hi : s.exam[i]? = some pc) (h : ExamCharge env s.mem m pc pc')
    (hstep : step env plan s (.exam i c) =
      some { s with store := st, mem := m, exam := s.exam.set i pc' }) :
    Booked env r { s with store := st, mem := m, exam := s.exam.set i pc' }
      (made ++ calls env r s (.inl (.exam i c))) := by
  have hvalue : ∀ price, (unbookedLedger env r price).value
        { s with store := st, mem := m, exam := s.exam.set i pc' } +
      (chargeTo r (pc.charge? env)).count price =
      (unbookedLedger env r price).value s + (chargeTo r (pc'.charge? env)).count price := by
    intro price
    have hset := (unbookedLedger env r price).value_exam hi st m pc'
    simpa [unbookedLedger] using hset
  cases h with
  | quiet hpc hcharge hcosts =>
    rw [calls_exam_of_ne hi hpc]
    apply hs.advance hvalue
    · intro booked hbooks
      rwa [hcosts, List.append_nil]
    · intro price
      rw [hcharge]
      exact Nat.add_comm _ _
  -- the call is made: its charge is with the worker until it is booked
  | called k o hpc hpc' hm =>
    subst hpc hpc' hm
    obtain rfl := answer_of_step hi hstep
    apply hs.advance hvalue
    · intro booked hbooks
      rwa [List.append_nil]
    · intro price
      simp only [calls, hi]
      rfl
  | booked r' cost hpc hcharge hcharge' hcosts =>
    rw [calls_exam_of_ne hi hpc]
    apply hs.advance hvalue
    · intro booked hbooks
      rw [hcosts]
      exact hbooks.recordExamCost
    · intro price
      rw [hcharge, hcharge']
      rfl

theorem Booked.judge {made : List (Option ℚ)} (hs : Booked env r s made) {i : ℕ}
    {c : JudgeChoice} {pc pc' : JudgePc} (hi : s.judge[i]? = some pc)
    (h : JudgeCharge env s.mem m pc pc')
    (hstep : step env plan s (.judge i c) =
      some { s with store := st, mem := m, judge := s.judge.set i pc' }) :
    Booked env r { s with store := st, mem := m, judge := s.judge.set i pc' }
      (made ++ calls env r s (.inl (.judge i c))) := by
  have hvalue : ∀ price, (unbookedLedger env r price).value
        { s with store := st, mem := m, judge := s.judge.set i pc' } +
      (chargeTo r (pc.charge? env)).count price =
      (unbookedLedger env r price).value s + (chargeTo r (pc'.charge? env)).count price := by
    intro price
    have hset := (unbookedLedger env r price).value_judge hi st m pc'
    simpa [unbookedLedger] using hset
  cases h with
  | quiet hpc hcharge hcosts =>
    rw [calls_judge_of_ne hi hpc]
    apply hs.advance hvalue
    · intro booked hbooks
      rwa [hcosts, List.append_nil]
    · intro price
      rw [hcharge]
      exact Nat.add_comm _ _
  -- the call is made: its charge is with the worker until it is booked
  | called j o hpc hpc' hm =>
    subst hpc hpc' hm
    obtain rfl := verdict_of_step hi hstep
    apply hs.advance hvalue
    · intro booked hbooks
      rwa [List.append_nil]
    · intro price
      simp only [calls, hi]
      rfl
  | booked r' cost hpc hcharge hcharge' hcosts =>
    rw [calls_judge_of_ne hi hpc]
    apply hs.advance hvalue
    · intro booked hbooks
      rw [hcosts]
      exact hbooks.recordJudgeCost
    · intro price
      rw [hcharge, hcharge']
      rfl

/-- A step that makes no call and moves no worker leaves the books alone. -/
theorem Booked.of_eq {made : List (Option ℚ)} (hs : Booked env r s made)
    (hcosts : s'.mem.pipe.costs = s.mem.pipe.costs)
    (hvalue : ∀ price, (unbookedLedger env r price).value s' =
      (unbookedLedger env r price).value s) : Booked env r s' (made ++ []) := by
  obtain ⟨booked, hbooks, hcount⟩ := hs
  refine ⟨booked, by rwa [hcosts], fun price => ?_⟩
  rw [List.append_nil, hvalue price, hcount price]

theorem unbookedLedger_hand (price : Option ℚ) {a : Label} (h : Step env plan s a s')
    (ha : (∃ i, a = .handCell i) ∨ (∃ i j, a = .handJob i j)) :
    (unbookedLedger env r price).value s' = (unbookedLedger env r price).value s := by
  cases h with
  | @handCell i c cs hmain hi =>
    have hset := Pool.total_set (f := (unbookedLedger env r price).exam) hi (.setup c)
    simp only [Ledger.value, Ledger.held] at hset ⊢
    simp only [unbookedLedger, ExamPc.charge?, chargeTo, List.count_nil] at hset ⊢
    omega
  | @handJob i j k job jobs hi hj =>
    have hexam := Pool.total_set (f := (unbookedLedger env r price).exam) hi (.noteOffered k jobs)
    have hjudge := Pool.total_set (f := (unbookedLedger env r price).judge) hj (.take job)
    simp only [Ledger.value, Ledger.held] at hexam hjudge ⊢
    simp only [unbookedLedger, ExamPc.charge?, JudgePc.charge?, chargeTo,
      List.count_nil] at hexam hjudge ⊢
    omega
  | _ => simp at ha

/-- **Every call is added, or about to be.** -/
theorem booked_of_logged {made : List (Option ℚ)} {guard : State → Label ⊕ Store → Prop}
    (h : Transition.Logged (sharedStep env plan) guard (calls env r) (plan.start env st) s made)
    (hok : s.mem.panicked = false) : Booked env r s made := by
  refine Transition.Logged.invariant_of
    (I := fun t made => t.mem.panicked = false → Booked env r t made) (J := fun _ => True)
    (fun _ _ => trivial) ?_ ?_ h hok
  · intro _
    refine ⟨[], rfl, fun price => ?_⟩
    rw [Ledger.value_start _ rfl rfl]
    rfl
  · -- a step of the execution, or any change of the store beside it
    rintro t made (a | st') u - ht - hstep hok
    · obtain ⟨hlive, hcases⟩ := step_cases hstep
      specialize ht hlive
      have hhand := fun price => unbookedLedger_hand price (r := r) hcases
      cases hcases with
      | exam hi he => exact ht.exam hi (he.charge hok) hstep
      | judge hj he => exact ht.judge hj (he.charge hok) hstep
      | main hm =>
        apply ht.of_eq hm.costs_eq
        intro price
        rfl
      | handCell hmain hi =>
        exact ht.of_eq rfl fun price => hhand price (.inl ⟨_, rfl⟩)
      | handJob hi hj =>
        exact ht.of_eq rfl fun price => hhand price (.inr ⟨_, _, rfl⟩)
      | cancel | expire => exact ht.of_eq rfl fun _ => rfl
    · cases hstep
      exact (ht hok).of_eq rfl fun _ => rfl

/-! ### What is stored -/

theorem storedCost_updateRun (st : Store) (id : ℕ) (f : EvalRun → EvalRun)
    (hid : ∀ run, (f run).id = run.id) :
    storedCost (st.updateRun id f) r =
      if r = id then (st.getEvalRun r).map fun run => (f run).estimatedCost
      else storedCost st r := by
  have hkey : ((fun run : EvalRun => decide (run.id = r)) ∘
      fun run => if run.id = id then f run else run) = fun run => decide (run.id = r) := by
    funext run
    by_cases h : run.id = id <;> simp [h, hid]
  unfold storedCost Store.updateRun Store.getEvalRun
  rw [List.find?_map, hkey, Option.map_map]
  cases hrun : st.runs.find? fun run => decide (run.id = r) with
  | none => split_ifs <;> rfl
  | some run =>
    have hr : run.id = r := by simpa using List.find?_some hrun
    by_cases h : r = id
    · simp [hr, h]
    · simp [hr, h]

theorem storedCost_finishEvalRun (st : Store) (id : ℕ) (status : Status) :
    storedCost (st.finishEvalRun id status) r = storedCost st r := by
  refine (storedCost_updateRun st id (fun run => { run with status := status })
    fun _ => rfl).trans ?_
  split_ifs <;> rfl

theorem storedCost_setEvalRunCost (st : Store) (id : ℕ) (cost : Option (ℚ × ℚ)) :
    storedCost (st.setEvalRunCost id cost) r =
      if r = id then (storedCost st r).map fun _ => cost else storedCost st r := by
  refine (storedCost_updateRun st id (fun run => { run with estimatedCost := cost })
    fun _ => rfl).trans ?_
  unfold storedCost
  rw [Option.map_map]
  rfl

theorem storedCost_of_runs_eq (h : st'.runs = st.runs) : storedCost st' r = storedCost st r := by
  unfold storedCost Store.getEvalRun
  rw [h]

theorem storedCost_ite_finishEvalRun (c : Bool) (st : Store) (id : ℕ) (status : Status) :
    storedCost (if c then st.finishEvalRun id status else st) r = storedCost st r := by
  cases c with
  | true => exact storedCost_finishEvalRun st id status
  | false => rfl

theorem ExamStep.storedCost_eq {pc pc' : ExamPc} (h : ExamStep env plan st m pc st' m' pc') :
    storedCost st' r = storedCost st r := by
  cases h with
  | finished id => exact storedCost_ite_finishEvalRun _ st id .done
  | _ => exact storedCost_of_runs_eq rfl

theorem JudgeStep.storedCost_eq {pc pc' : JudgePc} (h : JudgeStep env plan st m pc st' m' pc') :
    storedCost st' r = storedCost st r := by
  cases h with
  | recorded j o =>
    obtain ⟨rows, heq⟩ := st.createEvalJudgeScore_eq (judgeScoreRow j o)
    exact storedCost_of_runs_eq (by rw [heq])
  | finished j => exact storedCost_ite_finishEvalRun _ st j.unit.runId .done
  | _ => exact storedCost_of_runs_eq rfl

/-- The driver is about to store the run's estimate. -/
def MainPc.flushes (r : ℕ) : MainPc → Bool
  | .flush (r' :: _) => r' = r
  | _ => false

theorem MainStep.storedCost_eq {examDone judgeDone : Bool} {pc pc' : MainPc}
    (h : MainStep plan st m examDone judgeDone pc st' m' pc') (hpc : pc.flushes r = false) :
    storedCost st' r = storedCost st r := by
  cases h with
  | finished id => exact storedCost_finishEvalRun st id .done
  | flushRun id rs st' heq =>
    have hne : r ≠ id := by
      rintro rfl
      simp [MainPc.flushes] at hpc
    rw [heq]
    split
    · rw [storedCost_setEvalRunCost, if_neg hne]
    · rfl
  | tailRun id rs =>
    split_ifs
    · rfl
    · exact storedCost_finishEvalRun st id .failed
  | _ => exact storedCost_of_runs_eq rfl

/-! ### What an execution logs -/

/-- What an execution does for a run: a call it makes, and the store of the estimate. -/
inductive CostEvent
  | call (price : Option ℚ)
  | flush
  deriving DecidableEq

def CostEvent.price? : CostEvent → Option (Option ℚ)
  | call price => some price
  | flush => none

/-- The estimate of the run is stored in a step. -/
def flushOf (r : ℕ) (s : State) : Label ⊕ Store → List CostEvent
  | .inl .main => if s.main.flushes r then [.flush] else []
  | _ => []

/-- What an execution does for a run in a step. -/
def costEvents (env : Env) (r : ℕ) (s : State) (a : Label ⊕ Store) : List CostEvent :=
  (calls env r s a).map .call ++ flushOf r s a

/-- The calls of a log. -/
def callsOf (log : List CostEvent) : List (Option ℚ) := log.filterMap CostEvent.price?

theorem callsOf_costEvents (s : State) (a : Label ⊕ Store) :
    (costEvents env r s a).filterMap CostEvent.price? = calls env r s a := by
  have hflush : (flushOf r s a).filterMap CostEvent.price? = [] := by
    unfold flushOf
    split
    · split_ifs <;> rfl
    · rfl
  unfold costEvents
  rw [List.filterMap_append, hflush, List.append_nil, List.filterMap_map]
  exact List.filterMap_some

theorem flush_mem_costEvents {a : Label ⊕ Store} :
    .flush ∈ costEvents env r s a ↔ a = .inl .main ∧ s.main.flushes r = true := by
  unfold costEvents flushOf
  split
  · simp [calls]
  · rename_i hne
    simp only [List.append_nil, List.mem_map, reduceCtorEq, and_false, exists_false, false_iff]
    exact fun h => hne h.1

/-- What the accumulator of a run is stored as over the estimate `c`. -/
def flushed (cs : Option CostState) (c : Option (ℚ × ℚ)) : Option (ℚ × ℚ) :=
  match cs with
  | some cs => cs.stored
  | none => c

/-- The estimate is what it was, or its flush stored it when no worker was left. -/
structure Estimated (r : ℕ) (c : Option (ℚ × ℚ)) (s : State) (log : List CostEvent) : Prop where
  kept : .flush ∉ log → storedCost s.store r = some c
  stored : .flush ∈ log → s.main.poolsDone = true ∧ s.mem.panicked = false ∧
    storedCost s.store r = some (flushed (s.mem.pipe.costs r) c)

theorem Estimated.worker {c : Option (ℚ × ℚ)} {log es : List CostEvent} (hs : Estimated r c s log)
    (hbusy : s.main.poolsDone = false) (hes : .flush ∉ es)
    (hstore : storedCost s'.store r = storedCost s.store r) : Estimated r c s' (log ++ es) := by
  have hlog : .flush ∉ log := fun h => by
    rw [(hs.stored h).1] at hbusy
    cases hbusy
  refine ⟨fun _ => hstore.trans (hs.kept hlog), fun h => ?_⟩
  rcases List.mem_append.mp h with h | h
  · exact absurd h hlog
  · exact absurd h hes

theorem Estimated.quiet {c : Option (ℚ × ℚ)} {log es : List CostEvent} (hs : Estimated r c s log)
    (hmain : s.main.poolsDone = true → s'.main.poolsDone = true)
    (hok : s'.mem.panicked = s.mem.panicked) (hcosts : s'.mem.pipe.costs = s.mem.pipe.costs)
    (hes : .flush ∉ es) (hstore : storedCost s'.store r = storedCost s.store r) :
    Estimated r c s' (log ++ es) := by
  have hlog : .flush ∈ log ++ es ↔ .flush ∈ log := by simp [hes]
  refine ⟨fun h => hstore.trans (hs.kept (mt hlog.mpr h)), fun h => ?_⟩
  obtain ⟨hdone, hpanic, hstored⟩ := hs.stored (hlog.mp h)
  rw [hok, hcosts, hstore]
  exact ⟨hmain hdone, hpanic, hstored⟩

theorem MainStep.poolsDone {examDone judgeDone : Bool} {pc pc' : MainPc}
    (h : MainStep plan st m examDone judgeDone pc st' m' pc') (hpc : pc.poolsDone = true) :
    pc'.poolsDone = true := by
  cases h <;> first | rfl | cases hpc

theorem Estimated.flushed {c : Option (ℚ × ℚ)} {log : List CostEvent} (hs : Estimated r c s log)
    {examDone judgeDone : Bool} {pc : MainPc} (hflush : s.main.flushes r = true)
    (h : MainStep plan s.store s.mem examDone judgeDone s.main st m pc)
    (hlive : s.mem.panicked = false) :
    pc.poolsDone = true ∧ m.panicked = false ∧
      storedCost st r = some (HubScope.flushed (m.pipe.costs r) c) := by
  generalize hpc : s.main = pc₀ at h hflush
  cases h with
  | flushRun r' rs st' heq =>
    obtain rfl : r' = r := of_decide_eq_true hflush
    refine ⟨rfl, hlive, ?_⟩
    -- a second flush of the run stores the same again
    have hold : storedCost s.store r' = some c ∨
        storedCost s.store r' = some (HubScope.flushed (s.mem.pipe.costs r') c) := by
      by_cases hlog : .flush ∈ log
      · exact .inr (hs.stored hlog).2.2
      · exact .inl (hs.kept hlog)
    rw [heq]
    cases hcosts : s.mem.pipe.costs r' with
    | none =>
      rw [hcosts] at hold
      exact hold.elim id id
    | some cs =>
      rw [storedCost_setEvalRunCost, if_pos rfl]
      rcases hold with h | h <;> rw [h] <;> rfl
  | _ => cases hflush

/-- **What an execution stores.** Its flush replaces the estimate by that of its own calls. -/
theorem estimated_of_logged {c : Option (ℚ × ℚ)} {log : List CostEvent}
    (hst : storedCost st r = some c)
    (h : Transition.Logged (sharedStep env plan) (Spares r) (costEvents env r)
      (plan.start env st) s log) : Estimated r c s log := by
  refine Transition.Logged.invariant_of (I := Estimated r c)
    (fun _ hrun => control_of_reach (reached_of_shared hrun)) ?_ ?_ h
  · exact ⟨fun _ => hst, fun h => by cases h⟩
  · rintro t log (a | st') u hcontrol ht hspares hstep
    · obtain ⟨hlive, hcases⟩ := step_cases hstep
      -- while a worker runs the pools are not done
      have hbusy : (∃ pc ∈ t.exam, pc ≠ .exited) ∨ (∃ pc ∈ t.judge, pc ≠ .exited) →
          t.main.poolsDone = false := by
        intro hworker
        by_contra hdone
        obtain ⟨hexam, hjudge⟩ := hcontrol.no_worker (by simpa using hdone)
        rcases hworker with ⟨pc, hpc, hne⟩ | ⟨pc, hpc, hne⟩
        · exact hne (hexam pc hpc)
        · exact hne (hjudge pc hpc)
      have hquiet : a ≠ .main → .flush ∉ costEvents env r t (.inl a) := by
        rw [flush_mem_costEvents]
        rintro hne ⟨heq, -⟩
        exact hne (Sum.inl.inj heq)
      cases hcases with
      | exam hi he =>
        exact ht.worker (hbusy (.inl ⟨_, List.mem_of_getElem? hi, he.control.1⟩))
          (hquiet (by simp)) he.storedCost_eq
      | judge hj he =>
        exact ht.worker (hbusy (.inr ⟨_, List.mem_of_getElem? hj, he.exit.1⟩))
          (hquiet (by simp)) he.storedCost_eq
      | handCell hmain hi =>
        exact ht.worker (hbusy (.inl ⟨_, List.mem_of_getElem? hi, by simp⟩))
          (hquiet (by simp)) rfl
      | handJob hi hj =>
        exact ht.worker (hbusy (.inl ⟨_, List.mem_of_getElem? hi, by simp⟩))
          (hquiet (by simp)) rfl
      | cancel | expire => exact ht.quiet id rfl rfl (hquiet (by simp)) rfl
      | main hm =>
        by_cases hflush : t.main.flushes r = true
        · -- the flush stores the sum over the calls that are logged
          have hstored := ht.flushed hflush hm hlive
          exact ⟨fun h => absurd (List.mem_append_right _
            (flush_mem_costEvents.mpr ⟨rfl, hflush⟩)) h, fun _ => hstored⟩
        · refine ht.quiet hm.poolsDone hm.panicked_eq hm.costs_eq ?_
            (hm.storedCost_eq (by simpa using hflush))
          rw [flush_mem_costEvents]
          exact fun h => hflush h.2
    · cases hstep
      refine ht.quiet id rfl rfl ?_ hspares
      rw [flush_mem_costEvents]
      simp

/-! ### One execution after the other -/

/-- Executions that call for the run one after the other, the last one first, with what each
logged. Any of them may be cut short; settings, prices and plans are those of its own start. -/
inductive Executions (r : ℕ) (st₀ : Store) : List (List CostEvent) → Store → Prop
  | none : Executions r st₀ [] st₀
  | next {env : Env} {plan : Plan} {logs : List (List CostEvent)} {st st' : Store} {s : State}
      {log : List CostEvent} : Executions r st₀ logs st → storedCost st' r = storedCost st r →
      Transition.Logged (sharedStep env plan) (Spares r) (costEvents env r) (plan.start env st')
        s log → Executions r st₀ (log :: logs) s.store

/-- The execution made calls for the run and stored its estimate. -/
def estimates (log : List CostEvent) : Bool := .flush ∈ log && callsOf log ≠ []

/-- The calls of the last execution that stored an estimate. -/
def keptCalls : List (List CostEvent) → List (Option ℚ)
  | [] => []
  | log :: logs => if estimates log then callsOf log else keptCalls logs

/-- The calls of the other executions. -/
def droppedCalls : List (List CostEvent) → List (Option ℚ)
  | [] => []
  | log :: logs =>
    if estimates log then logs.flatMap callsOf else callsOf log ++ droppedCalls logs

theorem calls_perm (logs : List (List CostEvent)) :
    (logs.flatMap callsOf).Perm (keptCalls logs ++ droppedCalls logs) := by
  induction logs with
  | nil => exact .refl _
  | cons log logs ih =>
    rw [List.flatMap_cons, keptCalls, droppedCalls]
    split
    · exact .refl _
    · refine (ih.append_left (callsOf log)).trans ?_
      rw [← List.append_assoc, ← List.append_assoc]
      exact List.perm_append_comm.append_right _

/-- The estimate is that of these calls; there is none without a call or a price. -/
def EstimateOf (c : Option (ℚ × ℚ)) (made : List (Option ℚ)) : Prop :=
  (c = none ↔ made = [] ∨ none ∈ made) ∧
    ∀ exam judge, c = some (exam, judge) → exam + judge = made.reduceOption.sum

theorem EstimateOf.perm {c : Option (ℚ × ℚ)} {made made' : List (Option ℚ)}
    (h : EstimateOf c made) (hperm : made.Perm made') : EstimateOf c made' := by
  refine ⟨?_, fun exam judge hc => ?_⟩
  · rw [h.1, hperm.mem_iff]
    exact or_congr_left ⟨fun h => (h ▸ hperm).nil_eq.symm, fun h => (h ▸ hperm).eq_nil⟩
  · rw [h.2 exam judge hc]
    exact (hperm.filterMap id).sum_eq

/-- What a run's accumulator is stored as is the estimate of its calls. -/
theorem Books.estimateOf {cs : CostState} (h : Books (some cs) booked) :
    EstimateOf cs.stored booked := by
  obtain ⟨hne, hsum, hunknown⟩ := h
  unfold CostState.stored
  refine ⟨?_, fun exam judge hc => ?_⟩
  · rw [← hunknown]
    by_cases h : cs.unknown = true <;> simp [h, hne]
  · split_ifs at hc
    obtain ⟨rfl, rfl⟩ := Prod.mk.inj (Option.some.inj hc)
    exact hsum

/-- When the pools are done every call made is in the accumulator. -/
theorem Booked.perm_of_poolsDone {made : List (Option ℚ)} (h : Booked env r s made)
    (hcontrol : Control env plan s) (hdone : s.main.poolsDone = true) :
    ∃ booked, Books (s.mem.pipe.costs r) booked ∧ made.Perm booked := by
  obtain ⟨booked, hbooks, hcount⟩ := h
  refine ⟨booked, hbooks, List.perm_iff_count.mpr fun price => ?_⟩
  obtain ⟨hexam, hjudge⟩ := hcontrol.no_worker hdone
  have hexams : Pool.total (unbookedLedger env r price).exam s.exam = 0 := by
    rw [Pool.total_eq_zero_iff]
    intro pc hpc
    rw [hexam pc hpc]
    rfl
  have hjudges : Pool.total (unbookedLedger env r price).judge s.judge = 0 := by
    rw [Pool.total_eq_zero_iff]
    intro pc hpc
    rw [hjudge pc hpc]
    rfl
  have hvalue := hcount price
  rw [Ledger.value, Ledger.held, hexams, hjudges] at hvalue
  change (_ : ℤ) = _ + ((0 : ℤ) + ((0 + 0 + 0 : ℕ) : ℤ)) at hvalue
  omega

/-- **What a run is said to have cost** after any executions: what the calls of the last one
that called for it and reached its flush cost. -/
theorem estimateOf_of_executions {logs : List (List CostEvent)} {st₀ : Store}
    (hcreated : storedCost st₀ r = some none) (h : Executions r st₀ logs st) :
    ∃ c, storedCost st r = some c ∧ EstimateOf c (keptCalls logs) := by
  induction h with
  | none => exact ⟨none, hcreated, by simp [EstimateOf, keptCalls]⟩
  | @next env plan logs st st' s log hbefore hsame hrun ih =>
    obtain ⟨c, hc, hestimate⟩ := ih
    have hstored := estimated_of_logged (hsame.trans hc) hrun
    -- an execution that flushes replaces the estimate by its own, any other leaves it
    by_cases hflush : .flush ∈ log
    · obtain ⟨hdone, hok, hnow⟩ := hstored.stored hflush
      have hbooked := booked_of_logged (hrun.filterMap callsOf_costEvents) hok
      obtain ⟨booked, hbooks, hperm⟩ :=
        hbooked.perm_of_poolsDone (control_of_reach (reached_of_shared hrun.reach)) hdone
      change (callsOf log).Perm booked at hperm
      refine ⟨_, hnow, ?_⟩
      cases hcosts : s.mem.pipe.costs r with
      | none =>
        rw [hcosts] at hbooks
        -- a run without a cost state had no call: the flush leaves its column alone
        have hnil : callsOf log = [] := (hbooks ▸ hperm).eq_nil
        simpa [keptCalls, estimates, hnil, flushed] using hestimate
      | some cs =>
        rw [hcosts] at hbooks
        have hne : callsOf log ≠ [] := fun hnil => hbooks.1 (hnil ▸ hperm).nil_eq.symm
        simpa [keptCalls, estimates, hne, hflush, flushed] using
          hbooks.estimateOf.perm hperm.symm
    · exact ⟨c, hstored.kept hflush, by simpa [keptCalls, estimates, hflush] using hestimate⟩

/-- A stored estimate is the sum of the prices of all calls, and it is null if one of them was
to a model without a price. -/
def NeverPartial (c : Option (ℚ × ℚ)) (made : List (Option ℚ)) : Prop :=
  (∀ exam judge, c = some (exam, judge) → exam + judge = made.reduceOption.sum) ∧
    (none ∈ made → c = none)

/-- **When the stored estimate is that of all calls.** When no execution stored an estimate, when
the last one that did called a model without a price, or when the other executions called priced
models only, for nothing in total. -/
theorem neverPartial_iff_of_executions {logs : List (List CostEvent)} {st₀ : Store}
    (hcreated : storedCost st₀ r = some none) (h : Executions r st₀ logs st) :
    ∃ c, storedCost st r = some c ∧
      (NeverPartial c (logs.flatMap callsOf) ↔
        keptCalls logs = [] ∨ none ∈ keptCalls logs ∨
          none ∉ droppedCalls logs ∧ (droppedCalls logs).reduceOption.sum = 0) := by
  obtain ⟨c, hc, hnull, hsum⟩ := estimateOf_of_executions hcreated h
  have hperm := calls_perm logs
  -- the calls of all executions are those that the estimate counts and those it lost
  have hall : (logs.flatMap callsOf).reduceOption.sum =
      (keptCalls logs).reduceOption.sum + (droppedCalls logs).reduceOption.sum := by
    refine (hperm.filterMap id).sum_eq.trans ?_
    rw [← List.sum_append, ← List.reduceOption_append]
    rfl
  have hmem : none ∈ logs.flatMap callsOf ↔ none ∈ keptCalls logs ∨ none ∈ droppedCalls logs := by
    rw [hperm.mem_iff, List.mem_append]
  refine ⟨c, hc, ?_⟩
  unfold NeverPartial
  rw [hall, hmem]
  cases c with
  | none =>
    -- the estimate is null, so no call was kept or one was not priced
    have hkept := hnull.mp rfl
    refine ⟨fun _ => ?_, fun _ => ⟨by simp, fun _ => rfl⟩⟩
    exact hkept.imp_right .inl
  | some split =>
    obtain ⟨exam, judge⟩ := split
    obtain ⟨hne, hpriced⟩ := not_or.mp (mt hnull.mpr (by simp))
    have htotal := hsum exam judge rfl
    constructor
    · rintro ⟨heq, hunpriced⟩
      refine .inr (.inr ⟨fun hnone => by simpa using hunpriced (.inr hnone), ?_⟩)
      have hthis := heq exam judge rfl
      rw [htotal] at hthis
      exact left_eq_add.mp hthis
    · rintro (hnil | hnone | ⟨hother, hzero⟩)
      · exact absurd hnil hne
      · exact absurd hnone hpriced
      · refine ⟨fun exam' judge' heq => ?_, fun hnone => ?_⟩
        · obtain ⟨rfl, rfl⟩ := Prod.mk.inj (Option.some.inj heq)
          rw [htotal, hzero, add_zero]
        · exact absurd hnone (not_or.mpr ⟨hpriced, hother⟩)

/-! ### A retry of an answered unit -/

/-- One dollar for a token in. -/
def pricedEnv : Env := { soloEnv with price := fun _ => some (1000000, 0) }

/-- One batch run of one model with a single rule case. -/
def rulePlan : Plan := { soloPlan with cells := [⟨soloRun .running, 1, [ruleCase 1]⟩] }

def ruleStore : Store := { soloStore with cases := [ruleCase 1] }

/-- The one case is asked, for the tokens the hub reports, and the execution returns. -/
def callLabels (tokens : Option ℕ) : List (Label ⊕ Store) :=
  ([.main, .main, .exam 0 .go, .handCell 0, .exam 0 (.setup (.ready "m1")), .exam 0 .go,
    .exam 0 .go, .exam 0 (.answer (.answered "a" 1 tokens none)), .exam 0 .go, .exam 0 .go,
    .exam 0 .go, .exam 0 .go, .exam 0 .go, .exam 0 .go, .exam 0 .go, .exam 0 .go, .main,
    .exam 0 .go, .exam 0 .go, .main, .judge 0 .go, .judge 0 .go, .main, .main, .main, .main,
    .main, .main, .main] : List Label).map .inl

/-- What the execution logs for run 1. -/
def callLog (tokens : Option ℕ) (plan : Plan) (st : Store) : List CostEvent :=
  Transition.logOf (sharedStep pricedEnv plan) (costEvents pricedEnv 1) (plan.start pricedEnv st)
    (callLabels tokens)

theorem logged_callLabels {tokens : Option ℕ}
    (hs : Transition.replay (sharedStep pricedEnv plan) (plan.start pricedEnv st)
      (callLabels tokens) = some s) :
    Transition.Logged (sharedStep pricedEnv plan) (Spares 1) (costEvents pricedEnv 1)
      (plan.start pricedEnv st) s (callLog tokens plan st) := by
  refine .of_replay (fun s a ha => ?_) hs
  obtain ⟨label, -, rfl⟩ := List.mem_map.mp ha
  trivial

/-- A batch asks the one case of its run and a targeted retry asks it again for a token; each
stores an estimate. -/
theorem exists_retried {tokens : Option ℕ} (htokens : tokens = none ∨ tokens = some 1) :
    ∃ (s s' : State) (st' : Store) (plan' : Plan),
      Transition.Logged (sharedStep pricedEnv rulePlan) (Spares 1) (costEvents pricedEnv 1)
        (rulePlan.start pricedEnv ruleStore) s (callLog tokens rulePlan ruleStore) ∧
      s.main = .returned ∧
      Retry.start s.store 1 (.answeredUnits [⟨1, 1⟩]) = some (st', plan') ∧
      storedCost st' 1 = storedCost s.store 1 ∧
      Transition.Logged (sharedStep pricedEnv plan') (Spares 1) (costEvents pricedEnv 1)
        (plan'.start pricedEnv st') s' (callLog (some 1) plan' st') ∧
      s'.main = .returned ∧
      callsOf (callLog tokens rulePlan ruleStore) = [some (tokens.getD 0 : ℚ)] ∧
      callsOf (callLog (some 1) plan' st') = [some 1] ∧
      .flush ∈ callLog (some 1) plan' st' := by
  obtain ⟨s, hs⟩ : ∃ s, Transition.replay (sharedStep pricedEnv rulePlan)
      (rulePlan.start pricedEnv ruleStore) (callLabels tokens) = some s := by
    rcases htokens with rfl | rfl <;> exact ⟨_, rfl⟩
  obtain ⟨⟨st', plan'⟩, hp⟩ : ∃ p, Retry.start s.store 1 (.answeredUnits [⟨1, 1⟩]) = some p := by
    rcases htokens with rfl | rfl <;> (cases hs; exact ⟨_, rfl⟩)
  obtain ⟨s', hs'⟩ : ∃ s', Transition.replay (sharedStep pricedEnv plan')
      (plan'.start pricedEnv st') (callLabels (some 1)) = some s' := by
    rcases htokens with rfl | rfl <;>
      (cases hs; cases hp; exact Option.isSome_iff_exists.mp (by decide +kernel))
  have hreturned : s.main = .returned ∧ storedCost st' 1 = storedCost s.store 1 := by
    rcases htokens with rfl | rfl <;> (cases hs; cases hp; exact ⟨rfl, rfl⟩)
  have hreturned' : (Transition.replay (sharedStep pricedEnv plan') (plan'.start pricedEnv st')
      (callLabels (some 1))).map (·.main) = some .returned := by
    rcases htokens with rfl | rfl <;> (cases hs; cases hp; decide +kernel)
  rw [hs'] at hreturned'
  have hlog : callsOf (callLog tokens rulePlan ruleStore) = [some (tokens.getD 0 : ℚ)] ∧
      callsOf (callLog (some 1) plan' st') = [some 1] ∧
        .flush ∈ callLog (some 1) plan' st' := by
    rcases htokens with rfl | rfl <;> (cases hs; cases hp; decide +kernel)
  exact ⟨s, s', st', plan', logged_callLabels hs, hreturned.1, hp, hreturned.2,
    logged_callLabels hs', Option.some.inj hreturned', hlog⟩

/-- The hub reports no usage for the batch's call, and the retry asks the unit again for a token:
the estimate the retry stores is that of all calls. -/
theorem neverPartial_iff_of_executions_batch : ∃ (s s' : State) (log log' : List CostEvent),
    s.main = .returned ∧ callsOf log = [some 0] ∧ s'.main = .returned ∧ callsOf log' = [some 1] ∧
      Executions 1 ruleStore [log', log] s'.store ∧
      ∃ c, storedCost s'.store 1 = some c ∧ NeverPartial c [some 1, some 0] := by
  obtain ⟨s, s', st', plan', hlogged, hreturned, -, hcost, hlogged', hreturned', hcalls, hcalls',
    hflush⟩ := exists_retried (.inl rfl)
  have hruns : Executions 1 ruleStore
      [callLog (some 1) plan' st', callLog none rulePlan ruleStore] s'.store :=
    .next (.next .none rfl hlogged) hcost hlogged'
  obtain ⟨c, hc, hiff⟩ := neverPartial_iff_of_executions rfl hruns
  -- what the retry's estimate lost is the batch's call, which cost nothing
  have hdropped : droppedCalls [callLog (some 1) plan' st', callLog none rulePlan ruleStore] =
      [some 0] := by
    simp [droppedCalls, estimates, hcalls, hcalls', hflush]
  have hpartial := hiff.mpr (.inr (.inr (by simp [hdropped])))
  rw [List.flatMap_cons, List.flatMap_singleton, hcalls, hcalls'] at hpartial
  exact ⟨s, s', _, _, hreturned, hcalls, hreturned', hcalls', hruns, c, hc, by simpa using hpartial⟩

/-- **Costs of a retry.** A batch asks the one case of its run, and a targeted retry asks it
again: the stored estimate is that of the second call alone. -/
theorem not_neverPartial_of_executions :
    ¬ ∀ (env : Env) (plan plan' : Plan) (retry : Retry) (st st' : Store) (s s' : State) (r : ℕ)
        (log log' : List CostEvent) (c : Option (ℚ × ℚ)),
      plan.path = .executePrepared → storedCost st r = some none →
      Transition.Logged (sharedStep env plan) (Spares r) (costEvents env r) (plan.start env st)
        s log → s.main = .returned →
      retry.start s.store plan.campaignId = some (st', plan') →
      Transition.Logged (sharedStep env plan') (Spares r) (costEvents env r)
        (plan'.start env st') s' log' → s'.main = .returned →
      storedCost s'.store r = some c → NeverPartial c (callsOf log ++ callsOf log') := by
  intro h
  -- a priced answer is asked and then retried: the second flush counts the second call alone
  obtain ⟨s, s', st', plan', hlogged, hreturned, hp, hcost, hlogged', hreturned', hcalls, hcalls',
    hflush⟩ := exists_retried (.inr rfl)
  have hruns : Executions 1 ruleStore
      [callLog (some 1) plan' st', callLog (some 1) rulePlan ruleStore] s'.store :=
    .next (.next .none rfl hlogged) hcost hlogged'
  obtain ⟨c, hc, hnull, hsum⟩ := estimateOf_of_executions rfl hruns
  have hkept : keptCalls [callLog (some 1) plan' st', callLog (some 1) rulePlan ruleStore] =
      [some 1] := by
    simp [keptCalls, estimates, hcalls', hflush]
  have hall := h pricedEnv rulePlan plan' (.answeredUnits [⟨1, 1⟩]) ruleStore st' s s' 1 _ _ c rfl
    rfl hlogged hreturned hp hlogged' hreturned' hc
  rw [hkept] at hnull hsum
  rw [hcalls, hcalls'] at hall
  cases c with
  | none => simp at hnull
  | some split =>
    have hone := hsum split.1 split.2 rfl
    have htwo := hall.1 split.1 split.2 rfl
    have hsame : (1 : ℚ) + 0 = 1 + (1 + 0) := hone.symm.trans (by simpa using htwo)
    norm_num at hsame

end HubScope
