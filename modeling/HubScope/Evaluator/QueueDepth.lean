import HubScope.Evaluator.Costs

/-!
# The queue depth of the judge stage

An observer of a running campaign reads how many votes wait for a judge worker and how many
are with one. The counters behind the reading are bumped by the two sides of an unbuffered
hand-over, each in a lock section of its own: the judge worker may count a vote as taken
before the exam worker has counted it as offered. Between the two the depth is negative.

## Main definitions

* `queueDepth` — what an observer reads of the pipeline
* `State.uncountedOffers`, `State.uncountedTakes` — the hand-overs a side has yet to count
* `DepthSound` — the readings are no nonsense
* `CountedFirst` — no vote is counted as taken ahead of the count of an offer

## Main results

* `judgePending_eq` — the depth is the difference of the two sides' uncounted hand-overs
* `depthSound_iff_countedFirst` — the readings of a run stay sound through the steps that
  count in this order, and through no others
* `not_depthSound` — a run in which a vote is counted as taken first
-/

set_option autoImplicit false

namespace HubScope

variable {env : Env} {plan : Plan} {st st' : Store} {m m' : Shared} {s s' : State}

/-! ### What an observer reads -/

/-- One subject's judge-stage progress. -/
structure ModelQueueDepth where
  modelDbId : ℕ
  judgeDone : ℕ
  judgeTotal : ℕ
  deriving DecidableEq, Repr

/-- The live queue state of both stages. -/
structure QueueDepth where
  examPending : ℤ
  examInflight : ℤ
  judgePending : ℤ
  judgeInflight : ℤ
  perModel : List ModelQueueDepth
  deriving DecidableEq, Repr

/-- Only a batch sets the number of its cells; the other drivers leave it at zero. -/
def Plan.examTotal (plan : Plan) : ℕ := if plan.path.guarded then plan.cells.length else 0

/-- A snapshot of the live queue state, with the models that have a vote ordered by id. -/
def queueDepth (plan : Plan) (p : Pipeline) : QueueDepth where
  examPending := plan.examTotal - p.examStarted
  examInflight := p.examStarted - p.examDone
  judgePending := p.judgeOffered - p.judgeTaken
  judgeInflight := p.judgeTaken - p.judgeDone
  perModel :=
    (((plan.cells.map (·.modelDbId)).dedup.filter (p.judgeOfferedByModel · ≠ 0)).mergeSort).map
      fun modelId => ⟨modelId, p.judgeDoneByModel modelId, p.judgeOfferedByModel modelId⟩

/-! ### Hand-overs between the two counts -/

/-- An exam worker that handed a vote over and has not counted it as offered. -/
def ExamPc.uncounted : ExamPc → ℕ
  | .noteOffered _ _ => 1
  | _ => 0

/-- A judge worker that received a vote and has not counted it as taken. -/
def JudgePc.uncounted : JudgePc → ℕ
  | .take _ => 1
  | _ => 0

/-- A judge worker with a vote it counted as taken and not as done. -/
def JudgePc.inflight : JudgePc → ℕ
  | .check | .select | .take _ | .exited => 0
  | _ => 1

/-- The hand-overs not yet counted as offered. -/
def State.uncountedOffers (s : State) : ℕ := Pool.total ExamPc.uncounted s.exam

/-- The hand-overs not yet counted as taken. -/
def State.uncountedTakes (s : State) : ℕ := Pool.total JudgePc.uncounted s.judge

/-- The votes counted as taken and not as done. -/
def State.inflight (s : State) : ℕ := Pool.total JudgePc.inflight s.judge

/-- The counters of the vote flow. -/
def Pipeline.judgeCounts (p : Pipeline) : ℕ × ℕ × ℕ := (p.judgeOffered, p.judgeTaken, p.judgeDone)

@[simp] theorem markCellsDone_judgeCounts (p : Pipeline) (r : ℕ) :
    (p.markCellsDone r).1.judgeCounts = p.judgeCounts := by
  obtain ⟨finished, h⟩ := Pipeline.runFinishedLocked_eq
    { p with cellsDone := Function.update p.cellsDone r true } r
  rw [Pipeline.markCellsDone, h]
  rfl

@[simp] theorem decrementPending_judgeCounts (p : Pipeline) (r : ℕ) :
    (p.decrementPending r).1.judgeCounts = p.judgeCounts := by
  obtain ⟨finished, h⟩ := Pipeline.runFinishedLocked_eq
    { p with judgePending := Function.update p.judgePending r (p.judgePending r - 1) } r
  rw [Pipeline.decrementPending, h]
  rfl

theorem uncounted_caseDone (k : SampleCursor) : (caseDone plan k).uncounted = 0 :=
  caseDone_rule k (fun _ => rfl) fun _ _ => rfl

theorem uncounted_sampleDone (k : SampleCursor) : (sampleDone env plan k).uncounted = 0 :=
  sampleDone_rule k (fun _ => rfl) fun _ => uncounted_caseDone k

theorem uncounted_routeSample (k : SampleCursor) (id : ℕ) (text : String) :
    (routeSample env k id text).uncounted = 0 :=
  routeSample_rule k id text (fun _ => rfl) fun _ => rfl

/-- Away from its own count, an exam worker leaves the counters of the vote flow alone. -/
theorem ExamStep.judgeCounts {pc pc' : ExamPc} (h : ExamStep env plan st m pc st' m' pc')
    (hpc : pc.uncounted = 0) :
    m'.pipe.judgeCounts = m.pipe.judgeCounts ∧ pc'.uncounted = 0 := by
  cases h with
  | opened k =>
    obtain ⟨aggs, haggs⟩ := Pipeline.openCase_eq m.pipe k.unit k.inCell.modelId k.profile
      (env.samples k.case)
    simp only [haggs]
    exact ⟨rfl, rfl⟩
  | recorded k id text latencyMs i o cost p hp =>
    obtain ⟨agg, agg', -, rfl, -⟩ := Pipeline.recordAnswer_spec hp
    exact ⟨rfl, uncounted_routeSample _ id text⟩
  | settled k median p hp =>
    obtain ⟨aggs, rfl⟩ := Pipeline.settleSample_eq hp
    exact ⟨rfl, uncounted_sampleDone k⟩
  | completed k median p agg hp =>
    obtain ⟨aggs, rfl⟩ := Pipeline.settleSample_eq hp
    exact ⟨rfl, rfl⟩
  | wrote k | offeredAll k | dropped k => exact ⟨rfl, uncounted_sampleDone k⟩
  | noted => exact absurd hpc one_ne_zero
  | reported cell answered | reportedLast cell answered =>
    obtain ⟨n, hpipe⟩ := reportCell_pipe plan (m.endCell cell) cell.run.id answered
    rw [hpipe]
    exact ⟨rfl, rfl⟩
  | marked runId | markedLast runId => exact ⟨markCellsDone_judgeCounts m.pipe runId, rfl⟩
  | _ => exact ⟨rfl, rfl⟩

theorem MainStep.judgeCounts {examDone judgeDone : Bool} {pc pc' : MainPc}
    (h : MainStep plan st m examDone judgeDone pc st' m' pc') :
    m'.pipe.judgeCounts = m.pipe.judgeCounts := by
  cases h with
  | marked r | markedLast r => exact markCellsDone_judgeCounts m.pipe r
  | _ => rfl

/-- Away from its two counts, a judge worker leaves the counters of the vote flow alone, and
holds a vote after the step exactly if it held one before. -/
theorem JudgeStep.judgeCounts {pc pc' : JudgePc} (h : JudgeStep env plan st m pc st' m' pc')
    (htake : ∀ j, pc ≠ .take j) (hdone : ∀ j, pc ≠ .noteDone j) :
    m'.pipe.judgeCounts = m.pipe.judgeCounts ∧ pc.uncounted = 0 ∧ pc'.uncounted = 0 ∧
      (m'.panicked = false → pc'.inflight = pc.inflight) := by
  cases h with
  | took j => exact absurd rfl (htake j)
  | noted j => exact absurd rfl (hdone j)
  | landed j score p hp | votesIn j score p median hp =>
    obtain ⟨votes, rfl⟩ := Pipeline.landVote_eq hp
    exact ⟨rfl, rfl, rfl, fun _ => rfl⟩
  | settled j median p hp | completed j median p agg hp =>
    obtain ⟨aggs, rfl⟩ := Pipeline.settleSample_eq hp
    exact ⟨rfl, rfl, rfl, fun _ => rfl⟩
  | settleCrash => exact ⟨rfl, rfl, rfl, fun hok => by cases hok⟩
  | decremented j | decrementedLast j =>
    exact ⟨decrementPending_judgeCounts m.pipe j.unit.runId, rfl, rfl, fun _ => rfl⟩
  | _ => exact ⟨rfl, rfl, rfl, fun _ => rfl⟩

/-! ### Counting the hand-overs -/

/-- An exam worker's label runs that worker's code. -/
theorem examStep_of_step {i : ℕ} {c : ExamChoice} (h : step env plan s (.exam i c) = some s') :
    ∃ pc st m pc', s.exam[i]? = some pc ∧
      examStep env plan s.store s.mem pc c = some (st, m, pc') ∧
      s' = { s with store := st, mem := m, exam := s.exam.set i pc' } := by
  unfold step at h
  split_ifs at h
  obtain ⟨pc, hi, hpc⟩ := Option.bind_eq_some_iff.mp h
  obtain ⟨⟨st, m, pc'⟩, he, heq⟩ := Option.map_eq_some_iff.mp hpc
  exact ⟨pc, st, m, pc', hi, he, heq.symm⟩

/-- A judge worker's label runs that worker's code. -/
theorem judgeStep_of_step {i : ℕ} {c : JudgeChoice} (h : step env plan s (.judge i c) = some s') :
    ∃ pc st m pc', s.judge[i]? = some pc ∧
      judgeStep env plan s.store s.mem pc c = some (st, m, pc') ∧
      s' = { s with store := st, mem := m, judge := s.judge.set i pc' } := by
  unfold step at h
  split_ifs at h
  obtain ⟨pc, hi, hpc⟩ := Option.bind_eq_some_iff.mp h
  obtain ⟨⟨st, m, pc'⟩, he, heq⟩ := Option.map_eq_some_iff.mp hpc
  exact ⟨pc, st, m, pc', hi, he, heq.symm⟩

/-- One code step of an exam worker: its count moves one hand-over to the counter. -/
theorem examStep_counts {pc pc' : ExamPc} {c : ExamChoice}
    (h : examStep env plan st m pc c = some (st', m', pc')) :
    m'.pipe.judgeOffered + pc'.uncounted = m.pipe.judgeOffered + pc.uncounted ∧
      pc'.uncounted = 0 ∧ m'.pipe.judgeTaken = m.pipe.judgeTaken ∧
      m'.pipe.judgeDone = m.pipe.judgeDone := by
  by_cases hpc : pc.uncounted = 0
  · obtain ⟨hcounts, hpc'⟩ := (examStep_cases h).judgeCounts hpc
    obtain ⟨hoffered, htaken, hdone⟩ : m'.pipe.judgeOffered = m.pipe.judgeOffered ∧
        m'.pipe.judgeTaken = m.pipe.judgeTaken ∧ m'.pipe.judgeDone = m.pipe.judgeDone := by
      simpa [Pipeline.judgeCounts] using hcounts
    exact ⟨by omega, hpc', htaken, hdone⟩
  · cases pc with
    | noteOffered k jobs =>
      cases c with
      | go =>
        cases h
        exact ⟨rfl, rfl, rfl, rfl⟩
      | _ => simp [examStep] at h
    | _ => exact absurd rfl hpc

/-- One code step of a judge worker: its counts move one vote on, and only the first of them
is ahead of nothing. -/
theorem judgeStep_counts {pc pc' : JudgePc} {c : JudgeChoice}
    (h : judgeStep env plan st m pc c = some (st', m', pc')) :
    m'.pipe.judgeOffered = m.pipe.judgeOffered ∧
      m'.pipe.judgeTaken + pc'.uncounted = m.pipe.judgeTaken + pc.uncounted ∧
      pc'.uncounted = 0 ∧
      (m'.panicked = false → m'.pipe.judgeDone + pc'.inflight + m.pipe.judgeTaken =
        m.pipe.judgeDone + pc.inflight + m'.pipe.judgeTaken) := by
  by_cases htake : ∃ j, pc = .take j
  · obtain ⟨j, rfl⟩ := htake
    cases c with
    | go =>
      cases h
      exact ⟨rfl, rfl, rfl, fun _ => by simp [JudgePc.inflight]; omega⟩
    | verdict => simp [judgeStep] at h
  by_cases hdone : ∃ j, pc = .noteDone j
  · obtain ⟨j, rfl⟩ := hdone
    cases c with
    | go =>
      cases h
      exact ⟨rfl, rfl, rfl, fun _ => by simp [JudgePc.inflight]⟩
    | verdict => simp [judgeStep] at h
  -- every other step counts nothing
  obtain ⟨hcounts, hpc, hpc', hinflight⟩ := (judgeStep_cases h).judgeCounts
    (not_exists.mp htake) (not_exists.mp hdone)
  obtain ⟨hoffered, htaken, hdone⟩ : m'.pipe.judgeOffered = m.pipe.judgeOffered ∧
      m'.pipe.judgeTaken = m.pipe.judgeTaken ∧ m'.pipe.judgeDone = m.pipe.judgeDone := by
    simpa [Pipeline.judgeCounts] using hcounts
  refine ⟨hoffered, by omega, hpc', fun hok => ?_⟩
  have hsame := hinflight hok
  omega

/-- What the counters say of a state: hand-overs counted as offered, with those still to be
counted, are hand-overs counted as taken, with those still to be counted; and what is counted
as taken is done or with a judge worker. -/
structure Balanced (s : State) : Prop where
  offered : s.mem.pipe.judgeOffered + s.uncountedOffers = s.mem.pipe.judgeTaken + s.uncountedTakes
  taken : s.mem.panicked = false → s.mem.pipe.judgeTaken = s.mem.pipe.judgeDone + s.inflight

theorem balanced_start (st : Store) : Balanced (plan.start env st) where
  offered := by
    have hexam : (plan.start env st).uncountedOffers = 0 := Pool.total_replicate _ rfl
    have hjudge : (plan.start env st).uncountedTakes = 0 := Pool.total_replicate _ rfl
    rw [hexam, hjudge]
    rfl
  taken _ := by
    have hjudge : (plan.start env st).inflight = 0 := Pool.total_replicate _ rfl
    rw [hjudge]
    rfl

/-- Every step keeps the balance. -/
theorem balanced_step {a : Label} (hs : Balanced s) (h : step env plan s a = some s') :
    Balanced s' := by
  obtain ⟨hlive, hcases⟩ := step_cases h
  have htaken := hs.taken hlive
  have hoffered := hs.offered
  cases a with
  | exam i c =>
    obtain ⟨pc, st, m, pc', hi, he, rfl⟩ := examStep_of_step h
    obtain ⟨hoffer, -, htake, hdone⟩ := examStep_counts he
    have hset := Pool.total_set (f := ExamPc.uncounted) hi pc'
    constructor
    · simp only [State.uncountedOffers, State.uncountedTakes] at hoffered ⊢
      omega
    · intro _
      change m.pipe.judgeTaken = m.pipe.judgeDone + s.inflight
      omega
  | judge i c =>
    obtain ⟨pc, st, m, pc', hi, he, rfl⟩ := judgeStep_of_step h
    obtain ⟨hoffer, htake, -, hdone⟩ := judgeStep_counts he
    have hset := Pool.total_set (f := JudgePc.uncounted) hi pc'
    have hset' := Pool.total_set (f := JudgePc.inflight) hi pc'
    constructor
    · simp only [State.uncountedOffers, State.uncountedTakes] at hoffered ⊢
      omega
    · intro hok
      have hmoved := hdone hok
      simp only [State.inflight] at htaken ⊢
      omega
  | main =>
    cases hcases with
    | @main st m pc hm =>
      have hcounts := hm.judgeCounts
      simp only [Pipeline.judgeCounts, Prod.mk.injEq] at hcounts
      obtain ⟨hoffer, htake, hdone⟩ := hcounts
      constructor
      · change m.pipe.judgeOffered + s.uncountedOffers = m.pipe.judgeTaken + s.uncountedTakes
        omega
      · intro _
        change m.pipe.judgeTaken = m.pipe.judgeDone + s.inflight
        omega
  | handCell i =>
    cases hcases with
    | @handCell _ cell cs hmain hi =>
      have hset := Pool.total_set (f := ExamPc.uncounted) hi (.setup cell)
      refine ⟨?_, fun _ => htaken⟩
      simp only [State.uncountedOffers, State.uncountedTakes, ExamPc.uncounted] at hoffered hset ⊢
      omega
  | handJob i j =>
    cases hcases with
    | @handJob _ _ k job jobs hi hj =>
      have hset := Pool.total_set (f := ExamPc.uncounted) hi (.noteOffered k jobs)
      have hset' := Pool.total_set (f := JudgePc.uncounted) hj (.take job)
      have hset'' := Pool.total_set (f := JudgePc.inflight) hj (.take job)
      constructor
      · -- the hand-over is one more that neither side has counted
        simp only [State.uncountedOffers, State.uncountedTakes, ExamPc.uncounted,
          JudgePc.uncounted] at hoffered hset hset' ⊢
        omega
      · intro _
        simp only [State.inflight, JudgePc.inflight] at htaken hset'' ⊢
        omega
  | cancel =>
    cases hcases
    exact ⟨hoffered, fun _ => htaken⟩
  | expire =>
    cases hcases
    exact ⟨hoffered, fun _ => htaken⟩

theorem balanced_of_reached (h : Reached env plan s) : Balanced s := by
  induction h with
  | start st => exact balanced_start st
  | step _ hstep ih => exact balanced_step ih hstep
  | others st _ ih => exact ⟨ih.offered, ih.taken⟩

/-- **The depth.** It is the number of hand-overs not yet counted as taken, less the number of
those not yet counted as offered. -/
theorem judgePending_eq (h : Reached env plan s) :
    (queueDepth plan s.mem.pipe).judgePending = s.uncountedTakes - s.uncountedOffers := by
  have hoffered := (balanced_of_reached h).offered
  simp only [queueDepth]
  omega

/-! ### Crashes -/

/-- A crash leaves the pipeline as it was. -/
theorem pipe_of_crash {a : Label} (h : Step env plan s a s') (hlive : s.mem.panicked = false)
    (hcrash : s'.mem.panicked = true) : s'.mem.pipe = s.mem.pipe := by
  have hcontra : s.mem.panicked ≠ true := by simp [hlive]
  cases h with
  | @main st m pc hm =>
    have hsame : m.panicked = s.mem.panicked := by
      generalize s.main = pc₀ at hm
      cases hm <;> rfl
    exact absurd (hsame.symm.trans hcrash) hcontra
  | @exam i c pc st m pc' hi he =>
    cases he with
    -- a crash is a lookup that finds no aggregate, before anything is written
    | recordCrash | settleCrash => rfl
    | reported cell answered | reportedLast cell answered =>
      obtain ⟨-, -, hpanic⟩ := reportCell_closed plan (s.mem.endCell cell) cell.run.id answered
      exact absurd (hpanic.symm.trans hcrash) hcontra
    | _ => exact absurd hcrash hcontra
  | @judge i c pc st m pc' hi he =>
    cases he with
    | settleCrash => rfl
    | _ => exact absurd hcrash hcontra
  | handCell | handJob | cancel | expire => exact absurd hcrash hcontra

/-- What is read after a crash is what was there before it. -/
theorem exists_live (h : Reached env plan s) :
    ∃ t, Reached env plan t ∧ t.mem.panicked = false ∧ t.mem.pipe = s.mem.pipe := by
  induction h with
  | start st => exact ⟨_, .start st, rfl, rfl⟩
  | @step t u a hrun hstep ih =>
    obtain ⟨hlive, hcases⟩ := step_cases hstep
    cases hcrash : u.mem.panicked with
    | false => exact ⟨u, hrun.step hstep, hcrash, rfl⟩
    | true => exact ⟨t, hrun, hlive, (pipe_of_crash hcases hlive hcrash).symm⟩
  | others st _ ih => exact ih

/-! ### The readings -/

/-- The readings are no nonsense: the depth, the votes in flight and each run's pending count
are not negative, and the depth is zero after the pools have drained uncanceled. -/
structure DepthSound (plan : Plan) (s : State) : Prop where
  judgePending : 0 ≤ (queueDepth plan s.mem.pipe).judgePending
  judgeInflight : 0 ≤ (queueDepth plan s.mem.pipe).judgeInflight
  pending : ∀ r, 0 ≤ s.mem.pipe.judgePending r
  drained : s.main.poolsDone = true → s.mem.canceled = false →
    (queueDepth plan s.mem.pipe).judgePending = 0

/-- No vote is counted as taken ahead of the count of an offer: when a judge worker counts one,
fewer hand-overs are yet to be counted as offered than as taken. -/
def CountedFirst (s : State) : Label ⊕ Store → Prop
  | .inl (.judge i _) => ∀ job, s.judge[i]? = some (.take job) → s.uncountedOffers < s.uncountedTakes
  | _ => True

instance (s : State) (a : Label ⊕ Store) : Decidable (CountedFirst s a) :=
  match a with
  | .inl (.judge i _) =>
    decidable_of_iff (∀ pc ∈ s.judge[i]?, pc.uncounted = 1 → s.uncountedOffers < s.uncountedTakes)
      ⟨fun h job hi => h _ hi rfl, fun h pc hi hpc => by
        cases pc with
        | take job => exact h job hi
        | _ => cases hpc⟩
  | .inl .main | .inl (.exam _ _) | .inl (.handCell _) | .inl (.handJob _ _) | .inl .cancel
  | .inl .expire | .inr _ => inferInstanceAs (Decidable True)

theorem judgeInflight_nonneg (h : Reached env plan s) :
    0 ≤ (queueDepth plan s.mem.pipe).judgeInflight := by
  obtain ⟨t, ht, hlive, hpipe⟩ := exists_live h
  have htaken := (balanced_of_reached ht).taken hlive
  rw [← hpipe]
  simp only [queueDepth]
  omega

theorem pending_nonneg (h : Reached env plan s) (r : ℕ) : 0 ≤ s.mem.pipe.judgePending r := by
  obtain ⟨t, ht, hlive, hpipe⟩ := exists_live h
  rw [← hpipe, judgePending_of_reach r ht hlive]
  omega

/-- Past the pools every hand-over is counted on both sides. -/
theorem judgePending_of_poolsDone (h : Reached env plan s) (hdone : s.main.poolsDone = true) :
    (queueDepth plan s.mem.pipe).judgePending = 0 := by
  obtain ⟨hexam, hjudge⟩ := (control_of_reach h).no_worker hdone
  have hoffers : s.uncountedOffers = 0 :=
    Pool.total_eq_zero_iff.mpr fun pc hpc => by rw [hexam pc hpc]; rfl
  have htakes : s.uncountedTakes = 0 :=
    Pool.total_eq_zero_iff.mpr fun pc hpc => by rw [hjudge pc hpc]; rfl
  rw [judgePending_eq h, hoffers, htakes]
  rfl

/-- A hand-over is one more on both sides, and what else is no count of a vote as taken adds to
neither. -/
theorem uncounted_step {a : Label} (h : step env plan s a = some s')
    (htake : ∀ i c, a ≠ .judge i c) (hle : s.uncountedOffers ≤ s.uncountedTakes) :
    s'.uncountedOffers ≤ s'.uncountedTakes := by
  obtain ⟨-, hcases⟩ := step_cases h
  cases a with
  | exam i c =>
    obtain ⟨pc, st, m, pc', hi, he, rfl⟩ := examStep_of_step h
    obtain ⟨-, hpc', -, -⟩ := examStep_counts he
    have hset := Pool.total_set (f := ExamPc.uncounted) hi pc'
    simp only [State.uncountedOffers, State.uncountedTakes] at hle ⊢
    omega
  | judge i c => exact absurd rfl (htake i c)
  | handCell i =>
    cases hcases with
    | @handCell _ cell cs hmain hi =>
      have hset := Pool.total_set (f := ExamPc.uncounted) hi (.setup cell)
      simp only [State.uncountedOffers, State.uncountedTakes, ExamPc.uncounted] at hle hset ⊢
      omega
  | handJob i j =>
    cases hcases with
    | @handJob _ _ k job jobs hi hj =>
      -- both sides owe the count of the vote that changes hands
      have hset := Pool.total_set (f := ExamPc.uncounted) hi (.noteOffered k jobs)
      have hset' := Pool.total_set (f := JudgePc.uncounted) hj (.take job)
      simp only [State.uncountedOffers, State.uncountedTakes, ExamPc.uncounted,
        JudgePc.uncounted] at hle hset hset' ⊢
      omega
  | main | cancel | expire =>
    cases hcases
    exact hle

/-- A judge worker's step keeps the order of the counts exactly if it counts in order. -/
theorem uncounted_judge_iff {i : ℕ} {c : JudgeChoice} (h : step env plan s (.judge i c) = some s')
    (hle : s.uncountedOffers ≤ s.uncountedTakes) :
    s'.uncountedOffers ≤ s'.uncountedTakes ↔ CountedFirst s (.inl (.judge i c)) := by
  obtain ⟨pc, st, m, pc', hi, he, rfl⟩ := judgeStep_of_step h
  obtain ⟨-, -, hpc', -⟩ := judgeStep_counts he
  have hset := Pool.total_set (f := JudgePc.uncounted) hi pc'
  have htakes : Pool.total JudgePc.uncounted (s.judge.set i pc') + pc.uncounted =
      s.uncountedTakes := by
    rw [hset, hpc', Nat.add_zero]
    rfl
  simp only [State.uncountedTakes] at htakes hle
  cases hpc : pc with
  | take job =>
    rw [hpc] at htakes hi
    -- the worker counts the vote as taken, which is one less to be counted
    have hone : (JudgePc.take job).uncounted = 1 := rfl
    constructor
    · intro hafter job' hjob'
      simp only [State.uncountedOffers, State.uncountedTakes] at hafter ⊢
      omega
    · intro hfirst
      have hlt := hfirst job hi
      simp only [State.uncountedOffers, State.uncountedTakes] at hlt ⊢
      omega
  | _ =>
    have hzero : pc.uncounted = 0 := by rw [hpc]; rfl
    refine iff_of_true ?_ ?_
    · simp only [State.uncountedOffers, State.uncountedTakes] at hle ⊢
      omega
    · intro job hjob
      rw [hi, hpc] at hjob
      cases hjob

/-- The readings are sound in a state exactly if the judge workers are not ahead with their
counts. -/
theorem depthSound_iff (h : Reached env plan s) :
    DepthSound plan s ↔ s.uncountedOffers ≤ s.uncountedTakes := by
  constructor
  · intro hsound
    have hdepth := hsound.judgePending
    rw [judgePending_eq h] at hdepth
    omega
  · intro hle
    refine ⟨?_, judgeInflight_nonneg h, pending_nonneg h,
      fun hdone _ => judgePending_of_poolsDone h hdone⟩
    rw [judgePending_eq h]
    omega

/-- A step goes on to a sound reading exactly if it counts in order. -/
theorem depthSound_step_iff {a : Label ⊕ Store} (h : Reached env plan s)
    (hs : DepthSound plan s) (hstep : sharedStep env plan s a = some s') :
    DepthSound plan s' ↔ CountedFirst s a := by
  have hle := (depthSound_iff h).mp hs
  cases a with
  | inr st =>
    cases hstep
    exact iff_of_true ((depthSound_iff (h.others st)).mpr hle) trivial
  | inl a =>
    have hreached : Reached env plan s' := h.step hstep
    rw [depthSound_iff hreached]
    by_cases ha : ∃ i c, a = .judge i c
    · obtain ⟨i, c, rfl⟩ := ha
      exact uncounted_judge_iff hstep hle
    · have htake : ∀ i c, a ≠ .judge i c := fun i c hac => ha ⟨i, c, hac⟩
      refine iff_of_true (uncounted_step hstep htake hle) ?_
      cases a with
      | judge i c => exact absurd rfl (htake i c)
      | _ => trivial

/-- **The readings of a run.** In every state of a run that counts no vote as taken ahead of the
count of an offer they are sound; from a sound one only such a step leads to another
one. Whatever the order, the votes in flight and the pending counts are not negative, and past
the pools the depth is zero. -/
theorem depthSound_iff_countedFirst (env : Env) (plan : Plan) (st : Store) :
    (∀ s, Transition.Reach (sharedStep env plan) CountedFirst (plan.start env st) s →
      DepthSound plan s) ∧
    (∀ s a s', Transition.Reachable (sharedStep env plan) (plan.start env st) s →
      DepthSound plan s → sharedStep env plan s a = some s' →
        (DepthSound plan s' ↔ CountedFirst s a)) ∧
    ∀ s, Transition.Reachable (sharedStep env plan) (plan.start env st) s →
      (queueDepth plan s.mem.pipe).judgePending = s.uncountedTakes - s.uncountedOffers ∧
        0 ≤ (queueDepth plan s.mem.pipe).judgeInflight ∧
        (∀ r, 0 ≤ s.mem.pipe.judgePending r) ∧
        (s.main.poolsDone = true → (queueDepth plan s.mem.pipe).judgePending = 0) := by
  refine ⟨fun s h => ?_, fun s a s' h => depthSound_step_iff (reached_of_shared h), fun s h => ?_⟩
  · have hstart : DepthSound plan (plan.start env st) := by
      have hexam : (plan.start env st).uncountedOffers = 0 := Pool.total_replicate _ rfl
      apply (depthSound_iff (.start st)).mpr
      omega
    -- along the run, every step counts in order
    induction h with
    | refl => exact hstart
    | tail hrun hfirst hstep ih =>
      exact (depthSound_step_iff (reached_of_shared hrun) ih hstep).mpr hfirst
  · have hreached := reached_of_shared h
    exact ⟨judgePending_eq hreached, judgeInflight_nonneg hreached, pending_nonneg hreached,
      judgePending_of_poolsDone hreached⟩

/-- One answered judge case, up to the hand-over of its vote. -/
def handedLabels : List (Label ⊕ Store) :=
  [.main, .main, .exam 0 .go, .handCell 0, .main, .exam 0 (.setup (.ready "m1")), .exam 0 .go,
    .exam 0 .go, .judge 0 .go, .exam 0 (.answer (.answered "a" 1 none none)), .exam 0 .go,
    .exam 0 .go, .exam 0 .go, .handJob 0 0].map .inl

/-- The exam worker counts the vote as offered, then the judge worker counts it as taken. -/
theorem depthSound_iff_countedFirst_offered : ∃ s s' : State,
    sharedStep soloEnv soloPlan s (.inl (.judge 0 .go)) = some s' ∧
      (queueDepth soloPlan s.mem.pipe).judgePending = 1 ∧ DepthSound soloPlan s ∧
      (queueDepth soloPlan s'.mem.pipe).judgePending = 0 ∧ DepthSound soloPlan s' := by
  obtain ⟨s, hs⟩ : ∃ s, Transition.replayWith (sharedStep soloEnv soloPlan) CountedFirst
      (soloPlan.start soloEnv soloStore) (handedLabels ++ [.inl (.exam 0 .go)]) = some s := ⟨_, rfl⟩
  obtain ⟨s', hs'⟩ : ∃ s', sharedStep soloEnv soloPlan s (.inl (.judge 0 .go)) = some s' := by
    cases hs
    exact ⟨_, rfl⟩
  have hfirst : CountedFirst s (.inl (.judge 0 .go)) := by
    cases hs
    decide
  obtain ⟨hsound, -⟩ := depthSound_iff_countedFirst soloEnv soloPlan soloStore
  have hrun := Transition.Reach.of_replayWith hs
  refine ⟨s, s', hs', ?_, hsound s hrun, ?_, hsound s' (hrun.tail hfirst hs')⟩
  · cases hs
    rfl
  · cases hs
    cases hs'
    rfl

/-- **A negative depth.** When the judge worker counts the vote as taken before the exam worker
counts it as offered, the depth is minus one. -/
theorem not_depthSound :
    ¬ ∀ (env : Env) (plan : Plan) (st : Store) (s : State),
      Transition.Reachable (sharedStep env plan) (plan.start env st) s → DepthSound plan s := by
  intro h
  obtain ⟨s, hs⟩ : ∃ s, Transition.replay (sharedStep soloEnv soloPlan)
      (soloPlan.start soloEnv soloStore) (handedLabels ++ [.inl (.judge 0 .go)]) = some s := ⟨_, rfl⟩
  have hdepth : (queueDepth soloPlan s.mem.pipe).judgePending = -1 := by
    cases hs
    rfl
  have hsound := (h soloEnv soloPlan soloStore s (.of_replay hs)).judgePending
  rw [hdepth] at hsound
  omega

end HubScope
