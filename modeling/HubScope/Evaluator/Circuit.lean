import HubScope.Evaluator.Progress
import HubScope.Lib.Breaker

/-!
# The circuit breaker of a model

A batch asks the cases of a cell in order. After `circuitBreakerThreshold` cases in a row without
an answer it gives the model up: what is left is recorded unscored, in one batch of rows, and not
asked. The loop is stated once over the outcomes of the cases, and once as what a worker of the
exam pool logs between taking a cell up and reporting on it, with all other goroutines taking
their steps in between.

## Main definitions

* `Attempt` — a case with the outcomes of its samples
* `evalCases` — the loop over the cases
* `CellEvent`, `cellEvents` — what a worker does for its cell
* `Returned` — the log of a cell whose model is reported on

## Main results

* `evalCases_spec` — the loop stops at the first run of unanswered cases that leaves any over
* `returned_of_logged` — a worker does what the loop says
-/

set_option autoImplicit false

namespace HubScope

/-! ### The loop over the cases -/

/-- A case with the outcomes of its samples: whether each got an answer. -/
structure Attempt where
  case : Case
  samples : List Bool
  deriving DecidableEq

/-- Whether any sample of the case got an answer. -/
def Attempt.answered (a : Attempt) : Bool := a.samples.any id

/-- What `evalModel` made of the cases: the ones it asked, the ones it gave up, and whether any
was answered. -/
structure CellReport where
  attempted : List Attempt
  stamped : List Case
  answered : Bool

/-- A report with attempts before it. -/
def CellReport.prepend (r : CellReport) (done : List Attempt) : CellReport :=
  { r with attempted := done ++ r.attempted }

theorem CellReport.prepend_prepend (r : CellReport) (done done' : List Attempt) :
    (r.prepend done').prepend done = r.prepend (done ++ done') := by
  simp only [CellReport.prepend, List.append_assoc]

/-- The loop of `evalModel` over the cases, for the outcomes they have when they are asked. -/
def evalCases (answered : Bool) (consecutiveFailed : ℕ) : List Attempt → CellReport
  | [] => ⟨[], [], answered⟩
  | a :: as =>
    if a.answered then (evalCases true 0 as).prepend [a]
    else if circuitBreakerThreshold ≤ consecutiveFailed + 1 ∧ as ≠ [] then
      ⟨[a], as.map (·.case), answered⟩
    else (evalCases answered (consecutiveFailed + 1) as).prepend [a]

/-- The loop is a breaker over the attempts. -/
theorem evalCases_eq (answered : Bool) (failed : ℕ) (as : List Attempt) :
    evalCases answered failed as =
      ⟨(Breaker.run Attempt.answered circuitBreakerThreshold failed as).1,
        (Breaker.run Attempt.answered circuitBreakerThreshold failed as).2.map (·.case),
        answered || (Breaker.run Attempt.answered circuitBreakerThreshold failed as).1.any
          Attempt.answered⟩ := by
  induction as generalizing answered failed with
  | nil => simp [evalCases, Breaker.run]
  | cons a as ih =>
    cases ha : a.answered with
    | true => simp [evalCases, Breaker.run, ha, ih, CellReport.prepend]
    | false =>
      by_cases htrip : circuitBreakerThreshold ≤ failed + 1
      · by_cases hleft : as = []
        · subst hleft
          simp [evalCases, Breaker.run, ha, htrip, CellReport.prepend]
        · simp [evalCases, Breaker.run, ha, htrip, hleft]
      · simp [evalCases, Breaker.run, ha, htrip, ih, CellReport.prepend]

/-- What a breaker makes of the cases: it asks the first ones and stamps the rest, it has not seen
`circuitBreakerThreshold` unanswered cases in a row before the last it asked, and it has seen just
that many if it stamps any. -/
structure Broken (as : List Attempt) (r : CellReport) : Prop where
  asked : r.attempted <+: as
  partition : r.attempted.map (·.case) ++ r.stamped = as.map (·.case)
  closed : ∀ n < r.attempted.length,
    Breaker.trailing Attempt.answered (as.take n) < circuitBreakerThreshold
  opened : r.stamped ≠ [] →
    Breaker.trailing Attempt.answered r.attempted = circuitBreakerThreshold
  answered : r.answered = true ↔ ∃ a ∈ r.attempted, a.answered = true

theorem circuitBreakerThreshold_pos : 0 < circuitBreakerThreshold := Nat.succ_pos 4

theorem evalCases_spec (as : List Attempt) : Broken as (evalCases false 0 as) := by
  have hspec : Breaker.Spec Attempt.answered circuitBreakerThreshold as
      (Breaker.run Attempt.answered circuitBreakerThreshold 0 as).1 _ :=
    Breaker.run_spec circuitBreakerThreshold_pos as
  rw [evalCases_eq]
  constructor
  · exact ⟨_, hspec.split⟩
  · dsimp only
    rw [← List.map_append, hspec.split]
  · exact hspec.closed
  · intro hne
    apply hspec.opened
    intro hnil
    apply hne
    dsimp only
    rw [hnil, List.map_nil]
  · dsimp only
    rw [Bool.false_or, List.any_eq_true]

/-! ### What a worker logs -/

/-- Whether the answer call got an answer. -/
def AnswerOutcome.isAnswered : AnswerOutcome → Bool
  | answered .. => true
  | failed .. => false

/-- What a worker does for its cell: it looks the model up, opens a case in the pipeline, asks a
sample of it, stamps a row. -/
inductive CellEvent
  | checked (o : SetupOutcome)
  | opened (c : Case)
  | asked (c : Case) (sampleNo : ℕ) (answered : Bool)
  | stamped (r : EvalResult)
  deriving DecidableEq

/-- What is logged of an attempt. -/
def Attempt.events (a : Attempt) : List CellEvent :=
  .opened a.case :: (a.samples.zipIdx 1).map fun (answered, n) => .asked a.case n answered

theorem Attempt.events_concat (c : Case) (outs : List Bool) (answered : Bool) :
    Attempt.events ⟨c, outs ++ [answered]⟩ =
      Attempt.events ⟨c, outs⟩ ++ [.asked c (outs.length + 1) answered] := by
  simp [Attempt.events, List.zipIdx_append, Nat.add_comm]

/-- What a worker's step does for its cell; `rows` are the results it stores. -/
def ExamPc.events (c : ExamChoice) (rows : List EvalResult) : ExamPc → List CellEvent
  | .setup _ =>
    match c with
    | .setup o => [.checked o]
    | _ => []
  | .openCase k => [.opened k.case]
  | .call k =>
    match c with
    | .answer o => [.asked k.case k.sampleNo o.isAnswered]
    | _ => []
  | .stamp _ _ _ _ => rows.map .stamped
  | _ => []

/-- What exam worker `i` does for its cell with a step of the execution. -/
def cellEvents (env : Env) (plan : Plan) (i : ℕ) (s : State) : Label → List CellEvent
  | .exam j c =>
    if j = i then
      s.exam[i]?.elim [] fun pc => pc.events c <|
        (step env plan s (.exam i c)).elim [] fun s' =>
          s'.store.results.drop s.store.results.length
    else []
  | _ => []

/-- The worker is about to report on its cell. -/
def ExamPc.reports : ExamPc → Bool
  | .report _ _ => true
  | _ => false

/-- Exam worker `i` stays with its cell. -/
def staysInCell (i : ℕ) (s : State) : Label → Prop
  | .exam j _ => j = i → s.exam[i]?.any ExamPc.reports = false
  | _ => True

instance (i : ℕ) (s : State) (a : Label) : Decidable (staysInCell i s a) :=
  match a with
  | .exam j _ => inferInstanceAs (Decidable (j = i → s.exam[i]?.any ExamPc.reports = false))
  | .main | .judge _ _ | .handCell _ | .handJob _ _ | .cancel | .expire =>
    inferInstanceAs (Decidable True)

/-- The null-score rows of the cases. -/
def stamps (cell : Cell) (modelId : String) (cases : List Case) : List CellEvent :=
  cases.map fun c => .stamped (failedResult cell.run cell.modelDbId modelId c)

/-- The log of a cell whose model is reported on, with what is reported. -/
inductive Returned (env : Env) (cell : Cell) : List CellEvent → Bool → Prop
  -- retired, or down on the status board
  | skipped (o : SetupOutcome) : o.stampId = none → (∀ modelId, o ≠ .ready modelId) →
      Returned env cell [.checked o] false
  | failed (o : SetupOutcome) (modelId : String) : o.stampId = some modelId →
      Returned env cell (.checked o :: stamps cell modelId cell.cases) false
  | asked (modelId : String) (as : List Attempt) : as.map (·.case) = cell.cases →
      (∀ a ∈ as, a.samples.length = env.samples a.case) →
      Returned env cell
        (.checked (.ready modelId) :: ((evalCases false 0 as).attempted.flatMap Attempt.events ++
          stamps cell modelId (evalCases false 0 as).stamped))
        (evalCases false 0 as).answered

/-! ### Between taking a cell up and reporting on it -/

section

variable {env : Env} {plan : Plan} {cell : Cell} {log : List CellEvent}

/-- The worker has attempted `done`, and goes on with `pending` and the rest of its cell as the
loop does. -/
structure Loop (env : Env) (cell : Cell) (done : List Attempt) (pending : List Case)
    (l : CellCursor) : Prop where
  cell_eq : l.cell = cell
  cases : done.map (·.case) ++ (pending ++ l.rest) = cell.cases
  sampled : ∀ a ∈ done, a.samples.length = env.samples a.case
  report : ∀ as : List Attempt, as.map (·.case) = pending ++ l.rest →
    evalCases false 0 (done ++ as) =
      (evalCases l.answered l.consecutiveFailed as).prepend done

/-- What is logged once the attempts are made. -/
def begun (modelId : String) (done : List Attempt) : List CellEvent :=
  .checked (.ready modelId) :: done.flatMap Attempt.events

/-- The worker has asked `seen` samples of its case, with an answer or without. -/
def Asked (env : Env) (cell : Cell) (log : List CellEvent) (k : SampleCursor) (seen : ℕ)
    (answered : Bool) : Prop :=
  ∃ done outs, Loop env cell done [k.case] k.inCell ∧ outs.length = seen ∧
    outs.any id = answered ∧ log = begun k.inCell.modelId done ++ Attempt.events ⟨k.case, outs⟩

/-- What a worker that stands in the cell has logged. -/
def CellLog (env : Env) (cell : Cell) (log : List CellEvent) : ExamPc → Prop
  | .setup c => c = cell ∧ log = []
  | .nextCase l => ∃ done, Loop env cell done [] l ∧ log = begun l.modelId done
  | .openCase k => k.sampleNo = 1 ∧ k.answered = false ∧
      ∃ done, Loop env cell done [k.case] k.inCell ∧ log = begun k.inCell.modelId done
  | .call k => k.sampleNo ≤ env.samples k.case ∧
      ∃ seen, k.sampleNo = seen + 1 ∧ Asked env cell log k seen k.answered
  | .persist k o | .record k o _ => k.sampleNo ≤ env.samples k.case ∧
      Asked env cell log k k.sampleNo (k.answered || o.isAnswered)
  | .settle k _ | .write k _ | .enqueue k _ | .offer k _ | .noteOffered k _ =>
      k.sampleNo ≤ env.samples k.case ∧ Asked env cell log k k.sampleNo k.answered
  | .stamp c modelId cases answered => c = cell ∧
      Returned env cell (log ++ stamps cell modelId cases) answered
  | .report c answered => c = cell ∧ Returned env cell log answered
  | .exited => True
  | .check | .select | .mark _ | .finish _ => False

/-- The loop ends: the cases it has not asked are stamped. -/
theorem Loop.returned {done : List Attempt} {pending : List Case} {l : CellCursor}
    (h : Loop env cell done pending l) (outs : Case → List Bool)
    (hsampled : ∀ c ∈ pending, (outs c).length = env.samples c) (r : CellReport)
    (hr : ∀ as : List Attempt, as.map (·.case) = l.rest →
      evalCases l.answered l.consecutiveFailed (pending.map (fun c => ⟨c, outs c⟩) ++ as) = r) :
    Returned env cell (begun l.modelId (done ++ r.attempted) ++ stamps cell l.modelId r.stamped)
      r.answered := by
  -- the outcomes of the cases it will not ask do not matter
  let as : List Attempt := l.rest.map fun c => ⟨c, List.replicate (env.samples c) false⟩
  have hcases : as.map (·.case) = l.rest := by
    simp only [as, List.map_map]
    exact List.map_id _
  have hpending : (pending.map (fun c => (⟨c, outs c⟩ : Attempt)) ++ as).map (·.case) =
      pending ++ l.rest := by
    rw [List.map_append, hcases, List.map_map]
    exact congrArg (· ++ l.rest) (List.map_id _)
  have hreport := h.report _ hpending
  rw [hr as hcases] at hreport
  have hreturned := @Returned.asked env cell l.modelId
    (done ++ (pending.map (fun c => ⟨c, outs c⟩) ++ as)) ?_ ?_
  · rw [hreport] at hreturned
    exact hreturned
  · rw [List.map_append, hpending, h.cases]
  · intro a ha
    rcases List.mem_append.mp ha with ha | ha
    · exact h.sampled a ha
    · rcases List.mem_append.mp ha with ha | ha
      · obtain ⟨c, hc, rfl⟩ := List.mem_map.mp ha
        exact hsampled c hc
      · obtain ⟨c, hc, rfl⟩ := List.mem_map.mp ha
        exact List.length_replicate

theorem begun_concat (modelId : String) (done : List Attempt) (a : Attempt) :
    begun modelId (done ++ [a]) = begun modelId done ++ a.events := by
  rw [begun, List.flatMap_append, List.flatMap_singleton, begun, List.cons_append]

/-- The case is asked, and the loop goes on behind it. -/
theorem Loop.next {done : List Attempt} {c : Case} {l : CellCursor} {outs : List Bool}
    {answered : Bool} {failed : ℕ} (h : Loop env cell done [c] l)
    (hsampled : outs.length = env.samples c)
    (hnext : ∀ as : List Attempt, as.map (·.case) = l.rest →
      evalCases l.answered l.consecutiveFailed (⟨c, outs⟩ :: as) =
        (evalCases answered failed as).prepend [⟨c, outs⟩]) :
    Loop env cell (done ++ [⟨c, outs⟩]) []
      { l with answered := answered, consecutiveFailed := failed } where
  cell_eq := h.cell_eq
  cases := by
    rw [← h.cases, List.map_append, List.append_assoc]
    rfl
  sampled a ha := by
    rcases List.mem_append.mp ha with ha | ha
    · exact h.sampled a ha
    · obtain rfl := List.mem_singleton.mp ha
      exact hsampled
  report as has := by
    rw [List.append_assoc, List.singleton_append,
      h.report (⟨c, outs⟩ :: as) (congrArg (c :: ·) has), hnext as has, CellReport.prepend_prepend]

/-- The loop takes the next case of the cell. -/
theorem Loop.begin {done : List Attempt} {c : Case} {rest : List Case} {l : CellCursor}
    (h : Loop env cell done [] l) (hrest : l.rest = c :: rest) :
    Loop env cell done [c] { l with rest := rest } where
  cell_eq := h.cell_eq
  cases := by
    rw [← h.cases, hrest]
    rfl
  sampled := h.sampled
  report as has := h.report as (by rw [has, hrest]; rfl)

theorem cellLog_caseDone {k : SampleCursor} (hd : plan.path.driver = .evalModel)
    (hasked : Asked env cell log k (env.samples k.case) k.answered) :
    CellLog env cell log (caseDone plan k) := by
  obtain ⟨done, outs, hloop, hlength, hanswered, rfl⟩ := hasked
  have hcase : Attempt.answered ⟨k.case, outs⟩ = k.answered := hanswered
  unfold caseDone
  simp only [hd]
  split_ifs with hk htrip
  · rw [hk] at hcase
    refine ⟨_, hloop.next hlength fun as _ => ?_, (begun_concat ..).symm⟩
    rw [evalCases, if_pos hcase]
  · rw [Bool.not_eq_true] at hk
    rw [hk] at hcase
    refine ⟨hloop.cell_eq, ?_⟩
    -- the breaker opens
    have hreturned := hloop.returned (fun _ => outs) (fun c hc => ?_)
      ⟨[⟨k.case, outs⟩], k.inCell.rest, k.inCell.answered⟩ fun as has => ?_
    · rw [← begun_concat]
      exact hreturned
    · rw [List.mem_singleton.mp hc]
      exact hlength
    · have hne : as ≠ [] := by
        rintro rfl
        exact htrip.2 has.symm
      rw [List.map_singleton, List.singleton_append, evalCases, hcase, if_neg Bool.false_ne_true,
        if_pos ⟨htrip.1, hne⟩, has]
  · rw [Bool.not_eq_true] at hk
    rw [hk] at hcase
    refine ⟨_, hloop.next hlength fun as has => ?_, (begun_concat ..).symm⟩
    have hclosed : ¬ (circuitBreakerThreshold ≤ k.inCell.consecutiveFailed + 1 ∧ as ≠ []) := by
      rintro ⟨hle, hne⟩
      refine htrip ⟨hle, fun hrest => hne ?_⟩
      rw [hrest] at has
      exact List.map_eq_nil_iff.mp has
    rw [evalCases, hcase, if_neg Bool.false_ne_true, if_neg hclosed]

theorem cellLog_sampleDone {k : SampleCursor} (hd : plan.path.driver = .evalModel)
    (hle : k.sampleNo ≤ env.samples k.case) (hasked : Asked env cell log k k.sampleNo k.answered) :
    CellLog env cell log (sampleDone env plan k) := by
  unfold sampleDone
  split_ifs with hmore
  · exact ⟨hmore, k.sampleNo, rfl, hasked⟩
  · have hlast : k.sampleNo = env.samples k.case := by omega
    rw [hlast] at hasked
    exact cellLog_caseDone hd hasked

theorem cellLog_routeSample {k : SampleCursor} {id : ℕ} {text : String}
    (hle : k.sampleNo ≤ env.samples k.case) (hasked : Asked env cell log k k.sampleNo k.answered) :
    CellLog env cell log (routeSample env k id text) := by
  refine routeSample_rule k id text (fun median => ?_) fun _ => ?_
  · exact ⟨hle, hasked⟩
  · exact ⟨hle, hasked⟩

/-! ### Steps of the worker -/

variable {st st' : Store} {m m' : Shared} {pc pc' : ExamPc} {c : ExamChoice}

theorem cellLog_setup {x : Cell} (hd : plan.path.driver = .evalModel)
    (h : examStep env plan st m (.setup x) c = some (st', m', pc'))
    (hlog : CellLog env cell log (.setup x)) (rows : List EvalResult) :
    CellLog env cell (log ++ ExamPc.events c rows (.setup x)) pc' := by
  obtain ⟨rfl, rfl⟩ := hlog
  cases c with
  | setup o =>
    -- a cell that is skipped reports at once, one that failed its setup is stamped
    have hskipped : o.stampId = none → (∀ modelId, o ≠ .ready modelId) →
        CellLog env x [.checked o] (.report x false) := fun hid hready =>
      ⟨rfl, .skipped o hid hready⟩
    have hfailed : ∀ modelId, o.stampId = some modelId →
        CellLog env x [.checked o] (.stamp x modelId x.cases false) := fun modelId hid =>
      ⟨rfl, .failed o modelId hid⟩
    simp only [examStep, hd, if_true] at h
    cases o with
    | ready modelId =>
      cases h
      exact ⟨[], ⟨rfl, rfl, fun a ha => (List.not_mem_nil ha).elim, fun as _ => rfl⟩, rfl⟩
    | retired | endpointsDown =>
      cases h
      exact hskipped rfl fun _ => SetupOutcome.noConfusion
    | modelNotFound | hubNotFound | endpointsUnloadable | noEndpoint =>
      cases h
      exact hfailed _ rfl
  | go | answer => cases h

theorem cellLog_call {k : SampleCursor}
    (h : examStep env plan st m (.call k) c = some (st', m', pc'))
    (hlog : CellLog env cell log (.call k)) (rows : List EvalResult) :
    CellLog env cell (log ++ ExamPc.events c rows (.call k)) pc' := by
  obtain ⟨hle, seen, hseen, done, outs, hloop, hlength, hanswered, rfl⟩ := hlog
  cases c with
  | answer o =>
    cases h
    refine ⟨hle, done, outs ++ [o.isAnswered], hloop, ?_, ?_, ?_⟩
    · rw [List.length_append, List.length_singleton, hlength, hseen]
    · rw [List.any_append, hanswered, List.any_cons, List.any_nil, Bool.or_false, id]
    · rw [Attempt.events_concat, hlength, ← hseen, List.append_assoc]
      rfl
  | go | setup => cases h

/-- **Step of the worker.** What a worker in the cell does next is logged. -/
theorem cellLog_examStep (hd : plan.path.driver = .evalModel)
    (h : examStep env plan st m pc c = some (st', m', pc')) (hlog : CellLog env cell log pc)
    (hstays : pc.reports = false) :
    CellLog env cell (log ++ pc.events c (st'.results.drop st.results.length)) pc' := by
  have hquiet : ∀ {pc : ExamPc}, CellLog env cell log pc → CellLog env cell (log ++ []) pc := by
    intro pc hpc
    rwa [List.append_nil]
  cases examStep_cases h with
  | stopped | overBudget | polled | leave | marked | markedLast | finished => exact hlog.elim
  | skip | stampAll | ready => exact cellLog_setup hd h hlog _
  | casesDone l hrest =>
    obtain ⟨done, hloop, rfl⟩ := hlog
    refine hquiet ⟨hloop.cell_eq, ?_⟩
    have hreturned := hloop.returned (fun _ => []) (fun c hc => by cases hc)
      ⟨[], [], l.answered⟩ fun as has => ?_
    · simpa [stamps] using hreturned
    · rw [hrest] at has
      rw [List.map_eq_nil_iff.mp has]
      rfl
  | cut _ hdriver => exact absurd hd hdriver
  | begin l c rest _ hrest =>
    obtain ⟨done, hloop, rfl⟩ := hlog
    exact hquiet ⟨rfl, rfl, done, hloop.begin hrest, rfl⟩
  | clearNull _ _ _ hdriver | clearAny _ _ _ hdriver =>
    rw [hd] at hdriver
    cases hdriver
  | opened k =>
    obtain ⟨hfirst, hanswered, done, hloop, rfl⟩ := hlog
    refine ⟨?_, 0, hfirst, done, [], hloop, rfl, hanswered.symm, rfl⟩
    rw [hfirst]
    exact env.samples_pos k.case
  | called k o => exact cellLog_call h hlog _
  | persisted k o => exact hquiet hlog
  | unanswered k id latencyMs i o =>
    obtain ⟨hle, hasked⟩ := hlog
    rw [AnswerOutcome.isAnswered, Bool.or_false] at hasked
    exact hquiet ⟨hle, hasked⟩
  | recorded k id text latencyMs i o cost p =>
    obtain ⟨hle, hasked⟩ := hlog
    rw [AnswerOutcome.isAnswered, Bool.or_true] at hasked
    exact hquiet (cellLog_routeSample hle hasked)
  | recordCrash | settleCrash => trivial
  | settled k | wrote k | offeredAll k | dropped k =>
    exact hquiet (cellLog_sampleDone hd hlog.1 hlog.2)
  | completed | registered | noted => exact hquiet hlog
  | stamped x modelId cases answered =>
    obtain ⟨rfl, hreturned⟩ := hlog
    refine ⟨rfl, ?_⟩
    -- the rows the results gain are the stamps
    have hrows : (st.createEvalResultsBatch (cases.map (failedResult x.run x.modelDbId
        modelId))).results.drop st.results.length =
          cases.map (failedResult x.run x.modelDbId modelId) := List.drop_left
    rw [hrows]
    change Returned env x (log ++ (cases.map _).map CellEvent.stamped) answered
    rw [List.map_map]
    exact hreturned
  | reported | reportedLast => cases hstays

/-- A step of the execution logs what it does for the cell. -/
theorem cellLog_step {s s' : State} {i : ℕ} {a : Label} (hd : plan.path.driver = .evalModel)
    (hlog : ∃ pc, s.exam[i]? = some pc ∧ CellLog env cell log pc) (hstays : staysInCell i s a)
    (h : step env plan s a = some s') :
    ∃ pc, s'.exam[i]? = some pc ∧ CellLog env cell (log ++ cellEvents env plan i s a) pc := by
  obtain ⟨pc, hi, hlog⟩ := hlog
  have hquiet : CellLog env cell (log ++ []) pc := by rwa [List.append_nil]
  cases a with
  | exam j c =>
    have hlive := (step_cases h).1
    have hother := h
    rw [step, hlive] at hother
    obtain ⟨pc₀, hj, hmap⟩ := Option.bind_eq_some_iff.mp hother
    obtain ⟨⟨st, m, pc'⟩, hexam, rfl⟩ := Option.map_eq_some_iff.mp hmap
    -- only the steps of this worker are logged
    by_cases hji : j = i
    · subst hji
      obtain rfl : pc = pc₀ := Option.some.inj (hi.symm.trans hj)
      have hreports : pc.reports = false := by
        have hany := hstays rfl
        rwa [hi, Option.any_some] at hany
      refine ⟨pc', List.getElem?_set_self (List.getElem?_eq_some_iff.mp hi).1, ?_⟩
      simp only [cellEvents, if_true, hi, Option.elim_some, h]
      exact cellLog_examStep hd hexam hlog hreports
    · refine ⟨pc, (List.getElem?_set_ne hji).trans hi, ?_⟩
      simp only [cellEvents, if_neg hji]
      exact hquiet
  | handCell j =>
    cases (step_cases h).2 with
    | handCell hmain hj =>
      by_cases hji : j = i
      · subst hji
        rw [hi] at hj
        cases hj
        exact hlog.elim
      · exact ⟨pc, (List.getElem?_set_ne hji).trans hi, hquiet⟩
  | handJob j l =>
    cases (step_cases h).2 with
    | handJob hj hl =>
      by_cases hji : j = i
      · subst hji
        rw [hi] at hj
        cases hj
        exact ⟨_, List.getElem?_set_self (List.getElem?_eq_some_iff.mp hi).1, hquiet⟩
      · exact ⟨pc, (List.getElem?_set_ne hji).trans hi, hquiet⟩
  | main | judge | cancel | expire =>
    cases (step_cases h).2
    exact ⟨pc, hi, hquiet⟩

/-- **Circuit breaker.** The loop asks a first part of the cases and stamps the rest, as a breaker
does, for all outcomes. A worker that takes a cell up in a batch and comes to report on it has done
just that, with the outcomes of the calls it made, whatever the other goroutines did meanwhile. -/
theorem returned_of_logged {s t : State} {i : ℕ} {cell' : Cell} {answered : Bool}
    (hd : plan.path = .executePrepared) (hs : s.exam[i]? = some (.setup cell))
    (h : Transition.Logged (step env plan) (staysInCell i) (cellEvents env plan i) s t log)
    (ht : t.exam[i]? = some (.report cell' answered)) :
    cell' = cell ∧ Returned env cell log answered ∧
      ∀ as : List Attempt, Broken as (evalCases false 0 as) := by
  have hdriver : plan.path.driver = .evalModel := by
    rw [hd]
    rfl
  have hstart : CellLog env cell [] (.setup cell) := ⟨rfl, rfl⟩
  obtain ⟨pc, hpc, hlog⟩ : ∃ pc, t.exam[i]? = some pc ∧ CellLog env cell log pc := by
    refine h.invariant_of (I := fun t log => ∃ pc, t.exam[i]? = some pc ∧ CellLog env cell log pc)
      (J := fun _ => True) (fun _ _ => trivial) ⟨_, hs, hstart⟩ ?_
    intro u log a u' _ hlog hstays hstep
    exact cellLog_step hdriver hlog hstays hstep
  rw [ht] at hpc
  cases hpc
  exact ⟨hlog.1, hlog.2, evalCases_spec⟩

end

/-! ### A model that does not answer -/

/-- One model and six rule cases. -/
def silentCell : Cell := ⟨soloRun .running, 1, (List.range' 1 6).map ruleCase⟩

/-- A batch of the one cell. -/
def silentPlan : Plan := ⟨.executePrepared, 1, [1], [silentCell]⟩

/-- The feeder hands the cell over. -/
def handOverLabels : List Label := [.main, .main, .exam 0 .go, .handCell 0]

/-- The answer call of a case fails, and its row is written. -/
def unansweredLabels : List Label :=
  [.exam 0 .go, .exam 0 .go, .exam 0 (.answer (.failed 1 none none)), .exam 0 .go, .exam 0 .go,
    .exam 0 .go, .exam 0 .go]

/-- The model is looked up, five of its cases fail, and the last is stamped. -/
def silentLabels : List Label :=
  .exam 0 (.setup (.ready "m1")) :: (List.replicate 5 unansweredLabels).flatten ++ [.exam 0 .go]

/-- The worker with the cell it was handed. -/
def silentStart : Option State :=
  Transition.replay (step soloEnv silentPlan) (silentPlan.start soloEnv soloStore) handOverLabels

/-- Five cases in a row fail, and the sixth gets its row without being asked. -/
theorem returned_of_logged_silent : ∃ (s t : State) (log : List CellEvent),
    Transition.Logged (step soloEnv silentPlan) (staysInCell 0) (cellEvents soloEnv silentPlan 0)
      s t log ∧
    log.filter (fun e => e = .opened (ruleCase 5) ∨ e = .opened (ruleCase 6)) =
      [.opened (ruleCase 5)] ∧
    Returned soloEnv silentCell log false := by
  obtain ⟨s, hs⟩ : ∃ s, silentStart = some s := ⟨_, rfl⟩
  obtain ⟨t, ht⟩ : ∃ t, Transition.replayWith (step soloEnv silentPlan) (staysInCell 0) s
      silentLabels = some t := by
    cases hs
    exact ⟨_, rfl⟩
  have hlog : Transition.Logged (step soloEnv silentPlan) (staysInCell 0)
      (cellEvents soloEnv silentPlan 0) s t _ := .of_replayWith ht
  refine ⟨s, t, _, hlog, ?_, ?_⟩
  · cases hs
    rfl
  · -- the model is silent on the first case, and its second is not opened
    have hreported : t.exam[0]? = some (.report silentCell false) := by
      cases hs
      cases ht
      rfl
    have hset : s.exam[0]? = some (.setup silentCell) := by
      cases hs
      rfl
    exact (returned_of_logged rfl hset hlog hreported).2.1

end HubScope
