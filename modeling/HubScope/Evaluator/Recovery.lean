import HubScope.Evaluator.Execution
import HubScope.Lib.Grouping
import HubScope.Lib.Transition

/-!
# Recovering the judging of a case

After a crash the recovery rebuilds a judge case from its stored answers and votes: of each
sample the latest attempt counts, a slot with a row of any kind is decided, the other slots
are asked, and when every sample is settled the result row is written. The recovery can crash
itself, at any point between two store calls, and then starts over from what is stored.

A pass is given for one unit of the run's answers; the passes of the other units run before
and after it and touch other answers and rows.

## Main definitions

* `slotDone`, `latestAttempts` — what is decided, and by which answers
* `recoverStep` — one step of the recovery of a unit
* `meanScore` — the score of a case from the medians of its samples
* `Recovering` — the invariant of the recovery

## Main results

* `recovering_of_reach` — the invariant over every run, crashes included
* `missing_of_verdict` — a slot is asked only while it has no row
* `recovered_of_done` — what the recovery leaves
-/

set_option autoImplicit false

namespace HubScope

/-! ### What is stored -/

/-- Whether a score row exists for the slot at all, a null one included. -/
def slotDone (scores : List EvalJudgeScore) (slot : ℕ) : Bool := scores.any (·.slot = slot)

/-- The slot-indexed votes among the stored ones. -/
def storedVotes (judges : List String) (stored : List EvalJudgeScore) : List (Option ℚ) :=
  stored.foldl (fun votes t => votes.set t.slot t.score) (List.replicate judges.length none)

/-- The latest of a sample's attempts. -/
def latestOf : List EvalAnswer → Option EvalAnswer
  | [] => none
  | a :: attempts =>
    some (attempts.foldl (fun a b => if a.attempt < b.attempt then b else a) a)

/-- The latest attempt of each sample, samples in first-seen order. -/
def latestAttempts (answers : List EvalAnswer) : List EvalAnswer :=
  (Grouping.group (·.sampleNo) answers).filterMap fun (_, attempts) => latestOf attempts

/-- The stored answers of a unit. -/
def unitAnswers (st : Store) (u : UnitKey) : List EvalAnswer :=
  (st.listEvalAnswersByRun u.runId).filter (·.unit = u)

/-- The answer has something to judge. -/
def EvalAnswer.judgeable (a : EvalAnswer) : Bool := a.status = .answered ∧ a.answerText ≠ none

/-- Fold a stored answer's payload into its case aggregate. -/
def CaseAggregate.recoverAnswer (agg : CaseAggregate) (a : EvalAnswer) : CaseAggregate :=
  { agg with
    latencyMs := agg.latencyMs + a.latencyMs
    inputTokens := addIntPtr agg.inputTokens a.inputTokens
    outputTokens := addIntPtr agg.outputTokens a.outputTokens
    answerText := agg.answerText <|> a.answerText }

/-! ### The recovery -/

/-- The sample being recovered: `todo` are the slots not yet looked at, `rest` the samples
after it. -/
structure RecoverCursor where
  judges : List String
  answer : EvalAnswer
  stored : List EvalJudgeScore
  todo : List (String × ℕ)
  votes : List (Option ℚ)
  rest : List EvalAnswer
  agg : CaseAggregate

/-- Whether a slot of the sample is decided: it has a vote, or a stored row without one. -/
def RecoverCursor.known (k : RecoverCursor) (slot : ℕ) : Bool :=
  (k.votes.getD slot none).isSome || slotDone k.stored slot

/-- Where the recovery stands. -/
inductive RecoverPc
  | start
  | samples (judges : List String) (todo : List EvalAnswer) (agg : CaseAggregate)
  | slots (k : RecoverCursor)
  | persist (k : RecoverCursor) (judgeModel : String) (slot : ℕ) (score : Option ℚ)
  | write (agg : CaseAggregate)
  | done

/-- The store, the recovery over it, and the (answer, slot) pairs asked so far. -/
structure RecoverState where
  store : Store
  pc : RecoverPc
  requests : List (ℕ × ℕ)

/-- A step decides whether the model's setup still resolves, what a judge call gives, and
whether the process dies. -/
inductive RecoverLabel
  | go
  | setup (ready : Bool)
  | verdict (score : Option ℚ)
  | crash

/-- The aggregate the recovery of a case starts with. -/
def recoverAggregate (modelId : String) (expectedSamples : ℕ) : CaseAggregate :=
  ⟨modelId, .v3, expectedSamples, 0, [], 0, 0, none, none, none⟩

/-- The jury of a unit that the recovery looks at: its run is not running, has a snapshot and
no result of the unit, and the case is a judge case. -/
def recoverJudges (st : Store) (u : UnitKey) : Option (List String) :=
  (st.getEvalRun u.runId).bind fun run =>
    (st.getCase u.caseId).bind fun c =>
      if run.status ≠ .running ∧ (st.listEvalResults u.runId).all (·.unit ≠ u) ∧
          c.verdictType = .judge then
        run.juryModels.map fun juries => (juries.lookup u.modelDbId).getD []
      else none

/-- One step of the recovery of a unit. -/
def recoverStep (u : UnitKey) (s : RecoverState) : RecoverLabel → Option RecoverState
  | .crash => some { s with pc := .start }
  | .setup ready =>
    match s.pc with
    | .start =>
      match recoverJudges s.store u, unitAnswers s.store u with
      | some judges, a :: answers =>
        let latest := latestAttempts (a :: answers)
        if ready then
          some { s with pc := .samples judges latest (recoverAggregate a.modelId latest.length) }
        else some { s with pc := .done }
      | _, _ => some { s with pc := .done }
    | _ => none
  | .verdict score =>
    match s.pc with
    | .slots k =>
      match k.todo with
      | (judgeModel, slot) :: todo =>
        if k.known slot then none
        else some { s with
          pc := .persist { k with todo := todo } judgeModel slot score
          requests := s.requests ++ [(k.answer.id, slot)] }
      | [] => none
    | _ => none
  | .go =>
    match s.pc with
    | .samples judges (a :: rest) agg =>
      let agg := agg.recoverAnswer a
      if ¬ a.judgeable ∨ judges = [] then
        some { s with pc := .samples judges rest (agg.settle none) }
      else
        let stored := s.store.listJudgeScoresByAnswer a.id
        some { s with
          pc := .slots ⟨judges, a, stored, judges.zipIdx, storedVotes judges stored, rest, agg⟩ }
    | .samples _ [] agg =>
      some { s with pc := if agg.settledSamples = agg.expectedSamples then .write agg else .done }
    | .slots k =>
      match k.todo with
      | [] =>
        some { s with pc := .samples k.judges k.rest (k.agg.settle (medianOfVotes k.votes)) }
      | (_, slot) :: todo =>
        if k.known slot then some { s with pc := .slots { k with todo := todo } }
        else none
    | .persist k judgeModel slot score =>
      some { s with
        store := s.store.createEvalJudgeScore ⟨k.answer.id, slot, judgeModel, score, none, none⟩
        pc := .slots { k with votes := k.votes.set slot score } }
    | .write agg =>
      some { s with store := s.store.createEvalResult (caseResult u agg), pc := .done }
    | .start | .done => none

/-! ### Scores -/

/-- The score of a case: the mean of the medians of its samples, null when none has one. -/
def meanScore (medians : List (Option ℚ)) : Option ℚ :=
  if medians.reduceOption = [] then none
  else some (medians.reduceOption.sum / medians.reduceOption.length)

theorem meanScore_eq_none_iff {xs : List (Option ℚ)} :
    meanScore xs = none ↔ xs.reduceOption = [] := by
  unfold meanScore
  split_ifs with h
  · exact ⟨fun _ => h, fun _ => rfl⟩
  · exact ⟨fun hnone => hnone.elim, fun hnil => absurd hnil h⟩

/-- The aggregate holds these medians, settled in this order. -/
structure Tallied (agg : CaseAggregate) (medians : List (Option ℚ)) : Prop where
  settled : agg.settledSamples = medians.length
  added : agg.added = medians.reduceOption
  scored : agg.scored = medians.reduceOption.length

theorem Tallied.settle {agg : CaseAggregate} {medians : List (Option ℚ)}
    (h : Tallied agg medians) (median : Option ℚ) :
    Tallied (agg.settle median) (medians ++ [median]) := by
  cases median with
  | none => exact ⟨by simp [h.settled], by simp [CaseAggregate.settle, h.added,
      List.reduceOption_append], by simp [CaseAggregate.settle, h.scored,
        List.reduceOption_append]⟩
  | some q => exact ⟨by simp [h.settled], by simp [CaseAggregate.settle, h.added,
      List.reduceOption_append], by simp [CaseAggregate.settle, h.scored,
        List.reduceOption_append]⟩

/-- The score of the case is the mean of the medians, added in the order they settled. -/
theorem Tallied.scoreIn {agg : CaseAggregate} {medians : List (Option ℚ)}
    (h : Tallied agg medians) (A : RoundedNumbers ℚ) :
    agg.scoreIn A = A.mean medians.reduceOption := by
  unfold CaseAggregate.scoreIn RoundedNumbers.mean
  rw [h.added, h.scored]
  by_cases hnil : medians.reduceOption = []
  · rw [if_pos hnil, hnil]
    rfl
  · rw [if_neg hnil, if_pos (List.length_pos_iff.mpr hnil)]

/-- In exact numbers it is the mean. -/
theorem Tallied.score {agg : CaseAggregate} {medians : List (Option ℚ)}
    (h : Tallied agg medians) (u : UnitKey) : (caseResult u agg).score = meanScore medians := by
  rw [caseResult_score, h.scoreIn, RoundedNumbers.mean, RoundedNumbers.sum_exact]
  rfl

/-! ### Stored votes -/

theorem slotDone_iff {scores : List EvalJudgeScore} {slot : ℕ} :
    slotDone scores slot = true ↔ ∃ t ∈ scores, t.slot = slot := by
  simp [slotDone]

theorem length_foldl_set (stored : List EvalJudgeScore) (votes : List (Option ℚ)) :
    (stored.foldl (fun votes t => votes.set t.slot t.score) votes).length = votes.length := by
  induction stored generalizing votes with
  | nil => rfl
  | cons t stored ih => rw [List.foldl_cons, ih, List.length_set]

/-- Writing the stored votes over a list of votes. -/
theorem getElem?_foldl_set {vote : ℕ → Option ℚ} {stored : List EvalJudgeScore}
    (hvote : ∀ t ∈ stored, t.score = vote t.slot) (votes : List (Option ℚ)) {slot : ℕ}
    (hslot : slot < votes.length) :
    (stored.foldl (fun votes t => votes.set t.slot t.score) votes)[slot]? =
      if slotDone stored slot then some (vote slot) else votes[slot]? := by
  induction stored generalizing votes with
  | nil => rfl
  | cons t stored ih =>
    rw [List.foldl_cons, ih (fun t ht => hvote t (List.mem_cons_of_mem _ ht)) _
      (by rwa [List.length_set])]
    have hdone : slotDone (t :: stored) slot = (decide (t.slot = slot) || slotDone stored slot) :=
      rfl
    rw [hdone]
    by_cases hrest : slotDone stored slot = true
    · simp [hrest]
    · by_cases ht : t.slot = slot
      · subst ht
        simp [hrest, hslot, hvote t (List.mem_cons_self ..)]
      · simp [hrest, ht]

theorem getElem?_storedVotes {vote : ℕ → Option ℚ} {judges : List String}
    {stored : List EvalJudgeScore} (hvote : ∀ t ∈ stored, t.score = vote t.slot) {slot : ℕ}
    (hslot : slot < judges.length) :
    (storedVotes judges stored)[slot]? =
      some (if slotDone stored slot then vote slot else none) := by
  rw [storedVotes, getElem?_foldl_set hvote _ (by rwa [List.length_replicate])]
  split_ifs with hdone
  · rfl
  · rw [List.getElem?_replicate, if_pos hslot]

/-! ### Latest attempts -/

theorem latestOf_mem {answers : List EvalAnswer} {a : EvalAnswer} (h : latestOf answers = some a) :
    a ∈ answers := by
  -- the fold always holds an answer it has seen
  have hfold : ∀ (rest : List EvalAnswer) (b : EvalAnswer),
      rest.foldl (fun a b => if a.attempt < b.attempt then b else a) b ∈ b :: rest := by
    intro rest
    induction rest with
    | nil => exact fun b => List.mem_singleton_self b
    | cons x rest ih =>
      intro b
      have hx := ih (if b.attempt < x.attempt then x else b)
      rw [List.foldl_cons]
      rcases List.mem_cons.mp hx with heq | hmem
      · rw [heq]
        split_ifs
        · exact List.mem_cons_of_mem _ (List.mem_cons_self ..)
        · exact List.mem_cons_self ..
      · exact List.mem_cons_of_mem _ (List.mem_cons_of_mem _ hmem)
  cases answers with
  | nil => cases h
  | cons b rest =>
    cases h
    exact hfold rest b

/-- The latest attempts are stored answers, one for each sample. -/
theorem mem_of_mem_latestAttempts {answers : List EvalAnswer} {a : EvalAnswer}
    (h : a ∈ latestAttempts answers) : a ∈ answers := by
  obtain ⟨⟨n, attempts⟩, hgroup, hlatest⟩ := List.mem_filterMap.mp h
  obtain ⟨-, rfl⟩ := Grouping.mem_group.mp hgroup
  exact List.mem_of_mem_filter (latestOf_mem hlatest)

theorem mem_of_mem_unitAnswers {st : Store} {u : UnitKey} {a : EvalAnswer}
    (h : a ∈ unitAnswers st u) : a ∈ st.answers := by
  have hmem := List.mem_of_mem_filter h
  rw [Store.listEvalAnswersByRun, (List.perm_insertionSort _ _).mem_iff] at hmem
  exact List.mem_of_mem_filter hmem

/-! ### The invariant -/

section

variable {st₀ : Store} {u : UnitKey} {judges : List String} {vote : ℕ → ℕ → Option ℚ}
  {s s' : RecoverState}

/-- The answers the recovery of a unit judges. -/
def latest (st₀ : Store) (u : UnitKey) : List EvalAnswer := latestAttempts (unitAnswers st₀ u)

/-- A slot that the recovery owes: of the latest attempt of a sample that has an answer, and
without a row. -/
def Missing (st₀ : Store) (u : UnitKey) (judges : List String) (q : ℕ × ℕ) : Prop :=
  ∃ a ∈ latest st₀ u, a.judgeable = true ∧ a.id = q.1 ∧ q.2 < judges.length ∧
    slotDone (st₀.listJudgeScoresByAnswer a.id) q.2 = false

/-- The median of a sample once every slot cast its vote; a failed answer has none. -/
def medianOf (judges : List String) (vote : ℕ → ℕ → Option ℚ) (a : EvalAnswer) : Option ℚ :=
  if a.judgeable then medianOfVotes ((List.range judges.length).map (vote a.sampleNo)) else none

/-- All slots of an answer have a row. -/
def Judged (judges : List String) (st : Store) (a : EvalAnswer) : Prop :=
  a.judgeable = true →
    ∀ slot < judges.length, slotDone (st.listJudgeScoresByAnswer a.id) slot = true

instance (st : Store) (a : EvalAnswer) : Decidable (Judged judges st a) :=
  inferInstanceAs (Decidable (a.judgeable = true →
    ∀ slot < judges.length, slotDone (st.listJudgeScoresByAnswer a.id) slot = true))

/-- The samples before `todo` are folded into the aggregate, and judged. -/
def Folded (st₀ : Store) (u : UnitKey) (judges : List String) (vote : ℕ → ℕ → Option ℚ)
    (st : Store) (todo : List EvalAnswer) (agg : CaseAggregate) : Prop :=
  agg.expectedSamples = (latest st₀ u).length ∧ ∃ ended, latest st₀ u = ended ++ todo ∧
    Tallied agg (ended.map (medianOf judges vote)) ∧ ∀ a ∈ ended, Judged judges st a

/-- The slots of the sample below `i` are decided, the ones from `i` on as they were stored. -/
structure Looked (judges : List String) (vote : ℕ → ℕ → Option ℚ) (st : Store)
    (k : RecoverCursor) (i : ℕ) : Prop where
  jury : k.judges = judges
  judgeable : k.answer.judgeable = true
  size : k.votes.length = judges.length
  below : ∀ slot < i, slot < judges.length →
    k.votes[slot]? = some (vote k.answer.sampleNo slot) ∧
      slotDone (st.listJudgeScoresByAnswer k.answer.id) slot = true
  above : ∀ slot, i ≤ slot → slot < judges.length →
    k.votes[slot]? = some (if slotDone k.stored slot then vote k.answer.sampleNo slot else none)
  stored : ∀ slot, i ≤ slot →
    slotDone k.stored slot = slotDone (st.listJudgeScoresByAnswer k.answer.id) slot

/-- No row of the unit is written yet. -/
def Unwritten (st₀ st : Store) : Prop := st.results = st₀.results

/-- The row is written, with the mean of the medians, and every slot is decided. -/
def Written (st₀ : Store) (u : UnitKey) (judges : List String) (vote : ℕ → ℕ → Option ℚ)
    (st : Store) : Prop :=
  ∃ row, st.results = st₀.results ++ [row] ∧ row.unit = u ∧
    row.score = meanScore ((latest st₀ u).map (medianOf judges vote)) ∧
      ∀ a ∈ latest st₀ u, Judged judges st a

/-- What holds where the recovery stands. -/
def RecoverPc.At (st₀ : Store) (u : UnitKey) (judges : List String)
    (vote : ℕ → ℕ → Option ℚ) (st : Store) (requests : List (ℕ × ℕ)) : RecoverPc → Prop
  | start => Unwritten st₀ st ∨ Written st₀ u judges vote st
  | samples js todo agg =>
    Unwritten st₀ st ∧ js = judges ∧ Folded st₀ u judges vote st todo agg
  | slots k => Unwritten st₀ st ∧ Folded st₀ u judges vote st (k.answer :: k.rest) k.agg ∧
    ∃ i ≤ judges.length, k.todo = judges.zipIdx.drop i ∧ Looked judges vote st k i
  | persist k _ slot score =>
    Unwritten st₀ st ∧ Folded st₀ u judges vote st (k.answer :: k.rest) k.agg ∧
      slot < judges.length ∧ k.todo = judges.zipIdx.drop (slot + 1) ∧
        Looked judges vote st k slot ∧ slotDone k.stored slot = false ∧
          score = vote k.answer.sampleNo slot ∧ (k.answer.id, slot) ∈ requests
  | write agg => Unwritten st₀ st ∧ Folded st₀ u judges vote st [] agg
  | done => Written st₀ u judges vote st

/-- The invariant of the recovery: it adds votes of slots it asked, each the vote the slot
casts, and asks only slots that were missing. -/
structure Recovering (st₀ : Store) (u : UnitKey) (judges : List String)
    (vote : ℕ → ℕ → Option ℚ) (s : RecoverState) : Prop where
  frame : ∃ results scores, s.store = { st₀ with results := results, judgeScores := scores }
  scores : ∀ t ∈ s.store.judgeScores,
    t ∈ st₀.judgeScores ∨ (t.answerId, t.slot) ∈ s.requests
  votes : ∀ a ∈ latest st₀ u, a.judgeable = true → ∀ t ∈ s.store.judgeScores,
    t.answerId = a.id → t.score = vote a.sampleNo t.slot
  requests : ∀ q ∈ s.requests, Missing st₀ u judges q
  kept : st₀.judgeScores ⊆ s.store.judgeScores
  pc : s.pc.At st₀ u judges vote s.store s.requests

/-- The steps of a run in which the model's setup resolves and each slot casts its vote. -/
def Casts (vote : ℕ → ℕ → Option ℚ) (s : RecoverState) : RecoverLabel → Prop
  | .setup ready => ready = true
  | .verdict score => ∀ k judgeModel slot todo, s.pc = .slots k →
      k.todo = (judgeModel, slot) :: todo → score = vote k.answer.sampleNo slot
  | .go | .crash => True

/-- What the recovery starts from: a unit it looks at, with answers, distinct answer ids and
stored votes that the slots cast. -/
structure Interrupted (st₀ : Store) (u : UnitKey) (judges : List String)
    (vote : ℕ → ℕ → Option ℚ) : Prop where
  jury : recoverJudges st₀ u = some judges
  answered : unitAnswers st₀ u ≠ []
  answerIds : (st₀.answers.map (·.id)).Nodup
  votes : ∀ a ∈ latest st₀ u, a.judgeable = true → ∀ t ∈ st₀.judgeScores,
    t.answerId = a.id → t.score = vote a.sampleNo t.slot

theorem slotDone_of_subset {st st' : Store} (h : st.judgeScores ⊆ st'.judgeScores) {id slot : ℕ}
    (hdone : slotDone (st.listJudgeScoresByAnswer id) slot = true) :
    slotDone (st'.listJudgeScoresByAnswer id) slot = true := by
  obtain ⟨t, ht, hslot⟩ := slotDone_iff.mp hdone
  obtain ⟨hmem, hid⟩ := List.mem_filter.mp ht
  exact slotDone_iff.mpr ⟨t, List.mem_filter.mpr ⟨h hmem, hid⟩, hslot⟩

theorem Judged.mono {st st' : Store} (h : st.judgeScores ⊆ st'.judgeScores) {a : EvalAnswer}
    (ha : Judged judges st a) : Judged judges st' a := fun hjudgeable slot hslot =>
  slotDone_of_subset h (ha hjudgeable slot hslot)

theorem Folded.mono {st st' : Store} (h : st.judgeScores ⊆ st'.judgeScores)
    {todo : List EvalAnswer} {agg : CaseAggregate}
    (hfolded : Folded st₀ u judges vote st todo agg) : Folded st₀ u judges vote st' todo agg := by
  obtain ⟨hexpected, ended, hlatest, htallied, hjudged⟩ := hfolded
  exact ⟨hexpected, ended, hlatest, htallied, fun a ha => (hjudged a ha).mono h⟩

/-- The payload of an answer is no part of the score. -/
theorem Folded.recoverAnswer {st : Store} {todo : List EvalAnswer} {agg : CaseAggregate}
    (h : Folded st₀ u judges vote st todo agg) (a : EvalAnswer) :
    Folded st₀ u judges vote st todo (agg.recoverAnswer a) := by
  obtain ⟨hexpected, ended, hlatest, htallied, hall⟩ := h
  exact ⟨hexpected, ended, hlatest, ⟨htallied.settled, htallied.added, htallied.scored⟩, hall⟩

/-- The next sample settles with its median. -/
theorem Folded.settle {st : Store} {a : EvalAnswer} {todo : List EvalAnswer}
    {agg : CaseAggregate} (h : Folded st₀ u judges vote st (a :: todo) agg)
    (hjudged : Judged judges st a) {median : Option ℚ} (hmedian : median = medianOf judges vote a) :
    Folded st₀ u judges vote st todo (agg.settle median) := by
  obtain ⟨hexpected, ended, hlatest, htallied, hall⟩ := h
  refine ⟨?_, ended ++ [a], by rw [hlatest, List.append_assoc]; rfl, ?_, ?_⟩
  · rw [CaseAggregate.settle_expectedSamples, hexpected]
  · rw [List.map_append, List.map_singleton, ← hmedian]
    exact htallied.settle median
  · intro b hb
    rcases List.mem_append.mp hb with hb | hb
    · exact hall b hb
    · rw [List.mem_singleton.mp hb]
      exact hjudged

theorem mem_latest_of_folded {st : Store} {a : EvalAnswer} {todo : List EvalAnswer}
    {agg : CaseAggregate} (h : Folded st₀ u judges vote st (a :: todo) agg) :
    a ∈ latest st₀ u := by
  obtain ⟨-, ended, hlatest, -⟩ := h
  rw [hlatest]
  exact List.mem_append_right _ (List.mem_cons_self ..)

/-- A slot in reach is known just when it has a row. -/
theorem Looked.known {st : Store} {k : RecoverCursor} {i slot : ℕ}
    (h : Looked judges vote st k i) (hi : i ≤ slot) (hslot : slot < judges.length) :
    k.known slot = slotDone k.stored slot := by
  have hvote := h.above slot hi hslot
  rw [RecoverCursor.known, List.getD_eq_getElem?_getD, hvote]
  cases slotDone k.stored slot with
  | true => simp
  | false => rfl

/-! ### Steps -/

theorem recoverJudges_congr {st st' : Store} (hruns : st'.runs = st.runs)
    (hcases : st'.cases = st.cases) (hresults : st'.results = st.results) :
    recoverJudges st' u = recoverJudges st u := by
  unfold recoverJudges Store.getEvalRun Store.getCase Store.listEvalResults
  rw [hruns, hcases, hresults]

/-- A unit with a row is not looked at again. -/
theorem recoverJudges_of_mem {st : Store} {row : EvalResult} (hrow : row ∈ st.results)
    (hunit : row.unit = u) : recoverJudges st u = none := by
  have hrun : row.runId = u.runId := congrArg UnitKey.runId hunit
  have hall : (st.listEvalResults u.runId).all (·.unit ≠ u) = false := by
    rw [List.all_eq_false]
    exact ⟨row, List.mem_filter.mpr ⟨hrow, decide_eq_true hrun⟩, by simpa using hunit⟩
  unfold recoverJudges
  cases st.getEvalRun u.runId with
  | none => rfl
  | some run =>
    cases st.getCase u.caseId with
    | none => rfl
    | some c => exact if_neg fun hlook => absurd hlook.2.1 (by rw [hall]; decide)

theorem RecoverPc.At.start {st : Store} {requests : List (ℕ × ℕ)} {pc : RecoverPc}
    (h : pc.At st₀ u judges vote st requests) :
    RecoverPc.start.At st₀ u judges vote st requests := by
  cases pc with
  | start => exact h
  | done => exact .inr h
  | samples | slots | persist | write => exact .inl h.1

/-- A step that leaves the store and the requests alone. -/
theorem Recovering.of_pc (h : Recovering st₀ u judges vote s) {pc : RecoverPc}
    (hpc : pc.At st₀ u judges vote s.store s.requests) :
    Recovering st₀ u judges vote { s with pc := pc } :=
  ⟨h.frame, h.scores, h.votes, h.requests, h.kept, hpc⟩

/-- A pass starts over from the same answers, or finds the row it wrote. -/
theorem recovering_setup (hstart : Interrupted st₀ u judges vote)
    (h : Recovering st₀ u judges vote s)
    (hstep : recoverStep u s (.setup true) = some s') : Recovering st₀ u judges vote s' := by
  have hat := h.pc
  unfold recoverStep at hstep
  dsimp only at hstep
  split at hstep
  case h_2 => cases hstep
  case h_1 hpc =>
    rw [hpc] at hat
    obtain ⟨results, scores, hframe⟩ := h.frame
    have hanswers : unitAnswers s.store u = unitAnswers st₀ u := by rw [hframe]; rfl
    -- the row is missing, and the walk starts over, or it is there, and there is nothing to do
    rcases hat with hunwritten | hwritten
    · have hjury : recoverJudges s.store u = some judges := by
        rw [← hstart.jury]
        exact recoverJudges_congr (by rw [hframe]) (by rw [hframe]) hunwritten
      rw [hjury, hanswers] at hstep
      obtain ⟨a, answers, hlist⟩ := List.exists_cons_of_ne_nil hstart.answered
      rw [hlist] at hstep
      cases hstep
      refine h.of_pc ⟨hunwritten, rfl, ?_, [], ?_, ⟨rfl, rfl, rfl⟩, fun b hb => by cases hb⟩
      · rw [latest, hlist]
        rfl
      · rw [latest, hlist]
        rfl
    · obtain ⟨row, hresults, hunit, hrest⟩ := hwritten
      have hrow : row ∈ s.store.results := by
        rw [hresults]
        exact List.mem_append_right _ (List.mem_singleton_self _)
      rw [recoverJudges_of_mem hrow hunit] at hstep
      cases hstep
      exact h.of_pc ⟨row, hresults, hunit, hrest⟩

theorem drop_zipIdx_eq_cons {judgeModel : String} {i slot : ℕ} {todo : List (String × ℕ)}
    (h : judges.zipIdx.drop i = (judgeModel, slot) :: todo) :
    i < judges.length ∧ slot = i ∧ todo = judges.zipIdx.drop (i + 1) := by
  have hlt : i < judges.length := by
    by_contra hge
    rw [List.drop_eq_nil_of_le (by rw [List.length_zipIdx]; omega)] at h
    cases h
  have hhead : judges.zipIdx[i]? = some (judgeModel, slot) := by
    rw [← List.head?_drop, h]
    rfl
  refine ⟨hlt, ?_, ?_⟩
  · rw [List.getElem?_zipIdx] at hhead
    obtain ⟨x, -, hx⟩ := Option.map_eq_some_iff.mp hhead
    simpa using (Prod.mk.inj hx).2.symm
  · rw [← List.tail_drop, h, List.tail_cons]

/-- A judge call is made for a slot that is missing. -/
theorem recovering_verdict {score : Option ℚ} (h : Recovering st₀ u judges vote s)
    (hcasts : Casts vote s (.verdict score))
    (hstep : recoverStep u s (.verdict score) = some s') : Recovering st₀ u judges vote s' := by
  have hat := h.pc
  unfold recoverStep at hstep
  dsimp only at hstep
  split at hstep
  case h_2 => cases hstep
  case h_1 k hpc =>
    rw [hpc] at hat
    obtain ⟨hunwritten, hfolded, i, hi, htodo, hlooked⟩ := hat
    split at hstep
    case h_2 => cases hstep
    case h_1 judgeModel slot todo hk =>
      obtain ⟨hlt, rfl, htail⟩ := drop_zipIdx_eq_cons (htodo.symm.trans hk)
      split_ifs at hstep with hknown
      cases hstep
      rw [hlooked.known le_rfl hlt, Bool.not_eq_true] at hknown
      -- the slot was not known, so no row for it was stored before
      have hmissing : Missing st₀ u judges (k.answer.id, slot) := by
        refine ⟨k.answer, mem_latest_of_folded hfolded, hlooked.judgeable, rfl, hlt, ?_⟩
        rw [hlooked.stored slot le_rfl] at hknown
        by_contra hdone
        rw [Bool.not_eq_false] at hdone
        rw [slotDone_of_subset h.kept hdone] at hknown
        cases hknown
      refine ⟨h.frame, fun t ht => (h.scores t ht).imp_right (List.mem_append_left _), h.votes,
        ?_, h.kept, hunwritten, hfolded, hlt, htail, ?_, hknown, ?_, ?_⟩
      · intro q hq
        rcases List.mem_append.mp hq with hq | hq
        · exact h.requests q hq
        · rw [List.mem_singleton.mp hq]
          exact hmissing
      · exact ⟨hlooked.jury, hlooked.judgeable, hlooked.size, hlooked.below, hlooked.above,
          hlooked.stored⟩
      · exact hcasts k judgeModel slot todo hpc hk
      · exact List.mem_append_right _ (List.mem_singleton_self _)

/-- The next sample is folded at once, or its slots are looked at. -/
theorem recovering_sample (h : Recovering st₀ u judges vote s) {js : List String}
    {a : EvalAnswer} {rest : List EvalAnswer} {agg : CaseAggregate}
    (hpc : s.pc = .samples js (a :: rest) agg) (hstep : recoverStep u s .go = some s') :
    Recovering st₀ u judges vote s' := by
  have hat := h.pc
  rw [hpc] at hat
  obtain ⟨hunwritten, rfl, hfolded⟩ := hat
  unfold recoverStep at hstep
  simp only [hpc] at hstep
  split_ifs at hstep with hsettled
  · cases hstep
    refine h.of_pc ⟨hunwritten, rfl, (hfolded.recoverAnswer a).settle ?_ ?_⟩
    · intro hjudgeable slot hslot
      -- the sample settles at once: it is not judgeable, or no judge serves
      rcases hsettled with hnot | hnil
      · exact absurd hjudgeable hnot
      · rw [hnil] at hslot
        cases hslot
    · unfold medianOf
      split_ifs with hjudgeable
      · rcases hsettled with hnot | hnil
        · exact absurd hjudgeable hnot
        · rw [hnil]
          rfl
      · rfl
  · cases hstep
    obtain ⟨hjudgeable, -⟩ := not_or.mp hsettled
    rw [not_not] at hjudgeable
    -- the stored votes are those the judges would cast
    have hvote : ∀ t ∈ s.store.listJudgeScoresByAnswer a.id, t.score = vote a.sampleNo t.slot := by
      intro t ht
      obtain ⟨hmem, hid⟩ := List.mem_filter.mp ht
      exact h.votes a (mem_latest_of_folded hfolded) hjudgeable t hmem (of_decide_eq_true hid)
    refine h.of_pc ⟨hunwritten, ?_, 0, Nat.zero_le _, rfl, rfl, hjudgeable, ?_, ?_, ?_, ?_⟩
    · exact hfolded.recoverAnswer a
    · rw [storedVotes, length_foldl_set, List.length_replicate]
    · intro slot hslot
      cases hslot
    · exact fun slot _ hslot => getElem?_storedVotes hvote hslot
    · exact fun slot _ => rfl

/-- Past the last slot the sample settles with the median of its votes; a slot that is known
is passed over. -/
theorem recovering_slot (h : Recovering st₀ u judges vote s) {k : RecoverCursor}
    (hpc : s.pc = .slots k) (hstep : recoverStep u s .go = some s') :
    Recovering st₀ u judges vote s' := by
  have hat := h.pc
  rw [hpc] at hat
  obtain ⟨hunwritten, hfolded, i, hi, htodo, hlooked⟩ := hat
  unfold recoverStep at hstep
  simp only [hpc] at hstep
  split at hstep
  case h_1 hk =>
    cases hstep
    -- no slot is left, so all of them were looked at
    have hend : judges.length ≤ i := by
      have hlength := congrArg List.length (htodo.symm.trans hk)
      rw [List.length_drop, List.length_zipIdx, List.length_nil] at hlength
      omega
    have hvotes : k.votes = (List.range judges.length).map (vote k.answer.sampleNo) := by
      refine List.ext_getElem? fun slot => ?_
      by_cases hslot : slot < judges.length
      · rw [(hlooked.below slot (by omega) hslot).1, List.getElem?_map,
          List.getElem?_range hslot]
        rfl
      · rw [List.getElem?_eq_none (by rw [hlooked.size]; omega),
          List.getElem?_eq_none (by rw [List.length_map, List.length_range]; omega)]
    refine h.of_pc ⟨hunwritten, hlooked.jury, hfolded.settle ?_ ?_⟩
    · intro _ slot hslot
      exact (hlooked.below slot (by omega) hslot).2
    · rw [hvotes, medianOf, if_pos hlooked.judgeable]
  case h_2 judgeModel slot todo hk =>
    split_ifs at hstep with hknown
    cases hstep
    obtain ⟨hlt, rfl, htail⟩ := drop_zipIdx_eq_cons (htodo.symm.trans hk)
    -- the slot was filled from a stored vote, which the walk leaves alone
    rw [hlooked.known le_rfl hlt] at hknown
    refine h.of_pc ⟨hunwritten, hfolded, slot + 1, hlt, htail, hlooked.jury, hlooked.judgeable,
      hlooked.size, ?_, ?_, ?_⟩
    · intro slot' hslot' hlt'
      rcases Nat.lt_succ_iff_lt_or_eq.mp hslot' with hbelow | rfl
      · exact hlooked.below slot' hbelow hlt'
      · refine ⟨?_, (hlooked.stored slot' le_rfl).symm.trans hknown⟩
        rw [hlooked.above slot' le_rfl hlt', if_pos hknown]
    · exact fun slot' hslot' => hlooked.above slot' (by omega)
    · exact fun slot' hslot' => hlooked.stored slot' (by omega)

/-- With every sample settled the case is written. -/
theorem recovering_folded (h : Recovering st₀ u judges vote s) {js : List String}
    {agg : CaseAggregate} (hpc : s.pc = .samples js [] agg)
    (hstep : recoverStep u s .go = some s') : Recovering st₀ u judges vote s' := by
  have hat := h.pc
  rw [hpc] at hat
  obtain ⟨hunwritten, -, hexpected, ended, hlatest, htallied, hall⟩ := hat
  unfold recoverStep at hstep
  simp only [hpc] at hstep
  cases hstep
  have hsettled : agg.settledSamples = agg.expectedSamples := by
    rw [htallied.settled, hexpected, hlatest, List.length_map, List.append_nil]
  rw [if_pos hsettled]
  exact h.of_pc ⟨hunwritten, hexpected, ended, hlatest, htallied, hall⟩

theorem recovering_written (h : Recovering st₀ u judges vote s) {agg : CaseAggregate}
    (hpc : s.pc = .write agg) (hstep : recoverStep u s .go = some s') :
    Recovering st₀ u judges vote s' := by
  have hat := h.pc
  rw [hpc] at hat
  obtain ⟨hunwritten, -, ended, hlatest, htallied, hall⟩ := hat
  unfold recoverStep at hstep
  simp only [hpc] at hstep
  cases hstep
  rw [List.append_nil] at hlatest
  refine ⟨?_, h.scores, h.votes, h.requests, h.kept, caseResult u agg, ?_, rfl, ?_, ?_⟩
  · obtain ⟨results, scores, hframe⟩ := h.frame
    exact ⟨results ++ [caseResult u agg], scores, by rw [hframe]; rfl⟩
  · rw [← hunwritten]
    rfl
  · rw [htallied.score, hlatest]
  · rw [hlatest]
    exact hall

/-- The vote of a missing slot is stored. -/
theorem recovering_persist (hstart : Interrupted st₀ u judges vote)
    (h : Recovering st₀ u judges vote s) {k : RecoverCursor} {judgeModel : String} {slot : ℕ}
    {score : Option ℚ} (hpc : s.pc = .persist k judgeModel slot score)
    (hstep : recoverStep u s .go = some s') : Recovering st₀ u judges vote s' := by
  have hat := h.pc
  rw [hpc] at hat
  obtain ⟨hunwritten, hfolded, hlt, htodo, hlooked, hopen, rfl, hrequested⟩ := hat
  unfold recoverStep at hstep
  simp only [hpc] at hstep
  cases hstep
  -- no row is in the way, so the vote's row is added
  have hnone : slotDone (s.store.listJudgeScoresByAnswer k.answer.id) slot = false :=
    (hlooked.stored slot le_rfl).symm.trans hopen
  set row : EvalJudgeScore :=
    ⟨k.answer.id, slot, judgeModel, vote k.answer.sampleNo slot, none, none⟩ with hrow
  have hstore : s.store.createEvalJudgeScore row =
      { s.store with judgeScores := s.store.judgeScores ++ [row] } := by
    refine if_neg fun hany => ?_
    obtain ⟨t, ht, heq⟩ := List.any_eq_true.mp hany
    obtain ⟨hid, hslot⟩ := of_decide_eq_true heq
    have hdone : slotDone (s.store.listJudgeScoresByAnswer k.answer.id) slot = true :=
      slotDone_iff.mpr ⟨t, List.mem_filter.mpr ⟨ht, decide_eq_true hid⟩, hslot⟩
    rw [hnone] at hdone
    cases hdone
  have hgrow : s.store.judgeScores ⊆ (s.store.createEvalJudgeScore row).judgeScores := by
    rw [hstore]
    exact List.subset_append_left _ _
  have hrows : ∀ t ∈ (s.store.createEvalJudgeScore row).judgeScores,
      t ∈ s.store.judgeScores ∨ t = row := by
    intro t ht
    rw [hstore] at ht
    exact (List.mem_append.mp ht).imp_right List.mem_singleton.mp
  have hdone : ∀ slot', slotDone ((s.store.createEvalJudgeScore row).listJudgeScoresByAnswer
      k.answer.id) slot' = true ↔
        slotDone (s.store.listJudgeScoresByAnswer k.answer.id) slot' = true ∨ slot' = slot := by
    intro slot'
    rw [hstore]
    simp only [Store.listJudgeScoresByAnswer, slotDone_iff, List.mem_filter, List.mem_append,
      List.mem_singleton, decide_eq_true_eq]
    constructor
    · rintro ⟨t, ⟨ht | rfl, hid⟩, hslot⟩
      · exact .inl ⟨t, ⟨ht, hid⟩, hslot⟩
      · exact .inr hslot.symm
    · rintro (⟨t, ⟨ht, hid⟩, hslot⟩ | rfl)
      · exact ⟨t, ⟨.inl ht, hid⟩, hslot⟩
      · exact ⟨row, ⟨.inr rfl, rfl⟩, rfl⟩
  refine ⟨?_, ?_, ?_, h.requests, fun t ht => hgrow (h.kept ht), ?_⟩
  · obtain ⟨results, scores, hframe⟩ := h.frame
    exact ⟨results, scores ++ [row], by rw [hstore, hframe]⟩
  · intro t ht
    rcases hrows t ht with ht | rfl
    · exact h.scores t ht
    · exact .inr hrequested
  · intro a ha hjudgeable t ht hid
    rcases hrows t ht with ht | rfl
    · exact h.votes a ha hjudgeable t ht hid
    · have hmem := mem_of_mem_unitAnswers (mem_of_mem_latestAttempts ha)
      have hmem' := mem_of_mem_unitAnswers
        (mem_of_mem_latestAttempts (mem_latest_of_folded hfolded))
      rw [List.inj_on_of_nodup_map hstart.answerIds hmem hmem' hid.symm]
  · refine ⟨?_, hfolded.mono hgrow, slot + 1, hlt, htodo, hlooked.jury, hlooked.judgeable, ?_,
      ?_, ?_, ?_⟩
    · rw [Unwritten, hstore]
      exact hunwritten
    · exact (List.length_set ..).trans hlooked.size
    · intro slot' hslot' hlt'
      rcases Nat.lt_succ_iff_lt_or_eq.mp hslot' with hbelow | rfl
      · obtain ⟨hvote, hold⟩ := hlooked.below slot' hbelow hlt'
        refine ⟨?_, (hdone slot').mpr (.inl hold)⟩
        rw [List.getElem?_set_ne (by omega)]
        exact hvote
      · refine ⟨?_, (hdone slot').mpr (.inr rfl)⟩
        rw [List.getElem?_set_self (by rw [hlooked.size]; exact hlt')]
    · intro slot' hslot' hlt'
      rw [List.getElem?_set_ne (by omega)]
      exact hlooked.above slot' (by omega) hlt'
    · intro slot' hslot'
      rw [hlooked.stored slot' (by omega), Bool.eq_iff_iff, hdone]
      exact ⟨.inl, fun hor => hor.resolve_right (by omega)⟩

/-! ### Runs -/

theorem recovering_step (hstart : Interrupted st₀ u judges vote)
    (h : Recovering st₀ u judges vote s) {label : RecoverLabel} (hcasts : Casts vote s label)
    (hstep : recoverStep u s label = some s') : Recovering st₀ u judges vote s' := by
  cases label with
  | crash =>
    cases hstep
    exact h.of_pc h.pc.start
  | setup ready =>
    obtain rfl : ready = true := hcasts
    exact recovering_setup hstart h hstep
  | verdict score => exact recovering_verdict h hcasts hstep
  | go =>
    cases hpc : s.pc with
    | start | done =>
      unfold recoverStep at hstep
      simp only [hpc] at hstep
      cases hstep
    | samples js todo agg =>
      cases todo with
      | nil => exact recovering_folded h hpc hstep
      | cons a rest => exact recovering_sample h hpc hstep
    | slots k => exact recovering_slot h hpc hstep
    | persist k judgeModel slot score => exact recovering_persist hstart h hpc hstep
    | write agg => exact recovering_written h hpc hstep

/-- **Recovery invariant.** It holds in every state of the recovery, however often it crashed
and started over. -/
theorem recovering_of_reach (hstart : Interrupted st₀ u judges vote)
    (h : Transition.Reach (recoverStep u) (Casts vote) ⟨st₀, .start, []⟩ s) :
    Recovering st₀ u judges vote s := by
  refine h.invariant ?_ fun t label t' ht hcasts hstep => recovering_step hstart ht hcasts hstep
  refine ⟨⟨_, _, rfl⟩, fun t ht => .inl ht, hstart.votes, ?_, List.Subset.refl _, .inl rfl⟩
  intro q hq
  cases hq

/-- **No second judgment.** A judge call is made for a slot that has no row when it is made,
and had none when the recovery started. -/
theorem missing_of_verdict (h : Recovering st₀ u judges vote s) {score : Option ℚ}
    (hstep : recoverStep u s (.verdict score) = some s') :
    ∃ q, s'.requests = s.requests ++ [q] ∧ Missing st₀ u judges q ∧
      slotDone (s.store.listJudgeScoresByAnswer q.1) q.2 = false := by
  have hat := h.pc
  unfold recoverStep at hstep
  dsimp only at hstep
  split at hstep
  case h_2 => cases hstep
  case h_1 k hpc =>
    rw [hpc] at hat
    obtain ⟨-, hfolded, i, -, htodo, hlooked⟩ := hat
    split at hstep
    case h_2 => cases hstep
    case h_1 judgeModel slot todo hk =>
      obtain ⟨hlt, rfl, -⟩ := drop_zipIdx_eq_cons (htodo.symm.trans hk)
      split_ifs at hstep with hknown
      cases hstep
      rw [hlooked.known le_rfl hlt, Bool.not_eq_true, hlooked.stored slot le_rfl] at hknown
      refine ⟨_, rfl, ⟨k.answer, mem_latest_of_folded hfolded, hlooked.judgeable, rfl, hlt, ?_⟩,
        hknown⟩
      -- rows are only added, so a slot done at the start would be known
      by_contra hdone
      rw [Bool.not_eq_false] at hdone
      rw [slotDone_of_subset h.kept hdone] at hknown
      cases hknown

/-- The aggregates a recovery writes rows from. -/
def recoverWrites (s : RecoverState) : RecoverLabel → List CaseAggregate
  | .go =>
    match s.pc with
    | .write agg => [agg]
    | _ => []
  | _ => []

/-- A step adds the rows it writes. -/
theorem results_of_recoverStep {label : RecoverLabel} (hstep : recoverStep u s label = some s') :
    s'.store.results = s.store.results ++ (recoverWrites s label).map (caseResult u) := by
  obtain ⟨store, pc, requests⟩ := s
  cases label with
  | crash =>
    cases hstep
    exact (List.append_nil _).symm
  | setup ready =>
    simp only [recoverStep] at hstep
    split at hstep <;> try cases hstep
    split at hstep <;> try split_ifs at hstep
    all_goals cases hstep; exact (List.append_nil _).symm
  | verdict score =>
    simp only [recoverStep] at hstep
    split at hstep <;> try cases hstep
    split at hstep <;> try cases hstep
    split_ifs at hstep
    cases hstep
    exact (List.append_nil _).symm
  | go =>
    cases pc with
    | start | done => cases hstep
    | samples judges todo agg =>
      cases todo with
      | nil =>
        cases hstep
        exact (List.append_nil _).symm
      | cons a rest =>
        simp only [recoverStep] at hstep
        split_ifs at hstep <;> cases hstep <;> exact (List.append_nil _).symm
    | slots k =>
      simp only [recoverStep] at hstep
      split at hstep
      · cases hstep
        exact (List.append_nil _).symm
      · split_ifs at hstep
        cases hstep
        exact (List.append_nil _).symm
    | persist k judgeModel slot score =>
      cases hstep
      obtain ⟨scores, hscores⟩ := Store.createEvalJudgeScore_eq store
        ⟨k.answer.id, slot, judgeModel, score, none, none⟩
      rw [recoverWrites, List.map_nil, List.append_nil, hscores]
    | write agg =>
      cases hstep
      rfl

/-- **The rows of the recovery.** They are written from aggregates that added the medians of the
latest attempts in sample order. -/
theorem tallied_of_logged {log : List CaseAggregate} (hstart : Interrupted st₀ u judges vote)
    (h : Transition.Logged (recoverStep u) (Casts vote) recoverWrites ⟨st₀, .start, []⟩ s log) :
    s.store.results = st₀.results ++ log.map (caseResult u) ∧
      ∀ agg ∈ log, Tallied agg ((latest st₀ u).map (medianOf judges vote)) := by
  induction h with
  | refl => exact ⟨(List.append_nil _).symm, fun _ hagg => absurd hagg List.not_mem_nil⟩
  | @tail t t' label bs hrun hcasts hstep ih =>
    obtain ⟨hresults, htallied⟩ := ih
    refine ⟨?_, fun agg hagg => ?_⟩
    · rw [results_of_recoverStep hstep, hresults, List.map_append, List.append_assoc]
    · rcases List.mem_append.mp hagg with hold | hnew
      · exact htallied agg hold
      · -- the aggregate it writes has folded every sample
        cases label with
        | go =>
          have hat := (recovering_of_reach hstart hrun.reach).pc
          cases hpc : t.pc with
          | write agg' =>
            simp only [recoverWrites, hpc, List.mem_singleton] at hnew
            subst hnew
            rw [hpc] at hat
            obtain ⟨-, -, ended, hlatest, htally, -⟩ := hat
            rw [List.append_nil] at hlatest
            rw [hlatest]
            exact htally
          | _ => simp [recoverWrites, hpc] at hnew
        | _ => cases hnew

/-- **What the recovery leaves.** When it is done it asked the missing slots and no other, and
wrote one row, the mean of the medians. -/
theorem recovered_of_done (h : Recovering st₀ u judges vote s) (hdone : s.pc = .done) :
    (∀ q, q ∈ s.requests ↔ Missing st₀ u judges q) ∧
      ∃ row, s.store.results = st₀.results ++ [row] ∧ row.unit = u ∧
        row.score = meanScore ((latest st₀ u).map (medianOf judges vote)) := by
  have hat := h.pc
  rw [hdone] at hat
  obtain ⟨row, hresults, hunit, hscore, hjudged⟩ := hat
  refine ⟨fun q => ⟨h.requests q, ?_⟩, row, hresults, hunit, hscore⟩
  rintro ⟨a, ha, hjudgeable, hid, hslot, hopen⟩
  -- the slot has a row now, and it is not one of the old rows
  obtain ⟨t, ht, htslot⟩ := slotDone_iff.mp (hjudged a ha hjudgeable q.2 hslot)
  obtain ⟨hmem, htid⟩ := List.mem_filter.mp ht
  rcases h.scores t hmem with hold | hnew
  · have hrow : slotDone (st₀.listJudgeScoresByAnswer a.id) q.2 = true :=
      slotDone_iff.mpr ⟨t, List.mem_filter.mpr ⟨hold, htid⟩, htslot⟩
    rw [hopen] at hrow
    cases hrow
  · rwa [of_decide_eq_true htid, htslot, hid] at hnew

end

end HubScope
