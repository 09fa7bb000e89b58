import HubScope.Evaluator.Reconstruction

/-!
# What the answers of a recovered case took and said

The execution folds the payload of an answer into the row of its case when the answer is
there: a sample whose call failed adds nothing. The recovery folds the payload of every latest
attempt, the failed ones and those of stale samples too. The two rows have the same latency,
token counts, text and caliber just when these add nothing.

## Main definitions

* `Payload.gather`, `gathered` — the payloads of stored answers
* `Gathering` — the invariant of the recovery
* `counted`, `uncounted` — the answers the execution folds, and the others
* `Neutral` — the others add nothing

## Main results

* `gathered_of_done` — the payload of the row the recovery writes
* `gathered_eq_iff_neutral` — when two payloads are the same
* `recovered_payload_iff_of_stored` — when the recovered row has the payload of the execution's
-/

set_option autoImplicit false

namespace HubScope

variable {env : Env} {plan : Plan} {st st₀ : Store} {u : UnitKey} {k : SampleCursor} {σ : Script}
  {judges : List String} {vote : ℕ → ℕ → Option ℚ} {s s' : RecoverState}

/-! ### Payloads of stored answers -/

/-- Add what a stored answer took and said. -/
def Payload.gather (p : Payload) (a : EvalAnswer) : Payload :=
  ⟨p.latencyMs + a.latencyMs, addIntPtr p.inputTokens a.inputTokens,
    addIntPtr p.outputTokens a.outputTokens, p.answerText <|> a.answerText⟩

/-- What the stored answers took and said together. -/
def gathered (answers : List EvalAnswer) : Payload := answers.foldl Payload.gather .empty

/-- The payload of a row. -/
def EvalResult.payload (r : EvalResult) : Payload :=
  ⟨r.latencyMs, r.inputTokens, r.outputTokens, r.answerText⟩

theorem CaseAggregate.payload_recoverAnswer (agg : CaseAggregate) (a : EvalAnswer) :
    (agg.recoverAnswer a).payload = agg.payload.gather a := rfl

/-! ### The recovered payload -/

/-- Where the recovery stands, the answers it has still to fold complete the payload. -/
def RecoverPc.Gathers (total : Payload) : RecoverPc → Prop
  | samples _ todo agg => todo.foldl Payload.gather agg.payload = total ∧ agg.profile = .v3
  | slots k | persist k _ _ _ =>
    k.rest.foldl Payload.gather k.agg.payload = total ∧ k.agg.profile = .v3
  | write agg => agg.payload = total ∧ agg.profile = .v3
  | start | done => True

/-- The recovery folds all latest attempts, and a row it wrote has their payload. -/
structure Gathering (st₀ : Store) (u : UnitKey) (s : RecoverState) : Prop where
  pc : s.pc.Gathers (gathered (latest st₀ u))
  row : ∀ row, s.store.results = st₀.results ++ [row] →
    row.payload = gathered (latest st₀ u) ∧ row.verdictProfile = .v3

theorem gathering_setup (h : Recovering st₀ u judges vote s) (hs : Gathering st₀ u s) {ready : Bool}
    (hstep : recoverStep u s (.setup ready) = some s') : Gathering st₀ u s' := by
  obtain ⟨results, scores, hframe⟩ := h.frame
  have hanswers : unitAnswers s.store u = unitAnswers st₀ u := by
    rw [hframe]
    rfl
  unfold recoverStep at hstep
  dsimp only at hstep
  split at hstep
  case h_2 => cases hstep
  case h_1 =>
    split at hstep
    case h_2 =>
      cases hstep
      exact ⟨trivial, hs.row⟩
    case h_1 js a answers hjury hlist =>
      split_ifs at hstep
      · cases hstep
        -- the walk starts with nothing gathered and all answers ahead
        refine ⟨⟨?_, rfl⟩, hs.row⟩
        rw [latest, ← hanswers, hlist]
        rfl
      · cases hstep
        exact ⟨trivial, hs.row⟩

theorem gathering_verdict (hs : Gathering st₀ u s) {score : Option ℚ}
    (hstep : recoverStep u s (.verdict score) = some s') : Gathering st₀ u s' := by
  have hat := hs.pc
  unfold recoverStep at hstep
  dsimp only at hstep
  split at hstep
  case h_2 => cases hstep
  case h_1 k hpc =>
    rw [hpc] at hat
    split at hstep
    case h_2 => cases hstep
    case h_1 =>
      split_ifs at hstep
      cases hstep
      exact ⟨hat, hs.row⟩

theorem gathering_go (h : Recovering st₀ u judges vote s) (hs : Gathering st₀ u s)
    (hstep : recoverStep u s .go = some s') : Gathering st₀ u s' := by
  have hat := hs.pc
  have hrecovering := h.pc
  unfold recoverStep at hstep
  dsimp only at hstep
  split at hstep
  case h_1 js a rest agg hpc =>
    rw [hpc] at hat
    split_ifs at hstep
    · cases hstep
      refine ⟨⟨?_, ?_⟩, hs.row⟩
      · rw [CaseAggregate.payload_settle, CaseAggregate.payload_recoverAnswer]
        exact hat.1
      · rw [CaseAggregate.settle_profile]
        exact hat.2
    · cases hstep
      exact ⟨hat, hs.row⟩
  case h_2 js agg hpc =>
    rw [hpc] at hat
    cases hstep
    split_ifs
    · exact ⟨hat, hs.row⟩
    · exact ⟨trivial, hs.row⟩
  case h_3 k hpc =>
    rw [hpc] at hat
    split at hstep
    · cases hstep
      refine ⟨⟨?_, ?_⟩, hs.row⟩
      · rw [CaseAggregate.payload_settle]
        exact hat.1
      · rw [CaseAggregate.settle_profile]
        exact hat.2
    · split_ifs at hstep
      cases hstep
      exact ⟨hat, hs.row⟩
  case h_4 k judgeModel slot score hpc =>
    rw [hpc] at hat
    cases hstep
    refine ⟨hat, fun row hrow => hs.row row ?_⟩
    rw [← hrow]
    unfold Store.createEvalJudgeScore
    split_ifs <;> rfl
  case h_5 agg hpc =>
    rw [hpc] at hat hrecovering
    cases hstep
    refine ⟨trivial, fun row hrow => ?_⟩
    -- the row is the one written here
    have hunwritten : s.store.results = st₀.results := hrecovering.1
    change s.store.results ++ [caseResult u agg] = st₀.results ++ [row] at hrow
    rw [hunwritten] at hrow
    obtain rfl : caseResult u agg = row := List.singleton_injective (List.append_cancel_left hrow)
    exact ⟨hat.1, hat.2⟩
  case h_6 => cases hstep
  case h_7 => cases hstep

theorem gathering_of_reach (hstart : Interrupted st₀ u judges vote)
    (h : Transition.Reach (recoverStep u) (Casts vote) ⟨st₀, .start, []⟩ s) :
    Gathering st₀ u s := by
  refine h.invariant_of (fun t ht => recovering_of_reach hstart ht) ?_ ?_
  · refine ⟨trivial, fun row hrow => ?_⟩
    have hlength := congrArg List.length hrow
    simp at hlength
  · intro t label t' hrecovering ht hcasts hstep
    cases label with
    | crash =>
      cases hstep
      exact ⟨trivial, ht.row⟩
    | setup ready => exact gathering_setup hrecovering ht hstep
    | verdict score => exact gathering_verdict ht hstep
    | go => exact gathering_go hrecovering ht hstep

/-! ### Sums of nullable counts -/

/-- The sum of nullable counts; null when all of them are. -/
def tokenSum (xs : List (Option ℕ)) : Option ℕ :=
  if ∀ x ∈ xs, x = none then none else some (xs.map (·.getD 0)).sum

theorem addIntPtr_none (x : Option ℕ) : addIntPtr x none = x := by
  cases x <;> rfl

theorem addIntPtr_assoc (x y z : Option ℕ) :
    addIntPtr (addIntPtr x y) z = addIntPtr x (addIntPtr y z) := by
  cases x <;> cases y <;> cases z <;> simp [addIntPtr, Nat.add_assoc]

theorem tokenSum_cons (x : Option ℕ) (xs : List (Option ℕ)) :
    tokenSum (x :: xs) = addIntPtr x (tokenSum xs) := by
  unfold tokenSum
  cases x with
  | none => simp [addIntPtr]
  | some n =>
    by_cases h : ∀ x ∈ xs, x = none
    · have hzero : (xs.map (·.getD 0)).sum = 0 := by
        rw [List.sum_eq_zero_iff_forall_eq_nat]
        intro m hm
        obtain ⟨x, hx, rfl⟩ := List.mem_map.mp hm
        rw [h x hx]
        rfl
      rw [if_pos h, if_neg fun hall => by simpa using hall (some n) (List.mem_cons_self ..)]
      simp [addIntPtr, hzero]
    · rw [if_neg h, if_neg fun hall => by simpa using hall (some n) (List.mem_cons_self ..)]
      simp [addIntPtr]

theorem tokenSum_append (xs ys : List (Option ℕ)) :
    tokenSum (xs ++ ys) = addIntPtr (tokenSum xs) (tokenSum ys) := by
  induction xs with
  | nil => rfl
  | cons x xs ih => rw [List.cons_append, tokenSum_cons, tokenSum_cons, ih, addIntPtr_assoc]

theorem tokenSum_perm {xs ys : List (Option ℕ)} (h : xs.Perm ys) : tokenSum xs = tokenSum ys := by
  have hall : (∀ x ∈ xs, x = none) ↔ ∀ y ∈ ys, y = none :=
    forall_congr' fun x => by rw [h.mem_iff]
  unfold tokenSum
  rw [(h.map _).sum_eq]
  simp only [hall]

/-- More counts leave the sum as it is just when they are null, or nothing to a sum that is
not null. -/
theorem addIntPtr_tokenSum_eq_iff {xs ys : List (Option ℕ)} :
    addIntPtr (tokenSum xs) (tokenSum ys) = tokenSum xs ↔
      (∀ y ∈ ys, y = none) ∨ (∀ y ∈ ys, y.getD 0 = 0) ∧ ∃ x ∈ xs, x ≠ none := by
  by_cases hys : ∀ y ∈ ys, y = none
  · rw [tokenSum, tokenSum, if_pos hys, addIntPtr_none]
    exact ⟨fun _ => .inl hys, fun _ => rfl⟩
  · have hsum : (ys.map (·.getD 0)).sum = 0 ↔ ∀ y ∈ ys, y.getD 0 = 0 := by
      rw [List.sum_eq_zero_iff_forall_eq_nat, List.forall_mem_map]
    by_cases hxs : ∀ x ∈ xs, x = none
    · rw [tokenSum, tokenSum, if_pos hxs, if_neg hys]
      constructor
      · intro h
        cases h
      · rintro (h | ⟨-, x, hx, hne⟩)
        · exact absurd h hys
        · exact absurd (hxs x hx) hne
    · rw [tokenSum, tokenSum, if_neg hxs, if_neg hys, ← hsum]
      have hsome : ∃ x ∈ xs, x ≠ none := by simpa using hxs
      simp only [addIntPtr, Option.some_inj, Nat.add_eq_left]
      exact ⟨fun h => .inr ⟨h, hsome⟩, fun h => (h.resolve_left hys).1⟩

/-- The payload of stored answers, count by count. -/
theorem gathered_eq (answers : List EvalAnswer) :
    gathered answers = ⟨(answers.map (·.latencyMs)).sum, tokenSum (answers.map (·.inputTokens)),
      tokenSum (answers.map (·.outputTokens)), (answers.filterMap (·.answerText)).head?⟩ := by
  have hfold : ∀ p : Payload, answers.foldl Payload.gather p =
      ⟨p.latencyMs + (answers.map (·.latencyMs)).sum,
        addIntPtr p.inputTokens (tokenSum (answers.map (·.inputTokens))),
        addIntPtr p.outputTokens (tokenSum (answers.map (·.outputTokens))),
        p.answerText <|> (answers.filterMap (·.answerText)).head?⟩ := by
    induction answers with
    | nil =>
      intro p
      simp [tokenSum, addIntPtr_none]
    | cons a answers ih =>
      intro p
      rw [List.foldl_cons, ih]
      simp only [Payload.gather, List.map_cons, List.sum_cons, tokenSum_cons, addIntPtr_assoc,
        Nat.add_assoc]
      cases ha : a.answerText <;> cases p.answerText <;> simp [ha]
  rw [gathered, hfold]
  simp [Payload.empty, addIntPtr]

/-! ### Counted answers -/

/-- The answer of a sample of the case that was answered. -/
def EvalAnswer.counts (env : Env) (k : SampleCursor) (a : EvalAnswer) : Bool :=
  a.sampleNo ≤ env.samples k.case && a.judgeable

/-- The latest attempts the execution folds. -/
def counted (env : Env) (k : SampleCursor) (st₀ : Store) : List EvalAnswer :=
  (latest st₀ k.unit).filter (·.counts env k)

/-- The latest attempts it does not fold: samples whose call failed, and stale samples. -/
def uncounted (env : Env) (k : SampleCursor) (st₀ : Store) : List EvalAnswer :=
  (latest st₀ k.unit).filter fun a => !a.counts env k

theorem counted_eq (env : Env) (k : SampleCursor) (st₀ : Store) :
    counted env k st₀ =
      (current st₀ k.unit (env.samples k.case)).filter (·.judgeable) := by
  unfold counted current EvalAnswer.counts
  rw [List.filter_filter]
  exact List.filter_congr fun a _ => Bool.and_comm _ _

/-- Token counts that add nothing: they are null, or nothing to a sum that is not null. -/
def NeutralTokens (f : EvalAnswer → Option ℕ) (counted uncounted : List EvalAnswer) : Prop :=
  (∀ a ∈ uncounted, f a = none) ∨
    (∀ a ∈ uncounted, (f a).getD 0 = 0) ∧ ∃ a ∈ counted, f a ≠ none

/-- Answers that add nothing to the payload of the counted ones. -/
structure Neutral (counted uncounted : List EvalAnswer) : Prop where
  latencyMs : ∀ a ∈ uncounted, a.latencyMs = 0
  inputTokens : NeutralTokens (·.inputTokens) counted uncounted
  outputTokens : NeutralTokens (·.outputTokens) counted uncounted
  answerText : counted ≠ [] ∨ ∀ a ∈ uncounted, a.answerText = none

theorem tokenSum_latest_eq_iff (env : Env) (k : SampleCursor) (st₀ : Store)
    (f : EvalAnswer → Option ℕ) :
    tokenSum ((latest st₀ k.unit).map f) = tokenSum ((counted env k st₀).map f) ↔
      NeutralTokens f (counted env k st₀) (uncounted env k st₀) := by
  have hperm := (List.filter_append_perm (·.counts env k) (latest st₀ k.unit)).map f
  rw [← tokenSum_perm hperm, List.map_append, tokenSum_append]
  change addIntPtr (tokenSum ((counted env k st₀).map f))
    (tokenSum ((uncounted env k st₀).map f)) = _ ↔ _
  rw [addIntPtr_tokenSum_eq_iff]
  simp only [NeutralTokens, List.forall_mem_map]
  simp only [List.mem_map, exists_exists_and_eq_and]

theorem latencyMs_latest_eq_iff (env : Env) (k : SampleCursor) (st₀ : Store) :
    ((latest st₀ k.unit).map (·.latencyMs)).sum = ((counted env k st₀).map (·.latencyMs)).sum ↔
      ∀ a ∈ uncounted env k st₀, a.latencyMs = 0 := by
  have hperm :=
    (List.filter_append_perm (·.counts env k) (latest st₀ k.unit)).map (·.latencyMs)
  rw [← hperm.sum_eq, List.map_append, List.sum_append]
  change ((counted env k st₀).map (·.latencyMs)).sum +
    ((uncounted env k st₀).map (·.latencyMs)).sum = _ ↔ _
  rw [Nat.add_eq_left, List.sum_eq_zero_iff_forall_eq_nat, List.forall_mem_map]

namespace Stored

/-- An answer of the case that is not counted has no text. -/
theorem answerText_of_not_judgeable (h : Stored env k σ st₀) {a : EvalAnswer}
    (ha : a ∈ current st₀ k.unit (env.samples k.case)) (hjudgeable : a.judgeable ≠ true) :
    a.answerText = none := by
  have hpersisted := h.persisted ha
  have hjudge := hpersisted.judgeable
  cases ho : σ.answer a.sampleNo with
  | answered text latencyMs i j => exact absurd (hjudge.mpr ⟨text, latencyMs, i, j, ho⟩) hjudgeable
  | failed latencyMs i j =>
    rw [ho] at hpersisted
    rw [hpersisted]
    rfl

/-- The texts of the latest attempts are those of the counted answers and then of the stale
ones. -/
theorem filterMap_answerText_latest (h : Stored env k σ st₀) :
    (latest st₀ k.unit).filterMap (·.answerText) = (counted env k st₀).filterMap (·.answerText) ++
      (stale st₀ k.unit (env.samples k.case)).filterMap (·.answerText) := by
  rw [latest_eq st₀ k.unit (env.samples k.case), List.filterMap_append, counted_eq,
    List.filterMap_filter]
  congr 1
  refine List.filterMap_congr fun a ha => ?_
  by_cases hjudgeable : a.judgeable = true
  · rw [if_pos hjudgeable]
  · rw [if_neg hjudgeable, h.answerText_of_not_judgeable ha hjudgeable]

/-- An uncounted answer with a text is stale. -/
theorem answerText_uncounted_iff (h : Stored env k σ st₀) :
    (∀ a ∈ uncounted env k st₀, a.answerText = none) ↔
      (stale st₀ k.unit (env.samples k.case)).filterMap (·.answerText) = [] := by
  rw [List.filterMap_eq_nil_iff]
  constructor
  · intro hall a ha
    obtain ⟨hlatest, hlt⟩ := List.mem_filter.mp ha
    rw [decide_eq_true_eq] at hlt
    refine hall a (List.mem_filter.mpr ⟨hlatest, ?_⟩)
    simp only [EvalAnswer.counts, Bool.not_eq_true', Bool.and_eq_false_iff, decide_eq_false_iff_not]
    omega
  · intro hall a ha
    obtain ⟨hlatest, hcounts⟩ := List.mem_filter.mp ha
    by_cases hle : a.sampleNo ≤ env.samples k.case
    · refine h.answerText_of_not_judgeable (List.mem_filter.mpr ⟨hlatest, decide_eq_true hle⟩) ?_
      simpa [EvalAnswer.counts, hle] using hcounts
    · exact hall a (List.mem_filter.mpr ⟨hlatest, decide_eq_true (by omega)⟩)

/-- The first text is that of a counted answer, if there is one. -/
theorem answerText_latest_eq_iff (h : Stored env k σ st₀) :
    ((latest st₀ k.unit).filterMap (·.answerText)).head? =
        ((counted env k st₀).filterMap (·.answerText)).head? ↔
      counted env k st₀ ≠ [] ∨ ∀ a ∈ uncounted env k st₀, a.answerText = none := by
  rw [h.filterMap_answerText_latest, h.answerText_uncounted_iff, List.head?_append]
  cases hcounted : counted env k st₀ with
  | nil => simp
  | cons a rest =>
    -- a counted answer has a text
    have ha : a.counts env k = true := by
      have hmem : a ∈ counted env k st₀ := by
        rw [hcounted]
        exact List.mem_cons_self ..
      exact (List.mem_filter.mp hmem).2
    have htext : a.answerText ≠ none := by
      simp only [EvalAnswer.counts, EvalAnswer.judgeable, Bool.and_eq_true, decide_eq_true_eq] at ha
      exact ha.2.2
    obtain ⟨text, htext⟩ := Option.ne_none_iff_exists'.mp htext
    simp [htext]

/-- The execution folds the counted answers. -/
theorem payload_eq_gathered (h : Stored env k σ st₀) :
    σ.payload (env.samples k.case) = gathered (counted env k st₀) := by
  have hfold : ∀ n, σ.payload n =
      (List.range' 1 n).foldl (fun p i => p.record (σ.answer i)) .empty := by
    intro n
    induction n with
    | zero => rfl
    | succ n ih =>
      rw [List.range'_concat, List.foldl_append, ← ih, Nat.one_mul, Nat.add_comm 1 n]
      rfl
  -- a judgeable answer is recorded as it was; a failed one adds nothing to either
  have hrecord : ∀ (p : Payload), ∀ a ∈ current st₀ k.unit (env.samples k.case),
      p.record (σ.answer a.sampleNo) = if a.judgeable = true then p.gather a else p := by
    intro p a ha
    have hpersisted := h.persisted ha
    have hjudge := hpersisted.judgeable
    cases ho : σ.answer a.sampleNo with
    | answered text latencyMs i j =>
      rw [if_pos (hjudge.mpr ⟨text, latencyMs, i, j, ho⟩)]
      rw [ho] at hpersisted
      rw [hpersisted]
      rfl
    | failed latencyMs i j =>
      rw [if_neg]
      · rfl
      · intro hjudgeable
        obtain ⟨_, _, _, _, heq⟩ := hjudge.mp hjudgeable
        rw [ho] at heq
        cases heq
  have hnos : List.range' 1 (env.samples k.case) =
    (current st₀ k.unit (env.samples k.case)).map (·.sampleNo) := h.map_sampleNo_current.symm
  rw [hfold, hnos, List.foldl_map, List.foldl_ext _ _ _ hrecord, gathered, counted_eq,
    List.foldl_filter]

/-- The recovery folds the same payload just when the uncounted answers add nothing. -/
theorem gathered_eq_iff_neutral (h : Stored env k σ st₀) :
    gathered (latest st₀ k.unit) = gathered (counted env k st₀) ↔
      Neutral (counted env k st₀) (uncounted env k st₀) := by
  rw [gathered_eq, gathered_eq, Payload.mk.injEq, latencyMs_latest_eq_iff,
    tokenSum_latest_eq_iff, tokenSum_latest_eq_iff, h.answerText_latest_eq_iff]
  exact ⟨fun heq => ⟨heq.1, heq.2.1, heq.2.2.1, heq.2.2.2⟩,
    fun heq => ⟨heq.latencyMs, heq.inputTokens, heq.outputTokens, heq.answerText⟩⟩

end Stored

/-! ### The recovered row -/

/-- What the recovery wrote when it is done has the payload of all latest attempts. -/
theorem gathered_of_done (hstored : Stored env k σ st₀) {t : RecoverState}
    (hrecover : Transition.Reach (recoverStep k.unit) (Casts σ.vote) ⟨st₀, .start, []⟩ t)
    (hdone : t.pc = .done) : ∃ row, t.store.results = st₀.results ++ [row] ∧ row.unit = k.unit ∧
      row.payload = gathered (latest st₀ k.unit) ∧ row.verdictProfile = .v3 := by
  have hrecovering := recovering_of_reach hstored.interrupted hrecover
  obtain ⟨-, row, hresults, hunit, -⟩ := recovered_of_done hrecovering hdone
  exact ⟨row, hresults, hunit, (gathering_of_reach hstored.interrupted hrecover).row row hresults⟩

/-- **Recovered payloads.** The row the recovery of a stored case writes has the caliber of
the row the execution writes when it is not interrupted. It has the same latency, token counts
and text exactly when the answers the execution does not count add nothing. -/
theorem recovered_payload_iff_of_stored {s₁ s₂ : State} {t : RecoverState}
    (hstored : Stored env k σ st₀) (hplanned : ∀ v, plan.planned v ≤ 1)
    (h : Reached env plan s₁) (hk : .openCase k ∈ s₁.exam)
    (hrun : Transition.Reach (step env plan) (Follows k.unit σ) s₁ s₂)
    (hlive : s₂.mem.canceled = false) (hreturned : s₂.main = .returned)
    (hrecover : Transition.Reach (recoverStep k.unit) (Casts σ.vote) ⟨st₀, .start, []⟩ t)
    (hdone : t.pc = .done) :
    ∃ row row', t.store.results = st₀.results ++ [row] ∧
      s₂.store.unitRows k.unit = s₁.store.unitRows k.unit ++ [row'] ∧
      row.verdictProfile = row'.verdictProfile ∧
      (row.payload = row'.payload ↔ Neutral (counted env k st₀) (uncounted env k st₀)) := by
  obtain ⟨row, hresults, -, hpayload, hprofile⟩ := gathered_of_done hstored hrecover hdone
  refine ⟨row, scriptRow env k σ, hresults, unitRows_of_returned hplanned h hk hrun hlive hreturned,
    ?_, ?_⟩
  · rw [hprofile]
    exact (if_pos ⟨hstored.verdictType, hstored.snapshot⟩).symm
  · rw [hpayload, ← hstored.gathered_eq_iff_neutral, ← hstored.payload_eq_gathered]
    rfl

/-- A failed sample that took no time adds nothing: the row the recovery writes for two answered
samples and it is the row of the execution. -/
theorem recovered_payload_iff_of_stored_mixed : ∃ t row row' s₁ s₂,
    Transition.Reach (recoverStep firstCase.unit) (Casts mixedScript.vote)
      ⟨threeSampleStore, .start, []⟩ t ∧ t.store.results = [row] ∧ row.latencyMs = 2 ∧
    Transition.Reach (step threeEnv soloPlan) (Follows firstCase.unit mixedScript) s₁ s₂ ∧
      s₂.store.unitRows firstCase.unit = s₁.store.unitRows firstCase.unit ++ [row'] ∧
        row.verdictProfile = row'.verdictProfile ∧ row.payload = row'.payload := by
  obtain ⟨s₁, s₂, log, h, hk, hrun, hlive, hreturned, -⟩ := exists_uninterrupted_mixed
  obtain ⟨t, ht⟩ : ∃ t, Transition.replayWith (recoverStep firstCase.unit)
      (fun s a => a.casts mixedScript.vote s = true) ⟨threeSampleStore, .start, []⟩ mixedRecovery =
        some t := ⟨_, rfl⟩
  have hrecover : Transition.Reach (recoverStep firstCase.unit) (Casts mixedScript.vote)
      ⟨threeSampleStore, .start, []⟩ t :=
    (Transition.Reach.of_replayWith ht).mono fun _ _ hcasts => casts_of_label hcasts
  have hend : t.pc = .done ∧ t.store.results.map (·.latencyMs) = [2] := by
    cases ht
    exact ⟨rfl, rfl⟩
  obtain ⟨row, row', hresults, hrows, hprofile, hiff⟩ := recovered_payload_iff_of_stored
    stored_threeSampleStore (List.nodup_iff_count_le_one.mp (by decide)) h hk hrun.reach hlive
    hreturned hrecover hend.1
  have hone : t.store.results = [row] := hresults
  have hlatency : row.latencyMs = 2 := by
    have hmap := hend.2
    rw [hone] at hmap
    exact List.head_eq_of_cons_eq hmap
  have huncounted : uncounted threeEnv firstCase threeSampleStore = [failedRow] := by decide
  refine ⟨t, row, row', s₁, s₂, hrecover, hone, hlatency, hrun.reach, hrows, hprofile,
    hiff.mpr ?_⟩
  rw [huncounted]
  exact ⟨by decide, .inl (by decide), .inl (by decide), .inr (by decide)⟩

/-! ### A case whose answer failed -/

/-- The one sample fails after five milliseconds. -/
def failingScript : Script := ⟨fun _ => .failed 5 none none, fun _ _ => none⟩

/-- The failed answer as it is stored. -/
def failedAnswerStore : Store :=
  crashedStore [{ answerRow firstCase (.failed 5 none none) with id := 1, attempt := 1 }] []

theorem stored_failedAnswerStore : Stored soloEnv firstCase failingScript failedAnswerStore where
  verdictType := rfl
  snapshot := rfl
  jury := by decide
  answerIds := by decide
  positive := by decide
  samples i hi := by
    obtain rfl : i = 1 := List.mem_singleton.mp hi
    exact ⟨_, List.mem_singleton_self _, rfl⟩
  votes := by decide

/-- The case settles without a vote, and the execution ends. -/
def failingLabels : List Label :=
  [.exam 0 .go, .exam 0 (.answer (.failed 5 none none)), .exam 0 .go, .exam 0 .go, .exam 0 .go,
    .exam 0 .go, .exam 0 .go, .exam 0 .go, .exam 0 .go, .exam 0 .go, .main, .exam 0 .go,
    .exam 0 .go, .main, .judge 0 .go, .judge 0 .go, .main, .main, .main, .main, .main, .main,
    .main]

/-- **Failed samples.** The recovery adds the latency of a failed answer to the row, the
execution does not. -/
theorem not_recovered_payload_of_stored :
    ¬ ∀ (env : Env) (plan : Plan) (st₀ : Store) (k : SampleCursor) (σ : Script) (s₁ s₂ : State)
        (t : RecoverState) (row row' : EvalResult),
      Stored env k σ st₀ → (∀ v, plan.planned v ≤ 1) → Reached env plan s₁ →
      .openCase k ∈ s₁.exam →
      Transition.Reach (step env plan) (Follows k.unit σ) s₁ s₂ →
      s₂.mem.canceled = false → s₂.main = .returned →
      s₂.store.unitRows k.unit = s₁.store.unitRows k.unit ++ [row'] →
      Transition.Reach (recoverStep k.unit) (Casts σ.vote) ⟨st₀, .start, []⟩ t →
      t.pc = .done → t.store.results = st₀.results ++ [row] → row.latencyMs = row'.latencyMs := by
  intro hall
  -- the only answer fails: the batch leaves its latency out, the recovery counts it
  obtain ⟨s₁, hs₁⟩ : ∃ s, Transition.replay (step soloEnv soloPlan)
      (soloPlan.start soloEnv soloStore) (.main :: openingLabels) = some s := ⟨_, rfl⟩
  obtain ⟨s₂, hs₂⟩ : ∃ s, Transition.replayWith (step soloEnv soloPlan)
      (fun s a => a.follows firstCase.unit failingScript s = true) s₁ failingLabels = some s := by
    cases hs₁
    exact ⟨_, rfl⟩
  have hrun : Transition.Reach (step soloEnv soloPlan) (Follows firstCase.unit failingScript)
    s₁ s₂ := (Transition.Reach.of_replayWith hs₂).mono fun _ _ h => follows_of_label h
  have hend : s₂.mem.canceled = false ∧ s₂.main = .returned := by
    cases hs₁
    cases hs₂
    exact ⟨rfl, rfl⟩
  have hk : .openCase firstCase ∈ s₁.exam := by
    cases hs₁
    exact List.mem_singleton_self _
  have hplanned : ∀ v, soloPlan.planned v ≤ 1 := List.nodup_iff_count_le_one.mp (by decide)
  have h := reached_of_reach (Transition.Reach.of_replay hs₁)
  obtain ⟨t, hreach, hdone⟩ := exists_done (u := firstCase.unit) failingScript.vote
    ⟨failedAnswerStore, .start, []⟩
  have hrecover : Transition.Reach (recoverStep firstCase.unit) (Casts failingScript.vote)
    ⟨failedAnswerStore, .start, []⟩ t := hreach.mono fun _ _ hguard => hguard.1
  obtain ⟨row, hresults, -, hpayload, -⟩ := gathered_of_done stored_failedAnswerStore hrecover hdone
  have heq := hall soloEnv soloPlan failedAnswerStore firstCase failingScript s₁ s₂ t row _
    stored_failedAnswerStore hplanned h hk hrun hend.1 hend.2
    (unitRows_of_returned hplanned h hk hrun hend.1 hend.2) hrecover hdone hresults
  have hlatency : row.latencyMs = (gathered (latest failedAnswerStore firstCase.unit)).latencyMs :=
    congrArg Payload.latencyMs hpayload
  rw [hlatency] at heq
  exact absurd heq (by decide)

end HubScope
