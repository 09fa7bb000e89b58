import HubScope.Evaluator.Attempts
import HubScope.Evaluator.Payload
import HubScope.Server.JuryBreakdown

/-!
# The votes shown for the result of an attempt

A unit's result is written by an attempt that asked its case, by a batch that gave the case up
and stamped it, or by the recovery of an interrupted attempt. Each leaves answers whose jury is
through. The run detail shows the votes of that attempt exactly when the votes it found in the
store are on samples that it put to a jury itself: a sample whose earlier answer was judged and
whose new answer failed keeps its earlier votes on display.

## Main definitions

* `WroteRow` — an attempt that wrote the row of its unit

## Main results

* `polled_of_written`, `polled_of_recovered` — an attempt whose row is written
* `consistentBreakdown_iff_of_wroteRow` — when the votes shown are the attempt's
-/

set_option autoImplicit false

namespace HubScope

variable {env : Env} {plan : Plan} {st st' : Store} {m m' : Shared} {s s' : State} {u : UnitKey}
  {k₁ : SampleCursor} {σ : Script} {own : List EvalAnswer} {judgeCase : Prop} {n₀ : ℕ}

/-! ### New answers and their votes -/

namespace Filed

variable {a b : EvalAnswer} {t : EvalJudgeScore}

/-- An answer is new, or the execution found it. -/
theorem mem_of_notMem_newAnswers (h : Filed st s) (ha : a ∈ s.store.answers) (hunit : a.unit = u)
    (hnot : a ∉ newAnswers st.answerSeq u s.store) : a ∈ st.answers := by
  obtain ⟨later, hanswers, hlater⟩ := h.answers
  rw [hanswers] at ha
  rcases List.mem_append.mp ha with hold | hnew
  · exact hold
  · refine absurd (mem_newAnswers.mpr ⟨?_, hunit, hlater a hnew⟩) hnot
    rw [hanswers]
    exact List.mem_append_right _ hnew

/-- A new answer has a higher attempt than an answer of its sample that is not new. -/
theorem attempt_lt (h : Filed st s) (hkeys : st.AnswerKeys)
    (ha : a ∈ newAnswers st.answerSeq u s.store)
    (hb : b ∈ s.store.answers) (hunit : b.unit = u) (hsample : b.sampleNo = a.sampleNo)
    (hnot : b ∉ newAnswers st.answerSeq u s.store) : b.attempt < a.attempt := by
  obtain ⟨later, hanswers, -⟩ := h.answers
  obtain ⟨hmem, haunit, hid⟩ := mem_newAnswers.mp ha
  have hattempts := h.keys.attempts
  rw [hanswers] at hattempts hmem
  have hlater : a ∈ later :=
    (List.mem_append.mp hmem).resolve_left fun hold => (hkeys.seq a hold).not_gt hid
  exact (List.pairwise_append.mp hattempts).2.2 b (h.mem_of_notMem_newAnswers hb hunit hnot) a
    hlater (hunit.trans haunit.symm) hsample

/-- A verdict is on a new answer of its sample. -/
theorem exists_newAnswer (h : Filed st s) {j : JudgeJob} (hj : j ∈ s.mem.hist.enqueued) :
    ∃ a ∈ newAnswers st.answerSeq j.unit s.store, a.id = j.answerId ∧
      a.sampleNo = j.sampleNo := by
  obtain ⟨a, ha, hnew, hid, hsample⟩ := h.enqueued j hj
  exact ⟨a, mem_newAnswers.mpr ⟨ha, congrArg SampleKey.unit hsample, hnew⟩, hid,
    congrArg SampleKey.sampleNo hsample⟩

/-- **Votes found.** The votes of a unit on answers that are not new are those the execution
found. -/
theorem mem_unitVotes_iff (h : Filed st s) (hkeys : st.AnswerKeys)
    (hregistered : ∀ v ∈ s.mem.hist.verdicts, v.1 ∈ s.mem.hist.enqueued) :
    (a, t) ∈ s.store.unitVotes u ∧ a ∉ newAnswers st.answerSeq u s.store ↔
      (a, t) ∈ st.unitVotes u ∧ a ∉ newAnswers st.answerSeq u s.store := by
  apply and_congr_left
  intro hnot
  rw [mem_unitVotes, mem_unitVotes]
  constructor
  · rintro ⟨ha, ht, hid, hunit⟩
    have hold := h.mem_of_notMem_newAnswers ha hunit hnot
    refine ⟨hold, ?_, hid, hunit⟩
    rcases h.scores t ht with hfound | ⟨v, hv, rfl⟩
    · exact hfound
    · -- a verdict of the execution is on a new answer
      obtain ⟨b, hb, hbid, -⟩ := h.exists_newAnswer (hregistered v hv)
      have hnew := (mem_newAnswers.mp hb).2.2
      rw [hbid] at hnew
      have hle := hkeys.seq a hold
      rw [← hid] at hle
      exact absurd hle hnew.not_ge
  · rintro ⟨ha, ht, hid, hunit⟩
    obtain ⟨later, hanswers, -⟩ := h.answers
    refine ⟨?_, h.kept ht, hid, hunit⟩
    rw [hanswers]
    exact List.mem_append_left _ ha

end Filed

/-! ### An attempt that asked its case -/

/-- Whether an answer of the case is judged. -/
def SampleCursor.judged (k : SampleCursor) (a : EvalAnswer) : Bool :=
  k.case.verdictType = .judge && a.judgeable

theorem judged_iff (h : Attempting env k₁ σ n₀ s) {a : EvalAnswer}
    (ha : a ∈ newAnswers n₀ k₁.unit s.store) :
    k₁.judged a = true ↔ σ.PutToJury k₁ a.sampleNo := by
  rw [SampleCursor.judged, Bool.and_eq_true, decide_eq_true_iff, Script.PutToJury]
  exact and_congr_right fun _ => h.answered a ha

/-- **A written case.** The new answers of a case whose row is written are judged. -/
theorem polled_of_written (hkeys : st.AnswerKeys) (hfiled : Filed st s)
    (hregistered : ∀ v ∈ s.mem.hist.verdicts, v.1 ∈ s.mem.hist.enqueued)
    (hstored : ∀ v ∈ s.mem.hist.verdicts, recorded s.store v.1)
    (hs : Attempting env k₁ σ st.answerSeq s) (hdone : Concluded env k₁.unit s) :
    Polled s.store k₁.unit (newAnswers st.answerSeq k₁.unit s.store) k₁.judged
      k₁.judges.length σ.vote := by
  have hsamples := hs.map_sampleNo_perm_of_written hdone
  have hnodup : ((newAnswers st.answerSeq k₁.unit s.store).map (·.sampleNo)).Nodup :=
    hsamples.nodup_iff.mpr List.nodup_range'
  refine ⟨hfiled.keys, fun a ha => ?_, hnodup, fun a ha b hb hunit hsample hnot => ?_,
    fun a ha t ht hid => ?_, fun a ha hjudged slot hslot => ?_⟩
  · obtain ⟨hmem, hunit, -⟩ := mem_newAnswers.mp ha
    exact ⟨hmem, hunit⟩
  · exact hfiled.attempt_lt hkeys ha hb hunit hsample hnot
  · obtain ⟨hmem, hunit, hnew⟩ := mem_newAnswers.mp ha
    rcases hfiled.scores t ht with hold | ⟨v, hv, rfl⟩
    · have hle := hkeys.scores t hold
      rw [hid] at hle
      exact absurd hle hnew.not_ge
    · -- the vote is on this answer, so of its unit and its sample
      obtain ⟨b, hb, hbid, hbsample⟩ := hfiled.exists_newAnswer (hregistered v hv)
      obtain ⟨hbmem, hbunit, -⟩ := mem_newAnswers.mp hb
      obtain rfl := hfiled.keys.eq_of_id_eq hbmem hmem (hbid.trans hid)
      have hvunit : v.1.unit = k₁.unit := hbunit.symm.trans hunit
      obtain ⟨hjury, hslot⟩ := hs.jobs v.1 (hregistered v hv) hvunit
      refine ⟨?_, hslot, ?_⟩
      · rw [judged_iff hs ha, hbsample]
        exact hjury
      · rw [hbsample]
        exact hs.verdicts v hv hvunit
  · have hn : a.sampleNo ∈ Script.sampleNos env k₁ := hsamples.mem_iff.mp (List.mem_map_of_mem ha)
    obtain ⟨v, hv, hsample, rfl⟩ :=
      hs.exists_verdict_of_written hdone ((judged_iff hs ha).mp hjudged) hn hslot
    obtain ⟨b, hb, hbid, hbsample⟩ := hfiled.exists_newAnswer (hregistered v hv)
    have hunit : v.1.unit = k₁.unit := congrArg SampleKey.unit hsample
    rw [hunit] at hb
    have hno : b.sampleNo = a.sampleNo := hbsample.trans (congrArg SampleKey.sampleNo hsample)
    obtain rfl := List.inj_on_of_nodup_map hnodup hb ha hno
    obtain ⟨t, ht, hid, hslot⟩ := hstored v hv
    exact ⟨t, ht, hid.trans hbid.symm, hslot⟩

/-- **Score of a case.** The score of a judge case is the mean over its new answers. -/
theorem score_scriptRow_eq (hs : Attempting env k₁ σ n₀ s) (hdone : Concluded env k₁.unit s)
    (hjudge : k₁.case.verdictType = .judge) :
    (scriptRow env k₁ σ).score = meanScore ((newAnswers n₀ k₁.unit s.store).map
      (ownMedian k₁.judged k₁.judges.length σ.vote)) := by
  have hmedian : (newAnswers n₀ k₁.unit s.store).map
      (ownMedian k₁.judged k₁.judges.length σ.vote) =
        ((newAnswers n₀ k₁.unit s.store).map (·.sampleNo)).map (σ.median env k₁) := by
    rw [List.map_map]
    apply List.map_congr_left
    intro a ha
    rw [ownMedian, Function.comp_apply, Script.median]
    -- an answer of the attempt was put to the jury just when the script answers it
    by_cases hjudged : k₁.judged a = true
    · obtain ⟨-, text, latencyMs, i, o, hanswer⟩ := (judged_iff hs ha).mp hjudged
      rw [if_pos hjudged, hanswer, hjudge]
    · rw [if_neg hjudged]
      cases hanswer : σ.answer a.sampleNo with
      | failed latencyMs i o => rfl
      | answered text latencyMs i o =>
        exact absurd ((judged_iff hs ha).mpr ⟨hjudge, text, latencyMs, i, o, hanswer⟩) hjudged
  rw [hmedian]
  apply meanScore_eq_of_perm
  exact ((hs.map_sampleNo_perm_of_written hdone).symm.map _).filterMap _

/-! ### After the row is written -/

/-- A step after the row of a unit is written leaves its row and its answers alone. -/
theorem written_step (hplanned : ∀ v, plan.planned v ≤ 1) (h : Reached env plan s)
    (hseq : n₀ ≤ s.store.answerSeq) (hwritten : u ∈ s.mem.hist.written) {a : Label}
    (hstep : step env plan s a = some s') :
    u ∈ s'.mem.hist.written ∧ newAnswers n₀ u s'.store = newAnswers n₀ u s.store ∧
      s'.store.unitRows u = s.store.unitRows u := by
  have hok := panicked_of_reach hplanned h
  have hok' := panicked_of_reach hplanned (h.step hstep)
  have hdone := concluded_of_written (hplanned u) h hok hwritten
  have hcases := (step_cases hstep).2
  have hflight := flight_of_reach (hplanned u) h hok
  have hflight' := flight_of_reach (hplanned u) (h.step hstep) hok'
  have htodo' := todo_of_reach u (h.step hstep) hok'
  have hunit := hplanned u
  have hwrote := hdone.once
  -- the unit is not taken up again, so no row of it is written either
  have hquiet : s'.mem.hist.written.count u = 1 ∧ s'.store.unitRows u = s.store.unitRows u := by
    cases hcases.rows h u with
    | start hstarted => omega
    | write rs hstarted hwrote' hrows =>
      obtain rfl : rs = [] := List.eq_nil_of_length_eq_zero (by omega)
      exact ⟨by omega, hrows.trans (List.append_nil _)⟩
    | stamp rs hd hstarted hwrote' hrows =>
      obtain rfl : rs = [] := List.eq_nil_of_length_eq_zero (by omega)
      exact ⟨by omega, hrows.trans (List.append_nil _)⟩
  obtain ⟨hone, hrows⟩ := hquiet
  refine ⟨List.count_pos_iff.mp (Nat.lt_of_lt_of_eq Nat.one_pos hone.symm), ?_, hrows⟩
  cases hcases with
  | main hm => exact newAnswers_of_eq hm.filing.1
  | exam hi he =>
    have hpc := List.mem_of_getElem? hi
    rcases he.filing with ⟨k, o, rfl, rfl, -, -⟩ | ⟨k, id, rfl, rfl, -, -⟩ | ⟨hanswers, -⟩
    · have hne : k.unit ≠ u := fun hu =>
        Nat.succ_ne_zero _ ((if_pos hu).symm.trans (hdone.exam _ hpc).1)
      obtain ⟨a, -, hnew⟩ := newAnswers_createEvalAnswer (u := u) hseq k o
      rw [if_neg hne, List.append_nil] at hnew
      exact hnew
    · rfl
    · exact newAnswers_of_eq hanswers
  | judge hj he => exact newAnswers_of_eq he.filing.1
  | _ => rfl

/-- **After the row.** Once its row is written a unit keeps it, and its answers. -/
theorem written_of_run {guard : State → Label → Prop} {s₂ : State}
    (hplanned : ∀ v, plan.planned v ≤ 1) (hkeys : st.AnswerKeys)
    (h : Transition.Reachable (step env plan) (plan.start env st) s₂)
    (hwritten : u ∈ s₂.mem.hist.written)
    (hrun : Transition.Reach (step env plan) guard s₂ s) :
    u ∈ s.mem.hist.written ∧
      newAnswers st.answerSeq u s.store = newAnswers st.answerSeq u s₂.store ∧
      s.store.unitRows u = s₂.store.unitRows u := by
  induction hrun with
  | refl => exact ⟨hwritten, rfl, rfl⟩
  | @tail t v a hrun _ hstep ih =>
    obtain ⟨hmem, hanswers, hrows⟩ := ih
    have hwhole : Transition.Reachable (step env plan) (plan.start env st) t :=
      h.trans hrun.reachable
    have hseq := (filed_of_reach hplanned hkeys hwhole).seq
    obtain ⟨hmem', hanswers', hrows'⟩ :=
      written_step hplanned (reached_of_reach hwhole) hseq hmem hstep
    exact ⟨hmem', hanswers'.trans hanswers, hrows'.trans hrows⟩

/-! ### A case that was given up -/

/-- A case that is stamped has no new answers, and its row has no score. -/
theorem stamped_spec {cell : Cell} {modelId : String} {cases : List Case} {answered : Bool}
    {i : ℕ} {s₁ s₂ : State} (hplanned : ∀ v, plan.planned v ≤ 1) (hkeys : st.AnswerKeys)
    (h : Transition.Reachable (step env plan) (plan.start env st) s₁)
    (hi : s₁.exam[i]? = some (.stamp cell modelId cases answered))
    (hu : u ∈ ({ cell with cases := cases } : Cell).units)
    (hstep : step env plan s₁ (.exam i .go) = some s₂) :
    u ∈ s₂.mem.hist.written ∧ newAnswers st.answerSeq u s₂.store = [] ∧
      ∃ row, s₂.store.unitRows u = s₁.store.unitRows u ++ [row] ∧ row.unit = u ∧
        row.score = none := by
  have hreached := reached_of_reach h
  have hok := panicked_of_reach hplanned hreached
  have hstarted : s₁.mem.hist.started.count u = 0 := by
    by_contra hpos
    exact notMem_todo_of_started (hplanned u) hreached hok (Nat.pos_of_ne_zero hpos)
      (List.mem_of_getElem? hi) hu
  have hnew : newAnswers st.answerSeq u s₁.store = [] := by
    apply List.filter_eq_nil_iff.mpr
    intro a ha hnew
    obtain ⟨hunit, hid⟩ := of_decide_eq_true hnew
    have hpos := (unanswered_of_reach hplanned hkeys h).started a ha hid
    rw [hunit, hstarted] at hpos
    exact absurd hpos (lt_irrefl 0)
  have hcases := (step_cases hstep).2
  cases hcases with
  | exam hi' he =>
    rw [hi] at hi'
    cases hi'
    cases he with
    | stamped =>
      refine ⟨List.mem_append_right _ hu, hnew, ?_⟩
      -- the unit is planned once, so the batch has one row of it
      have honce : ({ cell with cases := cases } : Cell).units.count u = 1 := by
        have htodo := todo_of_reach u hreached hok
        have hheld := Ledger.exam_le_held (L := todoLedger plan u) hi
        change ({ cell with cases := cases } : Cell).units.count u ≤ _ at hheld
        have hpos := List.count_pos_iff.mpr hu
        have hunit := hplanned u
        omega
      obtain ⟨row, hrow⟩ := List.length_eq_one_iff.mp
        ((length_filter_failedResult cell modelId cases u).trans honce)
      have hmem : row ∈ (cases.map (failedResult cell.run cell.modelDbId modelId)).filter
          (·.unit = u) := by
        rw [hrow]
        exact List.mem_singleton_self _
      obtain ⟨hmem, hunit⟩ := List.mem_filter.mp hmem
      obtain ⟨c, -, rfl⟩ := List.mem_map.mp hmem
      refine ⟨_, ?_, of_decide_eq_true hunit, rfl⟩
      exact (unitRows_createEvalResultsBatch _ _ _).trans (congrArg (_ ++ ·) hrow)

/-- An attempt without answers. -/
theorem polled_of_unanswered (hkeys : st.AnswerKeys) :
    Polled st u [] (fun _ => false) 0 fun _ _ => none where
  keys := hkeys
  stored _ ha := absurd ha List.not_mem_nil
  samples := List.nodup_nil
  newest _ ha := absurd ha List.not_mem_nil
  votes _ ha := absurd ha List.not_mem_nil
  complete _ ha := absurd ha List.not_mem_nil

/-! ### A case that was recovered -/

section

variable {judges : List String} {vote : ℕ → ℕ → Option ℚ} {r r' : RecoverState}

/-- The recovery stores a vote it asked, or its row, or nothing. -/
theorem store_recoverStep {label : RecoverLabel} (hstep : recoverStep u r label = some r') :
    r'.store = r.store ∨
      (∃ k judgeModel slot score, r.pc = .persist k judgeModel slot score ∧ r'.store =
        r.store.createEvalJudgeScore ⟨k.answer.id, slot, judgeModel, score, none, none⟩) ∨
      ∃ row, r'.store = r.store.createEvalResult row := by
  unfold recoverStep at hstep
  split at hstep
  · cases hstep
    exact .inl rfl
  · split at hstep
    · split at hstep
      · dsimp only at hstep
        split_ifs at hstep
        · cases hstep
          exact .inl rfl
        · cases hstep
          exact .inl rfl
      · cases hstep
        exact .inl rfl
    · cases hstep
  · split at hstep
    · split at hstep
      · split_ifs at hstep
        cases hstep
        exact .inl rfl
      · cases hstep
    · cases hstep
  · split at hstep
    · dsimp only at hstep
      split_ifs at hstep
      · cases hstep
        exact .inl rfl
      · cases hstep
        exact .inl rfl
    · cases hstep
      exact .inl rfl
    · split at hstep
      · cases hstep
        exact .inl rfl
      · split_ifs at hstep
        cases hstep
        exact .inl rfl
    · rename_i k judgeModel slot score hpc
      cases hstep
      -- only two points write: a vote that was cast, and the row
      exact .inr (.inl ⟨k, judgeModel, slot, score, hpc, rfl⟩)
    · cases hstep
      exact .inr (.inr ⟨_, rfl⟩)
    · cases hstep
    · cases hstep

/-- The recovery keeps the keys of the answers and of the judge scores. -/
theorem keys_recoverStep (h : Recovering st u judges vote r) (hkeys : st.AnswerKeys)
    (hr : r.store.AnswerKeys) {label : RecoverLabel} (hstep : recoverStep u r label = some r') :
    r'.store.AnswerKeys := by
  rcases store_recoverStep hstep with heq | ⟨k, judgeModel, slot, score, hpc, heq⟩ | ⟨row, heq⟩
  · rw [heq]
    exact hr
  · rw [heq]
    apply hr.createEvalJudgeScore
    have hat := h.pc
    rw [hpc] at hat
    obtain ⟨-, -, -, -, -, -, -, hrequest⟩ := hat
    obtain ⟨a, ha, -, hid, -⟩ := h.requests _ hrequest
    obtain ⟨results, scores, hframe⟩ := h.frame
    rw [hframe]
    have hle := hkeys.seq a (mem_of_mem_unitAnswers (mem_of_mem_latestAttempts ha))
    rwa [hid] at hle
  · rw [heq]
    exact hr.of_eq rfl rfl rfl

theorem keys_of_recover (hstart : Interrupted st u judges vote) (hkeys : st.AnswerKeys)
    (h : Transition.Reach (recoverStep u) (Casts vote) ⟨st, .start, []⟩ r) :
    r.store.AnswerKeys := by
  induction h with
  | refl => exact hkeys
  | tail hrun _ hstep ih => exact keys_recoverStep (recovering_of_reach hstart hrun) hkeys ih hstep

/-- The votes an earlier attempt left on the latest answers are of their jury. -/
def JuryVotes (st : Store) (u : UnitKey) (judges : List String) : Prop :=
  ∀ a ∈ latest st u, ∀ t ∈ st.judgeScores, t.answerId = a.id →
    a.judgeable = true ∧ t.slot < judges.length

/-- No attempt at a sample is later than the latest. -/
theorem attempt_le_latestOf {answers : List EvalAnswer} {a b : EvalAnswer}
    (h : latestOf answers = some a) (hb : b ∈ answers) : b.attempt ≤ a.attempt := by
  -- the fold keeps the first of the highest attempts
  have hfold : ∀ (rest : List EvalAnswer) (c : EvalAnswer), ∀ b ∈ c :: rest,
      b.attempt ≤ (rest.foldl (fun a b => if a.attempt < b.attempt then b else a) c).attempt := by
    intro rest
    induction rest with
    | nil =>
      intro c b hb
      rw [List.mem_singleton.mp hb]
      exact le_rfl
    | cons x rest ih =>
      intro c b hb
      rw [List.foldl_cons]
      have hbest := ih (if c.attempt < x.attempt then x else c) _ List.mem_cons_self
      rcases List.mem_cons.mp hb with rfl | hb
      · refine le_trans ?_ hbest
        split_ifs with hlt
        · exact hlt.le
        · exact le_rfl
      · rcases List.mem_cons.mp hb with rfl | hb
        · refine le_trans ?_ hbest
          split_ifs with hlt
          · exact le_rfl
          · exact not_lt.mp hlt
        · exact ih _ b (List.mem_cons_of_mem _ hb)
  cases answers with
  | nil => cases h
  | cons c rest =>
    cases h
    exact hfold rest c b hb

theorem mem_unitAnswers {a : EvalAnswer} : a ∈ unitAnswers st u ↔ a ∈ st.answers ∧ a.unit = u := by
  rw [unitAnswers, List.mem_filter, Store.listEvalAnswersByRun,
    (List.perm_insertionSort _ _).mem_iff, List.mem_filter, decide_eq_true_iff, decide_eq_true_iff,
    and_assoc]
  exact and_congr_right fun _ => ⟨And.right, fun hunit => ⟨congrArg UnitKey.runId hunit, hunit⟩⟩

/-- A latest answer is later than every other answer of its unit and its sample. -/
theorem attempt_lt_of_latest (hkeys : st.AnswerKeys) {a b : EvalAnswer} (ha : a ∈ latest st u)
    (hb : b ∈ st.answers) (hunit : b.unit = u) (hsample : b.sampleNo = a.sampleNo)
    (hne : b ≠ a) : b.attempt < a.attempt := by
  obtain ⟨hmem, haunit⟩ := mem_unitAnswers.mp (mem_of_mem_latestAttempts ha)
  obtain ⟨⟨n, attempts⟩, hgroup, hlatest⟩ := List.mem_filterMap.mp ha
  obtain ⟨-, rfl⟩ := Grouping.mem_group.mp hgroup
  have hn : a.sampleNo = n := of_decide_eq_true (List.mem_filter.mp (latestOf_mem hlatest)).2
  have hle : b.attempt ≤ a.attempt := by
    apply attempt_le_latestOf hlatest
    exact List.mem_filter.mpr
      ⟨mem_unitAnswers.mpr ⟨hb, hunit⟩, decide_eq_true (hsample.trans hn)⟩
  -- two answers of a sample have different attempts
  have hattempts : st.answers.Pairwise fun a b =>
      a.unit = b.unit → a.sampleNo = b.sampleNo → a.attempt ≠ b.attempt :=
    hkeys.attempts.imp fun hlt hunit hsample => (hlt hunit hsample).ne
  have hsymm : Std.Symm fun a b : EvalAnswer =>
      a.unit = b.unit → a.sampleNo = b.sampleNo → a.attempt ≠ b.attempt :=
    ⟨fun _ _ hne hunit hsample => (hne hunit.symm hsample.symm).symm⟩
  have hdistinct := hattempts.forall hb hmem hne
  exact lt_of_le_of_ne hle (hdistinct (hunit.trans haunit.symm) hsample)

/-- **A recovered case.** The latest answers are judged when the recovery is done. -/
theorem polled_of_recovered (hstart : Interrupted st u judges vote) (hkeys : st.AnswerKeys)
    (hjury : JuryVotes st u judges)
    (h : Transition.Reach (recoverStep u) (Casts vote) ⟨st, .start, []⟩ r) (hdone : r.pc = .done) :
    Polled r.store u (latest st u) EvalAnswer.judgeable judges.length vote := by
  have hr := recovering_of_reach hstart h
  obtain ⟨results, scores, hframe⟩ := hr.frame
  have hanswers : r.store.answers = st.answers := by rw [hframe]
  have hat := hr.pc
  rw [hdone] at hat
  obtain ⟨-, -, -, -, hjudged⟩ := hat
  refine ⟨keys_of_recover hstart hkeys h, fun a ha => ?_, ?_, fun a ha b hb hunit hsample hnot => ?_,
    fun a ha t ht hid => ?_, fun a ha hjudgeable slot hslot => ?_⟩
  · rw [hanswers]
    exact mem_unitAnswers.mp (mem_of_mem_latestAttempts ha)
  · have hstrict : ((latest st u).map (·.sampleNo)).Pairwise (· < ·) :=
      List.pairwise_map.mpr (pairwise_latest st u)
    exact hstrict.imp fun hlt => hlt.ne
  · rw [hanswers] at hb
    exact attempt_lt_of_latest hkeys ha hb hunit hsample fun heq => hnot (heq ▸ ha)
  · have hjury : a.judgeable = true ∧ t.slot < judges.length := by
      rcases hr.scores t ht with hold | hnew
      · exact hjury a ha t hold hid
      · -- a slot that was asked is one of a latest answer, and ids are distinct
        obtain ⟨b, hb, hjudgeable, hbid, hslot, -⟩ := hr.requests _ hnew
        have hmem := fun {c : EvalAnswer} (hc : c ∈ latest st u) =>
          (mem_unitAnswers.mp (mem_of_mem_latestAttempts hc)).1
        obtain rfl := hkeys.eq_of_id_eq (hmem hb) (hmem ha) (hbid.trans hid)
        exact ⟨hjudgeable, hslot⟩
    exact ⟨hjury.1, hjury.2, hr.votes a ha hjury.1 t ht hid⟩
  · obtain ⟨t, ht, htslot⟩ := slotDone_iff.mp (hjudged a ha hjudgeable slot hslot)
    obtain ⟨hmem, hid⟩ := List.mem_filter.mp ht
    exact ⟨t, hmem, of_decide_eq_true hid, htslot⟩

end

/-- The recovery leaves the votes on answers that are not the latest alone. -/
theorem mem_unitVotes_recovered {judges : List String} {vote : ℕ → ℕ → Option ℚ}
    {r : RecoverState} (hr : Recovering st u judges vote r) (hkeys : st.AnswerKeys)
    {p : EvalAnswer × EvalJudgeScore} :
    p ∈ r.store.unitVotes u ∧ p.1 ∉ latest st u ↔ p ∈ st.unitVotes u ∧ p.1 ∉ latest st u := by
  obtain ⟨a, t⟩ := p
  obtain ⟨results, scores, hframe⟩ := hr.frame
  have hanswers : r.store.answers = st.answers := by rw [hframe]
  apply and_congr_left
  intro hnot
  rw [mem_unitVotes, mem_unitVotes, hanswers]
  apply and_congr_right
  intro ha
  refine ⟨fun ⟨ht, hid, hunit⟩ => ⟨?_, hid, hunit⟩, fun ⟨ht, hrest⟩ => ⟨hr.kept ht, hrest⟩⟩
  rcases hr.scores t ht with hold | hnew
  · exact hold
  · obtain ⟨b, hb, -, hbid, -⟩ := hr.requests _ hnew
    have hmem := (mem_unitAnswers.mp (mem_of_mem_latestAttempts hb)).1
    obtain rfl := hkeys.eq_of_id_eq hmem ha (hbid.trans hid)
    exact absurd hb hnot

/-! ### Attempts that wrote a row -/

/-- An attempt that wrote the row of the unit, from the store it found: whether the case is a
judge case, the store at a later time of the attempt, the attempt's answers and the samples it
put to a jury. -/
inductive WroteRow (u : UnitKey) (st : Store) :
    Prop → Store → List EvalAnswer → (ℕ → Prop) → Prop
  /-- The case was opened, asked and completed. -/
  | opened {env : Env} {plan : Plan} {s₁ s : State} {k : SampleCursor} {σ : Script} :
      (∀ v, plan.planned v ≤ 1) →
      Transition.Reachable (step env plan) (plan.start env st) s₁ →
      .openCase k ∈ s₁.exam → k.unit = u →
      Transition.Reach (step env plan) (Follows u σ) s₁ s → u ∈ s.mem.hist.written →
      WroteRow u st (k.case.verdictType = .judge) s.store (newAnswers st.answerSeq u s.store)
        fun n => n ∈ Script.sampleNos env k ∧ k.judges ≠ [] ∧ σ.PutToJury k n
  /-- The batch gave up on the model and stamped the case. -/
  | stamped {env : Env} {plan : Plan} {s₁ s₂ s : State} {i : ℕ} {cell : Cell} {modelId : String}
      {cases : List Case} {answered : Bool} :
      (∀ v, plan.planned v ≤ 1) →
      Transition.Reachable (step env plan) (plan.start env st) s₁ →
      s₁.exam[i]? = some (.stamp cell modelId cases answered) →
      u ∈ ({ cell with cases := cases } : Cell).units →
      step env plan s₁ (.exam i .go) = some s₂ →
      Transition.Reachable (step env plan) s₂ s →
      WroteRow u st True s.store (newAnswers st.answerSeq u s.store) fun _ => False
  /-- The judging of an interrupted attempt was recovered. -/
  | recovered {judges : List String} {vote : ℕ → ℕ → Option ℚ} {r : RecoverState} :
      Interrupted st u judges vote → JuryVotes st u judges →
      Transition.Reach (recoverStep u) (Casts vote) ⟨st, .start, []⟩ r → r.pc = .done →
      WroteRow u st True r.store (latest st u)
        fun n => judges ≠ [] ∧ ∃ a ∈ latest st u, a.sampleNo = n ∧ a.judgeable = true

/-- An attempt that asked its case. -/
theorem consistentBreakdown_iff_of_opened {s₁ : State} {k : SampleCursor}
    (hkeys : st.AnswerKeys) (hplanned : ∀ v, plan.planned v ≤ 1)
    (h : Transition.Reachable (step env plan) (plan.start env st) s₁)
    (hk : .openCase k ∈ s₁.exam)
    (hrun : Transition.Reach (step env plan) (Follows k.unit σ) s₁ s)
    (hwritten : k.unit ∈ s.mem.hist.written) :
    ∃ rows row, s.store.unitRows k.unit = rows ++ [row] ∧
      (ConsistentBreakdown (k.case.verdictType = .judge)
          (newAnswers st.answerSeq k.unit s.store) s.store row ↔
        ∀ p ∈ st.unitVotes k.unit, p.1 ∉ newAnswers st.answerSeq k.unit s.store →
          p.1.sampleNo ∈ Script.sampleNos env k ∧ k.judges ≠ [] ∧
            σ.PutToJury k p.1.sampleNo) := by
  have hwhole : Transition.Reachable (step env plan) (plan.start env st) s :=
    h.trans hrun.reachable
  have hreached := reached_of_reach hwhole
  have hok := panicked_of_reach hplanned hreached
  have hdone : Concluded env k.unit s := concluded_of_written (hplanned _) hreached hok hwritten
  have hs := attempting_of_reach hplanned hkeys h hk hrun hdone.dropped
  have hfiled := filed_of_reach hplanned hkeys hwhole
  have hregistered : ∀ v ∈ s.mem.hist.verdicts, v.1 ∈ s.mem.hist.enqueued := fun v hv =>
    mem_enqueued_of_verdict hreached hok hv
  have hpolled := polled_of_written hkeys hfiled hregistered (verdict_stored_of_reach hwhole) hs hdone
  have hrows := (scripted_of_reach hplanned (reached_of_reach h) hk hrun hdone.dropped).rows
  rw [hdone.once] at hrows
  refine ⟨_, scriptRow env k σ, hrows, ?_⟩
  rw [hpolled.consistentBreakdown_iff rfl (score_scriptRow_eq hs hdone)]
  -- the votes of the unit that are not the attempt's are those it found
  have hfound : ∀ p : EvalAnswer × EvalJudgeScore,
      p ∈ s.store.unitVotes k.unit ∧ p.1 ∉ newAnswers st.answerSeq k.unit s.store ↔
        p ∈ st.unitVotes k.unit ∧ p.1 ∉ newAnswers st.answerSeq k.unit s.store := fun p =>
    hfiled.mem_unitVotes_iff hkeys hregistered
  have hheard : ∀ n, (0 < k.judges.length ∧ ∃ a ∈ newAnswers st.answerSeq k.unit s.store,
      a.sampleNo = n ∧ k.judged a = true) ↔
        n ∈ Script.sampleNos env k ∧ k.judges ≠ [] ∧ σ.PutToJury k n := by
    intro n
    rw [List.length_pos_iff, ← (hs.map_sampleNo_perm_of_written hdone).mem_iff, List.mem_map]
    constructor
    · rintro ⟨hjudges, a, ha, rfl, hjudged⟩
      exact ⟨⟨a, ha, rfl⟩, hjudges, (judged_iff hs ha).mp hjudged⟩
    · rintro ⟨⟨a, ha, rfl⟩, hjudges, hjury⟩
      exact ⟨hjudges, a, ha, rfl, (judged_iff hs ha).mpr hjury⟩
  constructor
  · intro hjudged p hp hnot
    exact (hheard _).mp (hjudged p ((hfound p).mpr ⟨hp, hnot⟩).1 hnot)
  · intro hjudged p hp hnot
    exact (hheard _).mpr (hjudged p ((hfound p).mp ⟨hp, hnot⟩).1 hnot)

/-- **Breakdowns of attempts.** The breakdown of a result is consistent exactly when each vote
that its attempt found is on a sample that the attempt put to its jury. -/
theorem consistentBreakdown_iff_of_wroteRow {heard : ℕ → Prop} (hkeys : st.AnswerKeys)
    (h : WroteRow u st judgeCase st' own heard) :
    ∃ rows row, st'.unitRows u = rows ++ [row] ∧ (ConsistentBreakdown judgeCase own st' row ↔
      ∀ p ∈ st.unitVotes u, p.1 ∉ own → heard p.1.sampleNo) := by
  cases h with
  | opened hplanned h hk hu hrun hwritten =>
    -- the case was asked
    subst hu
    exact consistentBreakdown_iff_of_opened hkeys hplanned h hk hrun hwritten
  | @stamped env plan s₁ s₂ s i cell modelId cases answered hplanned h hi hu hstep hrun =>
    -- the batch gave the case up: no answer is new, and all votes shown were found
    obtain ⟨hwritten, hnew, row, hrow, hunit, hscore⟩ := stamped_spec hplanned hkeys h hi hu hstep
    have h₂ : Transition.Reachable (step env plan) (plan.start env st) s₂ :=
      Transition.Reach.tail h trivial hstep
    obtain ⟨hmem, hanswers, hrows⟩ := written_of_run hplanned hkeys h₂ hwritten hrun
    have hreached := reached_of_reach (h₂.trans hrun)
    have hok := panicked_of_reach hplanned hreached
    have hfiled := filed_of_reach hplanned hkeys (h₂.trans hrun)
    refine ⟨_, row, hrows.trans hrow, ?_⟩
    rw [hanswers, hnew, (polled_of_unanswered hfiled.keys).consistentBreakdown_iff hunit
      fun _ => hscore]
    have hfound : ∀ p : EvalAnswer × EvalJudgeScore,
        p ∈ s.store.unitVotes u ↔ p ∈ st.unitVotes u := by
      intro p
      have hiff := hfiled.mem_unitVotes_iff (u := u) (a := p.1) (t := p.2) hkeys fun v hv =>
        mem_enqueued_of_verdict hreached hok hv
      rw [hanswers, hnew] at hiff
      simpa using hiff
    simp only [hfound, lt_irrefl, false_and]
  | @recovered judges vote r hstart hjury hrun hdone =>
    -- the recovery wrote the row, from the latest answer of each sample
    have hr := recovering_of_reach hstart hrun
    obtain ⟨-, row, hresults, hunit, hscore⟩ := recovered_of_done hr hdone
    refine ⟨st.unitRows u, row, ?_, ?_⟩
    · rw [Store.unitRows, hresults, List.filter_append, ← Store.unitRows]
      congr 1
      exact List.filter_cons_of_pos (decide_eq_true hunit)
    · rw [(polled_of_recovered hstart hkeys hjury hrun hdone).consistentBreakdown_iff hunit
        fun _ => hscore]
      have hfound := fun p : EvalAnswer × EvalJudgeScore =>
        mem_unitVotes_recovered (p := p) hr hkeys
      constructor
      · intro hjudged p hp hnot
        obtain ⟨hpos, hheard⟩ := hjudged p ((hfound p).mpr ⟨hp, hnot⟩).1 hnot
        exact ⟨List.length_pos_iff.mp hpos, hheard⟩
      · intro hjudged p hp hnot
        obtain ⟨hjudges, hheard⟩ := hjudged p ((hfound p).mp ⟨hp, hnot⟩).1 hnot
        exact ⟨List.length_pos_iff.mpr hjudges, hheard⟩

/-! ### A judged case that is asked again -/

/-- The one sample of the case was answered and judged, and the row has its score. -/
def judgedStore : Store :=
  { soloStore with
    results := [scriptRow soloEnv firstCase onesScript]
    answers := [firstRow 1 1 1]
    judgeScores := [⟨1, 0, "judge", some 1, none, none⟩]
    answerSeq := 1 }

theorem judgedStore_keys : judgedStore.AnswerKeys := by
  constructor <;> decide

/-- The targeted retry of the case. -/
def askAgain : Plan := planAnsweredUnits judgedStore 1 [⟨1, 1⟩] false

/-- The retry up to the point where the case is opened. -/
theorem exists_askAgain : ∃ s₁, Transition.replay (step soloEnv askAgain)
    (askAgain.start soloEnv judgedStore) (.main :: openingLabels) = some s₁ ∧
      .openCase firstCase ∈ s₁.exam :=
  ⟨_, rfl, List.mem_singleton_self _⟩

theorem askAgain_planned (v : UnitKey) : askAgain.planned v ≤ 1 :=
  List.nodup_iff_count_le_one.mp (by decide) v

/-- The sample is answered and judged again, and its old vote is not shown. -/
theorem consistentBreakdown_iff_of_wroteRow_judged : ∃ st' own rows row,
    st'.unitRows firstCase.unit = rows ++ [row] ∧
      ConsistentBreakdown (firstCase.case.verdictType = .judge) own st' row := by
  obtain ⟨s₁, hs₁, hk⟩ := exists_askAgain
  obtain ⟨s₂, hs₂⟩ : ∃ s, Transition.replayWith (step soloEnv askAgain)
      (fun s a => a.follows firstCase.unit onesScript s = true) s₁ (judgingLabels.take 18) =
        some s := by
    cases hs₁
    exact ⟨_, rfl⟩
  have hrun : Transition.Reach (step soloEnv askAgain) (Follows firstCase.unit onesScript)
    s₁ s₂ := (Transition.Reach.of_replayWith hs₂).mono fun _ _ h => follows_of_label h
  have hwritten : firstCase.unit ∈ s₂.mem.hist.written := by
    cases hs₁
    cases hs₂
    exact List.mem_singleton_self _
  obtain ⟨rows, row, hrows, hiff⟩ := consistentBreakdown_iff_of_wroteRow judgedStore_keys
    (.opened askAgain_planned (Transition.Reach.of_replay hs₁) hk rfl hrun hwritten)
  refine ⟨_, _, rows, row, hrows, hiff.mpr fun p hp _ => ?_⟩
  have hsample : ∀ p ∈ judgedStore.unitVotes firstCase.unit, p.1.sampleNo = 1 := by decide
  rw [hsample p hp]
  exact ⟨List.mem_singleton_self _, List.cons_ne_nil _ _, rfl, "a", 1, none, none, rfl⟩

/-- **Votes of an earlier attempt.** A judged sample whose answer fails when it is asked again
leaves a result without a score, and the vote of its earlier answer is shown for it. -/
theorem not_consistentBreakdown :
    ¬ ∀ (u : UnitKey) (st st' : Store) (judgeCase : Prop) (own : List EvalAnswer)
        (heard : ℕ → Prop) (rows : List EvalResult) (row : EvalResult),
      st.AnswerKeys → WroteRow u st judgeCase st' own heard → st'.unitRows u = rows ++ [row] →
        ConsistentBreakdown judgeCase own st' row := by
  intro hall
  -- the case was judged before; asked again, its answer fails and it ends unscored
  obtain ⟨s₁, hs₁, hk⟩ := exists_askAgain
  obtain ⟨s₂, hs₂⟩ : ∃ s, Transition.replayWith (step soloEnv askAgain)
      (fun s a => a.follows firstCase.unit failingScript s = true) s₁ (failingLabels.take 6) =
        some s := by
    cases hs₁
    exact ⟨_, rfl⟩
  have hrun : Transition.Reach (step soloEnv askAgain) (Follows firstCase.unit failingScript)
    s₁ s₂ := (Transition.Reach.of_replayWith hs₂).mono fun _ _ h => follows_of_label h
  have hend : firstCase.unit ∈ s₂.mem.hist.written ∧ ∃ row,
      s₂.store.unitRows firstCase.unit = [] ++ [row] ∧ row.score = none ∧
        ⟨1, 0, "judge", some 1⟩ ∈ s₂.store.shownVotes row := by
    cases hs₁
    cases hs₂
    exact ⟨List.mem_singleton_self _, _, rfl, rfl, by decide⟩
  obtain ⟨hwritten, row, hrows, hscore, hshown⟩ := hend
  have hconsistent := hall _ _ _ _ _ _ _ row judgedStore_keys
    (.opened askAgain_planned (Transition.Reach.of_replay hs₁) hk rfl hrun hwritten) hrows
  cases hconsistent.unscored rfl hscore _ hshown

end HubScope
