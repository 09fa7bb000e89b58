import HubScope.Evaluator.Jury

/-!
# The samples of a case in flight

An open aggregate waits for its samples: those its exam worker has not passed on, those whose
votes are open, and those a judge worker is settling. So the aggregate a worker settles a
sample of is there, and when an execution returns the open aggregates are the ones some vote
of which was dropped.

## Main definitions

* `sampleLedger` — the samples of a unit
* `Waiting` — open samples wait for votes, open cases for samples

## Main results

* `panicked_of_reach` — no aggregate is missed when no unit is planned twice
* `mem_aggs_iff_of_returned` — what is left open when the execution returns
-/

set_option autoImplicit false

namespace HubScope

variable {env : Env} {plan : Plan} {st st' : Store} {m m' : Shared} {s s' : State} {u : UnitKey}
  {κ : SampleKey}

/-! ### Samples of a unit -/

/-- The samples of the unit an exam worker has neither settled nor sent to the jury. -/
def ExamPc.samplesLeft (env : Env) (u : UnitKey) : ExamPc → ℕ
  | .call k | .persist k _ | .record k _ _ | .settle k _ | .enqueue k _ =>
    if k.unit = u then env.samples k.case - k.sampleNo + 1 else 0
  | .write k _ | .offer k _ | .noteOffered k _ =>
    if k.unit = u then env.samples k.case - k.sampleNo else 0
  | _ => 0

/-- Whether a judge worker is settling a sample of the unit. -/
def JudgePc.settles (u : UnitKey) : JudgePc → ℕ
  | .settle j _ => if j.unit = u then 1 else 0
  | _ => 0

/-- The samples an open aggregate waits for. -/
def Pipeline.samplesOwed (p : Pipeline) (u : UnitKey) : ℤ :=
  match p.aggs.lookup u with
  | some agg => agg.expectedSamples - agg.settledSamples
  | none => 0

/-- The samples of the unit that are with their jury. -/
def Pipeline.openSamples (p : Pipeline) (u : UnitKey) : ℕ := p.votes.keys.countP (·.unit = u)

/-- The samples of a unit, with the exam worker, its jury or a judge worker, less the ones its
aggregate waits for. -/
def sampleLedger (env : Env) (u : UnitKey) : Ledger where
  mem m := m.pipe.openSamples u - m.pipe.samplesOwed u
  main _ := 0
  exam pc := pc.samplesLeft env u
  judge pc := pc.settles u

theorem samplesOwed_of_lookup {p : Pipeline} {agg : CaseAggregate}
    (h : p.aggs.lookup u = some agg) :
    p.samplesOwed u = agg.expectedSamples - agg.settledSamples := by
  rw [Pipeline.samplesOwed, h]

theorem samplesOwed_of_notMem {p : Pipeline} (h : u ∉ p.aggs) : p.samplesOwed u = 0 := by
  rw [Pipeline.samplesOwed, AList.lookup_eq_none.mpr h]

theorem samplesOwed_insert {p q : Pipeline} {v : UnitKey} {agg : CaseAggregate}
    (h : q.aggs = p.aggs.insert v agg) :
    q.samplesOwed u =
      if v = u then (agg.expectedSamples : ℤ) - agg.settledSamples else p.samplesOwed u := by
  split_ifs with hu
  · subst hu
    exact samplesOwed_of_lookup (by rw [h, AList.lookup_insert])
  · rw [Pipeline.samplesOwed, Pipeline.samplesOwed, h, AList.lookup_insert_ne (Ne.symm hu)]

theorem samplesOwed_erase {p q : Pipeline} {v : UnitKey} (h : q.aggs = p.aggs.erase v) :
    q.samplesOwed u = if v = u then 0 else p.samplesOwed u := by
  split_ifs with hu
  · subst hu
    exact samplesOwed_of_notMem (AList.lookup_eq_none.mp (by rw [h, AList.lookup_erase]))
  · rw [Pipeline.samplesOwed, Pipeline.samplesOwed, h, AList.lookup_erase_ne (Ne.symm hu)]

theorem openSamples_erase {p q : Pipeline} (hmem : κ ∈ p.votes)
    (h : q.votes = p.votes.erase κ) :
    q.openSamples u + (if κ.unit = u then 1 else 0) = p.openSamples u := by
  have hperm := List.perm_cons_erase (AList.mem_keys.mp hmem)
  rw [Pipeline.openSamples, Pipeline.openSamples, h, AList.keys_erase, hperm.countP_eq,
    List.countP_cons]
  simp only [decide_eq_true_eq]

theorem openSamples_insert_of_mem {p q : Pipeline} {sv : SampleVotes} (hmem : κ ∈ p.votes)
    (h : q.votes = p.votes.insert κ sv) : q.openSamples u = p.openSamples u := by
  have hperm := List.perm_cons_erase (AList.mem_keys.mp hmem)
  rw [Pipeline.openSamples, Pipeline.openSamples, h, AList.keys_insert, hperm.countP_eq]

theorem openSamples_insert_of_notMem {p q : Pipeline} {sv : SampleVotes} (hmem : κ ∉ p.votes)
    (h : q.votes = p.votes.insert κ sv) :
    q.openSamples u = p.openSamples u + if κ.unit = u then 1 else 0 := by
  rw [Pipeline.openSamples, Pipeline.openSamples, h, AList.keys_insert,
    List.erase_of_not_mem hmem, List.countP_cons]
  simp only [decide_eq_true_eq]

theorem openSamples_of_votes_eq {p q : Pipeline} (h : q.votes = p.votes) :
    q.openSamples u = p.openSamples u := by
  rw [Pipeline.openSamples, h, Pipeline.openSamples]

theorem samplesOwed_of_aggs_eq {p q : Pipeline} (h : q.aggs = p.aggs) :
    q.samplesOwed u = p.samplesOwed u := by
  rw [Pipeline.samplesOwed, h, Pipeline.samplesOwed]

/-- A new aggregate waits for all samples of its case. -/
theorem samplesOwed_openCase {p : Pipeline} {v : UnitKey} (modelId : String)
    (profile : VerdictProfile) (expected : ℕ) (h : v = u → u ∉ p.aggs) :
    (p.openCase v modelId profile expected).samplesOwed u =
      if v = u then (expected : ℤ) else p.samplesOwed u := by
  by_cases hmem : v ∈ p.aggs
  · rw [Pipeline.openCase_of_mem hmem, if_neg fun hv => h hv (hv ▸ hmem)]
  · rw [samplesOwed_insert (congrArg Pipeline.aggs (Pipeline.openCase_of_notMem hmem))]
    split_ifs
    · exact sub_zero _
    · rfl

theorem openSamples_openCase (p : Pipeline) (v : UnitKey) (modelId : String)
    (profile : VerdictProfile) (expected : ℕ) :
    (p.openCase v modelId profile expected).openSamples u = p.openSamples u := by
  obtain ⟨aggs, hp⟩ := Pipeline.openCase_eq p v modelId profile expected
  exact openSamples_of_votes_eq (by rw [hp])

theorem openSamples_recordAnswer {p q : Pipeline} {v : UnitKey} {latencyMs : ℕ}
    {i o : Option ℕ} {text : String} (h : p.recordAnswer v latencyMs i o text = some q) :
    q.openSamples u = p.openSamples u := by
  obtain ⟨agg, agg', -, rfl, -⟩ := Pipeline.recordAnswer_spec h
  rfl

theorem samplesOwed_recordAnswer {p q : Pipeline} {v : UnitKey} {latencyMs : ℕ} {i o : Option ℕ}
    {text : String} (h : p.recordAnswer v latencyMs i o text = some q) :
    q.samplesOwed u = p.samplesOwed u := by
  obtain ⟨agg, agg', hagg, heq, hexpected, hsettled⟩ := Pipeline.recordAnswer_spec h
  rw [samplesOwed_insert (congrArg Pipeline.aggs heq)]
  split_ifs with hu
  · rw [hexpected, hsettled, ← hu]
    exact (samplesOwed_of_lookup hagg).symm
  · rfl

/-- Settling a sample takes one off what the aggregate waits for. -/
theorem samplesOwed_settleSample {p q : Pipeline} {v : UnitKey} {median : Option ℚ}
    {done : Option CaseAggregate} (h : p.settleSample v median = some (q, done)) :
    q.samplesOwed u + (if v = u then 1 else 0) = p.samplesOwed u := by
  cases done with
  | none =>
    obtain ⟨agg, hagg, -, heq⟩ := Pipeline.settleSample_open h
    rw [samplesOwed_insert (congrArg Pipeline.aggs heq)]
    split_ifs with hu
    · rw [← hu, samplesOwed_of_lookup hagg, CaseAggregate.settle_expectedSamples,
        CaseAggregate.settle_settledSamples]
      omega
    · omega
  | some done =>
    obtain ⟨agg, hagg, hlast, -, heq⟩ := Pipeline.settleSample_complete h
    rw [samplesOwed_erase (congrArg Pipeline.aggs heq)]
    split_ifs with hu
    · rw [← hu, samplesOwed_of_lookup hagg]
      omega
    · omega

theorem openSamples_settleSample {p q : Pipeline} {v : UnitKey} {median : Option ℚ}
    {done : Option CaseAggregate} (h : p.settleSample v median = some (q, done)) :
    q.openSamples u = p.openSamples u := by
  obtain ⟨aggs, rfl⟩ := Pipeline.settleSample_eq h
  rfl

/-- A sample that waits for no votes yet opens one. -/
theorem openSamples_registerVotes {p : Pipeline} {κ : SampleKey} {jury : ℕ}
    (hfresh : κ.unit = u → κ ∉ p.votes) :
    (p.registerVotes κ jury).openSamples u = p.openSamples u + if κ.unit = u then 1 else 0 := by
  by_cases hmem : κ ∈ p.votes
  · rw [openSamples_insert_of_mem (u := u) hmem rfl, if_neg fun hu => hfresh hu hmem, Nat.add_zero]
  · exact openSamples_insert_of_notMem hmem rfl

@[simp] theorem samplesLeft_caseDone (k : SampleCursor) :
    (caseDone plan k).samplesLeft env u = 0 :=
  caseDone_rule k (fun _ => rfl) fun _ _ => rfl

@[simp] theorem samplesLeft_sampleDone (k : SampleCursor) :
    (sampleDone env plan k).samplesLeft env u =
      if k.unit = u then env.samples k.case - k.sampleNo else 0 := by
  unfold sampleDone
  split_ifs with hmore hu hu
  · have hnext : ExamPc.samplesLeft env u (.call { k with sampleNo := k.sampleNo + 1 }) =
        env.samples k.case - (k.sampleNo + 1) + 1 := if_pos hu
    omega
  · exact if_neg hu
  · rw [samplesLeft_caseDone]
    omega
  · exact samplesLeft_caseDone k

@[simp] theorem samplesLeft_routeSample (k : SampleCursor) (id : ℕ) (text : String) :
    (routeSample env k id text).samplesLeft env u =
      if k.unit = u then env.samples k.case - k.sampleNo + 1 else 0 :=
  routeSample_rule k id text (fun _ => rfl) fun _ => rfl

/-- The samples of a unit are conserved as long as its case is opened once and the votes of a
sample are registered once. -/
theorem sampleLedger_law
    (hnew : ∀ k, .openCase k ∈ s.exam → k.unit = u → u ∉ s.mem.pipe.aggs ∧ k.sampleNo = 1)
    (hfresh : ∀ k id, .enqueue k id ∈ s.exam → k.unit = u → k.sample ∉ s.mem.pipe.votes) :
    (sampleLedger env u).Law (· = ·) env plan s where
  main pc st m pc' _ h := by
    cases h with
    | marked | markedLast =>
      simp only [sampleLedger, openSamples_of_votes_eq (Pipeline.markCellsDone_votes _ _),
        samplesOwed_of_aggs_eq (Pipeline.markCellsDone_aggs _ _)]
    | _ => rfl
  exam pc st m pc' hpc h hok := by
    cases h with
    | opened k =>
      have hcall : (ExamPc.call k).samplesLeft env u =
        if k.unit = u then env.samples k.case - k.sampleNo + 1 else 0 := rfl
      have hopen : (ExamPc.openCase k).samplesLeft env u = 0 := rfl
      -- the new aggregate waits for all samples of the case
      have howed := samplesOwed_openCase k.inCell.modelId k.profile (env.samples k.case)
        fun hu => (hnew k hpc hu).1
      simp only [sampleLedger, hcall, hopen, howed, openSamples_openCase]
      split_ifs with hu
      · obtain ⟨hnot, hfirst⟩ := hnew k hpc hu
        have hpos := env.samples_pos k.case
        rw [samplesOwed_of_notMem hnot]
        omega
      · rfl
    | recorded k id text latencyMs i o cost p hp =>
      have howed := samplesOwed_recordAnswer (u := u) hp
      simp only [sampleLedger, samplesLeft_routeSample, howed, openSamples_recordAnswer hp]
      rfl
    | settled k median p hp =>
      have howed := samplesOwed_settleSample (u := u) hp
      have hsettle : (ExamPc.settle k median).samplesLeft env u =
        if k.unit = u then env.samples k.case - k.sampleNo + 1 else 0 := rfl
      simp only [sampleLedger, samplesLeft_sampleDone, openSamples_settleSample hp, hsettle]
      split_ifs at howed ⊢ <;> omega
    | completed k median p agg hp =>
      have howed := samplesOwed_settleSample (u := u) hp
      have hsettle : (ExamPc.settle k median).samplesLeft env u =
        if k.unit = u then env.samples k.case - k.sampleNo + 1 else 0 := rfl
      have hwrite : (ExamPc.write k agg).samplesLeft env u =
        if k.unit = u then env.samples k.case - k.sampleNo else 0 := rfl
      simp only [sampleLedger, openSamples_settleSample hp, hsettle, hwrite]
      split_ifs at howed ⊢ <;> omega
    | wrote | offeredAll | dropped =>
      simp only [sampleLedger, samplesLeft_sampleDone]
      rfl
    | registered k id =>
      -- the sample goes from its exam worker to its jury
      have henqueue : (ExamPc.enqueue k id).samplesLeft env u =
        if k.unit = u then env.samples k.case - k.sampleNo + 1 else 0 := rfl
      have hoffer : (ExamPc.offer k (jobsOf k id)).samplesLeft env u =
        if k.unit = u then env.samples k.case - k.sampleNo else 0 := rfl
      have hsample : k.sample.unit = k.unit := rfl
      have howed : (s.mem.pipe.registerVotes k.sample k.judges.length).samplesOwed u =
        s.mem.pipe.samplesOwed u := rfl
      simp only [sampleLedger, henqueue, hoffer, howed]
      rw [openSamples_registerVotes fun hu => hfresh k id hpc hu, hsample]
      split_ifs <;> omega
    | reported cell answered | reportedLast cell answered =>
      obtain ⟨n, hpipe⟩ := reportCell_pipe plan (s.mem.endCell cell) cell.run.id answered
      simp only [sampleLedger, hpipe]
      rfl
    | marked | markedLast =>
      simp only [sampleLedger, openSamples_of_votes_eq (Pipeline.markCellsDone_votes _ _),
        samplesOwed_of_aggs_eq (Pipeline.markCellsDone_aggs _ _)]
      rfl
    | recordCrash | settleCrash => simp [Shared.panic] at hok
    | _ => rfl
  judge pc st m pc' hpc h hok := by
    cases h with
    | landed j score p hp =>
      rcases Pipeline.landVote_open hp with ⟨-, rfl⟩ | ⟨sv, hsv, -, heq⟩
      · rfl
      · have hmem : j.sample ∈ s.mem.pipe.votes := AList.lookup_isSome.mp (by simp [hsv])
        have hvotes := openSamples_insert_of_mem (u := u) hmem (congrArg Pipeline.votes heq)
        simp only [sampleLedger, hvotes, samplesOwed_of_aggs_eq (congrArg Pipeline.aggs heq)]
        rfl
    | votesIn j score p median hp =>
      -- the sample goes from its jury to the judge worker
      obtain ⟨sv, hsv, -, -, heq⟩ := Pipeline.landVote_complete hp
      have hmem : j.sample ∈ s.mem.pipe.votes := AList.lookup_isSome.mp (by simp [hsv])
      have hvotes := openSamples_erase (u := u) hmem (congrArg Pipeline.votes heq)
      have howed : p.samplesOwed u = s.mem.pipe.samplesOwed u :=
        samplesOwed_of_aggs_eq (by rw [heq])
      have hsample : j.sample.unit = j.unit := rfl
      simp only [sampleLedger, howed, JudgePc.settles, hsample] at hvotes ⊢
      omega
    | settled j median p hp | completed j median p agg hp =>
      have howed := samplesOwed_settleSample (u := u) hp
      simp only [sampleLedger, openSamples_settleSample hp, JudgePc.settles]
      split_ifs at howed ⊢ <;> omega
    | decremented j | decrementedLast j =>
      simp only [sampleLedger, openSamples_of_votes_eq (Pipeline.decrementPending_votes _ _),
        samplesOwed_of_aggs_eq (Pipeline.decrementPending_aggs _ _)]
      rfl
    | settleCrash => simp [Shared.panic] at hok
    | _ => rfl

/-- **Samples of a unit.** The aggregate of a unit that is planned at most once waits for the
samples with its exam worker, its juries and the judge workers. -/
theorem samplesOwed_of_reach (hplanned : plan.planned u ≤ 1)
    (h : Reached env plan s) (hok : s.mem.panicked = false) :
    s.mem.pipe.samplesOwed u =
      s.mem.pipe.openSamples u + (sampleLedger env u).held s.toExec := by
  have hvalue : (sampleLedger env u).value s = 0 := by
    refine Ledger.value_of_reach ?_ (fun t ht hlive _ => sampleLedger_law ?_ ?_) h hok
    · intro st
      rw [Ledger.value_start st rfl rfl]
      simp [sampleLedger, Plan.startMem, newPipeline, Pipeline.samplesOwed, Pipeline.openSamples]
    · intro k hpc hu
      exact ⟨notMem_aggs_of_openCase hplanned ht hlive hpc hu, ready_of_reach ht _ hpc⟩
    · exact fun k id hpc hu => notMem_votes_of_enqueue hplanned ht hlive hpc hu
  simp only [Ledger.value, sampleLedger] at hvalue ⊢
  omega

theorem mem_aggs_of_samplesOwed {p : Pipeline} (h : 0 < p.samplesOwed u) : u ∈ p.aggs := by
  by_contra hnot
  rw [samplesOwed_of_notMem hnot] at h
  omega

/-- The aggregate an exam worker folds an answer into or settles a sample of is there. -/
theorem mem_aggs_of_exam {pc : ExamPc} (hplanned : plan.planned u ≤ 1)
    (h : Reached env plan s) (hok : s.mem.panicked = false)
    (hpc : pc ∈ s.exam) (hleft : 0 < pc.samplesLeft env u) :
    u ∈ s.mem.pipe.aggs := by
  have howed := samplesOwed_of_reach hplanned h hok
  obtain ⟨i, hi⟩ := List.getElem?_of_mem hpc
  have hheld : pc.samplesLeft env u ≤ _ := Ledger.exam_le_held (L := sampleLedger env u) hi
  exact mem_aggs_of_samplesOwed (by omega)

/-- The aggregate a judge worker settles a sample of is there. -/
theorem mem_aggs_of_judge {j : JudgeJob} {median : Option ℚ} (hplanned : plan.planned j.unit ≤ 1)
    (h : Reached env plan s) (hok : s.mem.panicked = false) (hpc : .settle j median ∈ s.judge) :
    j.unit ∈ s.mem.pipe.aggs := by
  have howed := samplesOwed_of_reach hplanned h hok
  obtain ⟨i, hi⟩ := List.getElem?_of_mem hpc
  have hheld := Ledger.judge_le_held (L := sampleLedger env j.unit) hi
  have hone : (sampleLedger env j.unit).judge (.settle j median) = 1 := if_pos rfl
  exact mem_aggs_of_samplesOwed (by omega)

theorem MainStep.pipe_eq {examDone judgeDone : Bool} {pc pc' : MainPc}
    (h : MainStep plan st m examDone judgeDone pc st' m' pc') :
    m'.pipe.votes = m.pipe.votes ∧ m'.pipe.aggs = m.pipe.aggs := by
  cases h with
  | marked | markedLast =>
    exact ⟨Pipeline.markCellsDone_votes _ _, Pipeline.markCellsDone_aggs _ _⟩
  | _ => exact ⟨rfl, rfl⟩

theorem MainStep.panicked_eq {examDone judgeDone : Bool} {pc pc' : MainPc}
    (h : MainStep plan st m examDone judgeDone pc st' m' pc') : m'.panicked = m.panicked := by
  cases h <;> rfl

/-- **No missed aggregate.** An execution that plans no unit twice never records an answer
of, or settles a sample of, a unit that has no aggregate. -/
theorem panicked_of_reach (hplanned : ∀ u, plan.planned u ≤ 1)
    (h : Reached env plan s) :
    s.mem.panicked = false := by
  induction h with
  | start st => rfl
  | others st _ ih => exact ih
  | @step t v a hrun hstep ih =>
    obtain ⟨hlive, hcases⟩ := step_cases hstep
    cases hcases with
    | main hm => exact hm.panicked_eq.trans hlive
    | exam hi he =>
      have hpc := List.mem_of_getElem? hi
      cases he with
      -- the worker owes a sample, so its aggregate is there
      | recordCrash k id text latencyMs i o hnot =>
        refine absurd (mem_aggs_of_exam (hplanned k.unit) hrun hlive hpc ?_) hnot
        exact lt_of_lt_of_eq (Nat.succ_pos _) (if_pos rfl).symm
      | settleCrash k median hp =>
        have hnot := AList.lookup_eq_none.mp (Pipeline.settleSample_eq_none.mp hp)
        refine absurd (mem_aggs_of_exam (hplanned k.unit) hrun hlive hpc ?_) hnot
        exact lt_of_lt_of_eq (Nat.succ_pos _) (if_pos rfl).symm
      | reported cell answered | reportedLast cell answered =>
        unfold reportCell
        split_ifs <;> exact hlive
      | _ => exact hlive
    | judge hj he =>
      have hpc := List.mem_of_getElem? hj
      cases he with
      | settleCrash j median hp =>
        have hnot := AList.lookup_eq_none.mp (Pipeline.settleSample_eq_none.mp hp)
        exact absurd (mem_aggs_of_judge (hplanned j.unit) hrun hlive hpc) hnot
      | _ => exact hlive
    | _ => exact hlive

/-! ### What is left open at the end -/

theorem forall_lookup_insert {α β : Type} [DecidableEq α] {t : AList fun _ : α => β} {a : α}
    {b : β} {P : β → Prop} (h : ∀ k v, t.lookup k = some v → P v) (hb : P b) :
    ∀ k v, (t.insert a b).lookup k = some v → P v := by
  intro k v hk
  by_cases hka : k = a
  · subst hka
    rw [AList.lookup_insert] at hk
    exact Option.some.inj hk ▸ hb
  · rw [AList.lookup_insert_ne hka] at hk
    exact h k v hk

theorem forall_lookup_erase {α β : Type} [DecidableEq α] {t : AList fun _ : α => β} {a : α}
    {P : β → Prop} (h : ∀ k v, t.lookup k = some v → P v) :
    ∀ k v, (t.erase a).lookup k = some v → P v := by
  intro k v hk
  by_cases hka : k = a
  · subst hka
    rw [AList.lookup_erase] at hk
    cases hk
  · rw [AList.lookup_erase_ne hka] at hk
    exact h k v hk

/-- Open samples wait for votes and open cases for samples. -/
structure Waiting (p : Pipeline) : Prop where
  votes : ∀ κ sv, p.votes.lookup κ = some sv → sv.landed < sv.expected
  aggs : ∀ u agg, p.aggs.lookup u = some agg → agg.settledSamples < agg.expectedSamples

namespace Waiting

variable {p q : Pipeline} {v : UnitKey}

theorem of_eq (h : Waiting p) (hvotes : q.votes = p.votes) (haggs : q.aggs = p.aggs) :
    Waiting q := ⟨hvotes ▸ h.votes, haggs ▸ h.aggs⟩

theorem openCase (h : Waiting p) {modelId : String} {profile : VerdictProfile} {expected : ℕ}
    (hpos : 0 < expected) : Waiting (p.openCase v modelId profile expected) := by
  by_cases hmem : v ∈ p.aggs
  · rwa [Pipeline.openCase_of_mem hmem]
  · rw [Pipeline.openCase_of_notMem hmem]
    exact ⟨h.votes, forall_lookup_insert h.aggs hpos⟩

theorem recordAnswer (h : Waiting p) {latencyMs : ℕ} {i o : Option ℕ} {text : String}
    (hq : p.recordAnswer v latencyMs i o text = some q) : Waiting q := by
  obtain ⟨agg, agg', hagg, rfl, hexpected, hsettled⟩ := Pipeline.recordAnswer_spec hq
  refine ⟨h.votes, forall_lookup_insert h.aggs ?_⟩
  rw [hexpected, hsettled]
  exact h.aggs v agg hagg

theorem settleSample (h : Waiting p) {median : Option ℚ} {done : Option CaseAggregate}
    (hq : p.settleSample v median = some (q, done)) : Waiting q := by
  cases done with
  | none =>
    obtain ⟨agg, hagg, hmore, rfl⟩ := Pipeline.settleSample_open hq
    refine ⟨h.votes, forall_lookup_insert h.aggs ?_⟩
    have hlt := h.aggs v agg hagg
    rw [CaseAggregate.settle_settledSamples, CaseAggregate.settle_expectedSamples]
    omega
  | some done =>
    obtain ⟨agg, -, -, -, rfl⟩ := Pipeline.settleSample_complete hq
    exact ⟨h.votes, forall_lookup_erase h.aggs⟩

theorem registerVotes (h : Waiting p) {κ : SampleKey} {judges : ℕ} (hpos : 0 < judges) :
    Waiting (p.registerVotes κ judges) :=
  ⟨forall_lookup_insert h.votes hpos, h.aggs⟩

theorem landVote (h : Waiting p) {j : JudgeJob} {score : Option ℚ}
    {median : Option (Option ℚ)} (hq : p.landVote j score = (q, median)) : Waiting q := by
  cases median with
  | none =>
    rcases Pipeline.landVote_open hq with ⟨-, rfl⟩ | ⟨sv, hsv, hmore, rfl⟩
    · exact h
    · refine ⟨forall_lookup_insert h.votes ?_, h.aggs⟩
      have hlt := h.votes _ sv hsv
      dsimp only
      omega
  | some median =>
    obtain ⟨sv, -, -, -, rfl⟩ := Pipeline.landVote_complete hq
    exact ⟨forall_lookup_erase h.votes, h.aggs⟩

end Waiting

theorem waiting_of_reach (h : Reached env plan s) :
    Waiting s.mem.pipe := by
  induction h with
  | start st =>
    refine ⟨?_, ?_⟩
    · intro κ sv hsv
      cases hsv
    · intro u agg hagg
      cases hagg
  | others st _ ih => exact ih
  | @step t v a hrun hstep ih =>
    obtain ⟨-, hcases⟩ := step_cases hstep
    cases hcases with
    | main hm =>
      obtain ⟨hvotes, haggs⟩ := hm.pipe_eq
      exact ih.of_eq hvotes haggs
    | exam hi he =>
      -- an answer is registered with the jury that is to vote on it, which is not empty
      have hready := ready_of_reach hrun _ (List.mem_of_getElem? hi)
      cases he with
      | opened k => exact ih.openCase (env.samples_pos _)
      | recorded k id text latencyMs i o cost p hp =>
        exact (ih.of_eq (q := t.mem.pipe.recordExamCost k.unit.runId cost) rfl rfl).recordAnswer hp
      | settled k median p hp | completed k median p agg hp => exact ih.settleSample hp
      | registered k id => exact ih.registerVotes (List.length_pos_of_ne_nil hready)
      | reported cell answered | reportedLast cell answered =>
        obtain ⟨n, hpipe⟩ := reportCell_pipe plan (t.mem.endCell cell) cell.run.id answered
        exact ih.of_eq (by rw [hpipe]; rfl) (by rw [hpipe]; rfl)
      | marked | markedLast =>
        exact ih.of_eq (Pipeline.markCellsDone_votes _ _) (Pipeline.markCellsDone_aggs _ _)
      | _ => exact ih.of_eq rfl rfl
    | judge hj he =>
      cases he with
      | landed j score p hp | votesIn j score p median hp => exact ih.landVote hp
      | settled j median p hp | completed j median p agg hp => exact ih.settleSample hp
      | decremented j | decrementedLast j =>
        exact ih.of_eq (Pipeline.decrementPending_votes _ _) (Pipeline.decrementPending_aggs _ _)
      | _ => exact ih.of_eq rfl rfl
    | _ => exact ih

/-- An execution that returned has no worker left. -/
theorem held_of_returned (L : Ledger) (hexam : L.exam .exited = 0) (hjudge : L.judge .exited = 0)
    (hmain : L.main .returned = 0)
    (h : Reached env plan s)
    (hreturned : s.main = .returned) : L.held s.toExec = 0 := by
  obtain ⟨hworkers, hjudges⟩ := (control_of_reach h).no_worker (by rw [hreturned]; rfl)
  have hexams : Pool.total L.exam s.exam = 0 := by
    rw [Pool.total_eq_zero_iff]
    intro pc hpc
    rw [hworkers pc hpc, hexam]
  have hjudging : Pool.total L.judge s.judge = 0 := by
    rw [Pool.total_eq_zero_iff]
    intro pc hpc
    rw [hjudges pc hpc, hjudge]
  rw [Ledger.held, hreturned, hmain, hexams, hjudging]

/-- **What is left open.** When an execution returned, a case it took up is still open just
when some vote of it was dropped. -/
theorem mem_aggs_iff_of_returned (hplanned : plan.planned u ≤ 1)
    (h : Reached env plan s) (hok : s.mem.panicked = false) (hreturned : s.main = .returned) :
    u ∈ s.mem.pipe.aggs ↔ ∃ j ∈ s.mem.hist.dropped, j.unit = u := by
  have hsamples := samplesOwed_of_reach hplanned h hok
  rw [held_of_returned _ rfl rfl rfl h hreturned] at hsamples
  have hvotes : ∀ κ : SampleKey, κ.unit = u →
      s.mem.pipe.votesOwed κ = s.mem.hist.dropped.countP (·.sample = κ) := by
    rintro κ rfl
    have howed := votesOwed_of_reach hplanned h hok
    rw [held_of_returned _ rfl rfl rfl h hreturned] at howed
    omega
  have hwaiting := waiting_of_reach h
  constructor
  · intro hmem
    obtain ⟨agg, hagg⟩ := Option.isSome_iff_exists.mp (AList.lookup_isSome.mpr hmem)
    -- the aggregate waits for a sample, the sample for a vote, and a vote that never came was
    -- dropped
    have hlt := hwaiting.aggs u agg hagg
    rw [samplesOwed_of_lookup hagg] at hsamples
    have hopen : 0 < s.mem.pipe.openSamples u := by omega
    obtain ⟨κ, hκ, hunit⟩ := List.countP_pos_iff.mp hopen
    have hunit : κ.unit = u := by simpa using hunit
    obtain ⟨sv, hsv⟩ := Option.isSome_iff_exists.mp (AList.lookup_isSome.mpr hκ)
    have hlt := hwaiting.votes κ sv hsv
    have howed := hvotes κ hunit
    rw [votesOwed_of_lookup hsv] at howed
    have hdropped : 0 < s.mem.hist.dropped.countP (·.sample = κ) := by omega
    obtain ⟨j, hj, hsample⟩ := List.countP_pos_iff.mp hdropped
    have hsample : j.sample = κ := by simpa using hsample
    exact ⟨j, hj, (congrArg SampleKey.unit hsample).trans hunit⟩
  · rintro ⟨j, hj, hunit⟩
    have howed := hvotes j.sample hunit
    have hdropped : 0 < s.mem.hist.dropped.countP (·.sample = j.sample) :=
      List.countP_pos_iff.mpr ⟨j, hj, by simp⟩
    have hopen : j.sample ∈ s.mem.pipe.votes := by
      by_contra hnot
      rw [votesOwed_of_notMem hnot] at howed
      omega
    have hpos : 0 < s.mem.pipe.openSamples u :=
      List.countP_pos_iff.mpr ⟨j.sample, AList.mem_keys.mp hopen, decide_eq_true hunit⟩
    exact mem_aggs_of_samplesOwed (by omega)

end HubScope
