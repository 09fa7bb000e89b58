import HubScope.Evaluator.Scoring

/-!
# Every order of the calls of a case gives one row

Each step of a run keeps the scripted invariant: a step of another unit leaves everything it
speaks of alone, a step of the case's exam worker moves one sample on, and a step of a judge
worker moves one vote. When the execution returns with no vote of the case dropped, nothing of
it is on its way, so its row is written, once.

## Main results

* `scripted_exam`, `scripted_judge`, `scripted_handJob` — the steps at the unit
* `scripted_of_reach` — the invariant over every run
* `unitRows_of_returned` — the rows of the case when the execution returns
-/

set_option autoImplicit false

namespace HubScope

variable {env : Env} {plan : Plan} {st st' : Store} {m m' : Shared} {s s' : State} {u : UnitKey}
  {k₁ k : SampleCursor} {σ : Script} {rows : List EvalResult}

/-! ### The last sample -/

/-- When all samples but one have settled, the one that is owed is the last: the settled ones
and it are all samples of the case, and no other is owed. -/
theorem last_sample {settled : List ℕ} {N i : ℕ} {w : ℕ → ℤ}
    (hcount : ∀ n, (settled.count n : ℤ) + w n = ((List.range' 1 N).count n : ℕ))
    (hnonneg : ∀ n, 0 ≤ w n) (hone : 1 ≤ w i) (hlength : settled.length + 1 = N) :
    (settled ++ [i]).Perm (List.range' 1 N) ∧ ∀ n, w n = if n = i then 1 else 0 := by
  have hle : ∀ n, (settled ++ [i]).count n ≤ (List.range' 1 N).count n := by
    intro n
    have hn := hcount n
    have hpos := hnonneg n
    rw [List.count_append, List.count_singleton]
    by_cases hni : n = i
    · subst hni
      rw [if_pos (beq_self_eq_true n)]
      omega
    · rw [if_neg (by simpa using Ne.symm hni)]
      omega
  have hperm : (settled ++ [i]).Perm (List.range' 1 N) := by
    apply List.Subperm.perm_of_length_le
    · exact List.subperm_ext_iff.mpr fun n _ => hle n
    · rw [List.length_range', List.length_append, List.length_singleton, hlength]
  refine ⟨hperm, fun n => ?_⟩
  have hn := hcount n
  have heq := hperm.count_eq n
  rw [List.count_append, List.count_singleton] at heq
  by_cases hni : n = i
  · subst hni
    rw [if_pos (beq_self_eq_true n)] at heq
    rw [if_pos rfl]
    omega
  · rw [if_neg (by simpa using Ne.symm hni)] at heq
    rw [if_neg hni]
    omega

theorem turn_nonneg (s : State) (κ : SampleKey) : 0 ≤ (turnLedger env κ).value s := by
  have hmem : 0 ≤ (turnLedger env κ).mem s.mem := by
    change (0 : ℤ) ≤ if κ ∈ s.mem.pipe.votes then 1 else 0
    split_ifs <;> decide
  simp only [Ledger.value]
  omega

/-- The samples of an aggregate that settles its last one, and what it is written as. -/
theorem Accrued.complete {agg : CaseAggregate} (h : Accrued env k₁ σ s agg) {i : ℕ}
    (hone : 1 ≤ (turnLedger env ⟨k₁.unit, i⟩).value s)
    (hlast : agg.settledSamples + 1 = agg.expectedSamples)
    (hpayload : (∀ n, (turnLedger env ⟨k₁.unit, n⟩).value s = if n = i then 1 else 0) →
      agg.payload = σ.payload (env.samples k₁.case)) :
    Completes env k₁ σ (agg.settle (σ.median env k₁ i)) := by
  obtain ⟨settled, htallied, hcount⟩ := h.samples
  have hlength : settled.length + 1 = env.samples k₁.case := by
    rw [← h.expected, ← hlast, htallied.settled, List.length_map]
  obtain ⟨hperm, hrest⟩ := last_sample hcount (fun n => turn_nonneg s _) hone hlength
  have hsettle := htallied.settle (σ.median env k₁ i)
  rw [← List.map_singleton, ← List.map_append] at hsettle
  refine ⟨caseResult_eq_scriptRow hperm hsettle ?_ ?_ ?_, _, hperm, hsettle⟩
  · rw [CaseAggregate.settle_modelId, h.modelId]
  · rw [CaseAggregate.settle_profile, h.profile]
  · rw [CaseAggregate.payload_settle, hpayload hrest]

theorem sample_ne_of_unit_ne {jobs : List JudgeJob} (h : ∀ j ∈ jobs, j.unit ≠ u) (n : ℕ) :
    ∀ j ∈ jobs, j.sample ≠ ⟨u, n⟩ :=
  fun j hj heq => h j hj (congrArg SampleKey.unit heq)

/-! ### The exam worker of the case -/

section

variable {i : ℕ} {pc pc' : ExamPc}

/-- A step of the case's exam worker. -/
theorem Scripted.of_exam (hs : Scripted env k₁ σ rows s)
    (honly : ∀ pc₀ ∈ s.exam.set i pc', pc₀.unit? = some k₁.unit → pc₀ = pc')
    (hpc' : pc'.unit? = some k₁.unit → pc'.Scripted env k₁ σ)
    (hvotes : ∀ n sv, m'.pipe.votes.lookup ⟨k₁.unit, n⟩ = some sv →
      sv.Scripted k₁ σ { s.toExec with mem := m', exam := s.exam.set i pc' }
        (σ.median env k₁ n) n)
    (hagg : ∀ agg, m'.pipe.aggs.lookup k₁.unit = some agg →
      Accrued env k₁ σ { s with store := st', mem := m', exam := s.exam.set i pc' } agg)
    (hrows : st'.unitRows k₁.unit =
      rows ++ List.replicate (m'.hist.written.count k₁.unit) (scriptRow env k₁ σ)) :
    Scripted env k₁ σ rows { s with store := st', mem := m', exam := s.exam.set i pc' } where
  exam pc₀ hpc₀ hu := by
    obtain rfl := honly pc₀ hpc₀ hu
    exact hpc' hu
  judge := hs.judge
  votes := hvotes
  agg := hagg
  rows := hrows

theorem Scripted.votes_of_eq (hs : Scripted env k₁ σ rows s) {e : Exec}
    (hvotes : e.mem.pipe.votes = s.mem.pipe.votes)
    (hout : ∀ n slot, Outstanding ⟨k₁.unit, n⟩ slot s.toExec → Outstanding ⟨k₁.unit, n⟩ slot e)
    (n : ℕ) (sv : SampleVotes) (hsv : e.mem.pipe.votes.lookup ⟨k₁.unit, n⟩ = some sv) :
    sv.Scripted k₁ σ e (σ.median env k₁ n) n := by
  rw [hvotes] at hsv
  have hold := hs.votes n sv hsv
  exact ⟨hold.size, hold.median, fun slot hslot => (hold.slots slot hslot).imp_right (hout n slot)⟩

/-- A step in which the worker moves on with the sample it is at, or from a sample that it
settled or sent out. -/
theorem Scripted.move (hs : Scripted env k₁ σ rows s) (hi : s.exam[i]? = some pc)
    (hu : pc.unit? = some k₁.unit)
    (honly : ∀ pc₀ ∈ s.exam.set i pc', pc₀.unit? = some k₁.unit → pc₀ = pc')
    (hout : ∀ n slot, Outstanding ⟨k₁.unit, n⟩ slot s.toExec →
      Outstanding ⟨k₁.unit, n⟩ slot { s.toExec with mem := m', exam := s.exam.set i pc' })
    (haggs : m'.pipe.aggs = s.mem.pipe.aggs) (hvotes : m'.pipe.votes = s.mem.pipe.votes)
    (hrows : st'.unitRows k₁.unit = s.store.unitRows k₁.unit)
    (hwritten : m'.hist.written = s.mem.hist.written)
    (hpc' : pc'.unit? = some k₁.unit → pc'.Scripted env k₁ σ)
    (howes : ∀ n, pc'.owes env ⟨k₁.unit, n⟩ = pc.owes env ⟨k₁.unit, n⟩)
    (hhere : pc'.unit? = some k₁.unit → σ.payload pc'.answeredTo = σ.payload pc.answeredTo)
    (hpast : pc'.unit? ≠ some k₁.unit →
      σ.payload (env.samples k₁.case) = σ.payload pc.answeredTo) :
    Scripted env k₁ σ rows { s with store := st', mem := m', exam := s.exam.set i pc' } := by
  refine hs.of_exam honly hpc' (hs.votes_of_eq hvotes hout) (fun agg hagg => ?_) ?_
  · rw [haggs] at hagg
    have hold := hs.agg agg hagg
    -- the payload so far is what the worker at hand has put into it
    have hpayload := hold.here pc (List.mem_of_getElem? hi) hu
    apply hold.exam_set hi honly rfl rfl rfl
    · intro settled htallied
      refine ⟨settled, htallied, fun n => ?_⟩
      have hmem : (turnLedger env ⟨k₁.unit, n⟩).mem m' =
          (turnLedger env ⟨k₁.unit, n⟩).mem s.mem := by
        simp only [turnLedger, hvotes]
      rw [hmem, howes]
    · exact fun hu' => hpayload.trans (hhere hu').symm
    · exact fun hu' => hpayload.trans (hpast hu').symm
  · rw [hrows, hwritten, hs.rows]

/-- The case is opened. -/
theorem scripted_opened (hplanned : plan.planned k₁.unit ≤ 1) (h : Reached env plan s)
    (hok : s.mem.panicked = false) (hs : Scripted env k₁ σ rows s)
    (hi : s.exam[i]? = some (.openCase k)) (hk : k₁.InCase env k) (hfirst : k.sampleNo = 1)
    (honly : ∀ pc₀ ∈ s.exam.set i (.call k), pc₀.unit? = some k₁.unit → pc₀ = .call k)
    (hout : ∀ n slot, Outstanding ⟨k₁.unit, n⟩ slot s.toExec →
      Outstanding ⟨k₁.unit, n⟩ slot { s.toExec with exam := s.exam.set i (.call k) }) :
    Scripted env k₁ σ rows { s with
      mem := { s.mem with
        pipe := s.mem.pipe.openCase k.unit k.inCell.modelId k.profile (env.samples k.case) }
      exam := s.exam.set i (.call k) } := by
  have hnot := notMem_aggs_of_openCase hplanned h hok (List.mem_of_getElem? hi) hk.unit
  rw [hk.unit, Pipeline.openCase_of_notMem hnot]
  refine hs.of_exam honly (fun _ => hk)
    (hs.votes_of_eq (e := ⟨_, s.exam.set i (.call k), s.judge, s.main⟩) rfl hout)
    (fun agg hagg => ?_) hs.rows
  rw [AList.lookup_insert] at hagg
  cases hagg
  refine ⟨hk.modelId, hk.profile, by rw [hk.same], ⟨[], ⟨rfl, rfl, rfl⟩, fun n => ?_⟩, ?_, ?_⟩
  · -- nothing of the case was anywhere, and now its worker owes every sample
    have hvalue := (turnLedger env ⟨k₁.unit, n⟩).value_exam hi s.store
      { s.mem with pipe := { s.mem.pipe with
          aggs := s.mem.pipe.aggs.insert k₁.unit
            ⟨k.inCell.modelId, k.profile, env.samples k.case, 0, [], 0, 0, none, none, none⟩ } }
      (.call k)
    have hzero := turn_eq_zero env hplanned h hok hnot n
    have howes : (ExamPc.call k).owes env ⟨k₁.unit, n⟩ = (Script.sampleNos env k₁).count n := by
      rw [Script.count_sampleNos]
      change SampleCursor.owes env k ⟨k₁.unit, n⟩ k.sampleNo = _
      rw [SampleCursor.owes, hfirst, hk.same]
      congr 1
      ext
      exact ⟨fun h => h.2, fun h => ⟨hk.unit, h⟩⟩
    change _ + ((turnLedger env ⟨k₁.unit, n⟩).mem s.mem + ((0 : ℕ) : ℤ)) =
      _ + ((turnLedger env ⟨k₁.unit, n⟩).mem s.mem +
        (((ExamPc.call k).owes env ⟨k₁.unit, n⟩ : ℕ) : ℤ)) at hvalue
    rw [hzero] at hvalue
    rw [← howes]
    have hcancel : ∀ v c d : ℤ, v + (c + 0) = 0 + (c + d) → 0 + v = d := by
      intro v c d heq
      omega
    exact hcancel _ _ _ hvalue
  · intro pc₀ hpc₀ hu
    obtain rfl := honly pc₀ hpc₀ hu
    change Payload.empty = σ.payload (k.sampleNo - 1)
    rw [hfirst]
    rfl
  · intro hnone
    have hlt : i < s.exam.length := (List.getElem?_eq_some_iff.mp hi).1
    exact absurd (congrArg some hk.unit) (hnone (.call k) (List.mem_set hlt _))

/-- Where a recorded answer goes is what the script says. -/
theorem scripted_routeSample {text : String} {latencyMs : ℕ} {i o : Option ℕ} (id : ℕ)
    (hk : k₁.InCase env k) (ho : .answered text latencyMs i o = σ.answer k.sampleNo) :
    (routeSample env k id text).Scripted env k₁ σ ∧
      (routeSample env k id text).answeredTo = k.sampleNo := by
  unfold routeSample
  rw [hk.same, hk.judges, hk.profile]
  cases htype : k₁.case.verdictType with
  | rule =>
    refine ⟨⟨hk, ?_⟩, rfl⟩
    simp only [Script.median, ← ho, htype]
  | judge =>
    have hmedian : σ.median env k₁ k.sampleNo =
        medianOfVotes ((List.range k₁.judges.length).map (σ.vote k.sampleNo)) := by
      simp only [Script.median, ← ho, htype]
    by_cases hnil : k₁.judges = []
    · simp only [hnil, if_true]
      refine ⟨⟨hk, ?_⟩, rfl⟩
      rw [hmedian, hnil]
      rfl
    · simp only [hnil, if_false]
      exact ⟨⟨hk, hmedian⟩, rfl⟩

/-- An answer is recorded. -/
theorem scripted_recorded (hs : Scripted env k₁ σ rows s) {id : ℕ} {text : String}
    {latencyMs : ℕ} {i' o : Option ℕ} {cost : Option ℚ} {p : Pipeline}
    (hi : s.exam[i]? = some (.record k (.answered text latencyMs i' o) id))
    (hp : (s.mem.pipe.recordExamCost k.unit.runId cost).recordAnswer k.unit latencyMs i' o text =
      some p)
    (hpc' : pc' = routeSample env { k with answered := true } id text)
    (honly : ∀ pc₀ ∈ s.exam.set i pc', pc₀.unit? = some k₁.unit → pc₀ = pc')
    (hk : k₁.InCase env k) (ho : .answered text latencyMs i' o = σ.answer k.sampleNo)
    (hout : ∀ n slot, Outstanding ⟨k₁.unit, n⟩ slot s.toExec →
      Outstanding ⟨k₁.unit, n⟩ slot
        { s.toExec with mem := { s.mem with pipe := p }, exam := s.exam.set i pc' }) :
    Scripted env k₁ σ rows
      { s with mem := { s.mem with pipe := p }, exam := s.exam.set i pc' } := by
  have hk' : k₁.InCase env { k with answered := true } :=
    ⟨hk.cell, hk.modelId, hk.same, hk.pos, hk.le⟩
  obtain ⟨hscripted, hanswered⟩ := scripted_routeSample id hk' ho
  rw [← hpc'] at hscripted hanswered
  have hunit : pc'.unit? = some k₁.unit := by
    rw [hpc', unit?_routeSample]
    exact congrArg some hk.unit
  obtain ⟨agg, agg', hagg, rfl, hpayload, hmodel, hprofile, hexpected, htally⟩ :=
    recordAnswer_payload hp
  rw [hk.unit] at hagg
  refine hs.of_exam honly (fun _ => hscripted)
    (hs.votes_of_eq (e := ⟨_, s.exam.set i pc', s.judge, s.main⟩) rfl hout)
    (fun a ha => ?_) hs.rows
  rw [hk.unit, AList.lookup_insert] at ha
  cases ha
  have hold := hs.agg agg hagg
  have hbefore := hold.here _ (List.mem_of_getElem? hi) (congrArg some hk.unit)
  -- one more answer of the script, on top of those before
  have hafter : agg'.payload = σ.payload k.sampleNo := by
    rw [hpayload, hbefore, Script.payload_eq hk.pos, ← ho]
    rfl
  apply hold.exam_set hi honly hmodel hprofile hexpected
  · intro settled htallied
    refine ⟨settled, htally _ htallied, fun n => ?_⟩
    have howes := owes_routeSample env k id text ⟨k₁.unit, n⟩
    rw [hpc', howes]
    rfl
  · intro _
    rw [hafter, hanswered]
  · exact fun hne => absurd hunit hne

/-- The worker owes the sample it settles. -/
theorem one_le_turn_of_exam (hi : s.exam[i]? = some pc) {n : ℕ}
    (howes : pc.owes env ⟨u, n⟩ = 1) : 1 ≤ (turnLedger env ⟨u, n⟩).value s := by
  have hheld := Ledger.exam_le_held (L := turnLedger env ⟨u, n⟩) hi
  have hone : (turnLedger env ⟨u, n⟩).exam pc = 1 := howes
  have hmem : 0 ≤ (turnLedger env ⟨u, n⟩).mem s.mem := by
    change (0 : ℤ) ≤ if ⟨u, n⟩ ∈ s.mem.pipe.votes then 1 else 0
    split_ifs <;> decide
  simp only [Ledger.value]
  omega

/-- A sample that is not the case's last is settled. -/
theorem scripted_settled (hs : Scripted env k₁ σ rows s) {median : Option ℚ} {p : Pipeline}
    (hi : s.exam[i]? = some (.settle k median))
    (hp : s.mem.pipe.settleSample k.unit median = some (p, none))
    (hpc' : pc' = sampleDone env plan k)
    (honly : ∀ pc₀ ∈ s.exam.set i pc', pc₀.unit? = some k₁.unit → pc₀ = pc')
    (hk : k₁.InCase env k) (hmedian : median = σ.median env k₁ k.sampleNo)
    (hout : ∀ n slot, Outstanding ⟨k₁.unit, n⟩ slot s.toExec →
      Outstanding ⟨k₁.unit, n⟩ slot
        { s.toExec with mem := { s.mem with pipe := p }, exam := s.exam.set i pc' }) :
    Scripted env k₁ σ rows
      { s with mem := { s.mem with pipe := p }, exam := s.exam.set i pc' } := by
  obtain ⟨hhere, hpast⟩ := scripted_sampleDone plan σ hk
  rw [← hpc'] at hhere hpast
  obtain ⟨agg, hagg, -, rfl⟩ := Pipeline.settleSample_open hp
  rw [hk.unit] at hagg
  refine hs.of_exam honly (fun hu => (hhere hu).1)
    (hs.votes_of_eq (e := ⟨_, s.exam.set i pc', s.judge, s.main⟩) rfl hout)
    (fun a ha => ?_) hs.rows
  rw [hk.unit, AList.lookup_insert] at ha
  cases ha
  have hold := hs.agg agg hagg
  have hbefore : agg.payload = σ.payload k.sampleNo :=
    hold.here _ (List.mem_of_getElem? hi) (congrArg some hk.unit)
  apply hold.exam_set hi honly (agg.settle_modelId _) (agg.settle_profile _)
    (agg.settle_expectedSamples _)
  · intro settled htallied
    refine ⟨settled ++ [k.sampleNo], ?_, fun n => ?_⟩
    · rw [List.map_append, List.map_singleton, ← hmedian]
      exact htallied.settle median
    · -- the sample goes from its worker to the settled ones
      have howes := owes_succ env k ⟨k₁.unit, n⟩ (by rw [hk.same]; exact hk.le)
      have hdone := owes_sampleDone env plan k ⟨k₁.unit, n⟩
      have hsample : (if k.sample = ⟨k₁.unit, n⟩ then 1 else 0) = [k.sampleNo].count n := by
        rw [hk.sample, List.count_singleton]
        simp
      have hsettle : (ExamPc.settle k median).owes env ⟨k₁.unit, n⟩ =
        k.owes env ⟨k₁.unit, n⟩ k.sampleNo := rfl
      have hmem : (turnLedger env ⟨k₁.unit, n⟩).mem { s.mem with pipe := { s.mem.pipe with
          aggs := s.mem.pipe.aggs.insert k.unit (agg.settle median) } } =
            (turnLedger env ⟨k₁.unit, n⟩).mem s.mem := rfl
      rw [hpc', hdone, hmem, hsettle, howes, hsample, List.count_append]
      omega
  · intro hu
    rw [CaseAggregate.payload_settle, hbefore, (hhere hu).2]
  · intro hu
    rw [CaseAggregate.payload_settle, hbefore, hpast hu]

/-- The case's last sample is settled. -/
theorem scripted_completed (hs : Scripted env k₁ σ rows s) {median : Option ℚ} {p : Pipeline}
    {done : CaseAggregate} (hi : s.exam[i]? = some (.settle k median))
    (hp : s.mem.pipe.settleSample k.unit median = some (p, some done))
    (honly : ∀ pc₀ ∈ s.exam.set i (.write k done), pc₀.unit? = some k₁.unit →
      pc₀ = .write k done)
    (hk : k₁.InCase env k) (hmedian : median = σ.median env k₁ k.sampleNo)
    (hout : ∀ n slot, Outstanding ⟨k₁.unit, n⟩ slot s.toExec →
      Outstanding ⟨k₁.unit, n⟩ slot
        { s.toExec with mem := { s.mem with pipe := p }, exam := s.exam.set i (.write k done) }) :
    Scripted env k₁ σ rows
      { s with mem := { s.mem with pipe := p }, exam := s.exam.set i (.write k done) } := by
  obtain ⟨agg, hagg, hlast, rfl, rfl⟩ := Pipeline.settleSample_complete hp
  rw [hk.unit] at hagg
  have hold := hs.agg agg hagg
  have hbefore : agg.payload = σ.payload k.sampleNo :=
    hold.here _ (List.mem_of_getElem? hi) (congrArg some hk.unit)
  have howes : ∀ n, k.sampleNo ≤ n → n ≤ env.samples k₁.case →
      (ExamPc.settle k median).owes env ⟨k₁.unit, n⟩ = 1 := by
    intro n hlow hhigh
    exact if_pos ⟨hk.unit, hlow, by rw [hk.same]; exact hhigh⟩
  have hcompletes : Completes env k₁ σ (agg.settle median) := by
    rw [hmedian]
    apply hold.complete (one_le_turn_of_exam hi (howes _ le_rfl hk.le)) hlast
    intro hrest
    -- the worker owes the last sample of the case too, so it is at it
    have hfinal := one_le_turn_of_exam hi (howes _ hk.le le_rfl)
    rw [hrest] at hfinal
    split_ifs at hfinal with heq
    · rw [hbefore, heq]
    · omega
  refine hs.of_exam honly (fun _ => ⟨hk, hcompletes⟩)
    (hs.votes_of_eq (e := ⟨_, s.exam.set i (.write k (agg.settle median)), s.judge, s.main⟩)
      rfl hout) (fun a ha => ?_) hs.rows
  rw [hk.unit, AList.lookup_erase] at ha
  cases ha

/-- A unit whose row is being written has no aggregate. -/
theorem notMem_aggs_of_held (hplanned : plan.planned u ≤ 1) (h : Reached env plan s)
    (hok : s.mem.panicked = false) (hheld : 0 < (flightLedger u).held s.toExec) :
    u ∉ s.mem.pipe.aggs := by
  intro hmem
  have hflight := flight_of_reach hplanned h hok
  have htodo := todo_of_reach u h hok
  have hopened : s.mem.pipe.opened u = 1 := if_pos hmem
  simp only [inFlight] at hflight
  omega

/-- The case's row is written by its exam worker. -/
theorem scripted_wrote (hplanned : plan.planned k₁.unit ≤ 1) (h : Reached env plan s)
    (hok : s.mem.panicked = false) (hs : Scripted env k₁ σ rows s) {agg : CaseAggregate}
    (hi : s.exam[i]? = some (.write k agg)) (hpc' : pc' = sampleDone env plan k)
    (honly : ∀ pc₀ ∈ s.exam.set i pc', pc₀.unit? = some k₁.unit → pc₀ = pc')
    (hk : k₁.InCase env k) (hrow : caseResult k₁.unit agg = scriptRow env k₁ σ)
    (hout : ∀ n slot, Outstanding ⟨k₁.unit, n⟩ slot s.toExec →
      Outstanding ⟨k₁.unit, n⟩ slot { s.toExec with exam := s.exam.set i pc' }) :
    Scripted env k₁ σ rows { s with
      store := s.store.createEvalResult (caseResult k.unit agg)
      mem := s.mem.writeUnits [k.unit]
      exam := s.exam.set i pc' } := by
  obtain ⟨hhere, -⟩ := scripted_sampleDone plan σ hk
  rw [← hpc'] at hhere
  -- the worker holds the unit in its row, so no aggregate does
  have hnot : k₁.unit ∉ s.mem.pipe.aggs := by
    apply notMem_aggs_of_held hplanned h hok
    have hheld := Ledger.exam_le_held (L := flightLedger k₁.unit) hi
    have hone : (flightLedger k₁.unit).exam (.write k agg) = 1 := if_pos hk.unit
    omega
  refine hs.of_exam honly (fun hu => (hhere hu).1)
    (hs.votes_of_eq (e := ⟨_, s.exam.set i pc', s.judge, s.main⟩) rfl hout)
    (fun a ha => ?_) ?_
  · have hsome := (AList.lookup_eq_none.mpr hnot).symm.trans ha
    cases hsome
  · rw [unitRows_createEvalResult, caseResult_unit, if_pos hk.unit, hk.unit, hrow, hs.rows,
      Shared.writeUnits, List.count_append, List.count_singleton, if_pos (beq_self_eq_true _),
      List.replicate_succ', List.append_assoc]

/-- A sample is sent to its jury. -/
theorem scripted_registered (hplanned : plan.planned k₁.unit ≤ 1) (h : Reached env plan s)
    (hok : s.mem.panicked = false) (hs : Scripted env k₁ σ rows s) {id : ℕ}
    (hi : s.exam[i]? = some (.enqueue k id))
    (hpc' : pc' = .offer k (jobsOf k id))
    (honly : ∀ pc₀ ∈ s.exam.set i pc', pc₀.unit? = some k₁.unit → pc₀ = pc')
    (hk : k₁.InCase env k)
    (hmedian : σ.median env k₁ k.sampleNo =
      medianOfVotes ((List.range k₁.judges.length).map (σ.vote k.sampleNo)))
    (hm' : m' = { s.mem.enqueueVotes (jobsOf k id) with
      pipe := s.mem.pipe.registerVotes k.sample k.judges.length })
    (hout : ∀ n slot, Outstanding ⟨k₁.unit, n⟩ slot s.toExec →
      Outstanding ⟨k₁.unit, n⟩ slot { s.toExec with mem := m', exam := s.exam.set i pc' }) :
    Scripted env k₁ σ rows { s with mem := m', exam := s.exam.set i pc' } := by
  have hfresh := notMem_votes_of_enqueue hplanned h hok (List.mem_of_getElem? hi) hk.unit
  have hlt : i < s.exam.length := (List.getElem?_eq_some_iff.mp hi).1
  have haggs : m'.pipe.aggs = s.mem.pipe.aggs := by rw [hm']; rfl
  have hvotes : m'.pipe.votes = s.mem.pipe.votes.insert ⟨k₁.unit, k.sampleNo⟩
      ⟨k₁.judges.length, 0, List.replicate k₁.judges.length none⟩ := by
    rw [hm', ← hk.sample, ← hk.judges]
    rfl
  have hwritten : m'.hist.written = s.mem.hist.written := by rw [hm']; rfl
  rw [hk.sample] at hfresh
  refine hs.of_exam honly (fun _ => by rw [hpc']; exact hk) (fun n sv hsv => ?_)
    (fun agg hagg => ?_) (by rw [hwritten]; exact hs.rows)
  · rw [hvotes] at hsv
    by_cases hn : n = k.sampleNo
    · subst hn
      rw [AList.lookup_insert] at hsv
      cases hsv
      refine ⟨List.length_replicate, hmedian, fun slot hslot => .inr ?_⟩
      -- each slot's vote is on offer now
      rw [← hk.judges] at hslot
      refine ⟨⟨k.unit, id, k.sampleNo, slot, k.judges[slot]⟩, hk.sample, rfl, .inl ⟨pc', ?_, ?_⟩⟩
      · exact List.mem_set hlt _
      · rw [hpc']
        apply List.mem_map.mpr
        refine ⟨(k.judges[slot], slot), ?_, rfl⟩
        exact List.mem_zipIdx_iff_getElem?.mpr (List.getElem?_eq_getElem hslot)
    · have hne : (⟨k₁.unit, n⟩ : SampleKey) ≠ ⟨k₁.unit, k.sampleNo⟩ := by
        simpa using hn
      rw [AList.lookup_insert_ne hne] at hsv
      have hold := hs.votes n sv hsv
      exact ⟨hold.size, hold.median,
        fun slot hslot => (hold.slots slot hslot).imp_right (hout n slot)⟩
  · rw [haggs] at hagg
    have hold := hs.agg agg hagg
    have hbefore := hold.here _ (List.mem_of_getElem? hi) (congrArg some hk.unit)
    apply hold.exam_set hi honly rfl rfl rfl
    · intro settled htallied
      refine ⟨settled, htallied, fun n => ?_⟩
      have howes := owes_succ env k ⟨k₁.unit, n⟩ (by rw [hk.same]; exact hk.le)
      have hmem : (turnLedger env ⟨k₁.unit, n⟩).mem m' =
          (turnLedger env ⟨k₁.unit, n⟩).mem s.mem +
            if k.sample = ⟨k₁.unit, n⟩ then 1 else 0 := by
        simp only [turnLedger, hvotes, AList.mem_insert, hk.sample]
        by_cases hn : n = k.sampleNo
        · subst hn
          simp [hfresh]
        · have hne : (⟨k₁.unit, n⟩ : SampleKey) ≠ ⟨k₁.unit, k.sampleNo⟩ := by
            simpa using hn
          simp [hne, Ne.symm hne]
      have hoffer : pc'.owes env ⟨k₁.unit, n⟩ = k.owes env ⟨k₁.unit, n⟩ (k.sampleNo + 1) := by
        rw [hpc']
        rfl
      have henqueue : (ExamPc.enqueue k id).owes env ⟨k₁.unit, n⟩ =
        k.owes env ⟨k₁.unit, n⟩ k.sampleNo := rfl
      rw [hoffer, henqueue, howes, hmem]
      split_ifs <;> omega
    · intro _
      rw [hpc']
      exact hbefore
    · intro hne
      rw [hpc'] at hne
      exact absurd (congrArg some hk.unit) hne

theorem turn_mem_of_beside (env : Env) (h : Beside u st m st' m') (n : ℕ) :
    (turnLedger env ⟨u, n⟩).mem m' = (turnLedger env ⟨u, n⟩).mem m := by
  have hmem := mem_iff_of_lookup_eq (h.votes n)
  simp only [turnLedger, hmem]

/-- A step of an exam worker. -/
theorem scripted_exam (hplanned : ∀ v, plan.planned v ≤ 1) (h : Reached env plan s)
    (hok : s.mem.panicked = false) (hkept : ∀ j ∈ m'.hist.dropped, j.unit ≠ k₁.unit)
    (hstarted : 0 < s.mem.hist.started.count k₁.unit) (hs : Scripted env k₁ σ rows s)
    (hi : s.exam[i]? = some pc) (he : ExamStep env plan s.store s.mem pc st' m' pc')
    (hcall : ∀ k o, pc = .call k → pc' = .persist k o → k.unit = k₁.unit →
      o = σ.answer k.sampleNo) (hok' : m'.panicked = false) :
    Scripted env k₁ σ rows { s with store := st', mem := m', exam := s.exam.set i pc' } := by
  have hlt : i < s.exam.length := (List.getElem?_eq_some_iff.mp hi).1
  have hpc := List.mem_of_getElem? hi
  have hout : ∀ n slot, Outstanding ⟨k₁.unit, n⟩ slot s.toExec →
      Outstanding ⟨k₁.unit, n⟩ slot { s.toExec with mem := m', exam := s.exam.set i pc' } := by
    intro n slot hold
    rcases outstanding_step (.exam (c := .go) hi he) (sample_ne_of_unit_ne hkept n) hold with
      hnew | ⟨_, _, _, -, -, -, c, hc⟩
    · exact hnew
    · cases hc
  by_cases hu : pc.unit? = some k₁.unit
  · have honly : ∀ pc₀ ∈ s.exam.set i pc', pc₀.unit? = some k₁.unit → pc₀ = pc' := by
      intro pc₀ hpc₀ hu₀
      obtain ⟨j, hj⟩ := List.getElem?_of_mem hpc₀
      by_cases hij : i = j
      · subst hij
        rw [List.getElem?_set_self hlt] at hj
        exact (Option.some.inj hj).symm
      · rw [List.getElem?_set_ne hij] at hj
        exact absurd (unit?_unique (hplanned _) h hok hi hj hu hu₀) hij
    have hscripted := hs.exam pc hpc hu
    cases he with
    | opened k => exact scripted_opened (hplanned _) h hok hs hi hscripted.1 hscripted.2 honly hout
    | called k o =>
      have ho := hcall k o rfl rfl hscripted.unit
      exact hs.move hi hu honly hout rfl rfl rfl rfl (fun _ => ⟨hscripted, ho⟩) (fun _ => rfl)
        (fun _ => rfl) (fun hne => absurd hu hne)
    | persisted k o =>
      exact hs.move hi hu honly hout rfl rfl rfl rfl (fun _ => hscripted) (fun _ => rfl)
        (fun _ => rfl) (fun hne => absurd hu hne)
    | unanswered k id latencyMs i' o =>
      obtain ⟨hk, ho⟩ := hscripted
      refine hs.move hi hu honly hout rfl rfl rfl rfl (fun _ => ⟨hk, ?_⟩) (fun _ => rfl)
        (fun _ => ?_) (fun hne => absurd hu hne)
      · rw [Script.median, ← ho]
      · change σ.payload k.sampleNo = σ.payload (k.sampleNo - 1)
        rw [Script.payload_eq hk.pos, ← ho]
        rfl
    | recorded k id text latencyMs i' o cost p hp =>
      exact scripted_recorded hs hi hp rfl honly hscripted.1 hscripted.2 hout
    | settled k median p hp =>
      exact scripted_settled hs hi hp rfl honly hscripted.1 hscripted.2 hout
    | completed k median p agg hp =>
      exact scripted_completed hs hi hp honly hscripted.1 hscripted.2 hout
    | wrote k agg =>
      exact scripted_wrote (hplanned _) h hok hs hi rfl honly hscripted.1 hscripted.2.row hout
    | registered k id =>
      exact scripted_registered (hplanned _) h hok hs hi rfl honly hscripted.1 hscripted.2 rfl hout
    | offeredAll k | dropped k =>
      obtain ⟨hhere, hpast⟩ := scripted_sampleDone plan σ hscripted
      apply hs.move hi hu honly hout rfl rfl rfl rfl (fun hu' => (hhere hu').1)
      · exact fun n => owes_sampleDone env plan k _
      · intro hu'
        rw [(hhere hu').2]
        rfl
      · intro hne
        rw [← hpast hne]
        rfl
    | noted k jobs n =>
      exact hs.move hi hu honly hout rfl rfl rfl rfl (fun _ => hscripted) (fun _ => rfl)
        (fun _ => rfl) (fun hne => absurd hu hne)
    | recordCrash | settleCrash => simp [Shared.panic] at hok'
    | _ => cases hu
  · -- the step is beside the unit
    have htodo := notMem_todo_of_started (hplanned _) h hok hstarted hpc
    obtain ⟨hbeside, hu'⟩ := he.beside hu htodo
    apply hs.quiet hbeside
    · intro pc₀ hu₀
      constructor
      · intro hpc₀
        rcases List.mem_or_eq_of_mem_set hpc₀ with hold | rfl
        · exact hold
        · exact absurd hu₀ hu'
      · intro hpc₀
        apply Pool.mem_set_of_ne hpc₀ hi
        rintro rfl
        exact hu hu₀
    · exact fun _ _ hpc₀ => hpc₀
    · intro n
      have hvalue := (turnLedger env ⟨k₁.unit, n⟩).value_exam hi st' m' pc'
      have hmem := turn_mem_of_beside env hbeside n
      have hbefore : (turnLedger env ⟨k₁.unit, n⟩).exam pc = 0 := owes_eq_zero_of_unit? hu n
      have hafter : (turnLedger env ⟨k₁.unit, n⟩).exam pc' = 0 := owes_eq_zero_of_unit? hu' n
      omega
    · exact hout

end

/-! ### The judge workers of the case -/

section

variable {i : ℕ} {j : JudgeJob} {pc pc' : JudgePc}

/-- A step of a judge worker of the unit. -/
theorem Scripted.of_judge (hs : Scripted env k₁ σ rows s)
    (hpc' : pc'.unit? = some k₁.unit → pc'.Scripted env k₁ σ)
    (hvotes : ∀ n sv, m'.pipe.votes.lookup ⟨k₁.unit, n⟩ = some sv →
      sv.Scripted k₁ σ { s.toExec with mem := m', judge := s.judge.set i pc' }
        (σ.median env k₁ n) n)
    (hagg : ∀ agg, m'.pipe.aggs.lookup k₁.unit = some agg →
      Accrued env k₁ σ { s with store := st', mem := m', judge := s.judge.set i pc' } agg)
    (hrows : st'.unitRows k₁.unit =
      rows ++ List.replicate (m'.hist.written.count k₁.unit) (scriptRow env k₁ σ)) :
    Scripted env k₁ σ rows { s with store := st', mem := m', judge := s.judge.set i pc' } where
  exam := hs.exam
  judge pc₀ hpc₀ hu := by
    rcases List.mem_or_eq_of_mem_set hpc₀ with hold | rfl
    · exact hs.judge pc₀ hold hu
    · exact hpc' hu
  votes := hvotes
  agg := hagg
  rows := hrows

/-- Where a judge worker's step leaves an open aggregate of the case. -/
theorem Accrued.judge_set {agg agg' : CaseAggregate} (h : Accrued env k₁ σ s agg)
    (hi : s.judge[i]? = some pc) (hmodel : agg'.modelId = agg.modelId)
    (hprofile : agg'.profile = agg.profile)
    (hexpected : agg'.expectedSamples = agg.expectedSamples)
    (hpayload : agg'.payload = agg.payload)
    (hsamples : ∀ settled : List ℕ, Tallied agg (settled.map (σ.median env k₁)) →
      ∃ settled' : List ℕ, Tallied agg' (settled'.map (σ.median env k₁)) ∧
        ∀ n, (settled'.count n : ℤ) + ((turnLedger env ⟨k₁.unit, n⟩).mem m' +
          pc'.owes ⟨k₁.unit, n⟩) = settled.count n +
            ((turnLedger env ⟨k₁.unit, n⟩).mem s.mem + pc.owes ⟨k₁.unit, n⟩)) :
    Accrued env k₁ σ { s with store := st', mem := m', judge := s.judge.set i pc' } agg' where
  modelId := hmodel.trans h.modelId
  profile := hprofile.trans h.profile
  expected := hexpected.trans h.expected
  samples := by
    obtain ⟨settled, htallied, hcount⟩ := h.samples
    obtain ⟨settled', htallied', hstep⟩ := hsamples settled htallied
    refine ⟨settled', htallied', fun n => ?_⟩
    have hvalue := (turnLedger env ⟨k₁.unit, n⟩).value_judge hi st' m' pc'
    have hold := hcount n
    have hnew := hstep n
    change _ + (_ + ((pc.owes ⟨k₁.unit, n⟩ : ℕ) : ℤ)) =
      _ + (_ + ((pc'.owes ⟨k₁.unit, n⟩ : ℕ) : ℤ)) at hvalue
    omega
  here pc₀ hpc₀ hu := hpayload.trans (h.here pc₀ hpc₀ hu)
  past hnone := hpayload.trans (h.past hnone)

/-- A step in which the judge worker moves on with the vote it is at. -/
theorem Scripted.judge_move (hs : Scripted env k₁ σ rows s) (hi : s.judge[i]? = some pc)
    (hout : ∀ n slot, Outstanding ⟨k₁.unit, n⟩ slot s.toExec →
      Outstanding ⟨k₁.unit, n⟩ slot { s.toExec with mem := m', judge := s.judge.set i pc' })
    (haggs : m'.pipe.aggs = s.mem.pipe.aggs) (hvotes : m'.pipe.votes = s.mem.pipe.votes)
    (hrows : st'.unitRows k₁.unit = s.store.unitRows k₁.unit)
    (hwritten : m'.hist.written = s.mem.hist.written)
    (hpc' : pc'.unit? = some k₁.unit → pc'.Scripted env k₁ σ)
    (howes : ∀ n, pc'.owes ⟨k₁.unit, n⟩ = pc.owes ⟨k₁.unit, n⟩) :
    Scripted env k₁ σ rows { s with store := st', mem := m', judge := s.judge.set i pc' } := by
  refine hs.of_judge hpc' (hs.votes_of_eq hvotes hout) (fun agg hagg => ?_) ?_
  · rw [haggs] at hagg
    apply (hs.agg agg hagg).judge_set hi rfl rfl rfl rfl
    intro settled htallied
    refine ⟨settled, htallied, fun n => ?_⟩
    have hmem : (turnLedger env ⟨k₁.unit, n⟩).mem m' =
        (turnLedger env ⟨k₁.unit, n⟩).mem s.mem := by
      simp only [turnLedger, hvotes]
    rw [hmem, howes]
  · rw [hrows, hwritten, hs.rows]

/-- A vote lands that is not its sample's last. -/
theorem scripted_landed (hs : Scripted env k₁ σ rows s) {score : Option ℚ} {p : Pipeline}
    (hi : s.judge[i]? = some (.land j score)) (hj : j.unit = k₁.unit)
    (hscore : score = σ.vote j.sampleNo j.slot) (hp : s.mem.pipe.landVote j score = (p, none))
    (hout : ∀ n slot, ¬ (j.sample = ⟨k₁.unit, n⟩ ∧ j.slot = slot) →
      Outstanding ⟨k₁.unit, n⟩ slot s.toExec → Outstanding ⟨k₁.unit, n⟩ slot
        { s.toExec with mem := { s.mem with pipe := p }, judge := s.judge.set i (.decrement j) })
    (hclosed : j.sample ∈ s.mem.pipe.votes) :
    Scripted env k₁ σ rows
      { s with mem := { s.mem with pipe := p }, judge := s.judge.set i (.decrement j) } := by
  rcases Pipeline.landVote_open hp with ⟨hnone, -⟩ | ⟨sv, hsv, -, rfl⟩
  · exact absurd hclosed (AList.lookup_eq_none.mp hnone)
  have hsample : j.sample = ⟨k₁.unit, j.sampleNo⟩ := by rw [JudgeJob.sample, hj]
  rw [hsample] at hsv
  have hold := hs.votes j.sampleNo sv hsv
  refine hs.of_judge (fun _ => trivial) (fun n sv' hsv' => ?_) (fun agg hagg => ?_) hs.rows
  · by_cases hn : n = j.sampleNo
    · subst hn
      rw [hsample, AList.lookup_insert] at hsv'
      cases hsv'
      refine ⟨(List.length_set ..).trans hold.size, hold.median, fun slot hslot => ?_⟩
      -- the slot of the vote holds it now, the other slots what they held
      by_cases hslot' : j.slot = slot
      · subst hslot'
        left
        rw [List.getElem?_set_self (by rw [hold.size]; exact hslot), hscore]
      · rw [List.getElem?_set_ne hslot']
        exact (hold.slots slot hslot).imp_right (hout _ slot fun h => hslot' h.2)
    · have hne : (⟨k₁.unit, n⟩ : SampleKey) ≠ j.sample := by
        rw [hsample]
        simpa using hn
      rw [AList.lookup_insert_ne hne] at hsv'
      have hother := hs.votes n sv' hsv'
      refine ⟨hother.size, hother.median, fun slot hslot => ?_⟩
      exact (hother.slots slot hslot).imp_right (hout n slot fun h => hne h.1.symm)
  · apply (hs.agg agg hagg).judge_set hi rfl rfl rfl rfl
    intro settled htallied
    refine ⟨settled, htallied, fun n => ?_⟩
    -- a vote that completes nothing leaves the open samples as they are
    have hmem : ⟨k₁.unit, n⟩ ∈ s.mem.pipe.votes.insert j.sample
        { sv with landed := sv.landed + 1, scores := sv.scores.set j.slot score } ↔
          ⟨k₁.unit, n⟩ ∈ s.mem.pipe.votes := by
      rw [AList.mem_insert]
      exact ⟨fun h => h.elim (fun heq => heq ▸ hclosed) id, .inr⟩
    simp only [turnLedger, hmem]
    rfl

/-- The votes of a sample whose last vote lands are the script's. -/
theorem scores_of_votesIn (hplanned : plan.planned k₁.unit ≤ 1) (h : Reached env plan s)
    (hok : s.mem.panicked = false) (hs : Scripted env k₁ σ rows s) {score : Option ℚ}
    {sv : SampleVotes} (hi : s.judge[i]? = some (.land j score)) (hj : j.unit = k₁.unit)
    (hscore : score = σ.vote j.sampleNo j.slot)
    (hsv : s.mem.pipe.votes.lookup j.sample = some sv) (hlast : sv.landed + 1 = sv.expected) :
    sv.scores.set j.slot score = (List.range k₁.judges.length).map (σ.vote j.sampleNo) := by
  have hsample : j.sample = ⟨k₁.unit, j.sampleNo⟩ := by rw [JudgeJob.sample, hj]
  have hold := hs.votes j.sampleNo sv (by rw [← hsample]; exact hsv)
  -- the sample waits for one vote, and `j` is it
  have howed := votesOwed_of_reach (κ := j.sample) (by rw [hsample]; exact hplanned) h hok
  rw [votesOwed_of_lookup hsv] at howed
  have hone : (landLedger j.sample).judge (.land j score) = 1 := by
    simp [landLedger, JudgePc.vote?]
  have hsingle : ∀ slot, j.slot ≠ slot → ¬ Outstanding ⟨k₁.unit, j.sampleNo⟩ slot s.toExec := by
    rintro slot hslot ⟨j', hj', hslot', ⟨pc₀, hpc₀, hjob⟩ | ⟨pc₀, hpc₀, hvote⟩⟩
    · obtain ⟨i₀, hi₀⟩ := List.getElem?_of_mem hpc₀
      have hexam := Pool.le_total (f := (landLedger j.sample).exam) hi₀
      have hjudge := Pool.le_total (f := (landLedger j.sample).judge) hi
      have hpos : 0 < (landLedger j.sample).exam pc₀ :=
        List.countP_pos_iff.mpr ⟨j', hjob, decide_eq_true (hj'.trans hsample.symm)⟩
      simp only [Ledger.held] at howed
      omega
    · obtain ⟨i₀, hi₀⟩ := List.getElem?_of_mem hpc₀
      have hne : i ≠ i₀ := by
        rintro rfl
        rw [hi] at hi₀
        cases hi₀
        exact hslot (by rw [Option.some.inj hvote, hslot'])
      have hboth := Pool.add_le_total (f := (landLedger j.sample).judge) hi hi₀ hne
      have hpos : 0 < (landLedger j.sample).judge pc₀ := by
        simp [landLedger, hvote, hj'.trans hsample.symm]
      simp only [Ledger.held] at howed
      omega
  apply List.ext_getElem?
  intro slot
  by_cases hslot : slot < k₁.judges.length
  · have hrange : ((List.range k₁.judges.length).map (σ.vote j.sampleNo))[slot]? =
        some (σ.vote j.sampleNo slot) := by
      rw [List.getElem?_map, List.getElem?_range hslot]
      rfl
    rw [hrange]
    by_cases hslot' : j.slot = slot
    · subst hslot'
      rw [List.getElem?_set_self (by rw [hold.size]; exact hslot), hscore]
    · rw [List.getElem?_set_ne hslot']
      exact (hold.slots slot hslot).resolve_right (hsingle slot hslot')
  · rw [List.getElem?_eq_none (by rw [List.length_set, hold.size]; omega),
      List.getElem?_eq_none (by rw [List.length_map, List.length_range]; omega)]

/-- The last vote of a sample lands. -/
theorem scripted_votesIn (hplanned : plan.planned k₁.unit ≤ 1) (h : Reached env plan s)
    (hok : s.mem.panicked = false) (hs : Scripted env k₁ σ rows s) {score median : Option ℚ}
    {p : Pipeline} (hi : s.judge[i]? = some (.land j score)) (hj : j.unit = k₁.unit)
    (hscore : score = σ.vote j.sampleNo j.slot)
    (hp : s.mem.pipe.landVote j score = (p, some median))
    (hout : ∀ n slot, ¬ (j.sample = ⟨k₁.unit, n⟩ ∧ j.slot = slot) →
      Outstanding ⟨k₁.unit, n⟩ slot s.toExec → Outstanding ⟨k₁.unit, n⟩ slot
        { s.toExec with
          mem := { s.mem with pipe := p }, judge := s.judge.set i (.settle j median) }) :
    Scripted env k₁ σ rows
      { s with mem := { s.mem with pipe := p }, judge := s.judge.set i (.settle j median) } := by
  obtain ⟨sv, hsv, hlast, hmedian, rfl⟩ := Pipeline.landVote_complete hp
  have hscores := scores_of_votesIn hplanned h hok hs hi hj hscore hsv hlast
  have hsample : j.sample = ⟨k₁.unit, j.sampleNo⟩ := by rw [JudgeJob.sample, hj]
  have hmem : j.sample ∈ s.mem.pipe.votes := AList.lookup_isSome.mp (by simp [hsv])
  have hold := hs.votes j.sampleNo sv (by rw [← hsample]; exact hsv)
  refine hs.of_judge (fun _ => ?_) (fun n sv' hsv' => ?_) (fun agg hagg => ?_) hs.rows
  · change median = σ.median env k₁ j.sampleNo
    rw [hmedian, hscores, hold.median]
  · by_cases hn : n = j.sampleNo
    · subst hn
      rw [hsample, AList.lookup_erase] at hsv'
      cases hsv'
    · have hne : (⟨k₁.unit, n⟩ : SampleKey) ≠ j.sample := by
        rw [hsample]
        simpa using hn
      rw [AList.lookup_erase_ne hne] at hsv'
      have hother := hs.votes n sv' hsv'
      refine ⟨hother.size, hother.median, fun slot hslot => ?_⟩
      exact (hother.slots slot hslot).imp_right (hout n slot fun h => hne h.1.symm)
  · apply (hs.agg agg hagg).judge_set hi rfl rfl rfl rfl
    intro settled htallied
    refine ⟨settled, htallied, fun n => ?_⟩
    -- the sample goes from its jury to the judge worker
    have herase : ⟨k₁.unit, n⟩ ∈ s.mem.pipe.votes.erase j.sample ↔
        ⟨k₁.unit, n⟩ ≠ j.sample ∧ ⟨k₁.unit, n⟩ ∈ s.mem.pipe.votes := AList.mem_erase
    simp only [turnLedger, herase, JudgePc.owes]
    by_cases hn : j.sample = ⟨k₁.unit, n⟩
    · rw [hn] at hmem
      simp [hn, hmem]
    · simp [hn, Ne.symm hn]

/-- A judge worker settles a sample that is not the case's last. -/
theorem scripted_judge_settled (hs : Scripted env k₁ σ rows s) {median : Option ℚ}
    {p : Pipeline} (hi : s.judge[i]? = some (.settle j median)) (hj : j.unit = k₁.unit)
    (hmedian : median = σ.median env k₁ j.sampleNo)
    (hp : s.mem.pipe.settleSample j.unit median = some (p, none))
    (hout : ∀ n slot, Outstanding ⟨k₁.unit, n⟩ slot s.toExec →
      Outstanding ⟨k₁.unit, n⟩ slot
        { s.toExec with mem := { s.mem with pipe := p }, judge := s.judge.set i (.decrement j) }) :
    Scripted env k₁ σ rows
      { s with mem := { s.mem with pipe := p }, judge := s.judge.set i (.decrement j) } := by
  obtain ⟨agg, hagg, -, rfl⟩ := Pipeline.settleSample_open hp
  rw [hj] at hagg
  have hsample : j.sample = ⟨k₁.unit, j.sampleNo⟩ := by rw [JudgeJob.sample, hj]
  refine hs.of_judge (fun _ => trivial)
    (hs.votes_of_eq (e := ⟨_, s.exam, s.judge.set i (.decrement j), s.main⟩) rfl hout)
    (fun a ha => ?_) hs.rows
  rw [hj, AList.lookup_insert] at ha
  cases ha
  apply (hs.agg agg hagg).judge_set hi (agg.settle_modelId _) (agg.settle_profile _)
    (agg.settle_expectedSamples _) (agg.payload_settle _)
  intro settled htallied
  -- the sample joins the settled ones, and the worker no longer owes it
  refine ⟨settled ++ [j.sampleNo], ?_, fun n => ?_⟩
  · rw [List.map_append, List.map_singleton, ← hmedian]
    exact htallied.settle median
  · have howes : (JudgePc.settle j median).owes ⟨k₁.unit, n⟩ = [j.sampleNo].count n := by
      change (if j.sample = ⟨k₁.unit, n⟩ then 1 else 0) = _
      rw [hsample, List.count_singleton]
      simp
    have hdone : (JudgePc.decrement j).owes ⟨k₁.unit, n⟩ = 0 := rfl
    have hmem : (turnLedger env ⟨k₁.unit, n⟩).mem { s.mem with pipe := { s.mem.pipe with
        aggs := s.mem.pipe.aggs.insert j.unit (agg.settle median) } } =
          (turnLedger env ⟨k₁.unit, n⟩).mem s.mem := rfl
    rw [hmem, howes, hdone, List.count_append]
    omega

/-- Past the case's last sample its exam worker has recorded all of them. -/
theorem answeredTo_of_owes {pc : ExamPc} (hpc : pc.Scripted env k₁ σ)
    (hu : pc.unit? = some k₁.unit) (hopen : ∀ k, pc ≠ .openCase k)
    (hzero : pc.owes env ⟨k₁.unit, env.samples k₁.case⟩ = 0) :
    pc.answeredTo = env.samples k₁.case := by
  have hnow : ∀ k : SampleCursor, k₁.InCase env k →
      k.owes env ⟨k₁.unit, env.samples k₁.case⟩ k.sampleNo = 1 := by
    intro k hk
    exact if_pos ⟨hk.unit, hk.le, by rw [hk.same]⟩
  -- past its sample a worker owes the last one, unless it is past that too
  have hlater : ∀ k : SampleCursor, k₁.InCase env k →
      k.owes env ⟨k₁.unit, env.samples k₁.case⟩ (k.sampleNo + 1) = 0 →
        k.sampleNo = env.samples k₁.case := by
    intro k hk hzero
    by_contra hne
    have hlt : k.sampleNo + 1 ≤ env.samples k₁.case := lt_of_le_of_ne hk.le hne
    have hone : k.owes env ⟨k₁.unit, env.samples k₁.case⟩ (k.sampleNo + 1) = 1 :=
      if_pos ⟨hk.unit, hlt, by rw [hk.same]⟩
    omega
  cases pc with
  | openCase k => exact absurd rfl (hopen k)
  | call k => exact absurd (hnow k hpc) (by rw [show k.owes env _ _ = 0 from hzero]; decide)
  | persist k o | record k o id | settle k median | enqueue k id =>
    exact absurd (hnow k hpc.1) (by rw [show k.owes env _ _ = 0 from hzero]; decide)
  | write k agg => exact hlater k hpc.1 hzero
  | offer k jobs | noteOffered k jobs => exact hlater k hpc hzero
  | _ => cases hu

/-- A judge worker settles the case's last sample. -/
theorem scripted_judge_completed (hplanned : plan.planned k₁.unit ≤ 1) (h : Reached env plan s)
    (hok : s.mem.panicked = false) (hs : Scripted env k₁ σ rows s) {median : Option ℚ}
    {p : Pipeline} {done : CaseAggregate} (hi : s.judge[i]? = some (.settle j median))
    (hj : j.unit = k₁.unit) (hmedian : median = σ.median env k₁ j.sampleNo)
    (hp : s.mem.pipe.settleSample j.unit median = some (p, some done))
    (hout : ∀ n slot, Outstanding ⟨k₁.unit, n⟩ slot s.toExec →
      Outstanding ⟨k₁.unit, n⟩ slot
        { s.toExec with mem := { s.mem with pipe := p }, judge := s.judge.set i (.write j done) }) :
    Scripted env k₁ σ rows
      { s with mem := { s.mem with pipe := p }, judge := s.judge.set i (.write j done) } := by
  obtain ⟨agg, hagg, hlast, rfl, rfl⟩ := Pipeline.settleSample_complete hp
  rw [hj] at hagg
  have hold := hs.agg agg hagg
  have hmem : k₁.unit ∈ s.mem.pipe.aggs := AList.lookup_isSome.mp (by simp [hagg])
  have hsample : j.sample = ⟨k₁.unit, j.sampleNo⟩ := by rw [JudgeJob.sample, hj]
  have howes : (turnLedger env ⟨k₁.unit, j.sampleNo⟩).judge (.settle j median) = 1 :=
    if_pos hsample
  have hvote : ∀ n, 0 ≤ (turnLedger env ⟨k₁.unit, n⟩).mem s.mem := by
    intro n
    change (0 : ℤ) ≤ if ⟨k₁.unit, n⟩ ∈ s.mem.pipe.votes then 1 else 0
    split_ifs <;> decide
  have hone : 1 ≤ (turnLedger env ⟨k₁.unit, j.sampleNo⟩).value s := by
    have hheld := Ledger.judge_le_held (L := turnLedger env ⟨k₁.unit, j.sampleNo⟩) hi
    have hpos := hvote j.sampleNo
    simp only [Ledger.value]
    omega
  have hcompletes : Completes env k₁ σ (agg.settle median) := by
    rw [hmedian]
    apply hold.complete hone hlast
    intro hrest
    -- `j` is the only one to owe a sample of the case, so the exam worker owes none
    by_cases hnone : ∀ pc ∈ s.exam, pc.unit? ≠ some k₁.unit
    · exact hold.past hnone
    · push Not at hnone
      obtain ⟨pc₀, hpc₀, hu₀⟩ := hnone
      obtain ⟨i₀, hi₀⟩ := List.getElem?_of_mem hpc₀
      rw [hold.here pc₀ hpc₀ hu₀]
      congr 1
      apply answeredTo_of_owes (hs.exam pc₀ hpc₀ hu₀) hu₀
      · rintro k rfl
        exact notMem_aggs_of_openCase hplanned h hok hpc₀ (Option.some.inj hu₀) hmem
      · have htotal := Pool.le_total (f := (turnLedger env
          ⟨k₁.unit, env.samples k₁.case⟩).exam) hi₀
        have hjudge := Pool.le_total (f := (turnLedger env
          ⟨k₁.unit, env.samples k₁.case⟩).judge) hi
        have hvalue := hrest (env.samples k₁.case)
        have hpos := hvote (env.samples k₁.case)
        change (turnLedger env ⟨k₁.unit, env.samples k₁.case⟩).exam pc₀ = 0
        simp only [Ledger.value, Ledger.held] at hvalue
        split_ifs at hvalue with heq
        · rw [heq] at hvalue hpos htotal hjudge ⊢
          omega
        · omega
  refine hs.of_judge (fun _ => hcompletes)
    (hs.votes_of_eq (e := ⟨_, s.exam, s.judge.set i (.write j (agg.settle median)), s.main⟩)
      rfl hout) (fun a ha => ?_) hs.rows
  rw [hj, AList.lookup_erase] at ha
  cases ha

/-- The case's row is written by a judge worker. -/
theorem scripted_judge_wrote (hplanned : plan.planned k₁.unit ≤ 1) (h : Reached env plan s)
    (hok : s.mem.panicked = false) (hs : Scripted env k₁ σ rows s) {agg : CaseAggregate}
    (hi : s.judge[i]? = some (.write j agg)) (hj : j.unit = k₁.unit)
    (hrow : caseResult k₁.unit agg = scriptRow env k₁ σ)
    (hout : ∀ n slot, Outstanding ⟨k₁.unit, n⟩ slot s.toExec →
      Outstanding ⟨k₁.unit, n⟩ slot { s.toExec with judge := s.judge.set i (.decrement j) }) :
    Scripted env k₁ σ rows { s with
      store := s.store.createEvalResult (caseResult j.unit agg)
      mem := s.mem.writeUnits [j.unit]
      judge := s.judge.set i (.decrement j) } := by
  -- the worker holds the unit in its row, so no aggregate does
  have hnot : k₁.unit ∉ s.mem.pipe.aggs := by
    apply notMem_aggs_of_held hplanned h hok
    have hheld := Ledger.judge_le_held (L := flightLedger k₁.unit) hi
    have hone : (flightLedger k₁.unit).judge (.write j agg) = 1 := if_pos hj
    omega
  refine hs.of_judge (fun _ => trivial)
    (hs.votes_of_eq (e := ⟨_, s.exam, s.judge.set i (.decrement j), s.main⟩) rfl hout)
    (fun a ha => ?_) ?_
  · have hsome := (AList.lookup_eq_none.mpr hnot).symm.trans ha
    cases hsome
  · rw [unitRows_createEvalResult, caseResult_unit, if_pos hj, hj, hrow, hs.rows,
      Shared.writeUnits, List.count_append, List.count_singleton, if_pos (beq_self_eq_true _),
      List.replicate_succ', List.append_assoc]

/-- A vote on its way to a sample finds the sample open. -/
theorem mem_votes_of_vote? (hplanned : plan.planned j.unit ≤ 1) (h : Reached env plan s)
    (hok : s.mem.panicked = false) (hi : s.judge[i]? = some pc) (hvote : pc.vote? = some j) :
    j.sample ∈ s.mem.pipe.votes := by
  by_contra hnot
  have howed := votesOwed_of_reach (κ := j.sample) hplanned h hok
  rw [votesOwed_of_notMem hnot] at howed
  have hheld := Ledger.judge_le_held (L := landLedger j.sample) hi
  have hone : (landLedger j.sample).judge pc = 1 := by simp [landLedger, hvote]
  omega

/-- A step of a judge worker. -/
theorem scripted_judge (hplanned : ∀ v, plan.planned v ≤ 1) (h : Reached env plan s)
    (hok : s.mem.panicked = false) (hkept : ∀ j ∈ m'.hist.dropped, j.unit ≠ k₁.unit)
    (hs : Scripted env k₁ σ rows s) (hi : s.judge[i]? = some pc)
    (he : JudgeStep env plan s.store s.mem pc st' m' pc')
    (hcall : ∀ j o, pc = .call j → pc' = .record j o → j.unit = k₁.unit →
      o.score = σ.vote j.sampleNo j.slot) (hok' : m'.panicked = false) :
    Scripted env k₁ σ rows { s with store := st', mem := m', judge := s.judge.set i pc' } := by
  have hlt : i < s.judge.length := (List.getElem?_eq_some_iff.mp hi).1
  have hpc := List.mem_of_getElem? hi
  -- a vote stays outstanding unless it is the one that lands here
  have hout : ∀ n slot, (∀ j score, pc = .land j score →
      ¬ (j.sample = ⟨k₁.unit, n⟩ ∧ j.slot = slot)) → Outstanding ⟨k₁.unit, n⟩ slot s.toExec →
        Outstanding ⟨k₁.unit, n⟩ slot { s.toExec with mem := m', judge := s.judge.set i pc' } := by
    intro n slot hland hold
    rcases outstanding_step (.judge (c := .go) hi he) (sample_ne_of_unit_ne hkept n) hold with
      hnew | ⟨i₀, j, score, hi₀, hj, hslot, c, hc⟩
    · exact hnew
    · obtain ⟨rfl, -⟩ : i = i₀ ∧ JudgeChoice.go = c := by simpa using hc
      rw [hi] at hi₀
      exact absurd ⟨hj, hslot⟩ (hland j score (Option.some.inj hi₀))
  by_cases hu : pc.unit? = some k₁.unit
  · have hscripted := hs.judge pc hpc hu
    cases he with
    | took j n =>
      exact hs.judge_move hi (fun n slot => hout n slot (by simp)) rfl rfl rfl rfl
        (fun _ => trivial) (fun _ => rfl)
    | called j o =>
      exact hs.judge_move hi (fun n slot => hout n slot (by simp)) rfl rfl rfl rfl
        (fun hj => hcall j o rfl rfl (Option.some.inj hj)) (fun _ => rfl)
    | recorded j o cost =>
      apply hs.judge_move hi (fun n slot => hout n slot (by simp)) rfl rfl _ rfl
        (fun _ => hscripted) (fun _ => rfl)
      exact unitRows_createEvalJudgeScore _ _ _
    | landed j score p hp =>
      have hj : j.unit = k₁.unit := Option.some.inj hu
      apply scripted_landed hs hi hj hscripted hp
      · intro n slot hne
        apply hout n slot
        rintro j' score' heq
        cases heq
        exact hne
      · exact mem_votes_of_vote? (hplanned _) h hok hi rfl
    | votesIn j score p median hp =>
      have hj : j.unit = k₁.unit := Option.some.inj hu
      apply scripted_votesIn (hplanned _) h hok hs hi hj hscripted hp
      intro n slot hne
      apply hout n slot
      rintro j' score' heq
      cases heq
      exact hne
    | settled j median p hp =>
      exact scripted_judge_settled hs hi (Option.some.inj hu) hscripted hp
        (fun n slot => hout n slot (by simp))
    | completed j median p agg hp =>
      exact scripted_judge_completed (hplanned _) h hok hs hi (Option.some.inj hu) hscripted hp
        (fun n slot => hout n slot (by simp))
    | wrote j agg =>
      exact scripted_judge_wrote (hplanned _) h hok hs hi (Option.some.inj hu) hscripted.row
        (fun n slot => hout n slot (by simp))
    | decremented j | decrementedLast j =>
      exact hs.judge_move hi (fun n slot => hout n slot (by simp))
        (Pipeline.decrementPending_aggs _ _) (Pipeline.decrementPending_votes _ _) rfl rfl
        (fun _ => trivial) (fun _ => rfl)
    | finished j =>
      apply hs.judge_move hi (fun n slot => hout n slot (by simp)) rfl rfl _ rfl
        (fun _ => trivial) (fun _ => rfl)
      split <;> rfl
    | noted j n f =>
      exact hs.judge_move hi (fun n slot => hout n slot (by simp)) rfl rfl rfl rfl
        (fun _ => trivial) (fun _ => rfl)
    | settleCrash => simp [Shared.panic] at hok'
    | _ => cases hu
  · -- the step is beside the unit
    obtain ⟨hbeside, hu'⟩ := he.beside hu
    apply hs.quiet hbeside
    · exact fun _ _ => Iff.rfl
    · intro pc₀ hu₀ hpc₀
      rcases List.mem_or_eq_of_mem_set hpc₀ with hold | rfl
      · exact hold
      · exact absurd hu₀ hu'
    · intro n
      have hvalue := (turnLedger env ⟨k₁.unit, n⟩).value_judge hi st' m' pc'
      have hmem := turn_mem_of_beside env hbeside n
      have hbefore : (turnLedger env ⟨k₁.unit, n⟩).judge pc = 0 :=
        judge_owes_eq_zero_of_unit? hu n
      have hafter : (turnLedger env ⟨k₁.unit, n⟩).judge pc' = 0 :=
        judge_owes_eq_zero_of_unit? hu' n
      omega
    · intro n slot
      apply hout n slot
      rintro j score rfl ⟨hj, -⟩
      exact hu (congrArg some (congrArg SampleKey.unit hj))

end

/-! ### Runs -/

/-- A vote is handed to a judge worker. -/
theorem scripted_handJob {i j : ℕ} {job : JudgeJob} {jobs : List JudgeJob}
    (hs : Scripted env k₁ σ rows s) (hi : s.exam[i]? = some (.offer k (job :: jobs)))
    (hj : s.judge[j]? = some .select)
    (hout : ∀ n slot, Outstanding ⟨k₁.unit, n⟩ slot s.toExec → Outstanding ⟨k₁.unit, n⟩ slot
      { s.toExec with
        exam := s.exam.set i (.noteOffered k jobs), judge := s.judge.set j (.take job) }) :
    Scripted env k₁ σ rows { s with
      exam := s.exam.set i (.noteOffered k jobs), judge := s.judge.set j (.take job) } := by
  have hlt : i < s.exam.length := (List.getElem?_eq_some_iff.mp hi).1
  have hpc := List.mem_of_getElem? hi
  -- the sending worker stays in its case, and the vote is the one it was about to send
  have hunit : (ExamPc.offer k (job :: jobs)).unit? = (ExamPc.noteOffered k jobs).unit? := rfl
  have hnew : ∀ pc₀ ∈ s.exam.set i (.noteOffered k jobs), pc₀.unit? = some k₁.unit →
      pc₀ ∈ s.exam ∨ pc₀ = .noteOffered k jobs := fun pc₀ hpc₀ _ => List.mem_or_eq_of_mem_set hpc₀
  constructor
  · intro pc₀ hpc₀ hu
    rcases hnew pc₀ hpc₀ hu with hold | rfl
    · exact hs.exam pc₀ hold hu
    · exact hs.exam (.offer k (job :: jobs)) hpc (hunit.trans hu)
  · intro pc₀ hpc₀ hu
    rcases List.mem_or_eq_of_mem_set hpc₀ with hold | rfl
    · exact hs.judge pc₀ hold hu
    · trivial
  · exact hs.votes_of_eq (e := ⟨s.mem, s.exam.set i (.noteOffered k jobs),
      s.judge.set j (.take job), s.main⟩) rfl hout
  · intro agg hagg
    have hold := hs.agg agg hagg
    obtain ⟨settled, htallied, hcount⟩ := hold.samples
    refine ⟨hold.modelId, hold.profile, hold.expected, ⟨settled, htallied, fun n => ?_⟩, ?_, ?_⟩
    · have hexam := Pool.total_set (f := (turnLedger env ⟨k₁.unit, n⟩).exam) hi
        (.noteOffered k jobs)
      have hjudge := Pool.total_set (f := (turnLedger env ⟨k₁.unit, n⟩).judge) hj (.take job)
      have hsame : (turnLedger env ⟨k₁.unit, n⟩).exam (.noteOffered k jobs) =
        (turnLedger env ⟨k₁.unit, n⟩).exam (.offer k (job :: jobs)) := rfl
      have htake : (turnLedger env ⟨k₁.unit, n⟩).judge (.take job) =
        (turnLedger env ⟨k₁.unit, n⟩).judge .select := rfl
      -- neither worker owes another sample than before
      have hvalue := hcount n
      simp only [Ledger.value, Ledger.held] at hvalue ⊢
      omega
    · intro pc₀ hpc₀ hu
      rcases hnew pc₀ hpc₀ hu with hmem | rfl
      · exact hold.here pc₀ hmem hu
      · exact hold.here (.offer k (job :: jobs)) hpc (hunit.trans hu)
    · intro hnone
      apply hold.past
      intro pc₀ hpc₀ hu
      by_cases heq : pc₀ = .offer k (job :: jobs)
      · subst heq
        exact hnone _ (List.mem_set hlt _) (hunit.symm.trans hu)
      · exact hnone pc₀ (Pool.mem_set_of_ne hpc₀ hi heq) hu
  · exact hs.rows

/-- A step of a run that drops no vote of the case keeps the invariant. -/
theorem scripted_step {a : Label} (hplanned : ∀ v, plan.planned v ≤ 1) (h : Reached env plan s)
    (hkept : ∀ j ∈ s'.mem.hist.dropped, j.unit ≠ k₁.unit)
    (hstarted : 0 < s.mem.hist.started.count k₁.unit)
    (hs : Scripted env k₁ σ rows s) (hfollows : Follows k₁.unit σ s a)
    (hstep : step env plan s a = some s') : Scripted env k₁ σ rows s' := by
  have hok := panicked_of_reach hplanned h
  have hok' := panicked_of_reach hplanned (h.step hstep)
  have hstepped := (step_cases hstep).2
  have hcases := hstepped
  cases hcases with
  | @main st' m' pc' hm =>
    apply hs.quiet hm.beside
    · exact fun _ _ => Iff.rfl
    · exact fun _ _ hpc => hpc
    · intro n
      have hmem := turn_mem_of_beside env (hm.beside (u := k₁.unit)) n
      have hmain : (turnLedger env ⟨k₁.unit, n⟩).main pc' =
        (turnLedger env ⟨k₁.unit, n⟩).main s.main := rfl
      simp only [Ledger.value, Ledger.held, hmem, hmain]
    · exact fun _ _ hout => hout
  | @exam i c pc st' m' pc' hi he =>
    refine scripted_exam hplanned h hok hkept hstarted hs hi he ?_ hok'
    -- the outcome of the call is the one of the label, which follows the script
    rintro k o rfl rfl hunit
    obtain rfl := answer_of_step hi hstep
    exact hfollows k hi hunit
  | @judge i c pc st' m' pc' hi he =>
    refine scripted_judge hplanned h hok hkept hs hi he ?_ hok'
    rintro j o rfl rfl hunit
    obtain rfl := verdict_of_step hi hstep
    exact hfollows j hi hunit
  | @handCell i c cs hmain hi =>
    -- a worker that is handed a cell was in no case, and is in none yet
    have hset : ∀ pc : ExamPc, pc.unit? = some k₁.unit →
        (pc ∈ s.exam.set i (.setup c) ↔ pc ∈ s.exam) := by
      intro pc hu
      constructor
      · intro hpc
        rcases List.mem_or_eq_of_mem_set hpc with hold | rfl
        · exact hold
        · cases hu
      · intro hpc
        apply Pool.mem_set_of_ne hpc hi
        rintro rfl
        cases hu
    refine hs.quiet ?_ hset (fun _ _ hpc => hpc) ?_ ?_
    · exact .of_eq rfl rfl rfl rfl rfl
    · intro n
      have hexam := Pool.total_set (f := (turnLedger env ⟨k₁.unit, n⟩).exam) hi (.setup c)
      have hsetup : (turnLedger env ⟨k₁.unit, n⟩).exam (.setup c) =
        (turnLedger env ⟨k₁.unit, n⟩).exam .select := rfl
      have hfeed : (turnLedger env ⟨k₁.unit, n⟩).main (.feed cs) =
        (turnLedger env ⟨k₁.unit, n⟩).main s.main := rfl
      simp only [Ledger.value, Ledger.held]
      omega
    · intro n slot hold
      rcases outstanding_step hstepped (sample_ne_of_unit_ne hkept n) hold with
      hout | ⟨_, _, _, -, -, -, c, hc⟩
      · exact hout
      · cases hc
  | handJob hi hj =>
    apply scripted_handJob hs hi hj
    intro n slot hold
    rcases outstanding_step hstepped (sample_ne_of_unit_ne hkept n) hold with
      hout | ⟨_, _, _, -, -, -, c, hc⟩
    · exact hout
    · cases hc
  | cancel | expire =>
    refine hs.quiet ?_ (fun _ _ => Iff.rfl) (fun _ _ hpc => hpc) (fun _ => rfl)
      (fun _ _ hout => hout)
    exact .of_eq rfl rfl rfl rfl rfl

/-- A dropped vote stays dropped. -/
theorem Step.dropped_subset {a : Label} (h : Step env plan s a s') :
    s.mem.hist.dropped ⊆ s'.mem.hist.dropped := by
  cases h with
  | main hm =>
    generalize s.main = pc at hm
    cases hm <;> exact List.Subset.refl _
  | exam hi he =>
    cases he with
    | dropped => exact List.subset_append_left ..
    | reported | reportedLast =>
      rw [reportCell_hist]
      exact List.Subset.refl _
    | _ => exact List.Subset.refl _
  | judge hj he => cases he <;> exact List.Subset.refl _
  | _ => exact List.Subset.refl _

/-- Under a live context no vote is dropped. -/
theorem kept_of_live (h : Reached env plan s) (hlive : s.mem.canceled = false) :
    ∀ j ∈ s.mem.hist.dropped, j.unit ≠ u := by
  rw [(accounted_of_reach h).dropped hlive]
  exact fun _ hj => absurd hj List.not_mem_nil

theorem started_mono {a : Label} (h : Reached env plan s) (hcases : Step env plan s a s')
    (u : UnitKey) : s.mem.hist.started.count u ≤ s'.mem.hist.started.count u := by
  cases hcases.rows h u <;> omega

/-- The case is opened with nothing of it anywhere. -/
theorem scripted_start (hplanned : ∀ v, plan.planned v ≤ 1) (h : Reached env plan s)
    (hk : .openCase k₁ ∈ s.exam) : Scripted env k₁ σ (s.store.unitRows k₁.unit) s := by
  have hok := panicked_of_reach hplanned h
  have hnot := notMem_aggs_of_openCase (hplanned _) h hok hk rfl
  obtain ⟨hstarted, hwritten⟩ := started_of_openCase (hplanned _) h hok hk rfl
  obtain ⟨i, hi⟩ := List.getElem?_of_mem hk
  have hvotes : ∀ n, ⟨k₁.unit, n⟩ ∉ s.mem.pipe.votes := by
    intro n hmem
    have hzero := turn_eq_zero env (hplanned _) h hok hnot n
    have hone : (turnLedger env ⟨k₁.unit, n⟩).mem s.mem = 1 := if_pos hmem
    simp only [Ledger.value] at hzero
    omega
  constructor
  · intro pc hpc hu
    obtain ⟨j, hj⟩ := List.getElem?_of_mem hpc
    obtain rfl := unit?_unique (hplanned _) h hok hi hj rfl hu
    rw [hi] at hj
    cases hj
    have hfirst : k₁.sampleNo = 1 := ready_of_reach h _ hk
    refine ⟨⟨rfl, rfl, rfl, ?_, ?_⟩, hfirst⟩
    · rw [hfirst]
    · rw [hfirst]
      exact env.samples_pos _
  · intro pc hpc hu
    obtain ⟨j, hj⟩ := List.getElem?_of_mem hpc
    cases pc with
    | record j' o | land j' score =>
      -- a vote of the unit would wait for an open sample
      have hunit : j'.unit = k₁.unit := Option.some.inj hu
      have hopen : j'.sample ∈ s.mem.pipe.votes :=
        mem_votes_of_vote? (hplanned _) h hok hj rfl
      rw [JudgeJob.sample, hunit] at hopen
      exact absurd hopen (hvotes _)
    | settle j' median =>
      have hunit : j'.unit = k₁.unit := Option.some.inj hu
      exact absurd (hunit ▸ mem_aggs_of_judge (hplanned _) h hok hpc) hnot
    | write j' agg =>
      have hunit : j'.unit = k₁.unit := Option.some.inj hu
      have hflight := flight_of_reach (hplanned k₁.unit) h hok
      have hexam := Pool.le_total (f := (flightLedger k₁.unit).exam) hi
      have hjudge := Pool.le_total (f := (flightLedger k₁.unit).judge) hj
      have hone : (flightLedger k₁.unit).exam (.openCase k₁) = 1 := if_pos rfl
      have hone' : (flightLedger k₁.unit).judge (.write j' agg) = 1 := if_pos hunit
      simp only [inFlight, Ledger.held] at hflight
      omega
    | _ => trivial
  · intro n sv hsv
    exact absurd (AList.lookup_isSome.mp (by simp [hsv])) (hvotes n)
  · intro agg hagg
    exact absurd (AList.lookup_isSome.mp (by simp [hagg])) hnot
  · rw [hwritten]
    exact (List.append_nil _).symm

/-- A unit that was taken up stays so. -/
theorem started_of_run {guard : State → Label → Prop} {s₁ : State} (h : Reached env plan s₁)
    (hrun : Transition.Reach (step env plan) guard s₁ s)
    (hstarted : 0 < s₁.mem.hist.started.count u) : 0 < s.mem.hist.started.count u := by
  induction hrun with
  | refl => exact hstarted
  | tail hrun _ hstep ih =>
    exact Nat.lt_of_lt_of_le ih (started_mono (h.trans hrun) (step_cases hstep).2 u)

/-- **Scripted runs.** From the state in which a case is opened, a run that follows the
script and drops no vote of the case keeps the invariant. -/
theorem scripted_of_reach {s₁ : State} (hplanned : ∀ v, plan.planned v ≤ 1)
    (h : Reached env plan s₁) (hk : .openCase k₁ ∈ s₁.exam)
    (hrun : Transition.Reach (step env plan) (Follows k₁.unit σ) s₁ s)
    (hkept : ∀ j ∈ s.mem.hist.dropped, j.unit ≠ k₁.unit) :
    Scripted env k₁ σ (s₁.store.unitRows k₁.unit) s := by
  have hok := panicked_of_reach hplanned h
  have hstarted := (started_of_openCase (hplanned _) h hok hk rfl).1
  induction hrun with
  | refl => exact scripted_start hplanned h hk
  | @tail t v a hrun hfollows hstep ih =>
    have hs := ih fun j hj => hkept j ((step_cases hstep).2.dropped_subset hj)
    refine scripted_step hplanned (h.trans hrun) hkept ?_ hs hfollows hstep
    exact started_of_run h hrun (Nat.lt_of_lt_of_eq Nat.one_pos hstarted.symm)

/-- **The row of a case.** When the execution returns, a case that was opened and whose calls
followed the script has one more row than it had, the script's. -/
theorem unitRows_of_returned {s₁ : State} (hplanned : ∀ v, plan.planned v ≤ 1)
    (h : Reached env plan s₁) (hk : .openCase k₁ ∈ s₁.exam)
    (hrun : Transition.Reach (step env plan) (Follows k₁.unit σ) s₁ s)
    (hlive : s.mem.canceled = false) (hreturned : s.main = .returned) :
    s.store.unitRows k₁.unit = s₁.store.unitRows k₁.unit ++ [scriptRow env k₁ σ] := by
  have hreached := h.trans hrun
  have hok := panicked_of_reach hplanned hreached
  have hs := scripted_of_reach hplanned h hk hrun (kept_of_live hreached hlive)
  have hfirst := (started_of_openCase (hplanned _) h (panicked_of_reach hplanned h) hk rfl).1
  have hstarted := started_of_run h hrun (Nat.lt_of_lt_of_eq Nat.one_pos hfirst.symm)
  have hflight := flight_of_reach (hplanned k₁.unit) hreached hok
  have htodo := todo_of_reach k₁.unit hreached hok
  have hheld := held_of_returned (flightLedger k₁.unit) rfl rfl rfl hreached hreturned
  have hclosed : k₁.unit ∉ s.mem.pipe.aggs := by
    rw [mem_aggs_iff_of_returned (hplanned _) hreached hok hreturned,
      (accounted_of_reach hreached).dropped hlive]
    rintro ⟨j, hj, -⟩
    cases hj
  have hopened : s.mem.pipe.opened k₁.unit = 0 := if_neg hclosed
  have hunit := hplanned k₁.unit
  -- taken up once, given back by nobody and held by nobody, the unit was written once
  have hone : s.mem.hist.written.count k₁.unit = 1 := by
    simp only [inFlight] at hflight
    omega
  rw [hs.rows, hone]
  rfl

end HubScope
