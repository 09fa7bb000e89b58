import HubScope.Evaluator.Units

/-!
# The votes of a sample

A sample is sent to its jury once, so its votes are registered once. From then on an open
sample waits for its votes: those on offer, those with a judge worker, and the dropped ones.

## Main definitions

* `askLedger` — the times a sample may still be sent to its jury
* `landLedger` — the votes of a sample

## Main results

* `notMem_votes_of_enqueue` — a sample's votes are registered once
* `votesOwed_of_reach` — what an open sample waits for
-/

set_option autoImplicit false

namespace HubScope

variable {env : Env} {plan : Plan} {st st' : Store} {m m' : Shared} {s s' : State} {u : UnitKey}

/-! ### What every worker has at its program point -/

/-- A case is opened at its first sample, and a sample is sent to a jury that is not empty. -/
def ExamPc.ready : ExamPc → Prop
  | .openCase k => k.sampleNo = 1
  | .enqueue k _ => k.judges ≠ []
  | _ => True

theorem ready_sampleDone (k : SampleCursor) : (sampleDone env plan k).ready :=
  sampleDone_rule k (fun _ => trivial) fun _ =>
    caseDone_rule k (fun _ => trivial) fun _ _ => trivial

theorem ready_routeSample (k : SampleCursor) (id : ℕ) (text : String) :
    (routeSample env k id text).ready :=
  routeSample_rule k id text (fun _ => trivial) fun hjudges => hjudges

theorem ready_of_reach (h : Reached env plan s) : ∀ pc ∈ s.exam, pc.ready := by
  refine (workers_of_reach (R := fun _ => True) ?_ trivial ?_ (by simp) ?_ ?_ h).1
  · trivial
  · intro st m pc st' m' pc' _ he
    cases he with
    | begin | clearNull | clearAny => rfl
    | settled | wrote | offeredAll | dropped => exact ready_sampleDone _
    | recorded => exact ready_routeSample _ _ _
    | _ => trivial
  · exact fun _ _ => trivial
  · exact fun _ _ _ _ => ⟨trivial, trivial⟩

/-! ### A sample is asked once -/

/-- Whether a case whose next sample is `n` may still send the sample to its jury. -/
def SampleCursor.asksFrom (k : SampleCursor) (κ : SampleKey) (n : ℕ) : ℕ :=
  if k.unit = κ.unit ∧ n ≤ κ.sampleNo then 1 else 0

/-- How often an exam worker may still send the sample to its jury. -/
def ExamPc.asks (κ : SampleKey) (pc : ExamPc) : ℕ :=
  pc.todo.count κ.unit +
    match pc with
    | .openCase k | .call k | .persist k _ | .record k _ _ | .settle k _ | .enqueue k _ =>
      k.asksFrom κ k.sampleNo
    | .write k _ | .offer k _ | .noteOffered k _ => k.asksFrom κ (k.sampleNo + 1)
    | _ => 0

/-- The times the sample may be sent to its jury, and its open votes. -/
def askLedger (plan : Plan) (κ : SampleKey) : Ledger where
  mem m := if κ ∈ m.pipe.votes then 1 else 0
  main pc := ((plan.left pc).flatMap Cell.units).count κ.unit
  exam pc := pc.asks κ
  judge _ := 0

variable {κ : SampleKey}

theorem asksFrom_le (κ : SampleKey) (k : SampleCursor) (n : ℕ) :
    k.asksFrom κ n ≤ if k.unit = κ.unit then 1 else 0 := by
  unfold SampleCursor.asksFrom
  split_ifs with h hunit
  · exact le_rfl
  · exact absurd h.1 hunit
  · exact Nat.zero_le _
  · exact le_rfl

theorem asksFrom_succ_le (κ : SampleKey) (k : SampleCursor) (n : ℕ) :
    k.asksFrom κ (n + 1) ≤ k.asksFrom κ n := by
  unfold SampleCursor.asksFrom
  split_ifs with hlater hnow
  · exact le_rfl
  · exact absurd ⟨hlater.1, Nat.le_of_succ_le hlater.2⟩ hnow
  · exact Nat.zero_le _
  · exact le_rfl

/-- The unit's one entry in the cell turns into the first sample of its case. -/
theorem asks_begin_le {l : CellCursor} {c : Case} {rest : List Case} (h : l.rest = c :: rest) :
    (ExamPc.openCase ⟨{ l with rest := rest }, c, 1, false⟩).asks κ ≤
      (ExamPc.nextCase l).asks κ := by
  let k : SampleCursor := ⟨{ l with rest := rest }, c, 1, false⟩
  have hfirst := asksFrom_le κ k 1
  have hunit : k.unit = ⟨l.cell.run.id, l.cell.modelDbId, c.id⟩ := rfl
  calc (ExamPc.openCase k).asks κ
      = k.inCell.todo.count κ.unit + k.asksFrom κ 1 := rfl
    _ ≤ k.inCell.todo.count κ.unit + if k.unit = κ.unit then 1 else 0 := by omega
    _ = l.todo.count κ.unit := by
        rw [todo_cons h, List.count_cons, ← hunit]
        simp only [beq_iff_eq]
        rfl

theorem asks_settle (k : SampleCursor) (median : Option ℚ) :
    (ExamPc.settle k median).asks κ =
      k.inCell.todo.count κ.unit + k.asksFrom κ k.sampleNo := rfl

theorem asks_offer (k : SampleCursor) (jobs : List JudgeJob) :
    (ExamPc.offer k jobs).asks κ =
      k.inCell.todo.count κ.unit + k.asksFrom κ (k.sampleNo + 1) := rfl

theorem asks_caseDone (k : SampleCursor) :
    (caseDone plan k).asks κ = k.inCell.todo.count κ.unit :=
  caseDone_rule k (fun _ => rfl) fun _ _ => rfl

/-- Past a sample only the later ones are asked. -/
theorem asks_sampleDone_le (env : Env) (plan : Plan) (κ : SampleKey) (k : SampleCursor) :
    (sampleDone env plan k).asks κ ≤
      k.inCell.todo.count κ.unit + k.asksFrom κ (k.sampleNo + 1) := by
  unfold sampleDone
  split_ifs
  · exact le_rfl
  · rw [asks_caseDone]
    exact Nat.le_add_right _ _

theorem asks_routeSample (k : SampleCursor) (id : ℕ) (text : String) :
    (routeSample env k id text).asks κ =
      k.inCell.todo.count κ.unit + k.asksFrom κ k.sampleNo :=
  routeSample_rule k id text (fun _ => rfl) fun _ => rfl

/-- A sample that is registered is open and no longer asked. -/
theorem asksFrom_registered_le (κ : SampleKey) (k : SampleCursor) (waits : Prop)
    [Decidable waits] [Decidable (κ = k.sample ∨ waits)] :
    (if κ = k.sample ∨ waits then 1 else 0) + (k.asksFrom κ (k.sampleNo + 1) : ℤ) ≤
      (if waits then 1 else 0) + k.asksFrom κ k.sampleNo := by
  have hlater := asksFrom_succ_le κ k k.sampleNo
  by_cases hκ : κ = k.sample
  · have hnow : k.asksFrom κ k.sampleNo = 1 := by
      rw [hκ]
      exact if_pos ⟨rfl, le_rfl⟩
    have hnext : k.asksFrom κ (k.sampleNo + 1) = 0 := by
      rw [hκ]
      exact if_neg fun h => Nat.lt_irrefl _ h.2
    rw [if_pos (Or.inl hκ), hnow, hnext]
    omega
  · simp only [hκ, false_or]
    omega

/-- No goroutine lets a sample be asked once more. -/
theorem askLedger_law (κ : SampleKey) : (askLedger plan κ).Law (· ≤ ·) env plan s where
  main pc st m pc' _ h := by
    obtain ⟨-, cells, hleft, -⟩ := h.units_eq
    have hvotes : m.pipe.votes = s.mem.pipe.votes := by
      cases h with
      | marked | markedLast => exact Pipeline.markCellsDone_votes _ _
      | _ => rfl
    simp only [askLedger, hvotes, hleft, List.flatMap_append, List.count_append]
    omega
  exam pc st m pc' _ h hok := by
    cases h with
    | begin l c rest hdriver hrest | clearNull l c rest hdriver hrest hcan
    | clearAny l c rest hdriver hrest hcan =>
      exact Int.add_le_add_left (Int.ofNat_le.mpr (asks_begin_le hrest)) _
    | opened k =>
      obtain ⟨aggs, hp⟩ := Pipeline.openCase_eq s.mem.pipe k.unit k.inCell.modelId k.profile
        (env.samples k.case)
      simp only [askLedger, hp]
      exact le_rfl
    | recorded k id text latencyMs i o cost p hp =>
      obtain ⟨agg, agg', -, rfl, -⟩ := Pipeline.recordAnswer_spec hp
      simp only [askLedger, asks_routeSample]
      exact le_rfl
    | settled k median p hp =>
      obtain ⟨aggs, rfl⟩ := Pipeline.settleSample_eq hp
      have hdone := asks_sampleDone_le env plan κ k
      have hlater := asksFrom_succ_le κ k k.sampleNo
      simp only [askLedger, asks_settle]
      omega
    | completed k median p agg hp =>
      obtain ⟨aggs, rfl⟩ := Pipeline.settleSample_eq hp
      have hlater := asksFrom_succ_le κ k k.sampleNo
      have hwrite : (ExamPc.write k agg).asks κ =
        k.inCell.todo.count κ.unit + k.asksFrom κ (k.sampleNo + 1) := rfl
      simp only [askLedger, asks_settle]
      omega
    | wrote k agg =>
      have hdone := asks_sampleDone_le env plan κ k
      have hwrite : (ExamPc.write k agg).asks κ =
        k.inCell.todo.count κ.unit + k.asksFrom κ (k.sampleNo + 1) := rfl
      simp only [askLedger, Shared.writeUnits]
      omega
    | offeredAll k | dropped k =>
      have hdone := asks_sampleDone_le env plan κ k
      simp only [askLedger, asks_offer, Shared.dropVotes]
      omega
    | registered k id =>
      -- the sample itself goes from asked to open, the later ones stay asked
      have hopen := asksFrom_registered_le κ k (κ ∈ s.mem.pipe.votes)
      have henqueue : (ExamPc.enqueue k id).asks κ =
        k.inCell.todo.count κ.unit + k.asksFrom κ k.sampleNo := rfl
      simp only [askLedger, asks_offer, Pipeline.registerVotes, AList.mem_insert]
      omega
    | reported cell answered | reportedLast cell answered =>
      obtain ⟨n, hpipe⟩ := reportCell_pipe plan (s.mem.endCell cell) cell.run.id answered
      simp only [askLedger, hpipe]
      exact le_rfl
    | marked | markedLast =>
      simp only [askLedger, Pipeline.markCellsDone_votes]
      exact le_rfl
    | recordCrash | settleCrash => simp [Shared.panic] at hok
    | skip cell | cut l | stamped cell modelId cases =>
      -- the cell's units are given up
      exact Int.add_le_add_left (Int.ofNat_le.mpr (Nat.zero_le _)) _
    | casesDone l hrest => exact Int.add_le_add_left (Int.ofNat_le.mpr (Nat.zero_le _)) _
    | _ => exact le_rfl
  judge pc st m pc' _ h hok := by
    cases h with
    | landed j score p hp =>
      rcases Pipeline.landVote_open hp with ⟨-, rfl⟩ | ⟨sv, hsv, -, rfl⟩
      · exact le_rfl
      · have hmem : j.sample ∈ s.mem.pipe.votes := AList.lookup_isSome.mp (by simp [hsv])
        simp only [askLedger, AList.mem_insert]
        by_cases hκ : κ = j.sample
        · simp [hκ, hmem]
        · simp [hκ]
    | votesIn j score p median hp =>
      obtain ⟨sv, -, -, -, rfl⟩ := Pipeline.landVote_complete hp
      simp only [askLedger, AList.mem_erase]
      by_cases hκ : κ = j.sample
      · simp only [hκ, ne_eq, not_true_eq_false, false_and, if_false]
        split_ifs <;> omega
      · simp [hκ]
    | settled j median p hp | completed j median p agg hp =>
      obtain ⟨aggs, rfl⟩ := Pipeline.settleSample_eq hp
      exact le_rfl
    | decremented j | decrementedLast j =>
      simp only [askLedger, Pipeline.decrementPending_votes]
      exact le_rfl
    | settleCrash => simp [Shared.panic] at hok
    | _ => exact le_rfl
  handCell c cs := by
    change c.units.count κ.unit + 0 + (cs.flatMap Cell.units).count κ.unit =
      0 + ((c :: cs).flatMap Cell.units).count κ.unit
    rw [List.flatMap_cons, List.count_append]
    omega

/-- A sample is asked at most as often as its unit is planned. -/
theorem askLedger_of_reach (κ : SampleKey) (h : Reached env plan s)
    (hok : s.mem.panicked = false) : (askLedger plan κ).value s ≤ plan.planned κ.unit := by
  refine Ledger.value_le_of_reach ?_ (fun _ _ _ => askLedger_law _) h hok
  intro st
  rw [Ledger.value_start st rfl rfl]
  have hleft : plan.left (plan.startExec env).main = plan.cells := rfl
  simp only [askLedger, hleft, Plan.startMem, newPipeline, AList.notMem_empty, if_false, zero_add]
  exact le_rfl

/-- **Votes are registered once.** A sample of a unit that is planned at most once has no
open votes when its worker registers them. -/
theorem notMem_votes_of_enqueue (hplanned : plan.planned u ≤ 1)
    (h : Reached env plan s) (hok : s.mem.panicked = false)
    {k : SampleCursor} {id : ℕ} (hpc : .enqueue k id ∈ s.exam)
    (hu : k.unit = u) : k.sample ∉ s.mem.pipe.votes := by
  intro hmem
  have hvalue := askLedger_of_reach k.sample h hok
  have hunit : k.sample.unit = u := hu
  rw [hunit] at hvalue
  obtain ⟨i, hi⟩ := List.getElem?_of_mem hpc
  have hheld := Ledger.exam_le_held (L := askLedger plan k.sample) hi
  have hasks : k.asksFrom k.sample k.sampleNo = 1 := if_pos ⟨rfl, le_rfl⟩
  have hone : (askLedger plan k.sample).exam (.enqueue k id) =
    k.inCell.todo.count k.sample.unit + k.asksFrom k.sample k.sampleNo := rfl
  have hopen : (askLedger plan k.sample).mem s.mem = 1 := by simp [askLedger, hmem]
  simp only [Ledger.value] at hvalue
  omega

/-! ### Votes of a sample -/

/-- The vote a judge worker has not landed. -/
def JudgePc.vote? : JudgePc → Option JudgeJob
  | .take j | .call j | .record j _ | .land j _ => some j
  | _ => none

/-- The votes an open sample waits for. -/
def Pipeline.votesOwed (p : Pipeline) (κ : SampleKey) : ℤ :=
  match p.votes.lookup κ with
  | some sv => sv.expected - sv.landed
  | none => 0

/-- The votes of a sample on offer, with a judge worker or dropped, less the ones it waits
for. -/
def landLedger (κ : SampleKey) : Ledger where
  mem m := m.hist.dropped.countP (·.sample = κ) - m.pipe.votesOwed κ
  main _ := 0
  exam pc := pc.jobs.countP (·.sample = κ)
  judge pc := pc.vote?.toList.countP (·.sample = κ)

theorem votesOwed_of_votes_eq {p q : Pipeline} (h : q.votes = p.votes) :
    q.votesOwed κ = p.votesOwed κ := by
  rw [Pipeline.votesOwed, h, Pipeline.votesOwed]

theorem votesOwed_of_notMem {p : Pipeline} (h : κ ∉ p.votes) : p.votesOwed κ = 0 := by
  rw [Pipeline.votesOwed, AList.lookup_eq_none.mpr h]

theorem votesOwed_of_lookup {p : Pipeline} {sv : SampleVotes} (h : p.votes.lookup κ = some sv) :
    p.votesOwed κ = sv.expected - sv.landed := by
  rw [Pipeline.votesOwed, h]

theorem votesOwed_insert (κ : SampleKey) {p q : Pipeline} {κ' : SampleKey} {sv : SampleVotes}
    (h : q.votes = p.votes.insert κ' sv) :
    q.votesOwed κ = if κ' = κ then (sv.expected : ℤ) - sv.landed else p.votesOwed κ := by
  split_ifs with hκ
  · subst hκ
    exact votesOwed_of_lookup (by rw [h, AList.lookup_insert])
  · rw [Pipeline.votesOwed, Pipeline.votesOwed, h, AList.lookup_insert_ne (Ne.symm hκ)]

theorem votesOwed_erase (κ : SampleKey) {p q : Pipeline} {κ' : SampleKey}
    (h : q.votes = p.votes.erase κ') :
    q.votesOwed κ = if κ' = κ then 0 else p.votesOwed κ := by
  split_ifs with hκ
  · subst hκ
    exact votesOwed_of_notMem (AList.lookup_eq_none.mp (by rw [h, AList.lookup_erase]))
  · rw [Pipeline.votesOwed, Pipeline.votesOwed, h, AList.lookup_erase_ne (Ne.symm hκ)]

theorem countP_jobsOf_sample (k : SampleCursor) (id : ℕ) :
    (jobsOf k id).countP (·.sample = κ) = if k.sample = κ then k.judges.length else 0 := by
  have hjobs := countP_jobsOf k id fun u n => decide ((⟨u, n⟩ : SampleKey) = κ)
  simp only [decide_eq_true_eq] at hjobs
  exact hjobs

/-- The votes of a sample are conserved as long as no open sample is registered again and no
vote lands on a sample that is not open. -/
theorem landLedger_law
    (hfresh : ∀ k id, .enqueue k id ∈ s.exam → k.sample = κ → κ ∉ s.mem.pipe.votes)
    (hopen : ∀ j score, .land j score ∈ s.judge → j.sample = κ → κ ∈ s.mem.pipe.votes) :
    (landLedger κ).Law (· = ·) env plan s where
  main pc st m pc' _ h := by
    cases h with
    | marked | markedLast =>
      simp only [landLedger, votesOwed_of_votes_eq (Pipeline.markCellsDone_votes _ _)]
    | _ => rfl
  exam pc st m pc' hpc h hok := by
    cases h with
    | opened k =>
      obtain ⟨aggs, hp⟩ := Pipeline.openCase_eq s.mem.pipe k.unit k.inCell.modelId k.profile
        (env.samples k.case)
      simp only [landLedger, hp]
      rfl
    | recorded k id text latencyMs i o cost p hp =>
      obtain ⟨agg, agg', -, rfl, -⟩ := Pipeline.recordAnswer_spec hp
      simp only [landLedger, jobs_routeSample]
      rfl
    | settled k median p hp =>
      obtain ⟨aggs, rfl⟩ := Pipeline.settleSample_eq hp
      simp only [landLedger, jobs_sampleDone]
      rfl
    | completed k median p agg hp =>
      obtain ⟨aggs, rfl⟩ := Pipeline.settleSample_eq hp
      rfl
    | wrote | offeredAll =>
      simp only [landLedger, jobs_sampleDone]
      rfl
    | registered k id =>
      have howed := votesOwed_insert κ (p := s.mem.pipe)
        (q := s.mem.pipe.registerVotes k.sample k.judges.length) rfl
      simp only [landLedger, countP_jobsOf_sample, Shared.enqueueVotes, ExamPc.jobs, howed,
        List.countP_nil]
      split_ifs with hκ
      · -- as many votes are put on offer as the sample now waits for
        rw [votesOwed_of_notMem (hfresh k id hpc hκ)]
        omega
      · rfl
    | dropped k jobs =>
      simp only [landLedger, jobs_sampleDone, jobs_offer, Shared.dropVotes, List.countP_append,
        List.countP_nil]
      omega
    | reported cell answered | reportedLast cell answered =>
      obtain ⟨n, hpipe⟩ := reportCell_pipe plan (s.mem.endCell cell) cell.run.id answered
      simp only [landLedger, reportCell_hist, hpipe]
      rfl
    | marked | markedLast =>
      simp only [landLedger, votesOwed_of_votes_eq (Pipeline.markCellsDone_votes _ _)]
      rfl
    | recordCrash | settleCrash => simp [Shared.panic] at hok
    | _ => rfl
  judge pc st m pc' hpc h hok := by
    cases h with
    | landed j score p hp =>
      rcases Pipeline.landVote_open hp with ⟨hnone, rfl⟩ | ⟨sv, hsv, -, heq⟩
      · have hκ : j.sample ≠ κ := by
          intro hκ
          exact AList.lookup_eq_none.mp (hκ ▸ hnone) (hopen j score hpc hκ)
        simp [landLedger, JudgePc.vote?, hκ]
      · have howed := votesOwed_insert κ (congrArg Pipeline.votes heq)
        simp only [landLedger, howed, JudgePc.vote?, Option.toList_none, Option.toList_some,
          List.countP_nil, List.countP_singleton, decide_eq_true_eq]
        split_ifs with hκ
        · rw [← hκ, votesOwed_of_lookup hsv]
          omega
        · rfl
    | votesIn j score p median hp =>
      obtain ⟨sv, hsv, hlast, -, heq⟩ := Pipeline.landVote_complete hp
      have howed := votesOwed_erase κ (congrArg Pipeline.votes heq)
      simp only [landLedger, howed, JudgePc.vote?, Option.toList_none, Option.toList_some,
        List.countP_nil, List.countP_singleton, decide_eq_true_eq]
      split_ifs with hκ
      · rw [← hκ, votesOwed_of_lookup hsv]
        omega
      · rfl
    | settled j median p hp | completed j median p agg hp =>
      obtain ⟨aggs, rfl⟩ := Pipeline.settleSample_eq hp
      rfl
    | decremented j | decrementedLast j =>
      simp only [landLedger, votesOwed_of_votes_eq (Pipeline.decrementPending_votes _ _)]
      rfl
    | settleCrash => simp [Shared.panic] at hok
    | _ => rfl
  handCell c cs := rfl
  handJob k job jobs := by
    change jobs.countP (·.sample = κ) + [job].countP (·.sample = κ) =
      (job :: jobs).countP (·.sample = κ) + 0
    rw [Nat.add_zero, Nat.add_comm, ← List.countP_append]
    rfl

/-- **Votes of a sample.** An open sample waits for its votes on offer, with a judge worker
or dropped. -/
theorem votesOwed_of_reach (hplanned : plan.planned κ.unit ≤ 1)
    (h : Reached env plan s) (hok : s.mem.panicked = false) :
    s.mem.pipe.votesOwed κ =
      s.mem.hist.dropped.countP (·.sample = κ) + (landLedger κ).held s.toExec := by
  have hvalue : (landLedger κ).value s = 0 := by
    refine Ledger.value_of_reach ?_ (fun t ht hlive hzero => landLedger_law ?_ ?_) h hok
    · intro st
      rw [Ledger.value_start st rfl rfl]
      simp [landLedger, Plan.startMem, newPipeline, Pipeline.votesOwed]
    · rintro k id hpc rfl
      exact notMem_votes_of_enqueue hplanned ht hlive hpc rfl
    · -- a vote on its way to the sample is one the sample waits for
      rintro j score hpc rfl
      by_contra hnot
      obtain ⟨i, hi⟩ := List.getElem?_of_mem hpc
      have hheld := Ledger.judge_le_held (L := landLedger j.sample) hi
      have hone : (landLedger j.sample).judge (.land j score) = 1 := by
        simp [landLedger, JudgePc.vote?]
      have howed := votesOwed_of_notMem hnot
      simp only [Ledger.value, landLedger] at hzero hheld hone
      omega
  simp only [Ledger.value, landLedger] at hvalue ⊢
  omega

end HubScope
