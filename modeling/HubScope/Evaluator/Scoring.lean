import HubScope.Evaluator.Focus
import HubScope.Evaluator.Recovery

/-!
# The row of a case, whatever the order of its calls

A script fixes what the calls of one case give: the answer of each sample and the vote of
each of its slots. However the exam worker, the judge workers and the other cases take turns,
a case whose calls follow the script is written once, with the row the script determines: the
mean of the sample medians, and the payloads of the answered samples in sample order.

## Main definitions

* `Script`, `Follows` — what the calls of a case give, and the steps in which they do
* `Script.median`, `Script.payload`, `scriptRow` — the row the script determines
* `turnLedger` — where each sample of the case is until it settles
* `Scripted` — the invariant of a run that follows the script

## Main results

* `caseResult_eq_scriptRow` — an aggregate that tallied the script's samples gives its row
* `turn_eq_zero` — where the case has no aggregate, no sample of it is owed
-/

set_option autoImplicit false

namespace HubScope

variable {env : Env} {plan : Plan} {st st' : Store} {m m' : Shared} {s s' : State} {u : UnitKey}
  {k₁ k : SampleCursor}

/-! ### Scripts -/

/-- What the calls of a case give: the answer of each sample, the vote of each of its slots. -/
structure Script where
  answer : ℕ → AnswerOutcome
  vote : ℕ → ℕ → Option ℚ

variable {σ : Script}

/-- The steps of a run in which the calls for the unit give what the script says. -/
def Follows (u : UnitKey) (σ : Script) (s : State) : Label → Prop
  | .exam i (.answer o) =>
    ∀ k, s.exam[i]? = some (.call k) → k.unit = u → o = σ.answer k.sampleNo
  | .judge i (.verdict o) =>
    ∀ j, s.judge[i]? = some (.call j) → j.unit = u → o.score = σ.vote j.sampleNo j.slot
  | _ => True

/-- Whether the label gives what the script says, decided on the state. -/
def Label.follows (u : UnitKey) (σ : Script) (s : State) : Label → Bool
  | .exam i (.answer o) =>
    match s.exam[i]? with
    | some (.call k) => k.unit ≠ u || o = σ.answer k.sampleNo
    | _ => true
  | .judge i (.verdict o) =>
    match s.judge[i]? with
    | some (.call j) => j.unit ≠ u || o.score = σ.vote j.sampleNo j.slot
    | _ => true
  | _ => true

theorem follows_of_label {a : Label} (h : a.follows u σ s = true) : Follows u σ s a := by
  unfold Follows
  split
  · intro k hk hu
    simpa [Label.follows, hk, hu] using h
  · intro j hj hu
    simpa [Label.follows, hj, hu] using h
  · trivial

/-- The payload of a case: what its answered samples took and said. -/
structure Payload where
  latencyMs : ℕ
  inputTokens : Option ℕ
  outputTokens : Option ℕ
  answerText : Option String
  deriving DecidableEq

namespace Payload

/-- The payload of a case without an answered sample. -/
def empty : Payload := ⟨0, none, none, none⟩

/-- Add what an answered sample took and said; a failed one adds nothing. -/
def record (p : Payload) : AnswerOutcome → Payload
  | .answered text latencyMs i o =>
    ⟨p.latencyMs + latencyMs, addIntPtr p.inputTokens i, addIntPtr p.outputTokens o,
      p.answerText <|> some text⟩
  | .failed _ _ _ => p

end Payload

/-- The payload an aggregate has gathered. -/
def CaseAggregate.payload (agg : CaseAggregate) : Payload :=
  ⟨agg.latencyMs, agg.inputTokens, agg.outputTokens, agg.answerText⟩

@[simp] theorem CaseAggregate.payload_settle (agg : CaseAggregate) (median : Option ℚ) :
    (agg.settle median).payload = agg.payload := by
  cases median <;> rfl

namespace Script

/-- The payload of the first `n` samples. -/
def payload (σ : Script) : ℕ → Payload
  | 0 => .empty
  | n + 1 => (σ.payload n).record (σ.answer (n + 1))

/-- The score a sample of the case settles with. -/
def median (env : Env) (k : SampleCursor) (σ : Script) (n : ℕ) : Option ℚ :=
  match σ.answer n with
  | .failed _ _ _ => none
  | .answered text _ _ _ =>
    match k.case.verdictType with
    | .rule => env.ruleVerdict k.case text k.profile
    | .judge => medianOfVotes ((List.range k.judges.length).map (σ.vote n))

/-- The sample numbers of the case. -/
def sampleNos (env : Env) (k : SampleCursor) : List ℕ := List.range' 1 (env.samples k.case)

end Script

/-- The row of a case that follows the script. -/
def scriptRow (env : Env) (k : SampleCursor) (σ : Script) : EvalResult where
  runId := k.unit.runId
  modelDbId := k.unit.modelDbId
  modelId := k.inCell.modelId
  caseId := k.unit.caseId
  answerText := (σ.payload (env.samples k.case)).answerText
  score := meanScore ((Script.sampleNos env k).map (σ.median env k))
  verdictProfile := k.profile
  latencyMs := (σ.payload (env.samples k.case)).latencyMs
  inputTokens := (σ.payload (env.samples k.case)).inputTokens
  outputTokens := (σ.payload (env.samples k.case)).outputTokens

/-! ### Scores and payloads -/

/-- In exact numbers the order in which the samples settled does not matter. -/
theorem meanScore_perm {medians medians' : List (Option ℚ)} (h : medians.Perm medians') :
    meanScore medians = meanScore medians' := by
  have hreduce : medians.reduceOption.Perm medians'.reduceOption := h.filterMap id
  have hnil : medians.reduceOption = [] ↔ medians'.reduceOption = [] := by
    rw [← List.length_eq_zero_iff, hreduce.length_eq, List.length_eq_zero_iff]
  simp only [meanScore, hnil, hreduce.sum_eq, hreduce.length_eq]

/-- A completed aggregate that settled the script's samples and has its payload is written as
its row. -/
theorem caseResult_eq_scriptRow {agg : CaseAggregate} {settled : List ℕ}
    (hperm : settled.Perm (Script.sampleNos env k))
    (htallied : Tallied agg (settled.map (σ.median env k)))
    (hmodel : agg.modelId = k.inCell.modelId) (hprofile : agg.profile = k.profile)
    (hpayload : agg.payload = σ.payload (env.samples k.case)) :
    caseResult k.unit agg = scriptRow env k σ := by
  have hscore := (htallied.score k.unit).trans (meanScore_perm (hperm.map (σ.median env k)))
  have hfields : caseResult k.unit agg =
      { runId := k.unit.runId, modelDbId := k.unit.modelDbId, modelId := agg.modelId
        caseId := k.unit.caseId, answerText := agg.payload.answerText
        score := (caseResult k.unit agg).score, verdictProfile := agg.profile
        latencyMs := agg.payload.latencyMs, inputTokens := agg.payload.inputTokens
        outputTokens := agg.payload.outputTokens } := rfl
  rw [hfields, hscore, hmodel, hprofile, hpayload]
  rfl

/-- A completed aggregate of a case that follows the script: it is written as the script's row,
and it settled the samples of the case in some order. -/
structure Completes (env : Env) (k : SampleCursor) (σ : Script) (agg : CaseAggregate) : Prop where
  row : caseResult k.unit agg = scriptRow env k σ
  settled : ∃ settled : List ℕ, settled.Perm (Script.sampleNos env k) ∧
    Tallied agg (settled.map (σ.median env k))

/-- What recording an answer does to the aggregate it is folded into. -/
theorem recordAnswer_payload {p q : Pipeline} {latencyMs : ℕ} {i o : Option ℕ} {text : String}
    (h : p.recordAnswer u latencyMs i o text = some q) :
    ∃ agg agg', p.aggs.lookup u = some agg ∧ q = { p with aggs := p.aggs.insert u agg' } ∧
      agg'.payload = agg.payload.record (.answered text latencyMs i o) ∧
        agg'.modelId = agg.modelId ∧ agg'.profile = agg.profile ∧
          agg'.expectedSamples = agg.expectedSamples ∧
            ∀ medians, Tallied agg medians → Tallied agg' medians := by
  obtain ⟨agg, hagg, rfl⟩ := Option.map_eq_some_iff.mp h
  exact ⟨agg, _, hagg, rfl, rfl, rfl, rfl, rfl,
    fun medians ht => ⟨ht.settled, ht.added, ht.scored⟩⟩

@[simp] theorem CaseAggregate.settle_modelId (agg : CaseAggregate) (median : Option ℚ) :
    (agg.settle median).modelId = agg.modelId := by
  cases median <;> rfl

@[simp] theorem CaseAggregate.settle_profile (agg : CaseAggregate) (median : Option ℚ) :
    (agg.settle median).profile = agg.profile := by
  cases median <;> rfl

/-! ### Where a sample is until it settles -/

/-- Whether a case whose next sample is `n` still has the sample to settle or to send out. -/
def SampleCursor.owes (env : Env) (k : SampleCursor) (κ : SampleKey) (n : ℕ) : ℕ :=
  if k.unit = κ.unit ∧ n ≤ κ.sampleNo ∧ κ.sampleNo ≤ env.samples k.case then 1 else 0

/-- Whether an exam worker has the sample to settle or to send out. -/
def ExamPc.owes (env : Env) (κ : SampleKey) : ExamPc → ℕ
  | .call k | .persist k _ | .record k _ _ | .settle k _ | .enqueue k _ =>
    k.owes env κ k.sampleNo
  | .write k _ | .offer k _ | .noteOffered k _ => k.owes env κ (k.sampleNo + 1)
  | _ => 0

/-- Whether a judge worker is settling the sample. -/
def JudgePc.owes (κ : SampleKey) : JudgePc → ℕ
  | .settle j _ => if j.sample = κ then 1 else 0
  | _ => 0

/-- The sample: with its exam worker, with its jury, or with the judge worker that settles
it. -/
def turnLedger (env : Env) (κ : SampleKey) : Ledger where
  mem m := if κ ∈ m.pipe.votes then 1 else 0
  main _ := 0
  exam pc := pc.owes env κ
  judge pc := pc.owes κ

theorem owes_caseDone (env : Env) (k : SampleCursor) (κ : SampleKey) :
    (caseDone plan k).owes env κ = 0 :=
  caseDone_rule k (fun _ => rfl) fun _ _ => rfl

/-- Past a sample the later ones are owed. -/
theorem owes_sampleDone (env : Env) (plan : Plan) (k : SampleCursor) (κ : SampleKey) :
    (sampleDone env plan k).owes env κ = k.owes env κ (k.sampleNo + 1) := by
  unfold sampleDone
  split_ifs with hlast
  · rfl
  · rw [owes_caseDone, SampleCursor.owes, if_neg]
    rintro ⟨-, hlow, hhigh⟩
    omega

theorem owes_routeSample (env : Env) (k : SampleCursor) (id : ℕ) (text : String) (κ : SampleKey) :
    (routeSample env { k with answered := true } id text).owes env κ =
      k.owes env κ k.sampleNo := by
  refine routeSample_rule { k with answered := true } id text ?settle ?enqueue
  case settle => exact fun _ => rfl
  case enqueue => exact fun _ => rfl

/-- The sample at hand is owed once more than the later ones. -/
theorem owes_succ (env : Env) (k : SampleCursor) (κ : SampleKey)
    (hle : k.sampleNo ≤ env.samples k.case) :
    k.owes env κ k.sampleNo =
      k.owes env κ (k.sampleNo + 1) + if k.sample = κ then 1 else 0 := by
  unfold SampleCursor.owes
  by_cases hκ : k.sample = κ
  · subst hκ
    simp [SampleCursor.sample, hle]
  · have hne : k.unit = κ.unit → k.sampleNo ≠ κ.sampleNo := by
      intro hunit hno
      apply hκ
      cases κ
      exact SampleKey.mk.injEq .. ▸ ⟨hunit, hno⟩
    rw [if_neg hκ, add_zero]
    congr 1
    ext
    constructor
    · rintro ⟨hunit, hlow, hhigh⟩
      exact ⟨hunit, lt_of_le_of_ne hlow (hne hunit), hhigh⟩
    · rintro ⟨hunit, hlow, hhigh⟩
      exact ⟨hunit, by omega, hhigh⟩

/-- A worker at another unit owes no sample of this one. -/
theorem owes_eq_zero_of_unit? {pc : ExamPc} (hu : pc.unit? ≠ some u) (n : ℕ) :
    pc.owes env ⟨u, n⟩ = 0 := by
  have hzero : ∀ (k : SampleCursor) (i : ℕ), k.unit ≠ u → k.owes env ⟨u, n⟩ i = 0 :=
    fun k i hk => if_neg fun h => hk h.1
  cases pc with
  | call k | persist k o | record k o id | settle k median | enqueue k id | write k agg
  | offer k jobs | noteOffered k jobs => exact hzero k _ fun heq => hu (congrArg some heq)
  | _ => rfl

theorem judge_owes_eq_zero_of_unit? {pc : JudgePc} (hu : pc.unit? ≠ some u) (n : ℕ) :
    pc.owes ⟨u, n⟩ = 0 := by
  cases pc with
  | settle j median =>
    exact if_neg fun heq => hu (congrArg some (congrArg SampleKey.unit heq))
  | _ => rfl

/-! ### The invariant -/

/-- A cursor in the case `k₁` opened, at one of its samples. -/
structure SampleCursor.InCase (env : Env) (k₁ k : SampleCursor) : Prop where
  cell : k.inCell.cell = k₁.inCell.cell
  modelId : k.inCell.modelId = k₁.inCell.modelId
  same : k.case = k₁.case
  pos : 1 ≤ k.sampleNo
  le : k.sampleNo ≤ env.samples k₁.case

namespace SampleCursor.InCase

theorem unit (h : SampleCursor.InCase env k₁ k) : k.unit = k₁.unit := by
  rw [SampleCursor.unit, h.cell, h.same, SampleCursor.unit]

theorem judges (h : SampleCursor.InCase env k₁ k) : k.judges = k₁.judges := by
  rw [SampleCursor.judges, h.cell, SampleCursor.judges]

theorem profile (h : SampleCursor.InCase env k₁ k) : k.profile = k₁.profile := by
  rw [SampleCursor.profile, h.cell, h.same, SampleCursor.profile]

theorem sample (h : SampleCursor.InCase env k₁ k) : k.sample = ⟨k₁.unit, k.sampleNo⟩ := by
  rw [SampleCursor.sample, h.unit]

end SampleCursor.InCase

/-- What an exam worker in the case has at hand is what the script says. -/
def ExamPc.Scripted (env : Env) (k₁ : SampleCursor) (σ : Script) : ExamPc → Prop
  | .openCase k => k₁.InCase env k ∧ k.sampleNo = 1
  | .call k | .offer k _ | .noteOffered k _ => k₁.InCase env k
  | .persist k o | .record k o _ => k₁.InCase env k ∧ o = σ.answer k.sampleNo
  | .settle k median => k₁.InCase env k ∧ median = σ.median env k₁ k.sampleNo
  | .write k agg => k₁.InCase env k ∧ Completes env k₁ σ agg
  | .enqueue k _ => k₁.InCase env k ∧
    σ.median env k₁ k.sampleNo =
      medianOfVotes ((List.range k₁.judges.length).map (σ.vote k.sampleNo))
  | _ => True

/-- What a judge worker of the unit has at hand is what the script says. -/
def JudgePc.Scripted (env : Env) (k₁ : SampleCursor) (σ : Script) : JudgePc → Prop
  | .record j o => o.score = σ.vote j.sampleNo j.slot
  | .land j score => score = σ.vote j.sampleNo j.slot
  | .settle j median => median = σ.median env k₁ j.sampleNo
  | .write _ agg => Completes env k₁ σ agg
  | _ => True

/-- How many samples of its case an exam worker has recorded. -/
def ExamPc.answeredTo : ExamPc → ℕ
  | .call k | .persist k _ | .record k _ _ => k.sampleNo - 1
  | .settle k _ | .write k _ | .enqueue k _ | .offer k _ | .noteOffered k _ => k.sampleNo
  | _ => 0

/-- The votes of an open sample: each slot has its vote or the vote is outstanding. -/
structure SampleVotes.Scripted (k₁ : SampleCursor) (σ : Script) (e : Exec) (median : Option ℚ)
    (n : ℕ) (sv : SampleVotes) : Prop where
  size : sv.scores.length = k₁.judges.length
  median : median = medianOfVotes ((List.range k₁.judges.length).map (σ.vote n))
  slots : ∀ slot < k₁.judges.length,
    sv.scores[slot]? = some (σ.vote n slot) ∨ Outstanding ⟨k₁.unit, n⟩ slot e

/-- An open aggregate: the samples that are nowhere else have settled with their medians, and
the payload is that of the samples recorded so far. -/
structure Accrued (env : Env) (k₁ : SampleCursor) (σ : Script) (s : State)
    (agg : CaseAggregate) : Prop where
  modelId : agg.modelId = k₁.inCell.modelId
  profile : agg.profile = k₁.profile
  expected : agg.expectedSamples = env.samples k₁.case
  samples : ∃ settled : List ℕ, Tallied agg (settled.map (σ.median env k₁)) ∧
    ∀ n, (settled.count n : ℤ) + (turnLedger env ⟨k₁.unit, n⟩).value s =
      (Script.sampleNos env k₁).count n
  here : ∀ pc ∈ s.exam, pc.unit? = some k₁.unit → agg.payload = σ.payload pc.answeredTo
  past : (∀ pc ∈ s.exam, pc.unit? ≠ some k₁.unit) →
    agg.payload = σ.payload (env.samples k₁.case)

/-- The invariant of a run in which the calls of the case follow the script: so do the
workers, the open votes, the aggregate and the rows written since the case was opened. -/
structure Scripted (env : Env) (k₁ : SampleCursor) (σ : Script) (rows : List EvalResult)
    (s : State) : Prop where
  exam : ∀ pc ∈ s.exam, pc.unit? = some k₁.unit → pc.Scripted env k₁ σ
  judge : ∀ pc ∈ s.judge, pc.unit? = some k₁.unit → pc.Scripted env k₁ σ
  votes : ∀ n sv, s.mem.pipe.votes.lookup ⟨k₁.unit, n⟩ = some sv →
    sv.Scripted k₁ σ s.toExec (σ.median env k₁ n) n
  agg : ∀ agg, s.mem.pipe.aggs.lookup k₁.unit = some agg → Accrued env k₁ σ s agg
  rows : s.store.unitRows k₁.unit =
    rows ++ List.replicate (s.mem.hist.written.count k₁.unit) (scriptRow env k₁ σ)

theorem mem_iff_of_lookup_eq {α β : Type} [DecidableEq α] {t t' : AList fun _ : α => β} {a : α}
    (h : t'.lookup a = t.lookup a) : a ∈ t' ↔ a ∈ t := by
  rw [← AList.lookup_isSome, h, AList.lookup_isSome]

/-- A step that leaves the unit and its workers alone. -/
theorem Scripted.quiet {rows : List EvalResult} (hs : Scripted env k₁ σ rows s)
    (hbeside : Beside k₁.unit s.store s.mem s'.store s'.mem)
    (hexam : ∀ pc : ExamPc, pc.unit? = some k₁.unit → (pc ∈ s'.exam ↔ pc ∈ s.exam))
    (hjudge : ∀ pc : JudgePc, pc.unit? = some k₁.unit → pc ∈ s'.judge → pc ∈ s.judge)
    (hturn : ∀ n, (turnLedger env ⟨k₁.unit, n⟩).value s' =
      (turnLedger env ⟨k₁.unit, n⟩).value s)
    (hout : ∀ n slot, Outstanding ⟨k₁.unit, n⟩ slot s.toExec →
      Outstanding ⟨k₁.unit, n⟩ slot s'.toExec) : Scripted env k₁ σ rows s' where
  exam pc hpc hu := hs.exam pc ((hexam pc hu).mp hpc) hu
  judge pc hpc hu := hs.judge pc (hjudge pc hu hpc) hu
  votes n sv hsv := by
    rw [hbeside.votes] at hsv
    have hold := hs.votes n sv hsv
    exact ⟨hold.size, hold.median, fun slot hslot => (hold.slots slot hslot).imp_right (hout n slot)⟩
  agg agg hagg := by
    rw [hbeside.agg] at hagg
    -- the aggregate is the same, and who still owes it samples is too
    have hold := hs.agg agg hagg
    obtain ⟨settled, htallied, hcount⟩ := hold.samples
    refine ⟨hold.modelId, hold.profile, hold.expected, ⟨settled, htallied, fun n => ?_⟩, ?_, ?_⟩
    · rw [hturn]
      exact hcount n
    · exact fun pc hpc hu => hold.here pc ((hexam pc hu).mp hpc) hu
    · exact fun hnone => hold.past fun pc hpc hu => hnone pc ((hexam pc hu).mpr hpc) hu
  rows := by rw [hbeside.rows, hbeside.written, hs.rows]

/-! ### Steps of the exam worker in the case -/

theorem scripted_sampleDone (plan : Plan) (σ : Script) (hk : k₁.InCase env k) :
    ((sampleDone env plan k).unit? = some k₁.unit →
      (sampleDone env plan k).Scripted env k₁ σ ∧
        (sampleDone env plan k).answeredTo = k.sampleNo) ∧
      ((sampleDone env plan k).unit? ≠ some k₁.unit →
        k.sampleNo = env.samples k₁.case) := by
  unfold sampleDone
  split_ifs with hlast
  · refine ⟨fun _ => ⟨⟨hk.cell, hk.modelId, hk.same, ?_, ?_⟩, ?_⟩, fun hne => absurd ?_ hne⟩
    · exact Nat.succ_le_succ (Nat.zero_le _)
    · rw [← hk.same]
      exact hlast
    · exact Nat.add_sub_cancel ..
    · exact congrArg some hk.unit
  · refine ⟨fun heq => ?_, fun _ => ?_⟩
    · rw [unit?_caseDone] at heq
      cases heq
    · rw [hk.same] at hlast
      exact le_antisymm hk.le (not_lt.mp hlast)

/-- Where an exam worker's step leaves an open aggregate of its case. -/
theorem Accrued.exam_set {i : ℕ} {pc pc' : ExamPc} {agg agg' : CaseAggregate}
    (h : Accrued env k₁ σ s agg) (hi : s.exam[i]? = some pc)
    (honly : ∀ pc₀ ∈ s.exam.set i pc', pc₀.unit? = some k₁.unit → pc₀ = pc')
    (hmodel : agg'.modelId = agg.modelId) (hprofile : agg'.profile = agg.profile)
    (hexpected : agg'.expectedSamples = agg.expectedSamples)
    (hsamples : ∀ settled : List ℕ, Tallied agg (settled.map (σ.median env k₁)) →
      ∃ settled' : List ℕ, Tallied agg' (settled'.map (σ.median env k₁)) ∧
        ∀ n, (settled'.count n : ℤ) + ((turnLedger env ⟨k₁.unit, n⟩).mem m' +
          pc'.owes env ⟨k₁.unit, n⟩) = settled.count n +
            ((turnLedger env ⟨k₁.unit, n⟩).mem s.mem + pc.owes env ⟨k₁.unit, n⟩))
    (hhere : pc'.unit? = some k₁.unit → agg'.payload = σ.payload pc'.answeredTo)
    (hpast : pc'.unit? ≠ some k₁.unit → agg'.payload = σ.payload (env.samples k₁.case)) :
    Accrued env k₁ σ { s with store := st', mem := m', exam := s.exam.set i pc' } agg' where
  modelId := hmodel.trans h.modelId
  profile := hprofile.trans h.profile
  expected := hexpected.trans h.expected
  samples := by
    obtain ⟨settled, htallied, hcount⟩ := h.samples
    obtain ⟨settled', htallied', hstep⟩ := hsamples settled htallied
    refine ⟨settled', htallied', fun n => ?_⟩
    -- what the worker owed before the step is settled or owed after it
    have hvalue := (turnLedger env ⟨k₁.unit, n⟩).value_exam hi st' m' pc'
    have hold := hcount n
    have hnew := hstep n
    change _ + (_ + ((pc.owes env ⟨k₁.unit, n⟩ : ℕ) : ℤ)) =
      _ + (_ + ((pc'.owes env ⟨k₁.unit, n⟩ : ℕ) : ℤ)) at hvalue
    omega
  here pc₀ hpc₀ hu := by
    obtain rfl := honly pc₀ hpc₀ hu
    exact hhere hu
  past hnone := by
    by_cases hu : pc'.unit? = some k₁.unit
    · have hlt : i < s.exam.length := (List.getElem?_eq_some_iff.mp hi).1
      exact absurd hu (hnone pc' (List.mem_set hlt _))
    · exact hpast hu

/-- A sample that a worker owes is one the aggregate waits for. -/
theorem owes_le_samplesLeft (pc : ExamPc) (n : ℕ) : pc.owes env ⟨u, n⟩ ≤ pc.samplesLeft env u := by
  -- the current sample is among those left
  have hnow : ∀ k : SampleCursor, k.owes env ⟨u, n⟩ k.sampleNo ≤
      if k.unit = u then env.samples k.case - k.sampleNo + 1 else 0 := by
    intro k
    unfold SampleCursor.owes
    split_ifs with h hu
    · exact Nat.succ_le_succ (Nat.zero_le _)
    · exact absurd h.1 hu
    · exact Nat.zero_le _
    · exact le_rfl
  have hlater : ∀ k : SampleCursor, k.owes env ⟨u, n⟩ (k.sampleNo + 1) ≤
      if k.unit = u then env.samples k.case - k.sampleNo else 0 := by
    intro k
    unfold SampleCursor.owes
    split_ifs with h hu
    · have hlow := h.2.1
      have hhigh := h.2.2
      dsimp only at hlow hhigh
      omega
    · exact absurd h.1 hu
    · exact Nat.zero_le _
    · exact le_rfl
  cases pc with
  | call k | persist k o | record k o id | settle k median | enqueue k id => exact hnow k
  | write k agg | offer k jobs | noteOffered k jobs => exact hlater k
  | _ => exact Nat.zero_le _

theorem judge_owes_le_settles (pc : JudgePc) (n : ℕ) : pc.owes ⟨u, n⟩ ≤ pc.settles u := by
  cases pc with
  | settle j median =>
    change (if j.sample = ⟨u, n⟩ then 1 else 0) ≤ if j.unit = u then 1 else 0
    split_ifs with h hu
    · exact le_rfl
    · exact absurd (congrArg SampleKey.unit h) hu
    · exact Nat.zero_le _
    · exact le_rfl
  | _ => exact Nat.zero_le _

/-- A unit without an aggregate has no sample anywhere. -/
theorem turn_eq_zero (env : Env) {plan : Plan} {s : State} (hplanned : plan.planned u ≤ 1)
    (h : Reached env plan s) (hok : s.mem.panicked = false) (hnot : u ∉ s.mem.pipe.aggs) (n : ℕ) :
    (turnLedger env ⟨u, n⟩).value s = 0 := by
  have howed := samplesOwed_of_reach hplanned h hok
  rw [samplesOwed_of_notMem hnot] at howed
  have hopen : ⟨u, n⟩ ∉ s.mem.pipe.votes := by
    intro hmem
    have hpos : 0 < s.mem.pipe.openSamples u :=
      List.countP_pos_iff.mpr ⟨_, AList.mem_keys.mp hmem, decide_eq_true rfl⟩
    omega
  have hexam := Pool.total_mono (f := (turnLedger env ⟨u, n⟩).exam)
    (g := (sampleLedger env u).exam) fun pc (_ : pc ∈ s.exam) => owes_le_samplesLeft pc n
  have hjudge := Pool.total_mono (f := (turnLedger env ⟨u, n⟩).judge)
    (g := (sampleLedger env u).judge) fun pc (_ : pc ∈ s.judge) => judge_owes_le_settles pc n
  have hmem : (turnLedger env ⟨u, n⟩).mem s.mem = 0 := if_neg hopen
  have hmain : (turnLedger env ⟨u, n⟩).main s.main = 0 := rfl
  simp only [Ledger.held] at howed
  simp only [Ledger.value, Ledger.held, hmem, hmain]
  omega

theorem Script.payload_eq {n : ℕ} (hn : 1 ≤ n) :
    σ.payload n = (σ.payload (n - 1)).record (σ.answer n) := by
  obtain ⟨i, rfl⟩ := Nat.exists_eq_add_of_le' hn
  rfl

theorem Script.count_sampleNos (n : ℕ) :
    (Script.sampleNos env k₁).count n = if 1 ≤ n ∧ n ≤ env.samples k₁.case then 1 else 0 := by
  rw [Script.sampleNos, List.count_range_1']
  congr 1
  ext
  omega

end HubScope
