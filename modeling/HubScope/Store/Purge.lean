import HubScope.Store.Reopening
import Mathlib.Data.List.Dedup

/-!
# References after the purge

A suite is spread over its cases and runs, the results of the runs, their answers and the votes
on these. The purge deletes the cases, the runs and the results of the runs. The answers it
leaves, and the recovery of the judging starts from the answers: it looks up the run of each and
the case of each whose unit has no result.

## Main definitions

* `Database.Intact` — no row refers to a row that is not there
* `Database.pendingAnswers` — the answers the recovery looks a case up for
* `Database.RecoveryFinds` — the recovery finds the runs it lists and the cases of the pending
  answers
* `Unreferenced` — nothing that stays refers to a suite the purge deletes

## Main results

* `Intact.recoveryFinds` — in an intact database the recovery finds all it looks up
* `intact_purge_iff` — the purge keeps the database intact just when nothing refers to what goes
* `not_intact_purge` — a suite that has been answered and is disabled
-/

set_option autoImplicit false

namespace HubScope

namespace Database

variable (db : Database)

/-! ### References -/

/-- No row refers to a suite, run, case or answer that is not there. -/
structure Intact : Prop where
  cases : ∀ c ∈ db.cases, ∃ s ∈ db.suites, s.id = c.suiteId
  runs : ∀ run ∈ db.runs, ∃ s ∈ db.suites, s.id = run.suiteId
  results : ∀ r ∈ db.results,
    (∃ run ∈ db.runs, run.id = r.runId) ∧ ∃ c ∈ db.cases, c.id = r.caseId
  answers : ∀ a ∈ db.answers,
    (∃ run ∈ db.runs, run.id = a.runId) ∧ ∃ c ∈ db.cases, c.id = a.caseId
  judgeScores : ∀ j ∈ db.judgeScores, ∃ a ∈ db.answers, a.id = j.answerId

/-- `SELECT DISTINCT eval_run_id FROM eval_answers ORDER BY eval_run_id`. -/
def listRunsWithAnswers : List ℕ :=
  (db.answers.map EvalAnswer.runId).dedup.mergeSort

/-- The run of an id. -/
def getEvalRun (id : ℕ) : Option EvalRun := db.runs.find? (·.id = id)

/-- The case of an id. -/
def getCase (id : ℕ) : Option CaseRow := db.cases.find? (·.id = id)

/-- The answers of a run whose unit has no result of the run. -/
def pendingAnswers (runId : ℕ) : List EvalAnswer :=
  (db.answers.filter (·.runId = runId)).filter fun a =>
    (db.results.filter (·.runId = runId)).all (·.unit ≠ a.unit)

/-- The recovery finds every run it lists, and the case of every pending answer of the run. -/
def RecoveryFinds : Prop :=
  ∀ runId ∈ db.listRunsWithAnswers, (db.getEvalRun runId).isSome = true ∧
    ∀ a ∈ db.pendingAnswers runId, (db.getCase a.caseId).isSome = true

variable {db} {banks : Banks} {id : ℕ}

theorem getEvalRun_isSome : (db.getEvalRun id).isSome = true ↔ ∃ run ∈ db.runs, run.id = id := by
  simp [getEvalRun]

theorem getCase_isSome : (db.getCase id).isSome = true ↔ ∃ c ∈ db.cases, c.id = id := by
  simp [getCase]

/-- **In an intact database the recovery finds all it looks up.** -/
theorem Intact.recoveryFinds (h : db.Intact) : db.RecoveryFinds := by
  intro runId hlisted
  rw [listRunsWithAnswers, List.mem_mergeSort, List.mem_dedup] at hlisted
  obtain ⟨a, ha, rfl⟩ := List.mem_map.mp hlisted
  refine ⟨getEvalRun_isSome.mpr (h.answers a ha).1, fun b hb => getCase_isSome.mpr ?_⟩
  exact (h.answers b (List.mem_of_mem_filter (List.mem_of_mem_filter hb))).2

end Database

/-! ### What the purge leaves behind -/

/-- The suite of an id is not deleted by the purge: it is exempt, or enabled with a capability. -/
def SuiteStays (banks : Banks) (db : Database) (suiteId : ℕ) : Prop :=
  ∀ s ∈ db.suites, s.id = suiteId → banks.doomed s.retireLegacy = false

/-- Nothing that stays refers to a run or a case of a suite that goes: no answer does, and no
result of a run that stays. -/
structure Unreferenced (banks : Banks) (db : Database) : Prop where
  answerRuns : ∀ a ∈ db.answers, ∀ run ∈ db.runs, run.id = a.runId →
    SuiteStays banks db run.suiteId
  answerCases : ∀ a ∈ db.answers, ∀ c ∈ db.cases, c.id = a.caseId →
    SuiteStays banks db c.suiteId
  resultCases : ∀ r ∈ db.results, ∀ run ∈ db.runs, run.id = r.runId →
    SuiteStays banks db run.suiteId → ∀ c ∈ db.cases, c.id = r.caseId →
      SuiteStays banks db c.suiteId

namespace Database

variable {db : Database} {banks : Banks} {suiteId : ℕ}

theorem suiteStays_iff : SuiteStays banks db suiteId ↔ suiteId ∉ db.doomedIds banks := by
  constructor
  · intro hstays hmem
    obtain ⟨t, ht, hid⟩ := List.mem_map.mp hmem
    obtain ⟨ht, hdoomed⟩ := List.mem_filter.mp ht
    obtain ⟨s, hs, rfl⟩ := List.mem_map.mp ht
    rw [SuiteRow.id_retireLegacy] at hid
    rw [hstays s hs hid] at hdoomed
    exact absurd hdoomed (by simp)
  · intro hnot s hs hid
    by_contra hdoomed
    apply hnot
    rw [← hid, ← SuiteRow.id_retireLegacy]
    exact List.mem_map_of_mem
      (List.mem_filter.mpr ⟨List.mem_map_of_mem hs, by simpa using hdoomed⟩)

/-- The runs that the purge leaves. -/
theorem mem_runs_purge {run : EvalRun} : run ∈ (db.purgeDisabledSuites banks).runs ↔
    run ∈ db.runs ∧ SuiteStays banks db run.suiteId := by
  rw [suiteStays_iff]
  simp [purgeDisabledSuites]

/-- The cases that the purge leaves. -/
theorem mem_cases_purge {c : CaseRow} : c ∈ (db.purgeDisabledSuites banks).cases ↔
    c ∈ db.cases ∧ SuiteStays banks db c.suiteId := by
  rw [suiteStays_iff]
  simp [purgeDisabledSuites]

/-- A run's results stay just when the run does. -/
theorem mem_results_purge {r : EvalResult} (h : db.Keyed) {run : EvalRun} (hrun : run ∈ db.runs)
    (hid : run.id = r.runId) : r ∈ (db.purgeDisabledSuites banks).results ↔
      r ∈ db.results ∧ SuiteStays banks db run.suiteId := by
  have hdoomed : r.runId ∈ db.doomedRuns banks ↔ run.suiteId ∈ db.doomedIds banks := by
    constructor
    · intro hmem
      obtain ⟨run', hrun', hid'⟩ := List.mem_map.mp hmem
      obtain ⟨hmem', hsuite⟩ := List.mem_filter.mp hrun'
      have heq : run' = run :=
        List.inj_on_of_nodup_map h.runIds hmem' hrun (hid'.trans hid.symm)
      simpa [heq] using hsuite
    · intro hmem
      rw [← hid]
      exact List.mem_map_of_mem (List.mem_filter.mpr ⟨hrun, by simpa using hmem⟩)
  rw [suiteStays_iff, ← hdoomed]
  simp [purgeDisabledSuites]

/-- A suite that stays keeps its id. -/
theorem exists_suite_purge {s : SuiteRow} (hs : s ∈ db.suites)
    (hstays : SuiteStays banks db s.id) :
    ∃ t ∈ (db.purgeDisabledSuites banks).suites, t.id = s.id := by
  refine ⟨s.retireLegacy, List.mem_filter.mpr ⟨List.mem_map_of_mem hs, ?_⟩,
    SuiteRow.id_retireLegacy s⟩
  simp [hstays s hs rfl]

/-- Nothing refers to what goes, so the purge breaks no reference. -/
theorem Intact.purge (h : db.Intact) (hkeyed : db.Keyed) (hfree : Unreferenced banks db) :
    (db.purgeDisabledSuites banks).Intact := by
  constructor
  · intro c hc
    obtain ⟨hc, hstays⟩ := mem_cases_purge.mp hc
    obtain ⟨s, hs, hid⟩ := h.cases c hc
    rw [← hid] at hstays ⊢
    exact exists_suite_purge hs hstays
  · intro run hrun
    obtain ⟨hrun, hstays⟩ := mem_runs_purge.mp hrun
    obtain ⟨s, hs, hid⟩ := h.runs run hrun
    rw [← hid] at hstays ⊢
    exact exists_suite_purge hs hstays
  · intro r hr
    have hmem : r ∈ db.results := List.mem_of_mem_filter hr
    obtain ⟨⟨run, hrun, hid⟩, c, hc, hcid⟩ := h.results r hmem
    have hstays := ((mem_results_purge hkeyed hrun hid).mp hr).2
    exact ⟨⟨run, mem_runs_purge.mpr ⟨hrun, hstays⟩, hid⟩,
      c, mem_cases_purge.mpr ⟨hc, hfree.resultCases r hmem run hrun hid hstays c hc hcid⟩, hcid⟩
  · intro a ha
    obtain ⟨⟨run, hrun, hid⟩, c, hc, hcid⟩ := h.answers a ha
    exact ⟨⟨run, mem_runs_purge.mpr ⟨hrun, hfree.answerRuns a ha run hrun hid⟩, hid⟩,
      c, mem_cases_purge.mpr ⟨hc, hfree.answerCases a ha c hc hcid⟩, hcid⟩
  · exact h.judgeScores

/-- An intact database after the purge had nothing that refers to what went. -/
theorem Intact.unreferenced (h : (db.purgeDisabledSuites banks).Intact) (hkeyed : db.Keyed) :
    Unreferenced banks db := by
  have hcase : ∀ c ∈ db.cases, (∃ d ∈ (db.purgeDisabledSuites banks).cases, d.id = c.id) →
      SuiteStays banks db c.suiteId := by
    rintro c hc ⟨d, hd, hid⟩
    obtain ⟨hmem, hstays⟩ := mem_cases_purge.mp hd
    rwa [List.inj_on_of_nodup_map hkeyed.caseIds hmem hc hid] at hstays
  constructor
  · intro a ha run hrun hid
    obtain ⟨run', hrun', hid'⟩ := (h.answers a ha).1
    obtain ⟨hmem, hstays⟩ := mem_runs_purge.mp hrun'
    rwa [List.inj_on_of_nodup_map hkeyed.runIds hmem hrun (hid'.trans hid.symm)] at hstays
  · intro a ha c hc hid
    apply hcase c hc
    rw [hid]
    exact (h.answers a ha).2
  · intro r hr run hrun hid hstays c hc hcid
    apply hcase c hc
    rw [hcid]
    exact (h.results r ((mem_results_purge hkeyed hrun hid).mpr ⟨hr, hstays⟩)).2

/-- **The purge keeps a database intact, and all that the recovery looks up there, just when
nothing that stays refers to a suite that goes.** -/
theorem intact_purge_iff (h : db.Intact) (hkeyed : db.Keyed) :
    (db.purgeDisabledSuites banks).Intact ∧ (db.purgeDisabledSuites banks).RecoveryFinds ↔
      Unreferenced banks db := by
  constructor
  · rintro ⟨hafter, -⟩
    exact hafter.unreferenced hkeyed
  · intro hfree
    have hafter := h.purge hkeyed hfree
    exact ⟨hafter, hafter.recoveryFinds⟩

end Database

/-! ### A suite that has been answered -/

/-- A database with one suite of one case, a run over it, and a judged answer. -/
def answeredDatabase (enabled : Bool) : Database :=
  { suites := [⟨1, "mmlu", "MMLU", "knowledge", 0, 1, enabled⟩]
    suiteSeq := 1
    cases := [⟨1, 1, ⟨"q1", .judge, none, none, some "rubric", "basic", none, none⟩, true⟩]
    caseSeq := 1
    seedGens := fun _ => some (some 1)
    purged := fun _ => false
    benchmarkCutover := true
    benchmarkTrim := true
    runs := [⟨1, 1, 1, "judge", .done, some [(1, ["judge"])], none⟩]
    results := [⟨1, 1, "model", 1, some "answer", some 1, .v3, 100, none, none⟩]
    answers := [⟨1, 1, 1, "model", 1, 1, 1, .answered, some "answer", 100, none, none⟩]
    judgeScores := [⟨1, 0, "judge", some 1, none, none⟩] }

theorem answeredDatabase_keyed (enabled : Bool) : (answeredDatabase enabled).Keyed := by
  constructor <;> simp [answeredDatabase]

theorem answeredDatabase_intact (enabled : Bool) : (answeredDatabase enabled).Intact := by
  constructor <;> simp [answeredDatabase]

/-- **The answers of a disabled suite outlive it**: their run is gone, and the recovery does not
find it. -/
theorem not_intact_purge :
    (answeredDatabase false).Keyed ∧ (answeredDatabase false).Intact ∧
      ¬ ((answeredDatabase false).purgeDisabledSuites noBanks).Intact ∧
      ¬ ((answeredDatabase false).purgeDisabledSuites noBanks).RecoveryFinds := by
  have hruns : ((answeredDatabase false).purgeDisabledSuites noBanks).runs = [] := rfl
  refine ⟨answeredDatabase_keyed false, answeredDatabase_intact false, ?_, ?_⟩
  · intro hintact
    obtain ⟨⟨run, hrun, -⟩, -⟩ := hintact.answers _ (List.mem_singleton.mpr rfl)
    rw [hruns] at hrun
    exact absurd hrun List.not_mem_nil
  · intro hfinds
    have hlisted : 1 ∈ ((answeredDatabase false).purgeDisabledSuites noBanks).listRunsWithAnswers :=
      List.mem_mergeSort.mpr (by decide)
    have hfound := (hfinds 1 hlisted).1
    rw [Database.getEvalRun, hruns] at hfound
    exact absurd hfound (by simp)

/-- The suite enabled, beside a disabled one that nobody answered. -/
def retiredDatabase : Database :=
  { answeredDatabase true with
    suites := [⟨1, "mmlu", "MMLU", "knowledge", 0, 1, true⟩,
      ⟨2, "gsm8k", "GSM8K", "math", 0, 1, false⟩]
    suiteSeq := 2
    cases := [⟨1, 1, ⟨"q1", .judge, none, none, some "rubric", "basic", none, none⟩, true⟩,
      ⟨2, 2, ⟨"q2", .judge, none, none, some "rubric", "basic", none, none⟩, true⟩]
    caseSeq := 2 }

theorem retiredDatabase_keyed : retiredDatabase.Keyed := by
  constructor <;> simp [retiredDatabase, answeredDatabase]

theorem retiredDatabase_intact : retiredDatabase.Intact := by
  constructor <;> simp [retiredDatabase, answeredDatabase]

/-- Its runs and its answers are all of the enabled suite. -/
theorem retiredDatabase_unreferenced : Unreferenced noBanks retiredDatabase := by
  have hstays : SuiteStays noBanks retiredDatabase 1 := by
    unfold SuiteStays
    decide
  have hcases : ∀ c ∈ retiredDatabase.cases, c.id = 1 →
      SuiteStays noBanks retiredDatabase c.suiteId := by
    intro c hc hid
    rcases List.mem_pair.mp hc with rfl | rfl
    · exact hstays
    · cases hid
  constructor
  · intro a _ run hrun _
    rw [List.mem_singleton.mp hrun]
    exact hstays
  · intro a ha c hc hid
    rw [List.mem_singleton.mp ha] at hid
    exact hcases c hc hid
  · intro r hr _ _ _ _ c hc hid
    rw [List.mem_singleton.mp hr] at hid
    exact hcases c hc hid

/-- The disabled suite goes, and the database stays intact. -/
theorem intact_purge_enabled :
    ((retiredDatabase.purgeDisabledSuites noBanks).suites.map SuiteRow.id) = [1] ∧
      (retiredDatabase.purgeDisabledSuites noBanks).Intact ∧
      (retiredDatabase.purgeDisabledSuites noBanks).RecoveryFinds :=
  ⟨rfl, (Database.intact_purge_iff retiredDatabase_intact retiredDatabase_keyed).mpr
    retiredDatabase_unreferenced⟩

end HubScope
