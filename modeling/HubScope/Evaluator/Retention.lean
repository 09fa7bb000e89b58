import HubScope.Evaluator.Rows
import HubScope.Evaluator.Samples
import HubScope.Evaluator.Settling

/-!
# Retries keep a row for every unit

A retry deletes the row of a unit when it takes the unit up and writes a new one when the last
sample of the case has settled. Answer calls and judge calls always settle, failed ones as a
null, and a retry that is canceled between two cases leaves the cases it did not reach alone.
The exit that restores nothing is the one in `enqueueVotes`: votes not offered before the
cancel are given up, their sample never settles and the unit ends without a row.

## Main definitions

* `Retry.Distinct` — the requested units are distinct

## Main results

* `rowCount_of_returned_retry` — a unit keeps its one row unless a vote of it was dropped
* `rowCount_eq_one_iff` — the same of every retry and resume
-/

set_option autoImplicit false

namespace HubScope

variable {env : Env} {plan : Plan} {st st' : Store} {s : State} {u : UnitKey} {c : ℕ}

/-! ### One execution -/

/-- An execution that returned did not crash. -/
theorem live_of_returned (h : Reached env plan s) (hreturned : s.main = .returned) :
    s.mem.panicked = false := by
  refine Reached.invariant (I := fun t => t.main = .returned → t.mem.panicked = false)
    (fun _ _ => rfl) ?_ (fun _ _ ht => ht) h hreturned
  rintro t a t' ht - hlive hcases hmain
  -- once it returned, no worker is left to crash
  have hdone : t.main = .returned →
      (∀ pc ∈ t.exam, pc = .exited) ∧ ∀ pc ∈ t.judge, pc = .exited := by
    intro hmain
    exact (control_of_reach ht).no_worker (by rw [hmain]; rfl)
  cases hcases with
  | main hm => exact hm.panicked_eq.trans hlive
  | exam hi he => exact absurd ((hdone hmain).1 _ (List.mem_of_getElem? hi)) he.control.1
  | judge hj he => exact absurd ((hdone hmain).2 _ (List.mem_of_getElem? hj)) he.exit.1
  | _ => exact hlive

/-- **Retention.** A unit with one row that the retry asks at most once, and clears when it
does, has one row at the end just when no vote of it was dropped. -/
theorem rowCount_of_returned_retry {guard : State → Label → Prop} (hplanned : plan.planned u ≤ 1)
    (hkept : 0 < plan.planned u → plan.path.driver.kept (st.unitRows u) = [])
    (hrow : st.rowCount u = 1)
    (h : Transition.Reach (step env plan) guard (plan.start env st) s)
    (hreturned : s.main = .returned) :
    s.store.rowCount u = 1 ↔ ∀ j ∈ s.mem.hist.dropped, j.unit ≠ u := by
  have hreached := reached_of_reach h
  have hok := live_of_returned hreached hreturned
  obtain ⟨rs, hlength, hrows⟩ := unitRows_of_reach hplanned h hok
  have htodo := todo_of_reach u hreached hok
  have hflight := flight_of_reach hplanned hreached hok
  rw [inFlight, held_of_returned _ rfl rfl rfl hreached hreturned, Nat.add_zero,
    Pipeline.opened] at hflight
  have hdropped : u ∉ s.mem.pipe.aggs ↔ ∀ j ∈ s.mem.hist.dropped, j.unit ≠ u := by
    rw [mem_aggs_iff_of_returned hplanned hreached hok hreturned]
    simp only [not_exists, not_and, ne_eq]
  rw [← hdropped, ← length_unitRows, hrows, List.length_append, hlength]
  by_cases hstarted : s.mem.hist.started.count u = 0
  · -- the retry did not reach the unit
    rw [if_pos hstarted, length_unitRows, hrow]
    split_ifs at hflight with hopen
    · omega
    · exact iff_of_true (by omega) hopen
  · rw [if_neg hstarted, hkept (by omega), List.length_nil, Nat.zero_add]
    split_ifs at hflight with hopen
    · exact iff_of_false (by omega) (fun hclosed => hclosed hopen)
    · exact iff_of_true (by omega) hopen

/-! ### Retries and resumes -/

/-- A targeted retry is asked for distinct units. -/
def Retry.Distinct : Retry → Prop
  | answeredUnits us => us.Nodup
  | failedResults | units _ | resume _ => True

theorem results_reopenCampaign {rejoin : EvalRun → Bool}
    (h : st.reopenCampaign c rejoin = some st') : st'.results = st.results := by
  obtain ⟨campaigns, rfl⟩ := reopenCampaign_eq h
  rfl

/-- A unit with one row that a null-score retry asks had a null there. -/
theorem kept_of_planned_null (hvalid : st.Valid) (c : ℕ) (units : Option (List RetryUnit))
    (hrow : st.rowCount u = 1) :
    (planNullScoreCells st c units).2.planned u ≤ 1 ∧
      (0 < (planNullScoreCells st c units).2.planned u →
        Driver.kept .retryModel (st.unitRows u) = []) := by
  have hplanned := planned_planNullScoreCells_le hvalid c units u
  have hnull := nullCount_le_rowCount st u
  refine ⟨by omega, fun hpos => ?_⟩
  -- one row, and it is null, so the scored rows are none
  have hlength : (st.unitRows u).length = 1 := (length_unitRows st u).trans hrow
  obtain ⟨r, hr⟩ := List.length_eq_one_iff.mp hlength
  have hone : 0 < nullCount st u := by omega
  obtain ⟨r', hmem, hnull'⟩ := List.countP_pos_iff.mp hone
  obtain ⟨hunit, hscore⟩ := of_decide_eq_true hnull'
  have hin : r' ∈ st.unitRows u := List.mem_filter.mpr ⟨hmem, decide_eq_true hunit⟩
  obtain rfl := List.mem_singleton.mp (hr ▸ hin)
  rw [hr, Driver.kept, List.filter_singleton, hscore]
  rfl

/-- What a retry plans: a unit with one row at most once, and it clears the row. -/
theorem planned_of_start (hvalid : st.Valid) {retry : Retry} (hdistinct : retry.Distinct)
    (hstart : retry.start st c = some (st', plan) ∨ retry.startLive st c = some (st', plan))
    (hrow : st.rowCount u = 1) :
    st'.results = st.results ∧ plan.planned u ≤ 1 ∧
      (0 < plan.planned u → plan.path.driver.kept (st'.unitRows u) = []) := by
  -- retries of null scores plan after the campaign is reopened, which keeps the results
  have hnull : ∀ (units : Option (List RetryUnit)) (rejoin : EvalRun → Bool) (st₁ : Store),
      st.reopenCampaign c rejoin = some st₁ → planNullScoreCells st₁ c units = (st', plan) →
      st'.results = st.results ∧ plan.planned u ≤ 1 ∧
        (0 < plan.planned u → plan.path.driver.kept (st'.unitRows u) = []) := by
    intro units rejoin st₁ hreopen hplan
    have hresults := results_reopenCampaign hreopen
    have hrow₁ : st₁.rowCount u = 1 := by rw [Store.rowCount, hresults, ← hrow, Store.rowCount]
    have hplanned := kept_of_planned_null (hvalid.reopenCampaign hreopen) c units hrow₁
    have hresults' := planNullScoreRuns_results units st₁ (st₁.listEvalRunsByCampaign c)
    rw [hplan] at hplanned
    obtain ⟨rfl, rfl⟩ := Prod.mk.inj hplan
    refine ⟨hresults'.trans hresults, hplanned.1, ?_⟩
    rw [Store.unitRows, hresults']
    exact hplanned.2
  -- retries of any result ask each unit they were given once
  have hany : ∀ (us : List RetryUnit) (st₁ : Store) (settled : Bool), us.Nodup →
      (planAnsweredUnits st₁ c us settled).planned u ≤ 1 := by
    intro us st₁ settled hnodup
    exact (planned_planAnsweredUnits_le st₁ c us settled u).trans
      (List.nodup_iff_count_le_one.mp hnodup _)
  rcases hstart with hstart | hstart
  · cases retry with
    | failedResults =>
      obtain ⟨st₁, hreopen, hplan⟩ := Option.map_eq_some_iff.mp hstart
      exact hnull none _ st₁ hreopen hplan
    | units us =>
      obtain ⟨st₁, hreopen, hplan⟩ := Option.map_eq_some_iff.mp hstart
      exact hnull (some us) _ st₁ hreopen hplan
    | answeredUnits us =>
      obtain ⟨st₁, hreopen, hplan⟩ := Option.map_eq_some_iff.mp hstart
      obtain ⟨rfl, rfl⟩ := Prod.mk.inj hplan
      exact ⟨results_reopenCampaign hreopen, hany us _ true hdistinct, fun _ => rfl⟩
    | resume reachable =>
      unfold Retry.start resumeCampaign at hstart
      dsimp only at hstart
      split_ifs at hstart
      obtain ⟨st₁, hreopen, hplan⟩ := Option.map_eq_some_iff.mp hstart
      obtain ⟨rfl, rfl⟩ := Prod.mk.inj hplan
      exact ⟨results_reopenCampaign hreopen, planned_planResume_le_one hvalid c reachable u,
        fun _ => rfl⟩
  · cases retry with
    | answeredUnits us =>
      cases hstart
      exact ⟨rfl, hany us _ false hdistinct, fun _ => rfl⟩
    | _ => cases hstart

/-- **No lost result.** When a retry or a resume returns, a unit that had its row before has
one row just when no vote of it was dropped. -/
theorem rowCount_eq_one_iff (hvalid : st.Valid) {retry : Retry} (hdistinct : retry.Distinct)
    (hstart : retry.start st c = some (st', plan) ∨ retry.startLive st c = some (st', plan))
    (hrow : st.rowCount u = 1)
    (h : Transition.Reachable (step env plan) (plan.start env st') s)
    (hreturned : s.main = .returned) :
    s.store.rowCount u = 1 ↔ ∀ j ∈ s.mem.hist.dropped, j.unit ≠ u := by
  obtain ⟨hresults, hplanned, hkept⟩ := planned_of_start hvalid hdistinct hstart hrow
  have hrow' : st'.rowCount u = 1 := by rw [Store.rowCount, hresults, ← hrow, Store.rowCount]
  exact rowCount_of_returned_retry hplanned hkept hrow' h hreturned

/-! ### A vote that was not offered -/

/-- A settled campaign with one null result of a judge case. -/
def failedStore : Store where
  models := [⟨1, "m1", .chat, false, true⟩]
  suites := [⟨1, true⟩]
  cases := [judgeCase 1]
  campaigns := [⟨1, .done⟩]
  campaignModels := [(1, 1)]
  runs := [soloRun .done]
  results := [failedResult (soloRun .done) 1 "m1" (judgeCase 1)]
  answers := []
  judgeScores := []
  campaignSeq := 1
  runSeq := 1
  answerSeq := 0

theorem failedStore_valid : failedStore.Valid := by
  constructor <;> simp [failedStore, soloRun, failedResult, judgeCase]

/-- The row is deleted, the answer arrives, and the cancel comes before its vote is offered. -/
def droppedVoteLabels : List Label :=
  [.main, .main, .exam 0 .go, .handCell 0, .exam 0 (.setup (.ready "m1")), .exam 0 .go,
    .exam 0 .go, .exam 0 (.answer (.answered "a" 1 none none)), .exam 0 .go, .exam 0 .go,
    .exam 0 .go, .cancel, .exam 0 .go, .exam 0 .go, .exam 0 .go, .exam 0 .go, .exam 0 .go,
    .main, .main, .judge 0 .go, .main, .main, .main, .main, .main, .main, .main]

/-- The answer call fails under the cancel: the unit gets its null back. -/
def failedAnswerLabels : List Label :=
  [.main, .main, .exam 0 .go, .handCell 0, .exam 0 (.setup (.ready "m1")), .exam 0 .go,
    .exam 0 .go, .cancel, .exam 0 (.answer (.failed 1 none none)), .exam 0 .go, .exam 0 .go,
    .exam 0 .go, .exam 0 .go, .exam 0 .go, .exam 0 .go, .exam 0 .go, .exam 0 .go,
    .main, .exam 0 .go, .main, .judge 0 .go, .main, .main, .main, .main, .main, .main, .main]

/-- A cancel while the answer is awaited costs nothing. -/
theorem rowCount_eq_one_iff_failed : ∃ (st : Store) (plan : Plan) (s : State),
    Retry.start failedStore 1 .failedResults = some (st, plan) ∧ s.main = .returned ∧
      s.mem.canceled = true ∧ s.store.rowCount ⟨1, 1, 1⟩ = 1 := by
  obtain ⟨p, hp⟩ : ∃ p, Retry.start failedStore 1 .failedResults = some p := ⟨_, rfl⟩
  obtain ⟨s, hs⟩ : ∃ s, Transition.replay (step soloEnv p.2) (p.2.start soloEnv p.1)
      failedAnswerLabels = some s := by
    cases hp
    exact ⟨_, rfl⟩
  have hend : s.main = .returned ∧ s.mem.canceled = true ∧ s.mem.hist.dropped = [] := by
    cases hp
    cases hs
    exact ⟨rfl, rfl, rfl⟩
  have hdistinct : Retry.Distinct .failedResults := trivial
  have hiff := rowCount_eq_one_iff (u := ⟨1, 1, 1⟩) failedStore_valid hdistinct (.inl hp) rfl
    (.of_replay hs) hend.1
  refine ⟨p.1, p.2, s, hp, hend.1, hend.2.1, hiff.mpr fun j hj => ?_⟩
  rw [hend.2.2] at hj
  cases hj

/-- **Lost results.** A null-score retry that is canceled before it offers the votes of an
answer leaves the unit without a row. -/
theorem not_rowCount_eq_one :
    ¬ ∀ (env : Env) (plan : Plan) (st st' : Store) (s : State) (c : ℕ) (retry : Retry)
        (u : UnitKey), st.Valid → retry.Distinct → retry.start st c = some (st', plan) →
      Transition.Reachable (step env plan) (plan.start env st') s → s.main = .returned →
      st.rowCount u = 1 → s.store.rowCount u = 1 := by
  intro h
  obtain ⟨p, hp⟩ : ∃ p, Retry.start failedStore 1 .failedResults = some p := ⟨_, rfl⟩
  obtain ⟨s, hs⟩ : ∃ s, Transition.replay (step soloEnv p.2) (p.2.start soloEnv p.1)
      droppedVoteLabels = some s := by
    cases hp
    exact ⟨_, rfl⟩
  have hend : s.main = .returned ∧ s.store.rowCount ⟨1, 1, 1⟩ = 0 := by
    cases hp
    cases hs
    exact ⟨rfl, rfl⟩
  have hone := h soloEnv p.2 failedStore p.1 s 1 .failedResults ⟨1, 1, 1⟩ failedStore_valid
    trivial hp (.of_replay hs) hend.1 rfl
  rw [hend.2] at hone
  cases hone

end HubScope
