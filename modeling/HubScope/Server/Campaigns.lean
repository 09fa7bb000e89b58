import HubScope.Server.Grid
import HubScope.Server.Placement
import HubScope.Store.UnitProgress

/-!
# Unit progress while cases are edited

The list of campaigns compares what was judged with what is expected now. Administrators edit the
cases at any time, also while a campaign is running: a case that is disabled after a row of it was
stored leaves the expected units and stays among the judged ones.

The rows of active campaigns are of enabled cases as long as no case is disabled that has such a
row, no row is stored for a case that was disabled after it was planned, and no campaign is
reopened that has a row of a disabled case.

## Main definitions

* `CaseEdit`, `editedStep` — the server with administrators who edit its cases
* `KeepsGrid` — no active campaign comes by a row of a disabled case
* `GridKept` — the rows of active campaigns are of members and enabled cases

## Main results

* `unitsBounded_of_reach` — runs that keep the grid list no unit too many
* `not_unitsBounded` — a case is disabled after it was judged
-/

set_option autoImplicit false

namespace HubScope

variable {env : Env} {plan : Plan} {st st' : Store} {u : UnitKey}

/-! ### Editing cases -/

/-- What an administrator does to the cases. -/
inductive CaseEdit
  | create (c : Case)
  | replace (oldId : ℕ) (c : Case)
  | setEnabled (id : ℕ) (enabled : Bool)

namespace CaseEdit

/-- The store call of an edit. -/
def run (st : Store) : CaseEdit → Option Store
  | create c => st.createCase c
  | replace oldId c => st.replaceCase oldId c
  | setEnabled id enabled => st.setCaseEnabled id enabled

/-- The case an edit disables. -/
def disables : CaseEdit → Option ℕ
  | replace oldId _ => some oldId
  | setEnabled id enabled => if enabled then none else some id
  | create _ => none

end CaseEdit

/-- One step of the server, or an edit of its cases. -/
def editedStep (w : World) : WorldLabel ⊕ CaseEdit → Option World
  | .inl a => worldStep w a
  | .inr e => if w.crashed then none else (e.run w.store).map fun st => { w with store := st }

/-! ### Rows of active campaigns -/

/-- The unit is of a run of a pending or running campaign. -/
def Store.Active (st : Store) (u : UnitKey) : Prop :=
  ∃ run ∈ st.runs, run.id = u.runId ∧ run.campaignId ∈ st.unfinished

/-- The case of the unit is enabled. -/
def Store.CaseEnabled (st : Store) (u : UnitKey) : Prop :=
  ∃ c ∈ st.cases, c.id = u.caseId ∧ c.enabled = true

instance (st : Store) (u : UnitKey) : Decidable (st.Active u) :=
  inferInstanceAs (Decidable (∃ run ∈ st.runs, run.id = u.runId ∧ run.campaignId ∈ st.unfinished))

instance (st : Store) (u : UnitKey) : Decidable (st.CaseEnabled u) :=
  inferInstanceAs (Decidable (∃ c ∈ st.cases, c.id = u.caseId ∧ c.enabled = true))

/-- No active campaign comes by a row of a disabled case. -/
def KeepsGrid (w : World) : WorldLabel ⊕ CaseEdit → Prop
  | .inl a => (∀ u ∈ w.writes a, w.store.Active u → w.store.CaseEnabled u) ∧
      ∀ c ∈ w.starts a, ∀ r ∈ w.store.results,
        (∃ run ∈ w.store.runs, run.id = r.runId ∧ run.campaignId = c) → w.store.CaseEnabled r.unit
  | .inr e => ∀ id ∈ e.disables, ∀ r ∈ w.store.results, w.store.Active r.unit → r.unit.caseId ≠ id

instance (w : World) (a : WorldLabel ⊕ CaseEdit) : Decidable (KeepsGrid w a) :=
  match a with
  | .inl a => inferInstanceAs (Decidable ((∀ u ∈ w.writes a, w.store.Active u →
      w.store.CaseEnabled u) ∧ ∀ c ∈ w.starts a, ∀ r ∈ w.store.results,
        (∃ run ∈ w.store.runs, run.id = r.runId ∧ run.campaignId = c) → w.store.CaseEnabled r.unit))
  | .inr e => inferInstanceAs (Decidable (∀ id ∈ e.disables, ∀ r ∈ w.store.results,
      w.store.Active r.unit → r.unit.caseId ≠ id))

/-- The rows of a store are of members and of cases of their suites, and those of active campaigns
of enabled cases. -/
structure GridKept (st : Store) : Prop where
  keys : GridKeys st
  campaigns : CampaignKeys st
  placed : ∀ r ∈ st.results, st.Placed r.unit
  enabled : ∀ r ∈ st.results, st.Active r.unit → st.CaseEnabled r.unit

/-- The rows of an active campaign are on the grid. -/
theorem GridKept.onGrid (h : GridKept st) {run : EvalRun} (hrun : run ∈ st.runs)
    (hactive : run.campaignId ∈ st.unfinished) : st.OnGrid run := by
  intro r hr hid
  have hplaced := (h.keys.placed_iff (List.mem_map_of_mem hrun) hid).mp (h.placed r hr)
  obtain ⟨hmember, hcase⟩ := hplaced
  obtain ⟨c, hc, hcid, henabled⟩ := h.enabled r hr ⟨run, hrun, hid.symm, hactive⟩
  obtain ⟨c', hc', hkey⟩ := List.mem_map.mp hcase
  obtain ⟨hcid', hsuite⟩ := Prod.mk.inj hkey
  -- the enabled case and the one of the suite have one id
  obtain rfl : c' = c := List.inj_on_of_nodup_map h.keys.caseIds hc' hc (hcid'.trans hcid.symm)
  refine ⟨hmember, c', List.mem_filter.mpr ⟨hc, ?_⟩, hcid⟩
  exact decide_eq_true ⟨hsuite, henabled⟩

theorem GridKept.unitsBounded (h : GridKept st) : st.UnitsBounded := by
  apply Store.judgedUnits_le_expectedUnits h.keys.runIds
  intro run hrun hactive
  exact h.onGrid hrun (mem_unfinished.mpr hactive)

/-- A store whose rows were placed before a step is kept if the rows that are of active campaigns
after it are of enabled cases. -/
theorem GridKept.of_growth (hgrow : Growth st st') (hkeys : GridKeys st')
    (hcampaigns : CampaignKeys st') (hplaced : ∀ r ∈ st'.results, st.Placed r.unit)
    (henabled : ∀ r ∈ st'.results, ∀ run ∈ st.runs, run.id = r.runId →
      run.campaignId ∈ st'.unfinished → st'.CaseEnabled r.unit) : GridKept st' := by
  refine ⟨hkeys, hcampaigns, fun r hr => hgrow.placed (hplaced r hr), fun r hr hactive => ?_⟩
  obtain ⟨run, hrun, hid, -⟩ := hplaced r hr
  obtain ⟨run', hrun', hid', hunfinished⟩ := hactive
  obtain ⟨run₁, hrun₁, hkey⟩ := List.mem_map.mp (hgrow.runs (List.mem_map_of_mem hrun))
  obtain ⟨hid₁, hcampaign, -⟩ : run₁.id = run.id ∧ run₁.campaignId = run.campaignId ∧
      run₁.suiteId = run.suiteId := by
    simpa [EvalRun.key] using hkey
  -- the run of the row is still the one it was
  obtain rfl : run' = run₁ := hkeys.eq_of_id hrun' hrun₁ (by rw [hid', hid₁, hid])
  exact henabled r hr run hrun hid (hcampaign ▸ hunfinished)

/-! ### Edits -/

/-- An edit rewrites the cases and leaves every case enabled but the one it disables. -/
structure Edited (st st' : Store) (disabled : Option ℕ) : Prop where
  cases : st.cases.map Case.key ⊆ st'.cases.map Case.key
  nodup : (st.cases.map (·.id)).Nodup → (st'.cases.map (·.id)).Nodup
  enabled : ∀ u, st.CaseEnabled u → u.caseId ∉ disabled → st'.CaseEnabled u
  rest : ∃ cases, st' = { st with cases := cases }

/-- What a toggle does not touch of the cases stays. -/
theorem map_cases_setEnabled {β : Type*} {f : Case → β}
    (hf : ∀ (c : Case) (enabled : Bool), f { c with enabled := enabled } = f c) (st : Store)
    (id : ℕ) (enabled : Bool) : (st.setEnabled id enabled).cases.map f = st.cases.map f := by
  rw [Store.setEnabled, List.map_map]
  refine List.map_congr_left fun c _ => ?_
  rw [Function.comp_apply]
  split_ifs
  · exact hf c enabled
  · rfl

theorem edited_setEnabled (st : Store) (id : ℕ) (enabled : Bool) :
    Edited st (st.setEnabled id enabled) (if enabled then none else some id) := by
  refine ⟨?_, fun hnodup => ?_, fun u hu hdisabled => ?_, ⟨_, rfl⟩⟩
  · rw [map_cases_setEnabled fun _ _ => rfl]
    exact List.Subset.refl _
  · rwa [map_cases_setEnabled fun _ _ => rfl]
  · obtain ⟨c, hc, hid, hon⟩ := hu
    refine ⟨_, List.mem_map_of_mem hc, ?_⟩
    split_ifs with hsame
    · refine ⟨hid, ?_⟩
      -- this case is not the one that is disabled
      cases enabled with
      | true => rfl
      | false => exact absurd (congrArg some (hsame.symm.trans hid)) hdisabled
    · exact ⟨hid, hon⟩

theorem edited_createCase {c : Case} (h : st.createCase c = some st') : Edited st st' none := by
  obtain ⟨hfresh, heq⟩ := Option.ite_none_left_eq_some.mp h
  cases heq
  refine ⟨?_, fun hnodup => ?_, ?_, ⟨_, rfl⟩⟩
  · rw [List.map_append]
    exact List.subset_append_left _ _
  · rw [List.map_append]
    refine List.nodup_append.mpr ⟨hnodup, List.nodup_singleton _, fun id hid id' hid' heq => ?_⟩
    obtain ⟨c', hc', rfl⟩ := List.mem_map.mp hid
    rw [List.mem_singleton.mp hid'] at heq
    exact hfresh (List.any_eq_true.mpr ⟨c', hc', decide_eq_true heq⟩)
  · rintro u ⟨c', hc', henabled⟩ -
    exact ⟨c', List.mem_append_left _ hc', henabled⟩

theorem Edited.trans {st₁ : Store} {disabled : Option ℕ} (h : Edited st st₁ disabled)
    (h' : Edited st₁ st' none) : Edited st st' disabled := by
  obtain ⟨cases, rfl⟩ := h.rest
  obtain ⟨cases', rfl⟩ := h'.rest
  refine ⟨List.Subset.trans h.cases h'.cases, fun hnodup => h'.nodup (h.nodup hnodup), ?_,
    ⟨_, rfl⟩⟩
  intro u hu hdisabled
  exact h'.enabled u (h.enabled u hu hdisabled) (Option.not_mem_none _)

theorem CaseEdit.edited {e : CaseEdit} (h : e.run st = some st') : Edited st st' e.disables := by
  cases e with
  | create c => exact edited_createCase h
  | replace oldId c => exact (edited_setEnabled st oldId false).trans (edited_createCase h)
  | setEnabled id enabled =>
    obtain ⟨c, -, rfl⟩ := Option.map_eq_some_iff.mp h
    exact edited_setEnabled st id enabled

theorem Edited.growth {disabled : Option ℕ} (h : Edited st st' disabled) : Growth st st' := by
  obtain ⟨cases, rfl⟩ := h.rest
  exact ⟨List.Subset.refl _, List.Subset.refl _, h.cases⟩

theorem GridKept.edit {disabled : Option ℕ} (h : GridKept st) (hedit : Edited st st' disabled)
    (hkeeps : ∀ id ∈ disabled, ∀ r ∈ st.results, st.Active r.unit → r.unit.caseId ≠ id) :
    GridKept st' := by
  have hnodup := hedit.nodup h.keys.caseIds
  have henabled := hedit.enabled
  have hgrow := hedit.growth
  obtain ⟨cases, rfl⟩ := hedit.rest
  refine .of_growth hgrow ⟨h.keys.runIds, h.keys.runSeq, hnodup⟩
    ⟨h.campaigns.nodup, h.campaigns.le_seq⟩ h.placed fun r hr run hrun hid hactive => ?_
  have hactive : st.Active r.unit := ⟨run, hrun, hid, hactive⟩
  apply henabled _ (h.enabled r hr hactive)
  intro hmem
  exact hkeeps _ hmem r hr hactive rfl

/-! ### Runs -/

/-- The rows of the store are on the grid, and operations plan within it. -/
structure GridInvariant (w : World) : Prop where
  store : GridKept w.store
  sound : ∀ op ∈ w.ops, op.pc.Sound w.store op.operation
  reached : ∀ op ∈ w.ops, op.pc.Reached

theorem OpPc.Sound.cells {o : Operation} {pc : OpPc} {e : Exec} (h : pc.Sound st o)
    (he : pc.execution = some (env, plan, e)) : ∀ cell ∈ plan.cells, cell.Sound st := by
  cases pc with
  | executing single registered env plan e =>
    cases he
    exact h
  | _ => cases he

theorem panicked_of_crashed {w : World} {op : Op} {e : Exec} (hcrashed : w.crashed = false)
    (hop : op ∈ w.ops) (he : op.pc.execution = some (env, plan, e)) : e.mem.panicked = false := by
  rw [World.crashed, List.any_eq_false] at hcrashed
  have hpc := hcrashed op hop
  cases hop : op.pc with
  | executing single registered env plan e =>
    rw [hop] at he hpc
    cases he
    simpa [OpPc.crashed] using hpc
  | _ =>
    rw [hop] at he
    cases he

/-- A step of an operation stores rows of placed units, which its guard speaks of. -/
theorem GridInvariant.results {w : World} {i : ℕ} {op : Op} {choice : OpChoice}
    {executing : ℕ → Bool} {pc : OpPc} (h : GridInvariant w) (hcrashed : w.crashed = false)
    (hi : w.ops[i]? = some op)
    (hop : opStep w.store w.executing op.operation op.pc choice = some (st', executing, pc))
    {r : EvalResult} (hr : r ∈ st'.results) : w.store.Placed r.unit ∧
      (r ∈ w.store.results ∨ op.pc.starts w.store = none ∧ r.unit ∈ w.writes (.op i choice)) := by
  have hmem := List.mem_of_getElem? hi
  -- only an execution writes rows, and it writes planned ones
  have hold : st'.results = w.store.results → w.store.Placed r.unit ∧
      (r ∈ w.store.results ∨ op.pc.starts w.store = none ∧
        r.unit ∈ w.writes (.op i choice)) := by
    intro heq
    rw [heq] at hr
    exact ⟨h.store.placed r hr, .inl hr⟩
  cases (opStep_cases hop).advance with
  | idle _ heq => exact hold heq
  | kept _ heq => exact hold (congrArg Store.results heq)
  | launched _ _ _ _ heq => exact hold (congrArg Store.results heq)
  | executed env plan e a s hchoice he hstep hst =>
    rw [hst] at hr
    have hok := panicked_of_crashed hcrashed hmem he
    rcases (step_cases hstep).2.results_written hr with hr | hwritten
    · exact ⟨h.store.placed r hr, .inl hr⟩
    · have hplanned := planned_of_writes (h.reached op hmem env plan e he w.store) hok hwritten
      obtain ⟨cell, hcell, hu⟩ := List.mem_flatMap.mp hplanned
      refine ⟨((h.sound op hmem).cells he cell hcell).placed hu, .inr ⟨?_, ?_⟩⟩
      · cases hpc : op.pc with
        | executing => rfl
        | _ =>
          rw [hpc] at he
          cases he
      · subst hchoice
        simp only [World.writes, hi, Option.bind_some, he, Option.elim_some]
        exact hwritten

/-- A step of an operation that keeps the grid keeps the rows on it. -/
theorem GridInvariant.opStep {w : World} {i : ℕ} {op : Op} {choice : OpChoice}
    {executing : ℕ → Bool} {pc : OpPc} (h : GridInvariant w) (hcrashed : w.crashed = false)
    (hi : w.ops[i]? = some op)
    (hop : opStep w.store w.executing op.operation op.pc choice = some (st', executing, pc))
    (hkeeps : KeepsGrid w (.inl (.op i choice))) : GridKept st' := by
  have hcases := opStep_cases hop
  have hcall := hcases.gridCall
  have hrows := fun r hr => h.results hcrashed hi hop (r := r) hr
  have henabled : ∀ u, w.store.CaseEnabled u → st'.CaseEnabled u := by
    intro u hu
    rw [Store.CaseEnabled, hcall.cases_eq]
    exact hu
  cases hstarts : op.pc.starts w.store with
  | none =>
    have hwinds := hcases.windsDown hstarts
    refine .of_growth hcall.growth (hcall.keys h.store.keys) (hwinds.keys h.store.campaigns)
      (fun r hr => (hrows r hr).1) fun r hr run hrun hid hactive => henabled _ ?_
    have hactive : w.store.Active r.unit :=
      ⟨run, hrun, hid, hwinds.unfinished_sublist.subset hactive⟩
    rcases (hrows r hr).2 with hold | ⟨-, hwritten⟩
    · exact h.store.enabled r hold hactive
    · exact hkeeps.1 _ hwritten hactive
  | some c =>
    have hstarted := started_of_opStep h.store.campaigns hstarts hop
    refine .of_growth hcall.growth (hcall.keys h.store.keys) hstarted.keys
      (fun r hr => (hrows r hr).1) fun r hr run hrun hid hactive => henabled _ ?_
    -- a step that starts a campaign stores no row
    have hold : r ∈ w.store.results := by
      rcases (hrows r hr).2 with hold | ⟨hnone, -⟩
      · exact hold
      · rw [hstarts] at hnone
        cases hnone
    rcases List.mem_cons.mp (hstarted.perm.mem_iff.mp hactive) with rfl | hactive
    · refine hkeeps.2 _ ?_ r hold ⟨run, hrun, hid, rfl⟩
      simp only [World.starts, hi, Option.bind_some, hstarts, Option.mem_some]
    · exact h.store.enabled r hold ⟨run, hrun, hid, hactive⟩

theorem GridInvariant.step {w w' : World} {a : WorldLabel ⊕ CaseEdit} (h : GridInvariant w)
    (hkeeps : KeepsGrid w a) (hstep : editedStep w a = some w') : GridInvariant w' := by
  cases a with
  | inl a =>
    obtain ⟨hcrashed, hcases⟩ := worldStep_cases hstep
    cases hcases with
    | arrived o =>
      refine ⟨h.store, fun op hop => ?_, fun op hop => ?_⟩
      · rcases List.mem_append.mp hop with hop | hop
        · exact h.sound op hop
        · obtain rfl := List.mem_singleton.mp hop
          exact sound_begin _ o
      · rcases List.mem_append.mp hop with hop | hop
        · exact h.reached op hop
        · obtain rfl := List.mem_singleton.mp hop
          exact o.reached_begin
    | canceled c => exact ⟨h.store, h.sound, h.reached⟩
    | @stepped i op choice st executing pc hi hop =>
      have hmem := List.mem_of_getElem? hi
      refine ⟨h.opStep hcrashed hi hop hkeeps, fun op' hop' => ?_, fun op' hop' => ?_⟩
      · rcases List.mem_or_eq_of_mem_set hop' with hop' | rfl
        · exact (opStep_cases hop).gridCall.growth.sound (h.sound op' hop')
        · exact sound_opStep h.store.keys h.store.placed (h.sound op hmem) hop
      · rcases List.mem_or_eq_of_mem_set hop' with hop' | rfl
        · exact h.reached op' hop'
        · exact (opStep_cases hop).reached (h.reached op hmem)
  | inr e =>
    obtain ⟨-, hedit⟩ := Option.ite_none_left_eq_some.mp hstep
    obtain ⟨st, hst, rfl⟩ := Option.map_eq_some_iff.mp hedit
    -- an edit of the cases leaves the operations as they are
    have hedited := CaseEdit.edited hst
    exact ⟨h.store.edit hedited hkeeps,
      fun op hop => hedited.growth.sound (h.sound op hop), h.reached⟩

/-- **Unit progress.** In every run in which no active campaign comes by a row of a disabled case,
no active campaign is listed with more units judged than expected. -/
theorem unitsBounded_of_reach {w : World} (hstart : GridKept st)
    (h : Transition.Reach editedStep KeepsGrid (.start st) w) : w.store.UnitsBounded := by
  have hinvariant : GridInvariant w := by
    refine h.invariant ?_ fun _ _ _ ht hkeeps hstep => ht.step hkeeps hstep
    refine ⟨hstart, fun op hop => ?_, fun op hop => ?_⟩
    · cases hop
    · cases hop
  exact hinvariant.store.unitsBounded

/-! ### A case disabled after it was judged -/

/-- A request for the suite of the fresh store is accepted, staged and executed. -/
def freshRun : List WorldLabel :=
  [.arrive (.createEval ⟨1, [], [1]⟩), .op 0 .go, .op 0 (.selected "judge" fun _ => true),
    .op 0 .go, .op 0 .go, .op 0 (.judgeModel "judge"), .op 0 .go, .op 0 .go,
    .op 0 (.gate (some openGate)), .op 0 .go, .op 0 .go, .op 0 (.launched soloEnv)]

/-- The batch stores the row of its one unit. -/
def freshRow : List WorldLabel :=
  freshRun ++ (.main :: ruleCellLabels).map fun a => .op 0 (.exec a)

/-- The judged and the expected units of the listed campaigns. -/
def Store.listedUnits (st : Store) : List (ℕ × ℕ) :=
  (st.handleListCampaigns fun _ => true).map fun dto =>
    (dto.progress.judgedUnits, dto.progress.expectedUnits)

theorem freshStore_gridKept : GridKept freshStore := by
  refine ⟨⟨?_, ?_, ?_⟩, ⟨?_, ?_⟩, ?_, ?_⟩
  · exact List.nodup_nil
  · exact fun run hrun => by cases hrun
  · exact List.nodup_singleton _
  · exact List.nodup_nil
  · exact fun c hc => by cases hc
  · exact fun r hr => by cases hr
  · exact fun r hr => by cases hr

/-- A case is added while its suite is judged. -/
theorem unitsBounded_of_reach_added : ∃ w : World,
    w.store.listedUnits = [(1, 2)] ∧ w.store.UnitsBounded := by
  obtain ⟨w, hw, hunits⟩ : ∃ w, Transition.replayWith editedStep KeepsGrid (.start freshStore)
      (freshRow.map .inl ++ [.inr (.create { ruleCase 1 with id := 2 })]) = some w ∧
        w.store.listedUnits = [(1, 2)] := ⟨_, rfl, rfl⟩
  exact ⟨w, hunits, unitsBounded_of_reach freshStore_gridKept (.of_replayWith hw)⟩

/-- **More units judged than expected.** A case that is disabled after its row was stored stays
judged and is no longer expected. -/
theorem not_unitsBounded :
    ¬ ∀ (st : Store) (w : World), st.Valid → GridKept st →
      Transition.Reachable editedStep (.start st) w → w.store.UnitsBounded := by
  intro h
  obtain ⟨w, hw, hunits⟩ : ∃ w, Transition.replay editedStep (.start freshStore)
      (freshRow.map .inl ++ [.inr (.setEnabled 1 false)]) = some w ∧
        (w.store.handleListCampaigns fun _ => true) =
          [⟨1, .running, ⟨1, 0, 0, 1, 1, 0⟩⟩] := ⟨_, rfl, rfl⟩
  have hle := h freshStore w freshStore_valid freshStore_gridKept (.of_replay hw) (fun _ => true)
    ⟨1, .running, ⟨1, 0, 0, 1, 1, 0⟩⟩ (by rw [hunits]; exact List.mem_singleton.mpr rfl) rfl
  cases hle

end HubScope
