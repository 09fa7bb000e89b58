import HubScope.Evaluator.Planning
import HubScope.Evaluator.RunFinish

/-!
# Retries settle their campaign

A retry reopens runs and then finishes runs, and the two selections are made separately. What
the execution finishes is what it planned: the runs of its cells. So the campaign is settled
again when the execution returns just when every run that was reopened is one of them. The
null-score retries and the resume plan every run they reopen, or finish it while planning; a
targeted retry does not when all the cases it was asked for in a run are gone, disabled or
moved to another suite.

## Main definitions

* `Settled` — the campaign and its runs are in a terminal state
* `Retry.Covers` — every reopened run has a unit that is asked

## Main results

* `terminalIn_of_tailed` — the runs an execution plans are terminal when it returns
* `settled_iff_covers` — a retry settles its campaign just when it covers the runs it reopens
-/

set_option autoImplicit false

namespace HubScope

variable {env : Env} {plan : Plan} {st st' : Store} {m m' : Shared} {s s' : State} {r c : ℕ}

/-! ### What a step does to the runs -/

/-- The run is recorded in a terminal state. -/
def terminalIn (st : Store) (r : ℕ) : Prop :=
  ∀ run ∈ st.runs, run.id = r → run.status.terminal = true

/-- Someone is about to record a terminal status on the run. -/
def Stamping (s : State) (r : ℕ) : Prop := Finishing s r ∨ ∃ rs, s.main = .tail (r :: rs)

/-- What a store call may do to the runs: keys stay, and a status changes only to a terminal
one and only on the runs of `stamped`. -/
def RunsStamped (st st' : Store) (stamped : ℕ → Prop) : Prop :=
  ∃ f : EvalRun → EvalRun, st'.runs = st.runs.map f ∧
    ∀ run, (f run).id = run.id ∧ (f run).campaignId = run.campaignId ∧
      ((f run).status = run.status ∨ (f run).status.terminal = true ∧ stamped run.id)

namespace RunsStamped

variable {stamped : ℕ → Prop}

theorem of_eq (h : st'.runs = st.runs) : RunsStamped st st' stamped :=
  ⟨id, by rw [h, List.map_id], fun _ => ⟨rfl, rfl, .inl rfl⟩⟩

theorem finishEvalRun (st : Store) {status : Status} (hstatus : status.terminal = true)
    (hr : stamped r) : RunsStamped st (st.finishEvalRun r status) stamped := by
  refine ⟨_, rfl, fun run => ?_⟩
  split_ifs with hid
  · exact ⟨rfl, rfl, .inr ⟨hstatus, hid ▸ hr⟩⟩
  · exact ⟨rfl, rfl, .inl rfl⟩

theorem setEvalRunCost (st : Store) (r : ℕ) (cost : Option (ℚ × ℚ)) :
    RunsStamped st (st.setEvalRunCost r cost) stamped := by
  refine ⟨_, rfl, fun run => ?_⟩
  split_ifs
  · exact ⟨rfl, rfl, .inl rfl⟩
  · exact ⟨rfl, rfl, .inl rfl⟩

theorem trans {st'' : Store} (h : RunsStamped st st' stamped) (h' : RunsStamped st' st'' stamped) :
    RunsStamped st st'' stamped := by
  obtain ⟨f, hruns, hf⟩ := h
  obtain ⟨g, hruns', hg⟩ := h'
  refine ⟨g ∘ f, by rw [hruns', hruns, List.map_map], fun run => ?_⟩
  obtain ⟨hid, hc, hstatus⟩ := hf run
  obtain ⟨hid', hc', hstatus'⟩ := hg (f run)
  refine ⟨hid'.trans hid, hc'.trans hc, ?_⟩
  rcases hstatus' with heq | ⟨hterminal, hstamped⟩
  · rcases hstatus with heq' | ⟨hterminal, hstamped⟩
    · exact .inl (heq.trans heq')
    · exact .inr ⟨(congrArg Status.terminal heq).trans hterminal, hstamped⟩
  · exact .inr ⟨hterminal, hid ▸ hstamped⟩

/-- A terminal run stays terminal. -/
theorem terminalIn (h : RunsStamped st st' stamped) (hr : terminalIn st r) : terminalIn st' r := by
  obtain ⟨f, hruns, hf⟩ := h
  intro run hmem hid
  rw [hruns] at hmem
  obtain ⟨run₀, hmem₀, rfl⟩ := List.mem_map.mp hmem
  obtain ⟨hkey, -, hstatus | ⟨hterminal, -⟩⟩ := hf run₀
  · rw [hstatus]
    exact hr run₀ hmem₀ (hkey.symm.trans hid)
  · exact hterminal

/-- A run that is not stamped keeps its status. -/
theorem terminalIn_of_not (h : RunsStamped st st' stamped) (hnot : ¬ stamped r)
    (hr : HubScope.terminalIn st' r) : HubScope.terminalIn st r := by
  obtain ⟨f, hruns, hf⟩ := h
  intro run hmem hid
  obtain ⟨hkey, -, hstatus | ⟨-, hstamped⟩⟩ := hf run
  · rw [← hstatus]
    exact hr (f run) (hruns ▸ List.mem_map_of_mem hmem) (hkey.trans hid)
  · exact absurd (hid ▸ hstamped) hnot

/-- The members of a campaign stay its members, and terminal ones stay terminal. -/
theorem exists_run (h : RunsStamped st st' stamped) {run : EvalRun} (hrun : run ∈ st'.runs) :
    ∃ run₀ ∈ st.runs, run₀.id = run.id ∧ run₀.campaignId = run.campaignId ∧
      (run₀.status.terminal = true → run.status.terminal = true) := by
  obtain ⟨f, hruns, hf⟩ := h
  rw [hruns] at hrun
  obtain ⟨run₀, hmem₀, rfl⟩ := List.mem_map.mp hrun
  obtain ⟨hkey, hcampaign, hstatus⟩ := hf run₀
  refine ⟨run₀, hmem₀, hkey.symm, hcampaign.symm, fun hterminal => ?_⟩
  rcases hstatus with heq | ⟨hnew, -⟩
  · rw [heq, hterminal]
  · exact hnew

end RunsStamped

theorem terminalIn_finishEvalRun (st : Store) (r : ℕ) {status : Status}
    (hstatus : status.terminal = true) : terminalIn (st.finishEvalRun r status) r := by
  intro run hmem hid
  obtain ⟨run₀, -, rfl⟩ := List.mem_map.mp hmem
  split_ifs at hid ⊢ with hr
  · exact hstatus
  · exact absurd hid hr

theorem Step.runsStamped {a : Label} (h : Step env plan s a s') :
    RunsStamped s.store s'.store (Stamping s) := by
  cases h with
  | main hm =>
    generalize hpc : s.main = pc at hm
    cases hm with
    | finished r rs => exact .finishEvalRun _ rfl (.inl (.inr (.inr ⟨rs, hpc⟩)))
    | flushRun r rs _ hst =>
      subst hst
      split
      · exact .setEvalRunCost _ _ _
      · exact .of_eq rfl
    -- a run that did not finish is stamped as failed
    | tailRun r rs =>
      split
      · exact .of_eq rfl
      · exact .finishEvalRun _ rfl (.inr ⟨rs, hpc⟩)
    | _ => exact .of_eq rfl
  | exam hi he =>
    cases he with
    | finished r =>
      split
      · exact .finishEvalRun _ rfl (.inl (.inl (List.mem_of_getElem? hi)))
      · exact .of_eq rfl
    | _ => exact .of_eq rfl
  | judge hj he =>
    cases he with
    | recorded j o =>
      refine .of_eq ?_
      obtain ⟨rows, heq⟩ := s.store.createEvalJudgeScore_eq (judgeScoreRow j o)
      rw [heq]
    | finished j =>
      split
      · exact .finishEvalRun _ rfl (.inl (.inr (.inl ⟨j, List.mem_of_getElem? hj, rfl⟩)))
      · exact .of_eq rfl
    | _ => exact .of_eq rfl
  | _ => exact .of_eq rfl

/-! ### What an execution stamps -/

/-- The run an exam worker is at. -/
def ExamPc.runId? : ExamPc → Option ℕ
  | .mark r | .finish r => some r
  | pc => pc.cell?.map (·.run.id)

/-- The run a judge worker is at. -/
def JudgePc.runId? : JudgePc → Option ℕ
  | .take j | .call j | .record j _ | .land j _ | .settle j _ | .write j _ | .decrement j
  | .finish j | .noteDone j => some j.unit.runId
  | .check | .select | .exited => none

/-- An exam worker is at a planned run, and so are the votes it hands over. -/
def ExamPc.atPlanned (plan : Plan) (pc : ExamPc) : Prop :=
  (∀ r, pc.runId? = some r → r ∈ plan.runs) ∧ ∀ j ∈ pc.jobs, pc.runId? = some j.unit.runId

def JudgePc.atPlanned (plan : Plan) (pc : JudgePc) : Prop :=
  ∀ r, pc.runId? = some r → r ∈ plan.runs

theorem runId?_of_cell? {pc : ExamPc} {cell : Cell} (h : pc.cell? = some cell) :
    pc.runId? = some cell.run.id := by
  cases pc <;> first | (cases h; rfl) | cases h

theorem ExamPc.atPlanned.of_cell? {pc pc' : ExamPc} {cell : Cell} (hpc : pc.atPlanned plan)
    (hcell : pc.cell? = some cell) (hcell' : pc'.cell? = some cell) (hjobs : pc'.jobs = []) :
    pc'.atPlanned plan := by
  refine ⟨fun r hr => hpc.1 r ?_, fun j hj => ?_⟩
  · rw [runId?_of_cell? hcell, ← runId?_of_cell? hcell', hr]
  · rw [hjobs] at hj
    cases hj

theorem ExamPc.atPlanned.of_none {pc : ExamPc} (hrun : pc.runId? = none) (hjobs : pc.jobs = []) :
    pc.atPlanned plan := by
  refine ⟨fun r hr => ?_, fun j hj => ?_⟩
  · rw [hrun] at hr
    cases hr
  · rw [hjobs] at hj
    cases hj

theorem JudgePc.atPlanned.of_none {pc : JudgePc} (hrun : pc.runId? = none) :
    pc.atPlanned plan := by
  intro r hr
  rw [hrun] at hr
  cases hr

theorem ExamStep.atPlanned {pc pc' : ExamPc} (h : ExamStep env plan st m pc st' m' pc')
    (hpc : pc.atPlanned plan) : pc'.atPlanned plan := by
  cases h with
  | stopped | overBudget | polled | leave | recordCrash | settleCrash | reported | marked
  | finished => exact .of_none rfl rfl
  | recorded => exact hpc.of_cell? rfl (cell?_routeSample _ _ _) (jobs_routeSample _ _ _)
  | settled | wrote | offeredAll | dropped =>
    exact hpc.of_cell? rfl (cell?_sampleDone _) (jobs_sampleDone _)
  | registered k id =>
    refine ⟨hpc.1, fun j hj => ?_⟩
    obtain ⟨hunit, -⟩ := mem_jobsOf hj
    exact congrArg (fun u : UnitKey => some u.runId) hunit.symm
  | noted k jobs n => exact hpc
  | markedLast r => exact ⟨hpc.1, fun j hj => by cases hj⟩
  | reportedLast cell => exact ⟨hpc.1, fun j hj => by cases hj⟩
  | _ => exact hpc.of_cell? rfl rfl rfl

theorem JudgeStep.atPlanned {pc pc' : JudgePc} (h : JudgeStep env plan st m pc st' m' pc')
    (hpc : pc.atPlanned plan) : pc'.atPlanned plan := by
  cases h with
  | stopped | overBudget | polled | leave | settleCrash | noted => exact .of_none rfl
  | _ => exact hpc

/-- The runs the driver is about to stamp itself. -/
def MainPc.stamps : MainPc → List ℕ
  | .begin rs | .tail rs => rs
  | .beginFinish r rs => r :: rs
  | _ => []

/-- Every worker is at a planned run. -/
theorem atPlanned_of_reach (hplan : ∀ cell ∈ plan.cells, cell.run.id ∈ plan.runs)
    (h : Reached env plan s) :
    (∀ pc ∈ s.exam, pc.atPlanned plan) ∧ ∀ pc ∈ s.judge, pc.atPlanned plan := by
  obtain ⟨hexam, hjudge, -⟩ : (∀ pc ∈ s.exam, pc.atPlanned plan) ∧
      (∀ pc ∈ s.judge, pc.atPlanned plan) ∧ plan.left s.main ⊆ plan.cells := by
    refine workers_of_reach ?_ ?_ ?_ ?_ ?_ ?_ h
    · exact .of_none rfl rfl
    · exact .of_none rfl
    · exact fun _ _ _ _ _ _ hpc he => he.atPlanned hpc
    · exact fun _ _ _ _ _ _ hpc he => he.atPlanned hpc
    · intro cell hcell
      refine ⟨fun r hr => ?_, fun j hj => by cases hj⟩
      cases hr
      exact hplan cell hcell
    · intro k job jobs hpc
      refine ⟨⟨hpc.1, fun j hj => hpc.2 j (List.mem_cons_of_mem _ hj)⟩, fun r hr => ?_⟩
      cases hr
      exact hpc.1 _ (hpc.2 job (List.mem_cons_self ..))
  exact ⟨hexam, hjudge⟩

/-- An execution stamps the runs it planned. -/
theorem stamping_of_reach (hplan : ∀ cell ∈ plan.cells, cell.run.id ∈ plan.runs)
    (h : Reached env plan s) (hr : Stamping s r) : r ∈ plan.runs := by
  obtain ⟨hexam, hjudge⟩ := atPlanned_of_reach hplan h
  have hmain : s.main.stamps ⊆ plan.runs := by
    refine Reached.invariant (I := fun t => t.main.stamps ⊆ plan.runs) ?_ ?_ (fun _ _ ht => ht) h
    · intro st
      change (if _ then plan.runs else []) ⊆ plan.runs
      split_ifs
      · exact List.Subset.refl _
      · exact List.nil_subset _
    · rintro t a t' - ht - hcases
      cases hcases with
      | main hm =>
        generalize t.main = pc at hm ht
        cases hm with
        | marked r rs | finished r rs | tailRun r rs =>
          exact fun x hx => ht (List.mem_cons_of_mem _ hx)
        | markedLast r rs => exact ht
        | flushed => exact List.Subset.refl _
        | _ => exact List.nil_subset _
      | handCell hmain => exact List.nil_subset _
      | _ => exact ht
  -- a worker stamps the run of its cell or vote, the main goroutine one of the list it walks
  rcases hr with (hr | ⟨j, hj, rfl⟩ | ⟨rs, hpc⟩) | ⟨rs, hpc⟩
  · exact (hexam _ hr).1 r rfl
  · exact hjudge _ hj _ rfl
  · rw [hpc] at hmain
    exact hmain (List.mem_cons_self ..)
  · rw [hpc] at hmain
    exact hmain (List.mem_cons_self ..)

/-! ### Finished runs are recorded -/

/-- Who is about to record a run done still is after a step, or has recorded it. -/
theorem finishing_step {a : Label} (hfinishes : plan.path.finishesRuns = true)
    (h : Step env plan s a s') (hr : Finishing s r) : Finishing s' r ∨ terminalIn s'.store r := by
  cases h with
  | main hm =>
    rcases hr with hr | hr | ⟨rs, hpc⟩
    · exact .inl (.inl hr)
    · exact .inl (.inr (.inl hr))
    · rw [hpc] at hm
      cases hm with
      | finished r rs => exact .inr (terminalIn_finishEvalRun _ _ rfl)
  | @exam i c pc st m pc' hi he =>
    rcases hr with hr | hr | hr
    · by_cases hpc : pc = .finish r
      · subst hpc
        cases he with
        | finished r =>
          -- the finisher records the run, and nobody else moves it on
          rw [if_pos hfinishes]
          exact .inr (terminalIn_finishEvalRun _ _ rfl)
      · exact .inl (.inl (Pool.mem_set_of_ne hr hi (Ne.symm hpc)))
    · exact .inl (.inr (.inl hr))
    · exact .inl (.inr (.inr hr))
  | @judge i c pc st m pc' hi he =>
    rcases hr with hr | ⟨j, hj, hunit⟩ | hr
    · exact .inl (.inl hr)
    · by_cases hpc : pc = .finish j
      · subst hpc
        cases he with
        | finished j =>
          rw [if_pos hfinishes, ← hunit]
          exact .inr (terminalIn_finishEvalRun _ _ rfl)
      · exact .inl (.inr (.inl ⟨j, Pool.mem_set_of_ne hj hi (Ne.symm hpc), hunit⟩))
    · exact .inl (.inr (.inr hr))
  | handCell hmain hi =>
    rcases hr with hr | hr | ⟨rs, hpc⟩
    · exact .inl (.inl (Pool.mem_set_of_ne hr hi (by simp)))
    · exact .inl (.inr (.inl hr))
    · rw [hmain] at hpc
      cases hpc
  | handJob hi hj =>
    rcases hr with hr | ⟨j, hmem, hunit⟩ | hr
    · exact .inl (.inl (Pool.mem_set_of_ne hr hi (by simp)))
    · exact .inl (.inr (.inl ⟨j, Pool.mem_set_of_ne hmem hj (by simp), hunit⟩))
    · exact .inl (.inr (.inr hr))
  | cancel => exact .inl hr
  | expire => exact .inl hr

/-- A run is flagged finished by someone who goes on to record it. -/
theorem finished_step {a : Label} (h : Step env plan s a s')
    (hr : s'.mem.pipe.finished r = true) : s.mem.pipe.finished r = true ∨ Finishing s' r := by
  cases h with
  | main hm =>
    -- only marking and the last decrement flag a run, and both answer that they did
    generalize s.main = pc at hm
    cases hm with
    | marked r' rs hlast =>
      rw [Pipeline.markCellsDone_finished, hlast, Bool.and_false, Bool.or_false] at hr
      exact .inl hr
    | markedLast r' rs hlast =>
      rw [Pipeline.markCellsDone_finished, hlast, Bool.and_true, Bool.or_eq_true] at hr
      rcases hr with hr | hr
      · exact .inl hr
      · exact .inr (.inr (.inr ⟨rs, by rw [of_decide_eq_true hr]⟩))
    | _ => exact .inl hr
  | @exam i c pc st m pc' hi he =>
    have hlt : i < s.exam.length := (List.getElem?_eq_some_iff.mp hi).1
    cases he with
    | opened k =>
      obtain ⟨aggs, hp⟩ := Pipeline.openCase_eq s.mem.pipe k.unit k.inCell.modelId k.profile
        (env.samples k.case)
      simp only [hp] at hr
      exact .inl hr
    | recorded k id text latencyMs i o cost p hp =>
      obtain ⟨agg, agg', -, rfl, -⟩ := Pipeline.recordAnswer_spec hp
      exact .inl hr
    | settled k median p hp | completed k median p agg hp =>
      obtain ⟨aggs, rfl⟩ := Pipeline.settleSample_eq hp
      exact .inl hr
    | reported cell answered | reportedLast cell answered =>
      obtain ⟨n, hpipe⟩ := reportCell_pipe plan (s.mem.endCell cell) cell.run.id answered
      simp only [hpipe] at hr
      exact .inl hr
    | marked r' hlast =>
      rw [Pipeline.markCellsDone_finished, hlast, Bool.and_false, Bool.or_false] at hr
      exact .inl hr
    | markedLast r' hlast =>
      rw [Pipeline.markCellsDone_finished, hlast, Bool.and_true, Bool.or_eq_true] at hr
      rcases hr with hr | hr
      · exact .inl hr
      · rw [of_decide_eq_true hr]
        exact .inr (.inl (List.mem_set hlt _))
    | _ => exact .inl hr
  | @judge i c pc st m pc' hi he =>
    have hlt : i < s.judge.length := (List.getElem?_eq_some_iff.mp hi).1
    cases he with
    | landed j score p hp | votesIn j score p median hp =>
      obtain ⟨votes, rfl⟩ := Pipeline.landVote_eq hp
      exact .inl hr
    | settled j median p hp | completed j median p agg hp =>
      obtain ⟨aggs, rfl⟩ := Pipeline.settleSample_eq hp
      exact .inl hr
    | decremented j hlast =>
      rw [Pipeline.decrementPending_finished, hlast, Bool.and_false, Bool.or_false] at hr
      exact .inl hr
    | decrementedLast j hlast =>
      rw [Pipeline.decrementPending_finished, hlast, Bool.and_true, Bool.or_eq_true] at hr
      rcases hr with hr | hr
      · exact .inl hr
      · exact .inr (.inr (.inl ⟨j, List.mem_set hlt _, (of_decide_eq_true hr).symm⟩))
    | _ => exact .inl hr
  | _ => exact .inl hr

/-- **Finished runs.** A run that is flagged finished is recorded, or someone is about to. -/
theorem recorded_of_finished {guard : State → Label → Prop}
    (hfinishes : plan.path.finishesRuns = true)
    (h : Transition.Reach (step env plan) guard (plan.start env st) s)
    (hr : s.mem.pipe.finished r = true) : terminalIn s.store r ∨ Finishing s r := by
  induction h with
  | refl => cases hr
  | @tail t u a hrun _ hstep ih =>
    obtain ⟨-, hcases⟩ := step_cases hstep
    rcases finished_step hcases hr with hold | hnew
    · rcases ih hold with hterminal | hfinishing
      · exact .inl (hcases.runsStamped.terminalIn hterminal)
      · exact (finishing_step hfinishes hcases hfinishing).symm
    · exact .inr hnew

/-- **Planned runs.** Past the driver's last loop every planned run is terminal. -/
theorem terminalIn_of_tailed {guard : State → Label → Prop}
    (hfinishes : plan.path.finishesRuns = true) (hr : r ∈ plan.runs)
    (h : Transition.Reach (step env plan) guard (plan.start env st) s)
    (htailed : s.main.tailed r) : terminalIn s.store r := by
  induction h with
  | refl => exact htailed.elim
  | @tail t u a hrun _ hstep ih =>
    obtain ⟨-, hcases⟩ := step_cases hstep
    by_cases hold : t.main.tailed r
    · exact hcases.runsStamped.terminalIn (ih hold)
    · -- the driver just went past the run
      have hcontrol := control_of_reach (reached_of_reach hrun)
      cases hcases with
      | main hm =>
        generalize hpc : t.main = pc at hm hold
        cases hm with
        | tailRun r' rs =>
          obtain rfl : r = r' := by
            by_contra hne
            exact hold (List.not_mem_cons_of_ne_of_not_mem hne htailed)
          dsimp only
          split_ifs with hfinished
          · have hdone := hcontrol.no_worker (by rw [hpc]; rfl)
            refine (recorded_of_finished hfinishes hrun hfinished).resolve_right ?_
            rintro (hfinish | ⟨j, hfinish, -⟩ | ⟨rs', hfinish⟩)
            · cases hdone.1 _ hfinish
            · cases hdone.2 _ hfinish
            · rw [hpc] at hfinish
              cases hfinish
          · exact terminalIn_finishEvalRun _ _ rfl
        | flushed => exact absurd hr htailed
        | flushedLive hlive =>
          rw [hfinishes] at hlive
          cases hlive
        | tailDone => exact absurd List.not_mem_nil hold
        | verdict | unsettled | updated => exact absurd trivial hold
        | _ => exact htailed.elim
      | handCell hmain => exact htailed.elim
      | _ => exact absurd htailed hold

/-! ### The campaign at the end -/

/-- The campaign and its runs are in a terminal state. -/
structure Settled (st : Store) (c : ℕ) : Prop where
  campaign : ∀ x ∈ st.campaigns, x.id = c → x.status.terminal = true
  runs : ∀ run ∈ st.runs, run.campaignId = c → run.status.terminal = true

/-- Only settling touches the campaigns. -/
theorem Step.campaigns_eq {a : Label} (h : Step env plan s a s') :
    s'.store.campaigns = s.store.campaigns ∨
      ∃ status, s.main = .settleUpdate status ∧ s'.main = .returned ∧
        s'.store = s.store.settleUpdate plan.campaignId status := by
  cases h with
  | main hm =>
    generalize s.main = pc at hm
    cases hm with
    | flushRun r rs _ hst =>
      subst hst
      exact .inl (by split <;> rfl)
    | tailRun r rs => exact .inl (by split <;> rfl)
    -- the only step that writes the campaign
    | updated status => exact .inr ⟨status, rfl, rfl, rfl⟩
    | _ => exact .inl rfl
  | exam hi he =>
    cases he with
    | finished r => exact .inl (by split <;> rfl)
    | _ => exact .inl rfl
  | judge hj he =>
    cases he with
    | recorded j o =>
      refine .inl ?_
      obtain ⟨rows, heq⟩ := s.store.createEvalJudgeScore_eq (judgeScoreRow j o)
      rw [heq]
    | finished j => exact .inl (by split <;> rfl)
    | _ => exact .inl rfl
  | _ => exact .inl rfl

/-- A settle verdict is a terminal status. -/
theorem terminal_of_settleVerdict {status : Status} (h : st.settleVerdict c = some status) :
    status.terminal = true := by
  unfold Store.settleVerdict at h
  dsimp only at h
  split_ifs at h <;> cases h <;> rfl

/-- A campaign whose runs are all terminal has a verdict. -/
theorem settleVerdict_ne_none
    (h : ∀ run ∈ st.runs, run.campaignId = c → run.status.terminal = true) :
    st.settleVerdict c ≠ none := by
  unfold Store.settleVerdict
  dsimp only
  have hrunning : ¬ (st.runs.filter (·.campaignId = c)).any (·.status = .running) = true := by
    rw [List.any_eq_true]
    rintro ⟨run, hmem, hstatus⟩
    obtain ⟨hrun, hc⟩ := List.mem_filter.mp hmem
    have hterminal := h run hrun (of_decide_eq_true hc)
    rw [of_decide_eq_true hstatus] at hterminal
    cases hterminal
  rw [if_neg hrunning]
  split_ifs <;> simp

theorem terminal_of_settleUpdate {status : Status} (hstatus : status.terminal = true) :
    ∀ x ∈ (st.settleUpdate c status).campaigns, x.id = c → x.status.terminal = true := by
  intro x hx hid
  obtain ⟨x₀, -, rfl⟩ := List.mem_map.mp hx
  split_ifs at hid ⊢ with hopen
  · exact hstatus
  · by_contra hterminal
    exact hopen ⟨hid, hterminal⟩

section

variable {guard : State → Label → Prop}

/-- The members of a campaign are those the execution started with. -/
theorem exists_start_run (h : Transition.Reach (step env plan) guard (plan.start env st) s)
    {run : EvalRun} (hrun : run ∈ s.store.runs) :
    ∃ run₀ ∈ st.runs, run₀.id = run.id ∧ run₀.campaignId = run.campaignId := by
  induction h generalizing run with
  | refl => exact ⟨run, hrun, rfl, rfl⟩
  | tail _ _ hstep ih =>
    obtain ⟨run', hrun', hid', hc', -⟩ := (step_cases hstep).2.runsStamped.exists_run hrun
    obtain ⟨run₀, hrun₀, hid, hc⟩ := ih hrun'
    exact ⟨run₀, hrun₀, hid.trans hid', hc.trans hc'⟩

/-- A run that was terminal stays so; one that is not planned was terminal if it is now. -/
theorem terminalIn_start_iff (hplan : ∀ cell ∈ plan.cells, cell.run.id ∈ plan.runs)
    (h : Transition.Reach (step env plan) guard (plan.start env st) s) (hr : r ∉ plan.runs) :
    terminalIn s.store r ↔ terminalIn st r := by
  induction h with
  | refl => exact Iff.rfl
  | tail hrun _ hstep ih =>
    have hstamped := (step_cases hstep).2.runsStamped
    rw [← ih]
    refine ⟨hstamped.terminalIn_of_not fun hstamping => hr ?_, hstamped.terminalIn⟩
    exact stamping_of_reach hplan (reached_of_reach hrun) hstamping

/-- The driver settles its campaign with a terminal status, and has when it returned. -/
def Closing (plan : Plan) (s : State) : Prop :=
  (∀ status, s.main = .settleUpdate status → status.terminal = true) ∧
    (s.main = .returned →
      ∀ x ∈ s.store.campaigns, x.id = plan.campaignId → x.status.terminal = true)

theorem closing_of_ne (hupdate : ∀ status, s.main ≠ .settleUpdate status)
    (hreturned : s.main ≠ .returned) : Closing plan s :=
  ⟨fun status h => absurd h (hupdate status), fun h => absurd h hreturned⟩

/-- When the runs of the campaign are terminal in time, the campaign is settled in the end. -/
theorem closing_of_reach (hfinishes : plan.path.finishesRuns = true)
    (hruns : ∀ t, Transition.Reach (step env plan) guard (plan.start env st) t →
      t.main = .settleSelect →
        ∀ run ∈ t.store.runs, run.campaignId = plan.campaignId → run.status.terminal = true)
    (h : Transition.Reach (step env plan) guard (plan.start env st) s) : Closing plan s := by
  induction h with
  | refl =>
    have hmain : (plan.start env st).main = .begin _ := rfl
    exact closing_of_ne (by simp [hmain]) (by simp [hmain])
  | @tail t u a hrun _ hstep ih =>
    obtain ⟨-, hcases⟩ := step_cases hstep
    have hcampaigns := hcases.campaigns_eq
    -- a step elsewhere leaves the main goroutine and the campaign as they are
    have hkeep : u.main = t.main → Closing plan u := by
      intro hmain
      rcases hcampaigns with heq | ⟨status, hupdate, hreturned, -⟩
      · rw [Closing, hmain, heq]
        exact ih
      · rw [hmain, hupdate] at hreturned
        cases hreturned
    cases hcases with
    | @main st' m pc hm =>
      refine ⟨fun status hstatus => ?_, fun hreturned => ?_⟩
      · obtain rfl : pc = .settleUpdate status := hstatus
        generalize t.main = pc₀ at hm
        cases hm with
        | verdict _ hverdict => exact terminal_of_settleVerdict hverdict
      · obtain rfl : pc = .returned := hreturned
        generalize hpc : t.main = pc₀ at hm
        cases hm with
        | flushedLive hlive =>
          rw [hfinishes] at hlive
          cases hlive
        -- with every run settled there is a verdict
        | unsettled hverdict =>
          exact absurd hverdict (settleVerdict_ne_none (hruns t hrun hpc))
        | updated status => exact terminal_of_settleUpdate (ih.1 status hpc)
    | handCell hmain => exact closing_of_ne (by simp) (by simp)
    | _ => exact hkeep rfl

/-- **Settling.** An execution that finishes the runs of its cells leaves its campaign settled
just when the runs it did not plan were terminal. -/
theorem settled_of_returned (hfinishes : plan.path.finishesRuns = true)
    (hplan : ∀ cell ∈ plan.cells, cell.run.id ∈ plan.runs)
    (hids : (st.runs.map (·.id)).Nodup)
    (h : Transition.Reach (step env plan) guard (plan.start env st) s)
    (hreturned : s.main = .returned) :
    Settled s.store plan.campaignId ↔
      ∀ run ∈ st.runs, run.campaignId = plan.campaignId → run.id ∉ plan.runs →
        run.status.terminal = true := by
  -- ids are keys, so the status of a run is the status of its id
  have hkey : ∀ run ∈ st.runs, ∀ run' ∈ st.runs, run.id = run'.id → run = run' := fun run hrun
    run' hrun' hid => List.inj_on_of_nodup_map hids hrun hrun' hid
  constructor
  · intro hsettled run hrun hc hr
    refine (terminalIn_start_iff hplan h hr).mp ?_ run hrun rfl
    intro run' hrun' hid
    obtain ⟨run₀, hrun₀, hid₀, hc₀⟩ := exists_start_run h hrun'
    obtain rfl := hkey run₀ hrun₀ run hrun (hid₀.trans hid)
    exact hsettled.runs run' hrun' (hc₀ ▸ hc)
  · intro hcovered
    have hruns : ∀ t, Transition.Reach (step env plan) guard (plan.start env st) t →
        t.main = .settleSelect ∨ t.main = .returned →
          ∀ run ∈ t.store.runs, run.campaignId = plan.campaignId →
            run.status.terminal = true := by
      intro t ht hmain run hrun hc
      obtain ⟨run₀, hrun₀, hid₀, hc₀⟩ := exists_start_run ht hrun
      refine (?_ : terminalIn t.store run.id) run hrun rfl
      by_cases hr : run.id ∈ plan.runs
      · refine terminalIn_of_tailed hfinishes hr ht ?_
        rcases hmain with hmain | hmain <;> rw [hmain] <;> trivial
      · rw [terminalIn_start_iff hplan ht hr]
        intro run' hrun' hid'
        obtain rfl := hkey run' hrun' run₀ hrun₀ (hid'.trans hid₀.symm)
        exact hcovered run' hrun' (hc₀.trans hc) (by rwa [hid₀])
    exact ⟨(closing_of_reach hfinishes (fun t ht hmain => hruns t ht (.inl hmain)) h).2
      hreturned, hruns s h (.inr hreturned)⟩

end

/-! ### What a retry reopens and plans -/

/-- A member run after the reopen. -/
def reopenedRun (c : ℕ) (rejoin : EvalRun → Bool) (run : EvalRun) : EvalRun :=
  if run.campaignId = c ∧ run.status.terminal ∧ rejoin run then { run with status := .running }
  else run

@[simp] theorem reopenedRun_id (rejoin : EvalRun → Bool) (run : EvalRun) :
    (reopenedRun c rejoin run).id = run.id := by
  unfold reopenedRun
  split_ifs <;> rfl

@[simp] theorem reopenedRun_campaignId (rejoin : EvalRun → Bool) (run : EvalRun) :
    (reopenedRun c rejoin run).campaignId = run.campaignId := by
  unfold reopenedRun
  split_ifs <;> rfl

@[simp] theorem reopenedRun_suiteId (rejoin : EvalRun → Bool) (run : EvalRun) :
    (reopenedRun c rejoin run).suiteId = run.suiteId := by
  unfold reopenedRun
  split_ifs <;> rfl

theorem reopenCampaign_eq {rejoin : EvalRun → Bool} (h : st.reopenCampaign c rejoin = some st') :
    ∃ campaigns, st' =
      { st with campaigns := campaigns, runs := st.runs.map (reopenedRun c rejoin) } := by
  unfold Store.reopenCampaign at h
  split_ifs at h
  exact ⟨_, (Option.some.inj h).symm⟩

/-- In a settled campaign the runs that are not terminal after the reopen rejoined. -/
theorem rejoin_of_not_terminal {rejoin : EvalRun → Bool} (hsettled : Settled st c)
    (h : st.reopenCampaign c rejoin = some st') {run : EvalRun} (hrun : run ∈ st'.runs)
    (hc : run.campaignId = c) (hopen : run.status.terminal ≠ true) :
    ∃ run₀ ∈ st.runs, run₀.id = run.id ∧ run₀.campaignId = c ∧ rejoin run₀ = true := by
  obtain ⟨campaigns, rfl⟩ := reopenCampaign_eq h
  obtain ⟨run₀, hrun₀, rfl⟩ := List.mem_map.mp hrun
  rw [reopenedRun_campaignId] at hc
  refine ⟨run₀, hrun₀, (reopenedRun_id _ _).symm, hc, ?_⟩
  by_contra hrejoin
  rw [reopenedRun, if_neg (by simp [hrejoin])] at hopen
  exact hopen (hsettled.runs run₀ hrun₀ hc)

/-- A run that rejoins is running after the reopen. -/
theorem not_terminal_of_rejoin {rejoin : EvalRun → Bool} (hsettled : Settled st c)
    (h : st.reopenCampaign c rejoin = some st') {run : EvalRun} (hrun : run ∈ st.runs)
    (hc : run.campaignId = c) (hrejoin : rejoin run = true) :
    reopenedRun c rejoin run ∈ st'.runs ∧
      (reopenedRun c rejoin run).status.terminal ≠ true := by
  obtain ⟨campaigns, rfl⟩ := reopenCampaign_eq h
  refine ⟨List.mem_map_of_mem hrun, ?_⟩
  rw [reopenedRun, if_pos ⟨hc, hsettled.runs run hrun hc, hrejoin⟩]
  simp

theorem nodup_reopened {rejoin : EvalRun → Bool} (hids : (st.runs.map (·.id)).Nodup)
    (h : st.reopenCampaign c rejoin = some st') : (st'.runs.map (·.id)).Nodup := by
  obtain ⟨campaigns, rfl⟩ := reopenCampaign_eq h
  have hmap : (st.runs.map (reopenedRun c rejoin)).map (·.id) = st.runs.map (·.id) := by
    rw [List.map_map]
    exact List.map_congr_left fun run _ => reopenedRun_id _ _
  exact hmap ▸ hids

/-! #### Null-score retries -/

theorem mem_listNullScoreCells {u : RetryUnit} :
    u ∈ st.listNullScoreCells r ↔
      ∃ res ∈ st.results, res.runId = r ∧ res.score = none ∧ res.unit.retryUnit = u := by
  unfold Store.listNullScoreCells
  rw [(List.perm_insertionSort _ _).mem_iff, List.mem_map]
  constructor
  · rintro ⟨res, hres, rfl⟩
    obtain ⟨hmem, hnull⟩ := List.mem_filter.mp hres
    obtain ⟨hrun, hscore⟩ := of_decide_eq_true hnull
    exact ⟨res, hmem, hrun, hscore, rfl⟩
  · rintro ⟨res, hmem, hrun, hscore, rfl⟩
    exact ⟨res, List.mem_filter.mpr ⟨hmem, decide_eq_true ⟨hrun, hscore⟩⟩, rfl⟩

theorem requestedNulls_of_results_eq (units : Option (List RetryUnit))
    (h : st'.results = st.results) : requestedNulls st' r units = requestedNulls st r units := by
  unfold requestedNulls Store.listNullScoreCells
  rw [h]

theorem nullScoreCells_run {run : EvalRun} {nulls : List RetryUnit} {cell : Cell}
    (h : cell ∈ nullScoreCells st run nulls) : cell.run = run := by
  obtain ⟨⟨m, asked⟩, -, rfl⟩ := List.mem_map.mp h
  rfl

theorem planNullScoreRuns_stamped (units : Option (List RetryUnit)) (st : Store)
    (runs : List EvalRun) :
    RunsStamped st (planNullScoreRuns units st runs).1 fun _ => True := by
  induction runs generalizing st with
  | nil => exact .of_eq rfl
  | cons run runs ih =>
    refine RunsStamped.trans ?_ (ih _)
    split_ifs
    · exact .finishEvalRun st (r := run.id) rfl trivial
    · exact .of_eq rfl

/-- A run with units to ask gets a cell, or is done when the planning ends. -/
theorem planNullScoreRuns_covers (units : Option (List RetryUnit)) (st : Store)
    (runs : List EvalRun) {run : EvalRun} (hrun : run ∈ runs)
    (hnulls : requestedNulls st run.id units ≠ []) :
    run.id ∈ (planNullScoreRuns units st runs).2.map (·.run.id) ∨
      terminalIn (planNullScoreRuns units st runs).1 run.id := by
  induction runs generalizing st with
  | nil => cases hrun
  | cons run' runs ih =>
    rw [planNullScoreRuns, List.map_append, List.mem_append]
    rcases List.mem_cons.mp hrun with rfl | hrun
    · -- nulls of disabled cases alone plan no cell, and the run is stamped done
      by_cases hcells : nullScoreCells st run (requestedNulls st run.id units) = []
      · refine .inr ((planNullScoreRuns_stamped units _ runs).terminalIn ?_)
        rw [if_pos ⟨hnulls, hcells⟩]
        exact terminalIn_finishEvalRun _ _ rfl
      · obtain ⟨cell, hcell⟩ := List.exists_mem_of_ne_nil _ hcells
        refine .inl (.inl (List.mem_map.mpr ⟨cell, hcell, ?_⟩))
        rw [nullScoreCells_run hcell]
    · have hrest := ih (if requestedNulls st run'.id units ≠ [] ∧
        nullScoreCells st run' (requestedNulls st run'.id units) = [] then
          st.finishEvalRun run'.id .done else st) hrun (by
        have hresults : (if requestedNulls st run'.id units ≠ [] ∧
            nullScoreCells st run' (requestedNulls st run'.id units) = [] then
              st.finishEvalRun run'.id .done else st).results = st.results := by
          split_ifs <;> rfl
        rw [requestedNulls_of_results_eq units hresults]
        exact hnulls)
      exact hrest.imp .inr id

/-- A null-score retry plans the runs it reopens, or finishes them while planning. -/
theorem planNullScoreCells_covers (hsettled : Settled st c) {rejoin : EvalRun → Bool}
    (h : st.reopenCampaign c rejoin = some st') (units : Option (List RetryUnit))
    (hrejoin : ∀ run, rejoin run = true → requestedNulls st run.id units ≠ []) :
    ∀ run ∈ (planNullScoreCells st' c units).1.runs, run.campaignId = c →
      run.id ∉ (planNullScoreCells st' c units).2.runs → run.status.terminal = true := by
  intro run hrun hc hout
  have hstamped := planNullScoreRuns_stamped units st' (st'.listEvalRunsByCampaign c)
  obtain ⟨run₁, hrun₁, hid, hc₁, hkeep⟩ := hstamped.exists_run hrun
  by_cases hterminal : run₁.status.terminal = true
  · exact hkeep hterminal
  · obtain ⟨run₀, -, hid₀, -, hjoined⟩ := rejoin_of_not_terminal hsettled h hrun₁ (hc₁.trans hc)
      hterminal
    have hresults : st'.results = st.results := by
      obtain ⟨campaigns, rfl⟩ := reopenCampaign_eq h
      rfl
    -- a run that is open again was rejoined, so some null of it is requested
    have hnulls : requestedNulls st' run₁.id units ≠ [] := by
      rw [requestedNulls_of_results_eq units hresults, ← hid₀]
      exact hrejoin run₀ hjoined
    have hmem : run₁ ∈ st'.listEvalRunsByCampaign c :=
      List.mem_filter.mpr ⟨hrun₁, decide_eq_true (hc₁.trans hc)⟩
    rcases planNullScoreRuns_covers units st' _ hmem hnulls with hcell | hdone
    · exact absurd (Grouping.mem_firstSeen.mpr (hid ▸ hcell)) hout
    · exact hdone run hrun hid.symm

/-! #### Targeted retries -/

/-- Every run the retry reopens has a unit that is asked. Only a targeted retry can miss one:
it looks for the unit's case, which has to be there, enabled, and of the run's suite. -/
def Retry.Covers (st : Store) (c : ℕ) : Retry → Prop
  | answeredUnits us => ∀ run ∈ st.runs, run.campaignId = c →
      (∃ res ∈ st.results, res.runId = run.id ∧ res.unit.retryUnit ∈ us) →
        ∃ u ∈ us, ∃ x, enabledCase st u.caseId = some x ∧
          (runBySuite (st.listEvalRunsByCampaign c) x.suiteId).map (·.id) = some run.id
  | failedResults | units _ | resume _ => True

theorem mem_runs_planAnsweredUnits {us : List RetryUnit} :
    r ∈ (planAnsweredUnits st c us true).runs ↔
      ∃ u ∈ us, ∃ x, enabledCase st u.caseId = some x ∧
        (runBySuite (st.listEvalRunsByCampaign c) x.suiteId).map (·.id) = some r := by
  constructor
  · intro h
    obtain ⟨cell, hcell, rfl⟩ := List.mem_map.mp h
    obtain ⟨⟨⟨run, m⟩, ys⟩, hgroup, rfl⟩ := List.mem_map.mp hcell
    obtain ⟨⟨y, hy, hkey⟩, -⟩ := Grouping.mem_group.mp hgroup
    obtain ⟨u, hu, hasked⟩ := List.mem_filterMap.mp hy
    obtain ⟨⟨run', x⟩, hunit, rfl⟩ := Option.map_eq_some_iff.mp hasked
    obtain ⟨x', hx', hrun⟩ := Option.bind_eq_some_iff.mp hunit
    obtain ⟨run'', hsuite, heq⟩ := Option.map_eq_some_iff.mp hrun
    obtain ⟨rfl, rfl⟩ := Prod.mk.inj heq
    obtain ⟨rfl, rfl⟩ := Prod.mk.inj hkey
    exact ⟨u, hu, x', hx', by rw [hsuite]; rfl⟩
  · rintro ⟨u, hu, x, hx, hsuite⟩
    obtain ⟨run, hrun, rfl⟩ := Option.map_eq_some_iff.mp hsuite
    have hunit : answeredUnit st (st.listEvalRunsByCampaign c) u = some (run, x) := by
      simp [answeredUnit, hx, hrun]
    -- a unit of an enabled case falls to the run of its suite
    have hasked : ((run, u.modelDbId), x) ∈ us.filterMap fun u =>
        (answeredUnit st (st.listEvalRunsByCampaign c) u).map
          fun p => ((p.1, u.modelDbId), p.2) :=
      List.mem_filterMap.mpr ⟨u, hu, by rw [hunit]; rfl⟩
    have hgroup := (Grouping.mem_group (f := Prod.fst)).mpr ⟨⟨_, hasked, rfl⟩, rfl⟩
    have hcell := List.mem_map_of_mem (f := fun g : (EvalRun × ℕ) × List ((EvalRun × ℕ) × Case) =>
      (⟨g.1.1, g.1.2, g.2.map Prod.snd⟩ : Cell)) hgroup
    exact List.mem_map_of_mem (f := fun cell : Cell => cell.run.id) hcell

/-- The reopen changes the status of runs only, so a suite's run stays the same. -/
theorem runBySuite_reopened (rejoin : EvalRun → Bool) (runs : List EvalRun) (suiteId : ℕ) :
    (runBySuite ((runs.map (reopenedRun c rejoin)).filter (·.campaignId = c)) suiteId).map
        (·.id) =
      (runBySuite (runs.filter (·.campaignId = c)) suiteId).map (·.id) := by
  unfold runBySuite
  rw [List.filter_map, ← List.map_reverse, List.find?_map, Option.map_map]
  have hfilter : runs.filter ((fun run => decide (run.campaignId = c)) ∘ reopenedRun c rejoin) =
      runs.filter (·.campaignId = c) :=
    List.filter_congr fun run _ => by simp
  have hfind : ((fun run : EvalRun => decide (run.suiteId = suiteId)) ∘ reopenedRun c rejoin) =
      fun run => decide (run.suiteId = suiteId) := by
    funext run
    simp
  have hid : ((·.id) : EvalRun → ℕ) ∘ reopenedRun c rejoin = (·.id) := by
    funext run
    simp
  rw [hfilter, hfind, hid]

/-- The runs a targeted retry reopens and does not plan are those it does not cover. -/
theorem planAnsweredUnits_covers_iff (hsettled : Settled st c) {us : List RetryUnit}
    (h : st.reopenCampaignForUnitRetryAny c us = some st') :
    (∀ run ∈ st'.runs, run.campaignId = c → run.id ∉ (planAnsweredUnits st' c us true).runs →
        run.status.terminal = true) ↔ (Retry.answeredUnits us).Covers st c := by
  obtain ⟨campaigns, heq⟩ := reopenCampaign_eq h
  -- reopening changes neither the cases nor the suites of the runs
  have hplanned : ∀ r, r ∈ (planAnsweredUnits st' c us true).runs ↔
      ∃ u ∈ us, ∃ x, enabledCase st u.caseId = some x ∧
        (runBySuite (st.listEvalRunsByCampaign c) x.suiteId).map (·.id) = some r := by
    intro r
    rw [mem_runs_planAnsweredUnits, heq]
    simp only [Store.listEvalRunsByCampaign, runBySuite_reopened]
    rfl
  constructor
  · intro hcovered run hrun hc ⟨res, hres, hid, hunit⟩
    by_contra hout
    obtain ⟨hmem, hopen⟩ := not_terminal_of_rejoin hsettled h hrun hc
      (List.any_eq_true.mpr ⟨res, hres, decide_eq_true ⟨hid, hunit⟩⟩)
    refine hopen (hcovered _ hmem (by rw [reopenedRun_campaignId, hc]) ?_)
    rw [hplanned, reopenedRun_id]
    exact hout
  · intro hcovers run hrun hc hout
    by_contra hopen
    obtain ⟨run₀, hrun₀, hid, hc₀, hjoined⟩ := rejoin_of_not_terminal hsettled h hrun hc hopen
    obtain ⟨res, hres, hrow⟩ := List.any_eq_true.mp hjoined
    refine hout ?_
    rw [hplanned, ← hid]
    exact hcovers run₀ hrun₀ hc₀ ⟨res, hres, of_decide_eq_true hrow⟩

/-! #### Resumes -/

/-- A resume reopens the runs it planned. -/
theorem resumeCampaign_covers (hsettled : Settled st c) {reachable : ℕ → Bool}
    (h : resumeCampaign st c reachable = some (st', plan)) :
    plan = planResume st c reachable ∧ (st'.runs.map (·.id) = st.runs.map (·.id)) ∧
      ∀ run ∈ st'.runs, run.campaignId = c → run.id ∉ plan.runs → run.status.terminal = true := by
  unfold resumeCampaign at h
  dsimp only at h
  split_ifs at h
  obtain ⟨st₁, hreopen, heq⟩ := Option.map_eq_some_iff.mp h
  obtain ⟨rfl, rfl⟩ := Prod.mk.inj heq
  refine ⟨rfl, ?_, fun run hrun hc hout => ?_⟩
  · obtain ⟨campaigns, rfl⟩ := reopenCampaign_eq hreopen
    rw [List.map_map]
    exact List.map_congr_left fun run _ => reopenedRun_id _ _
  · by_contra hopen
    obtain ⟨run₀, -, hid, -, hjoined⟩ := rejoin_of_not_terminal hsettled hreopen hrun hc hopen
    refine hout (hid ▸ ?_)
    exact Grouping.mem_firstSeen.mp (of_decide_eq_true hjoined)

/-! ### Retries settle -/

/-- The plan of a reopening retry, and which of the reopened runs it leaves out. -/
theorem Retry.start_spec (hvalid : st.Valid) (hsettled : Settled st c) {retry : Retry}
    (h : retry.start st c = some (st', plan)) :
    plan.path.finishesRuns = true ∧ plan.campaignId = c ∧
      (∀ cell ∈ plan.cells, cell.run.id ∈ plan.runs) ∧ (st'.runs.map (·.id)).Nodup ∧
      ((∀ run ∈ st'.runs, run.campaignId = c → run.id ∉ plan.runs →
        run.status.terminal = true) ↔ retry.Covers st c) := by
  -- the two null-score retries differ in the units they ask
  have hnull : ∀ (units : Option (List RetryUnit)) (rejoin : EvalRun → Bool) (st₁ : Store),
      st.reopenCampaign c rejoin = some st₁ →
      (∀ run, rejoin run = true → requestedNulls st run.id units ≠ []) →
      planNullScoreCells st₁ c units = (st', plan) →
      plan.path.finishesRuns = true ∧ plan.campaignId = c ∧
        (∀ cell ∈ plan.cells, cell.run.id ∈ plan.runs) ∧ (st'.runs.map (·.id)).Nodup ∧
        ∀ run ∈ st'.runs, run.campaignId = c → run.id ∉ plan.runs →
          run.status.terminal = true := by
    intro units rejoin st₁ hreopen hrejoin hplan
    have hcovers := planNullScoreCells_covers hsettled hreopen units hrejoin
    have hstamped := planNullScoreRuns_stamped units st₁ (st₁.listEvalRunsByCampaign c)
    rw [hplan] at hcovers
    obtain ⟨rfl, rfl⟩ := Prod.mk.inj hplan
    refine ⟨rfl, rfl, fun cell hcell => ?_, ?_, hcovers⟩
    · exact Grouping.mem_firstSeen.mpr (List.mem_map_of_mem hcell)
    · obtain ⟨f, hruns, hf⟩ := hstamped
      rw [hruns, List.map_map]
      have hids : (st₁.runs.map ((·.id) ∘ f)) = st₁.runs.map (·.id) :=
        List.map_congr_left fun run _ => (hf run).1
      rw [hids]
      exact nodup_reopened hvalid.runIds hreopen
  cases retry with
  | failedResults =>
    obtain ⟨st₁, hreopen, hplan⟩ := Option.map_eq_some_iff.mp h
    refine (hnull none _ st₁ hreopen ?_ hplan).imp id (.imp id (.imp id (.imp id fun hall => ?_)))
    · intro run hrejoin
      obtain ⟨res, hres, hrow⟩ := List.any_eq_true.mp hrejoin
      obtain ⟨hid, hscore⟩ := of_decide_eq_true hrow
      exact List.ne_nil_of_mem (mem_listNullScoreCells.mpr ⟨res, hres, hid, hscore, rfl⟩)
    · exact iff_of_true hall trivial
  | units us =>
    obtain ⟨st₁, hreopen, hplan⟩ := Option.map_eq_some_iff.mp h
    refine (hnull (some us) _ st₁ hreopen ?_ hplan).imp id
      (.imp id (.imp id (.imp id fun hall => ?_)))
    · intro run hrejoin
      obtain ⟨res, hres, hrow⟩ := List.any_eq_true.mp hrejoin
      obtain ⟨hid, hscore, hunit⟩ := of_decide_eq_true hrow
      refine List.ne_nil_of_mem (List.mem_filter.mpr ⟨?_, decide_eq_true hunit⟩)
      exact mem_listNullScoreCells.mpr ⟨res, hres, hid, hscore, rfl⟩
    · exact iff_of_true hall trivial
  | answeredUnits us =>
    obtain ⟨st₁, hreopen, hplan⟩ := Option.map_eq_some_iff.mp h
    obtain ⟨rfl, rfl⟩ := Prod.mk.inj hplan
    refine ⟨rfl, rfl, fun cell hcell => List.mem_map_of_mem hcell, ?_, ?_⟩
    · exact nodup_reopened hvalid.runIds hreopen
    · exact planAnsweredUnits_covers_iff hsettled hreopen
  | resume reachable =>
    obtain ⟨rfl, hids, hcovers⟩ := resumeCampaign_covers hsettled h
    refine ⟨rfl, rfl, fun cell hcell => List.mem_map_of_mem hcell, ?_, ?_⟩
    · exact hids ▸ hvalid.runIds
    · exact iff_of_true hcovers trivial

/-- **Retries settle.** When a retry of a settled campaign returns, the campaign is settled
again just when the retry covers the runs it reopens. -/
theorem settled_iff_covers (hvalid : st.Valid) (hsettled : Settled st c) (retry : Retry)
    (hstart : retry.start st c = some (st', plan))
    (h : Transition.Reach (step env plan) (fun _ _ => True) (plan.start env st') s)
    (hreturned : s.main = .returned) : Settled s.store c ↔ retry.Covers st c := by
  obtain ⟨hfinishes, rfl, hplan, hids, hcovers⟩ := Retry.start_spec hvalid hsettled hstart
  rw [← hcovers]
  exact settled_of_returned hfinishes hplan hids h hreturned

/-- A settled campaign with one null result, whose case was disabled since. -/
def disabledStore : Store where
  models := [⟨1, "m1", .chat, false, true⟩]
  suites := [⟨1, true⟩]
  cases := [{ ruleCase 1 with enabled := false }]
  campaigns := [⟨1, .done⟩]
  campaignModels := [(1, 1)]
  runs := [soloRun .done]
  results := [failedResult (soloRun .done) 1 "m1" (ruleCase 1)]
  answers := []
  judgeScores := []
  campaignSeq := 1
  runSeq := 1
  answerSeq := 0

theorem disabledStore_valid : disabledStore.Valid := by
  constructor <;> simp [disabledStore, soloRun, failedResult]

theorem disabledStore_settled : Settled disabledStore 1 := by
  constructor <;> simp [disabledStore, soloRun]

/-- An execution without cells: the pools open and close, and the campaign settles. -/
def emptyLabels : List Label :=
  [.main, .main, .main, .judge 0 .go, .judge 0 .go, .main, .main, .main, .main]

/-- The retry of all failed results finishes the run while planning. -/
theorem settled_iff_covers_failed :
    ∃ (st : Store) (plan : Plan) (s : State),
      Retry.start disabledStore 1 .failedResults = some (st, plan) ∧ s.main = .returned ∧
        (Settled s.store 1 ↔ Retry.Covers disabledStore 1 .failedResults) := by
  obtain ⟨p, hp⟩ : ∃ p, Retry.start disabledStore 1 .failedResults = some p := ⟨_, rfl⟩
  obtain ⟨s, hs⟩ : ∃ s, Transition.replay (step soloEnv p.2) (p.2.start soloEnv p.1)
      (emptyLabels ++ [.main]) = some s := by
    cases hp
    exact ⟨_, rfl⟩
  have hreturned : s.main = .returned := by
    cases hp
    cases hs
    rfl
  exact ⟨p.1, p.2, s, hp, hreturned, settled_iff_covers disabledStore_valid disabledStore_settled
    .failedResults hp (.of_replay hs) hreturned⟩

/-- **Stranded runs.** A targeted retry reopens the run of a row whose case is disabled, plans
no cell of it and leaves it running. -/
theorem not_settled_of_returned :
    ¬ ∀ (env : Env) (plan : Plan) (st st' : Store) (s : State) (c : ℕ) (retry : Retry),
      (∀ us, retry = .answeredUnits us → ∃ items, us = acceptUnits st c items) →
      st.Valid → Settled st c → retry.start st c = some (st', plan) →
      Transition.Reachable (step env plan) (plan.start env st') s → s.main = .returned →
      Settled s.store c := by
  intro h
  obtain ⟨p, hp⟩ : ∃ p, Retry.start disabledStore 1
    (.answeredUnits (acceptUnits disabledStore 1 [⟨1, 1⟩])) = some p := ⟨_, rfl⟩
  obtain ⟨s, hs⟩ : ∃ s, Transition.replay (step soloEnv p.2) (p.2.start soloEnv p.1)
      emptyLabels = some s := by
    cases hp
    exact ⟨_, rfl⟩
  have hreturned : s.main = .returned := by
    cases hp
    cases hs
    rfl
  have hsettled := h soloEnv p.2 disabledStore p.1 s 1 _ (fun _ hus => ⟨_, by cases hus; rfl⟩)
    disabledStore_valid disabledStore_settled hp (.of_replay hs) hreturned
  have hrun : soloRun .running ∈ s.store.runs := by
    cases hp
    cases hs
    exact List.mem_singleton_self _
  exact absurd (hsettled.runs _ hrun rfl) (by decide)

end HubScope
