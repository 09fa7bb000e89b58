import HubScope.Server.Operations

/-!
# One unfinished campaign at a time

Every operation that makes a campaign active first asks whether any campaign is still pending
or running. The question and the act are two store calls, and a restart probes its models in
between, so what the check saw may be out of date when the operation acts. Two operations that
both ask before either acts both go through.

## Main definitions

* `Store.unfinished` — the campaigns that are pending or running
* `Exclusive` — at most one campaign is unfinished
* `Unraced` — what was started since an operation's check is settled when the operation acts

## Main results

* `exclusive_of_reach` — runs whose starts are unraced keep the campaigns exclusive, and the next
  step keeps them so just when it is unraced
-/

set_option autoImplicit false

namespace HubScope

/-- The campaigns that are pending or running. -/
def Store.unfinished (st : Store) : List ℕ :=
  (st.campaigns.filter fun c => !c.status.terminal).map (·.id)

/-- At most one campaign is pending or running. -/
def Exclusive (w : World) : Prop := w.store.unfinished.length ≤ 1

/-- An operation makes a campaign active only when every campaign that others made active since
its check is settled again. -/
def Unraced (w : World) : WorldLabel → Prop
  | .op i _ => ∀ op ∈ w.ops[i]?, (op.pc.starts w.store).isSome = true →
      ∀ c ∈ w.startedSince i, c ∉ w.store.unfinished
  | .arrive _ | .cancelCampaign _ => True

instance (w : World) (a : WorldLabel) : Decidable (Unraced w a) :=
  match a with
  | .op i _ => inferInstanceAs (Decidable (∀ op ∈ w.ops[i]?, (op.pc.starts w.store).isSome = true →
      ∀ c ∈ w.startedSince i, c ∉ w.store.unfinished))
  | .arrive _ | .cancelCampaign _ => inferInstanceAs (Decidable True)

/-- The operation passed its check and has not acted on it. -/
def OpPc.cleared : OpPc → Bool
  | .selectBatch | .createCampaign _ _ | .reopen _ _ | .register _ .resumeCampaign
  | .listRuns _ .resumeCampaign | .listMembers _ _ | .probeMembers _ _ _ | .readResults _ _ _ _
  | .reopenRuns _ _ => true
  | _ => false

variable {st st' : Store} {o : Operation} {pc pc' : OpPc} {choice : OpChoice} {w w' : World}
  {a : WorldLabel} {c : ℕ}

/-! ### The campaigns of a store -/

theorem mem_unfinished {id : ℕ} :
    id ∈ st.unfinished ↔ ∃ c ∈ st.campaigns, c.id = id ∧ c.status.terminal = false := by
  simp only [Store.unfinished, List.mem_map, List.mem_filter, Bool.not_eq_true']
  constructor
  · rintro ⟨c, ⟨hc, hstatus⟩, rfl⟩
    exact ⟨c, hc, rfl, hstatus⟩
  · rintro ⟨c, hc, rfl, hstatus⟩
    exact ⟨c, ⟨hc, hstatus⟩, rfl⟩

theorem unfinished_eq_nil (h : st.hasUnfinishedCampaign = false) : st.unfinished = [] := by
  rw [List.eq_nil_iff_forall_not_mem]
  intro id hid
  obtain ⟨c, hc, -, hstatus⟩ := mem_unfinished.mp hid
  rw [Store.hasUnfinishedCampaign, List.any_eq_false] at h
  exact h c hc (by rw [hstatus]; rfl)

/-- Campaign ids are distinct and none is above the sequence. -/
structure CampaignKeys (st : Store) : Prop where
  nodup : (st.campaigns.map (·.id)).Nodup
  le_seq : ∀ c ∈ st.campaigns, c.id ≤ st.campaignSeq

theorem CampaignKeys.nodup_unfinished (h : CampaignKeys st) : st.unfinished.Nodup :=
  (List.filter_sublist.map _).nodup h.nodup

/-- The campaigns are rewritten in place, and no settled one becomes active. -/
def WindsDown (st st' : Store) : Prop :=
  st'.campaignSeq = st.campaignSeq ∧ ∃ f : Campaign → Campaign,
    st'.campaigns = st.campaigns.map f ∧
      ∀ c, (f c).id = c.id ∧ (c.status.terminal = true → (f c).status.terminal = true)

theorem WindsDown.of_eq (hseq : st'.campaignSeq = st.campaignSeq)
    (h : st'.campaigns = st.campaigns) : WindsDown st st' :=
  ⟨hseq, id, by rw [h, List.map_id], fun _ => ⟨rfl, id⟩⟩

theorem windsDown_settleUpdate (st : Store) (c : ℕ) (status : Status) :
    WindsDown st (st.settleUpdate c status) := by
  refine ⟨rfl, _, rfl, fun x => ?_⟩
  split_ifs with hopen
  · exact ⟨rfl, fun hterminal => absurd hterminal hopen.2⟩
  · exact ⟨rfl, id⟩

/-- Rewriting campaigns in place keeps their keys. -/
theorem CampaignKeys.map (h : CampaignKeys st) {f : Campaign → Campaign}
    (hf : ∀ x, (f x).id = x.id) (hseq : st'.campaignSeq = st.campaignSeq)
    (hcampaigns : st'.campaigns = st.campaigns.map f) : CampaignKeys st' := by
  constructor
  · have hids : (st.campaigns.map f).map (·.id) = st.campaigns.map (·.id) := by
      rw [List.map_map]
      exact List.map_congr_left fun x _ => hf x
    rw [hcampaigns, hids]
    exact h.nodup
  · intro x hx
    rw [hcampaigns] at hx
    obtain ⟨x₀, hx₀, rfl⟩ := List.mem_map.mp hx
    rw [hf, hseq]
    exact h.le_seq x₀ hx₀

theorem WindsDown.keys (h : WindsDown st st') (hkeys : CampaignKeys st) : CampaignKeys st' := by
  obtain ⟨hseq, f, hcampaigns, hf⟩ := h
  exact hkeys.map (fun x => (hf x).1) hseq hcampaigns

theorem WindsDown.unfinished_sublist (h : WindsDown st st') :
    st'.unfinished.Sublist st.unfinished := by
  obtain ⟨-, f, hcampaigns, hf⟩ := h
  rw [Store.unfinished, hcampaigns, List.filter_map, List.map_map]
  have hids : (fun x : Campaign => x.id) ∘ f = fun x => x.id := funext fun x => (hf x).1
  rw [hids]
  refine (List.monotone_filter_right _ fun x hopen => ?_).map _
  by_contra hterminal
  rw [Bool.not_eq_true, Bool.not_eq_false'] at hterminal
  rw [Function.comp_apply, (hf x).2 hterminal] at hopen
  cases hopen

/-! ### Executions -/

theorem Step.campaignSeq_eq {env : Env} {plan : Plan} {s s' : State} {a : Label}
    (h : Step env plan s a s') : s'.store.campaignSeq = s.store.campaignSeq := by
  cases h with
  | main hm =>
    generalize s.main = pc at hm
    cases hm with
    | flushRun r rs _ hst =>
      subst hst
      split <;> rfl
    | tailRun r rs => split <;> rfl
    | _ => rfl
  | exam hi he =>
    cases he with
    | finished r => split <;> rfl
    | _ => rfl
  | judge hj he =>
    cases he with
    | recorded j o =>
      obtain ⟨rows, heq⟩ := s.store.createEvalJudgeScore_eq (judgeScoreRow j o)
      rw [heq]
    | finished j => split <;> rfl
    | _ => rfl
  | _ => rfl

/-- An execution settles campaigns, and starts none. -/
theorem Step.windsDown {env : Env} {plan : Plan} {s s' : State} {a : Label}
    (h : Step env plan s a s') : WindsDown s.store s'.store := by
  rcases h.campaigns_eq with heq | ⟨status, -, -, heq⟩
  · exact .of_eq h.campaignSeq_eq heq
  · rw [heq]
    exact windsDown_settleUpdate _ _ _

/-! ### Steps of an operation -/

/-- An operation that makes no campaign active leaves every settled one settled. -/
theorem OpStep.windsDown (h : OpStep st o pc choice st' pc') (hstarts : pc.starts st = none) :
    WindsDown st st' := by
  -- what reopens a campaign starts it
  have hreopen : ∀ {c : ℕ} {rejoin : EvalRun → Bool} {st' : Store},
      st.reopenCampaign c rejoin = some st' → st.isSettled c = true := by
    intro c rejoin st' h
    unfold Store.reopenCampaign at h
    split_ifs at h with hsettled
    exact hsettled
  cases h with
  | created => cases hstarts
  | reopened c units rejoin job st' h =>
    rw [OpPc.starts, if_pos (hreopen h)] at hstarts
    cases hstarts
  | runsReopened c cells rejoin st' h =>
    rw [OpPc.starts, if_pos (hreopen h)] at hstarts
    cases hstarts
  | settledEmpty c =>
    unfold Store.settleEmptyCampaign
    split_ifs
    · exact .of_eq rfl rfl
    · exact windsDown_settleUpdate _ _ _
  | updated c registered status => exact windsDown_settleUpdate _ _ _
  | executed single registered env plan e a s hs => exact (step_cases hs).2.windsDown
  | prepared c b snapshot run suites prepared name =>
    unfold prepareRun resolveJudgeModel
    split_ifs
    · exact .of_eq rfl rfl
    · exact .of_eq rfl rfl
  | _ => exact .of_eq rfl rfl

/-- An operation stands between its check and its act only if it just passed the check. -/
theorem OpStep.cleared (h : OpStep st o pc choice st' pc') (hcleared : pc'.cleared = true) :
    pc.cleared = true ∨ (∃ units, pc = .check units) ∧ st'.unfinished = [] := by
  cases h with
  -- the check itself: nothing is unfinished at this moment
  | passed units hactive => exact .inr ⟨⟨units, rfl⟩, unfinished_eq_nil hactive⟩
  | admitted c status =>
    exfalso
    cases o with
    | createEval | runBatch => cases hcleared
    | retryFailed | retryUnits | restart =>
      unfold admission at hcleared
      dsimp only at hcleared
      split_ifs at hcleared <;> cases hcleared
  | registered c job =>
    cases job with
    | resumeCampaign => exact .inl rfl
    | runCampaign b snapshot =>
      unfold HubScope.registered at hcleared
      dsimp only at hcleared
      split_ifs at hcleared <;> cases hcleared
    | _ => cases hcleared
  | reopened c units rejoin job st' hreopen hjob => rcases hjob with rfl | rfl <;> cases hcleared
  | created | answersFound | runsCreated | runsFailed | unregistered =>
    split_ifs at hcleared <;> cases hcleared
  | unsettled c registered | updated c registered => cases registered <;> cases hcleared
  | selected | resumeListed | membersListed | membersProbed | resultsRead | resultsPlanned =>
    exact .inl rfl
  | _ => cases hcleared

/-! ### Starts -/

theorem CampaignKeys.createCampaign (h : CampaignKeys st) (modelIds : List ℕ) :
    CampaignKeys (st.createCampaign modelIds).1 := by
  constructor
  · simp only [Store.createCampaign, List.map_append, List.map_cons, List.map_nil]
    refine List.nodup_append.mpr ⟨h.nodup, List.nodup_singleton _, ?_⟩
    intro id hid id' hid'
    obtain ⟨c, hc, rfl⟩ := List.mem_map.mp hid
    obtain rfl := List.mem_singleton.mp hid'
    have hle := h.le_seq c hc
    omega
  · intro c hc
    change c ∈ st.campaigns ++ _ at hc
    change c.id ≤ st.campaignSeq + 1
    rcases List.mem_append.mp hc with hc | hc
    · exact Nat.le_succ_of_le (h.le_seq c hc)
    · rw [List.mem_singleton.mp hc]

theorem unfinished_createCampaign (st : Store) (modelIds : List ℕ) :
    (st.createCampaign modelIds).1.unfinished = st.unfinished ++ [st.campaignSeq + 1] := by
  unfold Store.createCampaign Store.unfinished
  rw [List.filter_append, List.map_append]
  rfl

/-- The campaign that is reopened, running again. -/
def reopenedCampaign (c : ℕ) (x : Campaign) : Campaign :=
  if x.id = c ∧ x.status.terminal then { x with status := .running } else x

theorem reopenedCampaign_id (c : ℕ) (x : Campaign) : (reopenedCampaign c x).id = x.id := by
  unfold reopenedCampaign
  split_ifs <;> rfl

theorem campaigns_reopenCampaign {rejoin : EvalRun → Bool}
    (h : st.reopenCampaign c rejoin = some st') :
    st.isSettled c = true ∧ st'.campaignSeq = st.campaignSeq ∧
      st'.campaigns = st.campaigns.map (reopenedCampaign c) := by
  unfold Store.reopenCampaign at h
  split_ifs at h with hsettled
  cases h
  exact ⟨hsettled, rfl, rfl⟩

theorem exists_of_isSettled (h : st.isSettled c = true) :
    ∃ x ∈ st.campaigns, x.id = c ∧ x.status.terminal = true := by
  obtain ⟨x, hx, hsettled⟩ := List.any_eq_true.mp h
  exact ⟨x, hx, of_decide_eq_true hsettled⟩

/-- A reopen makes its campaign active and no other. -/
theorem mem_unfinished_reopenCampaign {rejoin : EvalRun → Bool} {id : ℕ}
    (h : st.reopenCampaign c rejoin = some st') :
    id ∈ st'.unfinished ↔ id = c ∨ id ∈ st.unfinished := by
  obtain ⟨hsettled, -, hcampaigns⟩ := campaigns_reopenCampaign h
  rw [mem_unfinished, mem_unfinished, hcampaigns]
  constructor
  · rintro ⟨y, hy, rfl, hstatus⟩
    obtain ⟨x, hx, rfl⟩ := List.mem_map.mp hy
    rw [reopenedCampaign_id]
    unfold reopenedCampaign at hstatus
    split_ifs at hstatus with hcase
    · exact .inl hcase.1
    · exact .inr ⟨x, hx, rfl, hstatus⟩
  · -- the campaign was settled, so reopening it really changes its status
    rintro (rfl | ⟨x, hx, rfl, hstatus⟩)
    · obtain ⟨x, hx, rfl, hterminal⟩ := exists_of_isSettled hsettled
      refine ⟨_, List.mem_map_of_mem hx, reopenedCampaign_id _ x, ?_⟩
      rw [reopenedCampaign, if_pos ⟨rfl, hterminal⟩]
      rfl
    · refine ⟨_, List.mem_map_of_mem hx, reopenedCampaign_id _ x, ?_⟩
      unfold reopenedCampaign
      split_ifs
      · rfl
      · exact hstatus

/-- What a start does to the campaigns: it adds the one it makes active. -/
structure Started (st st' : Store) (c : ℕ) : Prop where
  keys : CampaignKeys st'
  perm : st'.unfinished.Perm (c :: st.unfinished)

theorem CampaignKeys.started_createCampaign (h : CampaignKeys st) (modelIds : List ℕ) :
    Started st (st.createCampaign modelIds).1 (st.campaignSeq + 1) where
  keys := h.createCampaign modelIds
  perm := by
    rw [unfinished_createCampaign]
    exact List.perm_append_comm

theorem CampaignKeys.started_reopenCampaign (h : CampaignKeys st) {rejoin : EvalRun → Bool}
    (hreopen : st.reopenCampaign c rejoin = some st') : Started st st' c := by
  obtain ⟨hsettled, hseq, hcampaigns⟩ := campaigns_reopenCampaign hreopen
  have hkeys := h.map (reopenedCampaign_id c) hseq hcampaigns
  refine ⟨hkeys, (List.perm_ext_iff_of_nodup hkeys.nodup_unfinished ?_).mpr fun id => ?_⟩
  · refine List.nodup_cons.mpr ⟨fun hmem => ?_, h.nodup_unfinished⟩
    -- the campaign is settled, and no other one has its id
    obtain ⟨x, hx, hid, hstatus⟩ := mem_unfinished.mp hmem
    obtain ⟨y, hy, rfl, hterminal⟩ := exists_of_isSettled hsettled
    obtain rfl : x = y := List.inj_on_of_nodup_map h.nodup hx hy hid
    rw [hterminal] at hstatus
    cases hstatus
  · rw [List.mem_cons]
    exact mem_unfinished_reopenCampaign hreopen

theorem exists_reopenCampaign (h : st.isSettled c = true) (rejoin : EvalRun → Bool) :
    ∃ st', st.reopenCampaign c rejoin = some st' := ⟨_, if_pos h⟩

/-- A step of an operation about to make a campaign active makes it active. -/
theorem started_of_opStep {executing executing' : ℕ → Bool} (hkeys : CampaignKeys st)
    (hstarts : pc.starts st = some c)
    (h : opStep st executing o pc choice = some (st', executing', pc')) : Started st st' c := by
  -- three control points are about to make a campaign active: creating it and the two reopenings
  cases pc with
  | createCampaign b snapshot =>
    cases hstarts
    cases choice with
    | go =>
      cases h
      exact hkeys.started_createCampaign _
    | _ => cases h
  | reopen c' units =>
    obtain ⟨hsettled, heq⟩ := Option.ite_none_right_eq_some.mp hstarts
    cases heq
    cases choice with
    | go =>
      -- a retry of units reopens the runs of its units, any other retry those with a null score
      cases o with
      | retryUnits c' items =>
        obtain ⟨st₁, hreopen⟩ := exists_reopenCampaign hsettled fun r =>
          st.results.any fun res => res.runId = r.id ∧ res.unit.retryUnit ∈ units
        simp only [opStep, Store.reopenCampaignForUnitRetryAny, hreopen] at h
        cases h
        exact hkeys.started_reopenCampaign hreopen
      | _ =>
        obtain ⟨st₁, hreopen⟩ := exists_reopenCampaign hsettled fun r =>
          st.results.any fun res => res.runId = r.id ∧ res.score = none
        simp only [opStep, Store.reopenCampaignForRetry, hreopen] at h
        cases h
        exact hkeys.started_reopenCampaign hreopen
    | _ => cases h
  | reopenRuns c' cells =>
    obtain ⟨hsettled, heq⟩ := Option.ite_none_right_eq_some.mp hstarts
    cases heq
    cases choice with
    | go =>
      obtain ⟨st₁, hreopen⟩ := exists_reopenCampaign hsettled fun r =>
        r.id ∈ Grouping.firstSeen (cells.map (·.run.id))
      simp only [opStep, Store.reopenCampaignRuns, hreopen] at h
      cases h
      exact hkeys.started_reopenCampaign hreopen
    | _ => cases h
  | _ => cases hstarts

theorem cleared_of_starts (h : pc.starts st = some c) : pc.cleared = true := by
  cases pc with
  | createCampaign | reopen | reopenRuns => rfl
  | _ => cases h

/-! ### Runs -/

/-- What an operation past its check finds unfinished was started since. -/
structure Current (w : World) : Prop where
  keys : CampaignKeys w.store
  since : ∀ i op, w.ops[i]? = some op → op.pc.cleared = true →
    w.store.unfinished ⊆ w.startedSince i

theorem note_of_starts {i j : ℕ} (h : pc.starts w.store = some c) :
    w.note i pc j = c :: w.startedSince j := by
  cases pc with
  | check units => cases h
  | _ => simp only [World.note, h]

theorem note_of_cleared {i : ℕ} (h : pc.cleared = true) (hstarts : pc.starts w.store = none) :
    w.note i pc = w.startedSince := by
  cases pc with
  | check units => cases h
  | _ => simp only [World.note, hstarts]

theorem note_of_ne {i j : ℕ} (hji : j ≠ i) (hstarts : pc.starts w.store = none) :
    w.note i pc j = w.startedSince j := by
  cases pc with
  | check units => exact Function.update_of_ne hji _ _
  | _ => simp only [World.note, hstarts]

/-- An operation about to act finds nothing unfinished just when nothing overtook it. -/
theorem Current.unraced_iff (h : Current w) {i : ℕ} {op : Op} (hi : w.ops[i]? = some op)
    (hstarts : op.pc.starts w.store = some c) :
    Unraced w (.op i choice) ↔ w.store.unfinished = [] := by
  have hsince := h.since i op hi (cleared_of_starts hstarts)
  constructor
  · intro hunraced
    rw [List.eq_nil_iff_forall_not_mem]
    intro id hid
    exact hunraced op hi (by rw [hstarts]; rfl) id (hsince hid) hid
  · intro hnil op' _ _ id _
    rw [hnil]
    exact List.not_mem_nil

theorem Current.step (h : Current w) (hstep : worldStep w a = some w') (hunraced : Unraced w a) :
    Current w' := by
  cases (worldStep_cases hstep).2 with
  | arrived o =>
    refine ⟨h.keys, fun i op hi hcleared => ?_⟩
    rcases Nat.lt_or_ge i w.ops.length with hlt | hle
    · exact h.since i op ((List.getElem?_append_left hlt).symm.trans hi) hcleared
    · have hnew := (List.getElem?_append_right hle).symm.trans hi
      rw [List.mem_singleton.mp (List.mem_of_getElem? hnew)] at hcleared
      cases o <;> cases hcleared
  | canceled c => exact ⟨h.keys, h.since⟩
  | @stepped i op choice st executing pc hi hop =>
    have hcases := opStep_cases hop
    -- a start leaves one unfinished campaign, its own, and everyone notes it; other steps finish
    -- some at most
    cases hstarts : op.pc.starts w.store with
    | some c =>
      obtain ⟨hkeys, hperm⟩ := started_of_opStep h.keys hstarts hop
      refine ⟨hkeys, fun j op' _ _ => ?_⟩
      change st.unfinished ⊆ w.note i op.pc j
      rw [(h.unraced_iff hi hstarts).mp hunraced] at hperm
      rw [note_of_starts hstarts]
      intro id hid
      rw [List.mem_singleton.mp (hperm.mem_iff.mp hid)]
      exact List.mem_cons_self ..
    | none =>
      have hwinds := hcases.windsDown hstarts
      refine ⟨hwinds.keys h.keys, fun j op' hj hcleared => ?_⟩
      change st.unfinished ⊆ w.note i op.pc j
      by_cases hji : j = i
      · subst hji
        obtain rfl : op' = { op with pc := pc } :=
          (Option.some.inj ((List.getElem?_set_self (List.getElem?_eq_some_iff.mp hi).1).symm.trans
            hj)).symm
        rcases hcases.cleared hcleared with hbefore | ⟨⟨units, hcheck⟩, hnil⟩
        · rw [note_of_cleared hbefore hstarts]
          exact List.Subset.trans hwinds.unfinished_sublist.subset (h.since j op hi hbefore)
        · rw [hnil]
          exact List.nil_subset _
      · rw [note_of_ne hji hstarts]
        have hj' : w.ops[j]? = some op' := (List.getElem?_set_ne (Ne.symm hji)).symm.trans hj
        exact List.Subset.trans hwinds.unfinished_sublist.subset (h.since j op' hj' hcleared)

theorem current_of_reach (hvalid : st.Valid)
    (h : Transition.Reach worldStep Unraced (.start st) w) : Current w := by
  refine h.invariant ?_ fun _ _ _ ht hunraced hstep => ht.step hstep hunraced
  refine ⟨⟨hvalid.campaignIds, hvalid.campaignSeq⟩, fun i op hi => ?_⟩
  cases hi

/-- The step that comes next keeps the campaigns exclusive just when it is unraced. -/
theorem Current.exclusive_iff (h : Current w) (hexclusive : Exclusive w)
    (hstep : worldStep w a = some w') : Exclusive w' ↔ Unraced w a := by
  cases (worldStep_cases hstep).2 with
  | arrived | canceled => exact iff_of_true hexclusive trivial
  | @stepped i op choice st executing pc hi hop =>
    cases hstarts : op.pc.starts w.store with
    | some c =>
      have hperm := (started_of_opStep h.keys hstarts hop).perm
      rw [h.unraced_iff hi hstarts]
      change st.unfinished.length ≤ 1 ↔ _
      rw [hperm.length_eq, List.length_cons, ← List.length_eq_zero_iff]
      omega
    | none =>
      have hwinds := (opStep_cases hop).windsDown hstarts
      refine iff_of_true (hwinds.unfinished_sublist.length_le.trans hexclusive) ?_
      intro op' hop' hsome
      obtain rfl : op = op' := Option.some.inj (hi.symm.trans hop')
      rw [hstarts] at hsome
      cases hsome

/-- **One campaign at a time.** In every run in which each start is unraced at most one campaign
is pending or running, and the step that comes next keeps it so just when it is unraced. -/
theorem exclusive_of_reach (hvalid : st.Valid) (hstart : Exclusive (.start st))
    (h : Transition.Reach worldStep Unraced (.start st) w) :
    Exclusive w ∧ ∀ a w', worldStep w a = some w' → (Exclusive w' ↔ Unraced w a) := by
  have hexclusive : Exclusive w := by
    refine h.invariant_of (fun _ ht => current_of_reach hvalid ht) hstart ?_
    intro t a u hcurrent hexclusive hunraced hstep
    exact (hcurrent.exclusive_iff hexclusive hstep).mpr hunraced
  exact ⟨hexclusive, fun a w' hstep =>
    (current_of_reach hvalid h).exclusive_iff hexclusive hstep⟩

/-! ### Two requests -/

/-- A request for a full sweep and the weekly batch both pass their check. The probe gate lets no
model of the sweep through and its campaign fails; then the weekly batch creates its own. -/
def settledSweep : List WorldLabel :=
  [.arrive (.createEval ⟨0, [], []⟩), .arrive .runBatch, .op 0 .go, .op 1 .go,
    .op 0 (.selected "judge" fun _ => true), .op 1 (.selected "judge" fun _ => true), .op 0 .go,
    .op 0 .go, .op 0 .go, .op 0 (.judgeModel "judge"), .op 0 .go,
    .op 0 (.gate (some ⟨fun _ => false, []⟩)), .op 0 .go, .op 0 .go, .op 0 .go, .op 0 .go,
    .op 1 .go]

/-- The weekly batch asks between the check and the creation of a request for a full sweep. -/
def twoSweeps : List WorldLabel :=
  [.arrive (.createEval ⟨0, [], []⟩), .arrive .runBatch, .op 0 .go, .op 1 .go,
    .op 0 (.selected "judge" fun _ => true), .op 1 (.selected "judge" fun _ => true),
    .op 0 .go, .op 1 .go]

/-- The sweep was started since the weekly batch passed its check, but it is settled when the
batch acts: the batch's campaign is the only one that is unfinished. -/
theorem exclusive_of_reach_sweep : ∃ w : World,
    w.store.unfinished = [3] ∧ 2 ∈ w.startedSince 1 ∧ Exclusive w := by
  obtain ⟨w, hw⟩ : ∃ w, Transition.replayWith worldStep Unraced (.start failedStore) settledSweep =
      some w := ⟨_, rfl⟩
  have hexclusive : Exclusive w :=
    (exclusive_of_reach failedStore_valid (Nat.zero_le 1) (.of_replayWith hw)).1
  refine ⟨w, ?_, ?_, hexclusive⟩
  · cases hw
    rfl
  · cases hw
    exact List.mem_cons_of_mem 3 (List.mem_singleton_self 2)

/-- **Two campaigns at a time.** Two starts that both pass their check before either acts leave
two campaigns running. -/
theorem not_exclusive_of_reach :
    ¬ ∀ (st : Store) (w : World), st.Valid → (∀ c ∈ st.campaigns, c.status.terminal = true) →
      Transition.Reachable worldStep (.start st) w → Exclusive w := by
  intro h
  obtain ⟨w, hw, hunfinished⟩ : ∃ w, Transition.replay worldStep (.start failedStore) twoSweeps =
      some w ∧ w.store.unfinished.length = 2 := ⟨_, rfl, rfl⟩
  have hsettled : ∀ c ∈ failedStore.campaigns, c.status.terminal = true := by
    intro c hc
    rw [List.mem_singleton.mp hc]
    rfl
  have hexclusive := h failedStore w failedStore_valid hsettled (.of_replay hw)
  rw [Exclusive, hunfinished] at hexclusive
  omega

end HubScope
