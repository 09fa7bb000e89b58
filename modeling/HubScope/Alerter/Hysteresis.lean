import HubScope.Alerter.Restart

/-!
# The hysteresis of a vendor group

A family opens at half of its enabled members and at least two, and closes below half. It is
evaluated at the transitions of its members only, so the bound holds right after each of these,
whatever was enabled, moved or deleted before. A closing lists every member that was faulty at
the opening and is still there: it is alerted still, or it recovered after the opening.

## Main definitions

* `Hysteresis` — the group flag of a family fits its faulty members
* `Story` — an endpoint is alerted, or it recovered after an event

## Main results

* `hysteresis_recorded` — a transition leaves its family within the bounds
* `story_of_logged` — what was faulty at an opening is alerted or has recovered since
* `hysteresis_of_logged` — alternation, bounds and the lists of a closing
-/

set_option autoImplicit false

namespace HubScope

open Alerter AlertLog

/-- An open family has half of its members faulty, a closed one has less or fewer than two. -/
def Hysteresis (s : Alerter) (family : String) : Prop :=
  (s.groupFlag family = true →
      (listEnabledEndpointsByFamily s.endpoints family).length ≤
        2 * (s.faulty family).length) ∧
    (s.groupFlag family = false → (s.faulty family).length < groupTriggerMinCount ∨
      2 * (s.faulty family).length <
        (listEnabledEndpointsByFamily s.endpoints family).length)

/-- The endpoint is alerted, or its last transition is a recovery after event `id`. -/
def Story (s : Alerter) (id endpointId : ℕ) : Prop :=
  s.alertedFlag endpointId = true ∨ ∃ v, lastTransition s.log.history endpointId = some v ∧
    v.kind = .recovered ∧ id < v.id

variable {log : AlertLog} {s s' : Alerter} {gone : List ℕ} {endpointId consecutive id e : ℕ}
  {kind : AlertKind} {alert : EndpointAlert} {absorbed : Bool}
  {group : Option BufferedGroupTransition} {family : String}

/-! ### The bounds -/

/-- The members that are faulty after a transition are those it was decided for. -/
theorem faulty_recorded (h : Recorded s s' endpointId kind alert absorbed group) :
    s'.faulty = (s.flipped endpointId kind).faulty := by
  funext family
  unfold Alerter.faulty
  rw [h.alerted, alertedFlag_flipped, h.same.2.2.1]
  rfl

/-- **Bounds.** Right after a transition its family is within the bounds. -/
theorem hysteresis_recorded (h : Recorded s s' endpointId kind alert absorbed group)
    (hclassified : alert.family ≠ "" ∧ alert.family ≠ defaultFamily)
    (hmembers : listEnabledEndpointsByFamily s.endpoints alert.family ≠ []) :
    Hysteresis s' alert.family := by
  have hflag := congrFun (groupFlag_flipped s endpointId kind) alert.family
  unfold Hysteresis
  rw [faulty_recorded h, h.groupFlag, h.same.2.2.1]
  cases hg : group with
  | none =>
    -- neither an opening nor a closing was decided
    have hnone := h.ungrouped hg
    rw [Option.elim_none]
    constructor
    · intro hopen
      by_contra hlt
      exact hnone .groupRecovered ⟨hclassified.1, hclassified.2, hmembers,
        .inr ⟨rfl, hflag.trans hopen, not_le.mp hlt⟩⟩
    · intro hclosed
      by_contra hout
      obtain ⟨hcount, hhalf⟩ := not_or.mp hout
      exact hnone .groupDown ⟨hclassified.1, hclassified.2, hmembers,
        .inl ⟨rfl, hflag.trans hclosed, not_lt.mp hcount, not_lt.mp hhalf⟩⟩
  | some g =>
    obtain ⟨-, -, hdecision, -⟩ := h.grouped g hg
    rw [Option.elim_some, Function.update_self]
    rcases hdecision.2.2.2 with ⟨hkind, -, -, hhalf⟩ | ⟨hkind, -, hhalf⟩
    · exact ⟨fun _ => hhalf, fun hclosed => by simp [hkind] at hclosed⟩
    · exact ⟨fun hopen => by simp [hkind] at hopen, fun _ => .inr hhalf⟩

/-! ### What becomes of a faulty member -/

theorem Story.of_eq (h : Story s id e) (hflag : s'.alertedFlag e = s.alertedFlag e)
    (hhistory : s'.log.history = s.log.history) : Story s' id e := by
  unfold Story
  rw [hflag, hhistory]
  exact h

/-- The flags of a state, and of one with the same memory and history. -/
theorem Story.recounts (h : Story s id e) (hm : Mirrors gone s) (hr : Recounts s s') :
    Story s' id e := by
  refine h.of_eq ?_ hr.history
  rw [alertedFlag_eq (hr.chronicle hm.chronicle), alertedFlag_eq hm.chronicle, hr.alerted,
    hr.history]

/-- A transition alerts the endpoint or records its recovery after every earlier event. -/
theorem Story.recorded (h : Story s id e) (hid : id ≤ s.log.seq)
    (hr : Recorded s s' endpointId kind alert absorbed group)
    (hkind : kind = .down ∨ kind = .recovered) : Story s' id e := by
  unfold Story
  rw [hr.alerted, lastTransition_recorded hr hkind]
  by_cases he : e = endpointId
  · rw [if_pos he, he, Function.update_self]
    rcases hkind with rfl | rfl
    · exact .inl rfl
    · exact .inr ⟨_, rfl, rfl, Nat.lt_succ_of_le hid⟩
  · rw [if_neg he, Function.update_of_ne he]
    exact h

theorem Story.delete (h : Story s id e) (hm : Mirrors gone s) (he : e ∉ gone ++ [endpointId]) :
    Story { s with
      endpoints := s.endpoints.filter fun x => x.id ≠ endpointId
      log := s.log.deleteEvents endpointId } id e := by
  have hdeleted := hm.delete endpointId
  obtain ⟨hkept, hne⟩ := not_or.mp (mt List.mem_append.mpr he)
  have hlast : lastTransition (s.log.deleteEvents endpointId).history e =
      lastTransition s.log.history e := by
    rw [history_delete]
    exact congrArg List.getLast? (filter_delete_endpoint (by simpa using hne) _)
  unfold Story
  rw [hdeleted.alerted e he, hlast, ← hm.alerted e hkept]
  exact h

theorem seq_le_recorded (h : Recorded s s' endpointId kind alert absorbed group) :
    s.log.seq ≤ s'.log.seq := by
  rw [h.seq]
  omega

theorem story_step {a : AlerterLabel ⊕ Unit} (hm : Mirrors gone s) (h : Story s id e)
    (hid : id ≤ s.log.seq) (ha : AlertsOn s a) (hstep : serviceStep s a = some s')
    (he : e ∉ gone ++ deletions s a) : Story s' id e ∧ id ≤ s'.log.seq := by
  have hsent : Recounts s s' → Story s' id e ∧ id ≤ s'.log.seq :=
    fun hr => ⟨h.recounts hm hr, hid.trans hr.seq⟩
  cases a with
  | inr =>
    cases hstep
    -- the restart rebuilds the flag from the log, where it mirrors the one lost
    have hkept : e ∉ gone := fun hmem => he (List.mem_append_left _ hmem)
    refine ⟨h.of_eq ?_ rfl, hid⟩
    rw [hm.restart.alerted e hkept, hm.alerted e hkept]
    rfl
  | inl a =>
    change alerterStep s a = some s' at hstep
    cases a with
    | deleteEndpoint endpointId =>
      cases hstep
      exact ⟨h.delete hm he, hid⟩
    | handleRound endpointId consecutive =>
      cases hstep
      rcases handleRound_cases s endpointId consecutive with
        ⟨a, g, heq, hcached⟩ | ⟨kind, alert, absorbed, group, -, hdecision, hr⟩
      · have hflag := congrFun (hcached hm.configured).alerted e
        have hlog : (s.handleRound endpointId consecutive).log = s.log := by rw [heq]
        exact ⟨h.of_eq hflag (congrArg AlertLog.history hlog), hlog ▸ hid⟩
      · exact ⟨h.recorded hid hr (kind_of_decision hdecision), hid.trans (seq_le_recorded hr)⟩
    | flush | quietBoundary | handleCampaign | recordEvent =>
      exact hsent (recounts_of_sends hstep rfl)
    | clock | saveSettings | saveEndpoints =>
      cases hstep
      exact ⟨h, hid⟩

/-- **A faulty member's story.** What is alerted at some point of a run and is not deleted is
alerted at every later point, or its last transition is a recovery since. -/
theorem story_of_logged {gone' : List ℕ} {t : Alerter} (hm : Mirrors gone s)
    (hflag : s.alertedFlag e = true)
    (h : Transition.Logged serviceStep AlertsOn deletions s t gone') (he : e ∉ gone ++ gone')
    (hid : id ≤ s.log.seq) : Story t id e ∧ id ≤ t.log.seq := by
  induction h with
  | refl => exact ⟨.inl hflag, hid⟩
  | tail hrun ha hstep ih =>
    rw [← List.append_assoc] at he
    -- what is not deleted now was not deleted before
    obtain ⟨hstory, hle⟩ := ih fun hmem => he (List.mem_append_left _ hmem)
    exact story_step (hm.run hrun) hstory hle ha hstep he

/-! ### The lists of a closing -/

theorem chronicle_flipped (h : s.log.Chronicle s.now) :
    (s.flipped endpointId kind).log.Chronicle s.now := h.create (some endpointId) kind false none

theorem lastTransition_flipped (h : Recorded s s' endpointId kind alert absorbed group)
    (hkind : kind = .down ∨ kind = .recovered) :
    lastTransition (s.flipped endpointId kind).log.history e =
      lastTransition s'.log.history e := by
  have htracked : kind.tracked = true := by
    rcases hkind with rfl | rfl <;> rfl
  have htransition : isTransition ⟨s.log.seq + 1, some endpointId, kind, false, s.now, none⟩ := by
    simpa [isTransition] using hkind
  rw [lastTransition_recorded h hkind]
  unfold flipped lastTransition
  rw [history_create_tracked htracked, List.filter_append, List.filter_singleton]
  by_cases he : e = endpointId
  · simp [he, htransition]
  · simp [he, Ne.symm he]

theorem lastGroup_flipped (hkind : kind = .down ∨ kind = .recovered) :
    lastGroup (s.flipped endpointId kind).log.history family =
      lastGroup s.log.history family := by
  have htracked : kind.tracked = true := by
    rcases hkind with rfl | rfl <;> rfl
  unfold flipped lastGroup
  rw [history_create_tracked htracked, List.filter_append, List.filter_singleton]
  simp

/-- An element is in one of two complementary parts of a list. -/
theorem count_split {α : Type} [DecidableEq α] {xs : List α} {p q : α → Bool} {m : α}
    (hone : xs.count m = 1) (hpq : q m = !p m) : (xs.filter p ++ xs.filter q).count m = 1 := by
  have hout : ∀ r : α → Bool, r m = false → (xs.filter r).count m = 0 := by
    intro r hr
    rw [List.count_eq_zero, List.mem_filter, hr]
    simp
  rw [List.count_append]
  cases hp : p m with
  | true => rw [List.count_filter hp, hout q (by rw [hpq, hp]; rfl), hone]
  | false =>
    have hq : q m = true := by
      rw [hpq, hp]
      rfl
    rw [hout p hp, List.count_filter hq, hone]

/-- **Exactly once.** A closing lists a member with a story since the opening under recovered or
under still faulty. -/
theorem count_closing (hm : s.log.Chronicle s.now)
    (h : Recorded s s' endpointId kind alert absorbed group)
    (hkind : kind = .down ∨ kind = .recovered) {opened : AlertEvent}
    (hopened : lastGroup s.log.history family = some opened) (hdown : opened.kind = .groupDown)
    {members : List AlertEndpoint} (hnodup : (members.map AlertEndpoint.id).Nodup)
    {m : AlertEndpoint} (hmem : m ∈ members) (hstory : Story s' opened.id m.id) :
    (members.filter (fun x => (s.flipped endpointId kind).alertedFlag x.id) ++
      (s.flipped endpointId kind).recoveredGroupMembers family members
        (members.filter fun x => (s.flipped endpointId kind).alertedFlag x.id)).count m = 1 := by
  let t := s.flipped endpointId kind
  change (members.filter (fun x => t.alertedFlag x.id) ++ t.recoveredGroupMembers family members
    (members.filter fun x => t.alertedFlag x.id)).count m = 1
  have hchronicle : t.log.Chronicle s.now := chronicle_flipped hm
  have hflags : s'.alertedFlag = t.alertedFlag := by
    rw [h.alerted]
    exact (alertedFlag_flipped s endpointId kind).symm
  have hone : members.count m = 1 := List.count_eq_one_of_mem (List.Nodup.of_map _ hnodup) hmem
  -- the opening is the family's last group event
  obtain ⟨v, hlatest, herase⟩ : ∃ v, t.log.latestGroupEvent family = some v ∧
      v.erase = opened := by
    have hlast : lastGroup t.log.history family = some opened :=
      (lastGroup_flipped hkind).trans hopened
    rw [lastGroup_history hchronicle] at hlast
    exact Option.map_eq_some_iff.mp hlast
  have hopen : v.kind = .groupDown := by
    rw [← hdown, ← herase]
    rfl
  have hrecovered : t.recoveredGroupMembers family members
      (members.filter fun x => t.alertedFlag x.id) = members.filter fun x =>
        x.id ∉ (members.filter fun x => t.alertedFlag x.id).map AlertEndpoint.id &&
          (t.log.latestDownRecoveryEvent x.id).any fun w => w.kind = .recovered && v.id < w.id := by
    unfold recoveredGroupMembers
    rw [hlatest]
    exact if_neg (not_not.mpr hopen)
  rw [hrecovered]
  apply count_split hone
  cases hflag : t.alertedFlag m.id with
  | true =>
    have hout : m.id ∈ (members.filter fun x => t.alertedFlag x.id).map AlertEndpoint.id :=
      List.mem_map_of_mem (List.mem_filter.mpr ⟨hmem, hflag⟩)
    simp [hout]
  | false =>
    have hout : m.id ∉ (members.filter fun x => t.alertedFlag x.id).map AlertEndpoint.id := by
      intro hin
      obtain ⟨x, hx, hid⟩ := List.mem_map.mp hin
      have hxflag := (List.mem_filter.mp hx).2
      rw [hid, hflag] at hxflag
      cases hxflag
    have hlast : (t.log.latestDownRecoveryEvent m.id).any
        (fun w => w.kind = .recovered && v.id < w.id) = true := by
      rcases hstory with hstill | ⟨w, hw, hrecovery, hlt⟩
      · rw [hflags, hflag] at hstill
        cases hstill
      · rw [← lastTransition_flipped h hkind, lastTransition_history hchronicle] at hw
        obtain ⟨w', hw', rfl⟩ := Option.map_eq_some_iff.mp hw
        have hid : v.id < w'.id := by
          rw [← herase] at hlt
          exact hlt
        have hkind' : w'.kind = .recovered := hrecovery
        rw [hw']
        simp [hkind', hid]
    rw [hlast]
    simp [hout]

/-! ### Runs -/

/-- A round that buffers a group card recorded the transition it decided, with that card. -/
theorem recorded_of_buffered {g : BufferedGroupTransition}
    (hg : (s.handleRound endpointId consecutive).groupPending = s.groupPending ++ [g]) :
    ∃ kind alert absorbed, s.decision endpointId consecutive = some kind ∧
      Recorded s (s.handleRound endpointId consecutive) endpointId kind alert absorbed (some g) := by
  rcases handleRound_cases s endpointId consecutive with
    ⟨a, b, heq, -⟩ | ⟨kind, alert, absorbed, group, -, hdecision, hr⟩
  · rw [heq] at hg
    simp at hg
  · have hpending := hr.groupPending.symm.trans hg
    cases group with
    | none => simp at hpending
    | some g' =>
      obtain rfl : g' = g := by simpa using hpending
      exact ⟨kind, alert, absorbed, hdecision, hr⟩

/-- A decided transition of an endpoint that is there is recorded. -/
theorem recorded_of_decided (hs : s.configured = true)
    (hdecision : s.decision endpointId consecutive = some kind)
    (halert : s.buildEndpointAlert endpointId = some alert) :
    ∃ absorbed group, Recorded s (s.handleRound endpointId consecutive) endpointId kind alert
      absorbed group := by
  -- looking the flag up only caches it
  have hs₁ : (s.isAlerted endpointId).2.configured = true := hs
  have halert₁ : (s.isAlerted endpointId).2.buildEndpointAlert endpointId = some alert := halert
  obtain ⟨absorbed, group, hr⟩ : ∃ absorbed group, Recorded (s.isAlerted endpointId).2
      ((s.isAlerted endpointId).2.transition endpointId kind (kind = .down)) endpointId kind alert
        absorbed group := recorded_transition hs₁ halert₁
  have hround : s.handleRound endpointId consecutive =
      (s.isAlerted endpointId).2.transition endpointId kind (kind = .down) := by
    unfold Alerter.decision at hdecision
    split at hdecision
    · rename_i hdown
      cases hdecision
      exact if_pos hdown
    split at hdecision
    · rename_i hdown hup
      cases hdecision
      exact (if_neg hdown).trans (if_pos hup)
    · cases hdecision
  rw [hround]
  exact ⟨absorbed, group, hr.of_isAlerted⟩

/-- A transition is decided for the members that are faulty after it. -/
theorem faulty_grouped {g : BufferedGroupTransition}
    (h : Recorded s s' endpointId kind alert absorbed (some g)) :
    g.faulty = (s'.faulty g.family).map AlertEndpoint.ref := by
  obtain ⟨-, hfamily, -, hfaulty, -⟩ := h.grouped g rfl
  rw [faulty_recorded h, hfamily]
  exact hfaulty

/-- What is faulty right after an opening is alerted, and the opening is an event of the log. -/
theorem opening_recorded {g : BufferedGroupTransition}
    (h : Recorded s s' endpointId kind alert absorbed (some g))
    (hkind : kind = .down ∨ kind = .recovered) (hdown : g.kind = .groupDown) :
    ∃ opened, lastGroup s'.log.history g.family = some opened ∧ opened.kind = .groupDown ∧
      opened.id ≤ s'.log.seq := by
  obtain ⟨-, hfamily, -⟩ := h.grouped g rfl
  refine ⟨⟨s.log.seq + 2, none, g.kind, false, s.now, some alert.family⟩, ?_, hdown, ?_⟩
  · rw [lastGroup_recorded h hkind, if_pos hfamily]
    rfl
  · rw [h.seq]
    rfl

/-- **Hysteresis.** In every run with alerts configured the group events of a family alternate,
a transition leaves its family within the bounds, and a closing lists every member of the
opening's faulty snapshot that is still there exactly once. -/
theorem hysteresis_of_logged {now : ℤ} {settings : AlertSettings} {endpoints : List AlertEndpoint}
    (hlog : log.Lawful now)
    (hconfigured : settings.webhook ≠ "" ∧ settings.alertEnabled = true)
    (h : Transition.Logged serviceStep AlertsOn deletions (.start now settings endpoints log) s
      gone) :
    (∀ f, Alternates .groupDown .groupRecovered (groupKinds s.log.events f)) ∧
    (∀ e n k a, s.decision e n = some k → s.buildEndpointAlert e = some a →
      a.family ≠ "" ∧ a.family ≠ defaultFamily →
      listEnabledEndpointsByFamily s.endpoints a.family ≠ [] →
      Hysteresis (s.handleRound e n) a.family) ∧
    ∀ e n g, (s.handleRound e n).groupPending = s.groupPending ++ [g] → g.kind = .groupDown →
      g.faulty = ((s.handleRound e n).faulty g.family).map AlertEndpoint.ref ∧
      ∀ t gone', Transition.Logged serviceStep AlertsOn deletions (s.handleRound e n) t gone' →
        lastGroup t.log.history g.family = lastGroup (s.handleRound e n).log.history g.family →
        (t.endpoints.map AlertEndpoint.id).Nodup →
        ∀ e' n' g', (t.handleRound e' n').groupPending = t.groupPending ++ [g'] →
          g'.kind = .groupRecovered → g'.family = g.family →
          ∃ faulty recovered : List AlertEndpoint, g'.faulty = faulty.map AlertEndpoint.ref ∧
            g'.recovered = recovered.map AlertEndpoint.ref ∧
            ∀ m ∈ listEnabledEndpointsByFamily t.endpoints g.family, m.id ∉ gone ++ gone' →
              m.id ∈ ((s.handleRound e n).faulty g.family).map AlertEndpoint.id →
              (faulty ++ recovered).count m = 1 := by
  have hm := mirrors_of_logged hlog hconfigured h
  refine ⟨fun f => ?_, ?_, ?_⟩
  · rw [← groupKinds_history]
    exact hm.groups f
  · intro e n k a hdecision halert hclassified hmembers
    obtain ⟨absorbed, group, hr⟩ := recorded_of_decided hm.configured hdecision halert
    exact hysteresis_recorded hr hclassified hmembers
  · intro e n g hbuffered hdown
    obtain ⟨k, a, absorbed, hdecision, hr⟩ := recorded_of_buffered hbuffered
    have hm₁ := hm.recorded hdecision hr
    refine ⟨faulty_grouped hr, fun t gone' hrun hopened hids e' n' g' hbuffered' hup hsame => ?_⟩
    -- the snapshot of the opening is in the log until its closing
    obtain ⟨opened, hlast, hopen, hissued⟩ :=
      opening_recorded hr (kind_of_decision hdecision) hdown
    obtain ⟨k', a', absorbed', hdecision', hr'⟩ := recorded_of_buffered hbuffered'
    obtain ⟨-, hfamily, -, hfaulty, hrecovered⟩ := hr'.grouped g' rfl
    have hkind' := kind_of_decision hdecision'
    rw [hup, if_pos rfl] at hrecovered
    refine ⟨_, _, hfaulty, hrecovered, fun m hmem hkept hsnapshot => ?_⟩
    rw [← hfamily, hsame]
    -- a member of the snapshot is alerted, and either stays so or has a recovery on record
    have hflag : (s.handleRound e n).alertedFlag m.id = true := by
      obtain ⟨x, hx, hid⟩ := List.mem_map.mp hsnapshot
      rw [← hid]
      exact (List.mem_filter.mp hx).2
    obtain ⟨hstory, hle⟩ := story_of_logged hm₁ hflag hrun hkept hissued
    exact count_closing (hm₁.run hrun).chronicle hr' hkind' (hopened.trans hlast) hopen
      (hids.sublist (List.filter_sublist.map _)) hmem (hstory.recorded hle hr' hkind')

/-- Two of three members go down, which opens the family, and one recovers, which closes it. -/
theorem hysteresis_of_logged_family :
    ∃ (g : BufferedGroupTransition) (faulty recovered : List AlertEndpoint),
      g.kind = .groupRecovered ∧ g.faulty = faulty.map AlertEndpoint.ref ∧
        g.recovered = recovered.map AlertEndpoint.ref ∧
        (faulty ++ recovered).count ⟨1, "hub", "a", "openai", "f", true, true⟩ = 1 := by
  -- two of three endpoints go down and open the group, then the first recovers and closes it
  let start : Alerter := .start 0 ⟨"hook", true, true, ⟨false, 0, 0⟩⟩
    [⟨1, "hub", "a", "openai", "f", true, true⟩, ⟨2, "hub", "b", "openai", "f", true, true⟩,
      ⟨3, "hub", "c", "openai", "f", true, true⟩] ⟨[], 0⟩
  let opening : BufferedGroupTransition :=
    ⟨3, .groupDown, "f", 3, [⟨"hub", "a", "openai"⟩, ⟨"hub", "b", "openai"⟩], []⟩
  let closing : BufferedGroupTransition :=
    ⟨5, .groupRecovered, "f", 3, [⟨"hub", "b", "openai"⟩], [⟨"hub", "a", "openai"⟩]⟩
  have hfirst : Transition.replayWith serviceStep AlertsOn start [.inl (.handleRound 1 3)] =
    some (start.handleRound 1 3) := rfl
  have hlogged : Transition.Logged serviceStep AlertsOn deletions start (start.handleRound 1 3)
    [] := .of_replayWith hfirst
  obtain ⟨-, -, hlists⟩ := hysteresis_of_logged (lawful_nil 0) (by decide) hlogged
  obtain ⟨-, hclosing⟩ := hlists 2 3 opening (by decide) rfl
  obtain ⟨faulty, recovered, hfaulty, hrecovered, hcount⟩ :=
    hclosing _ [] .refl rfl (by decide) 1 0 closing (by decide) rfl rfl
  exact ⟨closing, faulty, recovered, rfl, hfaulty, hrecovered,
    hcount ⟨1, "hub", "a", "openai", "f", true, true⟩ (by decide) (by simp)
      (by decide)⟩

end HubScope
