import HubScope.Alerter.History
import HubScope.Lib.Alternation

/-!
# Restarting the alerter

The flags of the evaluator live in memory and the process may restart at any time: the flags are
then rebuilt from the log, endpoint by endpoint and family by family, when they are first read.
While alerts are configured the two agree, since every flag that flips records its event at the
same decision point. So the events of an endpoint and of a family alternate.

## Main definitions

* `serviceStep` — a step of the process, or its restart over the tables
* `AlertsOn` — alerts stay configured and the clock does not go back
* `Lawful` — a log whose transitions alternate
* `Mirrors` — memory and log agree on everything that was not deleted

## Main results

* `mirrors_step` — what a step keeps
* `restarted_of_logged` — a restart changes no flag, and the stored events alternate
-/

set_option autoImplicit false

namespace HubScope

open Alerter AlertLog

/-- The process after a restart: the tables and the clock stay. -/
def Alerter.restart (s : Alerter) : Alerter := .start s.now s.settings s.endpoints s.log

/-- A step of the process, or a restart. -/
def serviceStep (s : Alerter) : AlerterLabel ⊕ Unit → Option Alerter
  | .inl a => alerterStep s a
  | .inr () => some s.restart

/-- Alerts stay configured and the clock does not go back. -/
def AlertsOn (s : Alerter) : AlerterLabel ⊕ Unit → Prop
  | .inl (.clock now) => s.now ≤ now
  | .inl (.saveSettings settings) => settings.webhook ≠ "" ∧ settings.alertEnabled = true
  | _ => True

instance (s : Alerter) : (a : AlerterLabel ⊕ Unit) → Decidable (AlertsOn s a)
  | .inl (.clock now) => inferInstanceAs (Decidable (s.now ≤ now))
  | .inl (.saveSettings settings) =>
    inferInstanceAs (Decidable (settings.webhook ≠ "" ∧ settings.alertEnabled = true))
  | .inl (.handleRound _ _) | .inl (.flush _) | .inl (.quietBoundary _)
  | .inl (.handleCampaign _ _ _ _ _) | .inl (.saveEndpoints _) | .inl (.deleteEndpoint _)
  | .inl (.recordEvent _ _) | .inr _ => isTrue trivial

/-- The endpoint a step deletes. -/
def deletions (_ : Alerter) : AlerterLabel ⊕ Unit → List ℕ
  | .inl (.deleteEndpoint endpointId) => [endpointId]
  | _ => []

/-- The kinds of an endpoint's transitions, in the order they were recorded. -/
def transitionKinds (rows : List AlertEvent) (endpointId : ℕ) : List AlertKind :=
  (rows.filter fun v => v.endpointId = some endpointId && isTransition v).map AlertEvent.kind

/-- The kinds of a family's group transitions, in the order they were recorded. -/
def groupKinds (rows : List AlertEvent) (family : String) : List AlertKind :=
  (rows.filter fun v => v.groupKey = some family && isGroupTransition v).map AlertEvent.kind

/-- Transitions alternate, starting with a down, and a group event belongs to no endpoint. -/
structure AlertLog.Lawful (log : AlertLog) (now : ℤ) : Prop where
  chronicle : log.Chronicle now
  unowned : ∀ v ∈ log.events, isGroupTransition v = true → v.endpointId = none
  transitions : ∀ e, Alternates .down .recovered (transitionKinds log.events e)
  groups : ∀ f, Alternates .groupDown .groupRecovered (groupKinds log.events f)

theorem lawful_nil (now : ℤ) : (⟨[], 0⟩ : AlertLog).Lawful now :=
  ⟨⟨List.Pairwise.nil, by simp, by simp⟩, by simp, fun _ => .nil, fun _ => .nil⟩

/-- Memory and history agree on every endpoint that is not `gone` and on every family, and their
transitions alternate. -/
structure Mirrors (gone : List ℕ) (s : Alerter) : Prop where
  chronicle : s.log.Chronicle s.now
  configured : s.configured = true
  unowned : ∀ v ∈ s.log.history, isGroupTransition v = true → v.endpointId = none
  alerted : ∀ e ∉ gone,
    s.alertedFlag e = (lastTransition s.log.history e).any fun v => v.kind = .down
  group : ∀ f, s.groupFlag f = (lastGroup s.log.history f).any fun v => v.kind = .groupDown
  transitions : ∀ e ∉ gone, Alternates .down .recovered (transitionKinds s.log.history e)
  groups : ∀ f, Alternates .groupDown .groupRecovered (groupKinds s.log.history f)

variable {log : AlertLog} {s s' : Alerter} {gone : List ℕ} {endpointId : ℕ} {kind : AlertKind}
  {alert : EndpointAlert} {absorbed : Bool} {group : Option BufferedGroupTransition}

/-! ### Kinds -/

theorem kinds_history {p : AlertEvent → Bool} (herase : ∀ v, p v.erase = p v)
    (htracked : ∀ v, p v = true → v.kind.tracked = true) :
    (log.history.filter p).map AlertEvent.kind = (log.events.filter p).map AlertEvent.kind := by
  rw [filter_history herase htracked, List.map_map]
  rfl

theorem transitionKinds_history (e : ℕ) :
    transitionKinds log.history e = transitionKinds log.events e := by
  apply kinds_history
  · exact fun _ => rfl
  · intro v hv
    exact tracked_of_isTransition (Bool.and_eq_true_iff.mp hv).2

theorem groupKinds_history (f : String) : groupKinds log.history f = groupKinds log.events f := by
  apply kinds_history
  · exact fun _ => rfl
  · intro v hv
    exact tracked_of_isGroupTransition (Bool.and_eq_true_iff.mp hv).2

theorem getLast?_transitionKinds (rows : List AlertEvent) (e : ℕ) :
    (transitionKinds rows e).getLast? = (lastTransition rows e).map AlertEvent.kind :=
  List.getLast?_map

theorem getLast?_groupKinds (rows : List AlertEvent) (f : String) :
    (groupKinds rows f).getLast? = (lastGroup rows f).map AlertEvent.kind :=
  List.getLast?_map

theorem transitionKinds_recorded (h : Recorded s s' endpointId kind alert absorbed group)
    (hkind : kind = .down ∨ kind = .recovered) (e : ℕ) :
    transitionKinds s'.log.history e = transitionKinds s.log.history e ++
      if e = endpointId then [kind] else [] := by
  have hgroup : ((group.map fun g => (⟨s.log.seq + 2, none, g.kind, false, s.now,
      some alert.family⟩ : AlertEvent)).toList.filter fun v =>
        v.endpointId = some e && isTransition v) = [] := by
    cases group <;> simp
  have htransition : isTransition ⟨s.log.seq + 1, some endpointId, kind, false, s.now, none⟩ := by
    simpa [isTransition] using hkind
  unfold transitionKinds
  rw [history_recorded h hkind, List.filter_append, List.filter_cons, hgroup, List.map_append]
  by_cases he : e = endpointId
  · simp [he, htransition]
  · simp [he, Ne.symm he]

theorem groupKinds_recorded (h : Recorded s s' endpointId kind alert absorbed group)
    (hkind : kind = .down ∨ kind = .recovered) (f : String) :
    groupKinds s'.log.history f = groupKinds s.log.history f ++
      if f = alert.family then (group.map BufferedGroupTransition.kind).toList else [] := by
  unfold groupKinds
  rw [history_recorded h hkind, List.filter_append, List.filter_cons, List.map_append]
  cases hg : group with
  | none => simp
  | some g =>
    have hgroup : isGroupTransition
        ⟨s.log.seq + 2, none, g.kind, false, s.now, some alert.family⟩ := by
      simpa [isGroupTransition] using (h.grouped g hg).2.2.1.kind
    by_cases hf : f = alert.family
    · simp [hf, hgroup]
    · simp [hf, Ne.symm hf]

/-! ### Deleting an endpoint -/

theorem history_delete (endpointId : ℕ) : (log.deleteEvents endpointId).history =
    log.history.filter fun v => v.endpointId ≠ some endpointId := by
  unfold AlertLog.history deleteEvents
  rw [List.filter_map, List.filter_filter, List.filter_filter]
  apply congrArg (List.map AlertEvent.erase)
  apply List.filter_congr
  intro v _
  exact Bool.and_comm _ _

/-- The transitions of another endpoint stay. -/
theorem filter_delete_endpoint {e : ℕ} (he : e ≠ endpointId) (rows : List AlertEvent) :
    ((rows.filter fun v => v.endpointId ≠ some endpointId).filter fun v =>
      v.endpointId = some e && isTransition v) =
        rows.filter fun v => v.endpointId = some e && isTransition v := by
  rw [List.filter_filter]
  apply List.filter_congr
  intro v _
  by_cases hv : v.endpointId = some e
  · simp [hv, he]
  · simp [hv]

/-- Group transitions stay. -/
theorem filter_delete_group {rows : List AlertEvent}
    (h : ∀ v ∈ rows, isGroupTransition v = true → v.endpointId = none) (f : String) :
    ((rows.filter fun v => v.endpointId ≠ some endpointId).filter fun v =>
      v.groupKey = some f && isGroupTransition v) =
        rows.filter fun v => v.groupKey = some f && isGroupTransition v := by
  rw [List.filter_filter]
  apply List.filter_congr
  intro v hv
  by_cases hgroup : isGroupTransition v = true
  · simp [h v hv hgroup]
  · simp [hgroup]

theorem Mirrors.delete (h : Mirrors gone s) (endpointId : ℕ) :
    Mirrors (gone ++ [endpointId]) { s with
      endpoints := s.endpoints.filter fun e => e.id ≠ endpointId
      log := s.log.deleteEvents endpointId } where
  chronicle := h.chronicle.delete endpointId
  configured := h.configured
  unowned v hv := by
    rw [history_delete] at hv
    exact h.unowned v (List.mem_filter.mp hv).1
  alerted e he := by
    obtain ⟨hkept, hne⟩ := not_or.mp (mt List.mem_append.mpr he)
    -- the events of other endpoints and all group events stay
    have hlast : lastTransition (s.log.deleteEvents endpointId).history e =
        lastTransition s.log.history e := by
      rw [history_delete]
      exact congrArg List.getLast? (filter_delete_endpoint (by simpa using hne) _)
    rw [alertedFlag_eq (h.chronicle.delete endpointId)]
    change (s.alerted e).getD ((lastTransition (s.log.deleteEvents endpointId).history e).any _) =
      (lastTransition (s.log.deleteEvents endpointId).history e).any _
    rw [hlast, ← alertedFlag_eq h.chronicle]
    exact h.alerted e hkept
  group f := by
    have hlast : lastGroup (s.log.deleteEvents endpointId).history f =
        lastGroup s.log.history f := by
      rw [history_delete]
      exact congrArg List.getLast? (filter_delete_group h.unowned f)
    rw [groupFlag_eq (h.chronicle.delete endpointId)]
    change (s.groupAlerted f).getD ((lastGroup (s.log.deleteEvents endpointId).history f).any _) =
      (lastGroup (s.log.deleteEvents endpointId).history f).any _
    rw [hlast, ← groupFlag_eq h.chronicle]
    exact h.group f
  transitions e he := by
    obtain ⟨hkept, hne⟩ := not_or.mp (mt List.mem_append.mpr he)
    have hkinds : transitionKinds (s.log.deleteEvents endpointId).history e =
        transitionKinds s.log.history e := by
      rw [history_delete]
      exact congrArg (List.map _) (filter_delete_endpoint (by simpa using hne) _)
    change Alternates _ _ (transitionKinds (s.log.deleteEvents endpointId).history e)
    rw [hkinds]
    exact h.transitions e hkept
  groups f := by
    have hkinds : groupKinds (s.log.deleteEvents endpointId).history f =
        groupKinds s.log.history f := by
      rw [history_delete]
      exact congrArg (List.map _) (filter_delete_group h.unowned f)
    change Alternates _ _ (groupKinds (s.log.deleteEvents endpointId).history f)
    rw [hkinds]
    exact h.groups f

/-! ### The other steps -/

/-- Sending and clearing timers keep what was mirrored. -/
theorem Mirrors.recounts (h : Mirrors gone s) (hr : Recounts s s') : Mirrors gone s' := by
  have hchronicle := hr.chronicle h.chronicle
  have hhistory := hr.history
  -- flags are those of the history where they are not cached, and the history is the same
  have halerted : ∀ e, s'.alertedFlag e = s.alertedFlag e := by
    intro e
    rw [alertedFlag_eq hchronicle, alertedFlag_eq h.chronicle, hr.alerted, hhistory]
  have hgroup : ∀ f, s'.groupFlag f = s.groupFlag f := by
    intro f
    rw [groupFlag_eq hchronicle, groupFlag_eq h.chronicle, hr.group, hhistory]
  refine ⟨hchronicle, ?_, ?_, fun e he => ?_, fun f => ?_, ?_, ?_⟩
  · have hconfigured := h.configured
    unfold Alerter.configured at hconfigured ⊢
    rwa [hr.settings]
  · rw [hhistory]
    exact h.unowned
  · rw [halerted, hhistory]
    exact h.alerted e he
  · rw [hgroup, hhistory]
    exact h.group f
  · rw [hhistory]
    exact h.transitions
  · rw [hhistory]
    exact h.groups

/-- A restart reads every flag from the log. -/
theorem Mirrors.restart (h : Mirrors gone s) : Mirrors gone s.restart where
  chronicle := h.chronicle
  configured := h.configured
  unowned := h.unowned
  alerted e _ := alertedFlag_eq (s := s.restart) h.chronicle e
  group f := groupFlag_eq (s := s.restart) h.chronicle f
  transitions := h.transitions
  groups := h.groups

theorem Mirrors.cached (h : Mirrors gone s) (hc : Cached s s') : Mirrors gone s' := by
  have halerted := hc.alerted
  have hgroup := hc.group
  obtain ⟨a, g, rfl⟩ := hc.same
  exact ⟨h.chronicle, h.configured, h.unowned,
    fun e he => (congrFun halerted e).trans (h.alerted e he),
    fun f => (congrFun hgroup f).trans (h.group f), h.transitions, h.groups⟩

/-- The flag of an endpoint before its transition. -/
theorem flag_of_decision {consecutive : ℕ} (h : s.decision endpointId consecutive = some kind) :
    kind = .down ∧ s.alertedFlag endpointId = false ∨
      kind = .recovered ∧ s.alertedFlag endpointId = true := by
  unfold Alerter.decision at h
  split at h
  · rename_i hdown
    exact .inl ⟨(Option.some.inj h).symm, by simpa using hdown.1⟩
  split at h
  · rename_i hup
    exact .inr ⟨(Option.some.inj h).symm, by simpa using hup.1⟩
  · cases h

/-- What comes after the last event of a log that the flag is read off. -/
theorem next_kind {last : Option AlertEvent} {flag : Bool} {a b k : AlertKind}
    (hflag : flag = last.any fun v => v.kind = a)
    (hnext : k = a ∧ flag = false ∨ k = b ∧ flag = true) :
    last.map AlertEvent.kind = some a ∧ k = b ∨ last.map AlertEvent.kind ≠ some a ∧ k = a := by
  rcases hnext with ⟨hk, hclosed⟩ | ⟨hk, hopen⟩
  · refine .inr ⟨fun hlast => ?_, hk⟩
    obtain ⟨v, hv, hkind⟩ := Option.map_eq_some_iff.mp hlast
    simp [hclosed, hv, hkind] at hflag
  · obtain ⟨v, hv, hkind⟩ := (Option.any_eq_true _ _).mp (hflag.symm.trans hopen)
    refine .inl ⟨?_, hk⟩
    rw [hv]
    exact congrArg some (by simpa using hkind)

/-- A transition appends the other kind to its endpoint's events, and so does its group. -/
theorem Mirrors.recorded (h : Mirrors gone s) {consecutive : ℕ}
    (hdecision : s.decision endpointId consecutive = some kind)
    (hr : Recorded s s' endpointId kind alert absorbed group) : Mirrors gone s' := by
  have hkind := kind_of_decision hdecision
  refine ⟨.recorded hr h.chronicle, ?_, ?_, fun e he => ?_, fun f => ?_, fun e he => ?_,
    fun f => ?_⟩
  · have hconfigured := h.configured
    unfold Alerter.configured at hconfigured ⊢
    rwa [hr.same.2.1]
  · intro v hv hgroup
    rw [history_recorded hr hkind] at hv
    rcases List.mem_append.mp hv with hv | hv
    · exact h.unowned v hv hgroup
    rcases List.mem_cons.mp hv with rfl | hv
    · rcases hkind with rfl | rfl <;> simp [isGroupTransition] at hgroup
    · obtain ⟨g, -, rfl⟩ := Option.map_eq_some_iff.mp (Option.mem_toList.mp hv)
      rfl
  · -- the flag of the endpoint and its last event change together, the others stay
    rw [hr.alerted, lastTransition_recorded hr hkind]
    by_cases heq : e = endpointId
    · simp [heq]
    · simpa [heq] using h.alerted e he
  · rw [hr.groupFlag, lastGroup_recorded hr hkind]
    cases group with
    | none => simpa using h.group f
    | some g =>
      by_cases hf : f = alert.family
      · simp [hf]
      · simpa [hf] using h.group f
  · rw [transitionKinds_recorded hr hkind]
    by_cases heq : e = endpointId
    · rw [if_pos heq]
      apply (h.transitions e he).concat (by simp)
      rw [getLast?_transitionKinds]
      exact next_kind (h.alerted e he) (heq ▸ flag_of_decision hdecision)
    · rw [if_neg heq, List.append_nil]
      exact h.transitions e he
  · rw [groupKinds_recorded hr hkind]
    cases hg : group with
    | none => simpa using h.groups f
    | some g =>
      by_cases hf : f = alert.family
      · -- the group decided on the flag it had, so its kind is the other one
        obtain ⟨-, -, hdecided, -⟩ := hr.grouped g hg
        have hread := hdecided.flag
        rw [congrFun (groupFlag_flipped s endpointId kind) alert.family] at hread
        rw [if_pos hf, hf]
        apply (h.groups alert.family).concat (by simp)
        rw [getLast?_groupKinds]
        apply next_kind (h.group alert.family)
        rcases hdecided.kind with hk | hk
        · exact .inl ⟨hk, by rw [hread, hk]; rfl⟩
        · exact .inr ⟨hk, by rw [hread, hk]; rfl⟩
      · rw [if_neg hf, List.append_nil]
        exact h.groups f

/-- **A step** keeps memory and log in agreement on what is not deleted. -/
theorem mirrors_step {a : AlerterLabel ⊕ Unit} (h : Mirrors gone s) (ha : AlertsOn s a)
    (hstep : serviceStep s a = some s') : Mirrors (gone ++ deletions s a) s' := by
  -- only a deletion takes an endpoint out of what memory and log agree on
  have hquiet : deletions s a = [] → Mirrors gone s' → Mirrors (gone ++ deletions s a) s' := by
    intro hnone hs'
    rwa [hnone, List.append_nil]
  cases a with
  | inr =>
    cases hstep
    exact hquiet rfl h.restart
  | inl a =>
    change alerterStep s a = some s' at hstep
    cases a with
    | deleteEndpoint endpointId =>
      cases hstep
      exact h.delete endpointId
    | clock now =>
      cases hstep
      exact hquiet rfl ⟨h.chronicle.mono ha, h.configured, h.unowned, h.alerted, h.group,
        h.transitions, h.groups⟩
    | handleRound endpointId consecutive =>
      cases hstep
      rcases handleRound_cases s endpointId consecutive with
        ⟨-, -, -, hcached⟩ | ⟨kind, alert, absorbed, group, -, hdecision, hr⟩
      · exact hquiet rfl (h.cached (hcached h.configured))
      · exact hquiet rfl (h.recorded hdecision hr)
    | flush | quietBoundary | handleCampaign | recordEvent =>
      exact hquiet rfl (h.recounts (recounts_of_sends hstep rfl))
    | saveSettings settings =>
      cases hstep
      exact hquiet rfl ⟨h.chronicle, configured_of_save ha, h.unowned, h.alerted, h.group,
        h.transitions, h.groups⟩
    | saveEndpoints endpoints =>
      cases hstep
      exact hquiet rfl ⟨h.chronicle, h.configured, h.unowned, h.alerted, h.group, h.transitions,
        h.groups⟩

theorem Mirrors.run {gone' : List ℕ} {t : Alerter} (hm : Mirrors gone s)
    (h : Transition.Logged serviceStep AlertsOn deletions s t gone') :
    Mirrors (gone ++ gone') t := by
  refine Transition.Logged.invariant_of (I := fun t gone' => Mirrors (gone ++ gone') t)
    (J := fun _ => True) (fun _ _ => trivial) ?_ ?_ h
  · rwa [List.append_nil]
  · intro t gone' a u _ ht ha hstep
    rw [← List.append_assoc]
    exact mirrors_step ht ha hstep

theorem mirrors_of_logged {now : ℤ} {settings : AlertSettings} {endpoints : List AlertEndpoint}
    (hlog : log.Lawful now)
    (hconfigured : settings.webhook ≠ "" ∧ settings.alertEnabled = true)
    (h : Transition.Logged serviceStep AlertsOn deletions (.start now settings endpoints log) s
      gone) : Mirrors gone s := by
  suffices hstart : Mirrors [] (.start now settings endpoints log) from hstart.run h
  refine ⟨hlog.chronicle, configured_of_save (s := .start now settings endpoints log) hconfigured,
    ?_, fun e _ => alertedFlag_eq (s := .start now settings endpoints log) hlog.chronicle e,
    fun f => groupFlag_eq (s := .start now settings endpoints log) hlog.chronicle f,
    fun e _ => ?_, fun f => ?_⟩
  · intro v hv hgroup
    obtain ⟨w, hw, -, rfl⟩ := mem_history.mp hv
    exact hlog.unowned w hw hgroup
  · rw [transitionKinds_history]
    exact hlog.transitions e
  · rw [groupKinds_history]
    exact hlog.groups f

/-- **Restart equivalence.** In every run with alerts configured the flags in memory are the ones
a restart rebuilds, and the stored events of an endpoint and of a family alternate. -/
theorem restarted_of_logged {now : ℤ} {settings : AlertSettings} {endpoints : List AlertEndpoint}
    (hlog : log.Lawful now)
    (hconfigured : settings.webhook ≠ "" ∧ settings.alertEnabled = true)
    (h : Transition.Logged serviceStep AlertsOn deletions (.start now settings endpoints log) s
      gone) :
    (∀ e ∉ gone, s.alertedFlag e = s.restart.alertedFlag e ∧
        Alternates .down .recovered (transitionKinds s.log.events e)) ∧
      ∀ f, s.groupFlag f = s.restart.groupFlag f ∧
        Alternates .groupDown .groupRecovered (groupKinds s.log.events f) := by
  have hmirrors := mirrors_of_logged hlog hconfigured h
  have hrestart := hmirrors.restart
  refine ⟨fun e he => ⟨?_, ?_⟩, fun f => ⟨?_, ?_⟩⟩
  · rw [hmirrors.alerted e he, hrestart.alerted e he]
    rfl
  · rw [← transitionKinds_history]
    exact hmirrors.transitions e he
  · rw [hmirrors.group f, hrestart.group f]
    rfl
  · rw [← groupKinds_history]
    exact hmirrors.groups f

/-- Two members of a family go down, which opens it, and one recovers after a restart. -/
theorem restarted_of_logged_family : ∃ s : Alerter,
    s.log.events.map AlertEvent.kind = [.down, .down, .groupDown, .recovered] ∧
      s.alertedFlag 1 = s.restart.alertedFlag 1 ∧ s.groupFlag "f" = s.restart.groupFlag "f" := by
  let start : Alerter := .start 0 ⟨"hook", true, true, ⟨false, 0, 0⟩⟩
    [⟨1, "hub", "a", "openai", "f", true, true⟩, ⟨2, "hub", "b", "openai", "f", true, true⟩]
    ⟨[], 0⟩
  let labels : List (AlerterLabel ⊕ Unit) := [.inl (.handleRound 1 3), .inl (.handleRound 2 3),
    .inl (.clock second), .inr (), .inl (.handleRound 1 0)]
  have hrun : (Transition.replayWith serviceStep AlertsOn start labels).any
      (fun s => s.log.events.map AlertEvent.kind =
        [.down, .down, .groupDown, .recovered]) = true := by
    decide
  obtain ⟨s, hs, hkinds⟩ := (Option.any_eq_true _ _).mp hrun
  have hgone : Transition.logOf serviceStep deletions start labels = [] := by decide
  have hlogged : Transition.Logged serviceStep AlertsOn deletions start s [] :=
    hgone ▸ .of_replayWith hs
  obtain ⟨hendpoints, hfamilies⟩ := restarted_of_logged (lawful_nil 0) (by decide) hlogged
  exact ⟨s, of_decide_eq_true hkinds, (hendpoints 1 (by simp)).1, (hfamilies "f").1⟩

end HubScope
