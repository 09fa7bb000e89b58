import HubScope.Alerter.Evaluator

/-!
# What a probe round does

Reading a flag only caches it. A round that makes no transition leaves everything but the cached
flags as it was. A transition while alerts are configured records one event, buffers it, and may
record and buffer one group transition of the endpoint's family.

## Main definitions

* `Cached` — two states that differ in cached flags only
* `GroupDecision` — a family opens or closes
* `Recorded` — what a transition records and buffers

## Main results

* `evaluateGroup_cases` — a group evaluation caches flags or makes the decided transition
* `handleRound_cases` — a round changes flags only, or it records a transition
-/

set_option autoImplicit false

namespace HubScope

open Alerter

/-- `s'` differs from `s` in the flags it has cached only, and reads the same flags. -/
structure Cached (s s' : Alerter) : Prop where
  same : ∃ alerted groupAlerted, s' = { s with alerted, groupAlerted }
  alerted : s'.alertedFlag = s.alertedFlag
  group : s'.groupFlag = s.groupFlag

variable {s s' s'' : Alerter}

/-! ### Reading flags -/

theorem Cached.refl (s : Alerter) : Cached s s := ⟨⟨_, _, rfl⟩, rfl, rfl⟩

theorem Cached.trans (h : Cached s s') (h' : Cached s' s'') : Cached s s'' := by
  obtain ⟨a, g, rfl⟩ := h.same
  obtain ⟨a', g', rfl⟩ := h'.same
  exact ⟨⟨a', g', rfl⟩, h'.alerted.trans h.alerted, h'.group.trans h.group⟩

theorem cached_isAlerted (s : Alerter) (endpointId : ℕ) : Cached s (s.isAlerted endpointId).2 := by
  refine ⟨⟨_, _, rfl⟩, ?_, rfl⟩
  funext e
  by_cases he : e = endpointId
  · subst he
    simp [isAlerted, alertedFlag]
  · simp [isAlerted, alertedFlag, he]

theorem cached_isGroupAlerted (s : Alerter) (family : String) :
    Cached s (s.isGroupAlerted family).2 := by
  refine ⟨⟨_, _, rfl⟩, rfl, ?_⟩
  funext f
  by_cases hf : f = family
  · subst hf
    simp [isGroupAlerted, groupFlag]
  · simp [isGroupAlerted, groupFlag, hf]

/-- Evaluating members caches their flags and keeps the alerted ones. -/
theorem faultyMembers_spec (s : Alerter) (members : List AlertEndpoint) :
    Cached s (s.faultyMembers members).2 ∧
      (s.faultyMembers members).1 = members.filter fun m => s.alertedFlag m.id := by
  induction members generalizing s with
  | nil => exact ⟨.refl s, rfl⟩
  | cons m ms ih =>
    have hm := cached_isAlerted s m.id
    obtain ⟨hcached, hfaulty⟩ := ih (s.isAlerted m.id).2
    refine ⟨hm.trans hcached, ?_⟩
    rw [hm.alerted] at hfaulty
    rw [List.filter_cons, ← hfaulty]
    rfl

/-! ### Group evaluation -/

/-- The alerted endpoints among the family's enabled ones. -/
def Alerter.faulty (s : Alerter) (family : String) : List AlertEndpoint :=
  (listEnabledEndpointsByFamily s.endpoints family).filter fun m => s.alertedFlag m.id

/-- The family opens (`groupDown`) or closes (`groupRecovered`) when it is evaluated. -/
def GroupDecision (s : Alerter) (family : String) (kind : AlertKind) : Prop :=
  family ≠ "" ∧ family ≠ defaultFamily ∧ listEnabledEndpointsByFamily s.endpoints family ≠ [] ∧
    (kind = .groupDown ∧ s.groupFlag family = false ∧
        groupTriggerMinCount ≤ (s.faulty family).length ∧
        (listEnabledEndpointsByFamily s.endpoints family).length ≤
          2 * (s.faulty family).length ∨
      kind = .groupRecovered ∧ s.groupFlag family = true ∧
        2 * (s.faulty family).length <
          (listEnabledEndpointsByFamily s.endpoints family).length)

theorem GroupDecision.kind {family : String} {kind : AlertKind} (h : GroupDecision s family kind) :
    kind = .groupDown ∨ kind = .groupRecovered :=
  h.2.2.2.imp And.left And.left

/-- A closing closes an open family, an opening opens a closed one. -/
theorem GroupDecision.flag {family : String} {kind : AlertKind} (h : GroupDecision s family kind) :
    s.groupFlag family = !decide (kind = .groupDown) := by
  rcases h.2.2.2 with ⟨rfl, hflag, -⟩ | ⟨rfl, hflag, -⟩
  · rw [hflag]
    rfl
  · rw [hflag]
    rfl

/-- An evaluation caches flags, or it makes the transition that is decided. -/
theorem evaluateGroup_cases (s : Alerter) (family : String) :
    (Cached s (s.evaluateGroup family) ∧ ∀ kind, ¬ GroupDecision s family kind) ∨
      ∃ s₁ kind, Cached s s₁ ∧ GroupDecision s family kind ∧
        s.evaluateGroup family = s₁.groupTransition family kind
          (listEnabledEndpointsByFamily s.endpoints family) (s.faulty family) := by
  unfold evaluateGroup
  by_cases hfamily : family = "" ∨ family = defaultFamily
  · rw [if_pos hfamily]
    refine .inl ⟨.refl s, fun kind h => ?_⟩
    rcases hfamily with rfl | rfl
    · exact h.1 rfl
    · exact h.2.1 rfl
  rw [if_neg hfamily]
  obtain ⟨hne, hne'⟩ := not_or.mp hfamily
  by_cases hmembers : listEnabledEndpointsByFamily s.endpoints family = []
  · simp only [if_pos hmembers]
    exact .inl ⟨.refl s, fun kind h => h.2.2.1 hmembers⟩
  simp only [if_neg hmembers]
  -- reading the group flag and the members' flags caches them
  have hopen := cached_isGroupAlerted s family
  obtain ⟨hcached, hfaulty⟩ := faultyMembers_spec (s.isGroupAlerted family).2
    (listEnabledEndpointsByFamily s.endpoints family)
  rw [hopen.alerted] at hfaulty
  have hs₁ := hopen.trans hcached
  have hflag : (s.isGroupAlerted family).1 = s.groupFlag family := rfl
  rw [hfaulty, hflag]
  by_cases hdown : !s.groupFlag family ∧ groupTriggerMinCount ≤ (s.faulty family).length ∧
      (listEnabledEndpointsByFamily s.endpoints family).length ≤ 2 * (s.faulty family).length
  · refine .inr ⟨_, .groupDown, hs₁, ⟨hne, hne', hmembers, .inl ⟨rfl, ?_, hdown.2⟩⟩, if_pos hdown⟩
    simpa using hdown.1
  by_cases hup : s.groupFlag family ∧ 2 * (s.faulty family).length <
      (listEnabledEndpointsByFamily s.endpoints family).length
  · refine .inr ⟨_, .groupRecovered, hs₁, ⟨hne, hne', hmembers, .inr ⟨rfl, hup⟩⟩, ?_⟩
    exact (if_neg hdown).trans (if_pos hup)
  · refine .inl ⟨?_, fun kind h => ?_⟩
    · refine (congrArg (Cached s) ?_).mpr hs₁
      exact (if_neg hdown).trans (if_neg hup)
    · rcases h.2.2.2 with ⟨-, hflag, hcount⟩ | ⟨-, hflag, hcount⟩
      · exact hdown ⟨by rw [hflag]; rfl, hcount⟩
      · exact hup ⟨hflag, hcount⟩

/-! ### Recording a transition -/

theorem newestFirst_create {log : AlertLog} {p : AlertEvent → Bool} {endpointId : Option ℕ}
    {kind : AlertKind} {sentOk : Bool} {now : ℤ} {groupKey : Option String}
    (h : p ⟨log.seq + 1, endpointId, kind, sentOk, now, groupKey⟩ = false) :
    (log.createAlertEvent endpointId kind sentOk now groupKey).1.newestFirst p =
      log.newestFirst p := by
  rw [AlertLog.newestFirst, AlertLog.newestFirst, AlertLog.createAlertEvent, List.filter_append,
    List.filter_singleton, h]
  simp

theorem alertedFlag_congr {e : ℕ} (halerted : s'.alerted e = s.alerted e)
    (hlatest : s'.log.latestDownRecoveryEvent e = s.log.latestDownRecoveryEvent e) :
    s'.alertedFlag e = s.alertedFlag e := by
  unfold alertedFlag
  rw [halerted, hlatest]

theorem groupFlag_congr {f : String} (halerted : s'.groupAlerted f = s.groupAlerted f)
    (hlatest : s'.log.latestGroupEvent f = s.log.latestGroupEvent f) :
    s'.groupFlag f = s.groupFlag f := by
  unfold groupFlag
  rw [halerted, hlatest]

/-- The endpoint's flag is flipped and its event recorded. -/
def Alerter.flipped (s : Alerter) (endpointId : ℕ) (kind : AlertKind) : Alerter :=
  { s with
    alerted := Function.update s.alerted endpointId (some (kind = .down))
    log := (s.log.createAlertEvent (some endpointId) kind false s.now none).1 }

theorem alertedFlag_flipped (s : Alerter) (endpointId : ℕ) (kind : AlertKind) :
    (s.flipped endpointId kind).alertedFlag =
      Function.update s.alertedFlag endpointId (kind = .down) := by
  funext e
  by_cases he : e = endpointId
  · subst he
    simp [flipped, alertedFlag]
  · rw [Function.update_of_ne he]
    apply alertedFlag_congr
    · exact Function.update_of_ne he _ _
    · apply congrArg List.head?
      apply newestFirst_create
      simp [Ne.symm he]

theorem groupFlag_flipped (s : Alerter) (endpointId : ℕ) (kind : AlertKind) :
    (s.flipped endpointId kind).groupFlag = s.groupFlag := by
  funext f
  apply groupFlag_congr
  · rfl
  · apply congrArg List.head?
    apply newestFirst_create
    rfl

/-- The family's flag is flipped, its event recorded and its card buffered. -/
theorem groupTransition_configured (hs : s.configured = true) (family : String) (kind : AlertKind)
    (members faulty : List AlertEndpoint) :
    s.groupTransition family kind members faulty = { s with
      groupAlerted := Function.update s.groupAlerted family (some (kind = .groupDown))
      log := (s.log.createAlertEvent none kind false s.now (some family)).1
      groupPending := s.groupPending ++ [⟨s.log.seq + 1, kind, family, members.length,
        faulty.map AlertEndpoint.ref,
        (if kind = .groupRecovered then s.recoveredGroupMembers family members faulty
          else []).map AlertEndpoint.ref⟩]
      windowTimer := s.armWindow.windowTimer
      windowFiresAt := s.armWindow.windowFiresAt
      quietTimer := s.syncQuietTimer.quietTimer } := by
  unfold groupTransition
  have hs' : ∀ g, ({ s with groupAlerted := g } : Alerter).configured = true := fun _ => hs
  simp only [hs', Bool.not_true, Bool.false_eq_true, if_false]
  rfl

theorem sync_sync (τ : QuietTimer) (q : QuietHours) (now : ℤ) :
    (τ.sync q now).sync q now = τ.sync q now := by
  unfold QuietTimer.sync
  by_cases hq : q.active = true
  · obtain ⟨b, hnext, hlt, -⟩ := QuietHours.nextBoundary_spec hq now
    by_cases hnone : τ.timer.isNone = true
    · simp [hq, hnone, QuietTimer.arm, hnext]
    · by_cases hdue : τ.boundaryAt.all (· ≤ now) = true
      · simp [hq, hnone, hdue]
      · by_cases hsame : q.nextBoundary now = τ.boundaryAt
        · simp [hq, hnone, hsame]
        · rw [hnext] at hsame
          simp [hq, hnone, hdue, hsame, QuietTimer.arm, hnext]
  · simp only [hq, Bool.not_false, if_true]
    unfold QuietTimer.disarm
    by_cases hnone : τ.timer.isNone = true <;> simp [hnone]

/-- What a transition records and buffers. -/
structure Recorded (s s' : Alerter) (endpointId : ℕ) (kind : AlertKind) (alert : EndpointAlert)
    (absorbed : Bool) (group : Option BufferedGroupTransition) : Prop where
  alertOf : s.buildEndpointAlert endpointId = some alert
  events : s'.log.events = s.log.events ++
    ⟨s.log.seq + 1, some endpointId, kind, false, s.now, none⟩ ::
      (group.map fun g => ⟨s.log.seq + 2, none, g.kind, false, s.now, some g.family⟩).toList
  seq : s'.log.seq = s.log.seq + 1 + group.toList.length
  pending : s'.pending = s.pending ++ [⟨s.log.seq + 1, kind, alert, absorbed⟩]
  groupPending : s'.groupPending = s.groupPending ++ group.toList
  grouped : ∀ g ∈ group, g.eventId = s.log.seq + 2 ∧ g.family = alert.family ∧
    GroupDecision (s.flipped endpointId kind) alert.family g.kind ∧
    g.faulty = ((s.flipped endpointId kind).faulty alert.family).map AlertEndpoint.ref ∧
    g.recovered = (if g.kind = .groupRecovered then
      (s.flipped endpointId kind).recoveredGroupMembers alert.family
        (listEnabledEndpointsByFamily s.endpoints alert.family)
        ((s.flipped endpointId kind).faulty alert.family) else []).map AlertEndpoint.ref
  ungrouped : group = none → ∀ k, ¬ GroupDecision (s.flipped endpointId kind) alert.family k
  alerted : s'.alertedFlag = Function.update s.alertedFlag endpointId (kind = .down)
  groupFlag : s'.groupFlag = group.elim s.groupFlag fun g =>
    Function.update s.groupFlag alert.family (g.kind = .groupDown)
  absorbed : absorbed = (s.groupFlag alert.family || s'.groupFlag alert.family)
  same : s'.now = s.now ∧ s'.settings = s.settings ∧ s'.endpoints = s.endpoints ∧
    s'.quietScoreDrops = s.quietScoreDrops ∧ s'.deliveries = s.deliveries ∧ s'.fired = s.fired
  timers : s'.windowTimer = s.armWindow.windowTimer ∧
    s'.windowFiresAt = s.armWindow.windowFiresAt ∧ s'.quietTimer = s.syncQuietTimer.quietTimer

theorem Cached.faulty (h : Cached s s') : s'.faulty = s.faulty := by
  obtain ⟨a, g, rfl⟩ := h.same
  funext family
  unfold Alerter.faulty
  rw [h.alerted]

theorem Cached.decision (h : Cached s s') {family : String} {kind : AlertKind} :
    GroupDecision s' family kind ↔ GroupDecision s family kind := by
  unfold GroupDecision
  rw [h.faulty, h.group]
  obtain ⟨a, g, rfl⟩ := h.same
  rfl

theorem armWindow_armWindow (s : Alerter) :
    s.armWindow.armWindow.windowTimer = s.armWindow.windowTimer ∧
      s.armWindow.armWindow.windowFiresAt = s.armWindow.windowFiresAt := by
  have harmed : s.armWindow.windowTimer.isSome = true := by
    unfold armWindow
    by_cases h : s.windowTimer.isSome = true <;> simp [h]
  exact ⟨if_pos harmed, if_pos harmed⟩

theorem transition_eq (hs : s.configured = true) {endpointId : ℕ} {kind : AlertKind}
    {alert : EndpointAlert} (halert : s.buildEndpointAlert endpointId = some alert) :
    s.transition endpointId kind (kind = .down) =
      let s₁ := ((s.flipped endpointId kind).isGroupAlerted alert.family).2.evaluateGroup
        alert.family
      (s₁.isGroupAlerted alert.family).2.buffer ⟨s.log.seq + 1, kind, alert,
        s.groupFlag alert.family || s₁.groupFlag alert.family⟩ := by
  rw [← congrFun (groupFlag_flipped s endpointId kind) alert.family]
  unfold transition
  rw [halert]
  exact if_pos hs

/-- A configured transition whose group keeps its state records and buffers itself. -/
theorem recorded_of_cached {endpointId : ℕ} {kind : AlertKind} {alert : EndpointAlert}
    (halert : s.buildEndpointAlert endpointId = some alert)
    (hcached : Cached (s.flipped endpointId kind) s')
    (hnone : ∀ k, ¬ GroupDecision (s.flipped endpointId kind) alert.family k) :
    Recorded s (s'.buffer ⟨s.log.seq + 1, kind, alert,
      s.groupFlag alert.family || s'.groupFlag alert.family⟩) endpointId kind alert
        (s.groupFlag alert.family || s'.groupFlag alert.family) none := by
  have halerted := hcached.alerted.trans (alertedFlag_flipped s endpointId kind)
  have hgroup := hcached.group.trans (groupFlag_flipped s endpointId kind)
  obtain ⟨a, g, rfl⟩ := hcached.same
  exact {
    alertOf := halert
    events := rfl
    seq := rfl
    pending := rfl
    groupPending := (List.append_nil _).symm
    grouped := by simp
    ungrouped := fun _ => hnone
    alerted := halerted
    groupFlag := hgroup
    absorbed := rfl
    same := ⟨rfl, rfl, rfl, rfl, rfl, rfl⟩
    timers := ⟨rfl, rfl, rfl⟩ }

/-- A configured transition that opens or closes its group records and buffers both. -/
theorem recorded_of_decision (hs : s.configured = true) {endpointId : ℕ} {kind k : AlertKind}
    {alert : EndpointAlert} (halert : s.buildEndpointAlert endpointId = some alert)
    (hcached : Cached (s.flipped endpointId kind) s')
    (hdecision : GroupDecision (s.flipped endpointId kind) alert.family k)
    (h : s'' = s'.groupTransition alert.family k
      (listEnabledEndpointsByFamily s.endpoints alert.family)
      ((s.flipped endpointId kind).faulty alert.family)) :
    ∃ group, Recorded s ((s''.isGroupAlerted alert.family).2.buffer ⟨s.log.seq + 1, kind, alert,
      s.groupFlag alert.family || s''.groupFlag alert.family⟩) endpointId kind alert
        (s.groupFlag alert.family || s''.groupFlag alert.family) (some group) := by
  have halerted := hcached.alerted.trans (alertedFlag_flipped s endpointId kind)
  have hgroup := hcached.group.trans (groupFlag_flipped s endpointId kind)
  obtain ⟨a, g, rfl⟩ := hcached.same
  have hconfigured : ({ s.flipped endpointId kind with
    alerted := a, groupAlerted := g } : Alerter).configured = true := hs
  rw [groupTransition_configured hconfigured] at h
  have hopen := cached_isGroupAlerted s'' alert.family
  -- the group event is of another kind, so that the endpoint keeps its flag
  have halerted' : s''.alertedFlag = Function.update s.alertedFlag endpointId (kind = .down) := by
    funext e
    rw [← congrFun halerted e, h]
    exact alertedFlag_congr rfl (congrArg List.head? (newestFirst_create rfl))
  have hgroup' : s''.groupFlag = Function.update s.groupFlag alert.family (k = .groupDown) := by
    funext f
    by_cases hf : f = alert.family
    · rw [hf, Function.update_self, h]
      unfold groupFlag
      simp
    · rw [Function.update_of_ne hf, ← congrFun hgroup f, h]
      apply groupFlag_congr
      · exact Function.update_of_ne hf _ _
      · apply congrArg List.head?
        apply newestFirst_create
        simp [Ne.symm hf]
  -- both transitions arm the timers, the second time in vain
  have hwindow := armWindow_armWindow s
  have htimer := sync_sync s.quietTimer s.settings.quietHours s.now
  subst h
  let members := listEnabledEndpointsByFamily s.endpoints alert.family
  let faulty := (s.flipped endpointId kind).faulty alert.family
  let recovered := if k = .groupRecovered then
    (s.flipped endpointId kind).recoveredGroupMembers alert.family members faulty else []
  exact ⟨⟨s.log.seq + 2, k, alert.family, members.length, faulty.map AlertEndpoint.ref,
      recovered.map AlertEndpoint.ref⟩, {
    alertOf := halert
    events := List.append_assoc s.log.events [_] [_]
    seq := rfl
    pending := rfl
    groupPending := rfl
    grouped := by
      rintro _ ⟨⟩
      exact ⟨rfl, rfl, hdecision, rfl, rfl⟩
    ungrouped := by simp
    alerted := hopen.alerted.trans halerted'
    groupFlag := hopen.group.trans hgroup'
    absorbed := congrArg (s.groupFlag alert.family || ·) (congrFun hopen.group alert.family).symm
    same := ⟨rfl, rfl, rfl, rfl, rfl, rfl⟩
    timers := ⟨hwindow.1, hwindow.2, htimer⟩ }⟩

/-- A configured transition records and buffers itself and at most one group transition. -/
theorem recorded_transition (hs : s.configured = true) {endpointId : ℕ} {kind : AlertKind}
    {alert : EndpointAlert} (halert : s.buildEndpointAlert endpointId = some alert) :
    ∃ absorbed group, Recorded s (s.transition endpointId kind (kind = .down)) endpointId kind alert
      absorbed group := by
  rw [transition_eq hs halert]
  have hopen := cached_isGroupAlerted (s.flipped endpointId kind) alert.family
  -- the group flag is looked up before and after the evaluation; it is absorbed if either is up
  rcases evaluateGroup_cases ((s.flipped endpointId kind).isGroupAlerted alert.family).2
    alert.family with ⟨hcached, hnone⟩ | ⟨s₁, k, hcached, hdecision, heq⟩
  · have hlast := hcached.trans (cached_isGroupAlerted _ alert.family)
    have hflag := congrFun (cached_isGroupAlerted (((s.flipped endpointId kind).isGroupAlerted
      alert.family).2.evaluateGroup alert.family) alert.family).group alert.family
    dsimp only
    rw [← hflag]
    refine ⟨_, none, recorded_of_cached halert (hopen.trans hlast) fun k => ?_⟩
    rw [← hopen.decision]
    exact hnone k
  · rw [hopen.decision] at hdecision
    rw [hopen.faulty] at heq
    dsimp only
    rw [heq]
    obtain ⟨group, hgroup⟩ := recorded_of_decision hs halert (hopen.trans hcached) hdecision rfl
    exact ⟨_, some group, hgroup⟩

/-- An unconfigured transition flips flags only. -/
theorem transition_unconfigured (hs : s.configured = false) (endpointId : ℕ) (kind : AlertKind)
    (alerted : Bool) :
    ∃ a g, s.transition endpointId kind alerted = { s with alerted := a, groupAlerted := g } := by
  unfold transition
  cases s.buildEndpointAlert endpointId with
  | none => exact ⟨_, _, rfl⟩
  | some alert =>
    have hs' : ∀ a g, ({ s with alerted := a, groupAlerted := g } : Alerter).configured = false :=
      fun _ _ => hs
    simp only [hs' _ s.groupAlerted, Bool.false_eq_true, if_false]
    rcases evaluateGroup_cases (({ s with
      alerted := Function.update s.alerted endpointId (some alerted) } : Alerter).isGroupAlerted
        alert.family).2 alert.family with ⟨hcached, -⟩ | ⟨s₁, k, hcached, -, heq⟩
    · obtain ⟨a, g, heq⟩ := hcached.same
      exact ⟨a, g, heq⟩
    · obtain ⟨a, g, rfl⟩ := hcached.same
      rw [heq]
      refine ⟨a, _, if_pos ?_⟩
      rw [Bool.not_eq_true']
      exact hs

/-- The transition a round decides, if any. -/
def Alerter.decision (s : Alerter) (endpointId consecutive : ℕ) : Option AlertKind :=
  if !s.alertedFlag endpointId ∧ downThreshold ≤ consecutive then some .down
  else if s.alertedFlag endpointId ∧ consecutive < downThreshold then some .recovered
  else none

/-- Reading the endpoint's own flag first makes no difference to what is recorded. -/
theorem Recorded.of_isAlerted {endpointId : ℕ} {kind : AlertKind} {alert : EndpointAlert}
    {absorbed : Bool} {group : Option BufferedGroupTransition}
    (h : Recorded (s.isAlerted endpointId).2 s' endpointId kind alert absorbed group) :
    Recorded s s' endpointId kind alert absorbed group := by
  have hcached := cached_isAlerted s endpointId
  have hflipped : (s.isAlerted endpointId).2.flipped endpointId kind =
      s.flipped endpointId kind := by
    unfold isAlerted flipped
    simp only [Function.update_idem]
  have hgrouped := h.grouped
  have hungrouped := h.ungrouped
  have halerted := h.alerted
  have hgroup := h.groupFlag
  have habsorbed := h.absorbed
  rw [hflipped] at hgrouped hungrouped
  rw [hcached.alerted] at halerted
  rw [hcached.group] at hgroup habsorbed
  exact ⟨h.alertOf, h.events, h.seq, h.pending, h.groupPending, hgrouped, hungrouped, halerted,
    hgroup, habsorbed, h.same, h.timers⟩

/-- A transition after reading the flag records itself, or it changes flags only. -/
theorem transition_cases (s : Alerter) (endpointId : ℕ) (kind : AlertKind) :
    (∃ a g, (s.isAlerted endpointId).2.transition endpointId kind (kind = .down) =
        { s with alerted := a, groupAlerted := g } ∧
      (s.configured = true →
        Cached s ((s.isAlerted endpointId).2.transition endpointId kind (kind = .down)))) ∨
      ∃ alert absorbed group, s.configured = true ∧
        Recorded s ((s.isAlerted endpointId).2.transition endpointId kind (kind = .down)) endpointId
          kind alert absorbed group := by
  have hread := cached_isAlerted s endpointId
  by_cases hs : s.configured = true
  · cases halert : s.buildEndpointAlert endpointId with
    | none =>
      -- the endpoint is gone
      have hnone : (s.isAlerted endpointId).2.transition endpointId kind (kind = .down) =
          (s.isAlerted endpointId).2 := by
        have halert' : (s.isAlerted endpointId).2.buildEndpointAlert endpointId = none := halert
        unfold transition
        rw [halert']
      rw [hnone]
      obtain ⟨a, g, hsame⟩ := hread.same
      exact .inl ⟨a, g, hsame, fun _ => hread⟩
    | some alert =>
      have hs₁ : (s.isAlerted endpointId).2.configured = true := hs
      have halert' : (s.isAlerted endpointId).2.buildEndpointAlert endpointId = some alert := halert
      obtain ⟨absorbed, group, hrecorded⟩ := recorded_transition hs₁ halert'
      exact .inr ⟨alert, absorbed, group, hs, hrecorded.of_isAlerted⟩
  · have hs₁ : (s.isAlerted endpointId).2.configured = false := Bool.eq_false_iff.mpr hs
    obtain ⟨a, g, hflags⟩ := transition_unconfigured hs₁ endpointId kind (kind = .down)
    exact .inl ⟨a, g, hflags, fun h => absurd h hs⟩

/-- **A probe round.** It changes flags only, and none of those read while alerts are
configured, or it records the transition it decides. -/
theorem handleRound_cases (s : Alerter) (endpointId consecutive : ℕ) :
    (∃ a g, s.handleRound endpointId consecutive = { s with alerted := a, groupAlerted := g } ∧
      (s.configured = true → Cached s (s.handleRound endpointId consecutive))) ∨
      ∃ kind alert absorbed group, s.configured = true ∧
        s.decision endpointId consecutive = some kind ∧
        Recorded s (s.handleRound endpointId consecutive) endpointId kind alert absorbed group := by
  have hdecide : ∀ kind, s.decision endpointId consecutive = some kind →
      s.handleRound endpointId consecutive =
        (s.isAlerted endpointId).2.transition endpointId kind (kind = .down) →
      (∃ a g, s.handleRound endpointId consecutive = { s with alerted := a, groupAlerted := g } ∧
        (s.configured = true → Cached s (s.handleRound endpointId consecutive))) ∨
        ∃ kind alert absorbed group, s.configured = true ∧
          s.decision endpointId consecutive = some kind ∧
          Recorded s (s.handleRound endpointId consecutive) endpointId kind alert absorbed
            group := by
    intro kind hdecision heq
    rw [heq]
    rcases transition_cases s endpointId kind with hflags | ⟨alert, absorbed, group, hs, h⟩
    · exact .inl hflags
    · exact .inr ⟨kind, alert, absorbed, group, hs, hdecision, h⟩
  by_cases hdown : !s.alertedFlag endpointId ∧ downThreshold ≤ consecutive
  · exact hdecide .down (if_pos hdown) (if_pos hdown)
  by_cases hup : s.alertedFlag endpointId ∧ consecutive < downThreshold
  · exact hdecide .recovered ((if_neg hdown).trans (if_pos hup))
      ((if_neg hdown).trans (if_pos hup))
  · have hquiet : s.handleRound endpointId consecutive = (s.isAlerted endpointId).2 :=
      (if_neg hdown).trans (if_neg hup)
    have hread := cached_isAlerted s endpointId
    rw [hquiet]
    obtain ⟨a, g, hsame⟩ := hread.same
    exact .inl ⟨a, g, hsame, fun _ => hread⟩

end HubScope
