import HubScope.Alerter.Delivery

/-!
# What a flush tells

A flush leaves a down transition off the endpoint cards when the window's group cards cover its
endpoint. Coverage is replayed over all of them, whichever transition they were decided before.
So an endpoint that an opening listed stays covered when it recovers after the closing that still
listed it as faulty, and when it goes down again in the same window no card tells it.

## Main definitions

* `Delivery.tells`, `Told` — a flush tells a down transition
* `Mentions` — a group card names an endpoint
* `Ordered` — the window's buffers are ordered by event

## Main results

* `mem_coveredMembers_split` — what the cards after an event make of the coverage before it
* `told_iff_of_reach` — exactly which down transitions a flush tells
-/

set_option autoImplicit false

namespace HubScope

open Alerter

/-- The message lists the transition as down, or its endpoint as faulty on a group card decided
at or after it. -/
def Delivery.tells (t : BufferedTransition) (d : Delivery) : Bool :=
  match d.card with
  | .batch kind _ => kind = .down && t.eventId ∈ d.eventIds
  | .group g => t.eventId < g.eventId && t.alert.member ∈ g.faulty
  | .quietSummary _ _ _ | .scoreDrop _ _ => false

/-- One of the messages tells the transition. -/
def Told (ds : List Delivery) (t : BufferedTransition) : Prop := ∃ d ∈ ds, d.tells t = true

instance (ds : List Delivery) (t : BufferedTransition) : Decidable (Told ds t) :=
  inferInstanceAs (Decidable (∃ d ∈ ds, d.tells t = true))

/-- A group card names the endpoint as faulty, or a closing of `family` names it as recovered. -/
def Mentions (family : String) (m : GroupMemberRef) (g : BufferedGroupTransition) : Prop :=
  m ∈ g.faulty ∨ g.family = family ∧ g.kind = .groupRecovered ∧ m ∈ g.recovered

/-- The group cards decided before an event. -/
def cardsBefore (groups : List BufferedGroupTransition) (id : ℕ) : List BufferedGroupTransition :=
  groups.filter fun g => g.eventId < id

/-- The window's buffers are ordered by event, and no event is in both. -/
structure Ordered (s : Alerter) : Prop where
  pending : s.pending.Pairwise fun t t' => t.eventId < t'.eventId
  groups : s.groupPending.Pairwise fun g g' => g.eventId < g'.eventId
  pendingBound : ∀ t ∈ s.pending, t.eventId ≤ s.log.seq
  groupBound : ∀ g ∈ s.groupPending, g.eventId ≤ s.log.seq
  apart : ∀ t ∈ s.pending, ∀ g ∈ s.groupPending, t.eventId ≠ g.eventId

/-! ### The replay -/

variable {family : String} {m : GroupMemberRef} {groups : List BufferedGroupTransition}
  {covered : List GroupMemberRef}

/-- A card that does not name the endpoint leaves its coverage as it is. -/
theorem mem_cover_of_not_mentions {g : BufferedGroupTransition} (h : ¬ Mentions family m g) :
    m ∈ cover family covered g ↔ m ∈ covered := by
  obtain ⟨hfaulty, hrecovered⟩ := not_or.mp h
  unfold cover
  by_cases hfamily : g.family = family
  · by_cases hdown : g.kind = .groupDown
    · simp [hfamily, hdown, hfaulty]
    · by_cases hup : g.kind = .groupRecovered
      · have hm : m ∉ g.recovered := fun hm => hrecovered ⟨hfamily, hup, hm⟩
        simp [hfamily, hup, hm]
      · simp [hfamily, hdown, hup]
  · simp [hfamily]

theorem mem_foldl_cover_of_not_mentions (h : ∀ g ∈ groups, ¬ Mentions family m g) :
    m ∈ groups.foldl (cover family) covered ↔ m ∈ covered := by
  induction groups generalizing covered with
  | nil => rfl
  | cons g groups ih =>
    rw [List.foldl_cons, ih fun g' hg' => h g' (List.mem_cons_of_mem _ hg')]
    exact mem_cover_of_not_mentions (h g List.mem_cons_self)

/-- What one card adds to the coverage it lists as faulty. -/
theorem mem_cover {g : BufferedGroupTransition} (h : m ∈ cover family covered g) :
    m ∈ covered ∨ m ∈ g.faulty := by
  unfold cover at h
  split at h
  · exact .inl h
  split at h
  · exact List.mem_append.mp h
  split at h
  · exact .inl (List.mem_filter.mp h).1
  · exact .inl h

/-- An endpoint covered in the end was covered before, or a card lists it as faulty. -/
theorem mem_foldl_cover (h : m ∈ groups.foldl (cover family) covered) :
    m ∈ covered ∨ ∃ g ∈ groups, m ∈ g.faulty := by
  induction groups generalizing covered with
  | nil => exact .inl h
  | cons g groups ih =>
    rcases ih h with h | ⟨g', hg', hm⟩
    · exact (mem_cover h).imp_right fun hm => ⟨g, List.mem_cons_self, hm⟩
    · exact .inr ⟨g', List.mem_cons_of_mem _ hg', hm⟩

/-- An endpoint that a closing lists as recovered is covered in the end only if a card lists it
as faulty. -/
theorem faulty_of_recovered {g : BufferedGroupTransition} (hg : g ∈ groups)
    (hfamily : g.family = family) (hkind : g.kind = .groupRecovered) (hm : m ∈ g.recovered)
    (h : m ∈ groups.foldl (cover family) covered) : ∃ g' ∈ groups, m ∈ g'.faulty := by
  obtain ⟨before, after, rfl⟩ := List.append_of_mem hg
  rw [List.foldl_append, List.foldl_cons] at h
  have hremoved : m ∉ cover family (before.foldl (cover family) covered) g := by
    unfold cover
    simp [hfamily, hkind, hm]
  obtain ⟨g', hg', hm'⟩ := (mem_foldl_cover h).resolve_left hremoved
  exact ⟨g', List.mem_append_right _ (List.mem_cons_of_mem _ hg'), hm'⟩

/-- **Coverage at an event.** The endpoint is uncovered in the end or a later card lists it as
faulty, just when it was uncovered before or a later card names it. -/
theorem mem_coveredMembers_split (family : String) (m : GroupMemberRef)
    (before after : List BufferedGroupTransition) :
    (m ∉ coveredMembers family (before ++ after) ∨ ∃ g ∈ after, m ∈ g.faulty) ↔
      (m ∉ coveredMembers family before ∨ ∃ g ∈ after, Mentions family m g) := by
  have hsplit : coveredMembers family (before ++ after) =
      after.foldl (cover family) (coveredMembers family before) := List.foldl_append
  rw [hsplit]
  constructor
  · rintro (huncovered | ⟨g, hg, hm⟩)
    · -- what no later transition mentions is as covered as it was before
      by_cases hnamed : ∃ g ∈ after, Mentions family m g
      · exact .inr hnamed
      · left
        intro hcovered
        apply huncovered
        apply (mem_foldl_cover_of_not_mentions _).mpr hcovered
        exact fun g hg hmention => hnamed ⟨g, hg, hmention⟩
    · exact .inr ⟨g, hg, .inl hm⟩
  · rintro (huncovered | ⟨g, hg, hm | ⟨hfamily, hkind, hm⟩⟩)
    · by_cases hcovered : m ∈ after.foldl (cover family) (coveredMembers family before)
      · exact .inr ((mem_foldl_cover hcovered).resolve_left huncovered)
      · exact .inl hcovered
    · exact .inr ⟨g, hg, hm⟩
    · by_cases hcovered : m ∈ after.foldl (cover family) (coveredMembers family before)
      · exact .inr (faulty_of_recovered hg hfamily hkind hm hcovered)
      · exact .inl hcovered

/-! ### The order of the window -/

variable {s s' : Alerter}

/-- The window is as it was or empty, and the log has grown. -/
theorem Ordered.of_grown (h : Ordered s)
    (hwindow : s'.pending = s.pending ∧ s'.groupPending = s.groupPending ∨
      s'.pending = [] ∧ s'.groupPending = [])
    (hseq : s.log.seq ≤ s'.log.seq) : Ordered s' := by
  rcases hwindow with ⟨hpending, hgroups⟩ | ⟨hpending, hgroups⟩
  · refine ⟨hpending ▸ h.pending, hgroups ▸ h.groups, ?_, ?_, hpending ▸ hgroups ▸ h.apart⟩
    · rw [hpending]
      exact fun t ht => (h.pendingBound t ht).trans hseq
    · rw [hgroups]
      exact fun g hg => (h.groupBound g hg).trans hseq
  · constructor <;> simp [hpending, hgroups]

theorem Ordered.recorded (h : Ordered s) {endpointId : ℕ} {kind : AlertKind}
    {alert : EndpointAlert} {absorbed : Bool} {group : Option BufferedGroupTransition}
    (hr : Recorded s s' endpointId kind alert absorbed group) : Ordered s' := by
  -- the new transition has the next id, and a group transition the one after
  have hpending : ∀ t ∈ s'.pending, t ∈ s.pending ∨ t.eventId = s.log.seq + 1 := by
    rw [hr.pending]
    intro t ht
    rcases List.mem_append.mp ht with ht | ht
    · exact .inl ht
    · rw [List.mem_singleton.mp ht]
      exact .inr rfl
  have hgroups : ∀ g ∈ s'.groupPending, g ∈ s.groupPending ∨
      g ∈ group ∧ g.eventId = s.log.seq + 2 := by
    rw [hr.groupPending]
    intro g hg
    rcases List.mem_append.mp hg with hg | hg
    · exact .inl hg
    · have hg' := Option.mem_toList.mp hg
      exact .inr ⟨hg', (hr.grouped g hg').1⟩
  have hseq := hr.seq
  constructor
  · rw [hr.pending]
    refine List.pairwise_append.mpr ⟨h.pending, List.pairwise_singleton _ _, ?_⟩
    intro t ht t' ht'
    rw [List.mem_singleton.mp ht']
    exact Nat.lt_succ_of_le (h.pendingBound t ht)
  · rw [hr.groupPending]
    refine List.pairwise_append.mpr ⟨h.groups, by cases group <;> simp, ?_⟩
    intro g hg g' hg'
    rw [(hr.grouped g' (Option.mem_toList.mp hg')).1]
    exact Nat.lt_succ_of_lt (Nat.lt_succ_of_le (h.groupBound g hg))
  · intro t ht
    rcases hpending t ht with ht | ht
    · have := h.pendingBound t ht
      omega
    · omega
  · intro g hg
    rcases hgroups g hg with hg | ⟨hmem, hg⟩
    · have := h.groupBound g hg
      omega
    · rw [Option.mem_def] at hmem
      rw [hmem, Option.toList_some, List.length_singleton] at hseq
      omega
  · -- a transition and a group transition that are new have ids of their own
    intro t ht g hg
    rcases hpending t ht with ht | ht <;> rcases hgroups g hg with hg | ⟨-, hg⟩
    · exact h.apart t ht g hg
    · have := h.pendingBound t ht
      omega
    · have := h.groupBound g hg
      omega
    · omega

/-- A flush empties the window. -/
theorem flush_window (s : Alerter) (outcome : ℕ → Bool) :
    (s.flush outcome).pending = [] ∧ (s.flush outcome).groupPending = [] ∧
      s.log.seq ≤ (s.flush outcome).log.seq := by
  have htake : s.takeWindow.pending = [] ∧ s.takeWindow.groupPending = [] ∧
      s.log.seq ≤ s.takeWindow.log.seq := ⟨rfl, rfl, Nat.le_refl _⟩
  unfold flush
  split
  · exact htake
  split
  · exact htake
  split
  · exact htake
  split
  · exact htake
  obtain ⟨log, new, heq, hseq, -⟩ := sendCards_spec s.takeWindow outcome
    (flushCards s.unconfirmed s.unconfirmedGroups)
  rw [heq]
  exact ⟨rfl, rfl, hseq⟩

/-- A boundary leaves the window as it is. -/
theorem onQuietBoundary_window (s : Alerter) (ok : Bool) :
    (s.onQuietBoundary ok).pending = s.pending ∧
      (s.onQuietBoundary ok).groupPending = s.groupPending ∧
      s.log.seq ≤ (s.onQuietBoundary ok).log.seq := by
  have hsummary : ((s.deliverQuietSummary ok).pending = s.pending ∧
      (s.deliverQuietSummary ok).groupPending = s.groupPending ∧
      s.log.seq ≤ (s.deliverQuietSummary ok).log.seq) := by
    unfold deliverQuietSummary
    split
    · exact ⟨rfl, rfl, Nat.le_refl _⟩
    split
    · exact ⟨rfl, rfl, Nat.le_refl _⟩
    · exact ⟨rfl, rfl, Nat.le_succ _⟩
  unfold onQuietBoundary
  split
  · exact ⟨rfl, rfl, Nat.le_refl _⟩
  · exact hsummary

theorem alertModels_window (s : Alerter) (campaignId : ℕ) (quiet : Bool) (outcome : ℕ → Bool)
    (models : List ℕ) :
    (s.alertModels campaignId quiet outcome models).pending = s.pending ∧
      (s.alertModels campaignId quiet outcome models).groupPending = s.groupPending ∧
      s.log.seq ≤ (s.alertModels campaignId quiet outcome models).log.seq := by
  induction models generalizing s outcome with
  | nil => exact ⟨rfl, rfl, Nat.le_refl _⟩
  | cons modelDbId models ih =>
    unfold alertModels
    split
    · obtain ⟨hpending, hgroups, hseq⟩ := ih s.deferScoreDrop fun k => outcome (k + 1)
      exact ⟨hpending, hgroups, (Nat.le_succ _).trans hseq⟩
    · obtain ⟨hpending, hgroups, hseq⟩ := ih (s.sendModelAlert campaignId modelDbId (outcome 0))
        fun k => outcome (k + 1)
      exact ⟨hpending, hgroups, (Nat.le_succ _).trans hseq⟩

theorem annotateSkips_window (s : Alerter) (n : ℕ) :
    (s.annotateSkips n).pending = s.pending ∧ (s.annotateSkips n).groupPending = s.groupPending ∧
      s.log.seq ≤ (s.annotateSkips n).log.seq := by
  induction n generalizing s with
  | zero => exact ⟨rfl, rfl, Nat.le_refl _⟩
  | succ n ih =>
    obtain ⟨hpending, hgroups, hseq⟩ := ih { s with
      log := (s.log.createAlertEvent none .scoreDropSkipped false s.now none).1 }
    exact ⟨hpending, hgroups, (Nat.le_succ _).trans hseq⟩

theorem ordered_step {a : AlerterLabel} (h : Ordered s) (hstep : alerterStep s a = some s') :
    Ordered s' := by
  cases a with
  | clock | saveSettings | saveEndpoints | deleteEndpoint =>
    cases hstep
    exact h.of_grown (.inl ⟨rfl, rfl⟩) (Nat.le_refl _)
  | handleRound endpointId consecutive =>
    cases hstep
    rcases handleRound_cases s endpointId consecutive with ⟨a, g, heq, -⟩ | ⟨_, _, _, _, -, -, hr⟩
    · rw [heq]
      exact h.of_grown (.inl ⟨rfl, rfl⟩) (Nat.le_refl _)
    · exact h.recorded hr
  | flush outcome =>
    obtain ⟨-, heq⟩ := Option.ite_none_right_eq_some.mp hstep
    cases heq
    obtain ⟨hpending, hgroups, hseq⟩ := flush_window s outcome
    exact h.of_grown (.inr ⟨hpending, hgroups⟩) hseq
  | quietBoundary ok =>
    obtain ⟨-, heq⟩ := Option.ite_none_right_eq_some.mp hstep
    cases heq
    obtain ⟨hpending, hgroups, hseq⟩ := onQuietBoundary_window
      { s with quietTimer := ⟨none, s.quietTimer.boundaryAt, false⟩ } ok
    exact h.of_grown (.inl ⟨hpending, hgroups⟩) hseq
  -- a campaign holds back score drops only: the window of transitions is as it was
  | handleCampaign campaignId done skipped models outcome =>
    cases hstep
    unfold handleCampaign
    split
    · exact h
    · obtain ⟨hpending, hgroups, hseq⟩ := annotateSkips_window s skipped
      obtain ⟨hpending', hgroups', hseq'⟩ := alertModels_window
        (s.annotateSkips skipped).syncQuietTimer campaignId
        ((s.annotateSkips skipped).settings.quietHours.quiet (s.annotateSkips skipped).now)
        outcome models
      exact h.of_grown (.inl ⟨hpending'.trans hpending, hgroups'.trans hgroups⟩)
        (hseq.trans hseq')
  | recordEvent kind ok =>
    obtain ⟨-, heq⟩ := Option.ite_none_right_eq_some.mp hstep
    cases heq
    exact h.of_grown (.inl ⟨rfl, rfl⟩) (Nat.le_succ _)

theorem ordered_of_reach {now : ℤ} {settings : AlertSettings} {endpoints : List AlertEndpoint}
    {log : AlertLog} (h : Transition.Reachable alerterStep (.start now settings endpoints log) s) :
    Ordered s := by
  refine h.invariant (I := Ordered) ?_ fun t a u ht _ hstep => ordered_step ht hstep
  constructor <;> simp [Alerter.start]

/-! ### What a flush shows -/

/-- Cards ordered by event split at any event. -/
theorem cardsBefore_append {groups : List BufferedGroupTransition}
    (h : groups.Pairwise fun g g' => g.eventId < g'.eventId) (id : ℕ) :
    cardsBefore groups id ++ (groups.filter fun g => id ≤ g.eventId) = groups := by
  induction groups with
  | nil => rfl
  | cons g groups ih =>
    obtain ⟨hfirst, hrest⟩ := List.pairwise_cons.mp h
    have hsplit := ih hrest
    unfold cardsBefore at hsplit ⊢
    by_cases hlt : g.eventId < id
    · rw [List.filter_cons_of_pos (by simpa using hlt), List.filter_cons_of_neg (by simpa using hlt),
        List.cons_append, hsplit]
    · -- no later card was decided before the event either
      have hnone : groups.filter (fun g => g.eventId < id) = [] := by
        rw [List.filter_eq_nil_iff]
        intro g' hg'
        have := hfirst g' hg'
        simp only [decide_eq_true_eq]
        omega
      rw [hnone, List.nil_append] at hsplit
      rw [List.filter_cons_of_neg (by simpa using hlt), List.filter_cons_of_pos (by simp; omega),
        hnone, List.nil_append, hsplit]

theorem batchCard_eq (kind : AlertKind) (pending : List BufferedTransition) :
    batchCard kind pending =
      if pending.filter (fun t => t.kind = kind) = [] then []
      else [(.batch kind ((pending.filter fun t => t.kind = kind).map BufferedTransition.alert),
        (pending.filter fun t => t.kind = kind).map BufferedTransition.eventId)] := rfl

theorem mem_batchCard {kind : AlertKind} {pending : List BufferedTransition} {card : Card}
    {ids : List ℕ} (h : (card, ids) ∈ batchCard kind pending) :
    (∃ alerts, card = .batch kind alerts) ∧
      ids = (pending.filter fun t => t.kind = kind).map BufferedTransition.eventId := by
  rw [batchCard_eq] at h
  split at h
  · cases h
  · obtain ⟨rfl, rfl⟩ := Prod.mk.inj (List.mem_singleton.mp h)
    exact ⟨⟨_, rfl⟩, rfl⟩

/-- The down card lists a down transition just when it is renderable. -/
theorem exists_downCard_iff {pending : List BufferedTransition}
    {groups : List BufferedGroupTransition} {t : BufferedTransition}
    (hpending : pending.Pairwise fun t t' => t.eventId < t'.eventId) (ht : t ∈ pending)
    (hkind : t.kind = .down) :
    (∃ alerts ids, (.batch .down alerts, ids) ∈ flushCards pending groups ∧ t.eventId ∈ ids) ↔
      renderable groups t = true := by
  have hnodup : (pending.map BufferedTransition.eventId).Nodup :=
    List.pairwise_map.mpr (hpending.imp Nat.ne_of_lt)
  constructor
  · rintro ⟨alerts, ids, hcard, hid⟩
    have hdown : (.batch .down alerts, ids) ∈
        batchCard .down (pending.filter (renderable groups)) := by
      -- group cards come first, then the batch of downs, then that of recoveries
      rcases List.mem_append.mp hcard with hcard | hcard
      · obtain ⟨g, -, heq⟩ := List.mem_map.mp hcard
        cases heq
      rcases List.mem_append.mp hcard with hcard | hcard
      · exact hcard
      · obtain ⟨⟨alerts', heq⟩, -⟩ := mem_batchCard hcard
        cases heq
    rw [(mem_batchCard hdown).2] at hid
    obtain ⟨t', ht', heq⟩ := List.mem_map.mp hid
    simp only [List.mem_filter] at ht'
    -- ids tell the transitions of the window apart
    have hsame : t' = t := List.inj_on_of_nodup_map hnodup ht'.1.1 ht heq
    exact hsame ▸ ht'.1.2
  · intro hrender
    have hmem : t ∈ (pending.filter (renderable groups)).filter fun t => t.kind = .down :=
      List.mem_filter.mpr ⟨List.mem_filter.mpr ⟨ht, hrender⟩, by simpa using hkind⟩
    have hcard := batchCard_eq .down (pending.filter (renderable groups))
    rw [if_neg (List.ne_nil_of_mem hmem)] at hcard
    have hin : _ ∈ flushCards pending groups := List.mem_append_right _
      (List.mem_append_left _ (hcard ▸ List.mem_singleton_self _))
    exact ⟨_, _, hin, List.mem_map_of_mem hmem⟩

theorem mem_groupCards {pending : List BufferedTransition}
    {groups : List BufferedGroupTransition} {g : BufferedGroupTransition} :
    (∃ ids, (.group g, ids) ∈ flushCards pending groups) ↔ g ∈ groups := by
  constructor
  · rintro ⟨ids, hcard⟩
    rcases List.mem_append.mp hcard with hcard | hcard
    · obtain ⟨g', hg', heq⟩ := List.mem_map.mp hcard
      cases heq
      exact hg'
    rcases List.mem_append.mp hcard with hcard | hcard
    · obtain ⟨⟨alerts, heq⟩, -⟩ := mem_batchCard hcard
      cases heq
    · obtain ⟨⟨alerts, heq⟩, -⟩ := mem_batchCard hcard
      cases heq
  · intro hg
    exact ⟨_, List.mem_append_left _ (List.mem_map_of_mem hg)⟩

/-- Messages made of the cards of a flush tell a down transition when it is renderable or a card
decided at or after it lists its endpoint as faulty. -/
theorem told_iff_of_cards {pending : List BufferedTransition}
    {groups : List BufferedGroupTransition} {t : BufferedTransition} {ds : List Delivery}
    (hpending : pending.Pairwise fun t t' => t.eventId < t'.eventId) (ht : t ∈ pending)
    (hkind : t.kind = .down)
    (hds : ds.map (fun d => (d.card, d.eventIds)) = flushCards pending groups) :
    Told ds t ↔ renderable groups t = true ∨
      ∃ g ∈ groups, t.eventId < g.eventId ∧ t.alert.member ∈ g.faulty := by
  have hmem : ∀ card ids, (card, ids) ∈ flushCards pending groups ↔
      ∃ d ∈ ds, d.card = card ∧ d.eventIds = ids := by
    intro card ids
    rw [← hds, List.mem_map]
    simp only [Prod.mk.injEq]
  rw [← exists_downCard_iff hpending ht hkind]
  constructor
  · rintro ⟨d, hd, htells⟩
    -- only a batch of downs and a group card can tell of a down
    unfold Delivery.tells at htells
    split at htells
    · rename_i kind alerts hcard
      simp only [Bool.and_eq_true, decide_eq_true_eq] at htells
      obtain ⟨rfl, hid⟩ := htells
      exact .inl ⟨alerts, _, (hmem _ _).mpr ⟨d, hd, hcard, rfl⟩, hid⟩
    · rename_i g hcard
      simp only [Bool.and_eq_true, decide_eq_true_eq] at htells
      exact .inr ⟨g, mem_groupCards.mp ⟨_, (hmem _ _).mpr ⟨d, hd, hcard, rfl⟩⟩, htells⟩
    · cases htells
    · cases htells
  · rintro (⟨alerts, ids, hcard, hid⟩ | ⟨g, hg, hlt, hfaulty⟩)
    · obtain ⟨d, hd, hshown, rfl⟩ := (hmem _ _).mp hcard
      refine ⟨d, hd, ?_⟩
      unfold Delivery.tells
      rw [hshown]
      simpa using hid
    · obtain ⟨ids, hcard⟩ := mem_groupCards.mpr hg
      obtain ⟨d, hd, hshown, rfl⟩ := (hmem _ _).mp hcard
      refine ⟨d, hd, ?_⟩
      unfold Delivery.tells
      rw [hshown]
      simp [hlt, hfaulty]

/-- **What the cards of a window tell.** An unabsorbed down transition is told just when its endpoint
was not covered by the group cards decided before it, or a later one names it. -/
theorem told_iff_of_sent {pending : List BufferedTransition}
    {groups : List BufferedGroupTransition} {t : BufferedTransition} {ds : List Delivery}
    (hpending : pending.Pairwise fun t t' => t.eventId < t'.eventId)
    (hgroups : groups.Pairwise fun g g' => g.eventId < g'.eventId)
    (hapart : ∀ g ∈ groups, t.eventId ≠ g.eventId) (ht : t ∈ pending) (hkind : t.kind = .down)
    (habsorbed : t.absorbed = false)
    (hds : ds.map (fun d => (d.card, d.eventIds)) = flushCards pending groups) :
    Told ds t ↔ t.alert.member ∉ coveredMembers t.alert.family (cardsBefore groups t.eventId) ∨
      ∃ g ∈ groups, t.eventId < g.eventId ∧ Mentions t.alert.family t.alert.member g := by
  have hrender : renderable groups t = true ↔
      t.alert.member ∉ coveredMembers t.alert.family groups := by
    unfold renderable
    simp [habsorbed, hkind]
  -- a card of the window was decided before the transition or after it
  have hlater : ∀ p : BufferedGroupTransition → Prop,
      (∃ g ∈ groups.filter fun g => t.eventId ≤ g.eventId, p g) ↔
        ∃ g ∈ groups, t.eventId < g.eventId ∧ p g := by
    intro p
    simp only [List.mem_filter, decide_eq_true_eq, and_assoc]
    refine exists_congr fun g => and_congr_right fun hg => and_congr_left fun _ => ?_
    have := hapart g hg
    omega
  have hsplit := mem_coveredMembers_split t.alert.family t.alert.member
    (cardsBefore groups t.eventId) (groups.filter fun g => t.eventId ≤ g.eventId)
  rw [cardsBefore_append hgroups, hlater, hlater] at hsplit
  rw [told_iff_of_cards hpending ht hkind hds, hrender, hsplit]

/-- A flush that is not held sends the cards of what is not confirmed. -/
theorem flush_sends (outcome : ℕ → Bool) (hheld : held s.settings.quietHours s.firesAt = false)
    (hbuffered : s.unconfirmed ≠ [] ∨ s.unconfirmedGroups ≠ [])
    (hwebhook : s.settings.webhook ≠ "") :
    s.flush outcome =
      s.takeWindow.sendCards outcome (flushCards s.unconfirmed s.unconfirmedGroups) := by
  have hnonempty : ¬ (s.unconfirmed = [] ∧ s.unconfirmedGroups = []) :=
    fun h => hbuffered.elim (· h.1) (· h.2)
  have hpending : ¬ (s.pending = [] ∧ s.groupPending = []) := by
    rintro ⟨hp, hg⟩
    apply hnonempty
    unfold unconfirmed unconfirmedGroups
    rw [hp, hg]
    exact ⟨rfl, rfl⟩
  unfold flush
  rw [if_neg hpending, hheld, if_neg Bool.false_ne_true, if_neg hnonempty, if_neg hwebhook]

/-- A held flush sends nothing. -/
theorem flush_held (outcome : ℕ → Bool) (hheld : held s.settings.quietHours s.firesAt = true) :
    s.flush outcome = s.takeWindow := by
  unfold flush
  rw [hheld]
  split
  · rfl
  · exact if_pos rfl

/-- Nothing is dropped from a window none of whose events is confirmed. -/
theorem unconfirmed_eq (h : ∀ id ∈ s.pending.map BufferedTransition.eventId ++
      s.groupPending.map BufferedGroupTransition.eventId, s.log.Unsent id) :
    s.unconfirmed = s.pending ∧ s.unconfirmedGroups = s.groupPending := by
  have hnone : s.log.confirmedAlertEvents (s.pending.map BufferedTransition.eventId ++
      s.groupPending.map BufferedGroupTransition.eventId) = [] := by
    unfold AlertLog.confirmedAlertEvents
    rw [List.map_eq_nil_iff, List.filter_eq_nil_iff]
    intro v hv hsent
    simp only [Bool.and_eq_true, decide_eq_true_eq] at hsent
    rw [h v.id hsent.2 v hv rfl] at hsent
    cases hsent.1
  unfold unconfirmed unconfirmedGroups
  simp only [hnone]
  exact ⟨List.filter_eq_self.mpr (by simp), List.filter_eq_self.mpr (by simp)⟩

/-- **No swallowed outage.** A window that fires outside quiet hours with a webhook and nothing
confirmed tells an unabsorbed down transition just when it was not born inside quiet hours and
the endpoint was not covered by the group cards decided before, or a later one names it. -/
theorem told_iff_of_reach {now : ℤ} {settings : AlertSettings} {endpoints : List AlertEndpoint}
    {log : AlertLog} (h : Transition.Reachable alerterStep (.start now settings endpoints log) s)
    {outcome : ℕ → Bool} (hflush : alerterStep s (.flush outcome) = some s')
    (hloud : s.settings.quietHours.quiet s.firesAt = false) (hwebhook : s.settings.webhook ≠ "")
    (hunsent : ∀ id ∈ s.pending.map BufferedTransition.eventId ++
      s.groupPending.map BufferedGroupTransition.eventId, s.log.Unsent id)
    {t : BufferedTransition} (ht : t ∈ s.pending) (hkind : t.kind = .down)
    (habsorbed : t.absorbed = false) :
    Told (s'.deliveries.drop s.deliveries.length) t ↔
      s.settings.quietHours.quiet (s.firesAt - alertWindow) = false ∧
        (t.alert.member ∉ coveredMembers t.alert.family (cardsBefore s.groupPending t.eventId) ∨
          ∃ g ∈ s.groupPending, t.eventId < g.eventId ∧
            Mentions t.alert.family t.alert.member g) := by
  obtain ⟨-, heq⟩ := Option.ite_none_right_eq_some.mp hflush
  cases heq
  have hordered := ordered_of_reach h
  have hheld : held s.settings.quietHours s.firesAt =
      s.settings.quietHours.quiet (s.firesAt - alertWindow) := by
    unfold held
    unfold QuietHours.quiet at hloud ⊢
    rw [Bool.and_or_distrib_left, hloud, Bool.false_or]
  obtain ⟨hpending, hgroups⟩ := unconfirmed_eq hunsent
  by_cases hborn : s.settings.quietHours.quiet (s.firesAt - alertWindow) = true
  · -- a held flush sends nothing
    rw [flush_held outcome (hheld.trans hborn), hborn]
    have hnone : s.takeWindow.deliveries.drop s.deliveries.length = [] := List.drop_length
    rw [hnone]
    simp [Told]
  rw [Bool.not_eq_true] at hborn
  have hsends := flush_sends outcome (hheld.trans hborn)
    (.inl (hpending ▸ List.ne_nil_of_mem ht)) hwebhook
  rw [hpending, hgroups] at hsends
  obtain ⟨log', new, heq, -, hcards, -⟩ := sendCards_spec s.takeWindow outcome
    (flushCards s.pending s.groupPending)
  have hnew : (s.flush outcome).deliveries.drop s.deliveries.length = new := by
    rw [hsends, heq]
    exact List.drop_left
  rw [hnew, told_iff_of_sent hordered.pending hordered.groups (hordered.apart t ht) ht hkind
    habsorbed hcards, hborn]
  simp

/-- Alerts with a webhook and without quiet hours. -/
def loudSettings : AlertSettings := ⟨"hook", true, true, ⟨false, 23, 7⟩⟩

/-- A family of three endpoints. -/
def triplet : List AlertEndpoint :=
  [⟨1, "hub", "a", "openai", "gpt", true, true⟩, ⟨2, "hub", "b", "openai", "gpt", true, true⟩,
    ⟨3, "hub", "c", "openai", "gpt", true, true⟩]

/-- Two endpoints go down and open their group, the second recovers and closes it, the first
recovers, and one of the two goes down again before the window fires. -/
def downAgain (endpointId : ℕ) : List AlerterLabel :=
  [.handleRound 1 3, .handleRound 2 3, .handleRound 2 0, .handleRound 1 0,
    .handleRound endpointId 3, .clock 60000000000]

/-- The last transition of the window. -/
def lastDown (modelId : String) : BufferedTransition :=
  ⟨7, .down, ⟨"hub", modelId, "openai", "gpt"⟩, false⟩

/-- The window fires with nothing in the way of its cards. -/
def Flushable (s : Alerter) : Bool :=
  !s.settings.quietHours.quiet s.firesAt && s.settings.webhook ≠ "" &&
    s.log.events.all fun v => !v.sentOk

theorem unsent_of_flushable (h : Flushable s = true) :
    s.settings.quietHours.quiet s.firesAt = false ∧ s.settings.webhook ≠ "" ∧
      ∀ id, s.log.Unsent id := by
  unfold Flushable at h
  simp only [Bool.and_eq_true, Bool.not_eq_true', decide_eq_true_eq] at h
  refine ⟨h.1.1, h.1.2, fun id v hv _ => ?_⟩
  simpa using List.all_eq_true.mp h.2 v hv

/-- The endpoint that the closing listed as recovered goes down again, and the flush tells it. -/
theorem told_iff_of_reach_down : ∃ s s' : Alerter, s.groupPending ≠ [] ∧
    lastDown "b" ∈ s.pending ∧ Told (s'.deliveries.drop s.deliveries.length) (lastDown "b") := by
  obtain ⟨s, hs, hflushable, ht, hgroups, hborn, hcovered⟩ :
      ∃ s, Transition.replay alerterStep (.start 0 loudSettings triplet ⟨[], 0⟩) (downAgain 2) =
          some s ∧ Flushable s = true ∧ lastDown "b" ∈ s.pending ∧ s.groupPending ≠ [] ∧
        s.settings.quietHours.quiet (s.firesAt - alertWindow) = false ∧
        (lastDown "b").alert.member ∉
          coveredMembers (lastDown "b").alert.family (cardsBefore s.groupPending 7) :=
    ⟨_, rfl, by decide, by decide, by decide, by decide, by decide⟩
  obtain ⟨s', hflush⟩ : ∃ s', alerterStep s (.flush fun _ => true) = some s' := by
    cases hs
    exact ⟨_, rfl⟩
  obtain ⟨hloud, hwebhook, hunsent⟩ := unsent_of_flushable hflushable
  have htold := told_iff_of_reach (.of_replay hs) hflush hloud hwebhook (fun id _ => hunsent id) ht
    rfl rfl
  exact ⟨s, s', hgroups, ht, htold.mpr ⟨hborn, .inl hcovered⟩⟩

/-- **A swallowed outage.** The endpoint that the closing still listed as faulty goes down again:
the group cards tell of its first down and cover the second, and no card of the flush tells it. -/
theorem not_told_of_reach :
    ¬ ∀ (settings : AlertSettings) (endpoints : List AlertEndpoint) (s s' : Alerter)
      (outcome : ℕ → Bool),
      Transition.Reachable alerterStep (.start 0 settings endpoints ⟨[], 0⟩) s →
      alerterStep s (.flush outcome) = some s' → s.settings.quietHours.quiet s.firesAt = false →
      s.settings.webhook ≠ "" →
      (∀ id ∈ s.pending.map BufferedTransition.eventId ++
        s.groupPending.map BufferedGroupTransition.eventId, s.log.Unsent id) →
      ∀ t ∈ s.pending, t.kind = .down → t.absorbed = false →
        Told (s'.deliveries.drop s.deliveries.length) t := by
  intro h
  have hrun : (Transition.replay alerterStep (.start 0 loudSettings triplet ⟨[], 0⟩)
      (downAgain 1)).any (fun s => Flushable s && decide (lastDown "a" ∈ s.pending) &&
        (alerterStep s (.flush fun _ => true)).any fun s' =>
          !decide (Told (s'.deliveries.drop s.deliveries.length) (lastDown "a"))) = true := by
    decide
  obtain ⟨s, hs, hfacts⟩ := (Option.any_eq_true _ _).mp hrun
  simp only [Bool.and_eq_true, decide_eq_true_eq] at hfacts
  obtain ⟨⟨hflushable, ht⟩, hflushed⟩ := hfacts
  obtain ⟨s', hflush, hnot⟩ := (Option.any_eq_true _ _).mp hflushed
  obtain ⟨hloud, hwebhook, hunsent⟩ := unsent_of_flushable hflushable
  have htold := h loudSettings triplet s s' _ (.of_replay hs) hflush hloud hwebhook
    (fun id _ => hunsent id) (lastDown "a") ht rfl rfl
  simp [htold] at hnot

end HubScope
