import HubScope.Alerter.Rounds
import Mathlib.Data.List.Nodup

/-!
# An alert is delivered at most once

A message carries the events whose flag is written back with it. A flush drops what was
confirmed since it was buffered and sends each event on one card, a summary carries unconfirmed
anchors and deferred score drops only, and no event is buffered twice. So a message carries
unconfirmed events only, and a delivered one confirms them.

## Main definitions

* `AlertLog.Unsent`, `AlertLog.Confirmed` — what the log says about an id
* `Alerter.heldIds` — the events that wait for a flush or a summary
* `Once` — the invariant of the deliveries

## Main results

* `once_sendCards` — cards over distinct unconfirmed events keep it
* `delivered_once_of_reach` — no flag is taken back and no event is delivered twice
-/

set_option autoImplicit false

namespace HubScope

open Alerter

namespace AlertLog

/-- No event with this id is confirmed. -/
def Unsent (log : AlertLog) (id : ℕ) : Prop := ∀ v ∈ log.events, v.id = id → v.sentOk = false

/-- The event with this id is confirmed. -/
def Confirmed (log : AlertLog) (id : ℕ) : Prop := ∃ v ∈ log.events, v.id = id ∧ v.sentOk = true

/-- An event with this id is recorded. -/
def Has (log : AlertLog) (id : ℕ) : Prop := ∃ v ∈ log.events, v.id = id

/-- Ids are distinct and were given out by the log. -/
structure Keyed (log : AlertLog) : Prop where
  nodup : (log.events.map AlertEvent.id).Nodup
  issued : ∀ v ∈ log.events, v.id ≤ log.seq

/-- No confirmed event is unconfirmed later. -/
def Keeps (log log' : AlertLog) : Prop :=
  ∀ v ∈ log.events, v.sentOk = true → ∀ v' ∈ log'.events, v'.id = v.id → v'.sentOk = true

end AlertLog

open AlertLog

/-- The events that wait for a flush or a summary. -/
def Alerter.heldIds (s : Alerter) : List ℕ :=
  s.pending.map BufferedTransition.eventId ++ s.groupPending.map BufferedGroupTransition.eventId ++
    s.quietScoreDrops

/-- A message shares no event with an earlier one when both were delivered. -/
def Disjointly (d d' : Delivery) : Prop :=
  d.ok = true → d'.ok = true → ∀ id ∈ d.eventIds, id ∉ d'.eventIds

/-- A delivered message confirmed what it carries, and no two carry the same event. -/
structure Once (s : Alerter) : Prop where
  keyed : s.log.Keyed
  confirmed : ∀ d ∈ s.deliveries, d.ok = true → ∀ id ∈ d.eventIds, s.log.Confirmed id
  apart : s.deliveries.Pairwise Disjointly

/-- What waits was recorded and waits once, and no deferred score drop is confirmed. -/
structure HeldOnce (s : Alerter) : Prop where
  nodup : s.heldIds.Nodup
  recorded : ∀ id ∈ s.heldIds, s.log.Has id
  unsent : ∀ id ∈ s.quietScoreDrops, s.log.Unsent id

/-- From a state that has both, `s'` has both, no flag is taken back and no event is lost. -/
def Safe (s s' : Alerter) : Prop :=
  Once s → HeldOnce s → (Once s' ∧ HeldOnce s') ∧ s.log.Keeps s'.log ∧
    ∀ i, s.log.Has i → s'.log.Has i

/-! ### The log -/

variable {log : AlertLog} {s s' : Alerter} {id : ℕ}

theorem AlertLog.Keyed.eq_of_id (h : log.Keyed) {v w : AlertEvent} (hv : v ∈ log.events)
    (hw : w ∈ log.events) (hid : v.id = w.id) : v = w :=
  List.inj_on_of_nodup_map h.nodup hv hw hid

theorem not_confirmed_of_unsent (h : log.Unsent id) : ¬ log.Confirmed id := by
  rintro ⟨v, hv, hid, hsent⟩
  rw [h v hv hid] at hsent
  cases hsent

/-- What the query does not return is unconfirmed. -/
theorem unsent_of_notMem {ids : List ℕ} (hid : id ∈ ids)
    (h : id ∉ log.confirmedAlertEvents ids) : log.Unsent id := by
  intro v hv heq
  by_contra hsent
  rw [Bool.not_eq_false] at hsent
  apply h
  rw [confirmedAlertEvents, List.mem_map]
  refine ⟨v, List.mem_filter.mpr ⟨hv, ?_⟩, heq⟩
  simp [hsent, heq, hid]

variable {endpointId : Option ℕ} {kind : AlertKind} {sentOk : Bool} {now : ℤ}
  {groupKey : Option String}

theorem mem_create {v : AlertEvent} :
    v ∈ (log.createAlertEvent endpointId kind sentOk now groupKey).1.events ↔
      v ∈ log.events ∨ v = ⟨log.seq + 1, endpointId, kind, sentOk, now, groupKey⟩ := by
  rw [createAlertEvent, List.mem_append, List.mem_singleton]

theorem AlertLog.Keyed.create (h : log.Keyed) :
    (log.createAlertEvent endpointId kind sentOk now groupKey).1.Keyed := by
  constructor
  · rw [createAlertEvent, List.map_append, List.nodup_append]
    refine ⟨h.nodup, List.nodup_singleton _, ?_⟩
    intro i hi j hj
    obtain ⟨v, hv, rfl⟩ := List.mem_map.mp hi
    rw [List.mem_singleton.mp hj]
    exact Nat.ne_of_lt (Nat.lt_succ_of_le (h.issued v hv))
  · intro v hv
    rcases mem_create.mp hv with hv | rfl
    · exact Nat.le_succ_of_le (h.issued v hv)
    · exact Nat.le_refl _

theorem AlertLog.Has.create (h : log.Has id) :
    (log.createAlertEvent endpointId kind sentOk now groupKey).1.Has id := by
  obtain ⟨v, hv, hid⟩ := h
  exact ⟨v, mem_create.mpr (.inl hv), hid⟩

theorem AlertLog.Confirmed.create (h : log.Confirmed id) :
    (log.createAlertEvent endpointId kind sentOk now groupKey).1.Confirmed id := by
  obtain ⟨v, hv, hid⟩ := h
  exact ⟨v, mem_create.mpr (.inl hv), hid⟩

/-- A new event does not touch an id given out before. -/
theorem AlertLog.Unsent.create (h : log.Unsent id) (hle : id ≤ log.seq) :
    (log.createAlertEvent endpointId kind sentOk now groupKey).1.Unsent id := by
  intro v hv hid
  rcases mem_create.mp hv with hv | rfl
  · exact h v hv hid
  · exact absurd hid (Nat.ne_of_gt (Nat.lt_succ_of_le hle))

theorem AlertLog.Keyed.le_of_has (h : log.Keyed) (hid : log.Has id) : id ≤ log.seq := by
  obtain ⟨v, hv, rfl⟩ := hid
  exact h.issued v hv

theorem keeps_create (h : log.Keyed) :
    log.Keeps (log.createAlertEvent endpointId kind sentOk now groupKey).1 := by
  intro v hv hsent v' hv' hid
  rcases mem_create.mp hv' with hv' | rfl
  · rw [h.eq_of_id hv' hv hid]
    exact hsent
  · exact absurd hid (Nat.ne_of_gt (Nat.lt_succ_of_le (h.issued v hv)))

variable {ids : List ℕ} {ok : Bool}

theorem mem_update {v : AlertEvent} :
    v ∈ (log.updateAlertEventsSentOK ids ok).events ↔
      ∃ w ∈ log.events, v = if w.id ∈ ids then { w with sentOk := ok } else w := by
  rw [updateAlertEventsSentOK, List.mem_map]
  exact ⟨fun ⟨w, hw, heq⟩ => ⟨w, hw, heq.symm⟩, fun ⟨w, hw, heq⟩ => ⟨w, hw, heq.symm⟩⟩

theorem id_update (ids : List ℕ) (ok : Bool) (w : AlertEvent) :
    (if w.id ∈ ids then { w with sentOk := ok } else w).id = w.id := by
  split <;> rfl

theorem AlertLog.Keyed.update (h : log.Keyed) (ids : List ℕ) (ok : Bool) :
    (log.updateAlertEventsSentOK ids ok).Keyed := by
  constructor
  · have hmap : (log.updateAlertEventsSentOK ids ok).events.map AlertEvent.id =
        log.events.map AlertEvent.id := by
      rw [updateAlertEventsSentOK, List.map_map]
      exact List.map_congr_left fun w _ => id_update ids ok w
    rw [hmap]
    exact h.nodup
  · intro v hv
    obtain ⟨w, hw, rfl⟩ := mem_update.mp hv
    rw [id_update]
    exact h.issued w hw

theorem AlertLog.Has.update (h : log.Has id) (ids : List ℕ) (ok : Bool) :
    (log.updateAlertEventsSentOK ids ok).Has id := by
  obtain ⟨w, hw, rfl⟩ := h
  exact ⟨_, mem_update.mpr ⟨w, hw, rfl⟩, id_update ids ok w⟩

/-- A delivered message confirms the recorded events it carries. -/
theorem confirmed_update (h : log.Has id) (hid : id ∈ ids) :
    (log.updateAlertEventsSentOK ids true).Confirmed id := by
  obtain ⟨w, hw, rfl⟩ := h
  refine ⟨_, mem_update.mpr ⟨w, hw, rfl⟩, id_update ids true w, ?_⟩
  rw [if_pos hid]

/-- Writing back to unconfirmed events keeps what is confirmed. -/
theorem AlertLog.Confirmed.update (h : log.Confirmed id) (hids : ∀ i ∈ ids, log.Unsent i)
    (ok : Bool) : (log.updateAlertEventsSentOK ids ok).Confirmed id := by
  obtain ⟨w, hw, rfl, hsent⟩ := h
  have hnot : w.id ∉ ids := fun hid => not_confirmed_of_unsent (hids _ hid) ⟨w, hw, rfl, hsent⟩
  exact ⟨w, mem_update.mpr ⟨w, hw, (if_neg hnot).symm⟩, rfl, hsent⟩

/-- Writing back leaves the other ids as they are. -/
theorem AlertLog.Unsent.update (h : log.Unsent id) (hid : id ∉ ids) (ok : Bool) :
    (log.updateAlertEventsSentOK ids ok).Unsent id := by
  intro v hv heq
  obtain ⟨w, hw, rfl⟩ := mem_update.mp hv
  rw [id_update] at heq
  rw [if_neg (heq ▸ hid)]
  exact h w hw heq

theorem keeps_update (h : log.Keyed) (hids : ∀ i ∈ ids, log.Unsent i) (ok : Bool) :
    log.Keeps (log.updateAlertEventsSentOK ids ok) := by
  intro v hv hsent v' hv' hid
  obtain ⟨w, hw, rfl⟩ := mem_update.mp hv'
  rw [id_update] at hid
  rw [h.eq_of_id hw hv hid]
  have hnot : v.id ∉ ids := fun hmem => not_confirmed_of_unsent (hids _ hmem) ⟨v, hv, rfl, hsent⟩
  rw [if_neg hnot]
  exact hsent

theorem AlertLog.Keeps.refl (log : AlertLog) (h : log.Keyed) : log.Keeps log := by
  intro v hv hsent v' hv' hid
  rw [h.eq_of_id hv' hv hid]
  exact hsent

/-- Flags stay along two changes, the first of which loses no event. -/
theorem AlertLog.Keeps.trans {log₁ log₂ : AlertLog} (h : log.Keeps log₁) (h' : log₁.Keeps log₂)
    (hhas : ∀ id, log.Has id → log₁.Has id) : log.Keeps log₂ := by
  intro v hv hsent v' hv' hid
  obtain ⟨w, hw, hwid⟩ := hhas v.id ⟨v, hv, rfl⟩
  exact h' w hw (h v hv hsent w hw hwid) v' hv' (hid.trans hwid.symm)

/-! ### Sending -/

/-- A message over recorded unconfirmed events keeps the invariant of the deliveries. -/
theorem once_deliver (h : Once s) {card : Card} {kind : AlertKind}
    (hids : ∀ i ∈ ids, s.log.Has i ∧ s.log.Unsent i)
    (hlog : s'.log = ((s.log.updateAlertEventsSentOK ids ok).createAlertEvent
      none kind ok s.now none).1)
    (hdeliveries : s'.deliveries = s.deliveries ++ [⟨card, ids, ok, s.now, s.log.seq⟩]) :
    Once s' := by
  have hunsent : ∀ i ∈ ids, s.log.Unsent i := fun i hi => (hids i hi).2
  constructor
  · rw [hlog]
    exact (h.keyed.update ids ok).create
  · intro d hd hdok i hi
    rw [hlog]
    rw [hdeliveries] at hd
    rcases List.mem_append.mp hd with hd | hd
    · -- an earlier delivery confirmed other ids, since these were unsent
      exact ((h.confirmed d hd hdok i hi).update hunsent ok).create
    · obtain rfl := List.mem_singleton.mp hd
      change ok = true at hdok
      rw [hdok]
      exact (confirmed_update (hids i hi).1 hi).create
  · rw [hdeliveries]
    refine List.pairwise_append.mpr ⟨h.apart, List.pairwise_singleton _ _, ?_⟩
    intro d hd d' hd' hdok _ i hi hi'
    rw [List.mem_singleton.mp hd'] at hi'
    exact not_confirmed_of_unsent (hunsent i hi') (h.confirmed d hd hdok i hi)

theorem once_sendCard (h : Once s) (card : Card) (ok : Bool)
    (hids : ∀ i ∈ ids, s.log.Has i ∧ s.log.Unsent i) : Once (s.sendCard card ids ok) :=
  once_deliver h hids rfl rfl

theorem keeps_sendCard (h : s.log.Keyed) (card : Card) (ok : Bool)
    (hids : ∀ i ∈ ids, s.log.Unsent i) : s.log.Keeps (s.sendCard card ids ok).log :=
  (keeps_update h hids ok).trans (keeps_create (h.update ids ok)) fun _ hi => hi.update ids ok

/-- Cards over distinct recorded unconfirmed events keep the invariant and every flag, and leave
the events they do not carry alone. -/
theorem once_sendCards (h : Once s) (outcome : ℕ → Bool) (cards : List (Card × List ℕ))
    (hnodup : (cards.flatMap Prod.snd).Nodup)
    (hids : ∀ i ∈ cards.flatMap Prod.snd, s.log.Has i ∧ s.log.Unsent i) :
    Once (s.sendCards outcome cards) ∧ s.log.Keeps (s.sendCards outcome cards).log ∧
      (∀ i, s.log.Has i → (s.sendCards outcome cards).log.Has i) ∧
      ∀ i, i ∉ cards.flatMap Prod.snd → s.log.Has i → s.log.Unsent i →
        (s.sendCards outcome cards).log.Unsent i := by
  induction cards generalizing s outcome with
  | nil => exact ⟨h, .refl _ h.keyed, fun _ hi => hi, fun _ _ _ hi => hi⟩
  | cons card cards ih =>
    obtain ⟨card, ids⟩ := card
    rw [List.flatMap_cons, List.nodup_append] at hnodup
    obtain ⟨-, hrest, hapart⟩ := hnodup
    have hfirst : ∀ i ∈ ids, s.log.Has i ∧ s.log.Unsent i :=
      fun i hi => hids i (List.mem_append_left _ hi)
    have hsent := once_sendCard h card (outcome 0) hfirst
    have hhas : ∀ i, s.log.Has i → (s.sendCard card ids (outcome 0)).log.Has i :=
      fun i hi => (hi.update ids (outcome 0)).create
    -- ids of later cards are untouched by the first
    have hunsent : ∀ i, i ∉ ids → s.log.Has i → s.log.Unsent i →
        (s.sendCard card ids (outcome 0)).log.Unsent i :=
      fun i hi hhas hun => (hun.update hi (outcome 0)).create (h.keyed.le_of_has hhas)
    obtain ⟨honce, hkeeps, hhas', hunsent'⟩ := ih hsent (fun k => outcome (k + 1)) hrest (by
      intro i hi
      have hi' := hids i (List.mem_append_right _ hi)
      exact ⟨hhas i hi'.1, hunsent i (fun hmem => hapart i hmem i hi rfl) hi'.1 hi'.2⟩)
    refine ⟨honce, ?_, fun i hi => hhas' i (hhas i hi), fun i hi hhasi hun => ?_⟩
    · exact (keeps_sendCard h.keyed card (outcome 0) fun i hi => (hfirst i hi).2).trans hkeeps hhas
    · rw [List.flatMap_cons, List.mem_append, not_or] at hi
      exact hunsent' i hi.2 (hhas i hhasi) (hunsent i hi.1 hhasi hun)

/-! ### What waits -/

theorem Safe.trans {s'' : Alerter} (h : Safe s s') (h' : Safe s' s'') : Safe s s'' := by
  intro honce hwait
  obtain ⟨⟨honce', hwait'⟩, hkeeps, hhas⟩ := h honce hwait
  obtain ⟨hgood, hkeeps', hhas'⟩ := h' honce' hwait'
  exact ⟨hgood, hkeeps.trans hkeeps' hhas, fun i hi => hhas' i (hhas i hi)⟩

/-- Nothing but memory that no message depends on changes. -/
theorem safe_of_eq (hlog : s'.log = s.log) (hdeliveries : s'.deliveries = s.deliveries)
    (hpending : s'.pending = s.pending) (hgroup : s'.groupPending = s.groupPending)
    (hdrops : s'.quietScoreDrops = s.quietScoreDrops) : Safe s s' := by
  intro honce hwait
  have hheld : s'.heldIds = s.heldIds := by
    unfold heldIds
    rw [hpending, hgroup, hdrops]
  rw [hlog]
  refine ⟨⟨⟨?_, ?_, ?_⟩, ⟨?_, ?_, ?_⟩⟩, .refl _ honce.keyed, fun _ hi => hi⟩
  · exact hlog ▸ honce.keyed
  · exact hdeliveries ▸ hlog ▸ honce.confirmed
  · exact hdeliveries ▸ honce.apart
  · exact hheld ▸ hwait.nodup
  · exact hheld ▸ hlog ▸ hwait.recorded
  · exact hdrops ▸ hlog ▸ hwait.unsent

/-- An event is recorded, and it may wait from then on: in the window, or unconfirmed among the
deferred score drops. -/
theorem safe_record (new : List ℕ) {endpointId : Option ℕ} {kind : AlertKind} {sentOk : Bool}
    {groupKey : Option String}
    (hlog : s'.log = (s.log.createAlertEvent endpointId kind sentOk s.now groupKey).1)
    (hdeliveries : s'.deliveries = s.deliveries)
    (hheld : s'.heldIds.Perm (s.heldIds ++ new)) (hnew : new ⊆ [s.log.seq + 1]) (hone : new.Nodup)
    (hdrops : ∀ i ∈ s'.quietScoreDrops, i ∈ s.quietScoreDrops ∨ i = s.log.seq + 1 ∧ sentOk = false) :
    Safe s s' := by
  intro honce hwait
  have hhas : ∀ i, s.log.Has i → s'.log.Has i := fun i hi => hlog ▸ hi.create
  refine ⟨⟨⟨?_, ?_, ?_⟩, ⟨?_, ?_, ?_⟩⟩, ?_, hhas⟩
  · exact hlog ▸ honce.keyed.create
  · intro d hd hok i hi
    rw [hdeliveries] at hd
    exact hlog ▸ (honce.confirmed d hd hok i hi).create
  · exact hdeliveries ▸ honce.apart
  · -- what is held already was logged, so its ids are below the new one
    refine hheld.nodup_iff.mpr (List.nodup_append.mpr ⟨hwait.nodup, hone, ?_⟩)
    intro i hi j hj
    have hle := honce.keyed.le_of_has (hwait.recorded i hi)
    rw [List.mem_singleton.mp (hnew hj)]
    exact Nat.ne_of_lt (Nat.lt_succ_of_le hle)
  · intro i hi
    rcases List.mem_append.mp (hheld.mem_iff.mp hi) with hi | hi
    · exact hhas i (hwait.recorded i hi)
    · rw [List.mem_singleton.mp (hnew hi), hlog]
      exact ⟨_, mem_create.mpr (.inr rfl), rfl⟩
  · intro i hi
    rw [hlog]
    -- a deferred drop was deferred before or is the event just logged, unsent
    rcases hdrops i hi with hi | ⟨rfl, hsent⟩
    · have hle := honce.keyed.le_of_has (hwait.recorded i (List.mem_append_right _ hi))
      exact (hwait.unsent i hi).create hle
    · intro v hv hid
      rcases mem_create.mp hv with hv | rfl
      · exact absurd hid (Nat.ne_of_lt (Nat.lt_succ_of_le (honce.keyed.issued v hv)))
      · exact hsent
  · exact hlog ▸ keeps_create honce.keyed

/-! ### Rounds -/

theorem Recorded.log_eq {endpointId : ℕ} {kind : AlertKind} {alert : EndpointAlert}
    {absorbed : Bool} {group : Option BufferedGroupTransition}
    (h : Recorded s s' endpointId kind alert absorbed group) :
    s'.log = group.elim (s.flipped endpointId kind).log fun g =>
      ((s.flipped endpointId kind).log.createAlertEvent none g.kind false s.now
        (some g.family)).1 := by
  have heta : s'.log = ⟨s'.log.events, s'.log.seq⟩ := rfl
  rw [heta, h.events, h.seq]
  cases group with
  | none => rfl
  | some g =>
    simp only [Option.map_some, Option.toList_some, Option.elim_some, createAlertEvent, flipped,
      List.append_assoc, List.cons_append, List.nil_append, List.length_singleton]

/-- A buffered event waits behind what waited before, whichever buffer it joins. -/
theorem perm_snoc (pending groups drops : List ℕ) (i : ℕ) :
    (pending ++ [i] ++ groups ++ drops).Perm (pending ++ groups ++ drops ++ [i]) ∧
      (pending ++ (groups ++ [i]) ++ drops).Perm (pending ++ groups ++ drops ++ [i]) := by
  constructor
  · apply List.perm_iff_count.mpr
    intro a
    simp only [List.count_append]
    omega
  · apply List.perm_iff_count.mpr
    intro a
    simp only [List.count_append]
    omega

theorem safe_recorded {endpointId : ℕ} {kind : AlertKind} {alert : EndpointAlert}
    {absorbed : Bool} {group : Option BufferedGroupTransition}
    (h : Recorded s s' endpointId kind alert absorbed group) : Safe s s' := by
  obtain ⟨hnow, -, -, hdrops, hdeliveries, -⟩ := h.same
  -- the endpoint's own event is recorded and buffered first
  let s₁ : Alerter := { s.flipped endpointId kind with
    pending := s.pending ++ [⟨s.log.seq + 1, kind, alert, absorbed⟩] }
  have hlog₁ : s₁.log = (s.log.createAlertEvent (some endpointId) kind false s.now none).1 := rfl
  have hdeliveries₁ : s₁.deliveries = s.deliveries := rfl
  have hfirst : Safe s s₁ := by
    apply safe_record [s.log.seq + 1] hlog₁ hdeliveries₁
    · unfold heldIds
      simp only [s₁, flipped, List.map_append, List.map_cons, List.map_nil]
      exact (perm_snoc _ _ _ _).1
    · exact List.Subset.refl _
    · exact List.nodup_singleton _
    · exact fun i hi => .inl hi
  apply hfirst.trans
  have hlog := h.log_eq
  have hgroupPending := h.groupPending
  cases hg : group with
  | none =>
    rw [hg] at hlog hgroupPending
    exact safe_of_eq hlog hdeliveries h.pending (hgroupPending.trans (List.append_nil _)) hdrops
  | some g =>
    rw [hg] at hlog hgroupPending
    have hid : g.eventId = s₁.log.seq + 1 := (h.grouped g hg).1
    have hlog' : s'.log = (s₁.log.createAlertEvent none g.kind false s₁.now (some g.family)).1 :=
      hlog
    apply safe_record [s₁.log.seq + 1] hlog' hdeliveries
    · unfold heldIds
      rw [h.pending, hgroupPending, hdrops, ← hid]
      simp only [s₁, flipped, List.map_append, List.map_cons, List.map_nil, Option.toList_some]
      exact (perm_snoc _ _ _ _).2
    · exact List.Subset.refl _
    · exact List.nodup_singleton _
    · intro i hi
      exact .inl (hdrops ▸ hi)

/-! ### The window -/

theorem flatMap_batchCard (kind : AlertKind) (pending : List BufferedTransition) :
    (batchCard kind pending).flatMap Prod.snd =
      (pending.filter fun t => t.kind = kind).map BufferedTransition.eventId := by
  unfold batchCard
  by_cases hempty : pending.filter (fun t => t.kind = kind) = []
  · simp [hempty]
  · simp [hempty]

theorem flatMap_flushCards (pending : List BufferedTransition)
    (groups : List BufferedGroupTransition) :
    (flushCards pending groups).flatMap Prod.snd = groups.map BufferedGroupTransition.eventId ++
      (((pending.filter (renderable groups)).filter fun t => t.kind = .down).map
          BufferedTransition.eventId ++
        ((pending.filter (renderable groups)).filter fun t => t.kind = .recovered).map
          BufferedTransition.eventId) := by
  rw [flushCards, List.flatMap_append, List.flatMap_append, flatMap_batchCard, flatMap_batchCard,
    List.flatMap_map]
  exact congrArg (· ++ _) List.map_eq_flatMap.symm

theorem sublist_rendered (pending : List BufferedTransition)
    (groups : List BufferedGroupTransition) (p : BufferedTransition → Bool) :
    (((pending.filter (renderable groups)).filter p).map BufferedTransition.eventId).Sublist
      (pending.map BufferedTransition.eventId) :=
  (List.filter_sublist.trans List.filter_sublist).map _

/-- A flush carries every event once. -/
theorem nodup_flushCards {pending : List BufferedTransition}
    {groups : List BufferedGroupTransition}
    (h : (pending.map BufferedTransition.eventId ++
      groups.map BufferedGroupTransition.eventId).Nodup) :
    ((flushCards pending groups).flatMap Prod.snd).Nodup := by
  obtain ⟨hpending, hgroups, hapart⟩ := List.nodup_append.mp h
  rw [flatMap_flushCards]
  have hnodup := fun p => hpending.sublist (sublist_rendered pending groups p)
  refine List.nodup_append.mpr ⟨hgroups, List.nodup_append.mpr ⟨hnodup _, hnodup _, ?_⟩, ?_⟩
  · -- one event has one kind
    intro i hi j hj hij
    obtain ⟨t, ht, rfl⟩ := List.mem_map.mp hi
    obtain ⟨t', ht', rfl⟩ := List.mem_map.mp hj
    simp only [List.mem_filter, decide_eq_true_eq] at ht ht'
    have hsame := List.inj_on_of_nodup_map hpending ht.1.1 ht'.1.1 hij
    rw [hsame, ht'.2] at ht
    cases ht.2
  · intro i hi j hj hij
    rcases List.mem_append.mp hj with hj | hj
    · exact hapart j ((sublist_rendered pending groups _).subset hj) i hi hij.symm
    · exact hapart j ((sublist_rendered pending groups _).subset hj) i hi hij.symm

theorem safe_takeWindow (s : Alerter) : Safe s s.takeWindow := by
  intro honce hwait
  have hheld : s.takeWindow.heldIds = s.quietScoreDrops := rfl
  refine ⟨⟨⟨honce.keyed, honce.confirmed, honce.apart⟩, ⟨?_, ?_, hwait.unsent⟩⟩,
    .refl _ honce.keyed, fun _ hi => hi⟩
  · rw [hheld]
    exact (List.nodup_append.mp hwait.nodup).2.1
  · rw [hheld]
    exact fun i hi => hwait.recorded i (List.mem_append_right _ hi)

/-- The messages of a flush are the cards, in order, sent now. -/
structure SentNow (s : Alerter) (outcome : ℕ → Bool) (d : Delivery) : Prop where
  sentAt : d.sentAt = s.now
  upTo : s.log.seq ≤ d.upTo
  ok : (∀ k, outcome k = true) → d.ok = true

/-- Sending cards changes the log and adds one message for each. -/
theorem sendCards_spec (s : Alerter) (outcome : ℕ → Bool) (cards : List (Card × List ℕ)) :
    ∃ log new, s.sendCards outcome cards = { s with log, deliveries := s.deliveries ++ new } ∧
      s.log.seq ≤ log.seq ∧ new.map (fun d => (d.card, d.eventIds)) = cards ∧
      ∀ d ∈ new, SentNow s outcome d := by
  induction cards generalizing s outcome with
  | nil =>
    refine ⟨s.log, [], ?_, Nat.le_refl _, rfl, by simp⟩
    rw [List.append_nil]
    rfl
  | cons card cards ih =>
    obtain ⟨card, ids⟩ := card
    -- the outcomes shift by one: the first is that of the first card
    obtain ⟨log, new, heq, hseq, hcards, hnew⟩ :=
      ih (s.sendCard card ids (outcome 0)) fun k => outcome (k + 1)
    refine ⟨log, ⟨card, ids, outcome 0, s.now, s.log.seq⟩ :: new, ?_, ?_, ?_, ?_⟩
    · rw [sendCards, heq]
      simp only [sendCard, List.append_assoc, List.cons_append, List.nil_append]
    · exact (Nat.le_succ _).trans hseq
    · rw [List.map_cons, hcards]
    · intro d hd
      rcases List.mem_cons.mp hd with rfl | hd
      · exact ⟨rfl, Nat.le_refl _, fun hok => hok 0⟩
      · obtain ⟨hat, hup, hok⟩ := hnew d hd
        exact ⟨hat, (Nat.le_succ _).trans hup, fun h => hok fun k => h (k + 1)⟩

/-- **Flush.** It sends unconfirmed events that wait in the window, each once. -/
theorem safe_flush (s : Alerter) (outcome : ℕ → Bool) : Safe s (s.flush outcome) := by
  have htake := safe_takeWindow s
  unfold flush
  split
  · exact htake
  split
  · exact htake
  split
  · exact htake
  split
  · exact htake
  intro honce hwait
  obtain ⟨⟨honce', hwait'⟩, -, -⟩ := htake honce hwait
  obtain ⟨hbuffered, -, hdrops⟩ := List.nodup_append.mp hwait.nodup
  -- what the flush sends is buffered and not confirmed
  have hnodup : (s.unconfirmed.map BufferedTransition.eventId ++
      s.unconfirmedGroups.map BufferedGroupTransition.eventId).Nodup :=
    hbuffered.sublist ((List.filter_sublist.map _).append (List.filter_sublist.map _))
  have hmem : ∀ i ∈ (flushCards s.unconfirmed s.unconfirmedGroups).flatMap Prod.snd,
      i ∈ s.pending.map BufferedTransition.eventId ++
          s.groupPending.map BufferedGroupTransition.eventId ∧ s.log.Unsent i := by
    intro i hi
    have hbuffer : i ∈ s.unconfirmed.map BufferedTransition.eventId ∨
        i ∈ s.unconfirmedGroups.map BufferedGroupTransition.eventId := by
      rw [flatMap_flushCards, List.mem_append, List.mem_append] at hi
      rcases hi with hi | hi | hi
      · exact .inr hi
      · exact .inl ((sublist_rendered _ _ _).subset hi)
      · exact .inl ((sublist_rendered _ _ _).subset hi)
    rcases hbuffer with hi | hi
    · obtain ⟨t, ht, rfl⟩ := List.mem_map.mp hi
      obtain ⟨ht, hnot⟩ := List.mem_filter.mp ht
      have hin : t.eventId ∈ s.pending.map BufferedTransition.eventId ++
          s.groupPending.map BufferedGroupTransition.eventId :=
        List.mem_append_left _ (List.mem_map_of_mem ht)
      exact ⟨hin, unsent_of_notMem hin (of_decide_eq_true hnot)⟩
    · obtain ⟨g, hg, rfl⟩ := List.mem_map.mp hi
      obtain ⟨hg, hnot⟩ := List.mem_filter.mp hg
      have hin : g.eventId ∈ s.pending.map BufferedTransition.eventId ++
          s.groupPending.map BufferedGroupTransition.eventId :=
        List.mem_append_right _ (List.mem_map_of_mem hg)
      exact ⟨hin, unsent_of_notMem hin (of_decide_eq_true hnot)⟩
  obtain ⟨honce'', hkeeps, hhas, hunsent⟩ := once_sendCards honce' outcome _
    (nodup_flushCards hnodup) (fun i hi => ⟨hwait.recorded i
      (List.mem_append_left _ (hmem i hi).1), (hmem i hi).2⟩)
  -- sending leaves what waits as it is
  obtain ⟨log, new, heq, -⟩ := sendCards_spec s.takeWindow outcome
    (flushCards s.unconfirmed s.unconfirmedGroups)
  have hheld : (s.takeWindow.sendCards outcome
      (flushCards s.unconfirmed s.unconfirmedGroups)).heldIds = s.takeWindow.heldIds := by
    rw [heq]
    rfl
  have hdropped : (s.takeWindow.sendCards outcome (flushCards s.unconfirmed
      s.unconfirmedGroups)).quietScoreDrops = s.quietScoreDrops := by
    rw [heq]
    rfl
  refine ⟨⟨honce'', ⟨?_, ?_, ?_⟩⟩, hkeeps, hhas⟩
  · exact hheld ▸ hwait'.nodup
  · intro i hi
    exact hhas i (hwait'.recorded i (hheld ▸ hi))
  · -- a deferred score drop is not in the window
    intro i hi
    have hdrop : i ∈ s.quietScoreDrops := hdropped ▸ hi
    have hnot : i ∉ (flushCards s.unconfirmed s.unconfirmedGroups).flatMap Prod.snd :=
      fun hin => hdrops i (hmem i hin).1 i hdrop rfl
    exact hunsent i hnot (hwait.recorded i (List.mem_append_right _ hdrop))
      (hwait.unsent i hdrop)

/-! ### Summaries and score drops -/

theorem mem_summaryGroups {family : String} {v : AlertEvent} (h : (family, v) ∈ s.summaryGroups) :
    v ∈ s.log.events ∧ v.sentOk = false := by
  obtain ⟨hopen, hsent⟩ := List.mem_filter.mp h
  refine ⟨?_, by simpa using hsent⟩
  have hrow := mem_firstPerKey.mp (List.mem_filter.mp hopen).1
  have hmem := (List.mem_filter.mp (List.mem_of_mem_head? hrow)).1
  exact (List.mem_filter.mp ((List.mem_insertionSort Newer).mp hmem)).1

theorem mem_summaryEndpoints {e : AlertEndpoint} {v : AlertEvent}
    (h : (e, v) ∈ s.summaryEndpoints) : v ∈ s.log.events ∧ v.sentOk = false := by
  obtain ⟨hopen, hsent⟩ := List.mem_filter.mp h
  have hsent' : v.sentOk = false := by
    simp only [Bool.and_eq_true, Bool.not_eq_true'] at hsent
    exact hsent.1
  refine ⟨?_, hsent'⟩
  obtain ⟨⟨key, w⟩, hrow, hfind⟩ := List.mem_filterMap.mp hopen
  obtain ⟨e', -, heq⟩ := Option.map_eq_some_iff.mp hfind
  cases heq
  have hrow' := mem_firstPerKey.mp (List.mem_filter.mp hrow).1
  have hmem := (List.mem_filter.mp (List.mem_of_mem_head? hrow')).1
  exact (List.mem_filter.mp ((List.mem_insertionSort Newer).mp hmem)).1

/-- A summary carries recorded events that are not confirmed. -/
theorem unsent_summaryIds (honce : Once s) (hwait : HeldOnce s) :
    ∀ i ∈ s.summaryIds, s.log.Has i ∧ s.log.Unsent i := by
  have hanchor : ∀ v ∈ s.log.events, v.sentOk = false → s.log.Has v.id ∧ s.log.Unsent v.id := by
    intro v hv hsent
    refine ⟨⟨v, hv, rfl⟩, fun w hw hid => ?_⟩
    rw [honce.keyed.eq_of_id hw hv hid]
    exact hsent
  intro i hi
  rcases List.mem_append.mp hi with hi | hi
  · rcases List.mem_append.mp hi with hi | hi
    · obtain ⟨⟨family, v⟩, hrow, rfl⟩ := List.mem_map.mp hi
      exact hanchor v (mem_summaryGroups hrow).1 (mem_summaryGroups hrow).2
    · obtain ⟨⟨e, v⟩, hrow, rfl⟩ := List.mem_map.mp hi
      exact hanchor v (mem_summaryEndpoints hrow).1 (mem_summaryEndpoints hrow).2
  · exact ⟨hwait.recorded i (List.mem_append_right _ hi), hwait.unsent i hi⟩

/-- **Summary.** It sends unconfirmed anchors and the deferred score drops. -/
theorem safe_deliverQuietSummary (s : Alerter) (ok : Bool) : Safe s (s.deliverQuietSummary ok) := by
  intro honce hwait
  have hbuffered : ∀ i, i ∈ s.pending.map BufferedTransition.eventId ++
      s.groupPending.map BufferedGroupTransition.eventId → i ∈ s.heldIds :=
    fun i hi => List.mem_append_left _ hi
  have hnodup := (List.nodup_append.mp hwait.nodup).1
  unfold deliverQuietSummary
  split
  · -- without a webhook the deferred score drops are dropped
    refine ⟨⟨⟨honce.keyed, honce.confirmed, honce.apart⟩, ⟨?_, ?_, by simp⟩⟩,
      .refl _ honce.keyed, fun _ hi => hi⟩
    · exact List.nodup_append.mpr ⟨hnodup, List.nodup_nil, by simp⟩
    · intro i hi
      rw [heldIds, List.append_nil] at hi
      exact hwait.recorded i (hbuffered i hi)
  split
  · exact ⟨⟨honce, hwait⟩, .refl _ honce.keyed, fun _ hi => hi⟩
  have hids := unsent_summaryIds honce hwait
  have hhas : ∀ i, s.log.Has i → ((s.log.updateAlertEventsSentOK s.summaryIds ok).createAlertEvent
      none .quietSummary ok s.now none).1.Has i := fun i hi => (hi.update _ ok).create
  refine ⟨⟨once_deliver honce hids rfl rfl, ⟨?_, ?_, by simp⟩⟩, ?_, hhas⟩
  · exact List.nodup_append.mpr ⟨hnodup, List.nodup_nil, by simp⟩
  · intro i hi
    rw [heldIds, List.append_nil] at hi
    exact hhas i (hwait.recorded i (hbuffered i hi))
  · exact (keeps_update honce.keyed (fun i hi => (hids i hi).2) ok).trans
      (keeps_create (honce.keyed.update _ ok)) fun _ hi => hi.update _ ok

theorem safe_onQuietBoundary (s : Alerter) (ok : Bool) : Safe s (s.onQuietBoundary ok) := by
  have hsummary : Safe s (if s.settings.quietHours.quiet s.now || !s.settings.quietHours.active
      then s else s.deliverQuietSummary ok) := by
    split
    · exact safe_of_eq rfl rfl rfl rfl rfl
    · exact safe_deliverQuietSummary s ok
  exact hsummary.trans (safe_of_eq rfl rfl rfl rfl rfl)

theorem safe_deferScoreDrop (s : Alerter) : Safe s s.deferScoreDrop := by
  apply safe_record [s.log.seq + 1]
  · rfl
  · rfl
  · unfold heldIds
    simp only [deferScoreDrop, createAlertEvent, List.append_assoc]
    exact .refl _
  · exact List.Subset.refl _
  · exact List.nodup_singleton _
  · intro i hi
    rcases List.mem_append.mp hi with hi | hi
    · exact .inl hi
    · exact .inr ⟨List.mem_singleton.mp hi, rfl⟩

/-- A score drop sent at once carries no event that was recorded before. -/
theorem safe_sendModelAlert (s : Alerter) (campaignId modelDbId : ℕ) (ok : Bool) :
    Safe s (s.sendModelAlert campaignId modelDbId ok) := by
  intro honce hwait
  have hupdate : s.log.updateAlertEventsSentOK [] ok = s.log := by
    unfold updateAlertEventsSentOK
    simp
  have hlog : (s.sendModelAlert campaignId modelDbId ok).log =
      ((s.log.updateAlertEventsSentOK [] ok).createAlertEvent none .scoreDrop ok s.now none).1 := by
    rw [hupdate]
    rfl
  refine ⟨⟨once_deliver honce (by simp) hlog rfl, ⟨hwait.nodup, ?_, ?_⟩⟩,
    keeps_create honce.keyed, fun i hi => hi.create⟩
  · exact fun i hi => (hwait.recorded i hi).create
  · intro i hi
    have hhas := hwait.recorded i (List.mem_append_right _ hi)
    exact (hwait.unsent i hi).create (honce.keyed.le_of_has hhas)

theorem safe_alertModels (s : Alerter) (campaignId : ℕ) (quiet : Bool) (outcome : ℕ → Bool)
    (models : List ℕ) : Safe s (s.alertModels campaignId quiet outcome models) := by
  induction models generalizing s outcome with
  | nil => exact safe_of_eq rfl rfl rfl rfl rfl
  | cons modelDbId models ih =>
    unfold alertModels
    split
    · exact (safe_deferScoreDrop s).trans (ih _ _)
    · exact (safe_sendModelAlert s campaignId modelDbId (outcome 0)).trans (ih _ _)

theorem safe_annotateSkips (s : Alerter) (n : ℕ) : Safe s (s.annotateSkips n) := by
  induction n generalizing s with
  | zero => exact safe_of_eq rfl rfl rfl rfl rfl
  | succ n ih =>
    apply Safe.trans _ (ih _)
    apply safe_record []
    · rfl
    · rfl
    · exact List.Perm.of_eq (List.append_nil _).symm
    · exact List.nil_subset _
    · exact List.nodup_nil
    · exact fun i hi => .inl hi

/-! ### Runs -/

/-- The operations of the evaluator, and what moves beside it; no endpoint is deleted with its
events. -/
def KeepsEvents (_ : Alerter) : AlerterLabel → Prop
  | .deleteEndpoint _ => False
  | _ => True

instance (s : Alerter) : (a : AlerterLabel) → Decidable (KeepsEvents s a)
  | .deleteEndpoint _ => inferInstanceAs (Decidable False)
  | .clock _ | .handleRound _ _ | .flush _ | .quietBoundary _ | .handleCampaign _ _ _ _ _
  | .saveSettings _ | .saveEndpoints _ | .recordEvent _ _ => inferInstanceAs (Decidable True)

theorem safe_step {a : AlerterLabel} (hkeeps : KeepsEvents s a) (h : alerterStep s a = some s') :
    Safe s s' := by
  cases a with
  | clock | saveSettings | saveEndpoints =>
    cases h
    exact safe_of_eq rfl rfl rfl rfl rfl
  | handleRound endpointId consecutive =>
    cases h
    rcases handleRound_cases s endpointId consecutive with ⟨a, g, heq, -⟩ | ⟨_, _, _, _, -, -, h⟩
    · rw [heq]
      exact safe_of_eq rfl rfl rfl rfl rfl
    · exact safe_recorded h
  | flush outcome =>
    obtain ⟨-, heq⟩ := Option.ite_none_right_eq_some.mp h
    cases heq
    exact safe_flush s outcome
  | quietBoundary ok =>
    obtain ⟨-, heq⟩ := Option.ite_none_right_eq_some.mp h
    cases heq
    -- taking the timer down delivers and holds nothing
    have hconsumed : Safe s { s with quietTimer := ⟨none, s.quietTimer.boundaryAt, false⟩ } :=
      safe_of_eq rfl rfl rfl rfl rfl
    exact hconsumed.trans (safe_onQuietBoundary _ ok)
  | handleCampaign campaignId done skipped models outcome =>
    cases h
    unfold handleCampaign
    split
    · exact safe_of_eq rfl rfl rfl rfl rfl
    · have hskips : Safe s (s.annotateSkips skipped).syncQuietTimer :=
        (safe_annotateSkips s skipped).trans (safe_of_eq rfl rfl rfl rfl rfl)
      exact hskips.trans (safe_alertModels _ campaignId _ outcome models)
  -- deleting an endpoint deletes its events, which the hypothesis rules out
  | deleteEndpoint => exact hkeeps.elim
  | recordEvent kind ok =>
    obtain ⟨-, heq⟩ := Option.ite_none_right_eq_some.mp h
    cases heq
    apply safe_record []
    · rfl
    · rfl
    · exact List.Perm.of_eq (List.append_nil _).symm
    · exact List.nil_subset _
    · exact List.nodup_nil
    · exact fun i hi => .inl hi

theorem once_start {now : ℤ} {settings : AlertSettings} {endpoints : List AlertEndpoint}
    (h : log.Keyed) : Once (.start now settings endpoints log) ∧
      HeldOnce (.start now settings endpoints log) :=
  ⟨⟨h, by simp [Alerter.start], by simp [Alerter.start]⟩,
    ⟨by simp [Alerter.start, heldIds], by simp [Alerter.start, heldIds], by simp [Alerter.start]⟩⟩

theorem once_of_reach {now : ℤ} {settings : AlertSettings} {endpoints : List AlertEndpoint}
    (hlog : log.Keyed)
    (h : Transition.Reach alerterStep KeepsEvents (.start now settings endpoints log) s) :
    Once s ∧ HeldOnce s := by
  refine h.invariant (I := fun t => Once t ∧ HeldOnce t) ?_ fun t a u ht hkeeps hstep => ?_
  · exact once_start hlog
  · exact (safe_step hkeeps hstep ht.1 ht.2).1

/-- **At most once.** Two delivered messages carry no common event, and no step takes a
confirmed event's flag back. -/
theorem delivered_once_of_reach {now : ℤ} {settings : AlertSettings}
    {endpoints : List AlertEndpoint} (hlog : log.Keyed)
    (h : Transition.Reach alerterStep KeepsEvents (.start now settings endpoints log) s) :
    s.deliveries.Pairwise Disjointly ∧
      ∀ a s', KeepsEvents s a → alerterStep s a = some s' → s.log.Keeps s'.log := by
  obtain ⟨honce, hwait⟩ := once_of_reach hlog h
  exact ⟨honce.apart, fun a s' hkeeps hstep => (safe_step hkeeps hstep honce hwait).2.1⟩

/-- Two endpoints go down in the evening. The card of the first one fails, that of the second one
is delivered, and in the morning the summary of the quiet hours is. -/
def failedCard : List AlerterLabel :=
  [.handleRound 1 3, .clock (22 * hourLength + alertWindow), .flush (fun _ => false),
    .handleRound 2 3, .clock (22 * hourLength + 2 * alertWindow), .flush (fun _ => true),
    .clock (23 * hourLength), .quietBoundary true, .clock (31 * hourLength), .quietBoundary true]

/-- The summary tells again what a failed card told, and not what a delivered one did. -/
theorem delivered_once_of_reach_down : ∃ s : Alerter,
    s.deliveries.map (fun d => (d.eventIds, d.ok)) = [([1], false), ([3], true), ([1], true)] ∧
      s.deliveries.Pairwise Disjointly ∧
      ∀ a s', KeepsEvents s a → alerterStep s a = some s' → s.log.Keeps s'.log := by
  let settings : AlertSettings := ⟨"hook", true, true, ⟨true, 23, 7⟩⟩
  let endpoints : List AlertEndpoint := [⟨1, "hub", "a", "openai", "other", true, true⟩,
    ⟨2, "hub", "b", "openai", "other", true, true⟩]
  have hrun : (Transition.replayWith alerterStep KeepsEvents
      (.start (22 * hourLength) settings endpoints ⟨[], 0⟩) failedCard).any
          (fun s => decide (s.deliveries.map (fun d => (d.eventIds, d.ok)) =
            [([1], false), ([3], true), ([1], true)])) = true := by
    decide
  obtain ⟨s, hs, hids⟩ := (Option.any_eq_true _ _).mp hrun
  have hlog : AlertLog.Keyed ⟨[], 0⟩ := ⟨by simp, by simp⟩
  exact ⟨s, of_decide_eq_true hids, delivered_once_of_reach hlog (.of_replayWith hs)⟩

end HubScope
