import HubScope.Alerter.Events
import HubScope.Lib.Grouping
import HubScope.Lib.LastWins
import HubScope.Lib.Pairing
import HubScope.Lib.Ranking

/-!
# Incident durations of the alert timeline

The timeline pairs every down event with the recovery that ended the outage. Each scope, an
endpoint or a vendor group, is sorted by time and id, and a recovery closes the down that has
been open longest. A down that was reported twice leaves its duplicate in the queue, where the
recovery of a later outage finds it.

## Main definitions

* `incidentScopeKey`, `isOpener`, `pairIncidentDurations` — the pairing of the timeline
* `IncidentsPaired` — what the durations promise
* `HeldOver` — a scope with a duplicate down and two recoveries behind it

## Main results

* `lookup_paired_iff`, `lookup_ongoing_iff` — what the durations say, by the scopes' queues
* `incidentsPaired_iff` — the durations keep their promise exactly when no duplicate is held over
-/

set_option autoImplicit false

namespace HubScope

namespace AlertTimeline

/-! ### The pairing -/

/-- Duration of an incident. -/
inductive IncidentDuration
  | paired (ms : ℤ) (closerId : ℕ)
  | ongoing
  deriving DecidableEq, Repr

/-- The incident scope a down and its recovery share. -/
inductive IncidentScope
  | endpoint (id : ℕ)
  | group (key : String)
  deriving DecidableEq, Repr

/-- The time of an event in milliseconds. -/
def getTime (e : AlertEvent) : ℤ := e.createdAt / 1000000

/-- The scope of an event. Events outside the two incident kind pairs have none. -/
def incidentScopeKey (e : AlertEvent) : Option IncidentScope :=
  match e.kind with
  | .down | .recovered => e.endpointId.map .endpoint
  | .groupDown | .groupRecovered => e.groupKey.map .group
  | _ => none

/-- The event opens an incident. -/
def isOpener (e : AlertEvent) : Bool := e.kind = .down || e.kind = .groupDown

/-- The order of a scope: by time, then by id. -/
def Before (a b : AlertEvent) : Prop :=
  getTime a < getTime b ∨ getTime a = getTime b ∧ a.id < b.id

instance : DecidableRel Before := fun a b =>
  inferInstanceAs (Decidable (getTime a < getTime b ∨ getTime a = getTime b ∧ a.id < b.id))

/-- Durations by the id of the down. -/
abbrev Durations := AList fun _ : ℕ => IncidentDuration

/-- Take one event of a scope in. A recovery with no open down is dangling and ignored. -/
def pairStep : List AlertEvent × Durations → AlertEvent → List AlertEvent × Durations
  | (openDowns, result), e =>
    if isOpener e then (openDowns ++ [e], result)
    else
      match openDowns with
      | [] => ([], result)
      | down :: openDowns =>
        (openDowns, result.insert down.id (.paired (max 0 (getTime e - getTime down)) e.id))

/-- Pair the events of a scope. -/
def pairScope (result : Durations) (list : List AlertEvent) : Durations :=
  let (openDowns, result) := (Ranking.sortStable Before list).foldl pairStep ([], result)
  openDowns.foldl (fun result down => result.insert down.id .ongoing) result

/-- Match every down with a later recovery in its scope, first in, first out. -/
def pairIncidentDurations (events : List AlertEvent) : Durations :=
  let byScope := Grouping.group incidentScopeKey
    (events.filter fun e => (incidentScopeKey e).isSome)
  byScope.foldl (fun result b => pairScope result b.2) ∅

/-! ### What a scope sets -/

/-- The events of a scope. -/
def inScope (events : List AlertEvent) (key : IncidentScope) : List AlertEvent :=
  events.filter fun e => incidentScopeKey e = some key

/-- The events of a scope in their order. -/
def ascending (events : List AlertEvent) (key : IncidentScope) : List AlertEvent :=
  Ranking.sortStable Before (inScope events key)

/-- The entries a scan over a scope sets. -/
def entries (q xs : List AlertEvent) : List (ℕ × IncidentDuration) :=
  (Pairing.pairs isOpener q xs).map (fun p =>
    (p.1.id, .paired (max 0 (getTime p.2 - getTime p.1)) p.2.id)) ++
    (Pairing.left isOpener q xs).map fun down => (down.id, .ongoing)

variable {events events' xs : List AlertEvent} {key : IncidentScope} {a b e down : AlertEvent}
  {id r : ℕ} {ms : ℤ} {v : IncidentDuration}

theorem mem_inScope : e ∈ inScope events key ↔ e ∈ events ∧ incidentScopeKey e = some key := by
  simp [inScope]

theorem mem_ascending : e ∈ ascending events key ↔ e ∈ inScope events key :=
  Ranking.mem_sortStable

theorem pairStep_opener (he : isOpener e) (q : List AlertEvent) (result : Durations) :
    pairStep (q, result) e = (q ++ [e], result) := by
  simp [pairStep, he]

theorem pairStep_nil (he : ¬ isOpener e) (result : Durations) :
    pairStep ([], result) e = ([], result) := by
  simp [pairStep, he]

theorem pairStep_cons (he : ¬ isOpener e) (q : List AlertEvent) (result : Durations) :
    pairStep (down :: q, result) e =
      (q, result.insert down.id (.paired (max 0 (getTime e - getTime down)) e.id)) := by
  simp [pairStep, he]

/-- One scan over a scope, entry by entry. -/
theorem foldl_pairStep (q xs : List AlertEvent) (result : Durations) :
    xs.foldl pairStep (q, result) = (Pairing.left isOpener q xs,
      ((Pairing.pairs isOpener q xs).map fun p : AlertEvent × AlertEvent =>
        (p.1.id, IncidentDuration.paired (max 0 (getTime p.2 - getTime p.1)) p.2.id)).foldl
          (fun t row => t.insert row.1 row.2) result) := by
  induction xs generalizing q result with
  | nil => rfl
  | cons x xs ih =>
    rw [List.foldl_cons, Pairing.left, Pairing.pairs]
    split_ifs with hx
    · rw [pairStep_opener hx]
      exact ih _ _
    · cases q with
      | nil =>
        rw [pairStep_nil hx]
        exact ih [] result
      | cons down q =>
        rw [pairStep_cons hx]
        exact ih q _

theorem pairScope_eq (result : Durations) (list : List AlertEvent) :
    pairScope result list = (entries [] (Ranking.sortStable Before list)).foldl
      (fun t row => t.insert row.1 row.2) result := by
  rw [pairScope, foldl_pairStep, entries, List.foldl_append]
  simp only [List.foldl_map]

/-- The entries of all scopes. -/
def rows (events : List AlertEvent) : List (ℕ × IncidentDuration) :=
  (Grouping.group incidentScopeKey (events.filter fun e => (incidentScopeKey e).isSome)).flatMap
    fun b => entries [] (Ranking.sortStable Before b.2)

theorem pairIncidentDurations_eq (events : List AlertEvent) :
    pairIncidentDurations events =
      (rows events).foldl (fun t row => t.insert row.1 row.2) ∅ := by
  rw [pairIncidentDurations, rows, List.foldl_flatMap]
  simp only [pairScope_eq]

/-- A scan sets one entry for every opener. -/
theorem map_fst_entries (xs : List AlertEvent) :
    (entries [] xs).map Prod.fst = (xs.filter isOpener).map AlertEvent.id := by
  rw [← List.nil_append (xs.filter isOpener), ← Pairing.map_fst_pairs_append, entries,
    List.map_append, List.map_append, List.map_map, List.map_map, List.map_map]
  rfl

theorem exists_of_mem_entries (h : (id, v) ∈ entries [] (ascending events key)) :
    ∃ e ∈ inScope events key, isOpener e ∧ e.id = id := by
  have hid := List.mem_map_of_mem (f := Prod.fst) h
  rw [map_fst_entries] at hid
  obtain ⟨e, he, heq⟩ := List.mem_map.mp hid
  obtain ⟨hmem, hopener⟩ := List.mem_filter.mp he
  exact ⟨e, mem_ascending.mp hmem, hopener, heq⟩

theorem mem_entries_paired : (id, .paired ms r) ∈ entries [] xs ↔
    ∃ d e, (d, e) ∈ Pairing.pairs isOpener [] xs ∧ d.id = id ∧ e.id = r ∧
      max 0 (getTime e - getTime d) = ms := by
  rw [entries, List.mem_append, or_iff_left (by simp), List.mem_map]
  constructor
  · rintro ⟨⟨d, e⟩, hpair, heq⟩
    obtain ⟨rfl, hduration⟩ := Prod.mk.inj heq
    obtain ⟨rfl, rfl⟩ := IncidentDuration.paired.inj hduration
    exact ⟨d, e, hpair, rfl, rfl, rfl⟩
  · rintro ⟨d, e, hpair, rfl, rfl, rfl⟩
    exact ⟨(d, e), hpair, rfl⟩

theorem mem_entries_ongoing : (id, .ongoing) ∈ entries [] xs ↔
    ∃ d ∈ Pairing.left isOpener [] xs, d.id = id := by
  rw [entries, List.mem_append, or_iff_right (by simp), List.mem_map]
  constructor
  · rintro ⟨d, hleft, heq⟩
    exact ⟨d, hleft, (Prod.mk.inj heq).1⟩
  · rintro ⟨d, hleft, rfl⟩
    exact ⟨d, hleft, rfl⟩

theorem mem_rows : (id, v) ∈ rows events ↔
    ∃ key, (id, v) ∈ entries [] (ascending events key) := by
  -- the bucket of a key holds the events in its scope, in their order
  have hbucket : ∀ key, ((events.filter fun e => (incidentScopeKey e).isSome).filter
      fun e => incidentScopeKey e = some key) = inScope events key := by
    intro key
    rw [List.filter_filter, inScope]
    apply List.filter_congr
    intro e _
    cases incidentScopeKey e <;> simp
  rw [rows, List.mem_flatMap]
  constructor
  · rintro ⟨⟨k, ys⟩, hb, hmem⟩
    obtain ⟨⟨e, he, hkey⟩, rfl⟩ := Grouping.mem_group.mp hb
    obtain ⟨key, hsome⟩ := Option.isSome_iff_exists.mp (List.mem_filter.mp he).2
    obtain rfl := hsome.symm.trans hkey
    refine ⟨key, ?_⟩
    rw [ascending, ← hbucket]
    exact hmem
  · rintro ⟨key, hmem⟩
    obtain ⟨e, he, -, -⟩ := exists_of_mem_entries hmem
    obtain ⟨hevent, hkey⟩ := mem_inScope.mp he
    refine ⟨(some key, inScope events key), Grouping.mem_group.mpr ⟨⟨e, ?_, hkey⟩, ?_⟩, hmem⟩
    · exact List.mem_filter.mpr ⟨hevent, by simp [hkey]⟩
    · exact (hbucket key).symm

/-! ### The order of a scope -/

/-- The key of the order. -/
def beforeKey (e : AlertEvent) : ℤ ×ₗ ℕ := toLex (getTime e, e.id)

theorem before_iff (a b : AlertEvent) : Before a b ↔ beforeKey a < beforeKey b :=
  (Prod.Lex.toLex_lt_toLex (x := (getTime a, a.id)) (y := (getTime b, b.id))).symm

instance : IsStrictWeakOrder AlertEvent Before :=
  Ranking.isStrictWeakOrder_of_key beforeKey before_iff

theorem getTime_le_of_before (h : Before a b) : getTime a ≤ getTime b := by
  rcases h with h | h
  · exact h.le
  · exact h.1.le

/-- Events with different ids are not tied. -/
theorem before_or_before (hne : a.id ≠ b.id) : Before a b ∨ Before b a := by
  rw [before_iff, before_iff]
  apply lt_or_gt_of_ne
  intro heq
  exact hne (congrArg (fun k => (ofLex k).2) heq)

section Distinct

variable (hids : (events.map AlertEvent.id).Nodup)

include hids

theorem eq_of_id_eq (ha : a ∈ events) (hb : b ∈ events) (h : a.id = b.id) : a = b :=
  List.inj_on_of_nodup_map hids ha hb h

theorem pairwise_ascending (key : IncidentScope) : (ascending events key).Pairwise Before := by
  have hnodup : ((ascending events key).map AlertEvent.id).Nodup := by
    apply ((Ranking.perm_sortStable _).map _).nodup_iff.mpr
    exact hids.sublist (List.filter_sublist.map _)
  have hne : (ascending events key).Pairwise fun a b => a.id ≠ b.id := List.pairwise_map.mp hnodup
  apply (hne.and (Ranking.pairwise_sortStable _)).imp
  rintro a b ⟨hid, hnot⟩
  exact (before_or_before hid).resolve_right hnot

/-- The order of a scope does not depend on the order the events came in. -/
theorem ascending_eq_of_perm (h : events'.Perm events) (key : IncidentScope) :
    ascending events' key = ascending events key := by
  apply Ranking.sortStable_eq_of_perm _ (h.filter _)
  intro a ha b hb hne
  apply before_or_before
  intro hid
  exact hne (eq_of_id_eq hids (mem_inScope.mp ha).1 (mem_inScope.mp hb).1 hid)

/-! ### What the durations say -/

theorem eq_of_mem_entries {key key' : IncidentScope} {v v' : IncidentDuration}
    (h : (id, v) ∈ entries [] (ascending events key))
    (h' : (id, v') ∈ entries [] (ascending events key')) : v = v' := by
  obtain ⟨e, he, -, hid⟩ := exists_of_mem_entries h
  obtain ⟨e', he', -, hid'⟩ := exists_of_mem_entries h'
  rw [mem_inScope] at he he'
  -- the id names one event, and with it one scope
  obtain rfl := eq_of_id_eq hids he.1 he'.1 (hid.trans hid'.symm)
  obtain rfl := Option.some.inj (he.2.symm.trans he'.2)
  have hnodup : ((entries [] (ascending events key)).map Prod.fst).Nodup := by
    rw [map_fst_entries]
    have hsub : ((ascending events key).filter isOpener).Sublist (ascending events key) :=
      List.filter_sublist
    apply List.Nodup.sublist (hsub.map _)
    apply ((Ranking.perm_sortStable _).map _).nodup_iff.mpr
    exact hids.sublist (List.filter_sublist.map _)
  exact congrArg Prod.snd (List.inj_on_of_nodup_map hnodup h h' rfl)

/-- The durations hold the entries of the scopes. -/
theorem lookup_eq_some_iff : (pairIncidentDurations events).lookup id = some v ↔
    ∃ key, (id, v) ∈ entries [] (ascending events key) := by
  have hset : ∀ w, (id, w) ∈ rows events →
      (pairIncidentDurations events).lookup id = some w := by
    intro w hw
    have hagree : ∀ row ∈ rows events, row.1 = id → row.2 = w := by
      rintro ⟨_, w'⟩ hw' rfl
      obtain ⟨key, h⟩ := mem_rows.mp hw
      obtain ⟨key', h'⟩ := mem_rows.mp hw'
      exact eq_of_mem_entries hids h' h
    rw [pairIncidentDurations_eq, lookup_foldl_insert _ _ hagree,
      if_pos (List.mem_map_of_mem (f := Prod.fst) hw)]
  constructor
  · intro h
    by_cases hmem : id ∈ (rows events).map Prod.fst
    · obtain ⟨⟨_, w⟩, hw, rfl⟩ := List.mem_map.mp hmem
      obtain rfl := Option.some.inj (h.symm.trans (hset w hw))
      exact mem_rows.mp hw
    · -- an id without an entry was never set
      have hnone : ∀ row ∈ rows events, row.1 = id → row.2 = v := fun row hrow heq =>
        absurd (List.mem_map.mpr ⟨row, hrow, heq⟩) hmem
      rw [pairIncidentDurations_eq, lookup_foldl_insert _ _ hnone, if_neg hmem] at h
      cases h
  · exact fun h => hset v (mem_rows.mpr h)

/-- A down is paired when a recovery of its scope finds it in front of the queue. -/
theorem lookup_paired_iff : (pairIncidentDurations events).lookup id = some (.paired ms r) ↔
    ∃ key d e, (d, e) ∈ Pairing.pairs isOpener [] (ascending events key) ∧ d.id = id ∧ e.id = r ∧
      max 0 (getTime e - getTime d) = ms := by
  rw [lookup_eq_some_iff hids]
  exact exists_congr fun _ => mem_entries_paired

/-- A down is ongoing when its scope leaves it in the queue. -/
theorem lookup_ongoing_iff : (pairIncidentDurations events).lookup id = some .ongoing ↔
    ∃ key, ∃ d ∈ Pairing.left isOpener [] (ascending events key), d.id = id := by
  rw [lookup_eq_some_iff hids]
  exact exists_congr fun _ => mem_entries_ongoing

end Distinct

/-! ### The promise -/

/-- What the durations promise: they do not depend on the order of the events, exactly the downs
of the scopes have one, a recovery closes one down at most, the one that closes a down is the
first after it in the scope, and the duplicates of a down stay ongoing. -/
structure IncidentsPaired (events : List AlertEvent) : Prop where
  unordered : ∀ events' : List AlertEvent, events'.Perm events → ∀ id,
    (pairIncidentDurations events').lookup id = (pairIncidentDurations events).lookup id
  openers : ∀ id, ((pairIncidentDurations events).lookup id).isSome = true ↔
    ∃ e ∈ events, e.id = id ∧ isOpener e = true ∧ (incidentScopeKey e).isSome = true
  once : ∀ id id' ms ms' r,
    (pairIncidentDurations events).lookup id = some (.paired ms r) →
      (pairIncidentDurations events).lookup id' = some (.paired ms' r) → id = id'
  closes : ∀ key, ∀ d ∈ inScope events key, ∀ ms r,
    (pairIncidentDurations events).lookup d.id = some (.paired ms r) →
      ∃ e ∈ inScope events key, e.id = r ∧ isOpener e = false ∧ Before d e ∧
        ms = getTime e - getTime d ∧ Pairing.First Before isOpener (inScope events key) d e
  duplicates : ∀ key c d, Pairing.Repeated Before isOpener (inScope events key) c d →
    (pairIncidentDurations events).lookup d.id = some .ongoing

/-- Some scope has two downs without a recovery between them, and two recoveries behind them. -/
def HeldOver (events : List AlertEvent) : Prop :=
  ∃ key, Pairing.Relapse Before isOpener (inScope events key)

theorem relapse_ascending_iff :
    Pairing.Relapse Before isOpener (ascending events key) ↔
      Pairing.Relapse Before isOpener (inScope events key) := by
  simp only [Pairing.Relapse, Pairing.Repeated, mem_ascending]

theorem repeated_ascending_iff :
    Pairing.Repeated Before isOpener (ascending events key) a b ↔
      Pairing.Repeated Before isOpener (inScope events key) a b := by
  simp only [Pairing.Repeated, mem_ascending]

theorem first_ascending_iff :
    Pairing.First Before isOpener (ascending events key) a b ↔
      Pairing.First Before isOpener (inScope events key) a b := by
  simp only [Pairing.First, mem_ascending]

section Promise

variable (hids : (events.map AlertEvent.id).Nodup)

include hids

/-- The durations do not depend on the order of the events. -/
theorem lookup_eq_of_perm (h : events'.Perm events) (id : ℕ) :
    (pairIncidentDurations events').lookup id = (pairIncidentDurations events).lookup id := by
  have hids' : (events'.map AlertEvent.id).Nodup := (h.map _).nodup_iff.mpr hids
  ext v
  rw [lookup_eq_some_iff hids, lookup_eq_some_iff hids']
  simp only [ascending_eq_of_perm hids h]

/-- The downs of the scopes have a duration, and nothing else has. -/
theorem isSome_lookup_iff : ((pairIncidentDurations events).lookup id).isSome = true ↔
    ∃ e ∈ events, e.id = id ∧ isOpener e = true ∧ (incidentScopeKey e).isSome = true := by
  rw [Option.isSome_iff_exists]
  constructor
  · rintro ⟨v, hv⟩
    obtain ⟨key, hmem⟩ := (lookup_eq_some_iff hids).mp hv
    obtain ⟨e, he, hopener, hid⟩ := exists_of_mem_entries hmem
    obtain ⟨hevent, hkey⟩ := mem_inScope.mp he
    exact ⟨e, hevent, hid, hopener, by simp [hkey]⟩
  · rintro ⟨e, hevent, rfl, hopener, hscope⟩
    obtain ⟨key, hkey⟩ := Option.isSome_iff_exists.mp hscope
    have he : e ∈ ascending events key := mem_ascending.mpr (mem_inScope.mpr ⟨hevent, hkey⟩)
    have hid : e.id ∈ (entries [] (ascending events key)).map Prod.fst := by
      rw [map_fst_entries]
      exact List.mem_map_of_mem (List.mem_filter.mpr ⟨he, hopener⟩)
    obtain ⟨⟨_, v⟩, hmem, heq⟩ := List.mem_map.mp hid
    exact ⟨v, (lookup_eq_some_iff hids).mpr ⟨key, heq ▸ hmem⟩⟩

/-- A recovery closes one down at most. -/
theorem closed_once {id' : ℕ} {ms' : ℤ}
    (h : (pairIncidentDurations events).lookup id = some (.paired ms r))
    (h' : (pairIncidentDurations events).lookup id' = some (.paired ms' r)) : id = id' := by
  obtain ⟨key, d, e, hpair, rfl, rfl, -⟩ := (lookup_paired_iff hids).mp h
  obtain ⟨key', d', e', hpair', rfl, hid, -⟩ := (lookup_paired_iff hids).mp h'
  have hsorted := pairwise_ascending hids key
  have he := mem_inScope.mp (mem_ascending.mp (Pairing.pair_spec hsorted hpair).2.1)
  have he' := mem_inScope.mp (mem_ascending.mp
    (Pairing.pair_spec (pairwise_ascending hids key') hpair').2.1)
  obtain rfl := eq_of_id_eq hids he'.1 he.1 hid
  obtain rfl := Option.some.inj (he.2.symm.trans he'.2)
  exact congrArg AlertEvent.id (Pairing.closed_unique hsorted hpair hpair')

/-- What is said of a down by its pair. -/
theorem lookup_of_pair (hpair : (a, b) ∈ Pairing.pairs isOpener [] (ascending events key)) :
    (pairIncidentDurations events).lookup a.id = some (.paired (getTime b - getTime a) b.id) := by
  have hbefore := (Pairing.pair_spec (pairwise_ascending hids key) hpair).2.2.2.2
  have hms : max 0 (getTime b - getTime a) = getTime b - getTime a :=
    max_eq_right (Int.sub_nonneg.mpr (getTime_le_of_before hbefore))
  exact (lookup_paired_iff hids).mpr ⟨key, a, b, hpair, rfl, rfl, hms⟩

/-- A down of a scope that has a span is a pair of the scope. -/
theorem exists_pair_of_lookup (ha : a ∈ inScope events key)
    (h : (pairIncidentDurations events).lookup a.id = some (.paired ms r)) :
    ∃ e, (a, e) ∈ Pairing.pairs isOpener [] (ascending events key) ∧ e.id = r ∧
      ms = getTime e - getTime a := by
  obtain ⟨key', d, e, hpair, hid, rfl, hms⟩ := (lookup_paired_iff hids).mp h
  have hspec := Pairing.pair_spec (pairwise_ascending hids key') hpair
  have hd := mem_inScope.mp (mem_ascending.mp hspec.1)
  rw [mem_inScope] at ha
  obtain rfl := eq_of_id_eq hids hd.1 ha.1 hid
  obtain rfl := Option.some.inj (hd.2.symm.trans ha.2)
  refine ⟨e, hpair, rfl, hms.symm.trans (max_eq_right ?_)⟩
  exact Int.sub_nonneg.mpr (getTime_le_of_before hspec.2.2.2.2)

/-- A down of a scope is ongoing when the scope leaves it open. -/
theorem lookup_ongoing_of_mem (ha : a ∈ inScope events key) :
    (pairIncidentDurations events).lookup a.id = some .ongoing ↔
      a ∈ Pairing.left isOpener [] (ascending events key) := by
  rw [lookup_ongoing_iff hids]
  constructor
  · rintro ⟨key', d, hd, hid⟩
    have hmem := mem_inScope.mp (mem_ascending.mp (Pairing.mem_of_mem_left hd))
    rw [mem_inScope] at ha
    obtain rfl := eq_of_id_eq hids hmem.1 ha.1 hid
    obtain rfl := Option.some.inj (hmem.2.symm.trans ha.2)
    exact hd
  · exact fun hleft => ⟨key, a, hleft, rfl⟩

/-- **Incident durations.** Over events with distinct ids the durations keep their promise
exactly when no scope has two downs without a recovery between them and two recoveries after
them: the second recovery then takes over a duplicate that the first outage left open. -/
theorem incidentsPaired_iff : IncidentsPaired events ↔ ¬ HeldOver events := by
  constructor
  · -- with a relapse the queue cannot pair soundly, though both promises say it does
    rintro h ⟨key, hrelapse⟩
    apply (Pairing.sound_iff (pairwise_ascending hids key)).mp _ (relapse_ascending_iff.mpr hrelapse)
    constructor
    · intro d e hpair
      have hspec := Pairing.pair_spec (pairwise_ascending hids key) hpair
      obtain ⟨e', he', hid, -, -, -, hfirst⟩ :=
        h.closes key d (mem_ascending.mp hspec.1) _ _ (lookup_of_pair hids hpair)
      have hmem := mem_inScope.mp (mem_ascending.mp hspec.2.1)
      obtain rfl := eq_of_id_eq hids (mem_inScope.mp he').1 hmem.1 hid
      exact first_ascending_iff.mpr hfirst
    · intro c d hrep
      rw [repeated_ascending_iff] at hrep
      exact (lookup_ongoing_of_mem hids hrep.2.1).mp (h.duplicates key c d hrep)
  · intro hno
    have hsound : ∀ key, ¬ Pairing.Relapse Before isOpener (ascending events key) :=
      fun key hrelapse => hno ⟨key, relapse_ascending_iff.mp hrelapse⟩
    refine ⟨fun _ => lookup_eq_of_perm hids, fun _ => isSome_lookup_iff hids,
      fun _ _ _ _ _ => closed_once hids, ?_, ?_⟩
    · intro key d hd ms r hlookup
      obtain ⟨e, hpair, hid, hms⟩ := exists_pair_of_lookup hids hd hlookup
      have hsorted := pairwise_ascending hids key
      obtain ⟨-, he, -, hcloser, hbefore⟩ := Pairing.pair_spec hsorted hpair
      refine ⟨e, mem_ascending.mp he, hid, hcloser, hbefore, hms, first_ascending_iff.mp ?_⟩
      exact Pairing.first_of_not_relapse hsorted (hsound key) hpair
    · intro key c d hrep
      apply (lookup_ongoing_of_mem hids hrep.2.1).mpr
      exact Pairing.mem_left_of_not_relapse (pairwise_ascending hids key) (hsound key)
        (repeated_ascending_iff.mpr hrep)

end Promise

/-- Events of one endpoint, a second apart: their ids are their times. -/
def endpointEvent (kind : AlertKind) (id : ℕ) : AlertEvent :=
  ⟨id, some 7, kind, true, id * 1000000000, none⟩

/-- An outage that was reported twice. -/
def reportedTwice : List AlertEvent :=
  [endpointEvent .down 1, endpointEvent .down 2, endpointEvent .recovered 3]

theorem incidentsPaired_reportedTwice : IncidentsPaired reportedTwice := by
  apply (incidentsPaired_iff (by decide)).mpr
  rintro ⟨key, c, d, -, r, hr, s, hs, hrec, hrec', -, hbefore⟩
  -- there is one recovery only
  have hone : ∀ e ∈ reportedTwice, isOpener e = false → e = endpointEvent .recovered 3 := by decide
  rw [hone r (mem_inScope.mp hr).1 hrec, hone s (mem_inScope.mp hs).1 hrec'] at hbefore
  exact absurd hbefore (by decide)

/-- A second outage after the one that was reported twice. -/
def secondOutage : List AlertEvent :=
  reportedTwice ++ [endpointEvent .down 4, endpointEvent .recovered 5]

/-- The duplicate takes the recovery of the second outage, and the down of the second outage
reads as ongoing. -/
theorem not_incidentsPaired_secondOutage :
    (secondOutage.map AlertEvent.id).Nodup ∧ ¬ IncidentsPaired secondOutage ∧
      (pairIncidentDurations secondOutage).lookup 2 = some (.paired 3000 5) ∧
      (pairIncidentDurations secondOutage).lookup 4 = some .ongoing := by
  have hlookup : (pairIncidentDurations secondOutage).lookup 2 = some (.paired 3000 5) := by decide
  refine ⟨by decide, fun h => ?_, hlookup, by decide⟩
  obtain ⟨e, he, hid, -, -, -, hfirst⟩ :=
    h.closes (.endpoint 7) (endpointEvent .down 2) (by decide) 3000 5 hlookup
  have heq : e = endpointEvent .recovered 5 := by
    have hone : ∀ e ∈ secondOutage, e.id = 5 → e = endpointEvent .recovered 5 := by decide
    exact hone e (mem_inScope.mp he).1 hid
  rw [heq] at hfirst
  exact hfirst (endpointEvent .recovered 3) (by decide) (by decide) (by decide) (by decide)

end AlertTimeline

end HubScope
