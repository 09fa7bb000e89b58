import HubScope.Lib.Transition
import HubScope.Store.Probes
import HubScope.Lib.LastWins
import Mathlib.Tactic.NormNum

/-!
# The series of an endpoint over rollups and retention

The stored buckets of an endpoint are those of all probes it ever had, up to its watermark; from
the watermark on no raw probe is missing. So the series is the one of the whole history,
whenever the rollups ran and whatever retention deleted before the watermark, as long as no
probe is created before the cutoff of a rollup that already ran.

## Main definitions

* `ProbeHistory`, `probeStep` — the tables and all probes ever created
* `Timely` — creations after the rollups, deletions before the watermarks
* `Rolled` — the invariant of the tables
* `seriesOf` — the series of a list of probes

## Main results

* `rolled_of_reach` — the invariant over every run
* `getSeries_eq` — the series of the tables is the series of the history
* `p50Ms_le_p95Ms_of_reach` — a bucket's median latency is at most its 95th percentile
* `getSeries_of_reach` — rollups and deletions do not change a series
-/

set_option autoImplicit false

namespace HubScope

/-! ### Hours -/

theorem hourOf_le (t : ℕ) : hourOf t ≤ t := Nat.div_mul_le_self t 3600

@[simp] theorem hourOf_hourOf (t : ℕ) : hourOf (hourOf t) = hourOf t := by
  unfold hourOf
  omega

/-- Against the start of an hour a time and its hour compare alike. -/
theorem le_hourOf_iff {w t : ℕ} (hw : hourOf w = w) : w ≤ hourOf t ↔ w ≤ t := by
  unfold hourOf at *
  omega

/-! ### Buckets of a list of probes -/

theorem foldl_add (ps : List Probe) (a : BucketAgg) : ps.foldl BucketAgg.add a =
    ⟨a.total + ps.length, a.failures + ps.countP (!·.ok),
      a.latencies ++ (ps.filter (·.ok)).map (·.latencyMs),
      a.ttftSum + (ps.map (·.ttftMs.getD 0)).sum, a.ttftCount + ps.countP (·.ttftMs.isSome)⟩ := by
  induction ps generalizing a with
  | nil => simp
  | cons p ps ih =>
    rw [List.foldl_cons, ih]
    cases hok : p.ok <;> cases httft : p.ttftMs <;>
      simp [BucketAgg.add, hok, httft, Nat.add_assoc, Nat.add_comm 1, Int.add_assoc]

theorem aggregate_eq (ps : List Probe) : aggregate ps =
    ⟨ps.length, ps.countP (!·.ok), (ps.filter (·.ok)).map (·.latencyMs),
      (ps.map (·.ttftMs.getD 0)).sum, ps.countP (·.ttftMs.isSome)⟩ := by
  rw [aggregate, foldl_add]
  simp [BucketAgg.empty]

theorem combineAggs_aggregate (ps qs : List Probe) :
    combineAggs (aggregate ps) (aggregate qs) = aggregate (ps ++ qs) := by
  simp [aggregate_eq, combineAggs]

/-- A bucket reads its probes as a multiset. -/
theorem build_aggregate_perm {ps qs : List Probe} (h : ps.Perm qs) (start : ℕ) :
    (aggregate ps).build start = (aggregate qs).build start := by
  have hlatencies : ((ps.filter (·.ok)).map (·.latencyMs)).Perm
      ((qs.filter (·.ok)).map (·.latencyMs)) := (h.filter _).map _
  have hnil : (ps.filter (·.ok)).map (·.latencyMs) = [] ↔
      (qs.filter (·.ok)).map (·.latencyMs) = [] := by
    rw [← List.length_eq_zero_iff, ← List.length_eq_zero_iff, hlatencies.length_eq]
  simp only [aggregate_eq, BucketAgg.build, h.length_eq, h.countP_eq, (h.map _).sum_eq, hnil,
    percentile_perm hlatencies]

theorem foldl_pair (ps : List Probe) (pair : BucketPair) : ps.foldl BucketPair.add pair =
    ⟨(ps.filter (·.streaming)).foldl BucketAgg.add pair.streaming,
      (ps.filter (!·.streaming)).foldl BucketAgg.add pair.nonStreaming⟩ := by
  induction ps generalizing pair with
  | nil => rfl
  | cons p ps ih =>
    rw [List.foldl_cons, ih]
    cases hs : p.streaming <;> simp [BucketPair.add, hs]

/-- The bucket a mode stores of the probes of one endpoint and hour. -/
theorem mem_rows {ps : List Probe} {endpointId start : ℕ} {row : RollupKey × SeriesBucket} :
    row ∈ (ps.foldl BucketPair.add ⟨.empty, .empty⟩).rows endpointId start ↔
      ∃ mode : RollupMode, ps.filter mode.covers ≠ [] ∧
        row = (⟨endpointId, mode, start⟩, (aggregate (ps.filter mode.covers)).build start) := by
  have htotal : ∀ qs : List Probe, (aggregate qs).total = 0 ↔ qs = [] := by
    intro qs
    rw [aggregate_eq]
    exact List.length_eq_zero_iff
  -- both streaming modes together are the probes of the combined mode
  have hperm : (ps.filter (·.streaming) ++ ps.filter (!·.streaming)).Perm
      (ps.filter RollupMode.combined.covers) := by
    have hall : ps.filter RollupMode.combined.covers = ps :=
      List.filter_eq_self.mpr fun _ _ => rfl
    rw [hall]
    exact List.filter_append_perm _ ps
  have hnil : ps.filter (·.streaming) ++ ps.filter (!·.streaming) = [] ↔
      ps.filter RollupMode.combined.covers = [] := by
    rw [← List.length_eq_zero_iff, ← List.length_eq_zero_iff, hperm.length_eq]
  rw [foldl_pair]
  change row ∈ BucketPair.rows ⟨aggregate _, aggregate _⟩ endpointId start ↔ _
  simp only [BucketPair.rows, combineAggs_aggregate, List.mem_filterMap, List.mem_cons,
    List.not_mem_nil, or_false]
  constructor
  · rintro ⟨⟨mode, agg⟩, (heq | heq | heq), hrow⟩ <;> obtain ⟨rfl, rfl⟩ := Prod.mk.inj heq <;>
      simp only [htotal, Option.ite_none_left_eq_some, Option.some.injEq] at hrow <;>
      obtain ⟨hne, rfl⟩ := hrow
    · exact ⟨.streaming, hne, rfl⟩
    · exact ⟨.nonStreaming, hne, rfl⟩
    · exact ⟨.combined, fun h => hne (hnil.mpr h), by rw [build_aggregate_perm hperm]⟩
  · rintro ⟨mode, hne, rfl⟩
    cases mode with
    | streaming => exact ⟨_, .inl rfl, if_neg (mt (htotal _).mp hne)⟩
    | nonStreaming => exact ⟨_, .inr (.inl rfl), if_neg (mt (htotal _).mp hne)⟩
    | combined =>
      refine ⟨_, .inr (.inr rfl), (if_neg fun h => hne (hnil.mp ((htotal _).mp h))).trans ?_⟩
      rw [build_aggregate_perm hperm]

/-! ### The history -/

/-- The tables, all probes ever created, and the latest cutoff of a rollup that ran. -/
structure ProbeHistory where
  store : ProbeStore
  history : List Probe
  horizon : ℕ

/-- A prober creates a probe, or the rollup worker rolls up or deletes. -/
inductive ProbeLabel
  | create (p : Probe)
  | rollup (cutoff : ℕ)
  | delete (cutoff : ℕ)

/-- One store call on the probe tables. -/
def probeStep (s : ProbeHistory) : ProbeLabel → Option ProbeHistory
  | .create p => some { s with store := s.store.createProbe p, history := s.history ++ [p] }
  | .rollup cutoff =>
    some { s with
      store := (s.store.rollupProbesBefore cutoff).1
      horizon := max s.horizon (hourOf cutoff) }
  | .delete cutoff => some { s with store := s.store.deleteProbesBefore cutoff }

/-- No probe is created before the cutoff of a rollup that ran, and no probe is deleted at or
after its endpoint's watermark. -/
def Timely (s : ProbeHistory) : ProbeLabel → Prop
  | .create p => s.horizon ≤ p.createdAt
  | .rollup _ => True
  | .delete cutoff =>
    ∀ p ∈ s.store.probes, p.createdAt < cutoff → p.createdAt < s.store.watermark p.endpointId

instance (s : ProbeHistory) (a : ProbeLabel) : Decidable (Timely s a) := by
  cases a <;> unfold Timely <;> infer_instance

/-- Fresh tables. -/
def ProbeHistory.empty : ProbeHistory := ⟨⟨[], ∅, ∅⟩, [], 0⟩

/-- The probes of an endpoint's hour that a mode covers. -/
def groupOf (history : List Probe) (endpointId : ℕ) (mode : RollupMode) (start : ℕ) :
    List Probe :=
  history.filter fun p => p.endpointId = endpointId ∧ hourOf p.createdAt = start ∧ mode.covers p

/-- The probe is at or after its endpoint's watermark. -/
def ProbeStore.live (st : ProbeStore) (p : Probe) : Bool :=
  st.watermark p.endpointId ≤ p.createdAt

/-- The tables hold the history: every hour before the watermark as a stored bucket, and every
probe from the watermark on. -/
structure Rolled (s : ProbeHistory) : Prop where
  aligned : ∀ e, hourOf (s.store.watermark e) = s.store.watermark e
  horizon : ∀ e, s.store.watermark e ≤ s.horizon
  raw : s.store.probes.filter s.store.live = s.history.filter s.store.live
  stored : ∀ e mode start, s.store.rollups.lookup ⟨e, mode, start⟩ =
    if start < s.store.watermark e ∧ groupOf s.history e mode start ≠ [] then
      some ((aggregate (groupOf s.history e mode start)).build start)
    else none

/-! ### Steps -/

variable {s s' t : ProbeHistory}

theorem mem_pending {st : ProbeStore} {cutoff : ℕ} {p : Probe} : p ∈ st.pending cutoff ↔
    p ∈ st.probes ∧ p.createdAt < cutoff ∧ st.watermark p.endpointId ≤ p.createdAt := by
  simp [ProbeStore.pending]

/-- The pending probes of an hour between the watermark and the cutoff are its probes. -/
theorem groupOf_pending (h : Rolled s) {cutoff : ℕ} (hcutoff : hourOf cutoff = cutoff)
    (e : ℕ) (mode : RollupMode) (start : ℕ) :
    groupOf (s.store.pending cutoff) e mode start =
      if s.store.watermark e ≤ start ∧ start < cutoff then groupOf s.history e mode start
      else [] := by
  have hpending : s.store.pending cutoff =
      (s.history.filter s.store.live).filter fun p => p.createdAt < cutoff := by
    rw [← h.raw, ProbeStore.pending, List.filter_filter]
    refine List.filter_congr fun p _ => ?_
    simp [ProbeStore.live]
  rw [hpending, groupOf, groupOf, List.filter_filter, List.filter_filter]
  split_ifs with hstart
  · refine List.filter_congr fun p _ => ?_
    rw [Bool.eq_iff_iff]
    simp only [ProbeStore.live, Bool.and_eq_true, decide_eq_true_eq]
    constructor
    · exact fun hp => hp.1.1
    · rintro ⟨rfl, rfl, hcovers⟩
      have hle := hourOf_le p.createdAt
      have hlt := (le_hourOf_iff (t := p.createdAt) hcutoff).not
      exact ⟨⟨⟨rfl, rfl, hcovers⟩, by omega⟩, by omega⟩
  · refine List.filter_eq_nil_iff.mpr fun p _ => ?_
    simp only [ProbeStore.live, Bool.and_eq_true, decide_eq_true_eq]
    rintro ⟨⟨⟨rfl, rfl, -⟩, hlt⟩, hlive⟩
    have hle := hourOf_le p.createdAt
    exact hstart ⟨(le_hourOf_iff (h.aligned _)).mpr hlive, by omega⟩

/-- A rollup moves the watermark of the endpoints that have pending probes. -/
theorem watermark_rollup (st : ProbeStore) (cutoff e : ℕ) :
    (st.rollupProbesBefore cutoff).1.watermark e =
      if ∃ p ∈ st.pending (hourOf cutoff), p.endpointId = e then hourOf cutoff
      else st.watermark e := by
  have hfold : ((st.pendingGroups (hourOf cutoff)).foldl
      (fun w group => w.insert group.1.1 (hourOf cutoff)) st.watermarks) =
      (((st.pendingGroups (hourOf cutoff)).map fun group => (group.1.1, hourOf cutoff)).foldl
        (fun t row => t.insert row.1 row.2) st.watermarks) := by
    rw [List.foldl_map]
  have hcutoff : ∀ row ∈ (st.pendingGroups (hourOf cutoff)).map
      fun group => (group.1.1, hourOf cutoff), row.1 = e → row.2 = hourOf cutoff := by
    intro row hrow _
    obtain ⟨group, -, rfl⟩ := List.mem_map.mp hrow
    rfl
  have hmem : e ∈ ((st.pendingGroups (hourOf cutoff)).map
      fun group => (group.1.1, hourOf cutoff)).map Prod.fst ↔
        ∃ p ∈ st.pending (hourOf cutoff), p.endpointId = e := by
    simp only [ProbeStore.pendingGroups, List.map_map, List.mem_map, Function.comp_apply]
    constructor
    · rintro ⟨⟨key, ps⟩, hgroup, rfl⟩
      obtain ⟨⟨p, hp, rfl⟩, -⟩ := Grouping.mem_group.mp hgroup
      exact ⟨p, hp, rfl⟩
    · rintro ⟨p, hp, rfl⟩
      exact ⟨_, Grouping.mem_group.mpr ⟨⟨p, hp, rfl⟩, rfl⟩, rfl⟩
  unfold ProbeStore.watermark ProbeStore.rollupProbesBefore
  dsimp only
  rw [hfold, lookup_foldl_insert _ _ hcutoff]
  simp only [hmem]
  split_ifs
  · rfl
  · rfl

/-- The rows a rollup stores. -/
theorem mem_rollup_rows {st : ProbeStore} {cutoff : ℕ} {row : RollupKey × SeriesBucket} :
    (row ∈ (st.pendingGroups cutoff).flatMap fun x => x.2.rows x.1.1 x.1.2) ↔
      groupOf (st.pending cutoff) row.1.endpointId row.1.mode row.1.bucketStart ≠ [] ∧
        row.2 = (aggregate (groupOf (st.pending cutoff) row.1.endpointId row.1.mode
          row.1.bucketStart)).build row.1.bucketStart := by
  have hgroup : ∀ e start (mode : RollupMode),
      ((st.pending cutoff).filter fun p => (p.endpointId, hourOf p.createdAt) = (e, start)).filter
        mode.covers = groupOf (st.pending cutoff) e mode start := by
    intro e start mode
    rw [List.filter_filter, groupOf]
    refine List.filter_congr fun p _ => ?_
    rw [Bool.eq_iff_iff]
    simp only [Prod.mk.injEq, Bool.and_eq_true, decide_eq_true_eq]
    constructor
    · rintro ⟨hcovers, he, hstart⟩
      exact ⟨he, hstart, hcovers⟩
    · rintro ⟨he, hstart, hcovers⟩
      exact ⟨hcovers, he, hstart⟩
  simp only [ProbeStore.pendingGroups, List.flatMap_map, List.mem_flatMap]
  constructor
  · rintro ⟨⟨⟨e, start⟩, ps⟩, hmem, hrow⟩
    obtain ⟨-, rfl⟩ := Grouping.mem_group.mp hmem
    obtain ⟨mode, hne, rfl⟩ := mem_rows.mp hrow
    rw [hgroup] at hne
    refine ⟨hne, ?_⟩
    rw [hgroup]
  · obtain ⟨⟨e, mode, start⟩, b⟩ := row
    rintro ⟨hne, heq⟩
    obtain ⟨p, hp⟩ := List.exists_mem_of_ne_nil _ hne
    obtain ⟨hmem, hin⟩ := List.mem_filter.mp hp
    obtain ⟨he, hstart, -⟩ := of_decide_eq_true hin
    refine ⟨((e, start), _), Grouping.mem_group.mpr ⟨⟨p, hmem, Prod.ext he hstart⟩, rfl⟩,
      mem_rows.mpr ⟨mode, ?_, ?_⟩⟩
    · rw [hgroup]
      exact hne
    · rw [hgroup]
      exact Prod.ext rfl heq

/-- A rollup stores the buckets of the pending probes over the old ones. -/
theorem lookup_rollup (st : ProbeStore) (cutoff e : ℕ) (mode : RollupMode) (start : ℕ) :
    (st.rollupProbesBefore cutoff).1.rollups.lookup ⟨e, mode, start⟩ =
      if groupOf (st.pending (hourOf cutoff)) e mode start ≠ [] then
        some ((aggregate (groupOf (st.pending (hourOf cutoff)) e mode start)).build start)
      else st.rollups.lookup ⟨e, mode, start⟩ := by
  set rows := (st.pendingGroups (hourOf cutoff)).flatMap fun x => x.2.rows x.1.1 x.1.2
  have hrows : ∀ row ∈ rows, row.1 = ⟨e, mode, start⟩ → row.2 =
      (aggregate (groupOf (st.pending (hourOf cutoff)) e mode start)).build start := by
    rintro ⟨key, b⟩ hrow rfl
    exact (mem_rollup_rows.mp hrow).2
  have hmem : (⟨e, mode, start⟩ : RollupKey) ∈ rows.map Prod.fst ↔
      groupOf (st.pending (hourOf cutoff)) e mode start ≠ [] := by
    rw [List.mem_map]
    constructor
    · rintro ⟨⟨key, b⟩, hrow, rfl⟩
      exact (mem_rollup_rows.mp hrow).1
    · intro hne
      have hrow : ((⟨e, mode, start⟩ : RollupKey),
          (aggregate (groupOf (st.pending (hourOf cutoff)) e mode start)).build start) ∈ rows :=
        mem_rollup_rows.mpr ⟨hne, rfl⟩
      exact ⟨_, hrow, rfl⟩
  refine (lookup_foldl_insert rows st.rollups hrows).trans ?_
  simp only [hmem]

theorem rolled_rollup (h : Rolled s) (cutoff : ℕ)
    (hstep : probeStep s (.rollup cutoff) = some s') : Rolled s' := by
  cases hstep
  have hcutoff := hourOf_hourOf cutoff
  have hwatermark := watermark_rollup s.store cutoff
  set st' := (s.store.rollupProbesBefore cutoff).1 with hst'
  have hle : ∀ e, s.store.watermark e ≤ st'.watermark e := by
    intro e
    rw [hwatermark]
    split_ifs with hpending
    · obtain ⟨p, hp, rfl⟩ := hpending
      obtain ⟨-, hlt, hge⟩ := mem_pending.mp hp
      omega
    · exact le_rfl
  refine ⟨fun e => ?_, fun e => ?_, ?_, fun e mode start => ?_⟩
  · rw [hwatermark]
    split_ifs
    · exact hcutoff
    · exact h.aligned e
  · rw [hwatermark]
    split_ifs
    · exact le_max_right _ _
    · exact (h.horizon e).trans (le_max_left _ _)
  · -- the probes from the new watermark on are among those from the old one on
    have hlive : ∀ ps : List Probe,
        ps.filter st'.live = (ps.filter s.store.live).filter st'.live := by
      intro ps
      rw [List.filter_filter]
      refine List.filter_congr fun p _ => ?_
      rw [Bool.eq_iff_iff]
      simp only [ProbeStore.live, Bool.and_eq_true, decide_eq_true_eq]
      have hp := hle p.endpointId
      omega
    change s.store.probes.filter st'.live = s.history.filter st'.live
    rw [hlive, h.raw, ← hlive]
  · change st'.rollups.lookup ⟨e, mode, start⟩ =
      if start < st'.watermark e ∧ groupOf s.history e mode start ≠ [] then _ else _
    have hpending := groupOf_pending h hcutoff e mode start
    rw [hst', lookup_rollup, h.stored, ← hst', hwatermark]
    by_cases hgroup : groupOf (s.store.pending (hourOf cutoff)) e mode start = []
    · -- no pending probe in the hour, so its bucket is the old one or there is none
      rw [if_neg (not_not.mpr hgroup)]
      rw [hgroup] at hpending
      by_cases hmoved : ∃ p ∈ s.store.pending (hourOf cutoff), p.endpointId = e
      · rw [if_pos hmoved]
        obtain ⟨p, hp, rfl⟩ := hmoved
        obtain ⟨-, hlt, hge⟩ := mem_pending.mp hp
        by_cases hold : start < s.store.watermark p.endpointId
        · have hnew : start < hourOf cutoff := by omega
          simp only [hold, hnew, true_and]
        · rw [if_neg fun hand => hold hand.1]
          by_cases hnew : start < hourOf cutoff
          · rw [if_pos ⟨by omega, hnew⟩] at hpending
            rw [if_neg fun hand => hand.2 hpending.symm]
          · rw [if_neg fun hand => hnew hand.1]
      · rw [if_neg hmoved]
    · rw [if_pos hgroup]
      obtain ⟨p, hp⟩ := List.exists_mem_of_ne_nil _ hgroup
      obtain ⟨hmem, hin⟩ := List.mem_filter.mp hp
      obtain ⟨he, -, -⟩ := of_decide_eq_true hin
      by_cases hbetween : s.store.watermark e ≤ start ∧ start < hourOf cutoff
      · rw [if_pos hbetween] at hpending
        have hmoved : ∃ p ∈ s.store.pending (hourOf cutoff), p.endpointId = e := ⟨p, hmem, he⟩
        simp only [if_pos hmoved]
        rw [hpending, if_pos ⟨hbetween.2, hpending ▸ hgroup⟩]
      · rw [if_neg hbetween] at hpending
        exact absurd hpending hgroup

/-- A probe created after the rollups belongs to no stored hour. -/
theorem rolled_create (h : Rolled s) {p : Probe} (hp : Timely s (.create p))
    (hstep : probeStep s (.create p) = some s') : Rolled s' := by
  cases hstep
  have hlate : s.store.watermark p.endpointId ≤ p.createdAt := (h.horizon _).trans hp
  refine ⟨h.aligned, h.horizon, ?_, fun e mode start => ?_⟩
  · change (s.store.probes ++ [p]).filter s.store.live = (s.history ++ [p]).filter s.store.live
    rw [List.filter_append, List.filter_append, h.raw]
  · refine (h.stored e mode start).trans ?_
    change _ = if start < s.store.watermark e ∧ groupOf (s.history ++ [p]) e mode start ≠ [] then
      some ((aggregate (groupOf (s.history ++ [p]) e mode start)).build start) else none
    by_cases hstart : start < s.store.watermark e
    · have hgroup : groupOf (s.history ++ [p]) e mode start = groupOf s.history e mode start := by
        rw [groupOf, List.filter_append]
        refine (congrArg _ (List.filter_eq_nil_iff.mpr fun q hq => ?_)).trans (List.append_nil _)
        obtain rfl := List.mem_singleton.mp hq
        rw [decide_eq_true_eq]
        rintro ⟨rfl, rfl, -⟩
        exact absurd ((le_hourOf_iff (h.aligned _)).mpr hlate) (by omega)
      simp only [hgroup]
    · rw [if_neg fun hand => hstart hand.1, if_neg fun hand => hstart hand.1]

/-- Deleting probes before their watermark takes none of the tail. -/
theorem rolled_delete (h : Rolled s) {cutoff : ℕ} (hcutoff : Timely s (.delete cutoff))
    (hstep : probeStep s (.delete cutoff) = some s') : Rolled s' := by
  cases hstep
  refine ⟨h.aligned, h.horizon, ?_, h.stored⟩
  change (s.store.probes.filter fun p => cutoff ≤ p.createdAt).filter s.store.live =
    s.history.filter s.store.live
  rw [← h.raw, List.filter_filter]
  refine List.filter_congr fun p hp => ?_
  rw [Bool.eq_iff_iff]
  simp only [ProbeStore.live, Bool.and_eq_true, decide_eq_true_eq]
  have hold := hcutoff p hp
  omega

theorem rolled_step (h : Rolled s) {a : ProbeLabel} (ha : Timely s a)
    (hstep : probeStep s a = some s') : Rolled s' := by
  cases a with
  | create p => exact rolled_create h ha hstep
  | rollup cutoff => exact rolled_rollup h cutoff hstep
  | delete cutoff => exact rolled_delete h ha hstep

theorem rolled_empty : Rolled .empty where
  aligned e := by
    change hourOf 0 = 0
    rfl
  horizon e := le_rfl
  raw := rfl
  stored e mode start := by
    rw [if_neg fun hand => hand.2 rfl]
    rfl

/-- **Rollup invariant.** The tables hold the history in every state. -/
theorem rolled_of_reach (h : Transition.Reach probeStep Timely .empty s) : Rolled s :=
  h.invariant rolled_empty fun _ _ _ ht ha hstep => rolled_step ht ha hstep

/-! ### Series -/

/-- The series of a list of probes: a bucket for each hour that has one. -/
def seriesOf (history : List Probe) (endpointId since : ℕ) (mode : SeriesMode) :
    List SeriesBucket :=
  let rows := history.filter fun p => p.endpointId = endpointId ∧ mode.rollupMode.covers p
  let buckets := (Grouping.group (fun p => hourOf p.createdAt) rows).map fun (start, ps) =>
    (aggregate ps).build start
  (buckets.filter fun b => since ≤ b.bucketStart).insertionSort fun a b =>
    a.bucketStart ≤ b.bucketStart

/-- Two series with distinct hours and the same buckets are the same. -/
theorem eq_of_sorted {xs ys : List SeriesBucket}
    (hxs : xs.Pairwise fun a b => a.bucketStart ≤ b.bucketStart)
    (hys : ys.Pairwise fun a b => a.bucketStart ≤ b.bucketStart)
    (hxs' : (xs.map (·.bucketStart)).Nodup) (hys' : (ys.map (·.bucketStart)).Nodup)
    (h : ∀ b, b ∈ xs ↔ b ∈ ys) : xs = ys := by
  have hperm : xs.Perm ys := (List.perm_ext_iff_of_nodup hxs'.of_map hys'.of_map).mpr h
  refine hperm.eq_of_pairwise (fun a b ha hb hab hba => ?_) hxs hys
  exact List.inj_on_of_nodup_map hys' ((h a).mp ha) hb (Nat.le_antisymm hab hba)

theorem mem_groupBuckets {rows : List Probe} {b : SeriesBucket} :
    (b ∈ (Grouping.group (fun p => hourOf p.createdAt) rows).map fun (start, ps) =>
      (aggregate ps).build start) ↔
      (rows.filter fun p => hourOf p.createdAt = b.bucketStart) ≠ [] ∧
        b = (aggregate (rows.filter fun p => hourOf p.createdAt = b.bucketStart)).build
          b.bucketStart := by
  rw [List.mem_map]
  constructor
  · rintro ⟨⟨start, ps⟩, hgroup, rfl⟩
    obtain ⟨⟨p, hp, hstart⟩, rfl⟩ := Grouping.mem_group.mp hgroup
    exact ⟨List.ne_nil_of_mem (List.mem_filter.mpr ⟨hp, decide_eq_true hstart⟩), rfl⟩
  · rintro ⟨hne, heq⟩
    obtain ⟨p, hp⟩ := List.exists_mem_of_ne_nil _ hne
    obtain ⟨hmem, hstart⟩ := List.mem_filter.mp hp
    exact ⟨(b.bucketStart, _),
      Grouping.mem_group.mpr ⟨⟨p, hmem, of_decide_eq_true hstart⟩, rfl⟩, heq.symm⟩

theorem nodup_groupBuckets (rows : List Probe) :
    (((Grouping.group (fun p => hourOf p.createdAt) rows).map fun (start, ps) =>
      (aggregate ps).build start).map (·.bucketStart)).Nodup := by
  rw [List.map_map]
  exact Grouping.group_keys_nodup _ rows

/-- The buckets of the series of a list of probes. -/
theorem mem_seriesOf {history : List Probe} {e since : ℕ} {mode : SeriesMode}
    {b : SeriesBucket} : b ∈ seriesOf history e since mode ↔ since ≤ b.bucketStart ∧
      groupOf history e mode.rollupMode b.bucketStart ≠ [] ∧
      b = (aggregate (groupOf history e mode.rollupMode b.bucketStart)).build b.bucketStart := by
  have hgroup : (history.filter fun p => p.endpointId = e ∧ mode.rollupMode.covers p).filter
      (fun p => hourOf p.createdAt = b.bucketStart) =
        groupOf history e mode.rollupMode b.bucketStart := by
    rw [List.filter_filter, groupOf]
    refine List.filter_congr fun p _ => ?_
    rw [Bool.eq_iff_iff]
    simp only [Bool.and_eq_true, decide_eq_true_eq]
    constructor
    · rintro ⟨hstart, he, hcovers⟩
      exact ⟨he, hstart, hcovers⟩
    · rintro ⟨he, hstart, hcovers⟩
      exact ⟨hstart, he, hcovers⟩
  rw [seriesOf, List.mem_insertionSort, List.mem_filter, mem_groupBuckets, hgroup,
    decide_eq_true_eq]
  exact and_comm

/-- The stored buckets of an endpoint are those of its hours before the watermark. -/
theorem mem_storedBuckets (h : Rolled s) {e since : ℕ} {mode : SeriesMode} {b : SeriesBucket} :
    b ∈ s.store.storedBuckets e since mode ↔ since ≤ b.bucketStart ∧
      b.bucketStart < s.store.watermark e ∧
      groupOf s.history e mode.rollupMode b.bucketStart ≠ [] ∧
      b = (aggregate (groupOf s.history e mode.rollupMode b.bucketStart)).build b.bucketStart := by
  have hlookup : ∀ key b, ⟨key, b⟩ ∈ s.store.rollups.entries ↔
      s.store.rollups.lookup key = some b := fun key b => AList.mem_lookup_iff.symm
  simp only [ProbeStore.storedBuckets, List.mem_filterMap]
  constructor
  · rintro ⟨⟨⟨e', mode', start⟩, b'⟩, hmem, hrow⟩
    obtain ⟨⟨he, hmode, hsince⟩, hb⟩ := Option.ite_none_right_eq_some.mp hrow
    obtain rfl : e' = e := he
    obtain rfl : mode' = mode.rollupMode := hmode
    obtain rfl := Option.some.inj hb
    have hstored := (hlookup _ _).mp hmem
    rw [h.stored] at hstored
    obtain ⟨⟨hlt, hne⟩, heq⟩ := Option.ite_none_right_eq_some.mp hstored
    obtain rfl := Option.some.inj heq
    exact ⟨hsince, hlt, hne, rfl⟩
  · rintro ⟨hsince, hlt, hne, heq⟩
    refine ⟨⟨⟨e, mode.rollupMode, b.bucketStart⟩, b⟩, (hlookup _ _).mpr ?_, if_pos ⟨rfl, rfl, hsince⟩⟩
    rw [h.stored, if_pos ⟨hlt, hne⟩, ← heq]

/-- The raw buckets of an endpoint from an hour at or after the watermark on are those of its
hours. -/
theorem mem_rawBuckets (h : Rolled s) {e since : ℕ} {mode : SeriesMode} {b : SeriesBucket}
    (hsince : since ≤ b.bucketStart) :
    b ∈ s.store.rawBuckets e (max since (s.store.watermark e)) mode ↔
      s.store.watermark e ≤ b.bucketStart ∧
      groupOf s.history e mode.rollupMode b.bucketStart ≠ [] ∧
      b = (aggregate (groupOf s.history e mode.rollupMode b.bucketStart)).build b.bucketStart := by
  have hgroup : (s.store.probes.filter fun p => p.endpointId = e ∧
      max since (s.store.watermark e) ≤ p.createdAt ∧ mode.rollupMode.covers p).filter
        (fun p => hourOf p.createdAt = b.bucketStart) =
      if s.store.watermark e ≤ b.bucketStart then
        groupOf s.history e mode.rollupMode b.bucketStart else [] := by
    -- the rows an hour-aligned tail selects were never pruned, so the raw table and the history
    -- agree on them
    have hraw : ∀ q : Probe → Bool, (∀ p, q p = true → s.store.live p = true) →
        s.store.probes.filter q = s.history.filter q := by
      intro q hq
      have hfilter : ∀ ps : List Probe, ps.filter q = (ps.filter s.store.live).filter q := by
        intro ps
        rw [List.filter_filter]
        refine List.filter_congr fun p _ => ?_
        rw [Bool.eq_iff_iff, Bool.and_eq_true]
        exact ⟨fun hp => ⟨hp, hq p hp⟩, And.left⟩
      rw [hfilter, h.raw, ← hfilter]
    rw [List.filter_filter, hraw]
    · split_ifs with hwatermark
      · refine List.filter_congr fun p _ => ?_
        rw [Bool.eq_iff_iff]
        simp only [Bool.and_eq_true, decide_eq_true_eq]
        constructor
        · rintro ⟨hstart, he, -, hcovers⟩
          exact ⟨he, hstart, hcovers⟩
        · rintro ⟨he, hstart, hcovers⟩
          have hle := hourOf_le p.createdAt
          exact ⟨hstart, he, by omega, hcovers⟩
      · refine List.filter_eq_nil_iff.mpr fun p _ => ?_
        simp only [Bool.and_eq_true, decide_eq_true_eq]
        rintro ⟨hstart, rfl, htail, -⟩
        -- an hour below the watermark cannot hold a probe of the tail
        refine hwatermark (hstart ▸ (le_hourOf_iff (h.aligned _)).mpr ?_)
        exact (le_max_right _ _).trans htail
    · intro p hp
      simp only [Bool.and_eq_true, decide_eq_true_eq] at hp
      obtain ⟨-, rfl, htail, -⟩ := hp
      exact decide_eq_true ((le_max_right _ _).trans htail)
  rw [ProbeStore.rawBuckets, mem_groupBuckets, hgroup]
  split_ifs with hwatermark
  · exact ⟨fun hb => ⟨hwatermark, hb⟩, And.right⟩
  · exact ⟨fun hb => absurd rfl hb.1, fun hb => absurd hb.1 hwatermark⟩

/-- The hours of the stored buckets are distinct. -/
theorem nodup_storedBuckets (st : ProbeStore) (e since : ℕ) (mode : SeriesMode) :
    ((st.storedBuckets e since mode).map (·.bucketStart)).Nodup := by
  have hkeys : (st.rollups.entries.map Sigma.fst).Nodup := st.rollups.keys_nodup
  rw [ProbeStore.storedBuckets, List.map_filterMap]
  refine List.Pairwise.filterMap _ ?_ (List.pairwise_map.mp hkeys)
  intro a a' hne b hb b' hb' heq
  obtain ⟨⟨he, hmode, -⟩, rfl⟩ : (a.1.endpointId = e ∧ a.1.mode = mode.rollupMode ∧
      since ≤ a.1.bucketStart) ∧ a.1.bucketStart = b := by simpa using hb
  obtain ⟨⟨he', hmode', -⟩, rfl⟩ : (a'.1.endpointId = e ∧ a'.1.mode = mode.rollupMode ∧
      since ≤ a'.1.bucketStart) ∧ a'.1.bucketStart = b' := by simpa using hb'
  refine hne ?_
  rw [RollupKey.mk.injEq]
  exact ⟨he.trans he'.symm, hmode.trans hmode'.symm, heq⟩

/-- **Series of the tables.** From `since` on, the buckets the tables give are those of the
whole history. -/
theorem getSeries_eq (h : Rolled s) (e since : ℕ) (mode : SeriesMode) :
    (s.store.getSeries e since mode).filter (fun b => since ≤ b.bucketStart) =
      seriesOf s.history e since mode := by
  have hle : Std.Total fun a b : SeriesBucket => a.bucketStart ≤ b.bucketStart :=
    ⟨fun a b => Nat.le_total _ _⟩
  have htrans : IsTrans SeriesBucket fun a b => a.bucketStart ≤ b.bucketStart :=
    ⟨fun a b c => Nat.le_trans⟩
  have hsorted := List.pairwise_insertionSort
    fun a b : SeriesBucket => a.bucketStart ≤ b.bucketStart
  have hperm := List.perm_insertionSort fun a b : SeriesBucket => a.bucketStart ≤ b.bucketStart
  refine eq_of_sorted ((hsorted _).filter _) (hsorted _) ?_ ?_ fun b => ?_
  · -- the hours of the stored and of the fresh buckets
    refine (List.filter_sublist.map _).nodup ((((hperm _).map _).nodup_iff).mpr ?_)
    rw [List.map_append]
    refine List.nodup_append.mpr ⟨nodup_storedBuckets _ _ _ _, ?_, ?_⟩
    · exact (List.filter_sublist.map _).nodup (nodup_groupBuckets _)
    · intro start hstart start' hstart'
      obtain ⟨b, hb, rfl⟩ := List.mem_map.mp hstart
      obtain ⟨b', hb', rfl⟩ := List.mem_map.mp hstart'
      exact of_decide_eq_true (List.all_eq_true.mp (List.mem_filter.mp hb').2 b hb)
  · refine ((hperm _).map _).nodup_iff.mpr ?_
    exact (List.filter_sublist.map _).nodup (nodup_groupBuckets _)
  · rw [List.mem_filter, ProbeStore.getSeries, List.mem_insertionSort, List.mem_append,
      List.mem_filter, mem_storedBuckets h, mem_seriesOf, decide_eq_true_eq]
    constructor
    · rintro ⟨⟨-, -, hb⟩ | ⟨hb, -⟩, hsince⟩
      · exact ⟨hsince, hb⟩
      · exact ⟨hsince, ((mem_rawBuckets h hsince).mp hb).2⟩
    · rintro ⟨hsince, hb⟩
      by_cases hwatermark : b.bucketStart < s.store.watermark e
      · exact ⟨.inl ⟨hsince, hwatermark, hb⟩, hsince⟩
      · refine ⟨.inr ⟨(mem_rawBuckets h hsince).mpr ⟨Nat.le_of_not_lt hwatermark, hb⟩, ?_⟩, hsince⟩
        rw [List.all_eq_true]
        intro b' hb'
        rw [decide_eq_true_eq]
        intro heq
        exact hwatermark (heq ▸ ((mem_storedBuckets h).mp hb').2.1)

theorem BucketAgg.p50Ms_le_p95Ms (a : BucketAgg) (start : ℕ) :
    ∀ lo ∈ (a.build start).p50Ms, ∀ hi ∈ (a.build start).p95Ms, lo ≤ hi := by
  intro lo hlo hi hhi
  unfold BucketAgg.build at hlo hhi
  obtain ⟨-, hlo⟩ := Option.ite_none_left_eq_some.mp hlo
  obtain ⟨-, hhi⟩ := Option.ite_none_left_eq_some.mp hhi
  cases hlo
  cases hhi
  exact percentile_mono a.latencies (by norm_num) (by norm_num)

/-- In every bucket shown from the lower bound on, half of the latencies reach no further than
ninety-five percent of them do. -/
theorem p50Ms_le_p95Ms_of_reach (h : Transition.Reach probeStep Timely .empty s) {e since : ℕ}
    {mode : SeriesMode} {b : SeriesBucket} (hb : b ∈ s.store.getSeries e since mode)
    (hsince : since ≤ b.bucketStart) : ∀ lo ∈ b.p50Ms, ∀ hi ∈ b.p95Ms, lo ≤ hi := by
  have hshown : b ∈ (s.store.getSeries e since mode).filter fun b => since ≤ b.bucketStart :=
    List.mem_filter.mpr ⟨hb, decide_eq_true hsince⟩
  rw [getSeries_eq (rolled_of_reach h)] at hshown
  obtain ⟨-, -, hbuild⟩ := mem_seriesOf.mp hshown
  rw [hbuild]
  exact BucketAgg.p50Ms_le_p95Ms _ _

/-- Rollups and deletions create no probe. -/
def ProbeLabel.keepsHistory : ProbeLabel → Bool
  | .create _ => false
  | .rollup _ | .delete _ => true

/-- **Rollup transparency.** Rollups at any cutoffs, and deletions before the watermarks, leave
the buckets of every series from its lower bound on as they are. -/
theorem getSeries_of_reach (h : Transition.Reach probeStep Timely .empty s)
    (hrun : Transition.Reach probeStep (fun s a => Timely s a ∧ a.keepsHistory) s t)
    (e since : ℕ) (mode : SeriesMode) :
    (t.store.getSeries e since mode).filter (fun b => since ≤ b.bucketStart) =
      (s.store.getSeries e since mode).filter fun b => since ≤ b.bucketStart := by
  have hhistory : t.history = s.history := by
    induction hrun with
    | refl => rfl
    | tail _ hguard hstep ih =>
      rw [← ih]
      rename_i a _
      cases a with
      | create p => cases hguard.2
      | rollup | delete => cases hstep; rfl
  have ht : Transition.Reach probeStep Timely .empty t :=
    h.trans (hrun.mono fun _ _ hguard => hguard.1)
  rw [getSeries_eq (rolled_of_reach ht), getSeries_eq (rolled_of_reach h), hhistory]

/-- A probe of the first hour. -/
def hourProbe : Probe := ⟨1, false, true, 20, none, 60⟩

/-- The only probe is rolled up and deleted, and its bucket stays. -/
theorem getSeries_of_reach_hour : ∃ s t : ProbeHistory,
    s.store.probes = [hourProbe] ∧ t.store.probes = [] ∧
    (t.store.getSeries 1 0 .all).filter (fun b => 0 ≤ b.bucketStart) =
      (s.store.getSeries 1 0 .all).filter fun b => 0 ≤ b.bucketStart := by
  obtain ⟨s, hs, hprobes⟩ : ∃ s, Transition.replayWith probeStep Timely .empty
      [.create hourProbe] = some s ∧ s.store.probes = [hourProbe] := ⟨_, rfl, rfl⟩
  obtain ⟨t, ht, hnone⟩ : ∃ t, Transition.replayWith probeStep
      (fun s a => Timely s a ∧ a.keepsHistory) s [.rollup 3600, .delete 3600] = some t ∧
        t.store.probes = [] := by
    cases hs
    exact ⟨_, rfl, rfl⟩
  exact ⟨s, t, hprobes, hnone, getSeries_of_reach (.of_replayWith hs) (.of_replayWith ht) 1 0 .all⟩

end HubScope
