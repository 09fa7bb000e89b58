import HubScope.Store.Series

/-!
# The rollup worker

A tick of the worker rolls up old probes when that is due, then deletes the probes past the
retention window when that is due. The two store calls have their own cutoffs, and the second
is made whether or not the first failed. So a deletion is safe just when the probes it takes
are before their endpoints' watermarks, whatever the retention is and whichever calls fail.

The worker reads the clock once a tick. A probe is created at the time of its insertion.

## Main definitions

* `RollupSettings`, `RollupWorld`, `rollupStep` — the worker over the probe tables
* `Bucketed` — the stored buckets of a probe's hour count it
* `RollupWorld.rolledTo` — the hour up to which the last rollup that succeeded reached
* `Recent` — what a deletion takes was created before that hour

## Main results

* `deleted_of_reach` — a deleted probe is accounted for, in every run whose deletions follow a
  recent rollup, and the next deletion takes accounted probes only just when it does
-/

set_option autoImplicit false

namespace HubScope

/-- The cadences of the worker and its two windows, in seconds. -/
structure RollupSettings where
  rollupInterval : ℕ
  cleanupInterval : ℕ
  retention : ℕ
  rollupLag : ℕ

/-- The defaults of the worker. -/
def RollupSettings.default : RollupSettings where
  rollupInterval := 3600
  cleanupInterval := 24 * 3600
  retention := 90 * 24 * 3600
  rollupLag := 3600

/-- Where a tick stands: the cutoffs of the store calls it still makes. -/
inductive RollupPc
  | idle
  | rollup (cutoff : ℕ) (cleanup : Option ℕ)
  | cleanup (cutoff : ℕ)

/-- The probe tables, the clock, the worker, the time of the last tick whose rollup succeeded,
and the probes deleted so far. -/
structure RollupWorld where
  tables : ProbeHistory
  now : ℕ
  lastRollup : Option ℕ
  lastCleanup : Option ℕ
  pc : RollupPc
  rolledAt : Option ℕ
  deleted : List Probe

/-- Time passes, a probe is created, the worker ticks, or a store call of the tick returns. -/
inductive RollupLabel
  | clock (now : ℕ)
  | create (p : Probe)
  | tick
  | rollup (ok : Bool)
  | cleanup (ok : Bool)

/-- Whether a job with this cadence is due; one that never ran is. -/
def rollupDue (now : ℕ) (last : Option ℕ) (interval : ℕ) : Bool :=
  match last with
  | some last => interval ≤ now - last
  | none => true

def RollupPc.afterRollup : Option ℕ → RollupPc
  | some cutoff => .cleanup cutoff
  | none => .idle

/-- One step of the worker or of the world around it. -/
def rollupStep (w : RollupSettings) (s : RollupWorld) : RollupLabel → Option RollupWorld
  | .clock now => if s.now ≤ now then some { s with now := now } else none
  | .create p =>
    if p.createdAt = s.now then
      (probeStep s.tables (.create p)).map fun tables => { s with tables := tables }
    else none
  | .tick =>
    match s.pc with
    | .idle =>
      let dueRollup := rollupDue s.now s.lastRollup w.rollupInterval
      let dueCleanup := rollupDue s.now s.lastCleanup w.cleanupInterval
      let cleanup := if dueCleanup then some (s.now - w.retention) else none
      some { s with
        lastRollup := if dueRollup then some s.now else s.lastRollup
        lastCleanup := if dueCleanup then some s.now else s.lastCleanup
        pc := if dueRollup then .rollup (s.now - w.rollupLag) cleanup else .afterRollup cleanup }
    | _ => none
  | .rollup ok =>
    match s.pc with
    | .rollup cutoff cleanup =>
      -- a rollup that fails is logged, and the cleanup runs all the same
      if ok then
        (probeStep s.tables (.rollup cutoff)).map fun tables =>
          { s with tables := tables, pc := .afterRollup cleanup, rolledAt := s.lastRollup }
      else some { s with pc := .afterRollup cleanup }
    | _ => none
  | .cleanup ok =>
    match s.pc with
    | .cleanup cutoff =>
      if ok then
        (probeStep s.tables (.delete cutoff)).map fun tables =>
          { s with
            tables := tables
            deleted := s.deleted ++ s.tables.store.probes.filter (·.createdAt < cutoff)
            pc := .idle }
      else some { s with pc := .idle }
    | _ => none

/-- A fresh instance at some time. -/
def RollupWorld.start (now : ℕ) : RollupWorld := 
  ⟨.empty, now, none, none, .idle, none, []⟩

/-- The stored buckets of the probe's hour are those of all probes of the hour, this one
included. -/
def Bucketed (s : ProbeHistory) (p : Probe) : Prop :=
  ∀ mode : RollupMode, mode.covers p →
    p ∈ groupOf s.history p.endpointId mode (hourOf p.createdAt) ∧
    s.store.rollups.lookup ⟨p.endpointId, mode, hourOf p.createdAt⟩ =
      some ((aggregate (groupOf s.history p.endpointId mode (hourOf p.createdAt))).build
        (hourOf p.createdAt))

/-- The hour the last rollup that succeeded reached up to: the one of its tick, less the lag. -/
def RollupWorld.rolledTo (w : RollupSettings) (s : RollupWorld) : ℕ :=
  s.rolledAt.elim 0 fun t => hourOf (t - w.rollupLag)

/-- A deletion takes only probes created before the hour the last rollup that succeeded reached
up to. -/
def Recent (w : RollupSettings) (s : RollupWorld) : RollupLabel → Prop
  | .cleanup true =>
    match s.pc with
    | .cleanup cutoff =>
      ∀ p ∈ s.tables.store.probes, p.createdAt < cutoff → p.createdAt < s.rolledTo w
    | _ => True
  | _ => True

instance (w : RollupSettings) (s : RollupWorld) (a : RollupLabel) : Decidable (Recent w s a) := by
  unfold Recent
  split
  · split <;> infer_instance
  · infer_instance

/-! ### Bucketed probes -/

section

variable {s s' : ProbeHistory} {p : Probe}

/-- A probe of the history is accounted for just when it is before its endpoint's watermark. -/
theorem bucketed_iff (h : Rolled s) (hp : p ∈ s.history) :
    Bucketed s p ↔ p.createdAt < s.store.watermark p.endpointId := by
  have hgroup : ∀ mode : RollupMode, mode.covers p →
      p ∈ groupOf s.history p.endpointId mode (hourOf p.createdAt) := by
    intro mode hmode
    exact List.mem_filter.mpr ⟨hp, decide_eq_true ⟨rfl, rfl, hmode⟩⟩
  have hhour := le_hourOf_iff (t := p.createdAt) (h.aligned p.endpointId)
  constructor
  · intro hbucketed
    obtain ⟨-, hlookup⟩ := hbucketed .combined rfl
    rw [h.stored] at hlookup
    have hlt := (Option.ite_none_right_eq_some.mp hlookup).1.1
    omega
  · intro hlt mode hmode
    refine ⟨hgroup mode hmode, ?_⟩
    rw [h.stored, if_pos ⟨by omega, List.ne_nil_of_mem (hgroup mode hmode)⟩]

/-- The raw probes are probes of the history. -/
theorem probes_subset_step (h : s.store.probes ⊆ s.history) {a : ProbeLabel}
    (hstep : probeStep s a = some s') : s'.store.probes ⊆ s'.history := by
  cases a with
  | create p =>
    cases hstep
    intro q hq
    exact List.mem_append.mpr ((List.mem_append.mp hq).imp_left fun hq => h hq)
  | rollup cutoff =>
    cases hstep
    exact h
  | delete cutoff =>
    cases hstep
    exact fun q hq => h (List.mem_of_mem_filter hq)

/-- Watermarks and the history only grow. -/
theorem bucketed_step (h : Rolled s) (h' : Rolled s') (hp : p ∈ s.history)
    {a : ProbeLabel} (hstep : probeStep s a = some s') (hbucketed : Bucketed s p) :
    Bucketed s' p := by
  have hlt := (bucketed_iff h hp).mp hbucketed
  cases a with
  | create q =>
    cases hstep
    exact (bucketed_iff h' (List.mem_append_left _ hp)).mpr hlt
  | delete cutoff =>
    cases hstep
    exact (bucketed_iff h' hp).mpr hlt
  | rollup cutoff =>
    cases hstep
    refine (bucketed_iff h' hp).mpr ?_
    change p.createdAt < (s.store.rollupProbesBefore cutoff).1.watermark p.endpointId
    -- a rollup only moves watermarks forward
    rw [watermark_rollup]
    split_ifs with hpending
    · obtain ⟨q, hq, hendpoint⟩ := hpending
      obtain ⟨-, hbefore, hge⟩ := mem_pending.mp hq
      rw [hendpoint] at hge
      omega
    · exact hlt

end

/-! ### Probes before the last rollup -/

/-- Every raw probe created before the cutoff of a rollup that ran is before its endpoint's
watermark. -/
def Swept (s : ProbeHistory) : Prop :=
  ∀ p ∈ s.store.probes, p.createdAt < s.horizon → p.createdAt < s.store.watermark p.endpointId

/-- A rollup takes the raw probes before its cutoff, a probe is created after it. -/
theorem swept_step {s s' : ProbeHistory} (h : Swept s) {a : ProbeLabel}
    (ha : ∀ p, a = .create p → s.horizon ≤ p.createdAt) (hstep : probeStep s a = some s') :
    Swept s' := by
  cases a with
  | create q =>
    cases hstep
    intro p hp hlt
    rcases List.mem_append.mp hp with hold | hnew
    · exact h p hold hlt
    · obtain rfl := List.mem_singleton.mp hnew
      have hlate := ha p rfl
      change p.createdAt < s.horizon at hlt
      omega
  | delete cutoff =>
    cases hstep
    exact fun p hp hlt => h p (List.mem_of_mem_filter hp) hlt
  | rollup cutoff =>
    cases hstep
    intro p hp hlt
    change p ∈ s.store.probes at hp
    change p.createdAt < max s.horizon (hourOf cutoff) at hlt
    change p.createdAt < (s.store.rollupProbesBefore cutoff).1.watermark p.endpointId
    rw [watermark_rollup]
    have hold := h p hp
    split_ifs with hpending
    · -- some probe of the endpoint moves its watermark to the cutoff
      obtain ⟨q, hq, hendpoint⟩ := hpending
      obtain ⟨-, hbefore, hge⟩ := mem_pending.mp hq
      rw [hendpoint] at hge
      omega
    · by_contra hnot
      refine hpending ⟨p, mem_pending.mpr ⟨hp, ?_, not_lt.mp hnot⟩, rfl⟩
      omega

/-! ### The worker -/

variable {w : RollupSettings} {s s' : RollupWorld}

/-- The cutoff of a pending rollup. -/
def RollupPc.rollupCutoff : RollupPc → Option ℕ
  | .rollup cutoff _ => some cutoff
  | _ => none

/-- The cutoff of a cleanup that is still to run in this tick. -/
def RollupPc.cleanupCutoff : RollupPc → Option ℕ
  | .rollup _ pending => pending
  | .cleanup cutoff => some cutoff
  | .idle => none

/-- The tables hold the history up to the last rollup, the cutoffs are those of the last ticks,
and what was deleted is accounted for. -/
structure Retained (w : RollupSettings) (s : RollupWorld) : Prop where
  rolled : Rolled s.tables
  swept : Swept s.tables
  horizon : s.tables.horizon = s.rolledTo w
  ticked : ∀ t ∈ s.lastRollup, t ≤ s.now
  rolledAt : ∀ t ∈ s.rolledAt, ∃ t' ∈ s.lastRollup, t ≤ t'
  cutoff : ∀ cutoff ∈ s.pc.rollupCutoff, ∃ t ∈ s.lastRollup, cutoff = t - w.rollupLag
  cleanup : ∀ cutoff ∈ s.pc.cleanupCutoff, ∃ t ∈ s.lastCleanup, cutoff = t - w.retention
  probes : s.tables.store.probes ⊆ s.tables.history
  deleted : ∀ p ∈ s.deleted, p ∈ s.tables.history ∧ Bucketed s.tables p

theorem hourOf_mono {t t' : ℕ} (h : t ≤ t') : hourOf t ≤ hourOf t' :=
  Nat.mul_le_mul_right _ (Nat.div_le_div_right h)

theorem rollupCutoff_afterRollup (cleanup : Option ℕ) :
    (RollupPc.afterRollup cleanup).rollupCutoff = none := by
  cases cleanup <;> rfl

theorem cleanupCutoff_afterRollup (cleanup : Option ℕ) :
    (RollupPc.afterRollup cleanup).cleanupCutoff = cleanup := by
  cases cleanup <;> rfl

namespace Retained

/-- No rollup reached past the clock. -/
theorem rolledTo_le (h : Retained w s) : s.rolledTo w ≤ s.now := by
  unfold RollupWorld.rolledTo
  cases hat : s.rolledAt with
  | none => exact Nat.zero_le _
  | some t =>
    obtain ⟨t', ht', hle⟩ := h.rolledAt t hat
    have hnow := h.ticked t' ht'
    have hhour := hourOf_le (t - w.rollupLag)
    change hourOf (t - w.rollupLag) ≤ s.now
    omega

/-- A raw probe is accounted for just when it was created before the hour the last rollup
reached up to. -/
theorem bucketed_iff (h : Retained w s) {p : Probe} (hp : p ∈ s.tables.store.probes) :
    Bucketed s.tables p ↔ p.createdAt < s.rolledTo w := by
  rw [HubScope.bucketed_iff h.rolled (h.probes hp), ← h.horizon]
  exact ⟨fun hlt => hlt.trans_le (h.rolled.horizon _), h.swept p hp⟩

/-- A store call of the world keeps the tables and what was deleted. -/
theorem tables (h : Retained w s) {a : ProbeLabel} (ha : Timely s.tables a)
    {tables : ProbeHistory} (hstep : probeStep s.tables a = some tables) :
    Rolled tables ∧ Swept tables ∧ tables.store.probes ⊆ tables.history ∧
      ∀ p ∈ s.deleted, p ∈ tables.history ∧ Bucketed tables p := by
  have hrolled := rolled_step h.rolled ha hstep
  refine ⟨hrolled, swept_step h.swept ?_ hstep, probes_subset_step h.probes hstep,
    fun p hp => ?_⟩
  · rintro p rfl
    exact ha
  · obtain ⟨hmem, hbucketed⟩ := h.deleted p hp
    refine ⟨?_, bucketed_step h.rolled hrolled hmem hstep hbucketed⟩
    cases a with
    | create q =>
      cases hstep
      exact List.mem_append_left _ hmem
    | rollup | delete =>
      cases hstep
      exact hmem

/-- What a recent deletion takes is before the watermarks. -/
theorem timely (h : Retained w s) {cutoff : ℕ} (hpc : s.pc = .cleanup cutoff)
    (hrecent : Recent w s (.cleanup true)) : Timely s.tables (.delete cutoff) := by
  have hbefore : ∀ p ∈ s.tables.store.probes, p.createdAt < cutoff →
      p.createdAt < s.rolledTo w := by simpa only [Recent, hpc] using hrecent
  intro p hp hlt
  exact h.swept p hp (h.horizon.symm ▸ hbefore p hp hlt)

end Retained

/-- A tick sets its times and its cutoffs by the clock. -/
theorem retained_tick (h : Retained w s) (hstep : rollupStep w s .tick = some s') :
    Retained w s' := by
  unfold rollupStep at hstep
  dsimp only at hstep
  split at hstep
  case h_2 => cases hstep
  case h_1 =>
    cases hstep
    refine ⟨h.rolled, h.swept, h.horizon, ?_, ?_, ?_, ?_, h.probes, h.deleted⟩
    · intro t ht
      dsimp only at ht
      split_ifs at ht
      · exact (Option.some.inj ht).ge
      · exact h.ticked t ht
    · intro t ht
      obtain ⟨t', ht', hle⟩ := h.rolledAt t ht
      dsimp only
      split_ifs
      · exact ⟨s.now, rfl, hle.trans (h.ticked t' ht')⟩
      · exact ⟨t', ht', hle⟩
    · intro cutoff hcutoff
      dsimp only at hcutoff ⊢
      split_ifs at hcutoff ⊢ <;> first
        | (rw [rollupCutoff_afterRollup] at hcutoff; cases hcutoff)
        | exact ⟨s.now, rfl, (Option.some.inj hcutoff).symm⟩
    · -- the cleanup of the tick has the tick's own cutoff
      intro cutoff hcutoff
      have hcleanup : cutoff ∈ (if rollupDue s.now s.lastCleanup w.cleanupInterval = true then
          some (s.now - w.retention) else none) := by
        dsimp only at hcutoff
        by_cases hdue : rollupDue s.now s.lastRollup w.rollupInterval = true
        · rwa [if_pos hdue] at hcutoff
        · rwa [if_neg hdue, cleanupCutoff_afterRollup] at hcutoff
      dsimp only
      split_ifs at hcleanup ⊢
      · exact ⟨s.now, rfl, (Option.some.inj hcleanup).symm⟩
      · cases hcleanup

/-- A rollup that succeeds moves the hour on, one that fails leaves it. -/
theorem retained_rollup (h : Retained w s) {ok : Bool}
    (hstep : rollupStep w s (.rollup ok) = some s') : Retained w s' := by
  unfold rollupStep at hstep
  dsimp only at hstep
  split at hstep
  case h_2 => cases hstep
  case h_1 cutoff cleanup hpc =>
    have hnone : ∀ c ∈ (RollupPc.afterRollup cleanup).rollupCutoff,
        ∃ t ∈ s.lastRollup, c = t - w.rollupLag := by
      rw [rollupCutoff_afterRollup]
      intro c hc
      cases hc
    have hcleanup : ∀ c ∈ (RollupPc.afterRollup cleanup).cleanupCutoff,
        ∃ t ∈ s.lastCleanup, c = t - w.retention := by
      rw [cleanupCutoff_afterRollup]
      intro c hc
      exact h.cleanup c (by rw [hpc]; exact hc)
    split_ifs at hstep
    · obtain ⟨tables, htables, rfl⟩ := Option.map_eq_some_iff.mp hstep
      have htimely : Timely s.tables (.rollup cutoff) := trivial
      obtain ⟨hrolled, hswept, hprobes, hdeleted⟩ := h.tables htimely htables
      obtain ⟨t, ht, rfl⟩ := h.cutoff cutoff (by rw [hpc]; rfl)
      refine ⟨hrolled, hswept, ?_, h.ticked, fun t ht => ⟨t, ht, le_rfl⟩, hnone, hcleanup, hprobes,
        hdeleted⟩
      cases htables
      -- the tick is at least as late as the one of the rollup before
      have hrolledTo : RollupWorld.rolledTo w { s with
          tables := ⟨(s.tables.store.rollupProbesBefore (t - w.rollupLag)).1, s.tables.history,
            max s.tables.horizon (hourOf (t - w.rollupLag))⟩
          pc := .afterRollup cleanup, rolledAt := s.lastRollup } = hourOf (t - w.rollupLag) := by
        rw [RollupWorld.rolledTo, Option.mem_def.mp ht]
        rfl
      refine (max_eq_right ?_).trans hrolledTo.symm
      rw [h.horizon, RollupWorld.rolledTo]
      cases hat : s.rolledAt with
      | none => exact Nat.zero_le _
      | some t₀ =>
        obtain ⟨t', ht', hle⟩ := h.rolledAt t₀ hat
        obtain rfl := Option.mem_unique ht ht'
        exact hourOf_mono (Nat.sub_le_sub_right hle _)
    · cases hstep
      exact ⟨h.rolled, h.swept, h.horizon, h.ticked, h.rolledAt, hnone, hcleanup, h.probes,
        h.deleted⟩

/-- A deletion that follows a recent rollup takes probes that are accounted for. -/
theorem retained_cleanup (h : Retained w s) {ok : Bool} (ha : Recent w s (.cleanup ok))
    (hstep : rollupStep w s (.cleanup ok) = some s') : Retained w s' := by
  unfold rollupStep at hstep
  dsimp only at hstep
  split at hstep
  case h_2 => cases hstep
  case h_1 cutoff hpc =>
    have hidle : ∀ c ∈ RollupPc.idle.rollupCutoff, ∃ t ∈ s.lastRollup, c = t - w.rollupLag := by
      intro c hc
      cases hc
    have hnone : ∀ c ∈ RollupPc.idle.cleanupCutoff, ∃ t ∈ s.lastCleanup, c = t - w.retention := by
      intro c hc
      cases hc
    split_ifs at hstep with hok
    · subst hok
      obtain ⟨tables, htables, rfl⟩ := Option.map_eq_some_iff.mp hstep
      have htimely := h.timely hpc ha
      obtain ⟨hrolled, hswept, hprobes, hdeleted⟩ := h.tables htimely htables
      refine ⟨hrolled, hswept, ?_, h.ticked, h.rolledAt, hidle, hnone, hprobes, fun p hp => ?_⟩
      · cases htables
        exact h.horizon
      · rcases List.mem_append.mp hp with hp | hp
        · exact hdeleted p hp
        · -- a probe this call deletes is before its endpoint's watermark
          obtain ⟨hmem, hlt⟩ := List.mem_filter.mp hp
          have hin := h.probes hmem
          have hbefore := htimely p hmem (of_decide_eq_true hlt)
          have hbucketed := (bucketed_iff h.rolled hin).mpr hbefore
          cases htables
          exact ⟨hin, hbucketed⟩
    · cases hstep
      exact ⟨h.rolled, h.swept, h.horizon, h.ticked, h.rolledAt, hidle, hnone, h.probes, h.deleted⟩

theorem retained_step (h : Retained w s) {a : RollupLabel} (ha : Recent w s a)
    (hstep : rollupStep w s a = some s') : Retained w s' := by
  cases a with
  | clock now =>
    obtain ⟨hle, heq⟩ := Option.ite_none_right_eq_some.mp hstep
    cases heq
    exact ⟨h.rolled, h.swept, h.horizon, fun t ht => (h.ticked t ht).trans hle, h.rolledAt,
      h.cutoff, h.cleanup, h.probes, h.deleted⟩
  | create p =>
    obtain ⟨hnow, heq⟩ := Option.ite_none_right_eq_some.mp hstep
    obtain ⟨tables, htables, rfl⟩ := Option.map_eq_some_iff.mp heq
    have htimely : Timely s.tables (.create p) :=
      h.horizon.le.trans (h.rolledTo_le.trans hnow.ge)
    obtain ⟨hrolled, hswept, hprobes, hdeleted⟩ := h.tables htimely htables
    refine ⟨hrolled, hswept, ?_, h.ticked, h.rolledAt, h.cutoff, h.cleanup, hprobes, hdeleted⟩
    cases htables
    exact h.horizon
  | tick => exact retained_tick h hstep
  | rollup ok => exact retained_rollup h hstep
  | cleanup ok => exact retained_cleanup h ha hstep

theorem retained_of_reach {now : ℕ}
    (h : Transition.Reach (rollupStep w) (Recent w) (.start now) s) : Retained w s := by
  refine h.invariant ?_ fun _ _ _ ht ha hstep => retained_step ht ha hstep
  refine ⟨rolled_empty, ?_, rfl, ?_, ?_, ?_, ?_, List.Subset.refl _, ?_⟩
  · intro p hp
    cases hp
  all_goals
    intro x hx
    cases hx

/-- **Retention safety.** In every run whose deletions follow a recent rollup, every deleted probe
is accounted for, and the deletion that comes next takes only accounted probes just when it
follows one. It does when the retention reaches back further than the last rollup that succeeded,
its lag and the rest of an hour. -/
theorem deleted_of_reach {now : ℕ}
    (h : Transition.Reach (rollupStep w) (Recent w) (.start now) s) :
    (∀ p ∈ s.deleted, Bucketed s.tables p) ∧
    (∀ cutoff, s.pc = .cleanup cutoff →
      ((∀ p ∈ s.tables.store.probes, p.createdAt < cutoff → Bucketed s.tables p) ↔
        Recent w s (.cleanup true))) ∧
    ∀ t ∈ s.rolledAt, ∀ t' ∈ s.lastCleanup,
      t' + w.rollupLag + 3600 ≤ t + w.retention → Recent w s (.cleanup true) := by
  have hs := retained_of_reach h
  have hrecent : ∀ cutoff, s.pc = .cleanup cutoff → (Recent w s (.cleanup true) ↔
      ∀ p ∈ s.tables.store.probes, p.createdAt < cutoff → p.createdAt < s.rolledTo w) := by
    intro cutoff hpc
    simp only [Recent, hpc]
  refine ⟨fun p hp => (hs.deleted p hp).2, fun cutoff hpc => ?_, fun t ht t' ht' hle => ?_⟩
  · rw [hrecent cutoff hpc]
    exact forall₃_congr fun p hp hlt => hs.bucketed_iff hp
  · cases hpc : s.pc with
    | cleanup cutoff =>
      obtain ⟨t₀, ht₀, rfl⟩ := hs.cleanup cutoff (by rw [hpc]; rfl)
      obtain rfl := Option.mem_unique ht' ht₀
      rw [hrecent _ hpc]
      intro p _ hlt
      rw [RollupWorld.rolledTo, Option.mem_def.mp ht]
      change p.createdAt < hourOf (t - w.rollupLag)
      unfold hourOf
      omega
    | idle | rollup => simp only [Recent, hpc]

/-- A tick of a worker that last ran before the probe was ninety days old. -/
def retentionLabels (rolledUp : Bool) : List RollupLabel :=
  [.create hourProbe, .clock (100 * 24 * 3600), .tick, .rollup rolledUp, .cleanup true]

/-- The first tick rolls the probe up and deletes it; a day later the rollup fails, and the
deletion follows the one of the day before. -/
theorem deleted_of_reach_ticks : ∃ s : RollupWorld, s.deleted = [hourProbe] ∧
    s.rolledAt = some (100 * 24 * 3600) ∧ s.lastCleanup = some (101 * 24 * 3600) ∧
    (∀ p ∈ s.deleted, Bucketed s.tables p) ∧ Recent .default s (.cleanup true) := by
  obtain ⟨s, hs, hdeleted, hrolled, hcleanup⟩ : ∃ s, Transition.replayWith (rollupStep .default)
      (Recent .default) (.start 60) (retentionLabels true ++
        [.create { hourProbe with createdAt := 100 * 24 * 3600 }, .clock (101 * 24 * 3600), .tick,
          .rollup false]) = some s ∧ s.deleted = [hourProbe] ∧
      s.rolledAt = some (100 * 24 * 3600) ∧ s.lastCleanup = some (101 * 24 * 3600) :=
    ⟨_, rfl, rfl, rfl, rfl⟩
  obtain ⟨hbucketed, -, hrecent⟩ := deleted_of_reach (.of_replayWith hs)
  exact ⟨s, hdeleted, hrolled, hcleanup, hbucketed,
    hrecent _ hrolled _ hcleanup (by decide)⟩

/-- **Lost probes.** When the rollup of the tick fails, its cleanup deletes a probe that no
bucket counts. -/
theorem not_deleted_of_reach :
    ¬ ∀ (w : RollupSettings) (now : ℕ) (s : RollupWorld),
      Transition.Reachable (rollupStep w) (.start now) s →
      ∀ p ∈ s.deleted, Bucketed s.tables p := by
  intro h
  obtain ⟨s, hs, hdeleted, hnone⟩ : ∃ s, Transition.replay (rollupStep .default) (.start 60)
      (retentionLabels false) = some s ∧ s.deleted = [hourProbe] ∧
        s.tables.store.rollups.lookup ⟨1, .combined, 0⟩ = none := ⟨_, rfl, rfl, rfl⟩
  have hall := h .default 60 s (.of_replay hs) hourProbe
    (by rw [hdeleted]; exact List.mem_singleton_self _)
  obtain ⟨-, hlookup⟩ := hall .combined rfl
  change s.tables.store.rollups.lookup ⟨1, .combined, 0⟩ = _ at hlookup
  rw [hnone] at hlookup
  cases hlookup

end HubScope
