import HubScope.Store.Probes
import Mathlib.Data.List.DropRight
import Mathlib.Data.Prod.Lex

/-!
# Consecutive failures of an endpoint

The status of an endpoint starts from how many probes have failed in a row. The query behind it
counts the failed probes whose time is after the time of the last success. Times are stored to
the second and probes of one second are ordered by id, as the latest-probe query does. So a
failure that follows the last success within its second is not counted.

## Main definitions

* `ProbeRow`, `historyOf` — the probes of an endpoint in `(created_at, id)` order
* `countConsecutiveFailures`, `latestProbe` — the two queries
* `failureRun` — the failed probes at the end of a history
* `Overlooked` — a failure the count leaves out

## Main results

* `length_rtakeWhile_eq_countP` — the end of a sorted list as a count over the list
* `countConsecutiveFailures_eq_iff` — the count is the length of the run just when no failure
  is overlooked
-/

set_option autoImplicit false

namespace HubScope

/-! ### The end of a sorted list -/

/-- In a list sorted by `r`, what ends it and satisfies `p` is what satisfies `p` and comes after
everything that does not. -/
theorem length_rtakeWhile_eq_countP {α : Type*} {r : α → α → Prop} [DecidableRel r]
    (hasymm : ∀ x y, r x y → ¬ r y x) (p : α → Bool) {l : List α} (hl : l.Pairwise r) :
    (l.rtakeWhile p).length = l.countP fun x => p x ∧ ∀ y ∈ l, p y = false → r y x := by
  induction l using List.reverseRecOn with
  | nil => rfl
  | append_singleton l x ih =>
    have hlt : ∀ y ∈ l, r y x := fun y hy => (List.pairwise_append.mp hl).2.2 y hy x (by simp)
    cases hp : p x with
    | false =>
      rw [List.rtakeWhile_concat_neg (p := p) l x (by simp [hp]), List.length_nil, eq_comm,
        List.countP_eq_zero]
      intro y hy
      rw [decide_eq_true_eq]
      rintro ⟨hpy, hafter⟩
      -- a success at the end comes after everything, so nothing follows it
      have hxy : r x y := hafter x (by simp) hp
      rcases List.mem_append.mp hy with hy | hy
      · exact hasymm _ _ hxy (hlt y hy)
      · rw [List.mem_singleton.mp hy] at hxy
        exact hasymm _ _ hxy hxy
    | true =>
      -- a failure at the end excludes nobody
      have hpast : ∀ z, (∀ y ∈ l ++ [x], p y = false → r y z) ↔ ∀ y ∈ l, p y = false → r y z := by
        intro z
        constructor
        · exact fun h y hy => h y (by simp [hy])
        · intro h y hy hpy
          rcases List.mem_append.mp hy with hy | hy
          · exact h y hy hpy
          · rw [List.mem_singleton.mp hy, hp] at hpy
            cases hpy
      rw [List.rtakeWhile_concat_pos (p := p) l x hp, List.length_append,
        ih (List.pairwise_append.mp hl).1]
      simp only [hpast]
      rw [List.countP_append, List.countP_singleton, if_pos]
      · rfl
      · exact decide_eq_true ⟨hp, fun y hy _ => hlt y hy⟩

/-- A stronger predicate counts as much as a weaker one just when they agree on the list. -/
theorem countP_eq_countP_iff {α : Type*} {p q : α → Bool} {l : List α}
    (hle : ∀ x, p x = true → q x = true) :
    l.countP p = l.countP q ↔ ∀ x ∈ l, q x = true → p x = true := by
  induction l with
  | nil => simp
  | cons x l ih =>
    have hmono : l.countP p ≤ l.countP q := List.countP_mono_left fun y _ => hle y
    rw [List.forall_mem_cons, ← ih, List.countP_cons, List.countP_cons]
    cases hp : p x with
    | true => simp [hle x hp]
    | false =>
      cases hq : q x with
      | true => simp; omega
      | false => simp

/-! ### The probes of an endpoint -/

/-- A `probes` row with its key. -/
structure ProbeRow where
  id : ℕ
  probe : Probe
  deriving DecidableEq, Repr

/-- What rows are ordered by: the time, stored to the second, then the id. -/
def ProbeRow.key (p : ProbeRow) : ℕ ×ₗ ℕ := toLex (p.probe.createdAt, p.id)

/-- The rows of an endpoint. -/
def probesOf (rows : List ProbeRow) (endpointId : ℕ) : List ProbeRow :=
  rows.filter (·.probe.endpointId = endpointId)

/-- The probes of an endpoint from the oldest to the newest. -/
def historyOf (rows : List ProbeRow) (endpointId : ℕ) : List ProbeRow :=
  (probesOf rows endpointId).insertionSort (·.key ≤ ·.key)

/-- The failed probes that end a history. -/
def failureRun (probes : List ProbeRow) : List ProbeRow := probes.rtakeWhile (!·.probe.ok)

/-- `SELECT MAX(created_at) FROM probes WHERE endpoint_id = ? AND ok = 1`. -/
def lastSuccessAt (rows : List ProbeRow) (endpointId : ℕ) : Option ℕ :=
  (((probesOf rows endpointId).filter (·.probe.ok)).map (·.probe.createdAt)).max?

/-- The failed probes of an endpoint after its last success. Without a success the query
compares with the empty text, which is before every stored time. -/
def countConsecutiveFailures (rows : List ProbeRow) (endpointId : ℕ) : ℕ :=
  (probesOf rows endpointId).countP fun p =>
    !p.probe.ok && (lastSuccessAt rows endpointId).all (· < p.probe.createdAt)

/-- `ORDER BY created_at DESC, id DESC LIMIT 1`. -/
def latestProbe (rows : List ProbeRow) (endpointId : ℕ) : Option ProbeRow :=
  ((probesOf rows endpointId).insertionSort (fun p q => q.key ≤ p.key)).head?

/-- A failed probe that comes after every success of its endpoint, one of them in the same
second. -/
def Overlooked (rows : List ProbeRow) (endpointId : ℕ) (p : ProbeRow) : Prop :=
  p.probe.ok = false ∧
    (∀ q ∈ probesOf rows endpointId, q.probe.ok = true → q.key < p.key) ∧
    ∃ q ∈ probesOf rows endpointId, q.probe.ok = true ∧ q.probe.createdAt = p.probe.createdAt

variable {rows : List ProbeRow} {endpointId : ℕ}

theorem ProbeRow.key_lt_iff {p q : ProbeRow} : p.key < q.key ↔
    p.probe.createdAt < q.probe.createdAt ∨
      p.probe.createdAt = q.probe.createdAt ∧ p.id < q.id :=
  Prod.Lex.toLex_lt_toLex

theorem mem_historyOf {p : ProbeRow} : p ∈ historyOf rows endpointId ↔ p ∈ probesOf rows endpointId :=
  List.mem_insertionSort _

theorem lastSuccessAt_all_iff {t : ℕ} : (lastSuccessAt rows endpointId).all (· < t) = true ↔
    ∀ q ∈ probesOf rows endpointId, q.probe.ok = true → q.probe.createdAt < t := by
  cases hmax : lastSuccessAt rows endpointId with
  | none =>
    have hnil := List.max?_eq_none_iff.mp hmax
    rw [List.map_eq_nil_iff, List.filter_eq_nil_iff] at hnil
    simpa using fun q hq hok => absurd hok (hnil q hq)
  | some m =>
    obtain ⟨hmem, hle⟩ := List.max?_eq_some_iff.mp hmax
    rw [Option.all_some, decide_eq_true_eq]
    constructor
    · intro hlt q hq hok
      exact lt_of_le_of_lt (hle _ (List.mem_map_of_mem (List.mem_filter.mpr ⟨hq, hok⟩))) hlt
    · intro h
      obtain ⟨q, hq, rfl⟩ := List.mem_map.mp hmem
      exact h q (List.mem_filter.mp hq).1 (List.mem_filter.mp hq).2

/-- With distinct ids no two probes share a key, so what is sorted is strictly sorted. -/
theorem pairwise_ne_key (hids : (rows.map (·.id)).Nodup) {l : List ProbeRow}
    (hl : l.Perm (probesOf rows endpointId)) : l.Pairwise fun p q => p.key ≠ q.key := by
  have hnodup : (l.map (·.id)).Nodup :=
    (hl.map _).nodup_iff.mpr (hids.sublist (List.filter_sublist.map _))
  refine (List.pairwise_map.mp hnodup).imp fun hne heq => hne ?_
  exact congrArg (fun k => (ofLex k).2) heq

theorem pairwise_historyOf (hids : (rows.map (·.id)).Nodup) :
    (historyOf rows endpointId).Pairwise (·.key < ·.key) := by
  have hsorted : (historyOf rows endpointId).Pairwise (·.key ≤ ·.key) :=
    List.pairwise_insertionSort _ _
  exact (hsorted.and (pairwise_ne_key hids (List.perm_insertionSort _ _))).imp
    fun h => lt_of_le_of_ne h.1 h.2

/-- The run as a count over the rows: the failures after every success. -/
theorem length_failureRun (hids : (rows.map (·.id)).Nodup) :
    (failureRun (historyOf rows endpointId)).length = (probesOf rows endpointId).countP fun p =>
      p.probe.ok = false ∧ ∀ q ∈ probesOf rows endpointId, q.probe.ok = true → q.key < p.key := by
  have hperm := List.perm_insertionSort (fun p q : ProbeRow => p.key ≤ q.key)
    (probesOf rows endpointId)
  rw [failureRun, length_rtakeWhile_eq_countP (fun _ _ => lt_asymm) _ (pairwise_historyOf hids),
    ← hperm.countP_eq]
  refine List.countP_congr fun p _ => ?_
  simp only [decide_eq_true_eq, Bool.not_eq_true', Bool.not_eq_false', mem_historyOf]

/-- The latest probe is the last of the history. -/
theorem latestProbe_eq (hids : (rows.map (·.id)).Nodup) :
    latestProbe rows endpointId = (historyOf rows endpointId).getLast? := by
  have hsorted : ((probesOf rows endpointId).insertionSort fun p q => q.key ≤ p.key).Pairwise
      fun p q => q.key ≤ p.key := List.pairwise_insertionSort _ _
  have hstrict := (hsorted.and (pairwise_ne_key hids (List.perm_insertionSort _ _))).imp
    fun h => lt_of_le_of_ne h.1 h.2.symm
  have hdesc : (probesOf rows endpointId).insertionSort (fun p q => q.key ≤ p.key) =
      (historyOf rows endpointId).reverse := by
    refine List.Perm.eq_of_pairwise ?_ hstrict (List.pairwise_reverse.mpr (pairwise_historyOf hids)) ?_
    · exact fun p q _ _ hpq hqp => absurd hpq (lt_asymm hqp)
    · exact ((List.perm_insertionSort _ _).trans (List.perm_insertionSort _ _).symm).trans
        (List.reverse_perm _).symm
  rw [latestProbe, hdesc, List.head?_reverse]

/-- The run is empty just when the latest probe did not fail. -/
theorem failureRun_pos_iff (hids : (rows.map (·.id)).Nodup) :
    0 < (failureRun (historyOf rows endpointId)).length ↔
      ∃ p, latestProbe rows endpointId = some p ∧ p.probe.ok = false := by
  rw [latestProbe_eq hids, List.length_pos_iff, failureRun]
  cases hlast : (historyOf rows endpointId).getLast? with
  | none =>
    rw [List.getLast?_eq_none_iff.mp hlast]
    simp
  | some p =>
    obtain ⟨l, hl⟩ := List.getLast?_eq_some_iff.mp hlast
    rw [hl]
    cases hok : p.probe.ok with
    | true => simp [hok]
    | false => simp [hok]

/-- A probe the count leaves out of the run is overlooked, and it counts no other. -/
theorem counted_iff {p : ProbeRow} :
    (!p.probe.ok && (lastSuccessAt rows endpointId).all (· < p.probe.createdAt)) = true ↔
      (p.probe.ok = false ∧
        ∀ q ∈ probesOf rows endpointId, q.probe.ok = true → q.key < p.key) ∧
      ¬ Overlooked rows endpointId p := by
  rw [Bool.and_eq_true, Bool.not_eq_true', lastSuccessAt_all_iff]
  constructor
  · rintro ⟨hfail, hlater⟩
    refine ⟨⟨hfail, fun q hq hok => ?_⟩, ?_⟩
    · exact ProbeRow.key_lt_iff.mpr (Or.inl (hlater q hq hok))
    · rintro ⟨-, -, q, hq, hok, hsame⟩
      exact absurd (hlater q hq hok) (by omega)
  · rintro ⟨⟨hfail, hafter⟩, hseen⟩
    refine ⟨hfail, fun q hq hok => ?_⟩
    rcases ProbeRow.key_lt_iff.mp (hafter q hq hok) with hlt | ⟨hsame, -⟩
    · exact hlt
    · exact absurd ⟨hfail, hafter, q, hq, hok, hsame⟩ hseen

/-- The count is at most the run, and they agree just when nothing is overlooked. -/
theorem count_eq_run_iff (hids : (rows.map (·.id)).Nodup) :
    countConsecutiveFailures rows endpointId = (failureRun (historyOf rows endpointId)).length ↔
      ∀ p ∈ probesOf rows endpointId, ¬ Overlooked rows endpointId p := by
  rw [length_failureRun hids, countConsecutiveFailures, countP_eq_countP_iff]
  · refine forall₂_congr fun p _ => ?_
    rw [counted_iff, decide_eq_true_eq]
    constructor
    · exact fun h hover => (h ⟨hover.1, hover.2.1⟩).2 hover
    · exact fun hseen hrun => ⟨hrun, hseen⟩
  · intro p hp
    exact decide_eq_true (counted_iff.mp hp).1

/-- **The failure count is the length of the run that ends the history, and positive just when
the latest probe failed, exactly if no failure follows the last success within its second.** -/
theorem countConsecutiveFailures_eq_iff (rows : List ProbeRow) (endpointId : ℕ)
    (hids : (rows.map (·.id)).Nodup) :
    (countConsecutiveFailures rows endpointId =
          (failureRun (historyOf rows endpointId)).length ∧
        (0 < countConsecutiveFailures rows endpointId ↔
          ∃ p, latestProbe rows endpointId = some p ∧ p.probe.ok = false)) ↔
      ∀ p ∈ probesOf rows endpointId, ¬ Overlooked rows endpointId p := by
  rw [← count_eq_run_iff hids, ← failureRun_pos_iff hids]
  constructor
  · exact And.left
  · intro heq
    exact ⟨heq, by rw [heq]⟩

/-- A streaming probe that fails within the second of the successful non-streaming one. -/
def sameSecondRound : List ProbeRow :=
  [⟨1, ⟨1, false, true, 40, none, 100⟩⟩, ⟨2, ⟨1, true, false, 60, none, 100⟩⟩]

/-- The same round with the streaming probe a second later. -/
def nextSecondRound : List ProbeRow :=
  [⟨1, ⟨1, false, true, 40, none, 100⟩⟩, ⟨2, ⟨1, true, false, 60, none, 101⟩⟩]

theorem countConsecutiveFailures_eq_nextSecond :
    countConsecutiveFailures nextSecondRound 1 =
        (failureRun (historyOf nextSecondRound 1)).length ∧
      (0 < countConsecutiveFailures nextSecondRound 1 ↔
        ∃ p, latestProbe nextSecondRound 1 = some p ∧ p.probe.ok = false) := by
  refine (countConsecutiveFailures_eq_iff nextSecondRound 1 (by decide)).mpr ?_
  simp [nextSecondRound, probesOf, Overlooked]

/-- The count is zero although the latest probe failed. -/
theorem not_countConsecutiveFailures_eq :
    ¬ ∀ (rows : List ProbeRow) (endpointId : ℕ), (rows.map (·.id)).Nodup →
      countConsecutiveFailures rows endpointId =
          (failureRun (historyOf rows endpointId)).length ∧
        (0 < countConsecutiveFailures rows endpointId ↔
          ∃ p, latestProbe rows endpointId = some p ∧ p.probe.ok = false) := by
  intro h
  have hcount := (h sameSecondRound 1 (by decide)).1
  revert hcount
  decide

end HubScope
