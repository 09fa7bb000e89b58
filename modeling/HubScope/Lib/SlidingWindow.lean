import Mathlib.Data.List.AList
import Mathlib.Data.List.DropRight
import Mathlib.Logic.Function.Basic
import Mathlib.Order.Basic
import Mathlib.Order.Lattice
import Mathlib.Tactic.SplitIfs

/-!
# Sliding windows with a cap

A list of times that is pruned to a window whenever a time is added, and capped to its newest
entries, is compared with the log of all times. From the cutoff of the last pruning on, it holds
the newest of what the log holds, and so it does for every later cutoff. Kept per key in a table
of bounded size, such lists may be swept away once their newest time is older than the cutoff.

## Main definitions

* `SlidingWindow.recent`, `SlidingWindow.slide` — the window, and adding a time to it
* `SlidingWindow.Tracks` — a list answers for a log from a cutoff on
* `SlidingWindow.Table` — lists by key, with `sweep`, `record` and `times`
* `SlidingWindow.TableTracks` — a table answers for the logs of its keys
* `SlidingWindow.Sized` — the bounds of a table

## Main results

* `Tracks.mono`, `Tracks.slide` — later cutoffs and added times
* `Tracks.length` — what a capped list counts
* `TableTracks.sweep`, `TableTracks.record` — the operations of a table
* `Sized.record` — a recording keeps the bounds
* `Follows.record`, `Follows.sweep`, `Follows.erase` — a table follows its logs as time passes
-/

set_option autoImplicit false

namespace SlidingWindow

section Lists

variable {τ : Type*} [LinearOrder τ] {keep : ℕ} {c c' now : τ} {ts log : List τ}

/-- The times after a cutoff. -/
def recent (c : τ) (ts : List τ) : List τ := ts.filter (c < ·)

/-- Drop what aged out, append a time, and keep the newest. -/
def slide (keep : ℕ) (c now : τ) (ts : List τ) : List τ := (recent c ts ++ [now]).rtake keep

/-- From the cutoff on, the list holds the newest of what the log holds. -/
def Tracks (keep : ℕ) (c : τ) (ts log : List τ) : Prop := recent c ts = (recent c log).rtake keep

theorem mem_recent {t : τ} : t ∈ recent c ts ↔ t ∈ ts ∧ c < t := by
  simp [recent]

theorem recent_append (c : τ) (ts us : List τ) : recent c (ts ++ us) = recent c ts ++ recent c us :=
  List.filter_append ts us

theorem recent_recent (h : c ≤ c') : recent c' (recent c ts) = recent c' ts := by
  rw [recent, recent, List.filter_filter]
  apply List.filter_congr
  intro t _
  rw [Bool.and_eq_left_iff_imp]
  simpa using fun hlt => lt_of_le_of_lt h hlt

theorem recent_eq_self (h : ∀ t ∈ ts, c < t) : recent c ts = ts :=
  List.filter_eq_self.mpr fun t ht => by simpa using h t ht

theorem recent_eq_nil (h : ∀ t ∈ ts, t ≤ c) : recent c ts = [] :=
  List.filter_eq_nil_iff.mpr fun t ht => by simpa using h t ht

theorem length_rtake {α : Type*} (k : ℕ) (l : List α) : (l.rtake k).length = min k l.length := by
  rw [List.rtake, List.length_drop]
  omega

theorem rtake_suffix {α : Type*} (k : ℕ) (l : List α) : l.rtake k <:+ l := List.drop_suffix _ _

theorem rtake_eq_self {α : Type*} {k : ℕ} {l : List α} (h : l.length ≤ k) : l.rtake k = l := by
  rw [List.rtake, Nat.sub_eq_zero_of_le h, List.drop_zero]

/-- Capping before an entry is added loses nothing. -/
theorem rtake_rtake_append {α : Type*} (k : ℕ) (l : List α) (x : α) :
    (l.rtake k ++ [x]).rtake k = (l ++ [x]).rtake k := by
  cases k with
  | zero => rw [List.rtake_zero, List.rtake_zero]
  | succ k =>
    rw [List.rtake_concat_succ, List.rtake_concat_succ, List.rtake, List.rtake, List.rtake,
      List.drop_drop, List.length_drop]
    congr 2
    omega

/-- Dropping the oldest entry of a full list before one is added caps the list. -/
theorem tail_append_eq_rtake {α : Type*} {k : ℕ} {l : List α} (hk : 0 < k) (hl : l.length ≤ k)
    (x : α) : (if k ≤ l.length then l.tail else l) ++ [x] = (l ++ [x]).rtake k := by
  have hlength : (l ++ [x]).length = l.length + 1 := List.length_append
  split_ifs with hfull
  · have hone : (l ++ [x]).length - k = 1 := by omega
    rw [List.rtake, hone, List.drop_append_of_le_length (by omega), List.drop_one]
  · rw [rtake_eq_self (by omega)]

theorem map_rtake {α β : Type*} (f : α → β) (k : ℕ) (l : List α) :
    (l.rtake k).map f = (l.map f).rtake k := by
  rw [List.rtake, List.rtake, List.map_drop, List.length_map]

/-- The window of an ordered list is its end. -/
theorem recent_rtake (h : ts.Pairwise (· ≤ ·)) (k : ℕ) :
    recent c (ts.rtake k) = (recent c ts).rtake k := by
  induction ts with
  | nil => simp [recent]
  | cons t ts ih =>
    obtain ⟨hfirst, hrest⟩ := List.pairwise_cons.mp h
    by_cases ht : c < t
    · -- everything is in the window
      have hall : ∀ u ∈ t :: ts, c < u := by
        intro u hu
        rcases List.mem_cons.mp hu with rfl | hu
        · exact ht
        · exact lt_of_lt_of_le ht (hfirst u hu)
      rw [recent_eq_self hall, recent_eq_self fun u hu => hall u ((rtake_suffix k _).subset hu)]
    · have hdrop : recent c (t :: ts) = recent c ts := List.filter_cons_of_neg (by simpa using ht)
      rw [hdrop, ← ih hrest]
      rcases Nat.lt_or_ge ts.length k with hlt | hge
      · rw [rtake_eq_self hlt, hdrop, rtake_eq_self (Nat.le_of_lt hlt)]
      · rw [List.rtake, List.rtake, List.length_cons, Nat.succ_sub hge, List.drop_succ_cons]

theorem tracks_nil (keep : ℕ) (c : τ) : Tracks keep c ([] : List τ) [] := by
  simp [Tracks, recent]

/-- Later cutoffs. -/
theorem Tracks.mono (h : Tracks keep c ts log) (hlog : log.Pairwise (· ≤ ·)) (hle : c ≤ c') :
    Tracks keep c' ts log := by
  have hrecent : (recent c log).Pairwise (· ≤ ·) := hlog.filter _
  rw [Tracks, ← recent_recent hle, h, recent_rtake hrecent, recent_recent hle]

theorem recent_slide (hnow : c < now) (keep : ℕ) (ts : List τ) :
    recent c (slide keep c now ts) = slide keep c now ts := by
  apply recent_eq_self
  intro t ht
  rcases List.mem_append.mp ((rtake_suffix _ _).subset ht) with ht | ht
  · exact (mem_recent.mp ht).2
  · rw [List.mem_singleton.mp ht]
    exact hnow

/-- Adding a time to the list and to the log. -/
theorem Tracks.slide (h : Tracks keep c ts log) (hnow : c < now) :
    Tracks keep c (slide keep c now ts) (log ++ [now]) := by
  have hsingle : recent c [now] = [now] := recent_eq_self (by simpa using hnow)
  rw [Tracks, recent_slide hnow, SlidingWindow.slide, h, rtake_rtake_append, recent_append, hsingle]

/-- What the list counts. -/
theorem Tracks.length (h : Tracks keep c ts log) :
    (recent c ts).length = min keep (recent c log).length := by
  rw [h, length_rtake]

/-- A list whose times all aged out may be dropped. -/
theorem Tracks.drop (h : Tracks keep c ts log) (hold : ∀ t ∈ ts, t ≤ c) : Tracks keep c [] log := by
  rw [Tracks, ← h, recent_eq_nil hold]
  rfl

theorem length_slide_le (keep : ℕ) (c now : τ) (ts : List τ) :
    (slide keep c now ts).length ≤ keep := by
  rw [slide, length_rtake]
  exact Nat.min_le_left _ _

end Lists

section Tables

variable {κ τ : Type*} [DecidableEq κ]

/-- The times of a key, and the last of them. -/
structure Entry (τ : Type*) where
  times : List τ
  seen : τ

/-- Times by key. -/
abbrev Table (κ τ : Type*) := AList fun _ : κ => Entry τ

/-- The number of keys. -/
def Table.size (m : Table κ τ) : ℕ := m.keys.length

/-- The times of a key. -/
def Table.times (m : Table κ τ) (key : κ) : List τ := (m.lookup key).elim [] Entry.times

/-- The table takes a time for the key. -/
def Table.HasRoom (maxEntries : ℕ) (m : Table κ τ) (key : κ) : Prop :=
  key ∈ m ∨ m.size < maxEntries

instance (maxEntries : ℕ) (m : Table κ τ) (key : κ) : Decidable (m.HasRoom maxEntries key) :=
  inferInstanceAs (Decidable (key ∈ m ∨ m.size < maxEntries))

/-- The table and its lists are bounded. -/
structure Sized (keep maxEntries : ℕ) (m : Table κ τ) : Prop where
  table : m.size ≤ maxEntries
  lists : ∀ key, (m.times key).length ≤ keep

variable {keep maxEntries : ℕ} {m : Table κ τ} {key k : κ} {e : Entry τ}

theorem times_of_lookup (h : m.lookup key = some e) : m.times key = e.times := by
  rw [Table.times, h]
  rfl

theorem times_of_lookup_none (h : m.lookup key = none) : m.times key = [] := by
  rw [Table.times, h]
  rfl

theorem times_insert_self (m : Table κ τ) (key : κ) (e : Entry τ) :
    Table.times (m.insert key e) key = e.times :=
  times_of_lookup (AList.lookup_insert m)

theorem times_insert_ne (h : k ≠ key) (m : Table κ τ) (e : Entry τ) :
    Table.times (m.insert key e) k = m.times k := by
  rw [Table.times, AList.lookup_insert_ne h, Table.times]

theorem times_erase_self (m : Table κ τ) (key : κ) : Table.times (m.erase key) key = [] :=
  times_of_lookup_none (AList.lookup_erase key m)

theorem times_erase_ne (h : k ≠ key) (m : Table κ τ) : Table.times (m.erase key) k = m.times k := by
  rw [Table.times, AList.lookup_erase_ne h, Table.times]

theorem size_insert_of_mem (h : key ∈ m) (e : Entry τ) :
    Table.size (m.insert key e) = m.size := by
  have hmem := AList.mem_keys.mp h
  have hpos := List.length_pos_of_mem hmem
  rw [Table.size, AList.keys_insert, List.length_cons, List.length_erase_of_mem hmem, Table.size]
  omega

theorem size_insert_le (m : Table κ τ) (key : κ) (e : Entry τ) :
    Table.size (m.insert key e) ≤ m.size + 1 := by
  rw [Table.size, AList.keys_insert, List.length_cons]
  exact Nat.succ_le_succ List.length_erase_le

theorem sized_empty (keep maxEntries : ℕ) : Sized keep maxEntries (∅ : Table κ τ) :=
  ⟨Nat.zero_le _, fun _ => Nat.zero_le _⟩

theorem Sized.erase (h : Sized keep maxEntries m) (key : κ) :
    Sized keep maxEntries (m.erase key) := by
  constructor
  · have hle : (m.keys.erase key).length ≤ m.keys.length := List.length_erase_le
    rw [Table.size, AList.keys_erase]
    exact hle.trans h.table
  · intro k
    by_cases hk : k = key
    · rw [hk, times_erase_self]
      exact Nat.zero_le _
    · rw [times_erase_ne hk]
      exact h.lists k

/-! ### Recording and sweeping -/

variable [LinearOrder τ] {c c' now : τ} {log : κ → List τ}

/-- Delete the keys that were last seen before a cutoff. -/
def Table.sweep (c : τ) (m : Table κ τ) : Table κ τ :=
  ⟨m.entries.filter fun e => ¬ e.2.seen < c, m.nodupKeys.sublist List.filter_sublist⟩

/-- Note a time for a key. A full table takes no new key. -/
def Table.record (keep maxEntries : ℕ) (c now : τ) (m : Table κ τ) (key : κ) : Table κ τ :=
  match m.lookup key with
  | none => if maxEntries ≤ m.size then m else m.insert key ⟨slide keep c now [], now⟩
  | some e => m.insert key ⟨slide keep c now e.times, now⟩

theorem lookup_sweep : (m.sweep c).lookup key = (m.lookup key).filter fun e => ¬ e.seen < c := by
  ext e
  rw [Option.filter_eq_some_iff]
  have hswept : (m.sweep c).lookup key = some e ↔ Sigma.mk key e ∈ (m.sweep c).entries :=
    AList.mem_lookup_iff
  have hentry : m.lookup key = some e ↔ Sigma.mk key e ∈ m.entries := AList.mem_lookup_iff
  rw [hswept, hentry]
  exact List.mem_filter

/-- What a recording in a table with room does. -/
theorem record_eq (h : m.HasRoom maxEntries key) : m.record keep maxEntries c now key =
    m.insert key ⟨slide keep c now (m.times key), now⟩ := by
  rw [Table.record]
  cases hlookup : m.lookup key with
  | none =>
    have hroom : ¬ maxEntries ≤ m.size :=
      Nat.not_le.mpr (h.resolve_left (AList.lookup_eq_none.mp hlookup))
    rw [times_of_lookup_none hlookup]
    exact if_neg hroom
  | some e => rw [times_of_lookup hlookup]

/-- A recording without room does nothing. -/
theorem record_eq_self (h : ¬ m.HasRoom maxEntries key) :
    m.record keep maxEntries c now key = m := by
  rw [Table.HasRoom, not_or, Nat.not_lt] at h
  rw [Table.record, AList.lookup_eq_none.mpr h.1]
  exact if_pos h.2

/-! ### Bounds -/

theorem Sized.sweep (h : Sized keep maxEntries m) (c : τ) : Sized keep maxEntries (m.sweep c) := by
  constructor
  · have hsub : (m.sweep c).keys.Sublist m.keys := List.filter_sublist.map _
    exact hsub.length_le.trans h.table
  · intro key
    cases hswept : (m.sweep c).lookup key with
    | none =>
      rw [times_of_lookup_none hswept]
      exact Nat.zero_le _
    | some e =>
      rw [times_of_lookup hswept]
      rw [lookup_sweep] at hswept
      rw [← times_of_lookup (Option.filter_eq_some_iff.mp hswept).1]
      exact h.lists key

/-- **Bounds.** A recording keeps the bounds, with room or without. -/
theorem Sized.record (h : Sized keep maxEntries m) (c now : τ) (key : κ) :
    Sized keep maxEntries (m.record keep maxEntries c now key) := by
  by_cases hroom : m.HasRoom maxEntries key
  · rw [record_eq hroom]
    constructor
    · rcases hroom with hmem | hlt
      · rw [size_insert_of_mem hmem]
        exact h.table
      · exact (size_insert_le m key _).trans hlt
    · intro k
      by_cases hk : k = key
      · rw [hk, times_insert_self]
        exact length_slide_le keep c now _
      · rw [times_insert_ne hk]
        exact h.lists k
  · rw [record_eq_self hroom]
    exact h

/-! ### Answering for the logs -/

/-- From the cutoff on, the table answers for the logs of all keys. -/
def TableTracks (keep : ℕ) (c : τ) (m : Table κ τ) (log : κ → List τ) : Prop :=
  ∀ key, Tracks keep c (m.times key) (log key)

/-- No key was seen after `now`, and none of its times is later than it was seen. -/
def SeenBy (now : τ) (m : Table κ τ) : Prop :=
  ∀ key e, m.lookup key = some e → e.seen ≤ now ∧ ∀ t ∈ e.times, t ≤ e.seen

theorem tableTracks_empty (keep : ℕ) (c : τ) :
    TableTracks keep c (∅ : Table κ τ) fun _ => [] :=
  fun _ => tracks_nil keep c

theorem TableTracks.mono (h : TableTracks keep c m log)
    (hlog : ∀ key, (log key).Pairwise (· ≤ ·)) (hle : c ≤ c') : TableTracks keep c' m log :=
  fun key => (h key).mono (hlog key) hle

/-- What a sweep deletes had aged out. -/
theorem TableTracks.sweep (h : TableTracks keep c m log) (hseen : SeenBy now m) :
    TableTracks keep c (m.sweep c) log := by
  intro key
  have htracks := h key
  rw [Table.times, lookup_sweep]
  cases hlookup : m.lookup key with
  | none => rwa [times_of_lookup_none hlookup] at htracks
  | some e =>
    rw [times_of_lookup hlookup] at htracks
    by_cases hstale : e.seen < c
    · have hnone : (some e).filter (fun e => ¬ e.seen < c) = none := by simp [hstale]
      rw [hnone]
      exact htracks.drop fun t ht => (((hseen key e hlookup).2 t ht).trans_lt hstale).le
    · have hsome : (some e).filter (fun e => ¬ e.seen < c) = some e := by
        simpa using hstale
      rw [hsome]
      exact htracks

theorem TableTracks.record (h : TableTracks keep c m log) (hroom : m.HasRoom maxEntries key)
    (hnow : c < now) : TableTracks keep c (m.record keep maxEntries c now key)
      (Function.update log key (log key ++ [now])) := by
  rw [record_eq hroom]
  intro k
  by_cases hk : k = key
  · rw [hk, times_insert_self, Function.update_self]
    exact (h key).slide hnow
  · rw [times_insert_ne hk, Function.update_of_ne hk]
    exact h k

theorem TableTracks.erase (h : TableTracks keep c m log) (key : κ) :
    TableTracks keep c (m.erase key) (Function.update log key []) := by
  intro k
  by_cases hk : k = key
  · rw [hk, times_erase_self, Function.update_self]
    exact tracks_nil keep c
  · rw [times_erase_ne hk, Function.update_of_ne hk]
    exact h k

theorem seenBy_empty (now : τ) : SeenBy now (∅ : Table κ τ) := by
  intro key e he
  rw [AList.lookup_empty] at he
  cases he

theorem SeenBy.mono {now' : τ} (h : SeenBy now m) (hle : now ≤ now') : SeenBy now' m :=
  fun key e he => ⟨(h key e he).1.trans hle, (h key e he).2⟩

theorem SeenBy.sweep (h : SeenBy now m) (c : τ) : SeenBy now (m.sweep c) := by
  intro key e he
  rw [lookup_sweep] at he
  exact h key e (Option.filter_eq_some_iff.mp he).1

theorem SeenBy.erase (h : SeenBy now m) (key : κ) : SeenBy now (m.erase key) := by
  intro k e he
  by_cases hk : k = key
  · rw [hk, AList.lookup_erase] at he
    cases he
  · rw [AList.lookup_erase_ne hk] at he
    exact h k e he

theorem SeenBy.record (h : SeenBy now m) (c : τ) (key : κ) :
    SeenBy now (m.record keep maxEntries c now key) := by
  -- the times of a key lie before its entry was seen last
  have hold : ∀ t ∈ m.times key, t ≤ now := by
    intro t ht
    cases hlookup : m.lookup key with
    | none =>
      rw [times_of_lookup_none hlookup] at ht
      cases ht
    | some e =>
      rw [times_of_lookup hlookup] at ht
      exact ((h key e hlookup).2 t ht).trans (h key e hlookup).1
  by_cases hroom : m.HasRoom maxEntries key
  · rw [record_eq hroom]
    intro k e he
    by_cases hk : k = key
    · rw [hk, AList.lookup_insert] at he
      obtain rfl := Option.some.inj he
      refine ⟨le_rfl, fun t ht => ?_⟩
      rcases List.mem_append.mp ((rtake_suffix _ _).subset ht) with ht | ht
      · exact hold t (mem_recent.mp ht).1
      · exact (List.mem_singleton.mp ht).le
    · rw [AList.lookup_insert_ne hk] at he
      exact h k e he
  · rw [record_eq_self hroom]
    exact h

/-- At a time and its cutoff the table answers for logs that reach to that time. -/
structure Follows (keep : ℕ) (c now : τ) (m : Table κ τ) (log : κ → List τ) : Prop where
  tracks : TableTracks keep c m log
  seen : SeenBy now m
  ordered : ∀ key, (log key).Pairwise (· ≤ ·)
  past : ∀ key, ∀ t ∈ log key, t ≤ now

theorem follows_empty (keep : ℕ) (c now : τ) :
    Follows keep c now (∅ : Table κ τ) fun _ => [] :=
  ⟨tableTracks_empty keep c, seenBy_empty now, fun _ => .nil, fun _ _ ht => by cases ht⟩

theorem Follows.mono {now' : τ} (h : Follows keep c now m log) (hc : c ≤ c') (hnow : now ≤ now') :
    Follows keep c' now' m log :=
  ⟨h.tracks.mono h.ordered hc, h.seen.mono hnow, h.ordered,
    fun key t ht => (h.past key t ht).trans hnow⟩

theorem Follows.sweep (h : Follows keep c now m log) : Follows keep c now (m.sweep c) log :=
  ⟨h.tracks.sweep h.seen, h.seen.sweep c, h.ordered, h.past⟩

theorem Follows.record (h : Follows keep c now m log) (hroom : m.HasRoom maxEntries key)
    (hnow : c < now) : Follows keep c now (m.record keep maxEntries c now key)
      (Function.update log key (log key ++ [now])) := by
  refine ⟨h.tracks.record hroom hnow, h.seen.record c key, fun k => ?_, fun k t ht => ?_⟩
  · by_cases hk : k = key
    · rw [hk, Function.update_self]
      refine List.pairwise_append.mpr ⟨h.ordered key, List.pairwise_singleton _ _, ?_⟩
      intro t ht u hu
      rw [List.mem_singleton.mp hu]
      exact h.past key t ht
    · rw [Function.update_of_ne hk]
      exact h.ordered k
  · by_cases hk : k = key
    · rw [hk, Function.update_self] at ht
      rcases List.mem_append.mp ht with ht | ht
      · exact h.past key t ht
      · exact (List.mem_singleton.mp ht).le
    · rw [Function.update_of_ne hk] at ht
      exact h.past k t ht

/-- A recording, with room or without: the logs of other keys stay. -/
theorem Follows.exists_record (h : Follows keep c now m log) (hnow : c < now) (maxEntries : ℕ)
    (key : κ) : ∃ log', Follows keep c now (m.record keep maxEntries c now key) log' ∧
      (∀ k, k ≠ key → log' k = log k) ∧
      (m.HasRoom maxEntries key → log' key = log key ++ [now]) := by
  by_cases hroom : m.HasRoom maxEntries key
  · exact ⟨_, h.record hroom hnow, fun k hk => Function.update_of_ne hk _ _,
      fun _ => Function.update_self _ _ _⟩
  · refine ⟨log, ?_, fun _ _ => rfl, fun hroom' => absurd hroom' hroom⟩
    rwa [record_eq_self hroom]

theorem Follows.erase (h : Follows keep c now m log) (key : κ) :
    Follows keep c now (m.erase key) (Function.update log key []) := by
  refine ⟨h.tracks.erase key, h.seen.erase key, fun k => ?_, fun k t ht => ?_⟩
  · by_cases hk : k = key
    · rw [hk, Function.update_self]
      exact .nil
    · rw [Function.update_of_ne hk]
      exact h.ordered k
  · by_cases hk : k = key
    · rw [hk, Function.update_self] at ht
      cases ht
    · rw [Function.update_of_ne hk] at ht
      exact h.past k t ht

end Tables

end SlidingWindow
