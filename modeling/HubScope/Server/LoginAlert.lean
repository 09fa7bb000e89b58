import HubScope.Lib.Moment
import HubScope.Lib.Ranking
import HubScope.Lib.SlidingWindow
import HubScope.Lib.Timed
import Mathlib.Data.Int.ConditionallyCompleteOrder
import Mathlib.Data.List.Dedup

/-!
# The brute-force login alert

The server counts failed logins of the whole site in a buffer that is pruned to a window and drops
its oldest failure when it is full. Once the count reaches the threshold an alert fires, and then
none for a cooldown. A buffer that holds at least the threshold does not change which failures
fire an alert.

## Main definitions

* `LoginAlertTracker` — the limits, with `record` over `LoginEvents`
* `topLoginKeys` — the names and addresses an alert lists
* `LoginAlertTracker.alertTimes`, `LoginAlertTracker.fires` — when alerts fire

## Main results

* `Watches.record` — what a failure does to the buffer and to the alerts
* `fires_iff` — a failure fires exactly when its window and the cooldown say so, and alerts are
  apart
-/

set_option autoImplicit false

namespace HubScope

open SlidingWindow

/-- The time from an instant to `now`, as far as a duration goes. No instant stands for the zero
time, from which every clock is further away than the longest duration. -/
def sinceInstant (now : ℤ) : Option ℤ → ℤ
  | none => maxDuration
  | some last => saturate (now - last)

/-- The policy of the login alert. A duration has 64 bits. -/
structure LoginAlertPolicy where
  threshold : ℤ
  window : ℤ
  cooldown : ℤ
  maxEntries : ℤ
  cooldown_le : cooldown ≤ maxDuration

/-- The default cap of the buffer. -/
def loginAlertMaxEntries : ℕ := 10000

/-- The number of runes of a user name that are kept. -/
def loginAlertUsernameRunes : ℕ := 64

/-- One failed login. -/
structure LoginFailure where
  failedAt : ℤ
  username : String
  ip : String
  deriving DecidableEq, Repr

/-- What an alert reports. -/
structure LoginFailureSnapshot where
  count : ℕ
  window : ℤ
  topUsernames : List String
  topIPs : List String
  deriving DecidableEq, Repr

/-- The limits of a tracker. -/
structure LoginAlertTracker where
  threshold : ℕ
  window : ℤ
  cooldown : ℤ
  maxEntries : ℕ
  threshold_pos : 0 < threshold
  window_pos : 0 < window
  cooldown_pos : 0 < cooldown
  cooldown_le : cooldown ≤ maxDuration

/-- Build the limits. A zero policy disables the mechanism. -/
def newLoginAlertTracker (p : LoginAlertPolicy) : Option LoginAlertTracker :=
  if h : p.threshold ≤ 0 ∨ p.window ≤ 0 ∨ p.cooldown ≤ 0 then none
  else some {
    threshold := p.threshold.toNat
    window := p.window
    cooldown := p.cooldown
    maxEntries := if p.maxEntries ≤ 0 then loginAlertMaxEntries else p.maxEntries.toNat
    threshold_pos := Int.lt_toNat.mpr (not_le.mp fun hle => h (Or.inl hle))
    window_pos := not_le.mp fun hle => h (Or.inr (Or.inl hle))
    cooldown_pos := not_le.mp fun hle => h (Or.inr (Or.inr hle))
    cooldown_le := p.cooldown_le }

/-- The buffer, and the last alert. -/
structure LoginEvents where
  events : List LoginFailure
  lastAlert : Option ℤ
  deriving DecidableEq, Repr

/-- Cap a string at `n` runes. -/
def truncateRunes (s : String) (n : ℕ) : String :=
  if s.toList.length ≤ n then s else String.ofList (s.toList.take n)

/-- The order of an alert's keys: more frequent first, then lexical. -/
def topLess (counts : String → ℕ) (a b : String) : Prop :=
  if counts a ≠ counts b then counts b < counts a else a < b

instance (counts : String → ℕ) : DecidableRel (topLess counts) := fun a b =>
  inferInstanceAs (Decidable (if counts a ≠ counts b then counts b < counts a else a < b))

/-- The `n` most frequent keys that are not empty. -/
def topLoginKeys (events : List LoginFailure) (key : LoginFailure → String) (n : ℕ) :
    List String :=
  let named := (events.map key).filter (· ≠ "")
  (Ranking.sortStable (topLess named.count) named.dedup).take n

namespace LoginAlertTracker

variable (t : LoginAlertTracker)

/-- Freeze the window into what an alert reports. -/
def snapshotLocked (events : List LoginFailure) : LoginFailureSnapshot where
  count := events.length
  window := t.window
  topUsernames := topLoginKeys events LoginFailure.username 3
  topIPs := topLoginKeys events LoginFailure.ip 3

/-- The buffer after one more failure. A full buffer drops its oldest failure. -/
def push (events : List LoginFailure) (e : LoginFailure) : List LoginFailure :=
  let kept := events.filter fun f => e.failedAt - t.window < f.failedAt
  let kept := if t.maxEntries ≤ kept.length then kept.tail else kept
  kept ++ [e]

/-- Note one failed login, and fire an alert when the window has reached the threshold outside of
the cooldown. -/
def record (s : LoginEvents) (now : ℤ) (username ip : String) :
    LoginEvents × Option LoginFailureSnapshot :=
  let events := t.push s.events ⟨now, truncateRunes username loginAlertUsernameRunes, ip⟩
  if events.length < t.threshold ∨ sinceInstant now s.lastAlert < t.cooldown then
    ({ s with events }, none)
  else (⟨events, some now⟩, some (t.snapshotLocked events))

/-- One failed login, with the alert it fires. -/
def step (s : LoginEvents) (a : ℤ × String × String) :
    LoginEvents × Option (ℤ × LoginFailureSnapshot) :=
  let (s, alert) := t.record s a.1 a.2.1 a.2.2
  (s, alert.map fun snapshot => (a.1, snapshot))

end LoginAlertTracker

/-- No failures yet, and no alert. -/
def noEvents : LoginEvents := ⟨[], none⟩

namespace LoginAlertTracker

/-- The times at which the failures of a run fire alerts. -/
def alertTimes (t : LoginAlertTracker) (trace : List (ℤ × String × String)) : List ℤ :=
  (Timed.answers t.step noEvents trace).map Prod.fst

/-- The failure fires an alert when it comes after the run. -/
def fires (t : LoginAlertTracker) (trace : List (ℤ × String × String)) (a : ℤ × String × String) :
    Prop := (t.step (Timed.run t.step noEvents trace) a).2.isSome = true

/-! ### The buffer and the log -/

variable {t : LoginAlertTracker} {s : LoginEvents} {log alerts : List ℤ} {now : ℤ}
  {a : ℤ × String × String} {trace : List (ℤ × String × String)}

/-- The times of a buffer slide like a capped window. -/
theorem map_push (hcap : 0 < t.maxEntries) (hs : s.events.length ≤ t.maxEntries)
    (e : LoginFailure) : (t.push s.events e).map LoginFailure.failedAt =
      slide t.maxEntries (e.failedAt - t.window) e.failedAt
        (s.events.map LoginFailure.failedAt) := by
  have hkept : (s.events.filter fun f => e.failedAt - t.window < f.failedAt).length ≤
      t.maxEntries := (List.length_filter_le _ _).trans hs
  rw [push, tail_append_eq_rtake hcap hkept, map_rtake, List.map_append, slide, recent,
    List.filter_map]
  rfl

/-- Since the last alert a cooldown has passed. -/
theorem cooldown_le_iff (t : LoginAlertTracker) (now : ℤ) (lastAlert : Option ℤ) :
    ¬ sinceInstant now lastAlert < t.cooldown ↔ ∀ last ∈ lastAlert, last + t.cooldown ≤ now := by
  have hle := t.cooldown_le
  have hpos := t.cooldown_pos
  have hmin : minDuration < 0 := by decide
  cases lastAlert with
  | none =>
    simp only [sinceInstant, Option.mem_def, reduceCtorEq, false_implies, implies_true, iff_true]
    omega
  | some last =>
    simp only [sinceInstant, Option.mem_def, Option.some.injEq, forall_eq',
      saturate_lt_iff (hmin.trans hpos) hle]
    omega

/-- What the state holds of the failures so far, whose times are `log`, and of their alerts. -/
structure Watches (t : LoginAlertTracker) (now : ℤ) (s : LoginEvents) (log alerts : List ℤ) :
    Prop where
  tracks : Tracks t.maxEntries (now - t.window) (s.events.map LoginFailure.failedAt) log
  capped : s.events.length ≤ t.maxEntries
  ordered : log.Pairwise (· ≤ ·)
  past : ∀ x ∈ log, x ≤ now
  last : s.lastAlert = alerts.getLast?
  apart : alerts.Pairwise fun a b => a + t.cooldown ≤ b

/-- The failure leaves the threshold within the window, a cooldown after every alert. -/
def Due (t : LoginAlertTracker) (log alerts : List ℤ) (now : ℤ) : Prop :=
  t.threshold ≤ (recent (now - t.window) (log ++ [now])).length ∧
    ∀ x ∈ alerts, x + t.cooldown ≤ now

/-- A cooldown after the last alert is a cooldown after every alert. -/
theorem Watches.cooldown_iff (h : Watches t now s log alerts) (now' : ℤ) :
    (∀ last ∈ s.lastAlert, last + t.cooldown ≤ now') ↔ ∀ x ∈ alerts, x + t.cooldown ≤ now' := by
  have hpos := t.cooldown_pos
  rw [h.last]
  constructor
  · intro hlast x hx
    obtain ⟨l, hl⟩ : ∃ l, alerts.getLast? = some l :=
      ⟨_, List.getLast?_eq_some_getLast (List.ne_nil_of_mem hx)⟩
    have hle := hlast l hl
    have hapart := h.apart
    rw [← List.dropLast_append_getLast? l hl] at hapart hx
    rcases List.mem_append.mp hx with hx | hx
    · have hearlier := (List.pairwise_append.mp hapart).2.2 x hx l (List.mem_singleton_self l)
      omega
    · rwa [List.mem_singleton.mp hx]
  · exact fun hall last hlast => hall last (List.mem_of_getLast? hlast)

/-- What the code checks is that an alert is due. -/
theorem Watches.due_iff (h : Watches t now s log alerts) (hcap : t.threshold ≤ t.maxEntries)
    (hle : now ≤ a.1) (e : LoginFailure) (he : e.failedAt = a.1) :
    ¬ ((t.push s.events e).length < t.threshold ∨ sinceInstant a.1 s.lastAlert < t.cooldown) ↔
      Due t log alerts a.1 := by
  have hpos : 0 < t.maxEntries := Nat.lt_of_lt_of_le t.threshold_pos hcap
  have hcutoff : a.1 - t.window < a.1 := Int.sub_lt_self a.1 t.window_pos
  have htracks := (h.tracks.mono h.ordered (Int.sub_le_sub_right hle t.window)).slide hcutoff
  -- the buffer counts the window up to its cap, which is not below the threshold
  have hcount : (t.push s.events e).length =
      min t.maxEntries (recent (a.1 - t.window) (log ++ [a.1])).length := by
    rw [← htracks.length, recent_slide hcutoff, ← he, ← map_push hpos h.capped, List.length_map]
  rw [not_or, cooldown_le_iff, h.cooldown_iff, Due, hcount]
  apply and_congr_left'
  omega

/-- What one failure leaves, with its alert or without. -/
theorem Watches.push (h : Watches t now s log alerts) (hcap : t.threshold ≤ t.maxEntries)
    (hle : now ≤ a.1) (e : LoginFailure) (he : e.failedAt = a.1) :
    Watches t a.1 { s with events := t.push s.events e } (log ++ [a.1]) alerts := by
  have hpos : 0 < t.maxEntries := Nat.lt_of_lt_of_le t.threshold_pos hcap
  have hcutoff : a.1 - t.window < a.1 := Int.sub_lt_self a.1 t.window_pos
  have htimes := map_push hpos h.capped e
  rw [he] at htimes
  refine ⟨?_, ?_, ?_, ?_, h.last, h.apart⟩
  · have htracks := (h.tracks.mono h.ordered (Int.sub_le_sub_right hle t.window)).slide hcutoff
    rwa [← htimes] at htracks
  · have hlength := length_slide_le t.maxEntries (a.1 - t.window) a.1
      (s.events.map LoginFailure.failedAt)
    rwa [← htimes, List.length_map] at hlength
  · refine List.pairwise_append.mpr ⟨h.ordered, List.pairwise_singleton _ _, ?_⟩
    intro x hx y hy
    rw [List.mem_singleton.mp hy]
    exact (h.past x hx).trans hle
  · intro x hx
    rcases List.mem_append.mp hx with hx | hx
    · exact (h.past x hx).trans hle
    · exact (List.mem_singleton.mp hx).le

/-- **One failure.** It fires exactly when an alert is due, and the state holds of it what it held
before. -/
theorem Watches.step (h : Watches t now s log alerts) (hcap : t.threshold ≤ t.maxEntries)
    (hle : now ≤ a.1) :
    ((t.step s a).2.isSome = true ↔ Due t log alerts a.1) ∧
      Watches t a.1 (t.step s a).1 (log ++ [a.1])
        (alerts ++ ((t.step s a).2.toList.map Prod.fst)) := by
  have hdue := h.due_iff hcap hle ⟨a.1, truncateRunes a.2.1 loginAlertUsernameRunes, a.2.2⟩ rfl
  have hpush := h.push hcap hle ⟨a.1, truncateRunes a.2.1 loginAlertUsernameRunes, a.2.2⟩ rfl
  rw [LoginAlertTracker.step, record]
  by_cases hquiet : (t.push s.events ⟨a.1, truncateRunes a.2.1 loginAlertUsernameRunes,
      a.2.2⟩).length < t.threshold ∨ sinceInstant a.1 s.lastAlert < t.cooldown
  · simp only [if_pos hquiet]
    refine ⟨?_, ?_⟩
    · rw [← hdue]
      simp [hquiet]
    · simpa using hpush
  · simp only [if_neg hquiet]
    -- an alert that fires is due, so it is a cooldown past all the alerts before
    have hnow := hdue.mp hquiet
    refine ⟨by simp [hnow], hpush.tracks, hpush.capped, hpush.ordered, hpush.past, ?_, ?_⟩
    · simp
    · refine List.pairwise_append.mpr ⟨h.apart, by simp, fun x hx y hy => ?_⟩
      have hy : y = a.1 := by simpa using hy
      rw [hy]
      exact hnow.2 x hx

/-- What a run leaves. -/
theorem watches_run (t : LoginAlertTracker) (hcap : t.threshold ≤ t.maxEntries)
    (hordered : Timed.Ordered trace) (hpast : ∀ b ∈ trace, b.1 ≤ now) :
    ∃ now' ≤ now, Watches t now' (Timed.run t.step noEvents trace) (trace.map Prod.fst)
      (t.alertTimes trace) := by
  induction trace using List.reverseRecOn generalizing now with
  | nil =>
    refine ⟨now, le_rfl, tracks_nil _ _, Nat.zero_le _, .nil, ?_, rfl, .nil⟩
    exact fun x hx => by cases hx
  | append_singleton trace a ih =>
    obtain ⟨hbefore, -, hlast⟩ := List.pairwise_append.mp hordered
    obtain ⟨now', hle, h⟩ := ih hbefore fun b hb => hlast b hb a (List.mem_singleton_self a)
    refine ⟨a.1, hpast a (by simp), ?_⟩
    rw [alertTimes, Timed.answers_concat, List.map_append, List.map_append, Timed.run_concat]
    exact (h.step hcap hle).2

/-- **Login alerts.** For failures at times that never go back, and a buffer that holds at least
the threshold: two alerts are at least the cooldown apart, and a failure fires an alert exactly
when it leaves at least the threshold of failures within the window and comes at least the
cooldown after every alert before it. -/
theorem fires_iff (t : LoginAlertTracker) (hcap : t.threshold ≤ t.maxEntries)
    (trace : List (ℤ × String × String)) (hordered : Timed.Ordered trace) :
    ((t.alertTimes trace).Pairwise fun x y => x + t.cooldown ≤ y) ∧
      ∀ before a after, trace = before ++ a :: after →
        (t.fires before a ↔
          t.threshold ≤ (recent (a.1 - t.window) ((before ++ [a]).map Prod.fst)).length ∧
            ∀ x ∈ t.alertTimes before, x + t.cooldown ≤ a.1) := by
  constructor
  · -- the whole trace lies before some time
    obtain ⟨now, hpast⟩ : ∃ now, ∀ b ∈ trace, b.1 ≤ now := by
      obtain rfl | ⟨before, a, rfl⟩ := List.eq_nil_or_concat' trace
      · exact ⟨0, fun b hb => by cases hb⟩
      · refine ⟨a.1, fun b hb => ?_⟩
        rcases List.mem_append.mp hb with hb | hb
        · exact (List.pairwise_append.mp hordered).2.2 b hb a (List.mem_singleton_self a)
        · rw [List.mem_singleton.mp hb]
    obtain ⟨_, -, h⟩ := watches_run t hcap hordered hpast
    exact h.apart
  · rintro before a after rfl
    -- the state before the failure watches what came before it
    obtain ⟨hbefore, -, hbehind⟩ := List.pairwise_append.mp hordered
    obtain ⟨now, hle, h⟩ := watches_run t hcap hbefore
      fun b hb => hbehind b hb a List.mem_cons_self
    rw [List.map_append]
    exact (h.step hcap hle).1

/-- An alert from two failures within ten, with a cooldown of five. -/
def twoInTen : LoginAlertTracker := ⟨2, 10, 5, 2, by decide, by decide, by decide, by decide⟩

/-- Four failures, of two usernames and from two addresses. -/
def fourFailures : List (ℤ × String × String) :=
  [(0, "a", "x"), (1, "b", "x"), (2, "a", "y"), (6, "a", "x")]

/-- The first two failures fire, the third is quieted by the cooldown, the fourth fires after it. -/
theorem fires_iff_fourFailures :
    newLoginAlertTracker ⟨2, 10, 5, 2, by decide⟩ = some twoInTen ∧
      ((twoInTen.alertTimes fourFailures).Pairwise fun x y => x + 5 ≤ y) ∧
      twoInTen.fires (fourFailures.take 1) (1, "b", "x") ∧
      ¬ twoInTen.fires (fourFailures.take 2) (2, "a", "y") ∧
      twoInTen.fires (fourFailures.take 3) (6, "a", "x") := by
  obtain ⟨hapart, hfires⟩ := fires_iff twoInTen (by decide) fourFailures
    (by unfold Timed.Ordered; decide)
  refine ⟨rfl, hapart, (hfires (fourFailures.take 1) _ (fourFailures.drop 2) rfl).mpr (by decide), ?_,
    (hfires (fourFailures.take 3) _ [] rfl).mpr (by decide)⟩
  rw [hfires (fourFailures.take 2) _ (fourFailures.drop 3) rfl]
  decide

example : twoInTen.alertTimes fourFailures = [1, 6] := by
  decide

end LoginAlertTracker

end HubScope
