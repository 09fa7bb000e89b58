import Mathlib
import HubScope.Lib.SlidingWindow
import HubScope.Lib.Timed

/-!
# Progressive login delay

Failed logins of one user name past a threshold within a window are delayed, by longer and longer
backoffs. Failures are kept in lists that are pruned and capped, and stale names are deleted once
in a while. A failure still earns the delay that a log of all failures since the last reset would
give it, as long as no failure finds the table full.

## Main definitions

* `LoginDelayer` — the limits, with `penalize` and `reset` over `LoginDelays`
* `LoginDelayer.earned` — the delay by the number of failures within the window
* `LoginDelayer.logStep` — the log of all failures, and the delays it gives

## Main results

* `LoginDelayer.earned_min` — a capped count earns what the count earns
* `LoginDelayer.delays_eq_log` — failures earn the delays of the log, and the bounds hold
-/

set_option autoImplicit false

namespace HubScope

open SlidingWindow

/-- The policy of the login delay. -/
structure LoginDelayPolicy where
  threshold : ℤ
  window : ℤ
  backoff : List ℤ
  maxEntries : ℤ

/-- The default cap of the table. -/
def loginDelayMaxEntries : ℕ := 100000

/-- The limits of a delayer. -/
structure LoginDelayer where
  threshold : ℕ
  window : ℤ
  backoff : List ℤ
  maxEntries : ℕ
  window_pos : 0 < window
  backoff_ne : backoff ≠ []

/-- Build the limits. A zero policy disables the mechanism. -/
def newLoginDelayer (p : LoginDelayPolicy) : Option LoginDelayer :=
  if h : p.threshold ≤ 0 ∨ p.window ≤ 0 ∨ p.backoff = [] then none
  else some {
    threshold := p.threshold.toNat
    window := p.window
    backoff := p.backoff
    maxEntries := if p.maxEntries ≤ 0 then loginDelayMaxEntries else p.maxEntries.toNat
    window_pos := not_le.mp fun hle => h (Or.inr (Or.inl hle))
    backoff_ne := fun hnil => h (Or.inr (Or.inr hnil)) }

/-- The failures by user name, and the calls since the last sweep. -/
structure LoginDelays where
  items : Table String ℤ
  sweeps : ℕ

/-- What the login asks of the delayer. -/
inductive DelayCall
  | penalize (username : String)
  | reset (username : String)

namespace LoginDelayer

variable (d : LoginDelayer)

/-- The cap of a list: past threshold and backoffs the penalty no longer changes. -/
def keep : ℕ := d.threshold + d.backoff.length

/-- Delete stale names once every 1024 calls. -/
def evict (s : LoginDelays) (now : ℤ) : LoginDelays :=
  if 1024 ≤ s.sweeps + 1 then ⟨s.items.sweep (now - d.window), 0⟩
  else { s with sweeps := s.sweeps + 1 }

/-- The sleep that a count of failures earns. -/
def penalty (count : ℕ) : Option ℤ :=
  if count ≤ d.threshold then none
  else
    let band := count - d.threshold - 1
    let band := if d.backoff.length ≤ band then d.backoff.length - 1 else band
    let delay := d.backoff.getD band 0
    if delay ≤ 0 then none else some delay

/-- Record one failed login and give the sleep it earns. A full table skips counting. -/
def penalize (s : LoginDelays) (username : String) (now : ℤ) : LoginDelays × Option ℤ :=
  let s := d.evict s now
  if s.items.HasRoom d.maxEntries username then
    let items := s.items.record d.keep d.maxEntries (now - d.window) now username
    ({ s with items }, d.penalty (items.times username).length)
  else (s, none)

/-- Clear the failures of the name after a successful login. -/
def reset (s : LoginDelays) (username : String) : LoginDelays :=
  { s with items := s.items.erase username }

/-- One call, with the sleep it earns. -/
def step (s : LoginDelays) : ℤ × DelayCall → LoginDelays × Option (Option ℤ)
  | (now, .penalize username) =>
    ((d.penalize s username now).1, some (d.penalize s username now).2)
  | (_, .reset username) => (reset s username, none)

/-- The table is not full for a failure that comes. -/
def finds (s : LoginDelays) : ℤ × DelayCall → Prop
  | (now, .penalize username) => (d.evict s now).items.HasRoom d.maxEntries username
  | (_, .reset _) => True

instance (s : LoginDelays) : ∀ a, Decidable (d.finds s a)
  | (now, .penalize username) =>
    inferInstanceAs (Decidable ((d.evict s now).items.HasRoom d.maxEntries username))
  | (_, .reset _) => inferInstanceAs (Decidable True)

/-! ### The log -/

/-- The delay by the number of failures within the window: none up to the threshold, then the
successive backoffs, the last of them again and again. -/
def earned (n : ℕ) : Option ℤ :=
  if n ≤ d.threshold then none
  else (d.backoff[n - d.threshold - 1]?.or d.backoff.getLast?).filter (0 < ·)

/-- One call on the log of all failures since the last reset, with the delay it gives. -/
def logStep (log : String → List ℤ) : ℤ × DelayCall → (String → List ℤ) × Option (Option ℤ)
  | (now, .penalize username) =>
    (Function.update log username (log username ++ [now]),
      some (d.earned (recent (now - d.window) (log username ++ [now])).length))
  | (_, .reset username) => (Function.update log username [], none)

end LoginDelayer

/-- No failures yet. -/
def noDelays : LoginDelays := ⟨∅, 0⟩

/-! ### Penalties -/

namespace LoginDelayer

variable {d : LoginDelayer} {s : LoginDelays} {log : String → List ℤ} {now : ℤ}
  {a : ℤ × DelayCall}

/-- The bands of the code are the successive backoffs. -/
theorem penalty_eq (d : LoginDelayer) (n : ℕ) : d.penalty n = d.earned n := by
  have hpos := List.length_pos_iff.mpr d.backoff_ne
  have hlast : d.backoff.getLast? = d.backoff[d.backoff.length - 1]? :=
    List.getLast?_eq_getElem? ..
  have hsleep : ∀ i < d.backoff.length, (if d.backoff.getD i 0 ≤ 0 then none
      else some (d.backoff.getD i 0)) = (d.backoff[i]?).filter (0 < ·) := by
    intro i hi
    rw [List.getD_eq_getElem?_getD, List.getElem?_eq_getElem hi, Option.getD_some,
      Option.filter_some]
    by_cases hdelay : d.backoff[i] ≤ 0
    · rw [if_pos hdelay, if_neg (by simpa using hdelay)]
    · rw [if_neg hdelay, if_pos (by simpa using hdelay)]
  by_cases hcount : n ≤ d.threshold
  · rw [penalty, earned, if_pos hcount, if_pos hcount]
  · rw [penalty, earned, if_neg hcount, if_neg hcount]
    by_cases hband : d.backoff.length ≤ n - d.threshold - 1
    · -- past the last backoff
      simp only [if_pos hband]
      rw [List.getElem?_eq_none hband, Option.none_or, hlast]
      exact hsleep _ (Nat.sub_lt hpos Nat.one_pos)
    · have hlt := Nat.not_le.mp hband
      simp only [if_neg hband]
      rw [hsleep _ hlt, List.getElem?_eq_getElem hlt, Option.some_or]

/-- A capped count earns what the count earns. -/
theorem earned_min (d : LoginDelayer) (n : ℕ) : d.earned (min d.keep n) = d.earned n := by
  have hpos := List.length_pos_iff.mpr d.backoff_ne
  have hkeep : d.keep = d.threshold + d.backoff.length := rfl
  rcases Nat.lt_or_ge d.keep n with hlt | hge
  · -- both counts are past the last backoff, or at it
    have hlast : d.backoff.getLast? = d.backoff[d.backoff.length - 1]? :=
      List.getLast?_eq_getElem? ..
    have hsub : d.keep - d.threshold - 1 = d.backoff.length - 1 := by omega
    have hpast : d.backoff.length ≤ n - d.threshold - 1 := by omega
    rw [Nat.min_eq_left (Nat.le_of_lt hlt), earned, earned, if_neg (by omega), if_neg (by omega),
      List.getElem?_eq_none hpast, Option.none_or, hlast, hsub, Option.or_self]
  · rw [Nat.min_eq_right hge]

/-! ### Bounds -/

theorem sized_evict (h : Sized d.keep d.maxEntries s.items) (now : ℤ) :
    Sized d.keep d.maxEntries (d.evict s now).items := by
  rw [evict]
  split_ifs
  · exact h.sweep _
  · exact h

theorem sized_step (h : Sized d.keep d.maxEntries s.items) (a : ℤ × DelayCall) :
    Sized d.keep d.maxEntries (d.step s a).1.items := by
  match a with
  | (now, .penalize username) =>
    have hswept := sized_evict h now
    simp only [step, penalize]
    split_ifs
    · exact hswept.record _ _ _
    · exact hswept
  | (_, .reset username) => exact h.erase username

/-! ### Earning the delay of the log -/

theorem follows_evict (h : Follows d.keep (now - d.window) now s.items log) :
    Follows d.keep (now - d.window) now (d.evict s now).items log := by
  rw [evict]
  split_ifs
  · exact h.sweep
  · exact h

/-- **One call.** The table still follows the log, and the failure earns the delay of the log. -/
theorem follows_step (h : Follows d.keep (now - d.window) now s.items log) (hle : now ≤ a.1)
    (hfinds : d.finds s a) :
    Follows d.keep (a.1 - d.window) a.1 (d.step s a).1.items (d.logStep log a).1 ∧
      (d.step s a).2 = (d.logStep log a).2 := by
  have hnow := h.mono (Int.sub_le_sub_right hle d.window) hle
  match a with
  | (now, .penalize username) =>
    have hcutoff : now - d.window < now := Int.sub_lt_self now d.window_pos
    have hroom : (d.evict s now).items.HasRoom d.maxEntries username := hfinds
    have hrecord := (follows_evict hnow).record hroom hcutoff
    simp only [step, penalize, if_pos hroom]
    refine ⟨hrecord, congrArg some ?_⟩
    -- the list of the name holds nothing that aged out, so its length is the capped count
    have hcount := (hrecord.tracks username).length
    rw [record_eq hroom, times_insert_self, recent_slide hcutoff, Function.update_self] at hcount
    rw [record_eq hroom, times_insert_self, hcount, penalty_eq, earned_min]
  | (_, .reset username) => exact ⟨hnow.erase username, rfl⟩

/-- **The login delay refines its log.** For failures and resets at times that never go back, none
of which finds the table full, every failure earns the delay of the log; and in every run the
table and its lists are bounded. -/
theorem delays_eq_log (d : LoginDelayer) :
    (∀ trace, Timed.Ordered trace → Timed.Served d.step d.finds noDelays trace →
      Timed.answers d.step noDelays trace = Timed.answers d.logStep (fun _ => []) trace) ∧
    ∀ trace, Sized (d.threshold + d.backoff.length) d.maxEntries
      (Timed.run d.step noDelays trace).items := by
  refine ⟨fun trace hordered hserved => ?_, fun trace => ?_⟩
  · apply Timed.answers_eq (R := fun now s log => Follows d.keep (now - d.window) now s.items log)
      _ _ hordered hserved
    · exact fun _ _ _ _ h hle hfinds => follows_step h hle hfinds
    · exact fun now => follows_empty _ _ now
  · apply Timed.run_invariant (I := fun s : LoginDelays => Sized d.keep d.maxEntries s.items)
    · exact sized_empty _ _
    · exact fun _ a h => sized_step h a

/-- A second and a third failure past a threshold of one earn the first and the last backoff, which
repeats. -/
theorem delays_eq_log_fourFailures : ∃ d, newLoginDelayer ⟨1, 60, [2, 4], 1⟩ = some d ∧
    Timed.answers d.step noDelays
      [(0, .penalize "a"), (1, .penalize "a"), (2, .penalize "a"), (3, .penalize "a")] =
        [none, some 2, some 4, some 4] := by
  refine ⟨⟨1, 60, [2, 4], 1, by decide, by decide⟩, rfl, ?_⟩
  rw [(delays_eq_log ⟨1, 60, [2, 4], 1, by decide, by decide⟩).1 _
    (by unfold Timed.Ordered; decide) (by decide)]
  decide

end LoginDelayer

end HubScope
