import Mathlib
import HubScope.Lib.SlidingWindow
import HubScope.Lib.Timed

/-!
# The captcha trigger

The server asks for a captcha once an address or a user name has failed to log in too often
within a window. It keeps the failures of each in a table of bounded size, in lists that are
pruned and capped, and deletes stale keys once in a while. None of this is seen from outside: as
long as no failure finds its table full, the trigger answers as a log of all failures would.

## Main definitions

* `CaptchaTrigger` — the limits, with `required`, `recordFailure` and `reset` over `CaptchaTables`
* `FailureLog` — all failures of an address or a user name since its last reset
* `CaptchaTrigger.finds` — no failure finds its table full

## Main results

* `CaptchaTrigger.sized_run` — tables and lists are bounded in every run
* `CaptchaTrigger.answers_eq_log` — the trigger answers as the log does
-/

set_option autoImplicit false

namespace HubScope

open SlidingWindow

/-- The policy of the captcha trigger. -/
structure CaptchaPolicy where
  threshold : ℤ
  window : ℤ
  maxEntries : ℤ

/-- The default cap of each table. -/
def captchaTriggerMaxEntries : ℕ := 100000

/-- The limits of a trigger. -/
structure CaptchaTrigger where
  threshold : ℕ
  window : ℤ
  maxEntries : ℕ
  threshold_pos : 0 < threshold
  window_pos : 0 < window

/-- Build the limits. A zero policy disables the mechanism. -/
def newCaptchaTrigger (p : CaptchaPolicy) : Option CaptchaTrigger :=
  if h : p.threshold ≤ 0 ∨ p.window ≤ 0 then none
  else some {
    threshold := p.threshold.toNat
    window := p.window
    maxEntries := if p.maxEntries ≤ 0 then captchaTriggerMaxEntries else p.maxEntries.toNat
    threshold_pos := Int.lt_toNat.mpr (not_le.mp fun hle => h (Or.inl hle))
    window_pos := not_le.mp fun hle => h (Or.inr hle) }

/-- The failures by address and by user name, and the calls since the last sweep. -/
structure CaptchaTables where
  byIP : Table String ℤ
  byUser : Table String ℤ
  sweeps : ℕ

/-- What the login asks of the trigger. -/
inductive CaptchaCall
  | required (ip username : String)
  | recordFailure (ip username : String)
  | reset (ip username : String)

namespace CaptchaTrigger

variable (t : CaptchaTrigger)

/-- The cap of a list: past threshold and one the answer no longer changes. -/
def keep : ℕ := t.threshold + 1

/-- The key has reached the threshold within the window. -/
def armedLocked (m : Table String ℤ) (key : String) (cutoff : ℤ) : Bool :=
  match m.lookup key with
  | none => false
  | some e => t.threshold ≤ (recent cutoff e.times).length

/-- Either dimension is armed for this attempt. -/
def required (s : CaptchaTables) (ip username : String) (now : ℤ) : Bool :=
  let cutoff := now - t.window
  t.armedLocked s.byIP ip cutoff || t.armedLocked s.byUser username cutoff

/-- Append one failure for the key, sliding the window. -/
def recordLocked (m : Table String ℤ) (key : String) (now : ℤ) : Table String ℤ :=
  m.record t.keep t.maxEntries (now - t.window) now key

/-- Delete stale keys once every 1024 calls. -/
def evict (s : CaptchaTables) (now : ℤ) : CaptchaTables :=
  if 1024 ≤ s.sweeps + 1 then
    ⟨s.byIP.sweep (now - t.window), s.byUser.sweep (now - t.window), 0⟩
  else { s with sweeps := s.sweeps + 1 }

/-- Note one failed login in both dimensions. -/
def recordFailure (s : CaptchaTables) (ip username : String) (now : ℤ) : CaptchaTables :=
  let s := t.evict s now
  { s with
    byIP := t.recordLocked s.byIP ip now
    byUser := t.recordLocked s.byUser username now }

/-- Clear both dimensions after a successful login. -/
def reset (s : CaptchaTables) (ip username : String) : CaptchaTables :=
  { s with byIP := s.byIP.erase ip, byUser := s.byUser.erase username }

/-- One call, with what it answers. -/
def step (s : CaptchaTables) : ℤ × CaptchaCall → CaptchaTables × Option Bool
  | (now, .required ip username) => (s, some (t.required s ip username now))
  | (now, .recordFailure ip username) => (t.recordFailure s ip username now, none)
  | (_, .reset ip username) => (reset s ip username, none)

/-- No table is full for a failure that comes. -/
def finds (s : CaptchaTables) : ℤ × CaptchaCall → Prop
  | (now, .recordFailure ip username) =>
    (t.evict s now).byIP.HasRoom t.maxEntries ip ∧
      (t.evict s now).byUser.HasRoom t.maxEntries username
  | (_, .required ..) | (_, .reset ..) => True

instance (s : CaptchaTables) : ∀ a, Decidable (t.finds s a)
  | (now, .recordFailure ip username) =>
    inferInstanceAs (Decidable ((t.evict s now).byIP.HasRoom t.maxEntries ip ∧
      (t.evict s now).byUser.HasRoom t.maxEntries username))
  | (_, .required ..) | (_, .reset ..) => inferInstanceAs (Decidable True)

end CaptchaTrigger

/-- No failures yet. -/
def noFailures : CaptchaTables := ⟨∅, ∅, 0⟩

/-! ### The log -/

/-- All failures since the last reset, by address and by user name. -/
structure FailureLog where
  byIP : String → List ℤ
  byUser : String → List ℤ

namespace FailureLog

/-- The log of no failures. -/
def empty : FailureLog := ⟨fun _ => [], fun _ => []⟩

/-- A captcha is required if the failures of the address or of the user name within the window
reach the threshold. -/
def required (threshold : ℕ) (window : ℤ) (l : FailureLog) (ip username : String) (now : ℤ) :
    Bool :=
  threshold ≤ (recent (now - window) (l.byIP ip)).length ∨
    threshold ≤ (recent (now - window) (l.byUser username)).length

/-- One call, with what it answers. -/
def step (threshold : ℕ) (window : ℤ) (l : FailureLog) :
    ℤ × CaptchaCall → FailureLog × Option Bool
  | (now, .required ip username) => (l, some (l.required threshold window ip username now))
  | (now, .recordFailure ip username) =>
    (⟨Function.update l.byIP ip (l.byIP ip ++ [now]),
      Function.update l.byUser username (l.byUser username ++ [now])⟩, none)
  | (_, .reset ip username) =>
    (⟨Function.update l.byIP ip [], Function.update l.byUser username []⟩, none)

end FailureLog

/-! ### Bounds -/

namespace CaptchaTrigger

variable {t : CaptchaTrigger} {s : CaptchaTables} {l : FailureLog} {now : ℤ}
  {a : ℤ × CaptchaCall}

/-- Both tables and all of their lists are bounded. -/
structure SizedTables (t : CaptchaTrigger) (s : CaptchaTables) : Prop where
  byIP : Sized (t.threshold + 1) t.maxEntries s.byIP
  byUser : Sized (t.threshold + 1) t.maxEntries s.byUser

theorem SizedTables.evict (h : SizedTables t s) (now : ℤ) : SizedTables t (t.evict s now) := by
  rw [CaptchaTrigger.evict]
  split_ifs
  · exact ⟨h.byIP.sweep _, h.byUser.sweep _⟩
  · exact ⟨h.byIP, h.byUser⟩

theorem SizedTables.step (h : SizedTables t s) (a : ℤ × CaptchaCall) :
    SizedTables t (t.step s a).1 := by
  match a with
  | (_, .required ..) => exact h
  | (now, .recordFailure ip username) =>
    have hswept := h.evict now
    exact ⟨hswept.byIP.record _ _ _, hswept.byUser.record _ _ _⟩
  | (_, .reset ip username) => exact ⟨h.byIP.erase ip, h.byUser.erase username⟩

/-- **Bounds.** In every run, at whatever times the calls come, the tables keep to their size and
the lists to one more than the threshold. -/
theorem sized_run (t : CaptchaTrigger) (trace : List (ℤ × CaptchaCall)) :
    SizedTables t (Timed.run t.step noFailures trace) :=
  Timed.run_invariant ⟨sized_empty _ _, sized_empty _ _⟩ (fun _ a h => h.step a) trace

/-! ### Answering as the log -/

/-- At a time, the tables follow the log. -/
structure Simulates (t : CaptchaTrigger) (now : ℤ) (s : CaptchaTables) (l : FailureLog) :
    Prop where
  byIP : Follows t.keep (now - t.window) now s.byIP l.byIP
  byUser : Follows t.keep (now - t.window) now s.byUser l.byUser

theorem Simulates.mono {now' : ℤ} (h : Simulates t now s l) (hle : now ≤ now') :
    Simulates t now' s l :=
  have hc : now - t.window ≤ now' - t.window := Int.sub_le_sub_right hle _
  ⟨h.byIP.mono hc hle, h.byUser.mono hc hle⟩

theorem Simulates.evict (h : Simulates t now s l) : Simulates t now (t.evict s now) l := by
  rw [CaptchaTrigger.evict]
  split_ifs
  · exact ⟨h.byIP.sweep, h.byUser.sweep⟩
  · exact ⟨h.byIP, h.byUser⟩

/-- A key is armed when its log reaches the threshold within the window: the cap is above it. -/
theorem armedLocked_eq {m : Table String ℤ} {log : String → List ℤ} {c : ℤ}
    (h : TableTracks t.keep c m log) (key : String) :
    t.armedLocked m key c = decide (t.threshold ≤ (recent c (log key)).length) := by
  -- the list is capped at one more than the threshold, so the cap hides nothing that arms
  have hcount := (h key).length
  have hkeep : t.keep = t.threshold + 1 := rfl
  have hpos := t.threshold_pos
  rw [armedLocked]
  cases hlookup : m.lookup key with
  | none =>
    rw [times_of_lookup_none hlookup] at hcount
    have hempty : (recent c ([] : List ℤ)).length = 0 := rfl
    apply (decide_eq_false _).symm
    omega
  | some e =>
    rw [times_of_lookup hlookup] at hcount
    apply decide_eq_decide.mpr
    omega

theorem Simulates.required_eq (h : Simulates t now s l) (ip username : String) :
    t.required s ip username now = l.required t.threshold t.window ip username now := by
  simp only [CaptchaTrigger.required, FailureLog.required, armedLocked_eq h.byIP.tracks,
    armedLocked_eq h.byUser.tracks, Bool.decide_or]

/-- **One call.** The tables still follow the log, and answer as it does. -/
theorem Simulates.step (h : Simulates t now s l) (hle : now ≤ a.1) (hfinds : t.finds s a) :
    Simulates t a.1 (t.step s a).1 (l.step t.threshold t.window a).1 ∧
      (t.step s a).2 = (l.step t.threshold t.window a).2 := by
  have hnow := h.mono hle
  match a with
  | (now, .required ip username) => exact ⟨hnow, congrArg some (hnow.required_eq ip username)⟩
  | (now, .recordFailure ip username) =>
    have hswept := hnow.evict
    -- a failure is within its own window
    have hcutoff : now - t.window < now := Int.sub_lt_self now t.window_pos
    exact ⟨⟨hswept.byIP.record hfinds.1 hcutoff, hswept.byUser.record hfinds.2 hcutoff⟩, rfl⟩
  | (_, .reset ip username) => exact ⟨⟨hnow.byIP.erase ip, hnow.byUser.erase username⟩, rfl⟩

/-- **The captcha trigger refines its log.** For calls at times that never go back, none of which
finds a table full, a captcha is required exactly when the log requires one; and in every run the
tables and their lists are bounded. -/
theorem answers_eq_log (t : CaptchaTrigger) :
    (∀ trace, Timed.Ordered trace → Timed.Served t.step t.finds noFailures trace →
      Timed.answers t.step noFailures trace =
        Timed.answers (FailureLog.step t.threshold t.window) .empty trace) ∧
    ∀ trace, SizedTables t (Timed.run t.step noFailures trace) := by
  refine ⟨fun trace hordered hserved => ?_, sized_run t⟩
  apply Timed.answers_eq (R := Simulates t) _ _ hordered hserved
  · exact fun _ _ _ _ h hle hfinds => h.step hle hfinds
  · exact fun now => ⟨follows_empty _ _ now, follows_empty _ _ now⟩

/-- Two failures of an address within ten seconds arm a trigger with threshold two, and a captcha
is required of the next attempt from there. -/
theorem answers_eq_log_twoFailures : ∃ t, newCaptchaTrigger ⟨2, 10, 1⟩ = some t ∧
    Timed.answers t.step noFailures
      [(0, .recordFailure "ip" "a"), (1, .required "ip" "a"), (2, .recordFailure "ip" "a"),
        (3, .required "ip" "b")] = [false, true] := by
  refine ⟨⟨2, 10, 1, by decide, by decide⟩, rfl, ?_⟩
  rw [(answers_eq_log ⟨2, 10, 1, by decide, by decide⟩).1 _ (by unfold Timed.Ordered; decide)
    (by decide)]
  decide

end CaptchaTrigger

end HubScope
