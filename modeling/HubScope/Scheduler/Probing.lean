import HubScope.Lib.Transition
import Mathlib.Algebra.Group.Int.Defs
import Mathlib.Algebra.Group.Nat.Defs
import Mathlib.Data.Int.Basic
import Mathlib.Data.List.Nodup
import Mathlib.Logic.Function.Basic
import Mathlib.Order.Basic

/-!
# The probe scheduler

The dispatcher reads the clock and the list of enabled endpoints, then takes the lock for one
endpoint after the other and starts a round of each that is due, and last marks or forgets the
endpoints that are not listed. Rounds wait for a place under the semaphore, run, and record their
completion, all at any time in between; so do edits of the endpoints and the passing of time.

A round is due one interval after the completion of the round before. The interval is computed as
a number of nanoseconds in 64 bits, which wraps for an override above 9223372036 seconds: such an
endpoint is due again at once.

## Main definitions

* `SchedulerWorld`, `schedulerStep` — the dispatcher, the rounds and the world around them
* `SchedulerEvent`, `Spaced` — what a run logs, and that rounds keep their distance in it
* `Scheduled` — the invariant

## Main results

* `Scheduled.step` — every step keeps the invariant
* `single_spaced_of_logged` — one round in flight for each endpoint, and the distance of rounds
-/

set_option autoImplicit false

namespace HubScope

open Transition

/-- What the scheduler reads of an endpoint: its override of the interval in seconds. -/
structure ProbeEndpoint where
  id : ℕ
  intervalSeconds : Option ℤ

/-- The scheduling state of one endpoint. -/
structure EndpointState where
  running : Bool
  hasRun : Bool
  completedAt : ℤ
  dropped : Bool

/-- The zero of Go's time, in nanoseconds since 1970. -/
def zeroTime : ℤ := -62135596800 * 10 ^ 9

def EndpointState.fresh : EndpointState := ⟨false, false, zeroTime, false⟩

/-- The options of the scheduler, its times in nanoseconds. -/
structure SchedulerSettings where
  defaultInterval : ℤ
  pollInterval : ℤ
  maxConcurrent : ℕ

def SchedulerSettings.default : SchedulerSettings where
  defaultInterval := 300 * 10 ^ 9
  pollInterval := 5 * 10 ^ 9
  maxConcurrent := 8

/-- Where a dispatch stands: it read the clock, or it visits the listed endpoints with the time
it would wake next. -/
inductive DispatchPc
  | idle
  | listing (now : ℤ)
  | visiting (now : ℤ) (todo : List ProbeEndpoint) (active : List ℕ) (next : ℤ)

/-- The clock, the enabled endpoints as the store lists them, and the scheduler: its entries, the
dispatch, the rounds that wait for the semaphore and the ones that hold it. -/
structure SchedulerWorld where
  now : ℤ
  enabled : List ProbeEndpoint
  entries : ℕ → Option EndpointState
  pc : DispatchPc
  waiting : List ℕ
  rounds : List ℕ
  canceled : Bool

def SchedulerWorld.initial (now : ℤ) (enabled : List ProbeEndpoint) : SchedulerWorld :=
  ⟨now, enabled, fun _ => none, .idle, [], [], false⟩

/-- Time passes, the enabled endpoints or their intervals change, the loop wakes, the list is read
or not, the next endpoint is visited, the unlisted ones are forgotten, a round gets its place,
completes or is aborted, or the scheduler is told to stop. -/
inductive SchedulerLabel
  | clock (now : ℤ)
  | edit (enabled : List ProbeEndpoint)
  | wake
  | list (ok : Bool)
  | visit
  | forget
  | acquire (id : ℕ)
  | complete (id : ℕ)
  | abort (id : ℕ)
  | cancel

/-- The effective interval in nanoseconds, computed in 64 bits. -/
def intervalFor (w : SchedulerSettings) (e : ProbeEndpoint) : ℤ :=
  match e.intervalSeconds with
  | some n => if 0 < n then Int.bmod (n * 10 ^ 9) (2 ^ 64) else w.defaultInterval
  | none => w.defaultInterval

def EndpointState.due (e : EndpointState) (interval now : ℤ) : Bool :=
  !e.hasRun || e.completedAt + interval ≤ now

/-- The entry of an endpoint, a new one if there is none. -/
def SchedulerWorld.entry (s : SchedulerWorld) (id : ℕ) : EndpointState :=
  (s.entries id).getD .fresh

/-- The endpoint whose round the next visit starts. -/
def SchedulerWorld.starts (w : SchedulerSettings) (s : SchedulerWorld) : Option ProbeEndpoint :=
  match s.pc with
  | .visiting now (e :: _) _ _ =>
    if (s.entry e.id).running = false ∧ (s.entry e.id).due (intervalFor w e) now = true then some e
    else none
  | _ => none

/-- Visit one endpoint under the lock: never while its round is in flight, and if it is due start
one. -/
def visitEndpoint (w : SchedulerSettings) (s : SchedulerWorld) (now : ℤ) (e : ProbeEndpoint)
    (todo : List ProbeEndpoint) (active : List ℕ) (next : ℤ) : SchedulerWorld :=
  let entry := s.entry e.id
  if entry.running then
    { s with entries := Function.update s.entries e.id (some entry)
             pc := .visiting now todo active next }
  else if entry.due (intervalFor w e) now then
    { s with
      entries := Function.update s.entries e.id (some { entry with running := true, hasRun := true })
      waiting := e.id :: s.waiting
      pc := .visiting now todo active next }
  else
    { s with entries := Function.update s.entries e.id (some entry)
             pc := .visiting now todo active (min next (entry.completedAt + intervalFor w e)) }

/-- Mark the unlisted entries with a round in flight, drop the others. -/
def forgetUnlisted (active : List ℕ) (entries : ℕ → Option EndpointState) (id : ℕ) :
    Option EndpointState :=
  match entries id with
  | none => none
  | some e =>
    if id ∈ active then some e
    else if e.running then some { e with dropped := true }
    else none

/-- Record that a round ended, completed or not. A dropped endpoint is forgotten. -/
def SchedulerWorld.finish (s : SchedulerWorld) (id : ℕ) (completed : Bool) : SchedulerWorld :=
  match s.entries id with
  | none => s
  | some e =>
    if e.dropped then { s with entries := Function.update s.entries id none }
    else
      let completedAt := if completed then s.now else e.completedAt
      let e := { e with running := false, completedAt := completedAt }
      { s with entries := Function.update s.entries id (some e) }

/-- One step of the scheduler or of the world around it. -/
def schedulerStep (w : SchedulerSettings) (s : SchedulerWorld) :
    SchedulerLabel → Option SchedulerWorld
  | .clock now => if s.now ≤ now then some { s with now := now } else none
  | .edit enabled => some { s with enabled := enabled }
  | .wake =>
    match s.pc with
    | .idle => some { s with pc := .listing s.now }
    | _ => none
  | .list ok =>
    match s.pc with
    | .listing now =>
      if ok = false ∨ s.canceled then some { s with pc := .idle }
      else some { s with pc := .visiting now s.enabled (s.enabled.map (·.id)) (now + w.pollInterval) }
    | _ => none
  | .visit =>
    match s.pc with
    | .visiting now (e :: todo) active next => some (visitEndpoint w s now e todo active next)
    | _ => none
  | .forget =>
    match s.pc with
    | .visiting _ [] active _ =>
      some { s with entries := forgetUnlisted active s.entries, pc := .idle }
    | _ => none
  | .acquire id =>
    if id ∈ s.waiting ∧ s.rounds.length < w.maxConcurrent then
      some { s with waiting := s.waiting.erase id, rounds := id :: s.rounds }
    else none
  | .complete id =>
    if id ∈ s.rounds then some ({ s with rounds := s.rounds.erase id }.finish id true) else none
  | .abort id =>
    if id ∈ s.waiting ∧ s.canceled then
      some ({ s with waiting := s.waiting.erase id }.finish id false)
    else none
  | .cancel => some { s with canceled := true }

/-! ### What a run logs -/

/-- A round starts, of an endpoint that is still enabled or not, a round completes, or the enabled
endpoints change. -/
inductive SchedulerEvent
  | started (e : ProbeEndpoint) (enabled : Bool) (time : ℤ)
  | completed (id : ℕ) (time : ℤ)
  | edited (enabled : List ℕ)

def schedulerEmit (w : SchedulerSettings) (s : SchedulerWorld) :
    SchedulerLabel → List SchedulerEvent
  | .visit =>
    match s.starts w with
    | some e => [.started e (decide (e.id ∈ s.enabled.map (·.id))) s.now]
    | none => []
  | .complete id => [.completed id s.now]
  | .edit enabled => [.edited (enabled.map (·.id))]
  | _ => []

/-- The last round of an endpoint: when it completed, and that the endpoint stayed enabled since
its start. -/
structure RoundRecord where
  completedAt : Option ℤ
  stayed : Bool

def recordEvent (id : ℕ) (r : Option RoundRecord) : SchedulerEvent → Option RoundRecord
  | .started e enabled _ => if e.id = id then some ⟨none, enabled⟩ else r
  | .completed id' time => if id' = id then r.map ({ · with completedAt := some time }) else r
  | .edited enabled => if id ∈ enabled then r else r.map ({ · with stayed := false })

def lastRound (id : ℕ) (log : List SchedulerEvent) : Option RoundRecord :=
  log.foldl (recordEvent id) none

/-- The interval in force, as the endpoint's settings have it. -/
def intervalInForce (w : SchedulerSettings) (e : ProbeEndpoint) : ℤ :=
  match e.intervalSeconds with
  | some n => if 0 < n then n * 10 ^ 9 else w.defaultInterval
  | none => w.defaultInterval

/-- A round of an endpoint that stayed enabled since its last round started begins one interval
after the last round completed. -/
def Spaced (w : SchedulerSettings) (log : List SchedulerEvent) : Prop :=
  ∀ before e enabled time after, log = before ++ .started e enabled time :: after →
    ∀ r ∈ lastRound e.id before, r.stayed = true →
      ∀ completed ∈ r.completedAt, completed + intervalInForce w e ≤ time

/-- The override is a number of nanoseconds in 64 bits. -/
def ProbeEndpoint.Fits (e : ProbeEndpoint) : Prop := ∀ n ∈ e.intervalSeconds, n ≤ 9223372036

/-- Every round is started under an override that fits. -/
def startsFit (w : SchedulerSettings) (s : SchedulerWorld) (a : SchedulerLabel) : Prop :=
  a = .visit → ∀ e ∈ s.starts w, e.Fits

instance (e : ProbeEndpoint) : Decidable e.Fits :=
  inferInstanceAs (Decidable (∀ n ∈ e.intervalSeconds, n ≤ 9223372036))

instance (w : SchedulerSettings) (s : SchedulerWorld) (a : SchedulerLabel) :
    Decidable (startsFit w s a) :=
  match a with
  | .visit => decidable_of_iff (∀ e ∈ s.starts w, e.Fits) (by simp [startsFit])
  | .clock _ | .edit _ | .wake | .list _ | .forget | .acquire _ | .complete _ | .abort _ |
    .cancel => isTrue nofun

theorem intervalFor_eq {w : SchedulerSettings} {e : ProbeEndpoint} (h : e.Fits) :
    intervalFor w e = intervalInForce w e := by
  unfold intervalFor intervalInForce
  split
  · rename_i n hn
    split_ifs with hpos
    · have hle := h n hn
      apply Int.bmod_eq_of_le <;> omega
    · rfl
  · rfl

@[simp] theorem lastRound_concat (id : ℕ) (log : List SchedulerEvent) (ev : SchedulerEvent) :
    lastRound id (log ++ [ev]) = recordEvent id (lastRound id log) ev := by
  simp [lastRound]

/-- A log stays spaced with an event that is no start, or with a start that keeps its distance. -/
theorem Spaced.concat {w : SchedulerSettings} {log : List SchedulerEvent} {ev : SchedulerEvent}
    (h : Spaced w log)
    (hev : ∀ e enabled time, ev = .started e enabled time → ∀ r ∈ lastRound e.id log,
      r.stayed = true → ∀ completed ∈ r.completedAt, completed + intervalInForce w e ≤ time) :
    Spaced w (log ++ [ev]) := by
  intro before e enabled time after hsplit
  rcases List.eq_nil_or_concat' after with rfl | ⟨after, last, rfl⟩
  · obtain ⟨rfl, hlast⟩ := List.append_inj' hsplit rfl
    exact hev e enabled time (List.singleton_inj.mp hlast)
  · rw [← List.cons_append, ← List.append_assoc] at hsplit
    exact h before e enabled time after (List.append_inj' hsplit rfl).1

/-! ### The invariant -/

/-- What holds of an endpoint that stayed enabled since its last round started: it is listed, in
the dispatch under way as well, and its entry has the completion of that round, if it is over. -/
structure Kept (s : SchedulerWorld) (id : ℕ) (r : RoundRecord) : Prop where
  enabled : id ∈ s.enabled.map (·.id)
  active : ∀ now todo active next, s.pc = .visiting now todo active next → id ∈ active
  entry : ∃ e, s.entries id = some e ∧ e.hasRun = true ∧ e.dropped = false ∧
    (e.running = true → r.completedAt = none) ∧
    (e.running = false → ∀ t ∈ r.completedAt, e.completedAt = t)

/-- The rounds in flight are the running entries, each once; only they are dropped; the dispatch
is not ahead of the clock and visits listed endpoints. -/
structure Scheduled (s : SchedulerWorld) (log : List SchedulerEvent) : Prop where
  single : (s.waiting ++ s.rounds).Nodup
  inFlight : ∀ id, id ∈ s.waiting ++ s.rounds ↔
    ∃ e, s.entries id = some e ∧ e.running = true
  dropped : ∀ id e, s.entries id = some e → e.dropped = true → e.running = true
  listing : ∀ now, s.pc = .listing now → now ≤ s.now
  visiting : ∀ now todo active next, s.pc = .visiting now todo active next →
    now ≤ s.now ∧ ∀ e ∈ todo, e.id ∈ active
  kept : ∀ id r, lastRound id log = some r → r.stayed = true → Kept s id r

theorem Scheduled.initial (now : ℤ) (enabled : List ProbeEndpoint) :
    Scheduled (.initial now enabled) [] where
  single := List.nodup_nil
  inFlight id := by simp [SchedulerWorld.initial]
  dropped _ _ h := by cases h
  listing _ h := by cases h
  visiting _ _ _ _ h := by cases h
  kept _ _ h := by cases h

variable {w : SchedulerSettings} {s : SchedulerWorld} {log : List SchedulerEvent}

theorem Scheduled.clock (h : Scheduled s log) {now : ℤ} (hnow : s.now ≤ now) :
    Scheduled { s with now := now } log where
  __ := h
  listing t ht := Int.le_trans (h.listing t ht) hnow
  visiting t todo active next ht :=
    ⟨Int.le_trans (h.visiting t todo active next ht).1 hnow, (h.visiting t todo active next ht).2⟩
  kept id r hr hstayed := { h.kept id r hr hstayed with }

theorem Scheduled.edit (h : Scheduled s log) (enabled : List ProbeEndpoint) :
    Scheduled { s with enabled := enabled } (log ++ [.edited (enabled.map (·.id))]) where
  __ := h
  kept id r hr hstayed := by
    rw [lastRound_concat, recordEvent] at hr
    split_ifs at hr with hmem
    · exact { h.kept id r hr hstayed with enabled := hmem }
    -- an endpoint that is not listed any more did not stay enabled
    · obtain ⟨r', -, rfl⟩ := Option.map_eq_some_iff.mp hr
      cases hstayed

/-- A dispatch that is not under way lists no endpoints. -/
theorem Scheduled.setPc (h : Scheduled s log) {pc : DispatchPc}
    (hlisting : ∀ now, pc = .listing now → now ≤ s.now)
    (hvisiting : ∀ now todo active next, pc = .visiting now todo active next →
      now ≤ s.now ∧ (∀ e ∈ todo, e.id ∈ active) ∧
        ∀ id, id ∈ s.enabled.map (·.id) →
          (∀ now todo active next, s.pc = .visiting now todo active next → id ∈ active) →
          id ∈ active) :
    Scheduled { s with pc := pc } log where
  __ := h
  listing := hlisting
  visiting now todo active next hpc :=
    ⟨(hvisiting now todo active next hpc).1, (hvisiting now todo active next hpc).2.1⟩
  kept id r hr hstayed :=
    { h.kept id r hr hstayed with
      active := fun now todo active next hpc => (hvisiting now todo active next hpc).2.2 id
        (h.kept id r hr hstayed).enabled (h.kept id r hr hstayed).active }

/-- An entry that is not new is there already. -/
theorem update_entry {id : ℕ} (h : (s.entry id).running = true ∨ (s.entry id).hasRun = true) :
    Function.update s.entries id (some (s.entry id)) = s.entries := by
  cases hentry : s.entries id with
  | none =>
    simp [SchedulerWorld.entry, hentry, EndpointState.fresh] at h
  | some e =>
    rw [SchedulerWorld.entry, hentry, Option.getD_some, ← hentry, Function.update_eq_self]

/-- A visit that starts no round moves on. -/
theorem Scheduled.skip (h : Scheduled s log) {now next next' : ℤ} {e : ProbeEndpoint}
    {todo : List ProbeEndpoint} {active : List ℕ}
    (hpc : s.pc = .visiting now (e :: todo) active next) :
    Scheduled { s with pc := .visiting now todo active next' } log := by
  obtain ⟨hnow, htodo⟩ := h.visiting _ _ _ _ hpc
  refine h.setPc (fun _ hl => by cases hl) fun _ _ _ _ hv => ?_
  cases hv
  exact ⟨hnow, fun x hx => htodo x (List.mem_cons_of_mem _ hx), fun id _ hactive =>
    hactive _ _ _ _ hpc⟩

/-- A visit that starts a round. -/
theorem Scheduled.start (h : Scheduled s log) {now next time : ℤ} {e : ProbeEndpoint}
    {todo : List ProbeEndpoint} {active : List ℕ}
    (hpc : s.pc = .visiting now (e :: todo) active next) (hrun : (s.entry e.id).running = false) :
    Scheduled { s with
        entries := Function.update s.entries e.id
          (some { s.entry e.id with running := true, hasRun := true })
        waiting := e.id :: s.waiting
        pc := .visiting now todo active next }
      (log ++ [.started e (decide (e.id ∈ s.enabled.map (·.id))) time]) := by
  obtain ⟨hnow, htodo⟩ := h.visiting _ _ _ _ hpc
  -- an entry that is not running has no round in flight
  have hidle : e.id ∉ s.waiting ++ s.rounds := by
    rw [h.inFlight]
    rintro ⟨e', hentry, hrunning⟩
    rw [SchedulerWorld.entry, hentry, Option.getD_some, hrunning] at hrun
    cases hrun
  -- nor was it dropped, which is noted of running entries only
  have hdropped : (s.entry e.id).dropped = false := by
    by_contra hd
    cases hentry : s.entries e.id with
    | none => simp [SchedulerWorld.entry, hentry, EndpointState.fresh] at hd
    | some e' =>
      rw [SchedulerWorld.entry, hentry, Option.getD_some] at hd hrun
      rw [h.dropped e.id e' hentry (by simpa using hd)] at hrun
      cases hrun
  have hvisiting : ∀ now' todo' active' next',
      DispatchPc.visiting now todo active next = .visiting now' todo' active' next' →
      now = now' ∧ todo = todo' ∧ active = active' := by
    rintro _ _ _ _ ⟨⟩
    exact ⟨rfl, rfl, rfl⟩
  constructor
  case single => exact List.nodup_cons.mpr ⟨hidle, h.single⟩
  case inFlight =>
    intro id
    rw [List.cons_append, List.mem_cons]
    by_cases hid : id = e.id
    · simp [hid]
    · simpa [hid] using h.inFlight id
  case dropped =>
    intro id e' hentry hd
    by_cases hid : id = e.id
    · subst hid
      simp only [Function.update_self, Option.some.injEq] at hentry
      rw [← hentry]
    · refine h.dropped id e' ?_ hd
      simpa only [Function.update_of_ne hid] using hentry
  case listing =>
    rintro _ ⟨⟩
  case visiting =>
    intro _ _ _ _ hv
    obtain ⟨rfl, rfl, rfl⟩ := hvisiting _ _ _ _ hv
    exact ⟨hnow, fun x hx => htodo x (List.mem_cons_of_mem _ hx)⟩
  case kept =>
    intro id r hr hstayed
    rw [lastRound_concat, recordEvent] at hr
    split_ifs at hr with hid
    · subst hid
      obtain rfl := Option.some.inj hr
      refine ⟨of_decide_eq_true hstayed, fun _ _ _ _ hv => ?_, _, Function.update_self .., rfl,
        hdropped, fun _ => rfl, fun hf => nomatch hf⟩
      obtain ⟨rfl, rfl, rfl⟩ := hvisiting _ _ _ _ hv
      exact htodo e (List.mem_cons_self ..)
    · obtain ⟨henabled, hact, hentry⟩ := h.kept id r hr hstayed
      refine ⟨henabled, fun _ _ _ _ hv => ?_, ?_⟩
      · obtain ⟨rfl, rfl, rfl⟩ := hvisiting _ _ _ _ hv
        exact hact _ _ _ _ hpc
      · simpa only [Function.update_of_ne (Ne.symm hid)] using hentry

/-- Forgetting keeps listed endpoints, and only marks those with a round in flight. -/
theorem forgetUnlisted_eq_some {active : List ℕ} {entries : ℕ → Option EndpointState} {id : ℕ}
    {e : EndpointState} (h : forgetUnlisted active entries id = some e) :
    entries id = some e ∨
      ∃ e', entries id = some e' ∧ e'.running = true ∧ e = { e' with dropped := true } := by
  unfold forgetUnlisted at h
  split at h
  · cases h
  · rename_i e' he'
    split_ifs at h with hactive hrunning
    · exact Or.inl (he'.trans h)
    · exact Or.inr ⟨e', he', hrunning, (Option.some.inj h).symm⟩

theorem forgetUnlisted_running {active : List ℕ} {entries : ℕ → Option EndpointState} {id : ℕ} :
    (∃ e, forgetUnlisted active entries id = some e ∧ e.running = true) ↔
      ∃ e, entries id = some e ∧ e.running = true := by
  constructor
  · rintro ⟨e, he, hrunning⟩
    rcases forgetUnlisted_eq_some he with he | ⟨e', he', hrunning', -⟩
    · exact ⟨e, he, hrunning⟩
    · exact ⟨e', he', hrunning'⟩
  · rintro ⟨e, he, hrunning⟩
    by_cases hactive : id ∈ active
    · exact ⟨e, by simp [forgetUnlisted, he, hactive], hrunning⟩
    · exact ⟨{ e with dropped := true }, by simp [forgetUnlisted, he, hactive, hrunning], hrunning⟩

theorem Scheduled.forget (h : Scheduled s log) {now next : ℤ} {active : List ℕ}
    (hpc : s.pc = .visiting now [] active next) :
    Scheduled { s with entries := forgetUnlisted active s.entries, pc := .idle } log where
  single := h.single
  inFlight id := (h.inFlight id).trans forgetUnlisted_running.symm
  dropped id e he hd := by
    rcases forgetUnlisted_eq_some he with he | ⟨e', he', hrunning, rfl⟩
    · exact h.dropped id e he hd
    · exact hrunning
  listing _ hl := by cases hl
  visiting _ _ _ _ hv := by cases hv
  kept id r hr hstayed := by
    obtain ⟨henabled, hactive, e, he, hentry⟩ := h.kept id r hr hstayed
    have hlisted : id ∈ active := hactive _ _ _ _ hpc
    exact ⟨henabled, nofun, e, by simp [forgetUnlisted, he, hlisted], hentry⟩

theorem Scheduled.acquire (h : Scheduled s log) {id : ℕ} (hid : id ∈ s.waiting) :
    Scheduled { s with waiting := s.waiting.erase id, rounds := id :: s.rounds } log := by
  have hperm : (s.waiting.erase id ++ id :: s.rounds).Perm (s.waiting ++ s.rounds) :=
    List.perm_middle.trans ((List.perm_cons_erase hid).symm.append_right s.rounds)
  exact { h with
    single := hperm.nodup_iff.mpr h.single
    inFlight := fun x => hperm.mem_iff.trans (h.inFlight x)
    kept := fun x r hr hstayed => { h.kept x r hr hstayed with } }

/-- A round that is over leaves the lists, and its entry is not running, or gone. -/
theorem Scheduled.land (h : Scheduled s log) {id : ℕ} {waiting rounds : List ℕ}
    (hperm : (id :: (waiting ++ rounds)).Perm (s.waiting ++ s.rounds))
    {o : Option EndpointState} (ho : ∀ e ∈ o, e.running = false ∧ e.dropped = false)
    {log' : List SchedulerEvent}
    (hsame : ∀ x r, x ≠ id → lastRound x log' = some r → lastRound x log = some r)
    (hid : ∀ r, lastRound id log' = some r → r.stayed = true →
      ∃ r', lastRound id log = some r' ∧ r'.stayed = true ∧
        ∃ e, o = some e ∧ e.hasRun = true ∧ ∀ t ∈ r.completedAt, e.completedAt = t) :
    Scheduled { s with
      waiting := waiting, rounds := rounds, entries := Function.update s.entries id o } log' := by
  -- an endpoint has one round in flight, so that none is left of this one
  obtain ⟨hnew, hsingle⟩ := List.nodup_cons.mp (hperm.nodup_iff.mpr h.single)
  constructor
  case single => exact hsingle
  case inFlight =>
    intro x
    by_cases hx : x = id
    · subst hx
      refine iff_of_false hnew ?_
      rintro ⟨e, he, hrunning⟩
      simp only [Function.update_self] at he
      rw [(ho e he).1] at hrunning
      cases hrunning
    · have hmem : x ∈ waiting ++ rounds ↔ x ∈ s.waiting ++ s.rounds := by
        rw [← hperm.mem_iff, List.mem_cons, or_iff_right hx]
      simpa only [Function.update_of_ne hx] using hmem.trans (h.inFlight x)
  case dropped =>
    intro x e he hd
    by_cases hx : x = id
    · subst hx
      simp only [Function.update_self] at he
      rw [(ho e he).2] at hd
      cases hd
    · exact h.dropped x e (by simpa only [Function.update_of_ne hx] using he) hd
  case listing => exact h.listing
  case visiting => exact h.visiting
  case kept =>
    intro x r hr hstayed
    by_cases hx : x = id
    · subst hx
      obtain ⟨r', hr', hstayed', e, rfl, hrun, htime⟩ := hid r hr hstayed
      obtain ⟨henabled, hactive, -⟩ := h.kept x r' hr' hstayed'
      obtain ⟨hrunning, hdropped⟩ := ho e rfl
      refine ⟨henabled, hactive, e, Function.update_self .., hrun, hdropped, ?_, fun _ => htime⟩
      intro hcontra
      rw [hrunning] at hcontra
      cases hcontra
    · obtain ⟨henabled, hactive, hentry⟩ := h.kept x r (hsame x r hx hr) hstayed
      refine ⟨henabled, hactive, ?_⟩
      simpa only [Function.update_of_ne hx] using hentry

/-- A round completes: the entry has the time, unless the endpoint was dropped meanwhile. -/
theorem Scheduled.complete (h : Scheduled s log) {id : ℕ} (hid : id ∈ s.rounds) :
    Scheduled ({ s with rounds := s.rounds.erase id }.finish id true)
      (log ++ [.completed id s.now]) := by
  have hperm : (id :: (s.waiting ++ s.rounds.erase id)).Perm (s.waiting ++ s.rounds) :=
    List.perm_middle.symm.trans ((List.perm_cons_erase hid).symm.append_left s.waiting)
  obtain ⟨e, he, hrunning⟩ := (h.inFlight id).mp (List.mem_append_right _ hid)
  have hsame : ∀ x r, x ≠ id → lastRound x (log ++ [.completed id s.now]) = some r →
      lastRound x log = some r := by
    intro x r hx hr
    rwa [lastRound_concat, recordEvent, if_neg (Ne.symm hx)] at hr
  have hback : ∀ r, lastRound id (log ++ [.completed id s.now]) = some r → r.stayed = true →
      r.completedAt = some s.now ∧ ∃ r', lastRound id log = some r' ∧ r'.stayed = true := by
    intro r hr hstayed
    rw [lastRound_concat, recordEvent, if_pos rfl] at hr
    obtain ⟨r', hr', rfl⟩ := Option.map_eq_some_iff.mp hr
    exact ⟨rfl, r', hr', hstayed⟩
  unfold SchedulerWorld.finish
  simp only [he]
  split_ifs with hdropped
  · refine h.land hperm (by simp) hsame fun r hr hstayed => ?_
    -- an endpoint that stayed enabled is not dropped
    obtain ⟨-, r', hr', hstayed'⟩ := hback r hr hstayed
    obtain ⟨-, -, e', he', -, hkept, -⟩ := h.kept id r' hr' hstayed'
    obtain rfl := Option.some.inj (he.symm.trans he')
    rw [hkept] at hdropped
    cases hdropped
  · refine h.land hperm ?_ hsame fun r hr hstayed => ?_
    · rintro _ ⟨⟩
      exact ⟨rfl, by simpa using hdropped⟩
    · obtain ⟨hcompleted, r', hr', hstayed'⟩ := hback r hr hstayed
      obtain ⟨-, -, e', he', hrun, -⟩ := h.kept id r' hr' hstayed'
      obtain rfl := Option.some.inj (he.symm.trans he')
      refine ⟨r', hr', hstayed', _, rfl, hrun, fun t ht => ?_⟩
      exact Option.some.inj (hcompleted.symm.trans ht)

/-- A round that never got its place leaves the completion before it. -/
theorem Scheduled.abort (h : Scheduled s log) {id : ℕ} (hid : id ∈ s.waiting) :
    Scheduled ({ s with waiting := s.waiting.erase id }.finish id false) log := by
  have hperm : (id :: (s.waiting.erase id ++ s.rounds)).Perm (s.waiting ++ s.rounds) :=
    (List.perm_cons_erase hid).symm.append_right s.rounds
  obtain ⟨e, he, hrunning⟩ := (h.inFlight id).mp (List.mem_append_left _ hid)
  unfold SchedulerWorld.finish
  simp only [he, Bool.false_eq_true, if_false]
  split_ifs with hdropped
  · refine h.land hperm (by simp) (fun _ _ _ hr => hr) fun r hr hstayed => ?_
    obtain ⟨-, -, e', he', -, hkept, -⟩ := h.kept id r hr hstayed
    obtain rfl := Option.some.inj (he.symm.trans he')
    rw [hkept] at hdropped
    cases hdropped
  · refine h.land hperm ?_ (fun _ _ _ hr => hr) fun r hr hstayed => ?_
    · rintro _ ⟨⟩
      exact ⟨rfl, by simpa using hdropped⟩
    · obtain ⟨-, -, e', he', hrun, -, hnone, -⟩ := h.kept id r hr hstayed
      obtain rfl := Option.some.inj (he.symm.trans he')
      refine ⟨r, hr, hstayed, _, rfl, hrun, fun t ht => ?_⟩
      rw [hnone hrunning] at ht
      cases ht

/-! ### Runs -/

/-- The visit of the next endpoint, as a step. -/
theorem visitEndpoint_cases {now next : ℤ} {e : ProbeEndpoint} {todo : List ProbeEndpoint}
    {active : List ℕ} (hpc : s.pc = .visiting now (e :: todo) active next) :
    (s.starts w = none ∧
        ∃ next', visitEndpoint w s now e todo active next =
          { s with pc := .visiting now todo active next' }) ∨
      (s.starts w = some e ∧ (s.entry e.id).running = false ∧
        (s.entry e.id).due (intervalFor w e) now = true ∧
        visitEndpoint w s now e todo active next = { s with
          entries := Function.update s.entries e.id
            (some { s.entry e.id with running := true, hasRun := true })
          waiting := e.id :: s.waiting
          pc := .visiting now todo active next }) := by
  have hstarts : s.starts w =
      if (s.entry e.id).running = false ∧ (s.entry e.id).due (intervalFor w e) now = true
      then some e else none := by
    rw [SchedulerWorld.starts, hpc]
  unfold visitEndpoint
  by_cases hrunning : (s.entry e.id).running = true
  · refine Or.inl ⟨?_, next, ?_⟩
    · rw [hstarts, if_neg]
      simp [hrunning]
    · simp only [if_pos hrunning, update_entry (Or.inl hrunning)]
  · by_cases hdue : (s.entry e.id).due (intervalFor w e) now = true
    · refine Or.inr ⟨?_, by simpa using hrunning, hdue, ?_⟩
      · rw [hstarts, if_pos ⟨by simpa using hrunning, hdue⟩]
      · simp only [if_neg hrunning, if_pos hdue]
    -- only an entry that has run is not due
    · have hrun : (s.entry e.id).hasRun = true := by
        by_contra hnever
        simp [EndpointState.due, hnever] at hdue
      refine Or.inl ⟨?_, min next ((s.entry e.id).completedAt + intervalFor w e), ?_⟩
      · rw [hstarts, if_neg fun hboth => hdue hboth.2]
      · simp only [if_neg hrunning, if_neg hdue, update_entry (Or.inr hrun)]

/-- **Every step keeps the invariant.** -/
theorem Scheduled.step (h : Scheduled s log) {a : SchedulerLabel} {s' : SchedulerWorld}
    (hs : schedulerStep w s a = some s') : Scheduled s' (log ++ schedulerEmit w s a) := by
  cases a with
  | clock now =>
    simp only [schedulerStep] at hs
    split_ifs at hs with hnow
    obtain rfl := Option.some.inj hs
    simpa [schedulerEmit] using h.clock hnow
  | edit enabled =>
    obtain rfl := Option.some.inj hs
    exact h.edit enabled
  | wake =>
    simp only [schedulerStep] at hs
    split at hs
    · obtain rfl := Option.some.inj hs
      simp only [schedulerEmit, List.append_nil]
      refine h.setPc (fun now hnow => ?_) nofun
      cases hnow
      exact Int.le_refl _
    · cases hs
  | list ok =>
    simp only [schedulerStep] at hs
    simp only [schedulerEmit, List.append_nil]
    split at hs
    · rename_i now hpc
      split_ifs at hs
      · obtain rfl := Option.some.inj hs
        exact h.setPc nofun nofun
      · obtain rfl := Option.some.inj hs
        refine h.setPc nofun fun now' todo active next hv => ?_
        cases hv
        exact ⟨h.listing now hpc, fun e he => List.mem_map_of_mem he, fun _ hid _ => hid⟩
    · cases hs
  | visit =>
    simp only [schedulerStep] at hs
    split at hs
    · rename_i now e todo active next hpc
      obtain rfl := Option.some.inj hs
      -- a visit starts a round or passes the endpoint by
      rcases visitEndpoint_cases hpc with ⟨hnone, next', heq⟩ | ⟨hstart, hrunning, -, heq⟩
      · rw [heq, schedulerEmit, hnone, List.append_nil]
        exact h.skip hpc
      · rw [heq, schedulerEmit, hstart]
        exact h.start hpc hrunning
    · cases hs
  | forget =>
    simp only [schedulerStep] at hs
    simp only [schedulerEmit, List.append_nil]
    split at hs
    · rename_i hpc
      obtain rfl := Option.some.inj hs
      exact h.forget hpc
    · cases hs
  | acquire id =>
    simp only [schedulerStep] at hs
    split_ifs at hs with hid
    obtain rfl := Option.some.inj hs
    simp only [schedulerEmit, List.append_nil]
    exact h.acquire hid.1
  | complete id =>
    simp only [schedulerStep] at hs
    split_ifs at hs with hid
    obtain rfl := Option.some.inj hs
    exact h.complete hid
  | abort id =>
    simp only [schedulerStep] at hs
    split_ifs at hs with hid
    obtain rfl := Option.some.inj hs
    simp only [schedulerEmit, List.append_nil]
    exact h.abort hid.1
  | cancel =>
    obtain rfl := Option.some.inj hs
    simp only [schedulerEmit, List.append_nil]
    exact { h with kept := fun x r hr hstayed => { h.kept x r hr hstayed with } }

/-- A round that is started under an override that fits keeps its distance. -/
theorem Spaced.step (h : Scheduled s log) (hspaced : Spaced w log) {a : SchedulerLabel}
    {s' : SchedulerWorld} (hfit : startsFit w s a) (hs : schedulerStep w s a = some s') :
    Spaced w (log ++ schedulerEmit w s a) := by
  cases a with
  | visit =>
    rw [schedulerEmit]
    simp only [schedulerStep] at hs
    split at hs
    · rename_i now e todo active next hpc
      rcases visitEndpoint_cases hpc with ⟨hnone, -⟩ | ⟨hstart, hrunning, hdue, -⟩
      · rw [hnone, List.append_nil]
        exact hspaced
      · rw [hstart]
        refine hspaced.concat ?_
        rintro _ _ _ ⟨⟩ r hr hstayed completed hcompleted
        -- the last round of the endpoint completed, at least an interval before
        obtain ⟨-, -, entry, hentry, hrun, -, -, htime⟩ := h.kept e.id r hr hstayed
        rw [SchedulerWorld.entry, hentry, Option.getD_some] at hrunning hdue
        simp only [EndpointState.due, hrun, Bool.not_true, Bool.false_or, decide_eq_true_eq] at hdue
        rw [htime hrunning completed hcompleted, intervalFor_eq (hfit rfl e hstart)] at hdue
        exact Int.le_trans hdue (h.visiting _ _ _ _ hpc).1
    · cases hs
  | edit _ | complete _ => exact hspaced.concat nofun
  | clock _ | wake | list _ | forget | acquire _ | abort _ | cancel =>
    simp only [schedulerEmit, List.append_nil]
    exact hspaced

/-- **In every run there is one round in flight for each endpoint at most. If no override is too
large for 64 bits, each round of an endpoint that stays enabled starts an interval after the
completion of the round before.** -/
theorem single_spaced_of_logged (w : SchedulerSettings) (now : ℤ) (enabled : List ProbeEndpoint)
    (s : SchedulerWorld) (log : List SchedulerEvent)
    (h : Logged (schedulerStep w) (startsFit w) (schedulerEmit w) (.initial now enabled) s log) :
    (s.waiting ++ s.rounds).Nodup ∧ Spaced w log := by
  have hinv : Scheduled s log ∧ Spaced w log := by
    refine Logged.invariant_of (I := fun s log => Scheduled s log ∧ Spaced w log)
      (J := fun _ => True) (fun _ _ => trivial) ⟨.initial now enabled, ?_⟩ ?_ h
    · intro before e enabled time after hsplit
      simp at hsplit
    · rintro t bs a u - ⟨hscheduled, hspaced⟩ hguard hstep
      exact ⟨hscheduled.step hstep, Spaced.step hscheduled hspaced hguard hstep⟩
  exact ⟨hinv.1.single, hinv.2⟩

/-- Two rounds of an endpoint, the second one as soon as its minute is over. -/
def twoRounds : List SchedulerLabel :=
  [.wake, .list true, .visit, .forget, .acquire 1, .clock (10 ^ 10), .complete 1,
    .clock (7 * 10 ^ 10), .wake, .list true, .visit, .forget]

theorem single_spaced_twoRounds : ∃ s log,
    Logged (schedulerStep .default) (startsFit .default) (schedulerEmit .default)
      (.initial 0 [⟨1, some 60⟩]) s log ∧ log.length = 3 ∧
    (s.waiting ++ s.rounds).Nodup ∧ Spaced .default log := by
  have hrun : Logged (schedulerStep .default) (startsFit .default) (schedulerEmit .default)
      (.initial 0 [⟨1, some 60⟩]) _ _ :=
    Logged.of_replayWith (rfl : replayWith _ _ _ twoRounds = _)
  exact ⟨_, _, hrun, rfl, single_spaced_of_logged .default 0 [⟨1, some 60⟩] _ _ hrun⟩

/-- With an override of 9223372037 seconds the interval is negative, and the round after the first
starts when that completes. -/
theorem not_spaced : ¬ ∀ (w : SchedulerSettings) (now : ℤ) (enabled : List ProbeEndpoint)
    (s : SchedulerWorld) (log : List SchedulerEvent),
    Logged (schedulerStep w) anyStep (schedulerEmit w) (.initial now enabled) s log →
      (s.waiting ++ s.rounds).Nodup ∧ Spaced w log := by
  intro h
  have hrun : Logged (schedulerStep .default) anyStep (schedulerEmit .default)
      (.initial 0 [⟨1, some 9223372037⟩]) _ _ :=
    Logged.of_replay (fun _ _ _ => trivial) (rfl : replay _ _ twoRounds = _)
  have hspaced := (h _ _ _ _ _ hrun).2 [.started ⟨1, some 9223372037⟩ true 0, .completed 1 (10 ^ 10)]
    ⟨1, some 9223372037⟩ true (7 * 10 ^ 10) [] rfl ⟨some (10 ^ 10), true⟩ rfl rfl (10 ^ 10) rfl
  revert hspaced
  decide

end HubScope
