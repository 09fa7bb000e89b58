import HubScope.Lib.Calendar
import HubScope.Lib.Transition

/-!
# The weekly batch

On Sunday mornings before six, local time, the worker creates one scheduled campaign. It
remembers the date it fired on, and as its memory does not outlive the process it first asks the
store for scheduled runs since local midnight. The store compares texts: the run's start, written
in UTC, with midnight, written in the local zone. A run counts just when its UTC day is not before
the Sunday, so east of Greenwich the runs of the first hours of the Sunday do not.

## Main definitions

* `WeeklyWorld`, `weeklyStep` — the worker, its store and the clock
* `restartCovered` — a restart in the window of a batch finds a run of it
* `Weekly` — the invariant

## Main results

* `hasScheduledEvalRunSince_iff` — the question to the store, in days
* `Weekly.step` — every covered step keeps the invariant
* `nodup_sundays_of_reach` — one batch in each Sunday's window
-/

set_option autoImplicit false

namespace HubScope

open Transition Calendar

/-! ### Points in time -/

/-- The days and seconds of a time in a zone, counted from the year 0. -/
def dayOf (offset t : ℤ) : ℕ := ((t + offset) / 86400).toNat

def secondOf (offset t : ℤ) : ℕ := ((t + offset) % 86400).toNat

/-- A time in seconds whose date has four digits for the year, in UTC and in the local zone. -/
structure Instant (offset : ℤ) where
  seconds : ℤ
  utc : 0 ≤ seconds
  local_ : 0 ≤ seconds + offset
  utc_year : (civil (dayOf 0 seconds)).year < 10000
  local_year : (civil (dayOf offset seconds)).year < 10000

variable {offset : ℤ}

/-- The local day. -/
def Instant.day (t : Instant offset) : ℕ := dayOf offset t.seconds

/-- The day in UTC. -/
def Instant.utcDay (t : Instant offset) : ℕ := dayOf 0 t.seconds

/-- Before this hour the batch may fire. -/
def weeklyEvalHourLimit : ℕ := 6

/-- Sunday in the early morning, local time. -/
def Instant.windowOpen (t : Instant offset) : Bool :=
  weekday t.day = 0 && secondOf offset t.seconds / 3600 < weeklyEvalHourLimit

/-- A time in UTC as the store writes it. -/
def Instant.utcText (t : Instant offset) : List Char :=
  rfc3339 t.utcDay (secondOf 0 t.seconds) 0

/-! ### The worker -/

/-- A campaign row: the Sunday whose window a scheduled one was created for, none for a manual
one, and whether it is unfinished. -/
structure WeeklyCampaign where
  sunday : Option ℕ
  unfinished : Bool

/-- An eval run row. -/
structure WeeklyRun (offset : ℤ) where
  scheduled : Bool
  suite : ℕ
  startedAt : Instant offset

/-- Where the tick stands. -/
inductive WeeklyPc
  | idle
  | checking (day : ℕ)
  | loading (day : ℕ)
  | creating (day : ℕ) (suites : List ℕ)
  | starting (suites : List ℕ)
  | executing

structure WeeklyWorld (offset : ℤ) where
  now : Instant offset
  lastRunDate : List Char
  pc : WeeklyPc
  campaigns : List WeeklyCampaign
  runs : List (WeeklyRun offset)

def WeeklyWorld.initial (now : Instant offset) : WeeklyWorld offset :=
  ⟨now, [], .idle, [], []⟩

/-- Time passes, the worker ticks, asks the store, loads models and suites, creates the campaign,
creates the run of the next suite, is cancelled on the way, waits for the campaign; a manual
campaign with its run is created, a campaign finishes; the process restarts, and the store purges
the suites that are disabled by then. -/
inductive WeeklyLabel (offset : ℤ)
  | clock (t : Instant offset)
  | tick
  | check (ok : Bool)
  | load (ok : Bool) (suites : List ℕ)
  | create (ok : Bool)
  | createRun (ok : Bool)
  | cancel
  | returned
  | manual (suite : ℕ)
  | settle (k : ℕ)
  | restart (purged : List ℕ)

/-- The store has a scheduled run that started at or after local midnight, both as texts. -/
def hasScheduledEvalRunSince (day : ℕ) (runs : List (WeeklyRun offset)) : Bool :=
  runs.any fun r => r.scheduled && rfc3339 day 0 offset ≤ r.startedAt.utcText

def hasUnfinishedCampaign (campaigns : List WeeklyCampaign) : Bool :=
  campaigns.any (·.unfinished)

/-- One step of the worker or of the world around it. -/
def weeklyStep (s : WeeklyWorld offset) : WeeklyLabel offset → Option (WeeklyWorld offset)
  | .clock t => if s.now.seconds ≤ t.seconds then some { s with now := t } else none
  | .tick =>
    match s.pc with
    | .idle =>
      if s.now.windowOpen = false ∨ s.lastRunDate = dateText s.now.day then some s
      else some { s with pc := .checking s.now.day }
    | _ => none
  | .check ok =>
    match s.pc with
    | .checking day =>
      if ok = false then some { s with pc := .idle }
      else if hasScheduledEvalRunSince day s.runs then
        some { s with lastRunDate := dateText day, pc := .idle }
      else if s.lastRunDate = dateText day then some { s with pc := .idle }
      else some { s with lastRunDate := dateText day, pc := .loading day }
    | _ => none
  | .load ok suites =>
    match s.pc with
    | .loading day =>
      -- a failed read, an active campaign or no model ends the tick
      if ok = false ∨ hasUnfinishedCampaign s.campaigns then some { s with pc := .idle }
      else some { s with pc := .creating day suites }
    | _ => none
  | .create ok =>
    match s.pc with
    | .creating day suites =>
      if ok = false then some { s with pc := .idle }
      else some { s with campaigns := ⟨some day, true⟩ :: s.campaigns, pc := .starting suites }
    | _ => none
  | .createRun ok =>
    match s.pc with
    | .starting (suite :: rest) =>
      if ok = false then some { s with pc := .starting rest }
      else some { s with runs := ⟨true, suite, s.now⟩ :: s.runs, pc := .starting rest }
    | .starting [] => some { s with pc := .executing }
    | _ => none
  | .cancel =>
    match s.pc with
    | .starting _ => some { s with pc := .executing }
    | _ => none
  | .returned =>
    match s.pc with
    | .executing => some { s with pc := .idle }
    | _ => none
  | .manual suite =>
    some { s with campaigns := ⟨none, true⟩ :: s.campaigns, runs := ⟨false, suite, s.now⟩ :: s.runs }
  | .settle k => some { s with campaigns := s.campaigns.modify k ({ · with unfinished := false }) }
  | .restart purged =>
    some { s with
      lastRunDate := [], pc := .idle, runs := s.runs.filter fun r => r.suite ∉ purged }

/-- The Sundays that have a scheduled batch. -/
def WeeklyWorld.sundays (s : WeeklyWorld offset) : List ℕ := s.campaigns.filterMap (·.sunday)

/-- A scheduled run that started on the day or later, in UTC. -/
def StartedSince (day : ℕ) (runs : List (WeeklyRun offset)) : Prop :=
  ∃ r ∈ runs, r.scheduled = true ∧ day ≤ r.startedAt.utcDay

instance (day : ℕ) (runs : List (WeeklyRun offset)) : Decidable (StartedSince day runs) :=
  inferInstanceAs (Decidable (∃ r ∈ runs, _))

/-- A restart in the window of a batch leaves a run of a batch in the store that started on that
Sunday in UTC. -/
def restartCovered (s : WeeklyWorld offset) : WeeklyLabel offset → Prop
  | .restart purged => s.now.windowOpen = true → s.now.day ∈ s.sundays →
      StartedSince s.now.day (s.runs.filter fun r => r.suite ∉ purged)
  | _ => True

instance (s : WeeklyWorld offset) (a : WeeklyLabel offset) : Decidable (restartCovered s a) :=
  match a with
  | .restart _ => inferInstanceAs (Decidable (_ → _ → _))
  | .clock _ | .tick | .check _ | .load _ _ | .create _ | .createRun _ | .cancel | .returned |
    .manual _ | .settle _ => isTrue trivial

/-! ### The question to the store -/

theorem secondOf_lt (offset t : ℤ) : secondOf offset t < 86400 := by
  unfold secondOf
  omega

/-- **Local midnight is not after the start of a run, as texts, just when the Sunday is not after
the UTC day of that start.** -/
theorem hasScheduledEvalRunSince_iff {day : ℕ} (hday : (civil day).year < 10000)
    (runs : List (WeeklyRun offset)) :
    hasScheduledEvalRunSince day runs = true ↔ StartedSince day runs := by
  simp only [hasScheduledEvalRunSince, StartedSince, List.any_eq_true, Bool.and_eq_true,
    decide_eq_true_eq]
  have htext : ∀ r : WeeklyRun offset,
      rfc3339 day 0 offset ≤ r.startedAt.utcText ↔ day ≤ r.startedAt.utcDay := fun r =>
    rfc3339_midnight_le_iff offset (secondOf_lt _ _) hday r.startedAt.utc_year
  simp only [htext]

/-! ### The invariant -/

/-- The day of the tick. -/
def WeeklyPc.day : WeeklyPc → Option ℕ
  | .checking day | .loading day | .creating day _ => some day
  | _ => none

/-- The tick is past the question and found no batch. -/
def WeeklyPc.Fired (pc : WeeklyPc) (day : ℕ) : Prop :=
  pc = .loading day ∨ ∃ suites, pc = .creating day suites

/-- The batch of a Sunday does not fire again: the worker remembers it, or the store has a run to
show, or its window is over and no tick of it is under way. -/
def SundaySettled (s : WeeklyWorld offset) (day : ℕ) : Prop :=
  s.lastRunDate = dateText day ∨ StartedSince day s.runs ∨
    (s.pc ≠ .checking day ∧ ¬ (s.now.windowOpen = true ∧ s.now.day = day))

/-- Each Sunday has one batch, all of them settled; a tick is not ahead of the clock and not before
a batch, and once it fires there is no batch of its day. -/
structure Weekly (s : WeeklyWorld offset) : Prop where
  nodup : s.sundays.Nodup
  past : ∀ day ∈ s.sundays, day ≤ s.now.day
  ticked : ∀ day, s.pc.day = some day →
    day ≤ s.now.day ∧ (civil day).year < 10000 ∧ ∀ day' ∈ s.sundays, day' ≤ day
  asking : ∀ day, s.pc = .checking day → s.lastRunDate ≠ dateText day
  fired : ∀ day, s.pc.Fired day → day ∉ s.sundays ∧ s.lastRunDate = dateText day
  settled : ∀ day ∈ s.sundays, SundaySettled s day

theorem Weekly.initial (now : Instant offset) : Weekly (.initial now) where
  nodup := List.nodup_nil
  past _ h := nomatch h
  ticked _ h := nomatch h
  asking _ h := nomatch h
  fired _ h := by
    rcases h with h | ⟨_, h⟩
    all_goals cases h
  settled _ h := nomatch h

theorem Instant.day_mono {t u : Instant offset} (h : t.seconds ≤ u.seconds) : t.day ≤ u.day := by
  unfold Instant.day dayOf
  omega

/-- On one day the window does not open again. -/
theorem Instant.windowOpen_of_le {t u : Instant offset} (h : t.seconds ≤ u.seconds)
    (hday : t.day = u.day) (hopen : u.windowOpen = true) : t.windowOpen = true := by
  unfold Instant.windowOpen at hopen ⊢
  rw [Bool.and_eq_true, decide_eq_true_eq, decide_eq_true_eq] at hopen ⊢
  refine ⟨hday ▸ hopen.1, lt_of_le_of_lt (Nat.div_le_div_right ?_) hopen.2⟩
  unfold Instant.day dayOf at hday
  unfold secondOf
  have ht := t.local_
  have hu := u.local_
  omega

variable {s : WeeklyWorld offset}

theorem Weekly.clock (h : Weekly s) {t : Instant offset} (ht : s.now.seconds ≤ t.seconds) :
    Weekly { s with now := t } where
  __ := h
  past day hday := (h.past day hday).trans (Instant.day_mono ht)
  ticked day hpc :=
    ⟨(h.ticked day hpc).1.trans (Instant.day_mono ht), (h.ticked day hpc).2⟩
  settled day hday := by
    rcases h.settled day hday with hdate | hrun | ⟨hpc, hclosed⟩
    · exact Or.inl hdate
    · exact Or.inr (Or.inl hrun)
    · refine Or.inr (Or.inr ⟨hpc, fun ⟨hopen, hsame⟩ => hclosed ?_⟩)
      have heq : s.now.day = t.day :=
        le_antisymm (Instant.day_mono ht) (hsame.le.trans (h.past day hday))
      exact ⟨Instant.windowOpen_of_le ht heq hopen, heq.trans hsame⟩

/-- Between ticks and while the batch runs nothing is pending. -/
theorem Weekly.rest (h : Weekly s) {pc : WeeklyPc} (hpc : pc.day = none) :
    Weekly { s with pc := pc } where
  nodup := h.nodup
  past := h.past
  ticked day hday := by
    rw [show pc.day = some day from hday] at hpc
    cases hpc
  asking day heq := by
    rw [show pc = .checking day from heq] at hpc
    cases hpc
  fired day hfired := by
    rcases hfired with heq | ⟨suites, heq⟩
    · rw [show pc = .loading day from heq] at hpc
      cases hpc
    · rw [show pc = .creating day suites from heq] at hpc
      cases hpc
  settled day hday := by
    -- what settled a day stays: only the asking point may be given up
    rcases h.settled day hday with hdate | hrun | ⟨-, hclosed⟩
    · exact Or.inl hdate
    · exact Or.inr (Or.inl hrun)
    · refine Or.inr (Or.inr ⟨fun heq => ?_, hclosed⟩)
      rw [show pc = .checking day from heq] at hpc
      cases hpc

/-- A tick in the window begins to ask. -/
theorem Weekly.tick (h : Weekly s) (hopen : s.now.windowOpen = true)
    (hdate : s.lastRunDate ≠ dateText s.now.day) :
    Weekly { s with pc := .checking s.now.day } where
  nodup := h.nodup
  past := h.past
  ticked day hday := by
    obtain rfl : s.now.day = day := Option.some.inj hday
    exact ⟨le_rfl, s.now.local_year, h.past⟩
  asking day heq := by
    cases heq
    exact hdate
  fired day hfired := by
    rcases hfired with heq | ⟨suites, heq⟩
    all_goals cases heq
  settled day hday := by
    rcases h.settled day hday with hsame | hrun | ⟨-, hclosed⟩
    · exact Or.inl hsame
    · exact Or.inr (Or.inl hrun)
    · refine Or.inr (Or.inr ⟨fun heq => hclosed ⟨hopen, ?_⟩, hclosed⟩)
      cases heq
      rfl

/-- When the worker moves on to a date, the Sundays before it are over. -/
theorem Weekly.settled_before (h : Weekly s) {day day' : ℕ} (hpc : s.pc.day = some day)
    (hday' : day' ∈ s.sundays) (hne : day' ≠ day) : s.now.day ≠ day' := by
  obtain ⟨hnow, -, hlast⟩ := h.ticked day hpc
  have hlt : day' < day := lt_of_le_of_ne (hlast day' hday') hne
  omega

/-- The store has a run of the Sunday: the worker remembers the date. -/
theorem Weekly.found (h : Weekly s) {day : ℕ} (hpc : s.pc = .checking day) :
    Weekly { s with lastRunDate := dateText day, pc := .idle } where
  nodup := h.nodup
  past := h.past
  ticked _ h := nomatch h
  asking _ h := nomatch h
  fired _ hfired := by
    rcases hfired with heq | ⟨suites, heq⟩
    all_goals cases heq
  settled day' hday' := by
    by_cases hne : day' = day
    · exact Or.inl (congrArg dateText hne.symm)
    · exact Or.inr (Or.inr ⟨nofun, fun hboth =>
        h.settled_before (by rw [hpc]; rfl) hday' hne hboth.2⟩)

/-- The store has none: there is no batch of that Sunday. -/
theorem Weekly.fire (h : Weekly s) {day : ℕ} (hpc : s.pc = .checking day)
    (hnone : hasScheduledEvalRunSince day s.runs = false) :
    Weekly { s with lastRunDate := dateText day, pc := .loading day } where
  nodup := h.nodup
  past := h.past
  ticked day' hday' := h.ticked day' (by rw [hpc]; exact hday')
  asking _ h := nomatch h
  fired day' hfired := by
    obtain rfl : day = day' := by
      rcases hfired with heq | ⟨suites, heq⟩ <;> cases heq
      rfl
    refine ⟨fun hmem => ?_, rfl⟩
    -- a second batch of the day would need the date, the run and the open window unseen
    rcases h.settled day hmem with hdate | hrun | ⟨hother, -⟩
    · exact h.asking day hpc hdate
    · have hyear := (h.ticked day (by rw [hpc]; rfl)).2.1
      rw [(hasScheduledEvalRunSince_iff hyear s.runs).mpr hrun] at hnone
      cases hnone
    · exact hother hpc
  settled day' hday' := by
    by_cases hne : day' = day
    · exact Or.inl (congrArg dateText hne.symm)
    · exact Or.inr (Or.inr ⟨nofun, fun hboth =>
        h.settled_before (by rw [hpc]; rfl) hday' hne hboth.2⟩)

/-- Models and suites are loaded. -/
theorem Weekly.load (h : Weekly s) {day : ℕ} (hpc : s.pc = .loading day) (suites : List ℕ) :
    Weekly { s with pc := .creating day suites } where
  nodup := h.nodup
  past := h.past
  ticked day' hday' := h.ticked day' (by rw [hpc]; exact hday')
  asking _ h := nomatch h
  fired day' hfired := by
    obtain rfl : day = day' := by
      rcases hfired with heq | ⟨suites, heq⟩ <;> cases heq
      rfl
    exact h.fired day (Or.inl hpc)
  settled day' hday' := by
    rcases h.settled day' hday' with hdate | hrun | ⟨-, hclosed⟩
    · exact Or.inl hdate
    · exact Or.inr (Or.inl hrun)
    · exact Or.inr (Or.inr ⟨nofun, hclosed⟩)

/-- The batch of a Sunday is created, and the worker remembers it. -/
theorem Weekly.create (h : Weekly s) {day : ℕ} {suites : List ℕ}
    (hpc : s.pc = .creating day suites) :
    Weekly { s with
      campaigns := ⟨some day, true⟩ :: s.campaigns, pc := .starting suites } where
  nodup := List.nodup_cons.mpr ⟨(h.fired day (Or.inr ⟨suites, hpc⟩)).1, h.nodup⟩
  past := List.forall_mem_cons.mpr ⟨(h.ticked day (by rw [hpc]; rfl)).1, h.past⟩
  ticked _ h := nomatch h
  asking _ h := nomatch h
  fired _ hfired := by
    rcases hfired with heq | ⟨suites, heq⟩
    all_goals cases heq
  settled := by
    refine List.forall_mem_cons.mpr ⟨?_, fun day' hday' => ?_⟩
    · exact Or.inl (h.fired day (Or.inr ⟨suites, hpc⟩)).2
    · rcases h.settled day' hday' with hdate | hrun | ⟨-, hclosed⟩
      · exact Or.inl hdate
      · exact Or.inr (Or.inl hrun)
      · exact Or.inr (Or.inr ⟨nofun, hclosed⟩)

/-- Rows are added or change their status, none of which is a scheduled campaign. -/
theorem Weekly.rows (h : Weekly s) {campaigns : List WeeklyCampaign} {runs : List (WeeklyRun offset)}
    (hsundays : campaigns.filterMap (·.sunday) = s.sundays)
    (hruns : ∀ r ∈ s.runs, r ∈ runs) :
    Weekly { s with campaigns := campaigns, runs := runs } where
  nodup := by
    rw [WeeklyWorld.sundays, hsundays]
    exact h.nodup
  past day hday := h.past day (by rwa [← hsundays])
  ticked day hpc := by
    rw [WeeklyWorld.sundays, hsundays]
    exact h.ticked day hpc
  asking := h.asking
  fired day hfired := by
    rw [WeeklyWorld.sundays, hsundays]
    exact h.fired day hfired
  settled day hday := by
    rcases h.settled day (by rwa [← hsundays]) with hdate | ⟨r, hr, hstarted⟩ | hclosed
    · exact Or.inl hdate
    · exact Or.inr (Or.inl ⟨r, hruns r hr, hstarted⟩)
    · exact Or.inr (Or.inr hclosed)

/-- The process restarts: what the worker remembered is lost, and the store has a run to show
where the window is still open. -/
theorem Weekly.restart (h : Weekly s) {purged : List ℕ}
    (hcovered : restartCovered s (.restart purged)) :
    Weekly { s with
      lastRunDate := [], pc := .idle, runs := s.runs.filter fun r => r.suite ∉ purged } where
  nodup := h.nodup
  past := h.past
  ticked _ h := nomatch h
  asking _ h := nomatch h
  fired _ hfired := by
    rcases hfired with heq | ⟨suites, heq⟩
    all_goals cases heq
  settled day hday := by
    by_cases hopen : s.now.windowOpen = true ∧ s.now.day = day
    · obtain ⟨hopen, rfl⟩ := hopen
      exact Or.inr (Or.inl (hcovered hopen hday))
    · exact Or.inr (Or.inr ⟨nofun, hopen⟩)

/-- A status change keeps the Sundays. -/
theorem sundays_modify (campaigns : List WeeklyCampaign) (k : ℕ) :
    (campaigns.modify k ({ · with unfinished := false })).filterMap (·.sunday) =
      campaigns.filterMap (·.sunday) := by
  induction campaigns generalizing k with
  | nil => cases k <;> rfl
  | cons c campaigns ih =>
    cases k with
    | zero => rfl
    | succ k => rw [List.modify_succ_cons, List.filterMap_cons, List.filterMap_cons, ih]

/-- **Every step keeps the invariant**, a restart if it is covered. -/
theorem Weekly.step (h : Weekly s) {a : WeeklyLabel offset} {s' : WeeklyWorld offset}
    (hcovered : restartCovered s a) (hs : weeklyStep s a = some s') : Weekly s' := by
  cases a with
  | clock t =>
    simp only [weeklyStep] at hs
    split_ifs at hs with ht
    obtain rfl := Option.some.inj hs
    exact h.clock ht
  | tick =>
    simp only [weeklyStep] at hs
    split at hs
    · split_ifs at hs with hskip
      · obtain rfl := Option.some.inj hs
        exact h
      · obtain rfl := Option.some.inj hs
        rw [not_or] at hskip
        exact h.tick (by simpa using hskip.1) hskip.2
    · cases hs
  | check ok =>
    simp only [weeklyStep] at hs
    split at hs
    · rename_i day hpc
      -- a failed look-up or a run that is found ends the check, and otherwise the day is claimed
      split_ifs at hs with hfailed hran hdate
      · obtain rfl := Option.some.inj hs
        exact h.rest rfl
      · obtain rfl := Option.some.inj hs
        exact h.found hpc
      · exact absurd hdate (h.asking day hpc)
      · obtain rfl := Option.some.inj hs
        exact h.fire hpc (by simpa using hran)
    · cases hs
  | load ok suites =>
    simp only [weeklyStep] at hs
    split at hs
    · rename_i day hpc
      split_ifs at hs
      · obtain rfl := Option.some.inj hs
        exact h.rest rfl
      · obtain rfl := Option.some.inj hs
        exact h.load hpc suites
    · cases hs
  | create ok =>
    simp only [weeklyStep] at hs
    split at hs
    · rename_i day suites hpc
      split_ifs at hs
      · obtain rfl := Option.some.inj hs
        exact h.rest rfl
      · obtain rfl := Option.some.inj hs
        exact h.create hpc
    · cases hs
  | createRun ok =>
    simp only [weeklyStep] at hs
    split at hs
    · rename_i suite rest hpc
      split_ifs at hs
      · obtain rfl := Option.some.inj hs
        exact h.rest rfl
      · obtain rfl := Option.some.inj hs
        -- a run more, and a worker that asks for no day
        exact (h.rows rfl fun r hr => List.mem_cons_of_mem _ hr).rest rfl
    · obtain rfl := Option.some.inj hs
      exact h.rest rfl
    · cases hs
  | cancel | returned =>
    simp only [weeklyStep] at hs
    split at hs
    · obtain rfl := Option.some.inj hs
      exact h.rest rfl
    · cases hs
  | manual suite =>
    obtain rfl := Option.some.inj hs
    exact h.rows rfl fun r hr => List.mem_cons_of_mem _ hr
  | settle k =>
    obtain rfl := Option.some.inj hs
    exact h.rows (sundays_modify s.campaigns k) fun r hr => hr
  | restart purged =>
    obtain rfl := Option.some.inj hs
    exact h.restart hcovered

/-- **Each Sunday has one scheduled batch at most**, in every run whose restarts in the window of a
batch find a run of it that started on that Sunday in UTC. -/
theorem nodup_sundays_of_reach (offset : ℤ) (now : Instant offset) (s : WeeklyWorld offset)
    (h : Reach weeklyStep restartCovered (.initial now) s) : s.sundays.Nodup :=
  (h.invariant (Weekly.initial now) fun _ _ _ hinv hcovered hs => Weekly.step hinv hcovered hs).nodup

/-- Two in the morning of Sunday the 2nd of August 2026, an hour east of Greenwich. -/
def twoOClock : Instant 3600 where
  seconds := 740195 * 86400 + 2 * 3600 - 3600
  utc := by decide
  local_ := by decide
  utc_year := by decide +kernel
  local_year := by decide +kernel

/-- The worker fires a batch, the campaign finishes, the process restarts and the worker ticks
again. -/
def restartInWindow {offset : ℤ} : List (WeeklyLabel offset) :=
  [.tick, .check true, .load true [1], .create true, .createRun true, .createRun true, .settle 0,
    .returned, .restart [], .tick, .check true, .load true [1], .create true]

/-- There the restarted worker finds the run, and the tick ends with the question. -/
theorem nodup_sundays_twoOClock : ∃ s, Reach weeklyStep restartCovered (.initial twoOClock) s ∧
    s.sundays = [740195] ∧ s.lastRunDate = dateText 740195 ∧ s.sundays.Nodup := by
  have hrun : (replayWith weeklyStep restartCovered (.initial twoOClock)
      (restartInWindow.take 11)).map (fun s => (s.sundays, s.lastRunDate)) =
        some ([740195], dateText 740195) := by
    decide +kernel
  obtain ⟨s, hs, heq⟩ := Option.map_eq_some_iff.mp hrun
  have hreach := Reach.of_replayWith hs
  exact ⟨s, hreach, (Prod.mk.inj heq).1, (Prod.mk.inj heq).2,
    nodup_sundays_of_reach 3600 twoOClock s hreach⟩

/-- One in the morning of the same Sunday, eight hours east of Greenwich. -/
def oneOClock : Instant 28800 where
  seconds := 740195 * 86400 + 3600 - 28800
  utc := by decide
  local_ := by decide
  utc_year := by decide +kernel
  local_year := by decide +kernel

/-- Eight hours east of Greenwich the whole window is on Saturday in UTC, and a restarted worker
fires again. -/
theorem not_nodup_sundays : ¬ ∀ (offset : ℤ) (now : Instant offset) (s : WeeklyWorld offset),
    Reachable weeklyStep (.initial now) s → s.sundays.Nodup := by
  intro h
  have hrun : (replay weeklyStep (.initial oneOClock) restartInWindow).map (·.sundays) =
      some [740195, 740195] := by
    decide +kernel
  obtain ⟨s, hs, heq⟩ := Option.map_eq_some_iff.mp hrun
  have hnodup := h 28800 oneOClock s (Reach.of_replay hs)
  rw [heq] at hnodup
  revert hnodup
  decide

end HubScope
