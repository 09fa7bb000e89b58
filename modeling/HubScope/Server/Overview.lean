import HubScope.Lib.Transition
import HubScope.Server.Session
import HubScope.Store.Probes
import Mathlib.Logic.Function.Basic

/-!
# The overview snapshot

The overview response is served from a snapshot for each scope. A snapshot carries the markers it
was built under: the probe watermark, the generation of structural writes and the hour. A reader
whose markers all match is served the stored snapshot; otherwise it waits for the rebuild in
flight for its scope, or leads one. A rebuild reads the watermark and the generation before and
after its queries and is redone when one of them moved, at most twice.

The store is a counter of writes, and what a query reads is the number of writes before it: the
body of a snapshot is the list of what its queries read. `marks` keeps, for each invalidation,
how many writes were in the store when it was made.

## Main definitions

* `Snapshot`, `Rebuild`, `Reader`, `Overview` — a snapshot, the point a rebuild has reached, a
  request, and the state
* `OverviewLabel`, `Overview.step` — the interleaved steps of writers and readers
* `Fresh` — no reader was served content read before a write that was invalidated when its
  request started
* `Attended` — the invalidations a rebuild and a reader that joins it must not miss
* `Coherent` — the invariant

## Main results

* `Coherent.step` — the invariant along a step
* `fresh_of_reach` — every reader of a run that misses no invalidation is served fresh content
* `not_fresh_of_reach` — each of the two conditions is needed
-/

set_option autoImplicit false

namespace HubScope

/-- The scope of every model, for a super_admin and an anonymous reader. -/
def overviewScopeAll : ℤ := 0

/-- The scope of no model. -/
def overviewScopeEmpty : ℤ := -1

/-- `overviewScopeKey`. -/
def overviewScopeKey (u : Option SessionUser) : ℤ :=
  match u with
  | none => overviewScopeAll
  | some u =>
    if u.role = .superAdmin then overviewScopeAll
    else
      match u.hubId with
      | none => overviewScopeEmpty
      | some hub => hub

/-- One immutable overview response with the markers it was built under. -/
structure Snapshot where
  body : List ℕ
  watermark : ℤ
  structGen : ℕ
  hour : ℕ
  deriving DecidableEq, Repr

/-- The point an attempt of a rebuild has reached, with what it has read so far. -/
inductive Rebuild
  | watermark
  | generation (wm0 : ℤ)
  | clock (wm0 : ℤ) (gen0 : ℕ)
  | querying (wm0 : ℤ) (gen0 : ℕ) (now : ℕ) (body : List ℕ)
  | watermarkAfter (wm0 : ℤ) (gen0 : ℕ) (now : ℕ) (body : List ℕ)
  | generationAfter (wm0 : ℤ) (gen0 : ℕ) (now : ℕ) (body : List ℕ) (wm1 : ℤ)
  deriving DecidableEq, Repr

/-- The point a request has reached. A result of `none` is the error of a failed store call. -/
inductive ReaderPc
  | watermark
  | clock (watermark : ℤ)
  | lookup (watermark : ℤ) (hour : ℕ)
  | waiting (leader : ℕ)
  | rebuilding (attempt : ℕ) (build : Rebuild)
  | publishing (result : Option Snapshot)
  | returned (result : Option Snapshot)
  deriving DecidableEq, Repr

/-- A request. `start` is the generation at which it started. -/
structure Reader where
  scope : ℤ
  start : ℕ
  pc : ReaderPc
  deriving DecidableEq, Repr

/-- The snapshots, the rebuilds in flight and the structural generation, with the store and the
requests beside them. -/
structure Overview where
  writes : ℕ
  watermark : ℤ
  marks : List ℕ
  structGen : ℕ
  snaps : ℤ → Option Snapshot
  inflight : ℤ → Option ℕ
  readers : List Reader

namespace Overview

/-- `newOverviewCache` over a store with the given probe watermark. -/
def new (watermark : ℤ) : Overview :=
  ⟨0, watermark, [], 0, fun _ => none, fun _ => none, []⟩

/-- A reader moves on. -/
def setPc (s : Overview) (i : ℕ) (pc : ReaderPc) : Overview :=
  { s with readers := s.readers.modify i fun r => { r with pc := pc } }

/-- The stored snapshot of a scope, when every marker still holds. -/
def cached (s : Overview) (scope watermark : ℤ) (hour : ℕ) : Option Snapshot :=
  match s.snaps scope with
  | some snap =>
    if snap.watermark = watermark ∧ snap.structGen = s.structGen ∧ snap.hour = hour then some snap
    else none
  | none => none

/-- The first locked section: serve the stored snapshot, join the rebuild in flight, or lead one. -/
def lookup (s : Overview) (i : ℕ) (scope watermark : ℤ) (hour : ℕ) : Overview :=
  match s.cached scope watermark hour with
  | some snap => s.setPc i (.returned (some snap))
  | none =>
    match s.inflight scope with
    | some leader => s.setPc i (.waiting leader)
    | none =>
      { s with inflight := Function.update s.inflight scope (some i) }.setPc i
        (.rebuilding 0 .watermark)

/-- The second locked section: the rebuild leaves the flight, and its result is stored unless it
is an error. -/
def publish (s : Overview) (i : ℕ) (scope : ℤ) (result : Option Snapshot) : Overview :=
  { s with
    inflight := Function.update s.inflight scope none
    snaps := if result.isSome then Function.update s.snaps scope result else s.snaps }.setPc i
      (.returned result)

end Overview

/-- An attempt is accepted when both markers held, and after two retries in any case. -/
def Rebuild.accept (attempt : ℕ) (wm0 : ℤ) (gen0 now : ℕ) (body : List ℕ) (wm1 : ℤ) (gen1 : ℕ) :
    ReaderPc :=
  if (wm0 = wm1 ∧ gen0 = gen1) ∨ 2 ≤ attempt then
    .publishing (some ⟨body, wm1, gen1, hourOf now⟩)
  else .rebuilding (attempt + 1) .watermark

/-- What happens to a request next: its store call or locked section is made, the store call
fails, the clock is read, or the last of the queries has been made. -/
inductive ReaderEvent
  | proceed
  | fail
  | clock (now : ℕ)
  | built

/-- The labels of the overview: a store write, which leaves some watermark, an invalidation, a
new request and a step of a request. -/
inductive OverviewLabel
  | write (watermark : ℤ)
  | invalidate
  | request (user : Option SessionUser)
  | advance (reader : ℕ) (event : ReaderEvent)

namespace Overview

/-- `rebuild`, one store call or locked section at a time. -/
def rebuild (s : Overview) (attempt : ℕ) : Rebuild → ReaderEvent → Option ReaderPc
  | .watermark, .proceed => some (.rebuilding attempt (.generation s.watermark))
  | .generation wm0, .proceed => some (.rebuilding attempt (.clock wm0 s.structGen))
  | .clock wm0 gen0, .clock now => some (.rebuilding attempt (.querying wm0 gen0 now []))
  | .querying wm0 gen0 now body, .proceed =>
    some (.rebuilding attempt (.querying wm0 gen0 now (body ++ [s.writes])))
  | .querying wm0 gen0 now body, .built =>
    some (.rebuilding attempt (.watermarkAfter wm0 gen0 now body))
  | .watermarkAfter wm0 gen0 now body, .proceed =>
    some (.rebuilding attempt (.generationAfter wm0 gen0 now body s.watermark))
  | .generationAfter wm0 gen0 now body wm1, .proceed =>
    some (Rebuild.accept attempt wm0 gen0 now body wm1 s.structGen)
  | .watermark, .fail | .querying .., .fail | .watermarkAfter .., .fail => some (.publishing none)
  | _, _ => none

/-- `overviewSnapshotFor`, one store call or locked section at a time. -/
def advance (s : Overview) (i : ℕ) (r : Reader) (event : ReaderEvent) : Option Overview :=
  match r.pc, event with
  | .watermark, .proceed => some (s.setPc i (.clock s.watermark))
  | .watermark, .fail => some (s.setPc i (.returned none))
  | .clock watermark, .clock now => some (s.setPc i (.lookup watermark (hourOf now)))
  | .lookup watermark hour, .proceed => some (s.lookup i r.scope watermark hour)
  | .waiting leader, .proceed =>
    match (s.readers[leader]?).map Reader.pc with
    | some (.returned result) => some (s.setPc i (.returned result))
    | _ => none
  | .rebuilding attempt build, event => (s.rebuild attempt build event).map (s.setPc i)
  | .publishing result, .proceed => some (s.publish i r.scope result)
  | _, _ => none

/-- One step of the overview. -/
def step (s : Overview) : OverviewLabel → Option Overview
  | .write watermark => some { s with writes := s.writes + 1, watermark := watermark }
  | .invalidate => some { s with structGen := s.structGen + 1, marks := s.marks ++ [s.writes] }
  | .request user =>
    some { s with readers := s.readers ++ [⟨overviewScopeKey user, s.structGen, .watermark⟩] }
  | .advance i event => (s.readers[i]?).bind fun r => s.advance i r event

end Overview

/-- No request is served content read before a write whose invalidation was complete when the
request started. -/
def Fresh (s : Overview) : Prop :=
  ∀ r ∈ s.readers, ∀ snap, r.pc = .returned (some snap) →
    ∀ written ∈ s.marks.take r.start, ∀ read ∈ snap.body, written ≤ read

/-- A last attempt ends with the generation it began with. -/
def Overview.keepsGeneration (s : Overview) : OverviewLabel → Bool
  | .advance i _ =>
    match (s.readers[i]?).map Reader.pc with
    | some (.rebuilding attempt (.generationAfter _ gen0 _ _ _)) =>
      decide (2 ≤ attempt → gen0 = s.structGen)
    | _ => true
  | _ => true

/-- A reader that joins a finished rebuild started before any later invalidation. -/
def Overview.joinsInTime (s : Overview) : OverviewLabel → Bool
  | .advance i _ =>
    match s.readers[i]? with
    | some ⟨scope, start, .lookup watermark hour⟩ =>
      match s.cached scope watermark hour, (s.inflight scope).bind fun l => s.readers[l]? with
      | none, some ⟨_, _, .publishing (some snap)⟩ => decide (start ≤ snap.structGen)
      | _, _ => true
    | _ => true
  | _ => true

/-- Neither a last attempt nor a reader that joins a finished rebuild misses an invalidation. -/
def Attended (s : Overview) (a : OverviewLabel) : Prop :=
  s.keepsGeneration a = true ∧ s.joinsInTime a = true

instance (s : Overview) (a : OverviewLabel) : Decidable (Attended s a) :=
  inferInstanceAs (Decidable (_ ∧ _))

/-! ### The invariant -/

/-- No invalidation up to a generation is missed by what was read. -/
def Covers (marks : List ℕ) (gen : ℕ) (body : List ℕ) : Prop :=
  ∀ written ∈ marks.take gen, ∀ read ∈ body, written ≤ read

/-- A snapshot read everything that was invalidated up to its generation. -/
structure Snapshot.Sound (marks : List ℕ) (snap : Snapshot) : Prop where
  past : snap.structGen ≤ marks.length
  covers : Covers marks snap.structGen snap.body

/-- The generation an attempt has read, and what it has read since. -/
def Rebuild.read? : Rebuild → Option (ℕ × List ℕ)
  | .watermark | .generation _ => none
  | .clock _ gen0 => some (gen0, [])
  | .querying _ gen0 _ body | .watermarkAfter _ gen0 _ body | .generationAfter _ gen0 _ body _ =>
    some (gen0, body)

/-- The snapshot a request has come to. -/
def ReaderPc.snap? : ReaderPc → Option Snapshot
  | .publishing result | .returned result => result
  | _ => none

/-- The request leads a rebuild in flight. -/
def ReaderPc.leads : ReaderPc → Bool
  | .rebuilding .. | .publishing _ => true
  | _ => false

/-- What a leader has come to serves a request that started at the given generation. -/
def ReaderPc.Serves (start : ℕ) : ReaderPc → Prop
  | .rebuilding .. => True
  | .publishing result | .returned result => ∀ snap, result = some snap → start ≤ snap.structGen
  | _ => False

/-- The invariant of the runs that miss no invalidation. -/
structure Coherent (s : Overview) : Prop where
  counted : s.marks.length = s.structGen
  written : ∀ m ∈ s.marks, m ≤ s.writes
  stored : ∀ scope snap, s.snaps scope = some snap → snap.Sound s.marks
  led : ∀ scope i, s.inflight scope = some i →
    ∃ r, s.readers[i]? = some r ∧ r.scope = scope ∧ r.pc.leads = true
  started : ∀ r ∈ s.readers, r.start ≤ s.structGen
  reading : ∀ r ∈ s.readers, ∀ attempt build gen body, r.pc = .rebuilding attempt build →
    build.read? = some (gen, body) → gen ≤ s.structGen ∧ Covers s.marks gen body
  result : ∀ r ∈ s.readers, ∀ snap, r.pc.snap? = some snap →
    snap.Sound s.marks ∧ r.start ≤ snap.structGen
  served : ∀ r ∈ s.readers, ∀ i, r.pc = .waiting i →
    ∃ l, s.readers[i]? = some l ∧ l.pc.Serves r.start

variable {s s' : Overview} {i : ℕ} {r : Reader} {pc : ReaderPc} {event : ReaderEvent}

theorem Covers.append {marks : List ℕ} {gen m : ℕ} {body : List ℕ} (hgen : gen ≤ marks.length)
    (h : Covers marks gen body) : Covers (marks ++ [m]) gen body := by
  unfold Covers
  rw [List.take_append_of_le_length hgen]
  exact h

theorem Snapshot.Sound.append {marks : List ℕ} {m : ℕ} {snap : Snapshot} (h : snap.Sound marks) :
    snap.Sound (marks ++ [m]) := by
  refine ⟨h.past.trans ?_, h.covers.append h.past⟩
  rw [List.length_append]
  exact Nat.le_add_right _ _

theorem Overview.getElem?_setPc (s : Overview) (i j : ℕ) (pc : ReaderPc) :
    (s.setPc i pc).readers[j]? =
      if i = j then (s.readers[j]?).map fun r => { r with pc := pc } else s.readers[j]? := by
  rw [Overview.setPc, List.getElem?_modify]
  split
  · rfl
  · exact id_map' _

/-- A request after one has moved on. -/
theorem Overview.mem_setPc {r' : Reader} (hr : s.readers[i]? = some r)
    (h : r' ∈ (s.setPc i pc).readers) : r' ∈ s.readers ∨ r' = { r with pc := pc } := by
  obtain ⟨j, hj⟩ := List.mem_iff_getElem?.mp h
  rw [Overview.getElem?_setPc] at hj
  split at hj
  · rename_i hij
    subst hij
    rw [hr] at hj
    exact .inr (Option.some.inj hj).symm
  · exact .inl (List.mem_of_getElem? hj)

/-- What is asked of a request's new point, and of the caches it leaves, keeps the invariant. -/
theorem Coherent.update {snaps : ℤ → Option Snapshot} {inflight : ℤ → Option ℕ} (h : Coherent s)
    (hr : s.readers[i]? = some r)
    (hstored : ∀ scope snap, snaps scope = some snap → snap.Sound s.marks)
    (hled : ∀ scope j, inflight scope = some j →
      (j = i ∧ r.scope = scope ∧ pc.leads = true) ∨ (j ≠ i ∧ s.inflight scope = some j))
    (hreading : ∀ attempt build gen body, pc = .rebuilding attempt build →
      build.read? = some (gen, body) → gen ≤ s.structGen ∧ Covers s.marks gen body)
    (hresult : ∀ snap, pc.snap? = some snap → snap.Sound s.marks ∧ r.start ≤ snap.structGen)
    (hwaits : ∀ j, pc = .waiting j → ∃ l, s.readers[j]? = some l ∧ l.pc.Serves r.start)
    (hserves : ∀ start ≤ s.structGen, r.pc.Serves start → pc.Serves start) :
    Coherent ({ s with snaps := snaps, inflight := inflight }.setPc i pc) := by
  have hmem : r ∈ s.readers := List.mem_of_getElem? hr
  -- A leader that still serves a waiter after the step.
  have hkeep : ∀ start ≤ s.structGen, ∀ (j : ℕ) (l : Reader),
      s.readers[j]? = some l → l.pc.Serves start →
      ∃ l' : Reader, (s.setPc i pc).readers[j]? = some l' ∧ l'.pc.Serves start := by
    intro start hstart j l hl hserve
    rw [Overview.getElem?_setPc]
    by_cases hij : i = j
    · subst hij
      rw [hr] at hl
      cases hl
      rw [if_pos rfl, hr]
      exact ⟨_, rfl, hserves start hstart hserve⟩
    · rw [if_neg hij]
      exact ⟨l, hl, hserve⟩
  constructor
  case counted => exact h.counted
  case written => exact h.written
  case stored => exact hstored
  case led =>
    intro scope j hj
    show ∃ r, (s.setPc i pc).readers[j]? = some r ∧ _
    rw [Overview.getElem?_setPc]
    obtain ⟨rfl, hscope, hleads⟩ | ⟨hne, hj⟩ := hled scope j hj
    · rw [if_pos rfl, hr]
      exact ⟨_, rfl, hscope, hleads⟩
    · rw [if_neg (Ne.symm hne)]
      exact h.led scope j hj
  case started =>
    intro r' hr'
    obtain hold | rfl := Overview.mem_setPc hr hr'
    · exact h.started r' hold
    · exact h.started r hmem
  case reading =>
    intro r' hr'
    obtain hold | rfl := Overview.mem_setPc hr hr'
    · exact h.reading r' hold
    · exact hreading
  case result =>
    intro r' hr'
    obtain hold | rfl := Overview.mem_setPc hr hr'
    · exact h.result r' hold
    · exact hresult
  case served =>
    intro r' hr' j hj
    obtain hold | rfl := Overview.mem_setPc hr hr'
    · obtain ⟨l, hl, hserve⟩ := h.served r' hold j hj
      exact hkeep r'.start (h.started r' hold) j l hl hserve
    · obtain ⟨l, hl, hserve⟩ := hwaits j hj
      exact hkeep r.start (h.started r hmem) j l hl hserve

/-- The invariant when a request moves on and the caches stay. -/
theorem Coherent.setPc (h : Coherent s) (hr : s.readers[i]? = some r)
    (hleads : r.pc.leads = true → pc.leads = true)
    (hreading : ∀ attempt build gen body, pc = .rebuilding attempt build →
      build.read? = some (gen, body) → gen ≤ s.structGen ∧ Covers s.marks gen body)
    (hresult : ∀ snap, pc.snap? = some snap → snap.Sound s.marks ∧ r.start ≤ snap.structGen)
    (hwaits : ∀ j, pc = .waiting j → ∃ l, s.readers[j]? = some l ∧ l.pc.Serves r.start)
    (hserves : ∀ start ≤ s.structGen, r.pc.Serves start → pc.Serves start) :
    Coherent (s.setPc i pc) := by
  refine h.update hr h.stored (fun scope j hj => ?_) hreading hresult hwaits hserves
  by_cases hij : j = i
  · subst hij
    obtain ⟨r', hr', hscope, hled⟩ := h.led scope j hj
    rw [hr] at hr'
    cases hr'
    exact .inl ⟨rfl, hscope, hleads hled⟩
  · exact .inr ⟨hij, hj⟩

/-- The points of a request that has neither started to lead nor come to anything. -/
def ReaderPc.Early : ReaderPc → Prop
  | .watermark | .clock _ | .lookup .. => True
  | _ => False

theorem ReaderPc.Early.idle {pc : ReaderPc} (h : pc.Early) (start : ℕ) :
    pc.leads = false ∧ ¬ pc.Serves start := by
  cases pc with
  | watermark | clock _ | lookup _ _ => exact ⟨rfl, id⟩
  | waiting _ | rebuilding _ _ | publishing _ | returned _ => exact h.elim

/-- What a step of an attempt leaves: nothing read under a generation, the generation just read,
what it had read with at most one more query, an error, or the accepted snapshot. -/
theorem Overview.rebuild_cases {attempt : ℕ} {build : Rebuild}
    (h : s.rebuild attempt build event = some pc) :
    (∃ attempt' build', pc = .rebuilding attempt' build' ∧
      (build'.read? = none ∨ build'.read? = some (s.structGen, []) ∨
        ∃ gen body, build.read? = some (gen, body) ∧
          (build'.read? = some (gen, body) ∨ build'.read? = some (gen, body ++ [s.writes])))) ∨
    pc = .publishing none ∨
    ∃ wm0 gen0 now body wm1, build = .generationAfter wm0 gen0 now body wm1 ∧
      (gen0 = s.structGen ∨ 2 ≤ attempt) ∧
      pc = .publishing (some ⟨body, wm1, s.structGen, hourOf now⟩) := by
  unfold Overview.rebuild at h
  split at h
  · exact .inl ⟨_, _, (Option.some.inj h).symm, .inl rfl⟩
  · exact .inl ⟨_, _, (Option.some.inj h).symm, .inr (.inl rfl)⟩
  · exact .inl ⟨_, _, (Option.some.inj h).symm, .inr (.inr ⟨_, _, rfl, .inl rfl⟩)⟩
  · exact .inl ⟨_, _, (Option.some.inj h).symm, .inr (.inr ⟨_, _, rfl, .inr rfl⟩)⟩
  · exact .inl ⟨_, _, (Option.some.inj h).symm, .inr (.inr ⟨_, _, rfl, .inl rfl⟩)⟩
  · exact .inl ⟨_, _, (Option.some.inj h).symm, .inr (.inr ⟨_, _, rfl, .inl rfl⟩)⟩
  · rename_i wm0 gen0 now body wm1
    have hpc := (Option.some.inj h).symm
    unfold Rebuild.accept at hpc
    split at hpc
    · rename_i haccept
      exact .inr (.inr ⟨wm0, gen0, now, body, wm1, rfl, haccept.imp And.right id, hpc⟩)
    · exact .inl ⟨_, _, hpc, .inl rfl⟩
  · exact .inr (.inl (Option.some.inj h).symm)
  · exact .inr (.inl (Option.some.inj h).symm)
  · exact .inr (.inl (Option.some.inj h).symm)
  · cases h

/-- A step of a rebuild keeps the invariant, if a last attempt keeps its generation. -/
theorem Coherent.rebuild {attempt : ℕ} {build : Rebuild} (h : Coherent s)
    (hr : s.readers[i]? = some r) (hpc : r.pc = .rebuilding attempt build)
    (hkeep : ∀ wm0 gen0 now body wm1, build = .generationAfter wm0 gen0 now body wm1 →
      2 ≤ attempt → gen0 = s.structGen)
    (hstep : s.rebuild attempt build event = some pc) : Coherent (s.setPc i pc) := by
  have hmem : r ∈ s.readers := List.mem_of_getElem? hr
  have hread := h.reading r hmem attempt build
  obtain ⟨attempt', build', rfl, hread'⟩ | rfl | ⟨wm0, gen0, now, body, wm1, rfl, hgen, rfl⟩ :=
    Overview.rebuild_cases hstep
  · refine h.setPc hr (fun _ => rfl) ?_ (fun _ hsnap => by cases hsnap) (fun _ hj => by cases hj)
      (fun _ _ _ => trivial)
    intro _ _ gen body heq hbody
    cases heq
    obtain hnone | hnew | ⟨gen₀, body₀, hold, hsame | hquery⟩ := hread'
    · rw [hnone] at hbody
      cases hbody
    · -- The generation has just been read and no query been made.
      rw [hnew] at hbody
      cases hbody
      exact ⟨le_rfl, fun _ _ _ hbody => by cases hbody⟩
    · rw [hsame] at hbody
      cases hbody
      exact hread _ _ hpc hold
    · -- One more query reads every write there is.
      rw [hquery] at hbody
      cases hbody
      obtain ⟨hle, hcovers⟩ := hread _ _ hpc hold
      refine ⟨hle, fun m hm read hmem => ?_⟩
      obtain hmem | hmem := List.mem_append.mp hmem
      · exact hcovers m hm read hmem
      · rw [List.mem_singleton.mp hmem]
        exact h.written m (List.mem_of_mem_take hm)
  · exact h.setPc hr (fun _ => rfl) (fun _ _ _ _ heq => by cases heq)
      (fun _ hsnap => by cases hsnap) (fun _ hj => by cases hj) (fun _ _ _ _ hsnap => by cases hsnap)
  · -- The snapshot carries the generation that its queries were made under.
    obtain ⟨hle, hcovers⟩ := hread _ _ hpc rfl
    have hsame : gen0 = s.structGen := by
      obtain heq | hlast := hgen
      · exact heq
      · exact hkeep _ _ _ _ _ rfl hlast
    subst hsame
    apply h.setPc hr (fun _ => rfl) (fun _ _ _ _ heq => by cases heq) _ (fun _ hj => by cases hj)
    · intro start hstart _ snap hsnap
      cases hsnap
      exact hstart
    · intro snap hsnap
      cases hsnap
      exact ⟨⟨h.counted.ge, hcovers⟩, h.started r hmem⟩

/-- A snapshot that is still current is sound, and no request started after its generation. -/
theorem Coherent.cached {scope watermark : ℤ} {hour : ℕ} {snap : Snapshot} (h : Coherent s)
    (hcached : s.cached scope watermark hour = some snap) :
    snap.Sound s.marks ∧ snap.structGen = s.structGen := by
  unfold Overview.cached at hcached
  split at hcached
  · rename_i stored hstored
    split at hcached
    · rename_i hmarkers
      cases hcached
      exact ⟨h.stored scope _ hstored, hmarkers.2.1⟩
    · cases hcached
  · cases hcached

/-- The first locked section keeps the invariant, if a finished rebuild is joined in time. -/
theorem Coherent.lookup {watermark : ℤ} {hour : ℕ} (h : Coherent s)
    (hr : s.readers[i]? = some r) (hearly : r.pc.Early)
    (hjoin : s.cached r.scope watermark hour = none → ∀ j l snap, s.inflight r.scope = some j →
      s.readers[j]? = some l → l.pc = .publishing (some snap) → r.start ≤ snap.structGen) :
    Coherent (s.lookup i r.scope watermark hour) := by
  have hmem : r ∈ s.readers := List.mem_of_getElem? hr
  have hidle := hearly.idle
  have hnot : r.pc.leads = true → ∀ {P : Prop}, P := fun hleads => by
    rw [(hidle 0).1] at hleads
    cases hleads
  unfold Overview.lookup
  split
  · rename_i snap hcached
    obtain ⟨hsound, hgen⟩ := h.cached hcached
    apply h.setPc hr (fun hleads => hnot hleads) (fun _ _ _ _ heq => by cases heq) _
      (fun _ hj => by cases hj) (fun start _ hserve => ((hidle start).2 hserve).elim)
    intro snap' hsnap
    cases hsnap
    exact ⟨hsound, hgen ▸ h.started r hmem⟩
  · rename_i hcached
    split
    · rename_i leader hleader
      apply h.setPc hr (fun hleads => hnot hleads) (fun _ _ _ _ heq => by cases heq)
        (fun _ hsnap => by cases hsnap) _ (fun start _ hserve => ((hidle start).2 hserve).elim)
      intro j hj
      cases hj
      obtain ⟨l, hl, -, hleads⟩ := h.led _ _ hleader
      refine ⟨l, hl, ?_⟩
      have hin := hjoin hcached leader l
      cases hpc : l.pc with
      | rebuilding _ _ => trivial
      | publishing result =>
        intro snap hsnap
        exact hin snap hleader hl (hsnap ▸ hpc)
      | watermark | clock _ | lookup _ _ | waiting _ | returned _ =>
        rw [hpc] at hleads
        cases hleads
    · rename_i hnone
      -- The request becomes the leader of its scope.
      refine h.update hr h.stored ?_ ?_ (fun _ hsnap => by cases hsnap) (fun _ hj => by cases hj)
        (fun _ _ _ => trivial)
      · intro scope j hj
        by_cases hscope : scope = r.scope
        · subst hscope
          rw [Function.update_self] at hj
          exact .inl ⟨(Option.some.inj hj).symm, rfl, rfl⟩
        · rw [Function.update_of_ne hscope] at hj
          obtain ⟨l, hl, -, hleads⟩ := h.led _ _ hj
          refine .inr ⟨?_, hj⟩
          rintro rfl
          rw [hr] at hl
          cases hl
          exact hnot hleads
      · intro _ _ _ _ heq hread
        cases heq
        cases hread

/-- The second locked section keeps the invariant. -/
theorem Coherent.publish {result : Option Snapshot} (h : Coherent s)
    (hr : s.readers[i]? = some r) (hpc : r.pc = .publishing result) :
    Coherent (s.publish i r.scope result) := by
  have hresult := h.result r (List.mem_of_getElem? hr)
  rw [hpc] at hresult
  unfold Overview.publish
  refine h.update hr ?_ ?_ (fun _ _ _ _ heq => by cases heq) hresult (fun _ hj => by cases hj)
    (fun start _ hserve => by rwa [hpc] at hserve)
  · intro scope snap hsnap
    split at hsnap
    · -- the scope now serves the published snapshot and has nobody in flight; the others are as
      -- before
      by_cases hscope : scope = r.scope
      · subst hscope
        rw [Function.update_self] at hsnap
        exact (hresult snap hsnap).1
      · rw [Function.update_of_ne hscope] at hsnap
        exact h.stored scope snap hsnap
    · exact h.stored scope snap hsnap
  · intro scope j hj
    by_cases hscope : scope = r.scope
    · subst hscope
      rw [Function.update_self] at hj
      cases hj
    · rw [Function.update_of_ne hscope] at hj
      refine .inr ⟨?_, hj⟩
      rintro rfl
      obtain ⟨l, hl, hscope', -⟩ := h.led _ _ hj
      rw [hr] at hl
      cases hl
      exact hscope hscope'.symm

/-- A step of a request keeps the invariant, if it misses no invalidation. -/
theorem Coherent.advance (h : Coherent s) (hr : s.readers[i]? = some r)
    (hg : Attended s (.advance i event)) (hstep : s.advance i r event = some s') : Coherent s' := by
  obtain ⟨hkeep, hjoin⟩ := hg
  unfold Overview.keepsGeneration at hkeep
  unfold Overview.joinsInTime at hjoin
  simp only [hr, Option.map_some] at hkeep hjoin
  have hidle : r.pc.Early → r.pc.leads = true → ∀ {P : Prop}, P := fun hearly hleads => by
    rw [(hearly.idle 0).1] at hleads
    cases hleads
  -- A request that goes on to read its own markers.
  have hearly : ∀ pc : ReaderPc, r.pc.Early → pc.Early → Coherent (s.setPc i pc) := by
    intro pc hbefore hafter
    cases pc with
    | waiting _ | rebuilding _ _ | publishing _ | returned _ => exact hafter.elim
    | watermark | clock _ | lookup _ _ =>
      exact h.setPc hr (fun hleads => hidle hbefore hleads) (fun _ _ _ _ heq => by cases heq)
        (fun _ hsnap => by cases hsnap) (fun _ hj => by cases hj)
        (fun start _ hserve => ((hbefore.idle start).2 hserve).elim)
  unfold Overview.advance at hstep
  split at hstep
  · rename_i hpc
    cases hstep
    exact hearly _ (hpc ▸ trivial) trivial
  · rename_i hpc
    cases hstep
    have hbefore : r.pc.Early := hpc ▸ trivial
    exact h.setPc hr (fun hleads => hidle hbefore hleads) (fun _ _ _ _ heq => by cases heq)
      (fun _ hsnap => by cases hsnap) (fun _ hj => by cases hj)
      (fun start _ hserve => ((hbefore.idle start).2 hserve).elim)
  · rename_i hpc
    cases hstep
    exact hearly _ (hpc ▸ trivial) trivial
  · rename_i watermark hour hpc
    cases hstep
    apply h.lookup hr (hpc ▸ trivial)
    intro hnone j l snap hinflight hl hlpc
    obtain ⟨scope, start, pc⟩ := r
    obtain ⟨_, _, lpc⟩ := l
    cases hpc
    cases hlpc
    simpa [hnone, hinflight, hl] using hjoin
  · rename_i leader hpc
    split at hstep
    · rename_i result hleader
      cases hstep
      obtain ⟨l, hl, hlpc⟩ := Option.map_eq_some_iff.mp hleader
      obtain ⟨l', hl', hserves⟩ := h.served r (List.mem_of_getElem? hr) leader hpc
      rw [hl] at hl'
      cases hl'
      have hresult := h.result l (List.mem_of_getElem? hl)
      rw [hlpc] at hserves hresult
      refine h.setPc hr (fun hleads => ?_) (fun _ _ _ _ heq => by cases heq)
        (fun snap hsnap => ⟨(hresult snap hsnap).1, hserves snap hsnap⟩) (fun _ hj => by cases hj)
        (fun start _ hserve => ?_)
      · rw [hpc] at hleads
        cases hleads
      · rw [hpc] at hserve
        exact hserve.elim
    · cases hstep
  · rename_i attempt build hpc
    obtain ⟨pc, hpc', rfl⟩ := Option.map_eq_some_iff.mp hstep
    apply h.rebuild hr hpc _ hpc'
    intro wm0 gen0 now body wm1 hbuild hlast
    subst hbuild
    rw [hpc] at hkeep
    exact of_decide_eq_true hkeep hlast
  · rename_i result hpc
    cases hstep
    exact h.publish hr hpc
  · cases hstep

/-- **The invariant along a step.** -/
theorem Coherent.step {a : OverviewLabel} (h : Coherent s) (hg : Attended s a)
    (hstep : s.step a = some s') : Coherent s' := by
  cases a with
  | write watermark =>
    cases hstep
    have hwritten : ∀ m ∈ s.marks, m ≤ s.writes + 1 := fun m hm =>
      (h.written m hm).trans (Nat.le_succ _)
    exact ⟨h.counted, hwritten, h.stored, h.led, h.started, h.reading, h.result, h.served⟩
  | invalidate =>
    cases hstep
    have hlength := h.counted.ge
    have hsound : ∀ snap : Snapshot, snap.Sound s.marks → snap.Sound (s.marks ++ [s.writes]) :=
      fun snap hsnap => hsnap.append
    constructor
    case counted => rw [List.length_append, h.counted, List.length_singleton]
    case written =>
      intro m hm
      obtain hm | hm := List.mem_append.mp hm
      · exact h.written m hm
      · exact (List.mem_singleton.mp hm).le
    case stored => exact fun scope snap hsnap => hsound snap (h.stored scope snap hsnap)
    case led => exact h.led
    case started => exact fun r hr => (h.started r hr).trans (Nat.le_succ _)
    case reading =>
      intro r hr attempt build gen body hpc hread
      obtain ⟨hle, hcovers⟩ := h.reading r hr attempt build gen body hpc hread
      exact ⟨hle.trans (Nat.le_succ _), hcovers.append (hle.trans hlength)⟩
    case result =>
      exact fun r hr snap hsnap => (h.result r hr snap hsnap).imp (hsound snap) id
    case served => exact h.served
  | request user =>
    cases hstep
    -- The new request is behind the others and has read nothing.
    have hold : ∀ (j : ℕ) (l new : Reader), s.readers[j]? = some l →
        (s.readers ++ [new])[j]? = some l := by
      intro j l new hl
      obtain ⟨hj, -⟩ := List.getElem?_eq_some_iff.mp hl
      rw [List.getElem?_append_left hj, hl]
    constructor
    case counted => exact h.counted
    case written => exact h.written
    case stored => exact h.stored
    case led =>
      intro scope j hj
      obtain ⟨l, hl, hled⟩ := h.led scope j hj
      exact ⟨l, hold j l _ hl, hled⟩
    case started =>
      intro r hr
      obtain hr | hr := List.mem_append.mp hr
      · exact h.started r hr
      · rw [List.mem_singleton.mp hr]
    case reading =>
      intro r hr attempt build gen body hpc
      obtain hr | hr := List.mem_append.mp hr
      · exact h.reading r hr attempt build gen body hpc
      · rw [List.mem_singleton.mp hr] at hpc
        cases hpc
    case result =>
      intro r hr snap hsnap
      obtain hr | hr := List.mem_append.mp hr
      · exact h.result r hr snap hsnap
      · rw [List.mem_singleton.mp hr] at hsnap
        cases hsnap
    case served =>
      intro r hr j hj
      obtain hr | hr := List.mem_append.mp hr
      · obtain ⟨l, hl, hserves⟩ := h.served r hr j hj
        exact ⟨l, hold j l _ hl, hserves⟩
      · rw [List.mem_singleton.mp hr] at hj
        cases hj
  | advance i event =>
    obtain ⟨r, hr, hstep⟩ := Option.bind_eq_some_iff.mp hstep
    exact h.advance hr hg hstep

theorem Coherent.fresh (h : Coherent s) : Fresh s := by
  intro r hr snap hpc m hm read hread
  obtain ⟨hsound, hle⟩ := h.result r hr snap (by rw [hpc]; rfl)
  exact hsound.covers m (List.take_subset_take_left _ hle hm) read hread

theorem coherent_new (watermark : ℤ) : Coherent (.new watermark) := by
  constructor
  case counted => rfl
  case written => exact fun _ hm => by cases hm
  case stored => exact fun _ _ hsnap => by cases hsnap
  case led => exact fun _ _ hi => by cases hi
  case started | reading | result | served => exact fun _ hr => by cases hr

/-- **Freshness.** In a run that misses no invalidation every request is served content read
after each write that was invalidated when the request started. -/
theorem fresh_of_reach {watermark : ℤ}
    (h : Transition.Reach Overview.step Attended (.new watermark) s) : Fresh s := by
  apply Coherent.fresh
  apply h.invariant (coherent_new watermark)
  intro t a u ht hg hstep
  exact ht.step hg hstep

/-- The labels that take a request to its first locked section and through it. -/
def lookupLabels (i : ℕ) : List OverviewLabel :=
  [.request none, .advance i .proceed, .advance i (.clock 0), .advance i .proceed]

/-- The labels of an attempt: the markers, a query, what writers do meanwhile, and the markers. -/
def attemptLabels (i : ℕ) (meanwhile : List OverviewLabel) : List OverviewLabel :=
  [.advance i .proceed, .advance i .proceed, .advance i (.clock 0), .advance i .proceed] ++
    meanwhile ++ [.advance i .built, .advance i .proceed, .advance i .proceed]

/-- A write and its invalidation. -/
def writeLabels : List OverviewLabel := [.write 0, .invalidate]

/-- A rebuild is redone because of a write, and a second request joins it. -/
def redoneLabels : List OverviewLabel :=
  lookupLabels 0 ++ attemptLabels 0 writeLabels ++ lookupLabels 1 ++ attemptLabels 0 [] ++
    [.advance 0 .proceed, .advance 1 .proceed]

/-- The result a request has been served. -/
def Overview.resultOf (s : Overview) (i : ℕ) : Option ReaderPc := (s.readers[i]?).map Reader.pc

theorem fresh_of_reach_redone : ∃ s, Transition.Reach Overview.step Attended (.new 0) s ∧
    s.resultOf 1 = some (.returned (some ⟨[1], 0, 1, 0⟩)) ∧ Fresh s := by
  obtain ⟨s, hs, hresult⟩ : ∃ s, Transition.replayWith Overview.step Attended (.new 0)
      redoneLabels = some s ∧ s.resultOf 1 = some (.returned (some ⟨[1], 0, 1, 0⟩)) :=
    ⟨_, rfl, rfl⟩
  have hrun := Transition.Reach.of_replayWith hs
  exact ⟨s, hrun, hresult, fresh_of_reach hrun⟩

/-- A rebuild has read its last generation when a write is invalidated and a request joins. -/
def lateLabels : List OverviewLabel :=
  lookupLabels 0 ++ attemptLabels 0 [] ++ writeLabels ++ lookupLabels 1 ++
    [.advance 0 .proceed, .advance 1 .proceed]

/-- Every attempt of a rebuild is overtaken by a write, and a request finds what it stored. -/
def stormLabels : List OverviewLabel :=
  lookupLabels 0 ++ attemptLabels 0 writeLabels ++ attemptLabels 0 writeLabels ++
    attemptLabels 0 writeLabels ++ [.advance 0 .proceed] ++ lookupLabels 1

/-- Freshness fails for a request that joins a finished rebuild late, and for one that finds what
a last attempt stored although its generation had moved. -/
theorem not_fresh_of_reach :
    (¬ ∀ s, Transition.Reach Overview.step (fun s a => s.keepsGeneration a = true) (.new 0) s →
      Fresh s) ∧
    ¬ ∀ s, Transition.Reach Overview.step (fun s a => s.joinsInTime a = true) (.new 0) s →
      Fresh s := by
  constructor
  · intro h
    -- each run ends with a reader that a marked write does not show
    obtain ⟨s, hs, hstale⟩ : ∃ s, Transition.replayWith Overview.step
        (fun s a => s.keepsGeneration a = true) (.new 0) lateLabels = some s ∧
        ∃ r ∈ s.readers[1]?, r.pc = .returned (some ⟨[0], 0, 0, 0⟩) ∧ s.marks.take r.start = [1] :=
      ⟨_, rfl, _, rfl, rfl, rfl⟩
    obtain ⟨r, hr, hpc, hmarks⟩ := hstale
    have hfresh := h s (.of_replayWith hs) r (List.mem_of_getElem? hr) _ hpc 1
    rw [hmarks] at hfresh
    exact absurd (hfresh (by decide) 0 (by decide)) (by decide)
  · intro h
    obtain ⟨s, hs, hstale⟩ : ∃ s, Transition.replayWith Overview.step
        (fun s a => s.joinsInTime a = true) (.new 0) stormLabels = some s ∧
        ∃ r ∈ s.readers[1]?, r.pc = .returned (some ⟨[2], 0, 3, 0⟩) ∧
          s.marks.take r.start = [1, 2, 3] := ⟨_, rfl, _, rfl, rfl, rfl⟩
    obtain ⟨r, hr, hpc, hmarks⟩ := hstale
    have hfresh := h s (.of_replayWith hs) r (List.mem_of_getElem? hr) _ hpc 3
    rw [hmarks] at hfresh
    exact absurd (hfresh (by decide) 2 (by decide)) (by decide)

end HubScope
