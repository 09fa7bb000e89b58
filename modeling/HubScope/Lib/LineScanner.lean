import Mathlib.Data.List.Basic
import Mathlib.Data.List.TakeWhile
import Mathlib.Order.Basic

/-!
# Scanning lines

A reader gets a text symbol by symbol, each at some time, and hands on every line as soon as it is
complete, until it is told to stop or a line is too long. What it hands on are the lines of the
text, however the symbols arrived.

## Main definitions

* `LineScanner.scan` — the reader
* `LineScanner.lines` — the lines of a text; nothing after the last separator is no line
* `LineScanner.timedLines` — the lines with the times they were complete at

## Main results

* `LineScanner.scan_eq` — the reader hands on the lines of the text
* `LineScanner.scan_rel` — the times make no difference to what does not read them
* `LineScanner.scan_invariant` — the invariant rule
-/

set_option autoImplicit false

variable {α τ υ σ ρ : Type*}

/-- What separates lines, the length that is too long, and what is done with a line: the new
state, and whether to go on. -/
structure LineScanner (α τ σ : Type*) where
  sep : α
  limit : ℕ
  onLine : τ → σ → List α → σ × Bool

namespace LineScanner

/-- How a scan ended, and when. -/
inductive ScanEnd (τ : Type*)
  | stopped (t : τ)
  | tooLong (t : τ)
  | exhausted
  deriving DecidableEq

/-- When a scan ended, of a text that ends at `finish`. -/
def ScanEnd.time (finish : τ) : ScanEnd τ → τ
  | .stopped t | .tooLong t => t
  | .exhausted => finish

/-- How a scan ended. -/
def ScanEnd.forget : ScanEnd τ → ScanEnd Unit
  | .stopped _ => .stopped ()
  | .tooLong _ => .tooLong ()
  | .exhausted => .exhausted

variable [DecidableEq α] (S : LineScanner α τ σ) (finish : τ)

/-- Scan a text after the start of a line. The text ends at `finish`. -/
def scan : List (τ × α) → List α → σ → σ × ScanEnd τ
  | [], pending, s =>
    if pending = [] then (s, .exhausted)
    else
      match S.onLine finish s pending with
      | (s, true) => (s, .exhausted)
      | (s, false) => (s, .stopped finish)
  | (t, x) :: text, pending, s =>
    if x = S.sep then
      match S.onLine t s pending with
      | (s, true) => scan text [] s
      | (s, false) => (s, .stopped t)
    else if S.limit ≤ pending.length + 1 then (s, .tooLong t)
    else scan text (pending ++ [x]) s

/-- The lines of a text. -/
def lines (sep : α) : List α → List (List α)
  | [] => []
  | x :: text =>
    if x = sep then [] :: lines sep text
    else
      match lines sep text with
      | [] => [[x]]
      | l :: ls => (x :: l) :: ls

/-- The lines of a text after the start of a line, each with the time it was complete at. -/
def timedLines (sep : α) (finish : τ) : List (τ × α) → List α → List (τ × List α)
  | [], pending => if pending = [] then [] else [(finish, pending)]
  | (t, x) :: text, pending =>
    if x = sep then (t, pending) :: timedLines sep finish text []
    else timedLines sep finish text (pending ++ [x])

/-- Hand on lines until told to stop; at what time that was. -/
def runLines (onLine : τ → σ → List α → σ × Bool) : List (τ × List α) → σ → σ × Option τ
  | [], s => (s, none)
  | (t, l) :: ls, s =>
    match onLine t s l with
    | (s, true) => runLines onLine ls s
    | (s, false) => (s, some t)

/-- The line is not too long. -/
def short (l : τ × List α) : Bool := l.2.length < S.limit

/-- Lines after the start of the first one. -/
def joinHead (pending : List α) : List (List α) → List (List α)
  | [] => if pending = [] then [] else [pending]
  | l :: ls => (pending ++ l) :: ls

/-- The times aside, the lines are those of the text. -/
theorem map_timedLines (sep : α) (finish : τ) (text : List (τ × α)) (pending : List α) :
    (timedLines sep finish text pending).map Prod.snd =
      joinHead pending (lines sep (text.map Prod.snd)) := by
  induction text generalizing pending with
  | nil =>
    rw [timedLines]
    split_ifs with h <;> simp [lines, joinHead, h]
  | cons tx text ih =>
    obtain ⟨t, x⟩ := tx
    rw [timedLines, List.map_cons, lines]
    split_ifs with hx
    · rw [List.map_cons, ih]
      cases lines sep (text.map Prod.snd) <;> simp [joinHead]
    · rw [ih]
      cases lines sep (text.map Prod.snd) <;> simp [joinHead]

theorem map_timedLines_nil (sep : α) (finish : τ) (text : List (τ × α)) :
    (timedLines sep finish text []).map Prod.snd = lines sep (text.map Prod.snd) := by
  rw [map_timedLines]
  cases lines sep (text.map Prod.snd) <;> rfl

/-- The first line goes on from its start. -/
theorem exists_timedLines_cons (sep : α) (finish : τ) (text : List (τ × α)) {pending : List α}
    (hpending : pending ≠ []) : ∃ t l ls,
      timedLines sep finish text pending = (t, l) :: ls ∧ pending.length ≤ l.length := by
  induction text generalizing pending with
  | nil => exact ⟨finish, pending, [], by rw [timedLines, if_neg hpending], le_rfl⟩
  | cons tx text ih =>
    obtain ⟨t, x⟩ := tx
    rw [timedLines]
    split_ifs with hx
    · exact ⟨t, pending, _, rfl, le_rfl⟩
    · have hne : pending ++ [x] ≠ [] := List.append_ne_nil_of_right_ne_nil _ (List.cons_ne_nil _ _)
      obtain ⟨u, l, ls, heq, hle⟩ := ih hne
      rw [List.length_append] at hle
      exact ⟨u, l, ls, heq, (Nat.le_add_right _ _).trans hle⟩

/-- **The reader hands on the lines of the text** before one that is too long, until it is told to
stop. -/
theorem scan_eq (text : List (τ × α)) (pending : List α) (hpending : pending.length < S.limit)
    (s : σ) : ∃ t, S.scan finish text pending s =
      let ls := timedLines S.sep finish text pending
      match runLines S.onLine (ls.takeWhile S.short) s with
      | (s, some t) => (s, .stopped t)
      | (s, none) => (s, if ls.all S.short then .exhausted else .tooLong t) := by
  have hshort (t : τ) : S.short (t, pending) = true := decide_eq_true hpending
  induction text generalizing pending s with
  | nil =>
    refine ⟨finish, ?_⟩
    rw [scan, timedLines]
    split_ifs with hnil
    · rfl
    · dsimp only
      rw [List.takeWhile_cons_of_pos (hshort finish), List.takeWhile_nil, runLines,
        List.all_cons, hshort finish]
      obtain ⟨s', goes⟩ := S.onLine finish s pending
      cases goes <;> rfl
  | cons tx text ih =>
    obtain ⟨t, x⟩ := tx
    rw [scan, timedLines]
    by_cases hx : x = S.sep
    · rw [if_pos hx, if_pos hx]
      dsimp only
      rw [List.takeWhile_cons_of_pos (hshort t), runLines, List.all_cons, hshort t,
        Bool.true_and]
      obtain ⟨s', goes⟩ := S.onLine t s pending
      cases goes
      · exact ⟨t, rfl⟩
      · have hzero : ([] : List α).length < S.limit := Nat.zero_lt_of_lt hpending
        exact ih [] hzero s' fun _ => decide_eq_true hzero
    · rw [if_neg hx, if_neg hx]
      split_ifs with hlong
      · have hne : pending ++ [x] ≠ [] :=
          List.append_ne_nil_of_right_ne_nil _ (List.cons_ne_nil _ _)
        obtain ⟨u, l, ls, heq, hle⟩ := exists_timedLines_cons S.sep finish text hne
        have hl : S.short (u, l) = false := by
          rw [List.length_append, List.length_singleton] at hle
          have hlen : ¬ l.length < S.limit := by omega
          exact decide_eq_false hlen
        refine ⟨t, ?_⟩
        dsimp only
        rw [heq, List.takeWhile_cons_of_neg (by rw [hl]; exact Bool.false_ne_true),
          List.all_cons, hl]
        rfl
      · have hlen : (pending ++ [x]).length < S.limit := by
          rw [List.length_append, List.length_singleton]
          omega
        exact ih (pending ++ [x]) hlen s fun _ => decide_eq_true hlen

/-- **What does not read the times does not depend on them.** -/
theorem scan_rel {S' : LineScanner α υ ρ} (hsep : S.sep = S'.sep) (hlimit : S.limit = S'.limit)
    {R : σ → ρ → Prop} (hstep : ∀ t t' s s' l, R s s' →
      R (S.onLine t s l).1 (S'.onLine t' s' l).1 ∧ (S.onLine t s l).2 = (S'.onLine t' s' l).2)
    {finish' : υ} {text : List (τ × α)} {text' : List (υ × α)}
    (htext : text.map Prod.snd = text'.map Prod.snd) (pending : List α) {s : σ} {s' : ρ}
    (hs : R s s') :
    R (S.scan finish text pending s).1 (S'.scan finish' text' pending s').1 ∧
      (S.scan finish text pending s).2.forget = (S'.scan finish' text' pending s').2.forget := by
  induction text generalizing text' pending s s' with
  | nil =>
    obtain rfl := List.map_eq_nil_iff.mp htext.symm
    rw [scan, scan]
    split_ifs
    · exact ⟨hs, rfl⟩
    · obtain ⟨hR, hgoes⟩ := hstep finish finish' s s' pending hs
      revert hR hgoes
      obtain ⟨u, goes⟩ := S.onLine finish s pending
      obtain ⟨u', goes'⟩ := S'.onLine finish' s' pending
      rintro hR rfl
      cases goes <;> exact ⟨hR, rfl⟩
  | cons tx text ih =>
    obtain ⟨t, x⟩ := tx
    obtain ⟨⟨t', x'⟩, text', rfl, hx, htail⟩ := List.map_eq_cons_iff.mp htext.symm
    obtain rfl : x' = x := hx
    rw [scan, scan, ← hsep, ← hlimit]
    split_ifs
    · obtain ⟨hR, hgoes⟩ := hstep t t' s s' pending hs
      revert hR hgoes
      obtain ⟨u, goes⟩ := S.onLine t s pending
      obtain ⟨u', goes'⟩ := S'.onLine t' s' pending
      rintro hR rfl
      cases goes
      · exact ⟨hR, rfl⟩
      · exact ih htail.symm [] hR
    · exact ⟨hs, rfl⟩
    · exact ih htail.symm (pending ++ [x']) hs

/-- **An invariant of the lines**, which time does not break, holds at the end of the scan. -/
theorem scan_invariant [Preorder τ] {I : τ → σ → Prop}
    (hmono : ∀ t t' s, t ≤ t' → I t s → I t' s) (hstep : ∀ t s l, I t s → I t (S.onLine t s l).1)
    {text : List (τ × α)} (hsorted : (text.map Prod.fst ++ [finish]).Pairwise (· ≤ ·)) {start : τ}
    (hstart : ∀ t ∈ text.map Prod.fst ++ [finish], start ≤ t) (pending : List α) {s : σ}
    (hs : I start s) :
    I ((S.scan finish text pending s).2.time finish) (S.scan finish text pending s).1 := by
  induction text generalizing start pending s with
  | nil =>
    have hI := hmono start finish s (hstart finish (List.mem_singleton_self _)) hs
    have hnext := hstep finish s pending hI
    rw [scan]
    split_ifs
    · exact hI
    · revert hnext
      obtain ⟨u, goes⟩ := S.onLine finish s pending
      intro hnext
      cases goes <;> exact hnext
  | cons tx text ih =>
    obtain ⟨t, x⟩ := tx
    obtain ⟨hle, hsorted⟩ := List.pairwise_cons.mp hsorted
    have hI := hmono start t s (hstart t List.mem_cons_self) hs
    have hnext := hstep t s pending hI
    rw [scan]
    split_ifs
    · revert hnext
      obtain ⟨u, goes⟩ := S.onLine t s pending
      intro hnext
      cases goes
      · exact hnext
      · exact ih hsorted hle [] hnext
    · exact hI
    · exact ih hsorted hle (pending ++ [x]) hI

end LineScanner
