import Mathlib.Data.List.DropRight
import Mathlib.Data.List.Infix

/-!
# Regular expressions with leftmost-first matching

An expression is run from a position of a text and yields the positions it can end at, the
preferred one first: the left alternative before the right one, a longer repetition before a
shorter one. The match at a position is the first of them, the match in a text the one at the
leftmost position that has any. What a match looks like is read off the list of ends by the
membership lemmas; that it is the preferred one is read off its head.

## Main definitions

* `Regexp.Cursor`, `Regexp` — positions and expressions
* `Regexp.ends` — the positions an expression can end at, in the order of preference
* `Regexp.find?`, `Regexp.findAll`, `Regexp.findAllText`, `Regexp.fullMatch` — matching in a text

## Main results

* `Regexp.leads_of_mem_ends`, `ahead_of_star` — an end lies ahead, and what it took
* `Regexp.match_seq`, `match_star_symbol` — the preferred end
* `Regexp.Takes.seq`, `Takes.alt_right`, `Fails.opt` — what a composed expression prefers to take
* `Regexp.exists_of_mem_findAll` — where a match found in a text lies
* `Regexp.Takes.findAllText` — a text that is taken as a whole is its only match
-/

set_option autoImplicit false

/-- A position of a text: what is behind it, nearest first, what is ahead of it, and what the
group of the expression captured so far. -/
structure Regexp.Cursor (α : Type*) where
  behind : List α
  ahead : List α
  captured : Option (List α)
  deriving DecidableEq

/-- Regular expressions with one capturing group. -/
inductive Regexp (α : Type*)
  | empty
  | symbol (accepts : α → Bool)
  | look (holds : Option α → Option α → Bool)
  | seq (r s : Regexp α)
  | alt (r s : Regexp α)
  | star (r : Regexp α)
  | group (r : Regexp α)

namespace Regexp

variable {α : Type*} {r s : Regexp α} {c d : Cursor α} {p : α → Bool}

/-- The position at the start of a text. -/
def Cursor.start (text : List α) : Cursor α := ⟨[], text, none⟩

/-- The position past the next `n` symbols. -/
def Cursor.skip (c : Cursor α) (n : ℕ) : Cursor α :=
  ⟨(c.ahead.take n).reverse ++ c.behind, c.ahead.drop n, c.captured⟩

/-- The text between two positions. -/
def Cursor.upTo (c d : Cursor α) : List α := c.ahead.take (c.ahead.length - d.ahead.length)

/-- The ends of a repetition, longest first; each round takes something. -/
def starEnds (ends : Cursor α → List (Cursor α)) : ℕ → Cursor α → List (Cursor α)
  | 0, c => [c]
  | fuel + 1, c =>
    ((ends c).filter fun d => d.ahead.length < c.ahead.length).flatMap (starEnds ends fuel) ++ [c]

/-- The positions an expression can end at, the preferred one first. -/
def ends : Regexp α → Cursor α → List (Cursor α)
  | empty, c => [c]
  | symbol p, c =>
    match c.ahead with
    | [] => []
    | x :: _ => if p x then [c.skip 1] else []
  | look holds, c => if holds c.behind.head? c.ahead.head? then [c] else []
  | seq r s, c => (ends r c).flatMap (ends s)
  | alt r s, c => ends r c ++ ends s c
  | star r, c => starEnds (ends r) c.ahead.length c
  | group r, c => (ends r c).map fun d => { d with captured := some (c.upTo d) }

/-- `r?`, preferring to match. -/
def opt (r : Regexp α) : Regexp α := alt r empty

/-- `r+`. -/
def plus (r : Regexp α) : Regexp α := seq r (star r)

/-- One given symbol. -/
def lit [DecidableEq α] (x : α) : Regexp α := symbol (· = x)

/-- A given text. -/
def word [DecidableEq α] : List α → Regexp α
  | [] => empty
  | x :: xs => seq (lit x) (word xs)

/-- The expressions one after the other. -/
def cat : List (Regexp α) → Regexp α
  | [] => empty
  | r :: rs => seq r (cat rs)

/-- `^`. -/
def bol : Regexp α := look fun before _ => before.isNone

/-- `$`. -/
def eol : Regexp α := look fun _ after => after.isNone

/-- The match at a position. -/
def match? (r : Regexp α) (c : Cursor α) : Option (Cursor α) := (ends r c).head?

/-- The first match, searching `n` positions from here on: where it starts and ends. -/
def findFrom (r : Regexp α) : ℕ → Cursor α → Option (Cursor α × Cursor α)
  | 0, c => (r.match? c).map (c, ·)
  | n + 1, c =>
    match r.match? c with
    | some d => some (c, d)
    | none => findFrom r n (c.skip 1)

/-- The leftmost match in a text. -/
def find? (r : Regexp α) (text : List α) : Option (Cursor α × Cursor α) :=
  findFrom r text.length (.start text)

/-- The matches from a position on that do not overlap, for an expression that takes
something. -/
def findAllFrom (r : Regexp α) : ℕ → Cursor α → List (Cursor α × Cursor α)
  | 0, _ => []
  | fuel + 1, c =>
    match findFrom r c.ahead.length c with
    | none => []
    | some (b, d) => (b, d) :: findAllFrom r fuel { d with captured := none }

/-- All matches in a text, from the left. -/
def findAll (r : Regexp α) (text : List α) : List (Cursor α × Cursor α) :=
  findAllFrom r (text.length + 1) (.start text)

/-- The texts of all matches. -/
def findAllText (r : Regexp α) (text : List α) : List (List α) :=
  (r.findAll text).map fun (b, d) => b.upTo d

/-- The text of the leftmost match. -/
def findText (r : Regexp α) (text : List α) : Option (List α) :=
  (r.find? text).map fun (b, d) => b.upTo d

/-- The expression can take the whole text. -/
def fullMatch (r : Regexp α) (text : List α) : Bool :=
  (ends r (.start text)).any fun d => d.ahead.isEmpty

/-! ### What an end looks like -/

@[simp] theorem skip_zero : c.skip 0 = c := by
  simp [Cursor.skip]

@[simp] theorem ahead_skip (n : ℕ) : (c.skip n).ahead = c.ahead.drop n := rfl

@[simp] theorem captured_skip (n : ℕ) : (c.skip n).captured = c.captured := rfl

theorem skip_skip (m n : ℕ) : (c.skip m).skip n = c.skip (m + n) := by
  have hbehind : ((c.ahead.drop m).take n).reverse ++ ((c.ahead.take m).reverse ++ c.behind) =
      (c.ahead.take (m + n)).reverse ++ c.behind := by
    rw [← List.append_assoc, ← List.reverse_append, List.take_add]
  simp only [Cursor.skip, List.drop_drop, hbehind]

@[simp] theorem mem_ends_empty : d ∈ ends empty c ↔ d = c := by
  simp [ends]

@[simp] theorem mem_ends_symbol :
    d ∈ ends (symbol p) c ↔ ∃ x rest, c.ahead = x :: rest ∧ p x = true ∧ d = c.skip 1 := by
  unfold ends
  split
  · rename_i hnil
    simp [hnil]
  · rename_i x rest hcons
    split_ifs with hx
    · simp [hcons, hx]
    · simp [hcons, hx]

@[simp] theorem mem_ends_look {holds : Option α → Option α → Bool} :
    d ∈ ends (look holds) c ↔ holds c.behind.head? c.ahead.head? = true ∧ d = c := by
  unfold ends
  split_ifs with h <;> simp [h]

@[simp] theorem mem_ends_seq : d ∈ ends (seq r s) c ↔ ∃ m ∈ ends r c, d ∈ ends s m :=
  List.mem_flatMap

@[simp] theorem mem_ends_alt : d ∈ ends (alt r s) c ↔ d ∈ ends r c ∨ d ∈ ends s c :=
  List.mem_append

@[simp] theorem mem_ends_group : d ∈ ends (group r) c ↔
    ∃ m ∈ ends r c, d = { m with captured := some (c.upTo m) } := by
  simp [ends, eq_comm]

/-! ### Ends lie ahead -/

/-- The second position is the first one after some text was taken. -/
def Cursor.Leads (c d : Cursor α) : Prop :=
  ∃ taken, c.ahead = taken ++ d.ahead ∧ d.behind = taken.reverse ++ c.behind

theorem Cursor.Leads.refl (c : Cursor α) : c.Leads c := ⟨[], rfl, rfl⟩

theorem Cursor.Leads.trans {m : Cursor α} (hcm : c.Leads m) (hmd : m.Leads d) : c.Leads d := by
  obtain ⟨taken, hahead, hbehind⟩ := hcm
  obtain ⟨taken', hahead', hbehind'⟩ := hmd
  refine ⟨taken ++ taken', ?_, ?_⟩
  · rw [hahead, hahead', List.append_assoc]
  · rw [hbehind', hbehind, List.reverse_append, List.append_assoc]

theorem Cursor.leads_skip (n : ℕ) : c.Leads (c.skip n) :=
  ⟨c.ahead.take n, (List.take_append_drop n c.ahead).symm, rfl⟩

/-- The text between two positions is what lies between them. -/
theorem Cursor.Leads.upTo (h : c.Leads d) :
    c.ahead = c.upTo d ++ d.ahead ∧ d.behind = (c.upTo d).reverse ++ c.behind := by
  obtain ⟨taken, hahead, hbehind⟩ := h
  have htaken : c.upTo d = taken := by
    rw [Cursor.upTo, hahead]
    simp
  rw [htaken]
  exact ⟨hahead, hbehind⟩

theorem leads_starEnds {f : Cursor α → List (Cursor α)} (hf : ∀ c, ∀ d ∈ f c, c.Leads d)
    {fuel : ℕ} (hd : d ∈ starEnds f fuel c) : c.Leads d := by
  induction fuel generalizing c with
  | zero => exact List.mem_singleton.mp hd ▸ .refl c
  | succ fuel ih =>
    rcases List.mem_append.mp hd with hd | hd
    · obtain ⟨m, hm, hd⟩ := List.mem_flatMap.mp hd
      exact (hf c m (List.mem_filter.mp hm).1).trans (ih hd)
    · exact List.mem_singleton.mp hd ▸ .refl c

theorem leads_of_mem_ends (hd : d ∈ ends r c) : c.Leads d := by
  induction r generalizing c d with
  | empty => exact mem_ends_empty.mp hd ▸ .refl c
  | symbol p =>
    obtain ⟨x, rest, -, -, rfl⟩ := mem_ends_symbol.mp hd
    exact Cursor.leads_skip 1
  | look holds => exact (mem_ends_look.mp hd).2 ▸ .refl c
  | seq r s ihr ihs =>
    obtain ⟨m, hm, hd⟩ := mem_ends_seq.mp hd
    exact (ihr hm).trans (ihs hd)
  | alt r s ihr ihs =>
    rcases mem_ends_alt.mp hd with hd | hd
    · exact ihr hd
    · exact ihs hd
  | star r ih => exact leads_starEnds (fun _ _ h => ih h) hd
  | group r ih =>
    obtain ⟨m, hm, rfl⟩ := mem_ends_group.mp hd
    obtain ⟨taken, hahead, hbehind⟩ := ih hm
    exact ⟨taken, hahead, hbehind⟩

/-! ### Captures -/

/-- The expression has a group in it. -/
def hasGroup : Regexp α → Bool
  | empty | symbol _ | look _ => false
  | seq r s | alt r s => hasGroup r || hasGroup s
  | star r => hasGroup r
  | group _ => true

theorem captured_starEnds {f : Cursor α → List (Cursor α)}
    (hf : ∀ c, ∀ d ∈ f c, d.captured = c.captured) {fuel : ℕ} (hd : d ∈ starEnds f fuel c) :
    d.captured = c.captured := by
  induction fuel generalizing c with
  | zero => rw [List.mem_singleton.mp hd]
  | succ fuel ih =>
    rcases List.mem_append.mp hd with hd | hd
    · obtain ⟨m, hm, hd⟩ := List.mem_flatMap.mp hd
      rw [ih hd, hf c m (List.mem_filter.mp hm).1]
    · rw [List.mem_singleton.mp hd]

/-- Without a group the capture stays. -/
theorem captured_of_mem_ends (hr : hasGroup r = false) (hd : d ∈ ends r c) :
    d.captured = c.captured := by
  induction r generalizing c d with
  | empty => rw [mem_ends_empty.mp hd]
  | symbol p =>
    obtain ⟨x, rest, -, -, rfl⟩ := mem_ends_symbol.mp hd
    rfl
  | look holds => rw [(mem_ends_look.mp hd).2]
  | seq r s ihr ihs =>
    obtain ⟨hr, hs⟩ := Bool.or_eq_false_iff.mp hr
    obtain ⟨m, hm, hd⟩ := mem_ends_seq.mp hd
    rw [ihs hs hd, ihr hr hm]
  | alt r s ihr ihs =>
    obtain ⟨hr, hs⟩ := Bool.or_eq_false_iff.mp hr
    rcases mem_ends_alt.mp hd with hd | hd
    · exact ihr hr hd
    · exact ihs hs hd
  | star r ih => exact captured_starEnds (fun _ _ h => ih hr h) hd
  | group r => cases hr

/-! ### What an end took -/

theorem ahead_of_symbol (hd : d ∈ ends (symbol p) c) : ∃ x, p x = true ∧ c.ahead = x :: d.ahead := by
  obtain ⟨x, rest, hcons, hx, rfl⟩ := mem_ends_symbol.mp hd
  exact ⟨x, hx, by rw [ahead_skip, hcons]; rfl⟩

theorem ahead_of_lit [DecidableEq α] {x : α} (hd : d ∈ ends (lit x) c) : c.ahead = x :: d.ahead := by
  obtain ⟨y, hy, hcons⟩ := ahead_of_symbol hd
  rw [hcons, of_decide_eq_true hy]

/-- What all rounds of a repetition took is of the class each round's is. -/
theorem ahead_of_star {q : α → Prop}
    (hr : ∀ c, ∀ d ∈ ends r c, ∃ u, (∀ x ∈ u, q x) ∧ c.ahead = u ++ d.ahead)
    (hd : d ∈ ends (star r) c) : ∃ u, (∀ x ∈ u, q x) ∧ c.ahead = u ++ d.ahead := by
  have hfuel : ∀ (fuel : ℕ) (c : Cursor α), d ∈ starEnds (ends r) fuel c →
      ∃ u, (∀ x ∈ u, q x) ∧ c.ahead = u ++ d.ahead := by
    intro fuel
    induction fuel with
    | zero => exact fun c hd => ⟨[], by simp, by rw [List.mem_singleton.mp hd]; rfl⟩
    | succ fuel ih =>
      intro c hd
      rcases List.mem_append.mp hd with hd | hd
      · obtain ⟨m, hm, hd⟩ := List.mem_flatMap.mp hd
        obtain ⟨u, hu, hround⟩ := hr c m (List.mem_filter.mp hm).1
        obtain ⟨v, hv, hrest⟩ := ih m hd
        refine ⟨u ++ v, List.forall_mem_append.mpr ⟨hu, hv⟩, ?_⟩
        rw [hround, hrest, List.append_assoc]
      · exact ⟨[], by simp, by rw [List.mem_singleton.mp hd]; rfl⟩
  exact hfuel _ c hd

theorem ahead_of_star_symbol (hd : d ∈ ends (star (symbol p)) c) :
    ∃ u, (∀ x ∈ u, p x = true) ∧ c.ahead = u ++ d.ahead := by
  refine ahead_of_star (fun c d hd => ?_) hd
  obtain ⟨x, hx, hcons⟩ := ahead_of_symbol hd
  exact ⟨[x], by simpa using hx, hcons⟩

/-- A group around one symbol captures that symbol. -/
theorem captured_of_group_symbol (hd : d ∈ ends (group (symbol p)) c) :
    ∃ x, p x = true ∧ c.ahead = x :: d.ahead ∧ d.captured = some [x] := by
  obtain ⟨m, hm, rfl⟩ := mem_ends_group.mp hd
  obtain ⟨x, hx, hcons⟩ := ahead_of_symbol hm
  refine ⟨x, hx, hcons, congrArg some ?_⟩
  rw [Cursor.upTo, hcons]
  simp

theorem ahead_of_plus_symbol (hd : d ∈ ends (plus (symbol p)) c) :
    ∃ u, u ≠ [] ∧ (∀ x ∈ u, p x = true) ∧ c.ahead = u ++ d.ahead := by
  obtain ⟨m, hm, hd⟩ := mem_ends_seq.mp hd
  obtain ⟨x, hx, hcons⟩ := ahead_of_symbol hm
  obtain ⟨u, hall, hrest⟩ := ahead_of_star_symbol hd
  refine ⟨x :: u, List.cons_ne_nil _ _, List.forall_mem_cons.mpr ⟨hx, hall⟩, ?_⟩
  rw [hcons, hrest, List.cons_append]

@[simp] theorem mem_ends_opt : d ∈ ends (opt r) c ↔ d ∈ ends r c ∨ d = c := by
  rw [opt, mem_ends_alt, mem_ends_empty]

@[simp] theorem mem_ends_cat_nil : d ∈ ends (cat []) c ↔ d = c := mem_ends_empty

@[simp] theorem mem_ends_cat_cons {rs : List (Regexp α)} :
    d ∈ ends (cat (r :: rs)) c ↔ ∃ m ∈ ends r c, d ∈ ends (cat rs) m :=
  mem_ends_seq

theorem mem_ends_cat_append {rs ss : List (Regexp α)} :
    d ∈ ends (cat (rs ++ ss)) c ↔ ∃ m ∈ ends (cat rs) c, d ∈ ends (cat ss) m := by
  induction rs generalizing c with
  | nil => simp
  | cons r rs ih =>
    simp only [List.cons_append, mem_ends_cat_cons, ih]
    constructor
    · rintro ⟨m, hm, m', hm', hd⟩
      exact ⟨m', ⟨m, hm, hm'⟩, hd⟩
    · rintro ⟨m', ⟨m, hm, hm'⟩, hd⟩
      exact ⟨m, hm, m', hm', hd⟩

@[simp] theorem mem_ends_bol : d ∈ ends bol c ↔ c.behind = [] ∧ d = c := by
  rw [bol, mem_ends_look, Option.isNone_iff_eq_none, List.head?_eq_none_iff]

@[simp] theorem mem_ends_eol : d ∈ ends eol c ↔ c.ahead = [] ∧ d = c := by
  rw [eol, mem_ends_look, Option.isNone_iff_eq_none, List.head?_eq_none_iff]

theorem fullMatch_iff {text : List α} :
    fullMatch r text = true ↔ ∃ d ∈ ends r (.start text), d.ahead = [] := by
  simp [fullMatch]

/-! ### The preferred end -/

@[simp] theorem match_empty : match? empty c = some c := rfl

theorem match_symbol : match? (symbol p) c =
    if c.ahead.head?.any p then some (c.skip 1) else none := by
  unfold match? ends
  split
  · rename_i hnil
    simp [hnil]
  · rename_i x rest hcons
    simp only [hcons, List.head?_cons, Option.any_some]
    split_ifs <;> rfl

theorem match_alt : match? (alt r s) c = (match? r c).or (match? s c) := by
  simp [match?, ends, List.head?_append]

theorem match_opt : match? (opt r) c = some ((match? r c).getD c) := by
  rw [opt, match_alt, match_empty]
  cases match? r c <;> rfl

theorem match_eq_none_iff : match? r c = none ↔ ends r c = [] := List.head?_eq_none_iff

/-- The preferred end of the first part, if the second part matches from there. -/
theorem match_seq {m : Cursor α} (hr : match? r c = some m) (hs : match? s m = some d) :
    match? (seq r s) c = some d := by
  obtain ⟨rest, hrest⟩ := List.head?_eq_some_iff.mp hr
  obtain ⟨rest', hrest'⟩ := List.head?_eq_some_iff.mp hs
  rw [match?, ends, hrest, List.flatMap_cons, hrest']
  rfl

/-- A repeated symbol prefers to take as many as it can. -/
theorem match_star_symbol :
    match? (star (symbol p)) c = some (c.skip (c.ahead.takeWhile p).length) := by
  have hfuel : ∀ (fuel : ℕ) (c : Cursor α), c.ahead.length ≤ fuel →
      (starEnds (ends (symbol p)) fuel c).head? =
        some (c.skip (c.ahead.takeWhile p).length) := by
    intro fuel
    induction fuel with
    | zero =>
      intro c hlen
      have hnil : c.ahead = [] := List.length_eq_zero_iff.mp (Nat.le_zero.mp hlen)
      simp [starEnds, hnil]
    | succ fuel ih =>
      intro c hlen
      cases hahead : c.ahead with
      | nil => simp [starEnds, ends, hahead]
      | cons x rest =>
        cases hx : p x with
        | false => simp [starEnds, ends, hahead, hx]
        | true =>
          have hskip : (c.skip 1).ahead = rest := by rw [ahead_skip, hahead]; rfl
          have hends : ends (symbol p) c = [c.skip 1] := by simp [ends, hahead, hx]
          have hrest : (starEnds (ends (symbol p)) fuel (c.skip 1)).head? =
              some (c.skip ((rest.takeWhile p).length + 1)) := by
            rw [ih (c.skip 1) (by rw [hskip]; simpa [hahead] using hlen), hskip, skip_skip,
              Nat.add_comm]
          have hshorter : (c.skip 1).ahead.length < c.ahead.length := by simp [hahead]
          rw [starEnds, hends, List.filter_cons_of_pos (by simpa using hshorter),
            List.filter_nil, List.flatMap_cons, List.flatMap_nil, List.append_nil,
            List.head?_append, hrest]
          simp [hx]
  exact hfuel _ _ le_rfl

/-! ### Matches in a text -/

/-- A match found from a position on starts somewhere ahead and is the preferred one there. -/
theorem mem_ends_of_findFrom {n : ℕ} {b : Cursor α} (h : findFrom r n c = some (b, d)) :
    match? r b = some d ∧ c.Leads b ∧ b.captured = c.captured := by
  induction n generalizing c with
  | zero =>
    obtain ⟨e, he, heq⟩ := Option.map_eq_some_iff.mp h
    obtain ⟨rfl, rfl⟩ := Prod.mk.inj heq
    exact ⟨he, .refl _, rfl⟩
  | succ n ih =>
    unfold findFrom at h
    split at h
    · rename_i e he
      obtain ⟨rfl, rfl⟩ := Prod.mk.inj (Option.some.inj h)
      exact ⟨he, .refl _, rfl⟩
    · obtain ⟨hmatch, hleads, hcap⟩ := ih h
      exact ⟨hmatch, (Cursor.leads_skip 1).trans hleads, hcap⟩

theorem mem_findAllFrom {fuel : ℕ} {b : Cursor α} (hc : c.captured = none)
    (h : (b, d) ∈ findAllFrom r fuel c) :
    match? r b = some d ∧ c.Leads b ∧ b.captured = none := by
  induction fuel generalizing c with
  | zero => cases h
  | succ fuel ih =>
    unfold findAllFrom at h
    split at h
    · cases h
    · rename_i b' d' hfind
      obtain ⟨hmatch, hleads, hcap⟩ := mem_ends_of_findFrom hfind
      rcases List.mem_cons.mp h with heq | h
      · obtain ⟨rfl, rfl⟩ := Prod.mk.inj heq
        exact ⟨hmatch, hleads, hcap.trans hc⟩
      · obtain ⟨hmatch', hleads', hcap'⟩ := ih rfl h
        have hfound : b'.Leads d' := leads_of_mem_ends (List.mem_of_head? hmatch)
        exact ⟨hmatch', hleads.trans (Cursor.Leads.trans hfound hleads'), hcap'⟩

theorem findFrom_of_match (h : match? r c = some d) (n : ℕ) : findFrom r n c = some (c, d) := by
  cases n with
  | zero => rw [findFrom, h, Option.map_some]
  | succ n => simp only [findFrom, h]

theorem findFrom_of_none (h : match? r c = none) (n : ℕ) :
    findFrom r (n + 1) c = findFrom r n (c.skip 1) := by
  simp only [findFrom, h]

theorem findAllFrom_of_match {fuel : ℕ} (h : match? r c = some d) :
    findAllFrom r (fuel + 1) c = (c, d) :: findAllFrom r fuel { d with captured := none } := by
  rw [findAllFrom, findFrom_of_match h]

theorem findAllFrom_of_none {x : α} {rest : List α} {fuel : ℕ} (h : match? r c = none)
    (hahead : c.ahead = x :: rest) :
    findAllFrom r (fuel + 1) c = findAllFrom r (fuel + 1) (c.skip 1) := by
  have hlen : (c.skip 1).ahead.length = rest.length := by rw [ahead_skip, hahead]; rfl
  rw [findAllFrom, hahead, List.length_cons, findFrom_of_none h, findAllFrom, hlen]

theorem findAllFrom_of_nil {fuel : ℕ} (h : match? r c = none) (hahead : c.ahead = []) :
    findAllFrom r (fuel + 1) c = [] := by
  rw [findAllFrom, hahead, List.length_nil, findFrom, h, Option.map_none]

/-- The match of a text and where it starts. -/
theorem mem_ends_of_find {text : List α} {b : Cursor α} (h : find? r text = some (b, d)) :
    d ∈ ends r b ∧ text = b.behind.reverse ++ b.ahead := by
  obtain ⟨hmatch, ⟨taken, hahead, hbehind⟩, -⟩ := mem_ends_of_findFrom h
  refine ⟨List.mem_of_head? hmatch, ?_⟩
  simpa [hbehind, Cursor.start] using hahead

/-- A match found in a text splits it: what is behind its start, then what is ahead. -/
theorem exists_of_mem_findAll {text : List α} {b : Cursor α} (h : (b, d) ∈ findAll r text) :
    d ∈ ends r b ∧ text = b.behind.reverse ++ b.ahead ∧ b.captured = none := by
  obtain ⟨hmatch, ⟨taken, hahead, hbehind⟩, hcap⟩ := mem_findAllFrom rfl h
  refine ⟨List.mem_of_head? hmatch, ?_, hcap⟩
  simpa [hbehind, Cursor.start] using hahead

/-! ### What an expression prefers to take -/

/-- Of a text that goes on with `rest` after `u`, the expression prefers to take `u`. -/
def Takes (r : Regexp α) (u rest : List α) : Prop :=
  ∀ c : Cursor α, c.ahead = u ++ rest → match? r c = some (c.skip u.length)

/-- The expression does not match at the start of the text. -/
def Fails (r : Regexp α) (text : List α) : Prop := ∀ c : Cursor α, c.ahead = text → ends r c = []

theorem takes_empty (rest : List α) : Takes (empty : Regexp α) [] rest := by
  intro c hc
  rw [match_empty, List.length_nil, skip_zero]

theorem takes_symbol {x : α} (hx : p x = true) (rest : List α) : Takes (symbol p) [x] rest := by
  intro c hc
  have hhead : c.ahead.head?.any p = true := by simpa [hc] using hx
  rw [match_symbol, if_pos hhead, List.length_singleton]

theorem takes_star_symbol {u rest : List α} (hu : ∀ x ∈ u, p x = true)
    (hrest : ∀ x ∈ rest.head?, p x = false) : Takes (star (symbol p)) u rest := by
  intro c hc
  have hnone : rest.takeWhile p = [] := by
    cases rest with
    | nil => rfl
    | cons x rest => rw [List.takeWhile_cons_of_neg]; simpa using hrest x
  rw [match_star_symbol, hc, List.takeWhile_append_of_pos hu, hnone, List.append_nil]

theorem Takes.seq {u v rest : List α} (hr : Takes r u (v ++ rest)) (hs : Takes s v rest) :
    Takes (seq r s) (u ++ v) rest := by
  intro c hc
  have hskip : (c.skip u.length).ahead = v ++ rest := by
    rw [ahead_skip, hc, List.append_assoc, List.drop_left]
  have hlast := hs _ hskip
  rw [skip_skip, ← List.length_append] at hlast
  exact match_seq (hr c (by rw [hc, List.append_assoc])) hlast

theorem takes_plus_symbol {u rest : List α} (hne : u ≠ []) (hu : ∀ x ∈ u, p x = true)
    (hrest : ∀ x ∈ rest.head?, p x = false) : Takes (plus (symbol p)) u rest := by
  obtain ⟨x, u, rfl⟩ := List.exists_cons_of_ne_nil hne
  obtain ⟨hx, hu⟩ := List.forall_mem_cons.mp hu
  exact Takes.seq (takes_symbol hx (u ++ rest)) (takes_star_symbol hu hrest)

theorem Takes.opt {u rest : List α} (hr : Takes r u rest) : Takes (opt r) u rest := by
  intro c hc
  rw [match_opt, hr c hc, Option.getD_some]

theorem Fails.match_eq_none {text : List α} (h : Fails r text) (hc : c.ahead = text) :
    match? r c = none :=
  match_eq_none_iff.mpr (h c hc)

theorem Fails.opt {text : List α} (hr : Fails r text) : Takes (opt r) [] text := by
  intro c hc
  rw [match_opt, hr.match_eq_none hc, Option.getD_none, List.length_nil, skip_zero]

theorem Takes.alt_left {u rest : List α} (hr : Takes r u rest) : Takes (alt r s) u rest := by
  intro c hc
  rw [match_alt, hr c hc, Option.some_or]

theorem Takes.alt_right {u rest : List α} (hr : Fails r (u ++ rest)) (hs : Takes s u rest) :
    Takes (alt r s) u rest := by
  intro c hc
  rw [match_alt, hr.match_eq_none hc, Option.none_or, hs c hc]

theorem fails_symbol {text : List α} (h : ∀ x ∈ text.head?, p x = false) :
    Fails (symbol p) text := by
  intro c hc
  cases text with
  | nil => simp [ends, hc]
  | cons x text => simpa [ends, hc] using h x

theorem Fails.seq {text : List α} (hr : Fails r text) : Fails (seq r s) text := by
  intro c hc
  rw [ends, hr c hc, List.flatMap_nil]

theorem Fails.seq_opt {text : List α} (hr : Fails r text) (hs : Fails s text) :
    Fails (Regexp.seq (Regexp.opt r) s) text := by
  intro c hc
  have hopt : ends (Regexp.opt r) c = [c] := by
    change ends r c ++ [c] = [c]
    rw [hr c hc, List.nil_append]
  rw [ends, hopt, List.flatMap_singleton, hs c hc]

/-! ### Searching for what is taken -/

theorem Takes.findFrom {u rest : List α} (h : Takes r u rest) (hc : c.ahead = u ++ rest) (n : ℕ) :
    findFrom r n c = some (c, c.skip u.length) :=
  findFrom_of_match (h c hc) n

theorem Fails.findFrom {text : List α} (h : Fails r text) (hc : c.ahead = text) (n : ℕ) :
    findFrom r (n + 1) c = findFrom r n (c.skip 1) :=
  findFrom_of_none (h.match_eq_none hc) n

@[simp] theorem upTo_skip (n : ℕ) : c.upTo (c.skip n) = c.ahead.take n := by
  rw [Cursor.upTo, ahead_skip, List.length_drop, List.take_eq_take_iff]
  omega

/-- After a match that took all of the rest there is no other one. -/
theorem Fails.findAllFrom {u : List α} (hnil : Fails r []) {b : Cursor α}
    (hb : b.ahead = u) (hc : Regexp.findFrom r c.ahead.length c = some (b, b.skip u.length)) (n : ℕ) :
    findAllFrom r (n + 2) c = [(b, b.skip u.length)] := by
  have hend : (b.skip u.length).ahead = [] := by
    rw [ahead_skip, hb, List.drop_length]
  have hnone : ∀ d : Cursor α, d.ahead = [] → Regexp.findFrom r 0 d = none := fun d hd => by
    rw [Regexp.findFrom, hnil.match_eq_none hd, Option.map_none]
  have hstop : Regexp.findFrom r (b.skip u.length).ahead.length
      { b.skip u.length with captured := none } = none := by
    rw [hend]
    exact hnone _ hend
  simp only [Regexp.findAllFrom, hc, hstop]

theorem Takes.findAllText {u : List α} (h : Takes r u []) (hnil : Fails r []) (hne : u ≠ []) :
    findAllText r u = [u] := by
  obtain ⟨n, hn⟩ := Nat.exists_eq_add_one_of_ne_zero (mt List.length_eq_zero_iff.mp hne)
  have hfind := h.findFrom (List.append_nil u).symm (c := .start u) u.length
  have hall := hnil.findAllFrom (c := .start u) rfl hfind n
  rw [Regexp.findAllText, findAll, hn, hall, List.map_singleton]
  simp [Cursor.start]

/-- A symbol before that no match begins with is passed over. -/
theorem Takes.findAllText_cons {x : α} {u : List α} (h : Takes r u []) (hnil : Fails r [])
    (hx : Fails r (x :: u)) : Regexp.findAllText r (x :: u) = [u] := by
  have hskip : (Cursor.start (x :: u)).skip 1 = ⟨[x], u, none⟩ := rfl
  have hfind : Regexp.findFrom r (x :: u).length (.start (x :: u)) =
      some (⟨[x], u, none⟩, (⟨[x], u, none⟩ : Cursor α).skip u.length) := by
    rw [List.length_cons, hx.findFrom rfl, hskip]
    exact h.findFrom (List.append_nil u).symm u.length
  have hall := hnil.findAllFrom (c := .start (x :: u)) rfl hfind u.length
  rw [Regexp.findAllText, findAll, List.length_cons, hall, List.map_singleton]
  simp

end Regexp
