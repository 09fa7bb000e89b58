import HubScope.Lib.Bytes
import HubScope.Lib.Regexp
import Mathlib.Data.List.Lex
import Mathlib.Data.List.Sort
import Mathlib.Data.Prod.Lex

/-!
# Canonical Python literals

The output verdict compares two Python literals in a canonical form: no white space between the
tokens, strings in double quotes, keywords with their capital, the entries of sets and
dictionaries sorted. The parser reads bytes by recursive descent and returns that form of what it
read, with the rest of the text. What it does with a container does not depend on what it returns
for the values in it, so the loops are stated for any result.

## Main definitions

* `PyParser.parseItems`, `parseParens`, `parseEntries` — the loops over a container
* `PyParser.parseValue` — the parser
* `canonicalPyLiteral` — the canonical form of a text that is one literal

## Main results

* `PyParser.parseEntries_none` — braces hold pairs if a colon follows the first key, and single
  elements if none does
* `PyParser.parseItems_map` — the loops only pass the results on
-/

set_option autoImplicit false

namespace HubScope

namespace PyParser

open Bytes

/-! ### Classes of bytes -/

def isWS (c : Byte) : Bool := c ∈ ascii [' ', '\t', '\n', '\r', '\x0c', '\x0b']

def isQuote (c : Byte) : Bool := c ∈ ascii ['\'', '"']

def isDigit (c : Byte) : Bool := byte '0' ≤ c && c ≤ byte '9'

def isLetter (c : Byte) : Bool :=
  byte 'a' ≤ c && c ≤ byte 'z' || byte 'A' ≤ c && c ≤ byte 'Z'

def toLower (c : Byte) : Byte := if byte 'A' ≤ c ∧ c ≤ byte 'Z' then c + 32 else c

def skipWS (s : Bytes) : Bytes := s.dropWhile isWS

/-! ### Strings -/

/-- The byte two hexadecimal digits stand for. -/
def hexByte (h l : Byte) : Option Byte := do
  some (Fin.ofNat 256 (16 * (← hexVal h.val) + (← hexVal l.val)))

/-- The byte a backslash and one other byte stand for. -/
def unescape (e : Byte) : Option Byte :=
  if e = byte 'n' then some (byte '\n')
  else if e = byte 't' then some (byte '\t')
  else if e = byte 'r' then some (byte '\r')
  else if e = byte '\\' then some (byte '\\')
  else if e = byte '\'' then some (byte '\'')
  else if e = byte '"' then some (byte '"')
  else none

/-- The content of a string up to its closing quote, and what follows the quote. -/
def stringBody (q : Byte) : Bytes → Option (Bytes × Bytes)
  | [] => none
  | c :: s =>
    if c = q then some ([], s)
    else if c = byte '\\' then
      match s with
      | [] => none
      | e :: s =>
        if e = byte 'x' then
          match s with
          | h :: l :: s => do
            let b ← hexByte h l
            let (content, s) ← stringBody q s
            some (b :: content, s)
          | _ => none
        else do
          let b ← unescape e
          let (content, s) ← stringBody q s
          some (b :: content, s)
    else do
      let (content, s) ← stringBody q s
      some (c :: content, s)

/-- A byte of a string's content in the canonical form. -/
def escapeByte (c : Byte) : Bytes :=
  if c = byte '\\' then ascii ['\\', '\\']
  else if c = byte '"' then ascii ['\\', '"']
  else if c = byte '\n' then ascii ['\\', 'n']
  else if c = byte '\t' then ascii ['\\', 't']
  else if c = byte '\r' then ascii ['\\', 'r']
  else [c]

def escapePyString (content : Bytes) : Bytes := content.flatMap escapeByte

/-- The canonical form of a string, or of a bytes literal. -/
def quoted (isBytes : Bool) (content : Bytes) : Bytes :=
  (if isBytes then [byte 'b'] else []) ++ byte '"' :: escapePyString content ++ [byte '"']

def parseString : Bytes → Option (Bytes × Bytes)
  | [] => none
  | c :: s =>
    if c = byte 'b' ∨ c = byte 'B' then
      match s with
      | [] => none
      | q :: s => (stringBody q s).map fun (content, s) => (quoted true content, s)
    else (stringBody c s).map fun (content, s) => (quoted false content, s)

/-! ### Numbers and keywords -/

/-- `\d`. -/
def digitRe : Regexp Byte := .symbol isDigit

/-- `^[+-]?(\d+(\.\d*)?|\.\d+)([eE][+-]?\d+)?`, without its groups. -/
def pyNumberRe : Regexp Byte :=
  .cat [.bol, .opt (.symbol (· ∈ ascii ['+', '-'])),
    .alt (.seq (.plus digitRe) (.opt (.seq (.lit (byte '.')) (.star digitRe))))
      (.seq (.lit (byte '.')) (.plus digitRe)),
    .opt (.cat [.symbol (· ∈ ascii ['e', 'E']), .opt (.symbol (· ∈ ascii ['+', '-'])),
      .plus digitRe])]

def trimPlus : Bytes → Bytes
  | [] => []
  | c :: s => if c = byte '+' then s else c :: s

def parseNumber (s : Bytes) : Option (Bytes × Bytes) :=
  (pyNumberRe.match? (.start s)).bind fun d =>
    let token := (Regexp.Cursor.start s).upTo d
    if token = [] then none else some (trimPlus token, d.ahead)

/-- The keyword a word in small letters is. -/
def keywordOf (word : Bytes) : Option Bytes :=
  if word = ascii ['t', 'r', 'u', 'e'] then some (ascii ['T', 'r', 'u', 'e'])
  else if word = ascii ['f', 'a', 'l', 's', 'e'] then some (ascii ['F', 'a', 'l', 's', 'e'])
  else if word = ascii ['n', 'o', 'n', 'e'] then some (ascii ['N', 'o', 'n', 'e'])
  else none

def parseKeyword (s : Bytes) : Option (Bytes × Bytes) :=
  (keywordOf ((s.takeWhile isLetter).map toLower)).map fun word => (word, s.dropWhile isLetter)

/-! ### The loops over a container -/

section Loops

variable {α β : Type} (parseItem : Bytes → Option (β × Bytes))
  (parseValue : Bytes → Option (α × Bytes))

/-- One item and more up to the closing byte, with a comma between two and perhaps one before the
closing byte, in at most `fuel` rounds. -/
def parseItems (close : Byte) : ℕ → Bytes → Option (List β × Bytes)
  | 0, _ => none
  | fuel + 1, s => do
    let (v, s) ← parseItem s
    match skipWS s with
    | [] => none
    | c :: s =>
      if c = byte ',' then
        let s := skipWS s
        if s.head? = some close then some ([v], s.tail)
        else do
          let (vs, s) ← parseItems close fuel s
          some (v :: vs, s)
      else if c = close then some ([v], s)
      else none

def parseElems (close : Byte) (s : Bytes) : Option (List β × Bytes) :=
  if (skipWS s).head? = some close then some ([], (skipWS s).tail)
  else parseItems parseItem close s.length (skipWS s)

/-- What an opening parenthesis begins: a value on its own, or the elements of a tuple. -/
def parseParens (s : Bytes) : Option ((α ⊕ List α) × Bytes) :=
  let s := skipWS s
  if s.head? = some (byte ')') then some (.inr [], s.tail)
  else do
    let (first, s) ← parseValue s
    let s := skipWS s
    if s.head? = some (byte ')') then some (.inl first, s.tail)
    else if s.head? = some (byte ',') then do
      let (rest, s) ← parseElems parseValue (byte ')') s.tail
      some (.inr (first :: rest), s)
    else none

/-- The loop over braces. Whether they hold a dictionary is settled by the colon after the first
key and not asked again. -/
def parseEntries : ℕ → Option Bool → List (α × α) → List α → Bytes →
    Option ((List (α × α) ⊕ List α) × Bytes)
  | 0, _, _, _, _ => none
  | fuel + 1, isDict, pairs, elems, s => do
    let (k, s) ← parseValue s
    let s := skipWS s
    let isDict := isDict.getD (s.head? = some (byte ':'))
    let (pairs, elems, s) ←
      if isDict then
        if s.head? = some (byte ':') then do
          let (v, s) ← parseValue s.tail
          some (pairs ++ [(k, v)], elems, s)
        else none
      else some (pairs, elems ++ [k], s)
    let entries := if isDict then .inl pairs else .inr elems
    match skipWS s with
    | [] => none
    | c :: s =>
      if c = byte ',' then
        let s := skipWS s
        if s.head? = some (byte '}') then some (entries, s.tail)
        else parseEntries fuel (some isDict) pairs elems s
      else if c = byte '}' then some (entries, s)
      else none

/-- What an opening brace begins: the entries of a dictionary or the elements of a set. -/
def parseBraces (s : Bytes) : Option ((List (α × α) ⊕ List α) × Bytes) :=
  if (skipWS s).head? = some (byte '}') then some (.inl [], (skipWS s).tail)
  else parseEntries parseValue s.length none [] [] (skipWS s)

end Loops

/-! ### Containers -/

/-- `strings.Join` with a comma. -/
def joinComma : List Bytes → Bytes
  | [] => []
  | [x] => x
  | x :: y :: xs => x ++ byte ',' :: joinComma (y :: xs)

def listForm (elems : List Bytes) : Bytes := byte '[' :: joinComma elems ++ [byte ']']

def tupleForm : List Bytes → Bytes
  | [v] => byte '(' :: v ++ ascii [',', ')']
  | elems => byte '(' :: joinComma elems ++ [byte ')']

/-- The order of the entries of a dictionary: by key, and by value where the keys are equal. -/
def pairLe (a b : Bytes × Bytes) : Prop := if a.1 ≠ b.1 then a.1 < b.1 else a.2 ≤ b.2

instance : DecidableRel pairLe := fun a b => by unfold pairLe; infer_instance

def dictForm (pairs : List (Bytes × Bytes)) : Bytes :=
  byte '{' :: joinComma ((pairs.insertionSort pairLe).map fun (k, v) => k ++ byte ':' :: v) ++
    [byte '}']

def setForm (elems : List Bytes) : Bytes :=
  byte '{' :: joinComma (elems.insertionSort (· ≤ ·)) ++ [byte '}']

section Containers

variable (parseValue : Bytes → Option (Bytes × Bytes))

def parseList (s : Bytes) : Option (Bytes × Bytes) :=
  (parseElems parseValue (byte ']') s).map fun (elems, s) => (listForm elems, s)

/-- A value in parentheses without a comma is the value itself. -/
def parseTuple (s : Bytes) : Option (Bytes × Bytes) :=
  (parseParens parseValue s).map fun (inside, s) => (inside.elim id tupleForm, s)

def parseDictOrSet (s : Bytes) : Option (Bytes × Bytes) :=
  (parseBraces parseValue s).map fun (inside, s) => (inside.elim dictForm setForm, s)

end Containers

/-! ### Values -/

/-- A string begins here, perhaps after the prefix of a bytes literal. -/
def startsString (c : Byte) (s : Bytes) : Bool :=
  isQuote c || c ∈ ascii ['b', 'B'] && s.head?.any isQuote

def startsNumber (c : Byte) : Bool := c ∈ ascii ['-', '+', '.'] || isDigit c

/-- A value and what follows it, nested `depth` levels at most. -/
def parseValue : ℕ → Bytes → Option (Bytes × Bytes)
  | 0, _ => none
  | depth + 1, s =>
    match skipWS s with
    | [] => none
    | c :: s =>
      if startsString c s then parseString (c :: s)
      else if c = byte '[' then parseList (parseValue depth) s
      else if c = byte '(' then parseTuple (parseValue depth) s
      else if c = byte '{' then parseDictOrSet (parseValue depth) s
      else if startsNumber c then parseNumber (c :: s)
      else if isLetter c then parseKeyword (c :: s)
      else none

/-! ### White space -/

/-- White space between tokens. -/
def Spacing (w : Bytes) : Prop := ∀ c ∈ w, isWS c = true

theorem Spacing.append {w w' : Bytes} (h : Spacing w) (h' : Spacing w') : Spacing (w ++ w') :=
  List.forall_mem_append.mpr ⟨h, h'⟩

theorem Spacing.nil : Spacing [] := List.forall_mem_nil _

theorem skipWS_append {w : Bytes} (hw : Spacing w) (s : Bytes) : skipWS (w ++ s) = skipWS s :=
  List.dropWhile_append_of_pos hw

@[simp] theorem skipWS_cons_of_not {c : Byte} (hc : isWS c = false) (s : Bytes) :
    skipWS (c :: s) = c :: s := by
  simp [skipWS, hc]

@[simp] theorem skipWS_nil : skipWS [] = [] := rfl

/-- Skipping takes white space only, and all of it. -/
theorem exists_skipWS (s : Bytes) : ∃ w, Spacing w ∧ s = w ++ skipWS s :=
  ⟨s.takeWhile isWS, fun _ hc => List.mem_takeWhile_imp hc,
    (List.takeWhile_append_dropWhile (p := isWS)).symm⟩

theorem skipWS_skipWS (s : Bytes) : skipWS (skipWS s) = skipWS s :=
  List.dropWhile_idempotent isWS s

/-! ### What the loops do -/

section Loops

variable {α β γ : Type} {parseItem : Bytes → Option (β × Bytes)}
  {parseValue : Bytes → Option (α × Bytes)} {close : Byte}

/-- What a comma is followed by: the closing byte, or more items. -/
def parseMore (parseItem : Bytes → Option (β × Bytes)) (close : Byte) (fuel : ℕ) (s : Bytes) :
    Option (List β × Bytes) :=
  if (skipWS s).head? = some close then some ([], (skipWS s).tail)
  else parseItems parseItem close fuel (skipWS s)

/-- A key, a colon and a value. -/
def parsePair (parseValue : Bytes → Option (α × Bytes)) (s : Bytes) :
    Option ((α × α) × Bytes) := do
  let (k, s) ← parseValue s
  if (skipWS s).head? = some (byte ':') then do
    let (v, s) ← parseValue (skipWS s).tail
    some ((k, v), s)
  else none

/-- A colon follows the first value. -/
def keyed (parseValue : Bytes → Option (α × Bytes)) (s : Bytes) : Bool :=
  (parseValue s).any fun (_, s) => (skipWS s).head? = some (byte ':')

/-- One round: an item, and then the closing byte, or a comma and what follows it. -/
theorem parseItems_succ (fuel : ℕ) (s : Bytes) : parseItems parseItem close (fuel + 1) s =
    (parseItem s).bind fun (v, s) =>
      match skipWS s with
      | [] => none
      | c :: s =>
        if c = byte ',' then
          (parseMore parseItem close fuel s).map fun (vs, s) => (v :: vs, s)
        else if c = close then some ([v], s) else none := by
  rw [parseItems]
  cases hitem : parseItem s with
  | none => rfl
  | some r =>
    obtain ⟨v, s⟩ := r
    simp only [Option.bind_eq_bind, Option.bind_some]
    cases skipWS s with
    | nil => rfl
    | cons c s =>
      -- after a comma, a closing byte ends the items as well
      simp only [parseMore]
      split_ifs
      · rfl
      · cases parseItems parseItem close fuel (skipWS s) <;> rfl
      · rfl
      · rfl

theorem parseItems_close {s w rest : Bytes} {v : β} {fuel : ℕ}
    (hitem : parseItem s = some (v, w ++ close :: rest)) (hw : Spacing w)
    (hclose : isWS close = false) (hcomma : close ≠ byte ',') :
    parseItems parseItem close (fuel + 1) s = some ([v], rest) := by
  simp only [parseItems_succ, hitem, Option.bind_some, skipWS_append hw,
    skipWS_cons_of_not hclose, if_neg hcomma, if_pos]

theorem parseItems_comma {s w u rest : Bytes} {v : β} {vs : List β} {fuel : ℕ}
    (hitem : parseItem s = some (v, w ++ byte ',' :: u)) (hw : Spacing w)
    (hmore : parseMore parseItem close fuel u = some (vs, rest)) :
    parseItems parseItem close (fuel + 1) s = some (v :: vs, rest) := by
  have hcomma : isWS (byte ',') = false := by decide
  simp only [parseItems_succ, hitem, Option.bind_some, skipWS_append hw,
    skipWS_cons_of_not hcomma, if_pos, hmore, Option.map_some]

/-- The elements up to a closing byte follow it as they follow a comma. -/
theorem parseElems_eq (s : Bytes) :
    parseElems parseItem close s = parseMore parseItem close s.length s := rfl

section Sound

variable {P : β → Bytes → Prop} {Q : List β → Bytes → Prop}

theorem parseMore_sound_of (hnil : ∀ w, Spacing w → Q [] w)
    (hspace : ∀ w vs u, Spacing w → Q vs u → Q vs (w ++ u)) {fuel : ℕ} {rest : Bytes}
    (hitems : ∀ s vs, parseItems parseItem close fuel s = some (vs, rest) →
      ∃ u, s = u ++ close :: rest ∧ Q vs u) {s : Bytes} {vs : List β}
    (h : parseMore parseItem close fuel s = some (vs, rest)) :
    ∃ u, s = u ++ close :: rest ∧ Q vs u := by
  obtain ⟨w, hw, hskip⟩ := exists_skipWS s
  rw [parseMore] at h
  split_ifs at h with hhead
  · obtain ⟨rfl, rfl⟩ := Prod.mk.inj (Option.some.inj h)
    refine ⟨w, ?_, hnil w hw⟩
    rwa [List.cons_head?_tail hhead]
  · obtain ⟨u, hu, hQ⟩ := hitems _ _ h
    refine ⟨w ++ u, ?_, hspace w vs u hw hQ⟩
    rw [hskip, hu, List.append_assoc]

variable (hitem : ∀ s v r, parseItem s = some (v, r) → ∃ t, s = t ++ r ∧ P v t)
  (hnil : ∀ w, Spacing w → Q [] w) (hspace : ∀ w vs u, Spacing w → Q vs u → Q vs (w ++ u))
  (hlast : ∀ v t w, P v t → Spacing w → Q [v] (t ++ w))
  (hcons : ∀ v t w vs u, P v t → Spacing w → Q vs u → Q (v :: vs) (t ++ w ++ byte ',' :: u))

include hitem hnil hspace hlast hcons

/-- What the loop read, for a property of items and one of lists of them that its rounds build. -/
theorem parseItems_sound {fuel : ℕ} {s rest : Bytes} {vs : List β}
    (h : parseItems parseItem close fuel s = some (vs, rest)) :
    ∃ u, s = u ++ close :: rest ∧ Q vs u := by
  induction fuel generalizing s vs with
  | zero => cases h
  | succ fuel ih =>
    rw [parseItems_succ] at h
    obtain ⟨⟨v, s'⟩, hv, hround⟩ := Option.bind_eq_some_iff.mp h
    obtain ⟨t, rfl, ht⟩ := hitem s v s' hv
    obtain ⟨w, hw, hskip⟩ := exists_skipWS s'
    cases hnext : skipWS s' with
    | nil => simp [hnext] at hround
    | cons c s'' =>
      simp only [hnext] at hround
      split_ifs at hround with hcomma hclose
      · -- after a comma the closing byte may follow at once
        obtain ⟨⟨vs', r⟩, hmore, heq⟩ := Option.map_eq_some_iff.mp hround
        obtain ⟨rfl, rfl⟩ := Prod.mk.inj heq
        obtain ⟨u, rfl, hQ⟩ := parseMore_sound_of hnil hspace (fun s vs => ih) hmore
        refine ⟨t ++ w ++ byte ',' :: u, ?_, hcons v t w vs' u ht hw hQ⟩
        rw [hskip, hnext, hcomma]
        simp
      · obtain ⟨rfl, rfl⟩ := Prod.mk.inj (Option.some.inj hround)
        refine ⟨t ++ w, ?_, hlast v t w ht hw⟩
        rw [hskip, hnext, hclose]
        simp

theorem parseMore_sound {fuel : ℕ} {s rest : Bytes} {vs : List β}
    (h : parseMore parseItem close fuel s = some (vs, rest)) :
    ∃ u, s = u ++ close :: rest ∧ Q vs u :=
  parseMore_sound_of hnil hspace
    (fun _ _ => parseItems_sound hitem hnil hspace hlast hcons) h

end Sound

theorem ne_nil_of_parseItems {fuel : ℕ} {s rest : Bytes} {vs : List β}
    (h : parseItems parseItem close fuel s = some (vs, rest)) : vs ≠ [] := by
  cases fuel with
  | zero => cases h
  | succ fuel =>
    rw [parseItems_succ] at h
    obtain ⟨⟨v, s'⟩, -, hround⟩ := Option.bind_eq_some_iff.mp h
    cases hnext : skipWS s' with
    | nil => simp [hnext] at hround
    | cons c s'' =>
      simp only [hnext] at hround
      split_ifs at hround
      · obtain ⟨⟨vs', r⟩, -, heq⟩ := Option.map_eq_some_iff.mp hround
        obtain ⟨rfl, -⟩ := Prod.mk.inj heq
        exact List.cons_ne_nil _ _
      · obtain ⟨rfl, -⟩ := Prod.mk.inj (Option.some.inj hround)
        exact List.cons_ne_nil _ _

/-! ### Braces -/

theorem parseEntries_true (fuel : ℕ) (pairs : List (α × α)) (elems : List α) (s : Bytes) :
    parseEntries parseValue fuel (some true) pairs elems s =
      (parseItems (parsePair parseValue) (byte '}') fuel s).map fun (more, s) =>
        (.inl (pairs ++ more), s) := by
  induction fuel generalizing pairs s with
  | zero => rfl
  | succ fuel ih =>
    simp only [parseEntries, parseItems_succ, parsePair, Option.getD_some, if_true]
    cases parseValue s with
    | none => rfl
    | some r =>
      obtain ⟨k, s⟩ := r
      simp only [Option.bind_eq_bind, Option.bind_some]
      -- once a dictionary, an item without a colon is an error
      by_cases hcolon : (skipWS s).head? = some (byte ':')
      · simp only [if_pos hcolon]
        cases parseValue (skipWS s).tail with
        | none => rfl
        | some r =>
          obtain ⟨v, s⟩ := r
          simp only [Option.bind_some]
          cases skipWS s with
          | nil => rfl
          | cons c s =>
            simp only [ih, parseMore]
            split_ifs
            · rfl
            · simp [Function.comp_def]
            · rfl
            · rfl
      · simp only [if_neg hcolon]
        rfl

theorem parseEntries_false (fuel : ℕ) (pairs : List (α × α)) (elems : List α) (s : Bytes) :
    parseEntries parseValue fuel (some false) pairs elems s =
      (parseItems parseValue (byte '}') fuel s).map fun (more, s) =>
        (.inr (elems ++ more), s) := by
  induction fuel generalizing elems s with
  | zero => rfl
  | succ fuel ih =>
    simp only [parseEntries, parseItems_succ, Option.getD_some, Bool.false_eq_true, if_false]
    cases parseValue s with
    | none => rfl
    | some r =>
      obtain ⟨k, s⟩ := r
      -- once a set, a colon is not looked for
      simp only [Option.bind_eq_bind, Option.bind_some, skipWS_skipWS]
      cases skipWS s with
      | nil => rfl
      | cons c s =>
        simp only [ih, parseMore]
        split_ifs
        · rfl
        · simp [Function.comp_def]
        · rfl
        · rfl

/-- The colon after the first key, or its absence, settles what the braces hold. -/
theorem parseEntries_none (fuel : ℕ) (pairs : List (α × α)) (elems : List α) (s : Bytes) :
    parseEntries parseValue fuel none pairs elems s =
      parseEntries parseValue fuel (some (keyed parseValue s)) pairs elems s := by
  cases fuel with
  | zero => rfl
  | succ fuel =>
    cases hkey : parseValue s with
    | none => simp only [parseEntries, hkey, Option.bind_eq_bind, Option.bind_none]
    | some r =>
      simp only [parseEntries, keyed, hkey, Option.bind_eq_bind, Option.bind_some, Option.any_some,
        Option.getD_none, Option.getD_some]

/-- Braces are read as pairs or as elements from the start. -/
theorem parseBraces_eq (s : Bytes) : parseBraces parseValue s =
    if (skipWS s).head? = some (byte '}') then some (.inl [], (skipWS s).tail)
    else if keyed parseValue (skipWS s) then
      (parseItems (parsePair parseValue) (byte '}') s.length (skipWS s)).map
        fun (pairs, s) => (.inl pairs, s)
    else
      (parseItems parseValue (byte '}') s.length (skipWS s)).map
        fun (elems, s) => (.inr elems, s) := by
  simp only [parseBraces, parseEntries_none]
  cases keyed parseValue (skipWS s) with
  | false => simp only [parseEntries_false, List.nil_append, Bool.false_eq_true, if_false]
  | true => simp only [parseEntries_true, List.nil_append, if_true]

/-- Where the loop reads elements, no colon follows the first of them. -/
theorem keyed_of_elems {fuel : ℕ} {s : Bytes} {r : List α × Bytes} (hclose : close ≠ byte ':')
    (h : parseItems parseValue close fuel s = some r) : keyed parseValue s = false := by
  cases fuel with
  | zero => cases h
  | succ fuel =>
    rw [parseItems_succ] at h
    obtain ⟨⟨v, s'⟩, hv, hround⟩ := Option.bind_eq_some_iff.mp h
    rw [keyed, hv, Option.any_some, decide_eq_false_iff_not]
    intro hcolon
    cases hnext : skipWS s' with
    | nil => simp [hnext] at hcolon
    | cons c s'' =>
      obtain rfl : c = byte ':' := by simpa [hnext] using hcolon
      simp only [hnext] at hround
      split_ifs at hround with hcomma hother
      · exact absurd hcomma (by decide)
      · exact hclose hother.symm

/-- Where the loop reads pairs, one does. -/
theorem keyed_of_pairs {fuel : ℕ} {s : Bytes} {r : List (α × α) × Bytes}
    (h : parseItems (parsePair parseValue) close fuel s = some r) :
    keyed parseValue s = true := by
  cases fuel with
  | zero => cases h
  | succ fuel =>
    rw [parseItems_succ] at h
    obtain ⟨⟨v, s'⟩, hv, -⟩ := Option.bind_eq_some_iff.mp h
    obtain ⟨⟨k, s''⟩, hk, hv⟩ := Option.bind_eq_some_iff.mp hv
    rw [keyed, hk, Option.any_some, decide_eq_true_eq]
    by_contra hcolon
    simp only [if_neg hcolon] at hv
    cases hv

theorem parseBraces_of_elems {s rest : Bytes} {elems : List α} (hne : elems ≠ [])
    (h : parseElems parseValue (byte '}') s = some (elems, rest)) :
    parseBraces parseValue s = some (.inr elems, rest) := by
  rw [parseElems] at h
  split_ifs at h with hhead
  · exact absurd (Prod.mk.inj (Option.some.inj h)).1.symm hne
  · have hkeyed := keyed_of_elems (by decide) h
    simp only [parseBraces_eq, if_neg hhead, hkeyed, Bool.false_eq_true, if_false, h,
      Option.map_some]

theorem parseBraces_of_entries {s rest : Bytes} {entries : List (α × α)}
    (h : parseElems (parsePair parseValue) (byte '}') s = some (entries, rest)) :
    parseBraces parseValue s = some (.inl entries, rest) := by
  rw [parseElems] at h
  split_ifs at h with hhead
  · obtain ⟨rfl, rfl⟩ := Prod.mk.inj (Option.some.inj h)
    rw [parseBraces_eq, if_pos hhead]
  · simp only [parseBraces_eq, if_neg hhead, keyed_of_pairs h, if_true, h, Option.map_some]

/-- Braces that were read hold the entries of a dictionary or elements of a set. -/
theorem elems_or_entries_of_parseBraces {s rest : Bytes} {inside : List (α × α) ⊕ List α}
    (h : parseBraces parseValue s = some (inside, rest)) :
    (∃ entries, inside = .inl entries ∧
      parseElems (parsePair parseValue) (byte '}') s = some (entries, rest)) ∨
    (∃ elems, inside = .inr elems ∧ elems ≠ [] ∧
      parseElems parseValue (byte '}') s = some (elems, rest)) := by
  rw [parseBraces_eq] at h
  split_ifs at h with hhead hkeyed
  · obtain ⟨rfl, rfl⟩ := Prod.mk.inj (Option.some.inj h)
    exact .inl ⟨[], rfl, if_pos hhead⟩
  · obtain ⟨⟨entries, r⟩, hitems, heq⟩ := Option.map_eq_some_iff.mp h
    obtain ⟨rfl, rfl⟩ := Prod.mk.inj heq
    exact .inl ⟨entries, rfl, (if_neg hhead).trans hitems⟩
  · obtain ⟨⟨elems, r⟩, hitems, heq⟩ := Option.map_eq_some_iff.mp h
    obtain ⟨rfl, rfl⟩ := Prod.mk.inj heq
    exact .inr ⟨elems, rfl, ne_nil_of_parseItems hitems, (if_neg hhead).trans hitems⟩

/-! ### Results are only passed on -/

section Map

variable (g : β → γ)

theorem parseItems_map {f : Bytes → Option (γ × Bytes)}
    (hf : ∀ s, f s = (parseItem s).map (Prod.map g id)) (fuel : ℕ) (s : Bytes) :
    parseItems f close fuel s =
      (parseItems parseItem close fuel s).map (Prod.map (List.map g) id) := by
  induction fuel generalizing s with
  | zero => rfl
  | succ fuel ih =>
    simp only [parseItems_succ, hf]
    cases parseItem s with
    | none => rfl
    | some r =>
      obtain ⟨v, s⟩ := r
      simp only [Option.map_some, Option.bind_some, Prod.map, id]
      cases skipWS s with
      | nil => rfl
      | cons c s =>
        simp only [parseMore, ih]
        split_ifs
        · rfl
        · simp [Function.comp_def]
        · rfl
        · rfl

theorem parseElems_map {f : Bytes → Option (γ × Bytes)}
    (hf : ∀ s, f s = (parseItem s).map (Prod.map g id)) (s : Bytes) :
    parseElems f close s = (parseElems parseItem close s).map (Prod.map (List.map g) id) := by
  simp only [parseElems, parseItems_map g hf]
  split_ifs <;> rfl

end Map

section Map

variable (g : α → γ) {f : Bytes → Option (γ × Bytes)}
  (hf : ∀ s, f s = (parseValue s).map (Prod.map g id))

include hf

theorem parsePair_map (s : Bytes) :
    parsePair f s = (parsePair parseValue s).map (Prod.map (Prod.map g g) id) := by
  simp only [parsePair, hf]
  cases parseValue s with
  | none => rfl
  | some r =>
    obtain ⟨k, s⟩ := r
    simp only [Option.map_some, Option.bind_eq_bind, Option.bind_some, Prod.map, id]
    split_ifs
    · cases parseValue (skipWS s).tail <;> rfl
    · rfl

theorem parseParens_map (s : Bytes) : parseParens f s =
    (parseParens parseValue s).map (Prod.map (Sum.map g (List.map g)) id) := by
  simp only [parseParens, hf]
  split_ifs
  · rfl
  · cases parseValue (skipWS s) with
    | none => rfl
    | some r =>
      obtain ⟨v, s⟩ := r
      simp only [Option.map_some, Option.bind_eq_bind, Option.bind_some, Prod.map, id]
      split_ifs
      · rfl
      · rw [parseElems_map g hf]
        cases parseElems parseValue (byte ')') (skipWS s).tail <;> rfl
      · rfl

theorem parseBraces_map (s : Bytes) : parseBraces f s =
    (parseBraces parseValue s).map
      (Prod.map (Sum.map (List.map (Prod.map g g)) (List.map g)) id) := by
  have hkeyed : keyed f (skipWS s) = keyed parseValue (skipWS s) := by
    simp only [keyed, hf]
    cases parseValue (skipWS s) <;> rfl
  rw [parseBraces_eq, parseBraces_eq, hkeyed, parseItems_map g hf,
    parseItems_map (Prod.map g g) (parsePair_map g hf)]
  split_ifs
  · rfl
  · simp [Function.comp_def]
  · simp [Function.comp_def]

end Map

end Loops

end PyParser

/-- The canonical form of a text that is exactly one Python literal. A literal nests less deep
than it is long. -/
def canonicalPyLiteral (s : Bytes) : Option Bytes := do
  let s := Bytes.trimSpace s
  let (v, rest) ← PyParser.parseValue (s.length + 1) s
  if PyParser.skipWS rest = [] then some v else none

end HubScope
