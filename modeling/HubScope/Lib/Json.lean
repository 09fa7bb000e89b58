import HubScope.Lib.Bytes
import Mathlib.Algebra.Order.Floor.Ring
import Mathlib.Data.Int.Log
import Mathlib.Data.Nat.Digits.Defs
import Mathlib.Data.Rat.Floor

/-!
# JSON texts

A parser of JSON as the standard library of Go reads it: the grammar is strict, containers nest
ten thousand levels at most, strings are unescaped with lone surrogates replaced, and numbers
keep the decimal they write until they are rounded to a double.

## Main definitions

* `Json` — JSON values
* `Json.string`, `Json.number`, `Json.value`, `Json.parse` — the parser
* `Json.Number.toDouble` — the nearest double

## Main results

* `Json.parse_brace` — a text that begins with a brace is read as an object or not at all
-/

set_option autoImplicit false

/-- A number as JSON writes it: its digits as one number, and the power of ten it is times. -/
structure Json.Number where
  negative : Bool
  digits : ℕ
  exponent : ℤ
  deriving DecidableEq

/-- A JSON value. The members of an object keep their order and their repetitions. -/
inductive Json
  | null
  | bool (b : Bool)
  | number (n : Json.Number)
  | string (s : List Char)
  | array (elements : List Json)
  | object (members : List (List Char × Json))

namespace Json

/-! ### Strings -/

/-- The UTF-16 unit four hexadecimal digits stand for. -/
def hexUnit (a b c d : Char) : Option ℕ := do
  some (Nat.ofDigits 16 [← Bytes.hexVal d.toNat, ← Bytes.hexVal c.toNat, ← Bytes.hexVal b.toNat,
    ← Bytes.hexVal a.toNat])

/-- The character a backslash and a letter stand for. -/
def escape : Char → Option Char
  | '"' => some '"'
  | '\\' => some '\\'
  | '/' => some '/'
  | 'b' => some '\x08'
  | 'f' => some '\x0c'
  | 'n' => some '\n'
  | 'r' => some '\r'
  | 't' => some '\t'
  | _ => none

/-- The characters and UTF-16 units up to the closing quote, and what follows it. -/
def stringItems : List Char → Option (List (Char ⊕ ℕ) × List Char)
  | [] => none
  | '"' :: s => some ([], s)
  | '\\' :: 'u' :: a :: b :: c :: d :: s => do
    let unit ← hexUnit a b c d
    let (items, s) ← stringItems s
    some (.inr unit :: items, s)
  | '\\' :: e :: s => do
    let c ← escape e
    let (items, s) ← stringItems s
    some (.inl c :: items, s)
  | c :: s =>
    -- control characters have to be escaped
    if c < ' ' then none
    else do
      let (items, s) ← stringItems s
      some (.inl c :: items, s)

/-- The character of a unit, where a surrogate without its pair has none. -/
def charOfUnit (u : ℕ) : Char := if 0xD800 ≤ u ∧ u < 0xE000 then '\ufffd' else Char.ofNat u

/-- The text of characters and units: two surrogates that pair up are one character. -/
def joinUnits : List (Char ⊕ ℕ) → List Char
  | [] => []
  | .inl c :: items => c :: joinUnits items
  | [.inr u] => [charOfUnit u]
  | .inr u :: .inl c :: items => charOfUnit u :: c :: joinUnits items
  | .inr hi :: .inr lo :: items =>
    if 0xD800 ≤ hi ∧ hi < 0xDC00 ∧ 0xDC00 ≤ lo ∧ lo < 0xE000 then
      Char.ofNat (0x10000 + (hi - 0xD800) * 0x400 + (lo - 0xDC00)) :: joinUnits items
    else charOfUnit hi :: joinUnits (.inr lo :: items)

/-- A string after its opening quote. -/
def readString (s : List Char) : Option (List Char × List Char) :=
  (stringItems s).map fun (items, s) => (joinUnits items, s)

/-! ### Numbers -/

/-- The value of a text of digits. -/
def digitsValue (ds : List Char) : ℕ :=
  Nat.ofDigits 10 (ds.map fun c => c.toNat - '0'.toNat).reverse

/-- One digit or more. -/
def digits (s : List Char) : Option (List Char × List Char) :=
  let ds := s.takeWhile Char.isDigit
  if ds = [] then none else some (ds, s.dropWhile Char.isDigit)

/-- The digits before the point: no zero stands before another digit. -/
def wholeDigits : List Char → Option (List Char × List Char)
  | '0' :: s => some (['0'], s)
  | s => digits s

def fractionDigits : List Char → Option (List Char × List Char)
  | '.' :: s => digits s
  | s => some ([], s)

/-- The power of ten after the letter e. -/
def exponentPart : List Char → Option (ℤ × List Char)
  | e :: s =>
    if e = 'e' ∨ e = 'E' then
      match s with
      | '-' :: s => (digits s).map fun (ds, s) => (-(digitsValue ds : ℤ), s)
      | '+' :: s => (digits s).map fun (ds, s) => ((digitsValue ds : ℤ), s)
      | s => (digits s).map fun (ds, s) => ((digitsValue ds : ℤ), s)
    else some (0, e :: s)
  | [] => some (0, [])

def unsignedNumber (negative : Bool) (s : List Char) : Option (Number × List Char) := do
  let (w, s) ← wholeDigits s
  let (f, s) ← fractionDigits s
  let (e, s) ← exponentPart s
  some (⟨negative, digitsValue (w ++ f), e - f.length⟩, s)

def readNumber : List Char → Option (Number × List Char)
  | '-' :: s => unsignedNumber true s
  | s => unsignedNumber false s

def Number.value (n : Number) : ℚ :=
  let size := (n.digits : ℚ) * 10 ^ n.exponent
  if n.negative then -size else size

/-- To the nearest integer, and from the middle to the even one. -/
def roundEven (q : ℚ) : ℤ :=
  let rest := q - ⌊q⌋
  if rest < 1 / 2 ∨ rest = 1 / 2 ∧ ⌊q⌋ % 2 = 0 then ⌊q⌋ else ⌊q⌋ + 1

/-- The nearest double, if the number is not too large: 53 binary digits, fewer below the
smallest normal number. -/
def toDouble (q : ℚ) : Option ℚ :=
  let ulp : ℚ := 2 ^ max (Int.log 2 |q| - 52) (-1074)
  let rounded := roundEven (q / ulp) * ulp
  if |rounded| < 2 ^ 1024 then some rounded else none

/-! ### Values -/

def isBlank (c : Char) : Bool := c ∈ [' ', '\t', '\r', '\n']

def skipBlank (s : List Char) : List Char := s.dropWhile isBlank

def scalar : List Char → Option (Json × List Char)
  | 'n' :: 'u' :: 'l' :: 'l' :: s => some (null, s)
  | 't' :: 'r' :: 'u' :: 'e' :: s => some (bool true, s)
  | 'f' :: 'a' :: 'l' :: 's' :: 'e' :: s => some (bool false, s)
  | '"' :: s => (readString s).map fun (text, s) => (string text, s)
  | s => (readNumber s).map fun (n, s) => (number n, s)

section Containers

variable {β : Type} (item : List Char → Option (β × List Char)) (close : Char)

/-- One item or more with commas between, up to the closing bracket. -/
def items : ℕ → List Char → Option (List β × List Char)
  | 0, _ => none
  | fuel + 1, s => do
    let (x, s) ← item (skipBlank s)
    match skipBlank s with
    | [] => none
    | c :: s =>
      if c = ',' then
        let (xs, s) ← items fuel s
        some (x :: xs, s)
      else if c = close then some ([x], s)
      else none

/-- The items of a container after its opening bracket. -/
def container (s : List Char) : Option (List β × List Char) :=
  match skipBlank s with
  | [] => none
  | c :: rest => if c = close then some ([], rest) else items item close s.length s

end Containers

/-- A key, a colon and a value. -/
def member (value : List Char → Option (Json × List Char)) :
    List Char → Option ((List Char × Json) × List Char)
  | '"' :: s => do
    let (key, s) ← readString s
    match skipBlank s with
    | ':' :: s =>
      let (v, s) ← value (skipBlank s)
      some ((key, v), s)
    | _ => none
  | _ => none

/-- A value of at most so many levels of containers. -/
def value : ℕ → List Char → Option (Json × List Char)
  | 0, s => scalar s
  | depth + 1, '[' :: s =>
    (container (value depth) ']' s).map fun (elements, s) => (array elements, s)
  | depth + 1, '{' :: s =>
    (container (member (value depth)) '}' s).map fun (members, s) => (object members, s)
  | _ + 1, s => scalar s

/-- How deep the containers of a text may nest. -/
def maxDepth : ℕ := 10000

/-- The value a text writes, with nothing but white space around it. -/
def parse (s : List Char) : Option Json :=
  match value maxDepth (skipBlank s) with
  | some (v, s) => if skipBlank s = [] then some v else none
  | none => none

/-- **A text that begins with a brace is read as an object or not at all.** -/
theorem parse_brace {s : List Char} {v : Json} (h : parse ('{' :: s) = some v) :
    ∃ members, v = object members := by
  have hskip : skipBlank ('{' :: s) = '{' :: s := List.dropWhile_cons_of_neg (by decide)
  rw [parse, hskip] at h
  split at h
  · rename_i w rest hvalue
    split_ifs at h
    obtain ⟨⟨members, t⟩, -, hobject⟩ := Option.map_eq_some_iff.mp hvalue
    rw [← Option.some.inj h, ← (Prod.mk.inj hobject).1]
    exact ⟨members, rfl⟩
  · cases h

end Json
