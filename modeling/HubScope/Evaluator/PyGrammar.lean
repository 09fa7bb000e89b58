import HubScope.Evaluator.PyTokens

/-!
# The grammar of Python literals

A literal is what a text writes down, with white space, quotes, parentheses around single values
and trailing commas forgotten. A grammar says which texts write it. The reader below returns the
literal that a text begins with; it finds every literal that is written, and nothing else, so
that a text writes one literal at most. The parser of the program returns the canonical form of
what the reader returns.

## Main definitions

* `PyLiteral`, `PyLiteral.canon` — literals and their canonical forms
* `Spells`, `PyText` — the texts that write a literal
* `readValue`, `readLiteral` — the reader

## Main results

* `parseValue_eq`, `canonicalPyLiteral_eq` — the parser returns the canonical form of what is read
* `Spells.readsBack`, `eq_of_readValue` — the reader finds what is written, and only that
* `readLiteral_eq_some_iff` — a text that is one literal
-/

set_option autoImplicit false

namespace HubScope

-- A byte has 256 values, and `decide` goes through all of them.
set_option maxRecDepth 2000

open Bytes PyParser

/-- Python literals. The entries of dictionaries and sets keep their order and repetitions. -/
inductive PyLiteral
  | string (isBytes : Bool) (items : List PyItem)
  | number (token : Bytes)
  | keyword (word : PyKeyword)
  | list (elems : List PyLiteral)
  | tuple (elems : List PyLiteral)
  | dict (entries : List (PyLiteral × PyLiteral))
  | set (elems : List PyLiteral)

namespace PyLiteral

/-- What holds of a literal if it holds of its parts holds of all literals. -/
@[elab_as_elim, induction_eliminator]
theorem induct {P : PyLiteral → Prop} (string : ∀ isBytes items, P (.string isBytes items))
    (number : ∀ token, P (.number token)) (keyword : ∀ word, P (.keyword word))
    (list : ∀ elems, (∀ v ∈ elems, P v) → P (.list elems))
    (tuple : ∀ elems, (∀ v ∈ elems, P v) → P (.tuple elems))
    (dict : ∀ entries, (∀ e ∈ entries, P e.1 ∧ P e.2) → P (.dict entries))
    (set : ∀ elems, (∀ v ∈ elems, P v) → P (.set elems)) (v : PyLiteral) : P v :=
  @PyLiteral.rec P (fun vs => ∀ v ∈ vs, P v) (fun es => ∀ e ∈ es, P e.1 ∧ P e.2)
    (fun e => P e.1 ∧ P e.2)
    string number keyword list tuple dict set (List.forall_mem_nil _)
    (fun _ _ h hs => List.forall_mem_cons.mpr ⟨h, hs⟩) (List.forall_mem_nil _)
    (fun _ _ h hs => List.forall_mem_cons.mpr ⟨h, hs⟩) (fun _ _ h h' => ⟨h, h'⟩) v

mutual

/-- The canonical form of a literal. -/
def canon : PyLiteral → Bytes
  | string isBytes items => quoted isBytes (content items)
  | number token => token
  | keyword word => word.text
  | list elems => listForm (canonAll elems)
  | tuple elems => tupleForm (canonAll elems)
  | dict entries => dictForm (canonPairs entries)
  | set elems => setForm (canonAll elems)

def canonAll : List PyLiteral → List Bytes
  | [] => []
  | v :: vs => canon v :: canonAll vs

def canonPairs : List (PyLiteral × PyLiteral) → List (Bytes × Bytes)
  | [] => []
  | (k, v) :: es => (canon k, canon v) :: canonPairs es

end

@[simp] theorem canonAll_eq (vs : List PyLiteral) : canonAll vs = vs.map canon := by
  induction vs with
  | nil => rw [canonAll, List.map_nil]
  | cons v vs ih => rw [canonAll, ih, List.map_cons]

@[simp] theorem canonPairs_eq (es : List (PyLiteral × PyLiteral)) :
    canonPairs es = es.map (Prod.map canon canon) := by
  induction es with
  | nil => rw [canonPairs, List.map_nil]
  | cons e es ih => rw [canonPairs, ih, List.map_cons]; rfl

end PyLiteral

/-! ### The reader -/

def readString : Bytes → Option (PyLiteral × Bytes)
  | [] => none
  | c :: s =>
    if c = byte 'b' ∨ c = byte 'B' then
      match s with
      | [] => none
      | q :: s => (readBody q s).map fun (items, s) => (.string true items, s)
    else (readBody c s).map fun (items, s) => (.string false items, s)

/-- The literal that begins with the byte `c`, where inner ones are read by `read`. -/
def readFrom (read : Bytes → Option (PyLiteral × Bytes)) (c : Byte) (s : Bytes) :
    Option (PyLiteral × Bytes) :=
  if startsString c s then readString (c :: s)
  else if c = byte '[' then
    (parseElems read (byte ']') s).map fun (elems, s) => (.list elems, s)
  else if c = byte '(' then
    (parseParens read s).map fun (inside, s) => (inside.elim id .tuple, s)
  else if c = byte '{' then
    (parseBraces read s).map fun (inside, s) => (inside.elim .dict .set, s)
  else if startsNumber c then
    (parseNumber (c :: s)).map fun (token, s) => (.number token, s)
  else if isLetter c then
    (readKeyword (c :: s)).map fun (word, s) => (.keyword word, s)
  else none

/-- The literal a text begins with, and what follows it. -/
def readValue : ℕ → Bytes → Option (PyLiteral × Bytes)
  | 0, _ => none
  | depth + 1, s =>
    match skipWS s with
    | [] => none
    | c :: s => readFrom (readValue depth) c s

theorem parseString_eq (s : Bytes) :
    parseString s = (readString s).map (Prod.map PyLiteral.canon id) := by
  cases s with
  | nil => rfl
  | cons c s =>
    rw [parseString.eq_def, readString.eq_def]
    simp only
    split_ifs
    · cases s with
      | nil => rfl
      | cons q s =>
        simp only [stringBody_eq]
        cases readBody q s <;> simp [PyLiteral.canon]
    · simp only [stringBody_eq]
      cases readBody c s <;> simp [PyLiteral.canon]

/-- The parser returns the canonical form of what is read. -/
theorem parseValue_eq (depth : ℕ) (s : Bytes) :
    parseValue depth s = (readValue depth s).map (Prod.map PyLiteral.canon id) := by
  induction depth generalizing s with
  | zero => rfl
  | succ depth ih =>
    rw [parseValue, readValue]
    cases skipWS s with
    | nil => rfl
    | cons c s =>
      simp only [readFrom]
      -- one reader for each first byte, in the order of the parser
      split_ifs
      · exact parseString_eq (c :: s)
      · rw [parseList, parseElems_map PyLiteral.canon ih]
        simp [Function.comp_def, PyLiteral.canon]
      · rw [parseTuple, parseParens_map PyLiteral.canon ih, Option.map_map, Option.map_map]
        congr 1
        funext ⟨inside, s⟩
        cases inside <;> simp [PyLiteral.canon]
      · rw [parseDictOrSet, parseBraces_map PyLiteral.canon ih, Option.map_map, Option.map_map]
        congr 1
        funext ⟨inside, s⟩
        cases inside <;> simp [PyLiteral.canon]
      · cases parseNumber (c :: s) <;> simp [PyLiteral.canon]
      · rw [parseKeyword_eq]
        cases readKeyword (c :: s) with
        | none => rfl
        | some r => simp [PyLiteral.canon, Prod.map]
      · rfl

/-! ### The grammar -/

/-- What a text may write: a value, the elements up to a closing byte, or the entries of a
dictionary. -/
inductive PyForm
  | value (v : PyLiteral)
  | elems (vs : List PyLiteral)
  | entries (es : List (PyLiteral × PyLiteral))

/-- The texts that write a literal, without white space around it. White space may stand around
every token, a comma after the last element, parentheses around a single value. -/
inductive Spells : PyForm → Bytes → Prop
  | string {q : Byte} {items : List PyItem} {t : Bytes} (hq : isQuote q = true)
      (h : SpellsItems q items t) : Spells (.value (.string false items)) (q :: t ++ [q])
  | bytes {b q : Byte} {items : List PyItem} {t : Bytes} (hb : b = byte 'b' ∨ b = byte 'B')
      (hq : isQuote q = true) (h : SpellsItems q items t) :
      Spells (.value (.string true items)) (b :: q :: t ++ [q])
  | number {t : Bytes} (h : IsNumber t) : Spells (.value (.number (trimPlus t))) t
  | keyword {k : PyKeyword} {t : Bytes} (h : SpellsKeyword k t) : Spells (.value (.keyword k)) t
  | list {vs : List PyLiteral} {t : Bytes} (h : Spells (.elems vs) t) :
      Spells (.value (.list vs)) (byte '[' :: t ++ [byte ']'])
  | unit {w : Bytes} (hw : Spacing w) : Spells (.value (.tuple [])) (byte '(' :: w ++ [byte ')'])
  | group {v : PyLiteral} {w t w' : Bytes} (hw : Spacing w) (hw' : Spacing w')
      (h : Spells (.value v) t) : Spells (.value v) (byte '(' :: (w ++ t ++ w') ++ [byte ')'])
  | tuple {v : PyLiteral} {vs : List PyLiteral} {w t w' u : Bytes} (hw : Spacing w)
      (hw' : Spacing w') (h : Spells (.value v) t) (hs : Spells (.elems vs) u) :
      Spells (.value (.tuple (v :: vs))) (byte '(' :: (w ++ t ++ w' ++ byte ',' :: u) ++ [byte ')'])
  | dict {es : List (PyLiteral × PyLiteral)} {t : Bytes} (h : Spells (.entries es) t) :
      Spells (.value (.dict es)) (byte '{' :: t ++ [byte '}'])
  | set {vs : List PyLiteral} {t : Bytes} (hne : vs ≠ []) (h : Spells (.elems vs) t) :
      Spells (.value (.set vs)) (byte '{' :: t ++ [byte '}'])
  | noElem {w : Bytes} (hw : Spacing w) : Spells (.elems []) w
  | lastElem {v : PyLiteral} {w t w' : Bytes} (hw : Spacing w) (hw' : Spacing w')
      (h : Spells (.value v) t) : Spells (.elems [v]) (w ++ t ++ w')
  | elem {v : PyLiteral} {vs : List PyLiteral} {w t w' u : Bytes} (hw : Spacing w)
      (hw' : Spacing w') (h : Spells (.value v) t) (hs : Spells (.elems vs) u) :
      Spells (.elems (v :: vs)) (w ++ t ++ w' ++ byte ',' :: u)
  | noEntry {w : Bytes} (hw : Spacing w) : Spells (.entries []) w
  | lastEntry {k v : PyLiteral} {w t w' x u x' : Bytes} (hw : Spacing w) (hw' : Spacing w')
      (hx : Spacing x) (hx' : Spacing x') (hk : Spells (.value k) t) (hv : Spells (.value v) u) :
      Spells (.entries [(k, v)]) (w ++ t ++ w' ++ byte ':' :: (x ++ u) ++ x')
  | entry {k v : PyLiteral} {es : List (PyLiteral × PyLiteral)} {w t w' x u x' z : Bytes}
      (hw : Spacing w) (hw' : Spacing w') (hx : Spacing x) (hx' : Spacing x')
      (hk : Spells (.value k) t) (hv : Spells (.value v) u) (hs : Spells (.entries es) z) :
      Spells (.entries ((k, v) :: es))
        (w ++ t ++ w' ++ byte ':' :: (x ++ u) ++ x' ++ byte ',' :: z)

/-- The texts that are one literal, with white space around it. -/
def PyText (v : PyLiteral) (s : Bytes) : Prop :=
  ∃ w t w', Blank w ∧ Blank w' ∧ Spells (.value v) t ∧ s = w ++ t ++ w'

/-! ### How a written literal begins and ends -/

/-- A byte a literal can begin with. -/
def startsValue (c : Byte) : Bool :=
  isQuote c || c ∈ ascii ['[', '(', '{'] || startsNumber c || isLetter c

/-- A byte that is neither white space nor part of a longer character. -/
def visible (c : Byte) : Bool := !isWS c && c < 128

theorem startsValue_spec : ∀ c, startsValue c = true →
    isWS c = false ∧ visible c = true ∧ c ∉ ascii [')', ']', '}', ',', ':'] := by
  decide

theorem visible_of_isDigit : ∀ c, isDigit c = true → visible c = true := by decide

theorem visible_of_isLetter : ∀ c, isLetter c = true → visible c = true := by decide

theorem visible_of_isQuote : ∀ c, isQuote c = true → visible c = true := by decide

theorem not_visible_of_spaces : ∀ x ∈ spaces,
    x.head?.any visible = false ∧ x.getLast?.any visible = false := by
  decide

theorem visible_of_isNumber {t : Bytes} (h : IsNumber t) : ∀ c ∈ t, visible c = true := by
  have hmem : ∀ c ∈ ascii ['+', '-', '.', 'e', 'E'], visible c = true := by decide
  intro c hc
  rcases h.bytes c hc with hc | hc
  · exact visible_of_isDigit c hc
  · exact hmem c hc

theorem visible_getLast {c : Byte} (hc : visible c = true) (t : Bytes) :
    ∀ d ∈ (t ++ [c]).getLast?, visible d = true := by
  intro d hd
  obtain rfl : c = d := by simpa using hd
  exact hc

/-- What is enclosed by two bytes begins with the one and ends with the other. -/
theorem bounds_enclosed {c d : Byte} (hc : startsValue c = true) (hd : visible d = true)
    (t : Bytes) : c :: t ++ [d] ≠ [] ∧ (∀ x ∈ (c :: t ++ [d]).head?, startsValue x = true) ∧
      ∀ x ∈ (c :: t ++ [d]).getLast?, visible x = true := by
  refine ⟨by simp, fun x hx => ?_, visible_getLast hd _⟩
  obtain rfl : c = x := by simpa using hx
  exact hc

/-- A written literal begins with a byte that tells what it is, and ends with a visible one. -/
theorem Spells.bounds {v : PyLiteral} {t : Bytes} (h : Spells (.value v) t) :
    t ≠ [] ∧ (∀ c ∈ t.head?, startsValue c = true) ∧ ∀ c ∈ t.getLast?, visible c = true := by
  have hquotes : ∀ q, isQuote q = true → startsValue q = true := by decide
  have hletters : ∀ c, isLetter c = true → startsValue c = true := by decide
  have hnumbers : ∀ c, startsNumber c = true → startsValue c = true := by decide
  have hround : visible (byte ')') = true := by decide
  have hcurly : visible (byte '}') = true := by decide
  cases h with
  | @string q items t hq h => exact bounds_enclosed (hquotes q hq) (visible_of_isQuote q hq) t
  | @bytes b q items t hb hq h =>
    have hstart : startsValue b = true := by rcases hb with rfl | rfl <;> decide
    exact bounds_enclosed hstart (visible_of_isQuote q hq) (q :: t)
  | number h =>
    exact ⟨h.starts.1, fun c hc => hnumbers c (h.starts.2 c hc),
      fun c hc => visible_of_isNumber h c (List.mem_of_getLast? hc)⟩
  | keyword h =>
    exact ⟨h.starts.1, fun c hc => hletters c (h.1 c (List.mem_of_head? hc)),
      fun c hc => visible_of_isLetter c (h.1 c (List.mem_of_getLast? hc))⟩
  | list h => exact bounds_enclosed (by decide) (by decide) _
  | unit hw => exact bounds_enclosed (by decide) hround _
  | group hw hw' h => exact bounds_enclosed (by decide) hround _
  | tuple hw hw' h hs => exact bounds_enclosed (by decide) hround _
  | dict h => exact bounds_enclosed (by decide) hcurly _
  | set hne h => exact bounds_enclosed (by decide) hcurly _

theorem Spells.starts {v : PyLiteral} {t rest s : Bytes} {c : Byte} (h : Spells (.value v) t)
    (hcs : t ++ rest = c :: s) : startsValue c = true := by
  obtain ⟨hne, hhead, -⟩ := h.bounds
  obtain ⟨d, t, rfl⟩ := List.exists_cons_of_ne_nil hne
  obtain ⟨rfl, -⟩ := List.cons.inj hcs
  exact hhead d rfl

/-- Trimming takes nothing off a written literal. -/
theorem Spells.solid {v : PyLiteral} {t : Bytes} (h : Spells (.value v) t) : Solid t := by
  obtain ⟨hne, hhead, hlast⟩ := h.bounds
  refine ⟨hne, fun c hc x hx heq => ?_, fun c hc x hx heq => ?_⟩
  · have hvisible := (startsValue_spec c (hhead c hc)).2.1
    have hspace := (not_visible_of_spaces x hx).1
    rw [heq, Option.any_some, hvisible] at hspace
    cases hspace
  · have hvisible := hlast c hc
    have hspace := (not_visible_of_spaces x hx).2
    rw [heq, Option.any_some, hvisible] at hspace
    cases hspace

/-! ### What is written is read -/

/-- A text that does not go on with the token before it. -/
def Ends (rest : Bytes) : Prop :=
  ∀ c ∈ rest.head?, isWS c = true ∨ c ∈ ascii [',', ':', ')', ']', '}']

theorem Ends.nil : Ends [] := fun _ hc => by cases hc

theorem Ends.cons {c : Byte} (hc : c ∈ ascii [',', ':', ')', ']', '}']) (s : Bytes) :
    Ends (c :: s) := by
  intro d hd
  obtain rfl : c = d := by simpa using hd
  exact .inr hc

theorem Ends.append {w rest : Bytes} (hw : Spacing w) (h : Ends rest) : Ends (w ++ rest) := by
  cases w with
  | nil => exact h
  | cons c w =>
    intro d hd
    obtain rfl : c = d := by simpa using hd
    exact .inl (hw c List.mem_cons_self)

theorem Ends.spec {rest : Bytes} (h : Ends rest) :
    ∀ c ∈ rest.head?, continuesNumber c = false ∧ isLetter c = false := by
  have hws : ∀ c, isWS c = true → continuesNumber c = false ∧ isLetter c = false := by
    decide
  have hmem : ∀ c ∈ ascii [',', ':', ')', ']', '}'],
      continuesNumber c = false ∧ isLetter c = false := by
    decide
  intro c hc
  rcases h c hc with hc | hc
  · exact hws c hc
  · exact hmem c hc

theorem readValue_succ (depth : ℕ) {w s : Bytes} {c : Byte} (hw : Spacing w)
    (hc : isWS c = false) :
    readValue (depth + 1) (w ++ c :: s) = readFrom (readValue depth) c s := by
  simp only [readValue, skipWS_append hw, skipWS_cons_of_not hc]

section ReadFrom

variable (read : Bytes → Option (PyLiteral × Bytes)) {rest : Bytes}

theorem slash_ne_quote : ∀ q, isQuote q = true → byte '\\' ≠ q := by decide

theorem readFrom_string {q : Byte} (hq : isQuote q = true) {items : List PyItem} {t : Bytes}
    (h : SpellsItems q items t) :
    readFrom read q (t ++ q :: rest) = some (.string false items, rest) := by
  have hstarts : startsString q (t ++ q :: rest) = true := by rw [startsString, hq, Bool.true_or]
  have hb : ∀ q, isQuote q = true → ¬ (q = byte 'b' ∨ q = byte 'B') := by decide
  rw [readFrom, if_pos hstarts, readString.eq_def]
  simp only [if_neg (hb q hq), readBody_append (slash_ne_quote q hq) h, Option.map_some]

theorem readFrom_bytes {b q : Byte} (hb : b = byte 'b' ∨ b = byte 'B') (hq : isQuote q = true)
    {items : List PyItem} {t : Bytes} (h : SpellsItems q items t) :
    readFrom read b (q :: (t ++ q :: rest)) = some (.string true items, rest) := by
  have hstarts : startsString b (q :: (t ++ q :: rest)) = true := by
    rw [startsString, List.head?_cons, Option.any_some, hq, Bool.and_true, Bool.or_eq_true,
      decide_eq_true_eq]
    rcases hb with rfl | rfl <;> decide
  rw [readFrom, if_pos hstarts, readString.eq_def]
  simp only [if_pos hb, readBody_append (slash_ne_quote q hq) h, Option.map_some]

theorem readFrom_number {t : Bytes} (h : IsNumber t) (hrest : Ends rest) {c : Byte} {s : Bytes}
    (hcs : t ++ rest = c :: s) :
    readFrom read c s = some (.number (trimPlus t), rest) := by
  have hnumber : ∀ c, startsNumber c = true → isQuote c = false ∧ c ∉ ascii ['b', 'B'] ∧
      c ≠ byte '[' ∧ c ≠ byte '(' ∧ c ≠ byte '{' := by decide
  have hc : startsNumber c = true := by
    obtain ⟨d, t', rfl⟩ := List.exists_cons_of_ne_nil h.starts.1
    obtain ⟨rfl, -⟩ := List.cons.inj hcs
    exact h.starts.2 d rfl
  obtain ⟨hquote, hb, hlist, htuple, hdict⟩ := hnumber c hc
  have hstarts : ¬ startsString c s = true := by simp [startsString, hquote, hb]
  rw [readFrom, if_neg hstarts, if_neg hlist, if_neg htuple, if_neg hdict, if_pos hc, ← hcs,
    parseNumber_append h fun c hc => (hrest.spec c hc).1]
  rfl

theorem readFrom_keyword {k : PyKeyword} {t : Bytes} (h : SpellsKeyword k t) (hrest : Ends rest)
    {c : Byte} {s : Bytes} (hcs : t ++ rest = c :: s) :
    readFrom read c s = some (.keyword k, rest) := by
  have hletter : ∀ c, isLetter c = true → isQuote c = false ∧ startsNumber c = false ∧
      c ≠ byte '[' ∧ c ≠ byte '(' ∧ c ≠ byte '{' := by decide
  obtain ⟨d, t', rfl⟩ := List.exists_cons_of_ne_nil h.starts.1
  obtain ⟨rfl, -⟩ := List.cons.inj hcs
  have hd := h.1 d List.mem_cons_self
  obtain ⟨hquote, hnumber, hlist, htuple, hdict⟩ := hletter d hd
  have hstarts : ¬ startsString d s = true := by simp [startsString, hquote, h.head_ne]
  rw [readFrom, if_neg hstarts, if_neg hlist, if_neg htuple, if_neg hdict,
    if_neg (by simp [hnumber]), if_pos hd, ← hcs,
    readKeyword_append h fun c hc => (hrest.spec c hc).2]
  rfl

theorem readFrom_list (s : Bytes) : readFrom read (byte '[') s =
    (parseElems read (byte ']') s).map fun (elems, s) => (.list elems, s) := rfl

theorem readFrom_tuple (s : Bytes) : readFrom read (byte '(') s =
    (parseParens read s).map fun (inside, s) => (inside.elim id .tuple, s) := rfl

theorem readFrom_braces (s : Bytes) : readFrom read (byte '{') s =
    (parseBraces read s).map fun (inside, s) => (inside.elim .dict .set, s) := rfl

end ReadFrom

/-- The reader finds what the text writes, wherever it stands. -/
def ReadsBack : PyForm → Bytes → Prop
  | .value v, t => ∀ w rest n, Spacing w → Ends rest → (w ++ (t ++ rest)).length < n →
      readValue n (w ++ (t ++ rest)) = some (v, rest)
  | .elems vs, t => ∀ close rest fuel n, close ∈ ascii [')', ']', '}'] →
      (t ++ close :: rest).length < n → (t ++ close :: rest).length ≤ fuel →
      parseMore (readValue n) close fuel (t ++ close :: rest) = some (vs, rest)
  | .entries es, t => ∀ rest fuel n, (t ++ byte '}' :: rest).length < n →
      (t ++ byte '}' :: rest).length ≤ fuel →
      parseMore (parsePair (readValue n)) (byte '}') fuel (t ++ byte '}' :: rest) = some (es, rest)

theorem Spells.skipWS {v : PyLiteral} {w t : Bytes} (h : Spells (.value v) t) (hw : Spacing w)
    (s : Bytes) : PyParser.skipWS (w ++ (t ++ s)) = t ++ s := by
  obtain ⟨hne, hhead, -⟩ := h.bounds
  obtain ⟨c, t, rfl⟩ := List.exists_cons_of_ne_nil hne
  rw [skipWS_append hw]
  exact skipWS_cons_of_not (startsValue_spec c (hhead c rfl)).1 (t ++ s)

theorem Spells.head_ne {v : PyLiteral} {t : Bytes} (h : Spells (.value v) t) (s : Bytes)
    {c : Byte} (hc : c ∈ ascii [')', ']', '}', ',', ':']) : (t ++ s).head? ≠ some c := by
  obtain ⟨hne, hhead, -⟩ := h.bounds
  obtain ⟨d, t, rfl⟩ := List.exists_cons_of_ne_nil hne
  intro heq
  obtain rfl : d = c := Option.some.inj heq
  exact (startsValue_spec d (hhead d rfl)).2.2 hc

theorem close_spec : ∀ c ∈ ascii [')', ']', '}'], isWS c = false ∧ c ≠ byte ',' ∧
    c ∈ ascii [',', ':', ')', ']', '}'] ∧ c ∈ ascii [')', ']', '}', ',', ':'] := by
  decide

/-- Where a value is written, the loop is entered. -/
theorem parseMore_value {β : Type} {parseItem : Bytes → Option (β × Bytes)} {v : PyLiteral}
    {w t s : Bytes} {close : Byte} {fuel : ℕ} (h : Spells (.value v) t) (hw : Spacing w)
    (hclose : close ∈ ascii [')', ']', '}']) :
    parseMore parseItem close fuel (w ++ (t ++ s)) = parseItems parseItem close fuel (t ++ s) := by
  rw [parseMore, h.skipWS hw, if_neg (h.head_ne s (close_spec close hclose).2.2.2)]

/-- A pair that is written is read. -/
theorem parsePair_append {k v : PyLiteral} {t w' x u rest : Bytes} {n : ℕ} (hw' : Spacing w')
    (hx : Spacing x) (hk : ReadsBack (.value k) t) (hv : ReadsBack (.value v) u)
    (hrest : Ends rest) (hn : (t ++ (w' ++ byte ':' :: (x ++ (u ++ rest)))).length < n) :
    parsePair (readValue n) (t ++ (w' ++ byte ':' :: (x ++ (u ++ rest)))) =
      some ((k, v), rest) := by
  have hcolon : isWS (byte ':') = false := by decide
  have hkey := hk [] (w' ++ byte ':' :: (x ++ (u ++ rest))) n Spacing.nil
    (Ends.append hw' (Ends.cons (by decide) _)) hn
  have hvalue := hv x rest n hx hrest (by
    simp only [List.length_append, List.length_cons] at hn ⊢
    omega)
  rw [List.nil_append] at hkey
  simp only [parsePair, hkey, Option.bind_eq_bind, Option.bind_some, skipWS_append hw',
    skipWS_cons_of_not hcolon, List.head?_cons, if_true, List.tail_cons, hvalue]

/-- A value between two bytes is read if the reader of its first byte reads the rest. -/
theorem readsBack_enclosed {v : PyLiteral} {c close : Byte} {t : Bytes} (hc : isWS c = false)
    (h : ∀ d rest, (t ++ close :: rest).length < d →
      readFrom (readValue d) c (t ++ close :: rest) = some (v, rest)) :
    ReadsBack (.value v) (c :: t ++ [close]) := by
  intro w rest n hw hrest hn
  obtain ⟨d, rfl⟩ := Nat.exists_eq_add_one_of_ne_zero (Nat.ne_zero_of_lt hn)
  have htext : w ++ (c :: t ++ [close] ++ rest) = w ++ c :: (t ++ close :: rest) := by
    simp only [List.cons_append, List.append_assoc, List.nil_append]
  rw [htext] at hn ⊢
  rw [List.length_append, List.length_cons] at hn
  rw [readValue_succ d hw hc, h d rest (by omega)]

/-- A value without a closing byte ends where what follows cannot go on with it. -/
theorem readsBack_open {v : PyLiteral} {t : Bytes} (hne : t ≠ [])
    (hhead : ∀ {c s rest}, t ++ rest = c :: s → isWS c = false)
    (h : ∀ {read : Bytes → Option (PyLiteral × Bytes)} {rest c s}, Ends rest →
      t ++ rest = c :: s → readFrom read c s = some (v, rest)) : ReadsBack (.value v) t := by
  intro w rest n hw hrest hn
  obtain ⟨d, rfl⟩ := Nat.exists_eq_add_one_of_ne_zero (Nat.ne_zero_of_lt hn)
  obtain ⟨c, s, hcs⟩ := List.exists_cons_of_ne_nil (List.append_ne_nil_of_left_ne_nil hne rest)
  rw [hcs, readValue_succ d hw (hhead hcs), h hrest hcs]

section Compound

variable {k v : PyLiteral} {vs : List PyLiteral} {es : List (PyLiteral × PyLiteral)}
  {w t w' x u x' z : Bytes}

/-- A value in parentheses without a comma is the value itself. -/
theorem readsBack_group (hw : Spacing w) (hw' : Spacing w') (h : Spells (.value v) t)
    (ih : ReadsBack (.value v) t) :
    ReadsBack (.value v) (byte '(' :: (w ++ t ++ w') ++ [byte ')']) := by
  have hclose : isWS (byte ')') = false := by decide
  refine readsBack_enclosed (by decide) fun d rest hlen => ?_
  rw [List.append_assoc, List.append_assoc] at hlen ⊢
  rw [List.length_append] at hlen
  have hread := ih [] (w' ++ byte ')' :: rest) d Spacing.nil
    (Ends.append hw' (Ends.cons (by decide) _)) (Nat.lt_of_le_of_lt (Nat.le_add_left ..) hlen)
  rw [List.nil_append] at hread
  rw [readFrom_tuple]
  simp only [parseParens, h.skipWS hw, if_neg (h.head_ne _ (c := byte ')') (by decide)), hread,
    Option.bind_eq_bind, Option.bind_some, skipWS_append hw', skipWS_cons_of_not hclose,
    List.head?_cons, if_true, List.tail_cons, Option.map_some, Sum.elim_inl, id]

theorem readsBack_tuple (hw : Spacing w) (hw' : Spacing w') (h : Spells (.value v) t)
    (ih : ReadsBack (.value v) t) (ihs : ReadsBack (.elems vs) u) :
    ReadsBack (.value (.tuple (v :: vs)))
      (byte '(' :: (w ++ t ++ w' ++ byte ',' :: u) ++ [byte ')']) := by
  have hcomma : isWS (byte ',') = false := by decide
  -- a comma is not the closing parenthesis, so the parser goes on with a tuple
  have hother : ¬ some (byte ',') = some (byte ')') := by decide
  refine readsBack_enclosed (by decide) fun d rest hlen => ?_
  have htext : w ++ t ++ w' ++ byte ',' :: u ++ byte ')' :: rest =
      w ++ (t ++ (w' ++ byte ',' :: (u ++ byte ')' :: rest))) := by simp
  rw [htext] at hlen ⊢
  have hread := ih [] (w' ++ byte ',' :: (u ++ byte ')' :: rest)) d Spacing.nil
    (Ends.append hw' (Ends.cons (by decide) _))
    (Nat.lt_of_le_of_lt (Nat.le_add_left ..) (List.length_append ▸ hlen))
  simp only [List.length_append, List.length_cons] at hlen
  have hreads := ihs (byte ')') rest (u ++ byte ')' :: rest).length d (by decide)
    (by simp only [List.length_append, List.length_cons]; omega) le_rfl
  rw [List.nil_append] at hread
  rw [readFrom_tuple]
  simp only [parseParens, h.skipWS hw, if_neg (h.head_ne _ (c := byte ')') (by decide)), hread,
    Option.bind_eq_bind, Option.bind_some, skipWS_append hw', skipWS_cons_of_not hcomma,
    List.head?_cons, if_neg hother, if_true, List.tail_cons, parseElems_eq, hreads,
    Option.map_some, Sum.elim_inr]

theorem readsBack_lastElem (hw : Spacing w) (hw' : Spacing w') (h : Spells (.value v) t)
    (ih : ReadsBack (.value v) t) : ReadsBack (.elems [v]) (w ++ t ++ w') := by
  intro close rest fuel n hclose hn hfuel
  obtain ⟨hws, hcomma, hends, -⟩ := close_spec close hclose
  have htext : w ++ t ++ w' ++ close :: rest = w ++ (t ++ (w' ++ close :: rest)) := by simp
  rw [htext] at hn hfuel ⊢
  obtain ⟨f, rfl⟩ : ∃ f, fuel = f + 1 :=
    Nat.exists_eq_add_one_of_ne_zero (by rintro rfl; simp at hfuel)
  have hread := ih [] (w' ++ close :: rest) n Spacing.nil (Ends.append hw' (Ends.cons hends _))
    (by simp only [List.length_append, List.length_nil] at hn ⊢; omega)
  rw [parseMore_value h hw hclose]
  exact parseItems_close hread hw' hws hcomma

theorem readsBack_elem (hw : Spacing w) (hw' : Spacing w') (h : Spells (.value v) t)
    (ih : ReadsBack (.value v) t) (ihs : ReadsBack (.elems vs) u) :
    ReadsBack (.elems (v :: vs)) (w ++ t ++ w' ++ byte ',' :: u) := by
  intro close rest fuel n hclose hn hfuel
  have htext : w ++ t ++ w' ++ byte ',' :: u ++ close :: rest =
      w ++ (t ++ (w' ++ byte ',' :: (u ++ close :: rest))) := by simp
  rw [htext] at hn hfuel ⊢
  simp only [List.length_append, List.length_cons] at hn hfuel
  obtain ⟨f, rfl⟩ : ∃ f, fuel = f + 1 :=
    Nat.exists_eq_add_one_of_ne_zero (by omega)
  -- the element up to its comma, then the rest with one unit of fuel less
  have hread := ih [] (w' ++ byte ',' :: (u ++ close :: rest)) n Spacing.nil
    (Ends.append hw' (Ends.cons (by decide) _))
    (by simp only [List.length_append, List.length_nil, List.length_cons]; omega)
  have hreads := ihs close rest f n hclose
    (by simp only [List.length_append, List.length_cons]; omega)
    (by simp only [List.length_append, List.length_cons]; omega)
  rw [parseMore_value h hw hclose]
  exact parseItems_comma hread hw' hreads

theorem readsBack_lastEntry (hw : Spacing w) (hw' : Spacing w') (hx : Spacing x)
    (hx' : Spacing x') (hk : Spells (.value k) t) (ihk : ReadsBack (.value k) t)
    (ihv : ReadsBack (.value v) u) :
    ReadsBack (.entries [(k, v)]) (w ++ t ++ w' ++ byte ':' :: (x ++ u) ++ x') := by
  intro rest fuel n hn hfuel
  have htext : w ++ t ++ w' ++ byte ':' :: (x ++ u) ++ x' ++ byte '}' :: rest =
      w ++ (t ++ (w' ++ byte ':' :: (x ++ (u ++ (x' ++ byte '}' :: rest))))) := by simp
  rw [htext] at hn hfuel ⊢
  obtain ⟨f, rfl⟩ : ∃ f, fuel = f + 1 :=
    Nat.exists_eq_add_one_of_ne_zero (by rintro rfl; simp at hfuel)
  have hread := parsePair_append (n := n) hw' hx ihk ihv
    (Ends.append hx' (Ends.cons (c := byte '}') (by decide) rest))
    (by rw [List.length_append] at hn; omega)
  rw [parseMore_value hk hw (by decide)]
  exact parseItems_close hread hx' (by decide) (by decide)

theorem readsBack_entry (hw : Spacing w) (hw' : Spacing w') (hx : Spacing x) (hx' : Spacing x')
    (hk : Spells (.value k) t) (ihk : ReadsBack (.value k) t) (ihv : ReadsBack (.value v) u)
    (ihs : ReadsBack (.entries es) z) :
    ReadsBack (.entries ((k, v) :: es))
      (w ++ t ++ w' ++ byte ':' :: (x ++ u) ++ x' ++ byte ',' :: z) := by
  intro rest fuel n hn hfuel
  have htext : w ++ t ++ w' ++ byte ':' :: (x ++ u) ++ x' ++ byte ',' :: z ++ byte '}' :: rest =
      w ++ (t ++ (w' ++ byte ':' ::
        (x ++ (u ++ (x' ++ byte ',' :: (z ++ byte '}' :: rest)))))) := by simp
  rw [htext] at hn hfuel ⊢
  -- the pair up to its comma, then the rest with one unit of fuel less
  have hread := parsePair_append (n := n) hw' hx ihk ihv
    (Ends.append hx' (Ends.cons (c := byte ',') (by decide) (z ++ byte '}' :: rest)))
    (by rw [List.length_append] at hn; omega)
  simp only [List.length_append, List.length_cons] at hn hfuel
  obtain ⟨f, rfl⟩ : ∃ f, fuel = f + 1 :=
    Nat.exists_eq_add_one_of_ne_zero (by omega)
  have hreads := ihs rest f n
    (by simp only [List.length_append, List.length_cons]; omega)
    (by simp only [List.length_append, List.length_cons]; omega)
  rw [parseMore_value hk hw (by decide)]
  exact parseItems_comma hread hx' hreads

end Compound

/-- **Whatever is written is read back.** -/
theorem Spells.readsBack {form : PyForm} {t : Bytes} (h : Spells form t) : ReadsBack form t := by
  induction h with
  | @string q items t hq h =>
    have hws : isWS q = false := (startsValue_spec q (by simp [startsValue, hq])).1
    exact readsBack_enclosed hws fun d rest _ => readFrom_string _ hq h
  | @bytes b q items t hb hq h =>
    have hws : isWS b = false := by rcases hb with rfl | rfl <;> decide
    exact readsBack_enclosed hws fun d rest _ => readFrom_bytes _ hb hq h
  | @number t h =>
    exact readsBack_open h.starts.1
      (fun hcs => (startsValue_spec _ ((Spells.number h).starts hcs)).1)
      fun hrest hcs => readFrom_number _ h hrest hcs
  | @keyword k t h =>
    exact readsBack_open h.starts.1
      (fun hcs => (startsValue_spec _ ((Spells.keyword h).starts hcs)).1)
      fun hrest hcs => readFrom_keyword _ h hrest hcs
  | @list vs t h ih =>
    refine readsBack_enclosed (by decide) fun d rest hlen => ?_
    rw [readFrom_list, parseElems_eq, ih (byte ']') rest _ d (by decide) hlen le_rfl]
    rfl
  | @unit w' hw' =>
    have hclose : isWS (byte ')') = false := by decide
    refine readsBack_enclosed (by decide) fun d rest _ => ?_
    rw [readFrom_tuple]
    simp only [parseParens, skipWS_append hw', skipWS_cons_of_not hclose, List.head?_cons, if_true,
      List.tail_cons, Option.map_some, Sum.elim_inr]
  | group hw hw' h ih => exact readsBack_group hw hw' h ih
  | tuple hw hw' h hs ih ihs => exact readsBack_tuple hw hw' h ih ihs
  | @dict es t h ih =>
    refine readsBack_enclosed (by decide) fun d rest hlen => ?_
    rw [readFrom_braces, parseBraces_of_entries (ih rest _ d hlen le_rfl)]
    rfl
  | @set vs t hne h ih =>
    refine readsBack_enclosed (by decide) fun d rest hlen => ?_
    rw [readFrom_braces,
      parseBraces_of_elems hne (ih (byte '}') rest _ d (by decide) hlen le_rfl)]
    rfl
  | @noElem w hw =>
    intro close rest fuel n hclose hn hfuel
    rw [parseMore, skipWS_append hw, skipWS_cons_of_not (close_spec close hclose).1]
    exact if_pos rfl
  | lastElem hw hw' h ih => exact readsBack_lastElem hw hw' h ih
  | elem hw hw' h hs ih ihs => exact readsBack_elem hw hw' h ih ihs
  | @noEntry w hw =>
    intro rest fuel n hn hfuel
    have hclose : isWS (byte '}') = false := by decide
    rw [parseMore, skipWS_append hw, skipWS_cons_of_not hclose]
    exact if_pos rfl
  | lastEntry hw hw' hx hx' hk hv ihk ihv => exact readsBack_lastEntry hw hw' hx hx' hk ihk ihv
  | entry hw hw' hx hx' hk hv hs ihk ihv ihs =>
    exact readsBack_entry hw hw' hx hx' hk ihk ihv ihs

/-! ### What is read is written -/

/-- White space, and then a literal. -/
def SpellsAfter (v : PyLiteral) (t : Bytes) : Prop :=
  ∃ w t', Spacing w ∧ t = w ++ t' ∧ Spells (.value v) t'

/-- An entry of a dictionary. -/
def SpellsPair (e : PyLiteral × PyLiteral) (t : Bytes) : Prop :=
  ∃ w k w' x v, Spacing w ∧ Spacing w' ∧ Spacing x ∧ Spells (.value e.1) k ∧
    Spells (.value e.2) v ∧ t = w ++ k ++ w' ++ byte ':' :: (x ++ v)

theorem Spells.space_elems {vs : List PyLiteral} {w u : Bytes} (hw : Spacing w)
    (h : Spells (.elems vs) u) : Spells (.elems vs) (w ++ u) := by
  cases h with
  | noElem hu => exact .noElem (hw.append hu)
  | lastElem hw₀ hw' h =>
    have hspells := Spells.lastElem (hw.append hw₀) hw' h
    simpa only [List.append_assoc] using hspells
  | elem hw₀ hw' h hs =>
    have hspells := Spells.elem (hw.append hw₀) hw' h hs
    simpa only [List.append_assoc] using hspells

theorem Spells.space_entries {es : List (PyLiteral × PyLiteral)} {w u : Bytes} (hw : Spacing w)
    (h : Spells (.entries es) u) : Spells (.entries es) (w ++ u) := by
  cases h with
  | noEntry hu => exact .noEntry (hw.append hu)
  | lastEntry hw₀ hw' hx hx' hk hv =>
    have hspells := Spells.lastEntry (hw.append hw₀) hw' hx hx' hk hv
    simpa only [List.append_assoc] using hspells
  | entry hw₀ hw' hx hx' hk hv hs =>
    have hspells := Spells.entry (hw.append hw₀) hw' hx hx' hk hv hs
    simpa only [List.append_assoc] using hspells

section Sound

variable {read : Bytes → Option (PyLiteral × Bytes)}
  (hread : ∀ s v rest, read s = some (v, rest) → ∃ t, s = t ++ rest ∧ SpellsAfter v t)

include hread

theorem elems_of_parseElems {close : Byte} {s rest : Bytes} {vs : List PyLiteral}
    (h : parseElems read close s = some (vs, rest)) :
    ∃ u, s = u ++ close :: rest ∧ Spells (.elems vs) u := by
  refine parseMore_sound (Q := fun vs u => Spells (.elems vs) u) hread (fun w hw => .noElem hw)
    (fun w vs u hw hu => hu.space_elems hw) ?_ ?_ h
  · rintro v _ w' ⟨w, t, hw, rfl, ht⟩ hw'
    exact .lastElem hw hw' ht
  · rintro v _ w' vs u ⟨w, t, hw, rfl, ht⟩ hw' hu
    exact .elem hw hw' ht hu

theorem pair_of_parsePair {s rest : Bytes} {e : PyLiteral × PyLiteral}
    (h : parsePair read s = some (e, rest)) : ∃ t, s = t ++ rest ∧ SpellsPair e t := by
  obtain ⟨⟨k, s'⟩, hk, h⟩ := Option.bind_eq_some_iff.mp h
  simp only at h
  split_ifs at h with hcolon
  obtain ⟨⟨v, s''⟩, hv, h⟩ := Option.bind_eq_some_iff.mp h
  obtain ⟨rfl, rfl⟩ := Prod.mk.inj (Option.some.inj h)
  obtain ⟨_, rfl, w, t, hw, rfl, ht⟩ := hread _ _ _ hk
  obtain ⟨_, htail, x, u, hx, rfl, hu⟩ := hread _ _ _ hv
  obtain ⟨w', hw', hskip⟩ := exists_skipWS s'
  refine ⟨w ++ t ++ w' ++ byte ':' :: (x ++ u), ?_, w, t, w', x, u, hw, hw', hx, ht, hu, rfl⟩
  rw [hskip, ← List.cons_head?_tail hcolon, htail]
  simp

theorem entries_of_parseElems {close : Byte} {s rest : Bytes} {es : List (PyLiteral × PyLiteral)}
    (h : parseElems (parsePair read) close s = some (es, rest)) :
    ∃ u, s = u ++ close :: rest ∧ Spells (.entries es) u := by
  refine parseMore_sound (P := SpellsPair) (Q := fun es u => Spells (.entries es) u)
    (fun s e rest => pair_of_parsePair hread) (fun w hw => .noEntry hw)
    (fun w es u hw hu => hu.space_entries hw) ?_ ?_ h
  · rintro ⟨k, v⟩ _ x' ⟨w, t, w', x, u, hw, hw', hx, hk, hv, rfl⟩ hx'
    exact .lastEntry hw hw' hx hx' hk hv
  · rintro ⟨k, v⟩ _ x' es z ⟨w, t, w', x, u, hw, hw', hx, hk, hv, rfl⟩ hx' hz
    exact .entry hw hw' hx hx' hk hv hz

theorem parens_sound {s rest : Bytes} {inside : PyLiteral ⊕ List PyLiteral}
    (h : parseParens read s = some (inside, rest)) :
    ∃ t, byte '(' :: s = t ++ rest ∧ Spells (.value (inside.elim id .tuple)) t := by
  obtain ⟨w, hw, hskip⟩ := exists_skipWS s
  rw [parseParens] at h
  simp only at h
  split_ifs at h with hclose
  · obtain ⟨rfl, rfl⟩ := Prod.mk.inj (Option.some.inj h)
    refine ⟨_, ?_, .unit hw⟩
    have hs : s = w ++ byte ')' :: (PyParser.skipWS s).tail := by
      rwa [List.cons_head?_tail hclose]
    rw [← List.append_cons]
    exact congrArg (byte '(' :: ·) hs
  · obtain ⟨⟨v, s'⟩, hv, h⟩ := Option.bind_eq_some_iff.mp h
    obtain ⟨_, htail, x, t, hx, rfl, ht⟩ := hread _ _ _ hv
    obtain ⟨w', hw', hskip'⟩ := exists_skipWS s'
    simp only at h
    split_ifs at h with hclose' hcomma
    · obtain ⟨rfl, rfl⟩ := Prod.mk.inj (Option.some.inj h)
      refine ⟨_, ?_, .group (hw.append hx) hw' ht⟩
      rw [hskip, htail]
      nth_rewrite 1 [hskip']
      rw [← List.cons_head?_tail hclose']
      simp
    · obtain ⟨⟨vs, s''⟩, hvs, h⟩ := Option.bind_eq_some_iff.mp h
      obtain ⟨rfl, rfl⟩ := Prod.mk.inj (Option.some.inj h)
      obtain ⟨u, hu, hspells⟩ := elems_of_parseElems hread hvs
      refine ⟨_, ?_, .tuple (hw.append hx) hw' ht hspells⟩
      rw [hskip, htail, hskip', ← List.cons_head?_tail hcomma, hu]
      simp

theorem braces_sound {s rest : Bytes}
    {inside : List (PyLiteral × PyLiteral) ⊕ List PyLiteral}
    (h : parseBraces read s = some (inside, rest)) :
    ∃ t, byte '{' :: s = t ++ rest ∧ Spells (.value (inside.elim .dict .set)) t := by
  rcases elems_or_entries_of_parseBraces h with ⟨es, rfl, hes⟩ | ⟨vs, rfl, hne, hvs⟩
  · obtain ⟨u, rfl, hu⟩ := entries_of_parseElems hread hes
    exact ⟨_, by simp, .dict hu⟩
  · obtain ⟨u, rfl, hu⟩ := elems_of_parseElems hread hvs
    exact ⟨_, by simp, .set hne hu⟩

end Sound

theorem string_sound {c : Byte} {s rest : Bytes} {v : PyLiteral} (hstarts : startsString c s = true)
    (h : readString (c :: s) = some (v, rest)) : ∃ t, c :: s = t ++ rest ∧ Spells (.value v) t := by
  have hquotes : ∀ q, isQuote q = true → ¬ (q = byte 'b' ∨ q = byte 'B') := by decide
  have hmem : c ∈ ascii ['b', 'B'] ↔ c = byte 'b' ∨ c = byte 'B' := by simp [ascii]
  rw [readString.eq_def] at h
  simp only at h
  rw [startsString, Bool.or_eq_true, Bool.and_eq_true, decide_eq_true_eq, hmem] at hstarts
  split_ifs at h with hb
  · rcases hstarts with hq | ⟨-, hq⟩
    · exact absurd hb (hquotes c hq)
    · cases s with
      | nil => cases h
      | cons q s =>
        obtain ⟨⟨items, r⟩, hbody, heq⟩ := Option.map_eq_some_iff.mp h
        obtain ⟨rfl, rfl⟩ := Prod.mk.inj heq
        obtain ⟨t, rfl, ht⟩ := eq_of_readBody hbody
        exact ⟨_, by simp, .bytes hb (by simpa using hq) ht⟩
  · obtain ⟨⟨items, r⟩, hbody, heq⟩ := Option.map_eq_some_iff.mp h
    obtain ⟨rfl, rfl⟩ := Prod.mk.inj heq
    obtain ⟨t, rfl, ht⟩ := eq_of_readBody hbody
    refine ⟨_, by simp, .string (hstarts.resolve_right fun hother => hb hother.1) ht⟩

/-- What is read is written, after some white space. -/
theorem eq_of_readValue {n : ℕ} {s rest : Bytes} {v : PyLiteral}
    (h : readValue n s = some (v, rest)) : ∃ t, s = t ++ rest ∧ SpellsAfter v t := by
  induction n generalizing s v rest with
  | zero => cases h
  | succ n ih =>
    have hread : ∀ s v rest, readValue n s = some (v, rest) → ∃ t, s = t ++ rest ∧ SpellsAfter v t :=
      fun s v rest => ih
    obtain ⟨w, hw, hskip⟩ := exists_skipWS s
    rw [readValue] at h
    cases hs : skipWS s with
    | nil => simp [hs] at h
    | cons c s' =>
      simp only [hs] at h
      -- behind the white space, the first byte decides which production the text comes from
      have hfound : ∃ t, c :: s' = t ++ rest ∧ Spells (.value v) t := by
        rw [readFrom] at h
        split_ifs at h with hstring hlist htuple hdict hnumber hletter
        · exact string_sound hstring h
        · obtain ⟨⟨vs, r⟩, hvs, heq⟩ := Option.map_eq_some_iff.mp h
          obtain ⟨rfl, rfl⟩ := Prod.mk.inj heq
          obtain ⟨u, rfl, hu⟩ := elems_of_parseElems hread hvs
          exact ⟨_, by simp [hlist], .list hu⟩
        · obtain ⟨⟨inside, r⟩, hinside, heq⟩ := Option.map_eq_some_iff.mp h
          obtain ⟨rfl, rfl⟩ := Prod.mk.inj heq
          rw [htuple]
          exact parens_sound hread hinside
        · obtain ⟨⟨inside, r⟩, hinside, heq⟩ := Option.map_eq_some_iff.mp h
          obtain ⟨rfl, rfl⟩ := Prod.mk.inj heq
          rw [hdict]
          exact braces_sound hread hinside
        · obtain ⟨⟨token, r⟩, htoken, heq⟩ := Option.map_eq_some_iff.mp h
          obtain ⟨rfl, rfl⟩ := Prod.mk.inj heq
          obtain ⟨t, ht, htext, rfl⟩ := eq_of_parseNumber htoken
          exact ⟨t, htext, .number ht⟩
        · obtain ⟨⟨k, r⟩, hk, heq⟩ := Option.map_eq_some_iff.mp h
          obtain ⟨rfl, rfl⟩ := Prod.mk.inj heq
          obtain ⟨t, htext, ht⟩ := eq_of_readKeyword hk
          exact ⟨t, htext, .keyword ht⟩
      obtain ⟨t, htext, ht⟩ := hfound
      refine ⟨w ++ t, ?_, w, t, hw, rfl, ht⟩
      rw [hskip, hs, htext, List.append_assoc]

/-! ### Texts that are one literal -/

/-- The literal that a text is, up to white space around it. -/
def readLiteral (s : Bytes) : Option PyLiteral := do
  let (v, rest) ← readValue ((trimSpace s).length + 1) (trimSpace s)
  if skipWS rest = [] then some v else none

theorem canonicalPyLiteral_eq (s : Bytes) :
    canonicalPyLiteral s = (readLiteral s).map PyLiteral.canon := by
  simp only [canonicalPyLiteral, readLiteral, parseValue_eq]
  cases readValue ((trimSpace s).length + 1) (trimSpace s) with
  | none => rfl
  | some r =>
    obtain ⟨v, rest⟩ := r
    simp only [Option.map_some, Option.bind_eq_bind, Option.bind_some, Prod.map, id]
    split_ifs <;> rfl

theorem PyParser.Spacing.blank {w : Bytes} (h : Spacing w) : Blank w := by
  have hspaces : ∀ c, isWS c = true → [c] ∈ spaces := by decide
  induction w with
  | nil => exact Blank.nil
  | cons c w ih =>
    obtain ⟨hc, hw⟩ := List.forall_mem_cons.mp h
    exact Blank.append (Blank.of_mem (hspaces c hc)) (ih hw)

/-- A text is read as a literal exactly if it writes that one. -/
theorem readLiteral_eq_some_iff {s : Bytes} {v : PyLiteral} :
    readLiteral s = some v ↔ PyText v s := by
  constructor
  · intro h
    obtain ⟨⟨v', rest⟩, hv, h⟩ := Option.bind_eq_some_iff.mp h
    simp only at h
    split_ifs at h with hrest
    obtain rfl := Option.some.inj h
    obtain ⟨_, htrim, x, t, hx, rfl, ht⟩ := eq_of_readValue hv
    obtain ⟨y, hy, hskip⟩ := exists_skipWS rest
    obtain ⟨w, w', hw, hw', hs⟩ := exists_trimSpace s
    refine ⟨w ++ x, t, y ++ w', hw.append hx.blank, hy.blank.append hw', ht, ?_⟩
    rw [hs, htrim, hskip, hrest]
    simp
  · rintro ⟨w, t, w', hw, hw', ht, rfl⟩
    have htrim : trimSpace (w ++ t ++ w') = t := trimSpace_append hw ht.solid hw'
    have hread := ht.readsBack [] [] (t.length + 1) Spacing.nil Ends.nil (by simp)
    rw [List.nil_append, List.append_nil] at hread
    simp only [readLiteral, htrim, hread, Option.bind_eq_bind, Option.bind_some, skipWS_nil,
      if_true]

/-- A text writes one literal at most. -/
theorem PyText.unique {s : Bytes} {v v' : PyLiteral} (h : PyText v s) (h' : PyText v' s) : v = v' :=
  Option.some.inj ((readLiteral_eq_some_iff.mpr h).symm.trans (readLiteral_eq_some_iff.mpr h'))

theorem PyText.canonical {s : Bytes} {v : PyLiteral} (h : PyText v s) :
    canonicalPyLiteral s = some v.canon := by
  rw [canonicalPyLiteral_eq, readLiteral_eq_some_iff.mpr h, Option.map_some]

/-- The texts that are accepted are those that are one literal. -/
theorem canonicalPyLiteral_eq_some_iff {s c : Bytes} :
    canonicalPyLiteral s = some c ↔ ∃ v, PyText v s ∧ v.canon = c := by
  simp only [canonicalPyLiteral_eq, Option.map_eq_some_iff, readLiteral_eq_some_iff]

end HubScope
