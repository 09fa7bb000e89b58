import HubScope.Evaluator.PyLiteral

/-!
# The tokens of Python literals

Numbers, strings and keywords as the texts they are written as. A string is a row of items, each
a byte of its own or an escape: what the canonical form makes of it depends on the bytes only,
what the literal denotes may depend on how they are written. The readers below return what was
written, and the parser's functions are what is left when it is forgotten.

## Main definitions

* `PyParser.IsNumber` — the tokens of numbers
* `PyItem`, `SpellsItems` — the contents of strings and how they are written
* `PyKeyword`, `SpellsKeyword` — keywords

## Main results

* `PyParser.parseNumber_append`, `eq_of_parseNumber` — what is read as a number
* `readBody_append`, `eq_of_readBody` — what is read as the content of a string
* `spellsItems_canonical` — the canonical form of a content spells it
-/

set_option autoImplicit false

namespace HubScope

-- A byte has 256 values, and `decide` goes through all of them.
set_option maxRecDepth 2000

namespace PyParser

open Bytes

/-! ### Numbers -/

/-- One digit or more. -/
def Digits (w : Bytes) : Prop := w ≠ [] ∧ ∀ c ∈ w, isDigit c = true

def IsSign (w : Bytes) : Prop := w = [] ∨ ∃ c ∈ ascii ['+', '-'], w = [c]

/-- The digits of a number and its point. -/
inductive Mantissa : Bytes → Prop
  | whole {ds : Bytes} (hds : Digits ds) : Mantissa ds
  | dotted {ds fs : Bytes} (hds : Digits ds) (hfs : ∀ c ∈ fs, isDigit c = true) :
      Mantissa (ds ++ byte '.' :: fs)
  | fraction {fs : Bytes} (hfs : Digits fs) : Mantissa (byte '.' :: fs)

inductive Exponent : Bytes → Prop
  | absent : Exponent []
  | power {e : Byte} {sign ds : Bytes} (he : e ∈ ascii ['e', 'E']) (hsign : IsSign sign)
      (hds : Digits ds) : Exponent (e :: (sign ++ ds))

/-- The tokens of numbers. -/
def IsNumber (t : Bytes) : Prop :=
  ∃ sign m x, IsSign sign ∧ Mantissa m ∧ Exponent x ∧ t = sign ++ (m ++ x)

/-- The byte would be read as part of a number before it. -/
def continuesNumber (c : Byte) : Bool := isDigit c || c ∈ ascii ['.', 'e', 'E']

section Numbers

open Regexp

def signRe : Regexp Byte := .symbol (· ∈ ascii ['+', '-'])

def mantissaRe : Regexp Byte :=
  .alt (.seq (.plus digitRe) (.opt (.seq (.lit (byte '.')) (.star digitRe))))
    (.seq (.lit (byte '.')) (.plus digitRe))

def exponentRe : Regexp Byte :=
  .cat [.symbol (· ∈ ascii ['e', 'E']), .opt signRe, .plus digitRe]

theorem pyNumberRe_eq : pyNumberRe = cat [bol, opt signRe, mantissaRe, opt exponentRe] := rfl

theorem isDigit_eq_false_of_mem : ∀ c ∈ ascii ['+', '-'], isDigit c = false := by
  decide

theorem takes_sign {sign rest : Bytes} (h : IsSign sign)
    (hrest : sign = [] → ∀ c ∈ rest.head?, c ∉ ascii ['+', '-']) :
    Takes (opt signRe) sign rest := by
  rcases h with rfl | ⟨c, hc, rfl⟩
  · exact Fails.opt (fails_symbol fun c hc => by simpa using hrest rfl c hc)
  · exact Takes.opt (takes_symbol (by simpa using hc) rest)

theorem Digits.head {w rest : Bytes} (h : Digits w) : ∀ c ∈ (w ++ rest).head?, isDigit c = true := by
  obtain ⟨x, w, rfl⟩ := List.exists_cons_of_ne_nil h.1
  intro c hc
  obtain rfl : x = c := by simpa using hc
  exact h.2 x List.mem_cons_self

theorem takes_mantissa {m rest : Bytes} (h : Mantissa m)
    (hrest : ∀ c ∈ rest.head?, isDigit c = false ∧ c ≠ byte '.') : Takes mantissaRe m rest := by
  have hdot : isDigit (byte '.') = false := by decide
  cases h with
  | whole hds =>
    have hopt : Takes (opt (seq (lit (byte '.')) (star digitRe))) [] rest :=
      Fails.opt (Fails.seq (fails_symbol fun c hc => by simpa using (hrest c hc).2))
    have hplus : Takes (plus digitRe) m ([] ++ rest) :=
      takes_plus_symbol hds.1 hds.2 fun c hc => (hrest c hc).1
    have hseq := Takes.seq hplus hopt
    rw [List.append_nil] at hseq
    exact hseq.alt_left
  | dotted hds hfs =>
    refine Takes.alt_left (Takes.seq (takes_plus_symbol hds.1 hds.2 ?_) (Takes.opt ?_))
    · simpa using hdot
    · exact Takes.seq (takes_symbol (by simp) _) (takes_star_symbol hfs fun c hc => (hrest c hc).1)
  | fraction hfs =>
    refine Takes.alt_right (Fails.seq (Fails.seq (fails_symbol ?_))) ?_
    · simpa using hdot
    · exact Takes.seq (takes_symbol (by simp) _)
        (takes_plus_symbol hfs.1 hfs.2 fun c hc => (hrest c hc).1)

theorem takes_exponent {x rest : Bytes} (h : Exponent x)
    (hrest : ∀ c ∈ rest.head?, continuesNumber c = false) : Takes (opt exponentRe) x rest := by
  cases h with
  | absent =>
    refine Fails.opt (Fails.seq (fails_symbol fun c hc => ?_))
    have h := hrest c hc
    simp only [continuesNumber, ascii, List.map_cons, List.map_nil, List.mem_cons,
      List.not_mem_nil, or_false, Bool.or_eq_false_iff, decide_eq_false_iff_not, not_or] at h ⊢
    exact h.2.2
  | power he hsign hds =>
    rename_i e sign ds
    have hdigit : ∀ c ∈ rest.head?, isDigit c = false := fun c hc =>
      (Bool.or_eq_false_iff.mp (hrest c hc)).1
    -- a sign is taken exactly where one is written: a digit follows it
    have hsigns : Takes (opt signRe) sign ((ds ++ []) ++ rest) := by
      refine takes_sign hsign fun _ c hc hmem => ?_
      have hd := hds.head c (by simpa using hc)
      rw [isDigit_eq_false_of_mem c hmem] at hd
      cases hd
    have hdigits : Takes (plus digitRe) ds ([] ++ rest) := takes_plus_symbol hds.1 hds.2 hdigit
    have hletter : Takes (symbol fun c => c ∈ ascii ['e', 'E']) [e] (sign ++ (ds ++ []) ++ rest) :=
      takes_symbol (by simpa using he) _
    have htail := hletter.seq (hsigns.seq (hdigits.seq (takes_empty rest)))
    rw [List.append_nil] at htail
    exact Takes.opt htail

theorem Mantissa.head {m rest : Bytes} (h : Mantissa m) :
    ∀ c ∈ (m ++ rest).head?, c ∉ ascii ['+', '-'] := by
  have hdigit : ∀ {ds rest : Bytes}, Digits ds → ∀ c ∈ (ds ++ rest).head?, c ∉ ascii ['+', '-'] := by
    intro ds rest hds c hc hmem
    have hd := hds.head c hc
    rw [isDigit_eq_false_of_mem c hmem] at hd
    cases hd
  cases h with
  | whole hds => exact hdigit hds
  | dotted hds hfs => rw [List.append_assoc]; exact hdigit hds
  | fraction hfs =>
    intro c hc
    obtain rfl : byte '.' = c := by simpa using hc
    decide

theorem Exponent.head {x rest : Bytes} (h : Exponent x)
    (hrest : ∀ c ∈ rest.head?, continuesNumber c = false) :
    ∀ c ∈ (x ++ rest).head?, isDigit c = false ∧ c ≠ byte '.' := by
  have hletters : ∀ c ∈ ascii ['e', 'E'], isDigit c = false ∧ c ≠ byte '.' := by decide
  intro c hc
  cases h with
  | absent =>
    have hcont := hrest c hc
    rw [continuesNumber, Bool.or_eq_false_iff, decide_eq_false_iff_not] at hcont
    exact ⟨hcont.1, fun heq => hcont.2 (heq ▸ by decide)⟩
  | power he hsign hds =>
    obtain rfl := Option.some.inj hc
    exact hletters _ he

theorem parseNumber_of_match {t rest : Bytes} {d : Cursor Byte}
    (hmatch : pyNumberRe.match? (.start (t ++ rest)) = some d) (hahead : d.ahead = rest)
    (hne : t ≠ []) : parseNumber (t ++ rest) = some (trimPlus t, rest) := by
  have htoken : (Cursor.start (t ++ rest)).upTo d = t := by
    have hsplit := (leads_of_mem_ends (List.mem_of_head? hmatch)).upTo.1
    rw [hahead] at hsplit
    exact (List.append_cancel_right hsplit).symm
  simp only [parseNumber, hmatch, Option.bind_some, htoken, if_neg hne, hahead]

/-- A number is read as a whole where nothing continues it. -/
theorem parseNumber_append {t rest : Bytes} (ht : IsNumber t)
    (hrest : ∀ c ∈ rest.head?, continuesNumber c = false) :
    parseNumber (t ++ rest) = some (trimPlus t, rest) := by
  obtain ⟨sign, m, x, hsign, hm, hx, rfl⟩ := ht
  have hbol : ∀ s : Bytes, match? bol (.start s) = some (.start s) := fun _ => rfl
  have hsigns : Takes (opt signRe) sign (m ++ (x ++ []) ++ rest) := by
    refine takes_sign hsign fun _ => ?_
    rw [List.append_assoc]
    exact hm.head
  -- each part stops where the next begins, and the last where no number goes on
  have hmantissa : Takes mantissaRe m (x ++ [] ++ rest) := by
    rw [List.append_nil]
    exact takes_mantissa hm (hx.head hrest)
  have htail := hsigns.seq (hmantissa.seq ((takes_exponent hx hrest).seq (takes_empty rest)))
  rw [List.append_nil] at htail
  have hmatch : pyNumberRe.match? (.start (sign ++ (m ++ x) ++ rest)) =
      some ((Cursor.start (sign ++ (m ++ x) ++ rest)).skip (sign ++ (m ++ x)).length) :=
    match_seq (hbol _) (htail (.start (sign ++ (m ++ x) ++ rest)) rfl)
  have hne : sign ++ (m ++ x) ≠ [] := by
    cases hm with
    | whole hds => simp [hds.1]
    | dotted hds hfs => simp
    | fraction hfs => simp
  exact parseNumber_of_match hmatch (by rw [ahead_skip]; exact List.drop_left) hne

theorem ahead_of_sign {c d : Cursor Byte} (hd : d ∈ ends (opt signRe) c) :
    ∃ sign, IsSign sign ∧ c.ahead = sign ++ d.ahead := by
  rcases mem_ends_opt.mp hd with hd | rfl
  · obtain ⟨x, hx, hcons⟩ := ahead_of_symbol hd
    exact ⟨[x], Or.inr ⟨x, of_decide_eq_true hx, rfl⟩, hcons⟩
  · exact ⟨[], Or.inl rfl, rfl⟩

theorem ahead_of_digits {c d : Cursor Byte} (hd : d ∈ ends (plus digitRe) c) :
    ∃ ds, Digits ds ∧ c.ahead = ds ++ d.ahead := by
  obtain ⟨ds, hne, hall, hahead⟩ := ahead_of_plus_symbol hd
  exact ⟨ds, ⟨hne, hall⟩, hahead⟩

theorem ahead_of_mantissa {c d : Cursor Byte} (hd : d ∈ ends mantissaRe c) :
    ∃ m, Mantissa m ∧ c.ahead = m ++ d.ahead := by
  rcases mem_ends_alt.mp hd with hd | hd
  · obtain ⟨b, hb, hd⟩ := mem_ends_seq.mp hd
    obtain ⟨ds, hds, hwhole⟩ := ahead_of_digits hb
    rcases mem_ends_opt.mp hd with hd | rfl
    · obtain ⟨a, ha, hd⟩ := mem_ends_seq.mp hd
      obtain ⟨fs, hfs, hfraction⟩ := ahead_of_star_symbol hd
      refine ⟨ds ++ byte '.' :: fs, .dotted hds hfs, ?_⟩
      rw [hwhole, ahead_of_lit ha, hfraction, List.append_assoc, List.cons_append]
    · exact ⟨ds, .whole hds, hwhole⟩
  · obtain ⟨a, ha, hd⟩ := mem_ends_seq.mp hd
    obtain ⟨fs, hfs, hfraction⟩ := ahead_of_digits hd
    refine ⟨byte '.' :: fs, .fraction hfs, ?_⟩
    rw [ahead_of_lit ha, hfraction, List.cons_append]

theorem ahead_of_exponent {c d : Cursor Byte} (hd : d ∈ ends (opt exponentRe) c) :
    ∃ x, Exponent x ∧ c.ahead = x ++ d.ahead := by
  rcases mem_ends_opt.mp hd with hd | rfl
  · simp only [exponentRe, mem_ends_cat_cons, mem_ends_cat_nil] at hd
    obtain ⟨a, ha, b, hb, e, he, rfl⟩ := hd
    obtain ⟨x, hx, hletter⟩ := ahead_of_symbol ha
    obtain ⟨sign, hsign, hsigned⟩ := ahead_of_sign hb
    obtain ⟨ds, hds, hdigits⟩ := ahead_of_digits he
    refine ⟨x :: (sign ++ ds), .power (of_decide_eq_true hx) hsign hds, ?_⟩
    rw [hletter, hsigned, hdigits, List.cons_append, List.append_assoc]
  · exact ⟨[], .absent, rfl⟩

/-- What is read as a number is one. -/
theorem eq_of_parseNumber {s token rest : Bytes} (h : parseNumber s = some (token, rest)) :
    ∃ t, IsNumber t ∧ s = t ++ rest ∧ token = trimPlus t := by
  obtain ⟨d, hmatch, h⟩ := Option.bind_eq_some_iff.mp h
  have hd := List.mem_of_head? hmatch
  rw [pyNumberRe_eq] at hd
  simp only [mem_ends_cat_cons, mem_ends_cat_nil, mem_ends_bol] at hd
  obtain ⟨a, ⟨-, rfl⟩, b, hb, e, he, f, hf, rfl⟩ := hd
  obtain ⟨sign, hsign, hsigned⟩ := ahead_of_sign hb
  obtain ⟨m, hm, hmantissa⟩ := ahead_of_mantissa he
  obtain ⟨x, hx, hexponent⟩ := ahead_of_exponent hf
  have hs : s = sign ++ (m ++ x) ++ d.ahead := by
    change (Cursor.start s).ahead = _
    rw [hsigned, hmantissa, hexponent]
    simp
  have htoken : (Cursor.start s).upTo d = sign ++ (m ++ x) := by
    have hsplit := (leads_of_mem_ends (List.mem_of_head? hmatch)).upTo.1
    exact List.append_cancel_right (hsplit.symm.trans hs)
  simp only [htoken] at h
  split_ifs at h
  obtain ⟨rfl, rfl⟩ := Prod.mk.inj (Option.some.inj h)
  exact ⟨_, ⟨sign, m, x, hsign, hm, hx, rfl⟩, hs, rfl⟩

theorem trimPlus_of_head {s : Bytes} (h : ∀ c ∈ s.head?, c ≠ byte '+') : trimPlus s = s := by
  cases s with
  | nil => rfl
  | cons c s => exact if_neg (h c rfl)

/-- Without its plus a number is still one, and does not begin with another plus. -/
theorem IsNumber.withoutPlus {t : Bytes} (ht : IsNumber t) :
    IsNumber (trimPlus t) ∧ ∀ c ∈ (trimPlus t).head?, c ≠ byte '+' := by
  obtain ⟨sign, m, x, hsign, hm, hx, rfl⟩ := ht
  have hhead : ∀ c ∈ (m ++ x).head?, c ≠ byte '+' := by
    rintro c hc rfl
    exact hm.head _ hc (by decide)
  have hunsigned : IsNumber (m ++ x) := ⟨[], m, x, Or.inl rfl, hm, hx, rfl⟩
  rcases hsign with rfl | ⟨c, hc, rfl⟩
  · rw [List.nil_append, trimPlus_of_head hhead]
    exact ⟨hunsigned, hhead⟩
  · rw [List.singleton_append, trimPlus]
    split_ifs with hplus
    · exact ⟨hunsigned, hhead⟩
    · refine ⟨⟨[c], m, x, Or.inr ⟨c, hc, rfl⟩, hm, hx, rfl⟩, ?_⟩
      rintro d hd rfl
      exact hplus (Option.some.inj hd)

theorem IsNumber.trimPlus_trimPlus {t : Bytes} (ht : IsNumber t) :
    trimPlus (trimPlus t) = trimPlus t :=
  trimPlus_of_head ht.withoutPlus.2

theorem startsNumber_of_digit {c : Byte} (hc : isDigit c = true) : startsNumber c = true := by
  rw [startsNumber, hc, Bool.or_true]

theorem IsNumber.starts {t : Bytes} (ht : IsNumber t) :
    t ≠ [] ∧ ∀ c ∈ t.head?, startsNumber c = true := by
  obtain ⟨sign, m, x, hsign, hm, hx, rfl⟩ := ht
  have hmantissa : m ++ x ≠ [] ∧ ∀ c ∈ (m ++ x).head?, startsNumber c = true := by
    cases hm with
    | whole hds => exact ⟨by simp [hds.1], fun c hc => startsNumber_of_digit (hds.head c hc)⟩
    | dotted hds hfs =>
      rw [List.append_assoc]
      exact ⟨by simp, fun c hc => startsNumber_of_digit (hds.head c hc)⟩
    | fraction hfs =>
      refine ⟨by simp, fun c hc => ?_⟩
      obtain rfl : byte '.' = c := by simpa using hc
      decide
  rcases hsign with rfl | ⟨c, hc, rfl⟩
  · exact hmantissa
  · have hsigns : ∀ c ∈ ascii ['+', '-'], startsNumber c = true := by decide
    refine ⟨by simp, fun d hd => ?_⟩
    obtain rfl : c = d := by simpa using hd
    exact hsigns c hc

/-- The bytes of the tokens of numbers. -/
theorem IsNumber.bytes {t : Bytes} (ht : IsNumber t) :
    ∀ c ∈ t, isDigit c = true ∨ c ∈ ascii ['+', '-', '.', 'e', 'E'] := by
  have hsigns : ∀ c ∈ ascii ['+', '-'], c ∈ ascii ['+', '-', '.', 'e', 'E'] := by decide
  have hletters : ∀ c ∈ ascii ['e', 'E'], c ∈ ascii ['+', '-', '.', 'e', 'E'] := by decide
  have hdot : byte '.' ∈ ascii ['+', '-', '.', 'e', 'E'] := by decide
  have hsign : ∀ w, IsSign w → ∀ c ∈ w, c ∈ ascii ['+', '-', '.', 'e', 'E'] := by
    rintro w (rfl | ⟨c, hc, rfl⟩) d hd
    · cases hd
    · exact List.mem_singleton.mp hd ▸ hsigns c hc
  have hmantissa : ∀ m, Mantissa m →
      ∀ c ∈ m, isDigit c = true ∨ c ∈ ascii ['+', '-', '.', 'e', 'E'] := by
    intro m hm c hc
    cases hm with
    | whole hds => exact .inl (hds.2 c hc)
    | dotted hds hfs =>
      rcases List.mem_append.mp hc with hc | hc
      · exact .inl (hds.2 c hc)
      · rcases List.mem_cons.mp hc with rfl | hc
        · exact .inr hdot
        · exact .inl (hfs c hc)
    | fraction hfs =>
      rcases List.mem_cons.mp hc with rfl | hc
      · exact .inr hdot
      · exact .inl (hfs.2 c hc)
  -- part by part
  obtain ⟨sign, m, x, hs, hm, hx, rfl⟩ := ht
  intro c hc
  rcases List.mem_append.mp hc with hc | hc
  · exact .inr (hsign sign hs c hc)
  · rcases List.mem_append.mp hc with hc | hc
    · exact hmantissa m hm c hc
    · cases hx with
      | absent => cases hc
      | power he hsign' hds =>
        rcases List.mem_cons.mp hc with rfl | hc
        · exact .inr (hletters c he)
        · rcases List.mem_append.mp hc with hc | hc
          · exact .inr (hsign _ hsign' c hc)
          · exact .inl (hds.2 c hc)

end Numbers

end PyParser

open Bytes PyParser

/-! ### Strings -/

/-- A byte of a string: written as it is, or as an escape. -/
inductive PyItem
  | raw (b : Byte)
  | escaped (b : Byte)
  deriving DecidableEq

def PyItem.byte : PyItem → Byte
  | raw b => b
  | escaped b => b

/-- The bytes a string is made of. -/
def content (items : List PyItem) : Bytes := items.map PyItem.byte

/-- How an item is written between quotes `q`. -/
inductive SpellsItem (q : Byte) : PyItem → Bytes → Prop
  | raw {b : Byte} (hq : b ≠ q) (hslash : b ≠ byte '\\') : SpellsItem q (.raw b) [b]
  | letter {e b : Byte} (h : unescape e = some b) : SpellsItem q (.escaped b) [byte '\\', e]
  | hex {h l b : Byte} (hb : hexByte h l = some b) :
      SpellsItem q (.escaped b) [byte '\\', byte 'x', h, l]

/-- How the items of a string are written. -/
inductive SpellsItems (q : Byte) : List PyItem → Bytes → Prop
  | nil : SpellsItems q [] []
  | cons {item : PyItem} {items : List PyItem} {t u : Bytes} (h : SpellsItem q item t)
      (hs : SpellsItems q items u) : SpellsItems q (item :: items) (t ++ u)

/-- The items of a string up to its closing quote, and what follows the quote. -/
def readBody (q : Byte) : Bytes → Option (List PyItem × Bytes)
  | [] => none
  | c :: s =>
    if c = q then some ([], s)
    else if c = byte '\\' then
      match s with
      | [] => none
      | e :: s =>
        if e = byte 'x' then
          match s with
          | h :: l :: s => do
            let b ← hexByte h l
            let (items, s) ← readBody q s
            some (.escaped b :: items, s)
          | _ => none
        else do
          let b ← unescape e
          let (items, s) ← readBody q s
          some (.escaped b :: items, s)
    else do
      let (items, s) ← readBody q s
      some (.raw c :: items, s)

/-- The parser keeps of the items their bytes. -/
theorem stringBody_eq (q : Byte) (s : Bytes) :
    stringBody q s = (readBody q s).map (Prod.map content id) := by
  fun_induction readBody q s with
  | case1 => rfl
  | case2 s =>
    unfold stringBody
    simp [content]
  | case3 hq =>
    unfold stringBody
    simp [hq]
  | case4 h l s hq ih =>
    unfold stringBody
    simp only [if_neg hq, if_true, ih]
    cases hexByte h l with
    | none => rfl
    | some b => cases readBody q s <;> rfl
  | case5 s hshort hq =>
    unfold stringBody
    simp only [if_neg hq, if_true]
    rfl
  | case6 e s he hq ih =>
    unfold stringBody
    simp only [if_neg hq, if_true, if_neg he, ih]
    cases unescape e with
    | none => rfl
    | some b => cases readBody q s <;> rfl
  | case7 c s hq hslash ih =>
    unfold stringBody
    simp only [if_neg hq, if_neg hslash, ih]
    cases readBody q s <;> rfl

theorem readBody_quote (q : Byte) (s : Bytes) : readBody q (q :: s) = some ([], s) := by
  unfold readBody
  exact if_pos rfl

/-- An item that is written out is read first. -/
theorem readBody_item {q : Byte} (hq : byte '\\' ≠ q) {item : PyItem} {t : Bytes}
    (h : SpellsItem q item t) (s : Bytes) :
    readBody q (t ++ s) = (readBody q s).map (Prod.map (item :: ·) id) := by
  cases h with
  | raw hraw hslash =>
    rw [List.singleton_append, readBody.eq_def]
    simp only [if_neg hraw, if_neg hslash]
    cases readBody q s <;> rfl
  | letter he =>
    rename_i e b
    have hx : e ≠ byte 'x' := by
      rintro rfl
      rw [show unescape (byte 'x') = none by decide] at he
      cases he
    rw [List.cons_append, List.singleton_append, readBody.eq_def]
    simp only [if_neg hq, if_true, if_neg hx, he]
    cases readBody q s <;> rfl
  | hex hb =>
    simp only [List.cons_append, List.nil_append]
    rw [readBody.eq_def]
    simp only [if_neg hq, if_true, hb]
    cases readBody q s <;> rfl

theorem readBody_append {q : Byte} (hq : byte '\\' ≠ q) {items : List PyItem} {t : Bytes}
    (h : SpellsItems q items t) (rest : Bytes) :
    readBody q (t ++ q :: rest) = some (items, rest) := by
  induction h with
  | nil => exact readBody_quote q rest
  | cons h hs ih => rw [List.append_assoc, readBody_item hq h, ih]; rfl

theorem eq_of_readBody {q : Byte} {s rest : Bytes} {items : List PyItem}
    (h : readBody q s = some (items, rest)) : ∃ t, s = t ++ q :: rest ∧ SpellsItems q items t := by
  fun_induction readBody q s generalizing items with
  | case1 => cases h
  | case2 s =>
    obtain ⟨rfl, rfl⟩ := Prod.mk.inj (Option.some.inj h)
    exact ⟨[], rfl, .nil⟩
  | case3 hq => cases h
  | case4 h' l s hq ih =>
    obtain ⟨b, hb, h⟩ := Option.bind_eq_some_iff.mp h
    obtain ⟨⟨more, s'⟩, hmore, h⟩ := Option.bind_eq_some_iff.mp h
    obtain ⟨rfl, rfl⟩ := Prod.mk.inj (Option.some.inj h)
    obtain ⟨t, rfl, ht⟩ := ih hmore
    exact ⟨_, rfl, .cons (.hex hb) ht⟩
  | case5 s hshort hq => cases h
  | case6 e s he hq ih =>
    obtain ⟨b, hb, h⟩ := Option.bind_eq_some_iff.mp h
    obtain ⟨⟨more, s'⟩, hmore, h⟩ := Option.bind_eq_some_iff.mp h
    obtain ⟨rfl, rfl⟩ := Prod.mk.inj (Option.some.inj h)
    obtain ⟨t, rfl, ht⟩ := ih hmore
    exact ⟨_, rfl, .cons (.letter hb) ht⟩
  | case7 c s hq hslash ih =>
    obtain ⟨⟨more, s'⟩, hmore, h⟩ := Option.bind_eq_some_iff.mp h
    obtain ⟨rfl, rfl⟩ := Prod.mk.inj (Option.some.inj h)
    obtain ⟨t, rfl, ht⟩ := ih hmore
    exact ⟨_, rfl, .cons (.raw hq hslash) ht⟩

/-- The item the canonical form writes for a byte. -/
def canonicalItem (b : Byte) : PyItem :=
  if b ∈ ascii ['\\', '"', '\n', '\t', '\r'] then .escaped b else .raw b

@[simp] theorem byte_canonicalItem (b : Byte) : (canonicalItem b).byte = b := by
  rw [canonicalItem]
  split_ifs <;> rfl

theorem spellsItem_escapeByte (b : Byte) :
    SpellsItem (byte '"') (canonicalItem b) (escapeByte b) := by
  rw [canonicalItem]
  split_ifs with hb
  · simp only [ascii, List.map_cons, List.map_nil, List.mem_cons, List.not_mem_nil, or_false] at hb
    rcases hb with rfl | rfl | rfl | rfl | rfl <;> exact .letter (by decide)
  · simp only [ascii, List.map_cons, List.map_nil, List.mem_cons, List.not_mem_nil, or_false,
      not_or] at hb
    simp only [escapeByte, if_neg hb.1, if_neg hb.2.1, if_neg hb.2.2.1, if_neg hb.2.2.2.1,
      if_neg hb.2.2.2.2]
    exact .raw hb.2.1 hb.1

/-- The canonical form of a content spells it between double quotes. -/
theorem spellsItems_canonical (bytes : Bytes) :
    SpellsItems (byte '"') (bytes.map canonicalItem) (escapePyString bytes) := by
  induction bytes with
  | nil => exact .nil
  | cons b bytes ih => exact .cons (spellsItem_escapeByte b) ih

/-! ### Keywords -/

inductive PyKeyword
  | true
  | false
  | none
  deriving DecidableEq

/-- A keyword as the canonical form writes it. -/
def PyKeyword.text : PyKeyword → Bytes
  | .true => ascii ['T', 'r', 'u', 'e']
  | .false => ascii ['F', 'a', 'l', 's', 'e']
  | .none => ascii ['N', 'o', 'n', 'e']

/-- The keyword a word in small letters is. -/
def PyKeyword.ofWord (word : Bytes) : Option PyKeyword :=
  if word = ascii ['t', 'r', 'u', 'e'] then some .true
  else if word = ascii ['f', 'a', 'l', 's', 'e'] then some .false
  else if word = ascii ['n', 'o', 'n', 'e'] then some .none
  else Option.none

/-- A keyword is written in letters of either size. -/
def SpellsKeyword (k : PyKeyword) (t : Bytes) : Prop :=
  (∀ c ∈ t, isLetter c = true) ∧ PyKeyword.ofWord (t.map toLower) = some k

def readKeyword (s : Bytes) : Option (PyKeyword × Bytes) :=
  (PyKeyword.ofWord ((s.takeWhile isLetter).map toLower)).map (·, s.dropWhile isLetter)

theorem keywordOf_eq (word : Bytes) :
    keywordOf word = (PyKeyword.ofWord word).map PyKeyword.text := by
  unfold keywordOf PyKeyword.ofWord
  split_ifs <;> rfl

theorem parseKeyword_eq (s : Bytes) :
    parseKeyword s = (readKeyword s).map (Prod.map PyKeyword.text id) := by
  rw [parseKeyword, readKeyword, keywordOf_eq, Option.map_map, Option.map_map]
  rfl

theorem readKeyword_append {k : PyKeyword} {t rest : Bytes} (h : SpellsKeyword k t)
    (hrest : ∀ c ∈ rest.head?, isLetter c = false) : readKeyword (t ++ rest) = some (k, rest) := by
  have hnone : rest.takeWhile isLetter = [] ∧ rest.dropWhile isLetter = rest := by
    cases rest with
    | nil => exact ⟨rfl, rfl⟩
    | cons c rest =>
      have hc := hrest c rfl
      exact ⟨List.takeWhile_cons_of_neg (by simp [hc]), List.dropWhile_cons_of_neg (by simp [hc])⟩
  rw [readKeyword, List.takeWhile_append_of_pos h.1, List.dropWhile_append_of_pos h.1, hnone.1,
    hnone.2, List.append_nil, h.2]
  rfl

theorem eq_of_readKeyword {s rest : Bytes} {k : PyKeyword} (h : readKeyword s = some (k, rest)) :
    ∃ t, s = t ++ rest ∧ SpellsKeyword k t := by
  obtain ⟨word, hword, heq⟩ := Option.map_eq_some_iff.mp h
  obtain ⟨rfl, rfl⟩ := Prod.mk.inj heq
  exact ⟨s.takeWhile isLetter, (List.takeWhile_append_dropWhile).symm,
    fun _ hc => List.mem_takeWhile_imp hc, hword⟩

theorem spellsKeyword_text (k : PyKeyword) : SpellsKeyword k k.text := by
  cases k <;> exact ⟨by decide, by decide⟩

theorem SpellsKeyword.starts {k : PyKeyword} {t : Bytes} (h : SpellsKeyword k t) :
    t ≠ [] ∧ (∀ c ∈ t, isLetter c = true) := by
  refine ⟨?_, h.1⟩
  rintro rfl
  exact absurd h.2 (by cases k <;> decide)

/-- No keyword begins like a bytes literal. -/
theorem SpellsKeyword.head_ne {k : PyKeyword} {c : Byte} {t : Bytes}
    (h : SpellsKeyword k (c :: t)) : c ∉ ascii ['b', 'B'] := by
  have hlower : ∀ c ∈ ascii ['b', 'B'], toLower c = byte 'b' := by decide
  intro hc
  have hword := h.2
  rw [List.map_cons, hlower c hc] at hword
  unfold PyKeyword.ofWord at hword
  split_ifs at hword with htrue hfalse hnone
  · exact absurd (List.cons.inj htrue).1 (by decide)
  · exact absurd (List.cons.inj hfalse).1 (by decide)
  · exact absurd (List.cons.inj hnone).1 (by decide)

end HubScope
