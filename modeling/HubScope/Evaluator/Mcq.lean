import HubScope.Evaluator.Normalize
import HubScope.Lib.Regexp
import Mathlib.Data.List.Dedup

/-!
# Extraction of the option letter

A multiple-choice answer is scored by the letter it commits to. First the phrasing patterns run
over the normalised answer, and exactly one distinct letter over all their captures counts;
otherwise the last line of the raw answer does, if it is an option letter and at most one mark.

The phrase patterns look for a letter after "answer is", "option" and their Chinese
counterparts, and do not ask what follows it: in "the answer is apple" they capture the `a`. The
anchored patterns and the last line take only a letter that stands alone.

## Main definitions

* `phrasePatterns`, `anchoredPatterns`, `mcqPatterns` — the patterns
* `extractOptionLetter` — the extraction
* `StandsAlone` — a letter without a Latin letter or digit beside it

## Main results

* `standsAlone_of_lastLine` — what the last line yields stands alone
-/

set_option autoImplicit false

namespace HubScope

open Regexp Text

/-! ### Patterns -/

/-- `\s`. -/
def blank : Regexp Char := symbol (· ∈ ['\t', '\n', '\x0c', '\r', ' '])

/-- A letter in either case. Case folding sends the long s to `s` and the Kelvin sign to `k`. -/
def caseless (c : Char) : Regexp Char :=
  symbol fun x => x = c || x = c.toUpper || c = 's' && x = 'ſ' || c = 'k' && x = '\u212a'

/-- `[0-9A-Za-z_]`, what `\b` takes for a word. -/
def isWordChar (c : Char) : Bool := c.isAlphanum || c = '_'

/-- `\b`. -/
def wordBoundary : Regexp Char := look fun before after =>
  before.any isWordChar != after.any isWordChar

/-- `(?i)[A-D]`. -/
def isOptionAD (c : Char) : Bool := 'A' ≤ c && c ≤ 'D' || 'a' ≤ c && c ≤ 'd'

/-- `(?i)\(?([A-D])\)?`. -/
def optionLetter : List (Regexp Char) :=
  [opt (lit '('), group (symbol isOptionAD), opt (lit ')')]

/-- The patterns for a letter after a phrase: `\banswers?\s+is\s*:?\s*…`, `答案\s*(?:是|为|:|：)?\s*…`,
`\b(?:option|choice)\s*:?\s*…` and `选(?:择)?\s*…`, each before the option letter. -/
def phrasePatterns : List (Regexp Char) :=
  [cat ([wordBoundary, cat ("answer".toList.map caseless), opt (caseless 's'), plus blank,
      cat ("is".toList.map caseless), star blank, opt (lit ':'), star blank] ++ optionLetter),
    cat ([word "答案".toList, star blank, opt (symbol (· ∈ ['是', '为', ':', '：'])), star blank] ++
      optionLetter),
    cat ([wordBoundary, alt (cat ("option".toList.map caseless)) (cat ("choice".toList.map caseless)),
      star blank, opt (lit ':'), star blank] ++ optionLetter),
    cat ([lit '选', opt (lit '择'), star blank] ++ optionLetter)]

/-- The marks the anchored patterns allow after a letter. -/
def isMark (c : Char) : Bool := c ∈ ['.', '。', '、', ',', '，', ':', '：']

/-- The whole answer is a letter, `^…\s*[.。、,，:：]?\s*$`, or it leads with one,
`^…\s*[.。、,，:：]\s*\S`. -/
def anchoredPatterns : List (Regexp Char) :=
  [cat ([bol] ++ optionLetter ++ [star blank, opt (symbol isMark), star blank, eol]),
    cat ([bol] ++ optionLetter ++ [star blank, symbol isMark, star blank,
      symbol (· ∉ ['\t', '\n', '\x0c', '\r', ' '])])]

def mcqPatterns : List (Regexp Char) := phrasePatterns ++ anchoredPatterns

/-- `(?im)^\s*\(?([A-Za-z])\s*[\).、:]`. -/
def mcqOptionMarkerRe : Regexp Char :=
  cat [look fun before _ => before.all (· = '\n'), star blank, opt (lit '('),
    group (symbol fun c => c.isAlpha || c = 'ſ' || c = '\u212a'), star blank,
    symbol (· ∈ [')', '.', '、', ':'])]

/-- `^([A-Za-z])[.。]?$`. -/
def mcqLastLineRe : Regexp Char :=
  cat [bol, group (symbol Char.isAlpha), opt (symbol (· ∈ ['.', '。'])), eol]

/-! ### Extraction -/

/-- Upper case, as far as the letters A to Z see it: besides the small letters only the dotless i
and the long s have one of them as their upper case. -/
def toUpper (c : Char) : Char :=
  if c = 'ı' then 'I' else if c = 'ſ' then 'S' else c.toUpper

/-- What the group captured in every match of a pattern. -/
def submatches (re : Regexp Char) (s : List Char) : List (List Char) :=
  (re.findAll s).filterMap (·.2.captured)

/-- The capture as an option letter from A to D. -/
def consider (raw : List Char) : Option Char :=
  match raw.map toUpper with
  | [up] => if 'A' ≤ up ∧ up ≤ 'D' then some up else none
  | _ => none

/-- The letters patterns capture in a text. -/
def lettersOf (patterns : List (Regexp Char)) (s : List Char) : List Char :=
  patterns.flatMap fun re => (submatches re s).filterMap consider

/-- The candidate letters: the expected one and those the prompt marks, or all of A to D if these
are not several. -/
def mcqOptionSet (F : Nfkc) (prompt expected : List Char) : List Char :=
  let isLetter : Char → Bool := fun c => 'A' ≤ c && c ≤ 'Z'
  let want := match (trimSpace expected).map toUpper with
    | [w] => if isLetter w then [w] else []
    | _ => []
  let marked := (submatches mcqOptionMarkerRe (F.fold prompt)).filterMap fun raw =>
    match raw.map toUpper with
    | [up] => if isLetter up then some up else none
    | _ => none
  let set := (want ++ marked).dedup
  if set.length ≤ 1 then set ++ ['A', 'B', 'C', 'D'] else set

/-- The last line that is not blank, if it is one candidate letter and at most one mark. -/
def lastLineOptionLetter (F : Nfkc) (answer options : List Char) : Option Char :=
  match ((lines answer).reverse.map fun l => trimSpace (F.fold l)).find? (· ≠ []) with
  | none => none
  | some line =>
    match (mcqLastLineRe.find? line).bind (·.2.captured) with
    | some [c] => if toUpper c ∈ options then some (toUpper c) else none
    | _ => none

/-- The single option letter the answer commits to. -/
def extractOptionLetter (F : Nfkc) (prompt expected answer : List Char) : Option Char :=
  match (lettersOf mcqPatterns (normalizeV2 F answer)).dedup with
  | [letter] => some letter
  | _ => lastLineOptionLetter F answer (mcqOptionSet F prompt expected)

/-- A miss scores zero, and a miss is still a score. -/
def mcqVerdict (F : Nfkc) (prompt expected answer : List Char) : Option ℚ :=
  match extractOptionLetter F prompt expected answer with
  | none => some 0
  | some letter => if [letter] = (trimSpace expected).map toUpper then some 1 else some 0

/-! ### Standing alone -/

/-- Latin letters, those with diacritics and the full-width ones among them, and digits. -/
def isLatinOrDigit (c : Char) : Bool :=
  c.isAlphanum || c = 'ª' || c = 'º' || 'À' ≤ c && c ≤ '\u02af' && c ≠ '×' && c ≠ '÷' ||
    '\u1e00' ≤ c && c ≤ '\u1eff' || '\u2c60' ≤ c && c ≤ '\u2c7f' ||
    '\ua720' ≤ c && c ≤ '\ua7ff' || '\uab30' ≤ c && c ≤ '\uab6f' ||
    'Ａ' ≤ c && c ≤ 'Ｚ' || 'ａ' ≤ c && c ≤ 'ｚ'

/-- The letter, in either case, has a place in the text without a Latin letter or digit directly
before or after it. -/
def StandsAlone (letter : Char) (s : List Char) : Prop :=
  ∃ before c after, s = before ++ c :: after ∧ c.toUpper = letter ∧
    (∀ x ∈ before.getLast?, isLatinOrDigit x = false) ∧
    ∀ x ∈ after.head?, isLatinOrDigit x = false

theorem standsAlone_iff {letter : Char} {s : List Char} : StandsAlone letter s ↔
    ∃ n < s.length, s[n]?.map Char.toUpper = some letter ∧
      (s.take n).getLast?.all (!isLatinOrDigit ·) = true ∧
      (s.drop (n + 1)).head?.all (!isLatinOrDigit ·) = true := by
  simp only [Option.all_eq_true, Bool.not_eq_true']
  constructor
  · rintro ⟨before, c, after, rfl, rfl, hbefore, hafter⟩
    refine ⟨before.length, by simp, by simp, by simpa using hbefore, ?_⟩
    rw [← List.drop_drop, List.drop_left]
    simpa using hafter
  · rintro ⟨n, hn, hletter, hbefore, hafter⟩
    rw [List.getElem?_eq_getElem hn] at hletter
    refine ⟨s.take n, s[n], s.drop (n + 1), ?_, Option.some.inj hletter, hbefore, hafter⟩
    rw [← List.drop_eq_getElem_cons hn, List.take_append_drop]

instance (letter : Char) (s : List Char) : Decidable (StandsAlone letter s) :=
  decidable_of_iff _ standsAlone_iff.symm

/-- One distinct letter: it is captured, and no other one is. -/
theorem dedup_lettersOf {patterns : List (Regexp Char)} {s : List Char} {letter : Char} :
    (lettersOf patterns s).dedup = [letter] ↔
      letter ∈ lettersOf patterns s ∧ ∀ other ∈ lettersOf patterns s, other = letter := by
  constructor
  · intro h
    have hmem : ∀ x, x ∈ lettersOf patterns s ↔ x = letter := fun x => by
      rw [← List.mem_dedup, h, List.mem_singleton]
    exact ⟨(hmem letter).mpr rfl, fun other hother => (hmem other).mp hother⟩
  · rintro ⟨hletter, hall⟩
    have hperm : (lettersOf patterns s).dedup.Perm [letter] := by
      rw [List.perm_ext_iff_of_nodup (List.nodup_dedup _) (List.nodup_singleton _)]
      intro x
      rw [List.mem_dedup, List.mem_singleton]
      exact ⟨hall x, fun hx => hx ▸ hletter⟩
    exact List.perm_singleton.mp hperm

/-- No Latin letter or digit is next. -/
def Clear (s : List Char) : Prop := ∀ x ∈ s.head?, isLatinOrDigit x = false

theorem clear_cons {x : Char} (hx : isLatinOrDigit x = false) (s : List Char) :
    Clear (x :: s) := by
  simpa [Clear] using hx

theorem clear_nil : Clear [] := by simp [Clear]

/-! ### The last line -/

/-- A line of one letter and at most one mark. -/
theorem lastLine_spec {line : List Char} {c : Char}
    (h : (mcqLastLineRe.find? line).bind (·.2.captured) = some [c]) :
    c.isAlpha = true ∧ ∃ mark, line = c :: mark ∧ (mark = [] ∨ mark = ['.'] ∨ mark = ['。']) := by
  obtain ⟨⟨b, d⟩, hfind, hcaptured⟩ := Option.bind_eq_some_iff.mp h
  obtain ⟨hd, hline⟩ := mem_ends_of_find hfind
  simp only [mcqLastLineRe, mem_ends_cat_cons, mem_ends_cat_nil, mem_ends_bol, mem_ends_eol] at hd
  obtain ⟨m₁, ⟨hstart, rfl⟩, m₂, h₂, m₃, h₃, m₄, ⟨hend, rfl⟩, rfl⟩ := hd
  obtain ⟨x, hx, hahead, hgroup⟩ := captured_of_group_symbol h₂
  have hmark : hasGroup (opt (symbol (· ∈ ['.', '。']))) = false := rfl
  rw [captured_of_mem_ends hmark h₃, hgroup] at hcaptured
  obtain rfl : x = c := by simpa using hcaptured
  refine ⟨hx, m₂.ahead, ?_, ?_⟩
  · rw [hline, hstart, hahead]
    rfl
  · rcases mem_ends_opt.mp h₃ with h₃ | rfl
    · obtain ⟨y, hy, hrest⟩ := ahead_of_symbol h₃
      rw [hrest, hend]
      right
      simpa using hy
    · exact Or.inl hend

/-- The last line that is not blank, with the blank ones after it. -/
theorem exists_of_find_lines {F : Nfkc} {s line : List Char}
    (h : ((lines s).reverse.map fun l => trimSpace (F.fold l)).find? (· ≠ []) = some line) :
    ∃ before m after, lines s = before ++ m :: after ∧ trimSpace (F.fold m) = line ∧
      ∀ l ∈ after, trimSpace (F.fold l) = [] := by
  obtain ⟨-, as, bs, hmap, hblank⟩ := List.find?_eq_some_iff_append.mp h
  obtain ⟨before, rest, hrev, has, hbs⟩ := List.map_eq_append_iff.mp hmap
  obtain ⟨m, tail, rfl, hm, -⟩ := List.map_eq_cons_iff.mp hbs
  refine ⟨tail.reverse, m, before.reverse, ?_, hm, fun l hl => ?_⟩
  · rw [← List.reverse_reverse (lines s), hrev]
    simp
  · have hmem : trimSpace (F.fold l) ∈ as := by
      rw [← has]
      exact List.mem_map.mpr ⟨l, List.mem_reverse.mp hl, rfl⟩
    simpa using hblank _ hmem

theorem le_of_isAlpha {c : Char} (hc : c.isAlpha = true) : 'A' ≤ c ∧ c ≤ 'z' := by
  have hcases : c.isUpper = true ∨ c.isLower = true := Bool.or_eq_true_iff.mp hc
  rcases hcases with hupper | hlower
  · obtain ⟨hlo, hhi⟩ := of_decide_eq_true hupper
    exact ⟨hlo, le_trans hhi (by decide : ('Z' : Char) ≤ 'z')⟩
  · obtain ⟨hlo, hhi⟩ := Bool.and_eq_true_iff.mp hlower
    exact ⟨le_trans (by decide : ('A' : Char) ≤ 'a') (of_decide_eq_true hlo), of_decide_eq_true hhi⟩

theorem isSpace_of_isAlpha {c : Char} (hc : c.isAlpha = true) : isSpace c = false :=
  isSpace_eq_false_of_visible (le_trans (by decide) (le_of_isAlpha hc).1)
    (le_trans (le_of_isAlpha hc).2 (by decide))

theorem isClosingQuote_of_isAlpha {c : Char} (hc : c.isAlpha = true) :
    isClosingQuote c = false := by
  have hall : ∀ x ∈ ['"', '\'', '”', '’', '」', '』'], x.isAlpha = false :=
    forall_mem_of_all (by decide)
  refine decide_eq_false fun hmem => ?_
  rw [hall c hmem] at hc
  cases hc

theorem toUpper_of_isAlpha {c : Char} (hc : c.isAlpha = true) : toUpper c = c.toUpper := by
  have hle := (le_of_isAlpha hc).2
  rw [toUpper, if_neg, if_neg]
  · rintro rfl
    exact absurd hle (by decide)
  · rintro rfl
    exact absurd hle (by decide)

/-- **What the last line yields stands alone in the normalised answer.** -/
theorem standsAlone_of_lastLine {F : Nfkc} {answer options : List Char} {letter : Char}
    (h : lastLineOptionLetter F answer options = some letter) :
    StandsAlone letter (normalizeV2 F answer) := by
  unfold lastLineOptionLetter at h
  split at h
  · cases h
  · rename_i line hlast
    split at h
    · rename_i c hfind
      split_ifs at h
      obtain ⟨hc, mark, hline, hmark⟩ := lastLine_spec hfind
      obtain ⟨before, m, after, hlines, hm, hafter⟩ := exists_of_find_lines hlast
      have hw : ∀ x ∈ c :: mark, isSpace x = false :=
        List.forall_mem_cons.mpr ⟨isSpace_of_isAlpha hc, fun x hx => by
          rcases hmark with rfl | rfl | rfl
          · cases hx
          · exact List.mem_singleton.mp hx ▸ (by decide : isSpace '.' = false)
          · exact List.mem_singleton.mp hx ▸ (by decide : isSpace '。' = false)⟩
      -- the line ends in the letter or in a full stop, so no closing quote is trimmed off it
      have hquote : ∀ x ∈ (c :: mark).getLast?, isClosingQuote x = false := by
        rcases hmark with rfl | rfl | rfl
        · simpa using isClosingQuote_of_isAlpha hc
        · simp [isClosingQuote]
        · simp [isClosingQuote]
      have hclear : Clear mark := by
        rcases hmark with rfl | rfl | rfl
        · exact clear_nil
        · exact clear_cons (by decide) _
        · exact clear_cons (by decide) _
      have hupper : c.toUpper = letter := by
        rw [← Option.some.inj h]
        exact (toUpper_of_isAlpha hc).symm
      -- the last line is the whole normalised text, or a blank stands before it
      rcases normalizeV2_of_lastLine hlines hafter (hm.trans hline) (List.cons_ne_nil _ _) hw hquote
        with hs | ⟨a, hs⟩
      · exact ⟨[], c, mark, hs, hupper, by simp, hclear⟩
      · refine ⟨a ++ [' '], c, mark, by simp [hs], hupper, ?_, hclear⟩
        rw [List.getLast?_concat]
        rintro x ⟨⟩
        decide
    · cases h

end HubScope
