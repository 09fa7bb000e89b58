import HubScope.Evaluator.Mcq
import HubScope.Lib.RegularLanguage

/-!
# The option letters a text offers

What the patterns of the option letter capture is told from the text alone. A reader goes through
it from the left and looks for a phrase: its words, what may stand between them and the letter,
and the letter; behind the letter he goes on. What follows the letter he does not look at, so the
letter he reads may be the first one of a word. Besides, a text may be headed by an option letter.

Where the letter of a phrase is joined to a word it does no harm if the same letter stands alone
somewhere else, or if the text offers another one, so that the patterns yield none.

## Main definitions

* `Phrase`, `phrases` — the phrases an option letter may follow
* `Phrase.Mention`, `Phrase.Reads` — a phrase with its letter, and those a reader comes to
* `Heads` — the text is headed by an option letter
* `JoinedLettersContested` — the condition on what stands beside the letter of a phrase

## Main results

* `Phrase.Distinct.captures_iff_reads`, `mem_submatches_anchored_iff` — what the patterns capture
* `extractOptionLetter_standsAlone_iff` — an extracted letter stands alone exactly if each letter
  of a phrase that is joined to a word does so elsewhere or is contested
-/

set_option autoImplicit false

namespace HubScope

open Regexp Text

/-! ### Phrases -/

/-- A phrase that an option letter may follow: whether it starts at the boundary of a word, its
words, and what may stand between them and the letter. -/
structure Phrase where
  atWord : Bool
  words : List (Regexp Char)
  gap : List (Regexp Char)

/-- The phrase up to the letter, with the parenthesis that may open before it. -/
def Phrase.lead (p : Phrase) : List (Regexp Char) := p.words ++ p.gap ++ [opt (lit '(')]

/-- `answers?\s+is\s*:?\s*`, `答案\s*(?:是|为|:|：)?\s*`, `\b(?:option|choice)\s*:?\s*` and
`选(?:择)?\s*`. -/
def phrases : List Phrase :=
  [⟨true, [cat ("answer".toList.map caseless), opt (caseless 's'), plus blank,
      cat ("is".toList.map caseless)], [star blank, opt (lit ':'), star blank]⟩,
    ⟨false, [word "答案".toList], [star blank, opt (symbol (· ∈ ['是', '为', ':', '：'])), star blank]⟩,
    ⟨true, [alt (cat ("option".toList.map caseless)) (cat ("choice".toList.map caseless))],
      [star blank, opt (lit ':'), star blank]⟩,
    ⟨false, [lit '选'], [opt (lit '择'), star blank]⟩]

/-- The phrase and the letter it leads to. -/
def Phrase.pattern (p : Phrase) : Regexp Char :=
  cat ((if p.atWord then [wordBoundary] else []) ++
    (p.lead ++ [group (symbol isOptionAD), opt (lit ')')]))

theorem phrasePatterns_eq : phrasePatterns = phrases.map Phrase.pattern := rfl

/-- Ahead in a text the phrase stands, and after it an option letter. -/
structure Phrase.Mention (p : Phrase) (before ahead lead : List Char) (x : Char)
    (after : List Char) : Prop where
  split : ahead = lead ++ x :: after
  boundary : p.atWord = true →
    before.getLast?.any isWordChar ≠ ahead.head?.any isWordChar
  lead : lead ∈ (cat p.lead).language
  letter : isOptionAD x = true

/-- Going on from a place in the text, a reader comes to the letter `x` of a phrase, with the text
`front` before it and the text `after` behind it. He reads every phrase he finds and goes on
behind its letter. -/
inductive Phrase.Reads (p : Phrase) (front : List Char) (x : Char) (after : List Char) :
    List Char → List Char → Prop
  | here {before ahead lead : List Char} :
    p.Mention before ahead lead x after → front = before ++ lead →
      Reads p front x after before ahead
  | next {before ahead rest : List Char} {y : Char} : ahead = y :: rest →
    (∀ lead z tail, ¬ p.Mention before ahead lead z tail) →
      Reads p front x after (before ++ [y]) rest → Reads p front x after before ahead
  | behind {before ahead lead rest : List Char} {y : Char} :
    p.Mention before ahead lead y rest →
      Reads p front x after (before ++ (lead ++ [y])) rest → Reads p front x after before ahead

/-- A letter that is read is a letter of the text. -/
theorem Phrase.Reads.split {p : Phrase} {front after before ahead : List Char} {x : Char}
    (h : p.Reads front x after before ahead) : before ++ ahead = front ++ x :: after := by
  induction h with
  | here hmention hfront => rw [hmention.split, hfront, List.append_assoc]
  | next hahead _ _ ih => rw [← ih, hahead, List.append_assoc, List.singleton_append]
  | behind hmention _ ih => rw [← ih, hmention.split]; simp

/-! ### One letter after a phrase -/

/-- What lets a phrase lead to one letter: of its words none goes on to another one, and between
them and the letter there is no option letter. -/
structure Phrase.Distinct (p : Phrase) : Prop where
  words : PrefixFree (cat p.words).language
  gap : ∀ x, isOptionAD x = true → symbols (cat (p.gap ++ [opt (lit '(')])) x = false
  lookFree : (cat p.lead).lookFree = true
  close : symbols (cat p.lead) ')' = false

variable {p : Phrase} {c d : Cursor Char} {before ahead lead lead' after after' : List Char}
  {x x' : Char}

theorem language_cat_append (rs ss : List (Regexp Char)) :
    (cat (rs ++ ss)).language = (cat rs).language * (cat ss).language := by
  induction rs with
  | nil => exact (one_mul _).symm
  | cons r rs ih => exact (congrArg (r.language * ·) ih).trans (mul_assoc _ _ _).symm

theorem Phrase.Distinct.prefixFree (h : p.Distinct) :
    PrefixFree ((cat p.lead).language * (symbol isOptionAD).language) := by
  rw [Phrase.lead, List.append_assoc, language_cat_append, mul_assoc]
  refine h.words.mul (PrefixFree.run_mul (p := fun x => !isOptionAD x) ?_ prefixFree_symbol ?_)
  · intro u hu x hx
    by_contra hletter
    have hgap := h.gap x (by simpa using hletter)
    rw [symbols_of_mem_language hu x hx] at hgap
    cases hgap
  · exact starts_symbol fun x hx => by simpa using hx

/-- A phrase leads to one letter. -/
theorem Phrase.Mention.unique (hp : p.Distinct) (h : p.Mention before ahead lead x after)
    (h' : p.Mention before ahead lead' x' after') : lead = lead' ∧ x = x' ∧ after = after' := by
  have hsplit := h.split.symm.trans h'.split
  have hword : lead ++ [x] = lead' ++ [x'] :=
    hp.prefixFree.eq (Language.append_mem_mul h.lead ⟨x, h.letter, rfl⟩)
      (Language.append_mem_mul h'.lead ⟨x', h'.letter, rfl⟩)
      (s := after) (t := after') (by simpa using hsplit)
  obtain ⟨rfl, hx⟩ := List.append_inj' hword rfl
  obtain rfl := List.singleton_inj.mp hx
  exact ⟨rfl, rfl, List.cons_inj_right _ |>.mp (List.append_cancel_left hsplit)⟩

/-- No phrase begins with a closing parenthesis. -/
theorem Phrase.Mention.head_ne (hp : p.Distinct) (h : p.Mention before ahead lead x after) :
    ahead.head? ≠ some ')' := by
  intro hhead
  rw [h.split] at hhead
  cases lead with
  | nil =>
    have hletter := h.letter
    obtain rfl : x = ')' := Option.some.inj hhead
    revert hletter
    decide
  | cons y lead =>
    have hy := symbols_of_mem_language h.lead y List.mem_cons_self
    rw [Option.some.inj hhead, hp.close] at hy
    cases hy

/-- A closing parenthesis behind a letter is passed over. -/
theorem Phrase.reads_close_iff (hp : p.Distinct) {front : List Char} :
    p.Reads front x after before (')' :: ahead) ↔
      p.Reads front x after (before ++ [')']) ahead := by
  constructor
  · rintro (⟨hmention, -⟩ | ⟨hahead, -, h⟩ | ⟨hmention, -⟩)
    · exact absurd rfl (hmention.head_ne hp)
    · obtain ⟨rfl, rfl⟩ := List.cons.inj hahead
      exact h
    · exact absurd rfl (hmention.head_ne hp)
  · exact Phrase.Reads.next rfl fun lead z tail hmention => hmention.head_ne hp rfl

/-! ### The phrases are distinct -/

theorem mem_of_isOptionAD (hx : isOptionAD x = true) :
    x ∈ ['A', 'B', 'C', 'D', 'a', 'b', 'c', 'd'] := by
  simp only [isOptionAD, Bool.or_eq_true, Bool.and_eq_true, decide_eq_true_eq, Char.le_def,
    UInt32.le_iff_toNat_le] at hx
  have hval : x = Char.ofNat x.toNat := (Char.ofNat_toNat x).symm
  have hnat : x.toNat ∈ [65, 66, 67, 68, 97, 98, 99, 100] := by
    have hcases : (65 ≤ x.toNat ∧ x.toNat ≤ 68) ∨ (97 ≤ x.toNat ∧ x.toNat ≤ 100) := hx
    simp only [List.mem_cons, List.not_mem_nil, or_false]
    omega
  rw [hval]
  exact List.mem_map.mpr ⟨x.toNat, hnat, rfl⟩

theorem prefixFree_caseless (w : List Char) : PrefixFree (cat (w.map caseless)).language :=
  prefixFree_cat fun r hr => by
    obtain ⟨x, -, rfl⟩ := List.mem_map.mp hr
    exact prefixFree_symbol

/-- There are eight option letters. -/
theorem forall_isOptionAD {P : Char → Prop} [DecidablePred P]
    (h : ['A', 'B', 'C', 'D', 'a', 'b', 'c', 'd'].all (fun c => decide (P c)) = true) :
    ∀ x, isOptionAD x = true → P x :=
  fun x hx => forall_mem_of_all h x (mem_of_isOptionAD hx)

/-- `answers?\s+is` is no beginning of another text of the form. -/
theorem prefixFree_answer : PrefixFree (cat [cat ("answer".toList.map caseless),
    opt (caseless 's'), plus blank, cat ("is".toList.map caseless)]).language := by
  have hblank : ∀ x, symbols (star blank) x = true → symbols (opt (caseless 's')) x = false := by
    intro x hx
    refine forall_mem_of_all (s := ['\t', '\n', '\x0c', '\r', ' '])
      (p := fun x => symbols (opt (caseless 's')) x = false) (by decide) x ?_
    simpa [symbols, blank] using hx
  have hi : ∀ x, symbols (caseless 'i') x = true → symbols (star blank) x = false := by
    intro x hx
    refine forall_mem_of_all (s := ['i', 'I'])
      (p := fun x => symbols (star blank) x = false) (by decide) x ?_
    simpa [symbols, caseless] using hx
  have his : PrefixFree ((star blank).language * (cat [cat ("is".toList.map caseless)]).language) :=
    PrefixFree.run_mul (fun _ => symbols_of_mem_language)
      ((prefixFree_caseless _).mul prefixFree_one)
      ((starts_symbol fun x hx => by rw [hi x hx]; rfl).mul).mul
  refine (prefixFree_caseless _).mul (PrefixFree.run_mul (fun _ => symbols_of_mem_language) ?_ ?_)
  · have hassoc : (cat [plus blank, cat ("is".toList.map caseless)]).language =
        blank.language *
          ((star blank).language * (cat [cat ("is".toList.map caseless)]).language) :=
      mul_assoc _ _ _
    rw [hassoc]
    exact prefixFree_symbol.mul his
  · exact ((starts_symbol fun x hx => by rw [hblank x hx]; rfl).mul).mul

/-- `option|choice`. -/
theorem prefixFree_option : PrefixFree (cat [alt (cat ("option".toList.map caseless))
    (cat ("choice".toList.map caseless))]).language := by
  have hc : ∀ x, symbols (caseless 'c') x = true → symbols (caseless 'o') x = false := by
    intro x hx
    refine forall_mem_of_all (s := ['c', 'C'])
      (p := fun x => symbols (caseless 'o') x = false) (by decide) x ?_
    simpa [symbols, caseless] using hx
  refine PrefixFree.mul (PrefixFree.add (prefixFree_caseless _) (prefixFree_caseless _)
    (p := symbols (caseless 'o')) ?_ ?_) prefixFree_one
  · exact (starts_symbol fun x hx => hx).mul
  · exact (starts_symbol fun x hx => by rw [hc x hx]; rfl).mul

theorem prefixFree_word (w : List Char) : PrefixFree (word w).language := by
  intro u hu v hv _
  rw [mem_language_word.mp hu, mem_language_word.mp hv]

theorem distinct_of_mem_phrases (hp : p ∈ phrases) : p.Distinct := by
  rw [phrases] at hp
  simp only [List.mem_cons, List.not_mem_nil, or_false] at hp
  rcases hp with rfl | rfl | rfl | rfl
  · exact ⟨prefixFree_answer, forall_isOptionAD (by decide), rfl, rfl⟩
  · exact ⟨(prefixFree_word _).mul prefixFree_one, forall_isOptionAD (by decide), rfl, rfl⟩
  · exact ⟨prefixFree_option, forall_isOptionAD (by decide), rfl, rfl⟩
  · exact ⟨prefixFree_symbol.mul prefixFree_one, forall_isOptionAD (by decide), rfl, rfl⟩

/-! ### What a phrase pattern captures -/

theorem mem_ends_boundary : d ∈ ends (cat (if p.atWord then [wordBoundary] else [])) c ↔
    (p.atWord = true → c.behind.reverse.getLast?.any isWordChar ≠ c.ahead.head?.any isWordChar) ∧
      d = c := by
  rw [List.getLast?_reverse]
  cases p.atWord <;> simp [wordBoundary]

/-- A match of the pattern takes the phrase, captures the letter and perhaps takes a closing
parenthesis. -/
theorem Phrase.Distinct.mention_of_mem_ends (hp : p.Distinct) (hd : d ∈ ends p.pattern c) :
    ∃ lead x after, p.Mention c.behind.reverse c.ahead lead x after ∧ d.captured = some [x] ∧
      ∃ close, (close = [] ∨ close = [')']) ∧ after = close ++ d.ahead ∧
        d.behind.reverse = c.behind.reverse ++ (lead ++ [x]) ++ close := by
  have hleads := leads_of_mem_ends hd
  obtain ⟨m, hm, hphrase⟩ := mem_ends_cat_append.mp hd
  obtain ⟨hboundary, rfl⟩ := mem_ends_boundary.mp hm
  obtain ⟨m₁, h₁, hletter⟩ := mem_ends_cat_append.mp hphrase
  simp only [mem_ends_cat_cons, mem_ends_cat_nil] at hletter
  obtain ⟨m₂, h₂, m₃, h₃, rfl⟩ := hletter
  obtain ⟨lead, hlead, hahead⟩ := (exists_mem_ends_iff hp.lookFree m m₁.ahead).mp ⟨m₁, h₁, rfl⟩
  obtain ⟨x, hx, hletter, hcaptured⟩ := captured_of_group_symbol h₂
  rw [hletter] at hahead
  have hclose : hasGroup (opt (lit ')')) = false := rfl
  refine ⟨lead, x, m₂.ahead, ⟨hahead, hboundary, hlead, hx⟩, ?_, ?_⟩
  · rw [captured_of_mem_ends hclose h₃, hcaptured]
  · obtain ⟨close, hclosing, hafter⟩ : ∃ close, (close = [] ∨ close = [')']) ∧
        m₂.ahead = close ++ d.ahead := by
      rcases mem_ends_opt.mp h₃ with h₃ | rfl
      · exact ⟨[')'], Or.inr rfl, ahead_of_lit h₃⟩
      · exact ⟨[], Or.inl rfl, rfl⟩
    refine ⟨close, hclosing, hafter, ?_⟩
    obtain ⟨taken, htaken, hbehind⟩ := hleads
    have hlong : taken = lead ++ x :: close := by
      rw [hahead, hafter] at htaken
      exact (List.append_cancel_right (by simpa using htaken)).symm
    rw [hbehind, hlong]
    simp

/-- Where a phrase leads to a letter the pattern matches. -/
theorem Phrase.Distinct.exists_match (hp : p.Distinct)
    (h : p.Mention c.behind.reverse c.ahead lead x after) : ∃ d, match? p.pattern c = some d := by
  obtain ⟨m, hm, hahead⟩ := (exists_mem_ends_iff hp.lookFree c (x :: after)).mpr
    ⟨lead, h.lead, h.split⟩
  have hletter : m.skip 1 ∈ ends (symbol isOptionAD) m :=
    mem_ends_symbol.mpr ⟨x, after, hahead, h.letter, rfl⟩
  have hend : ∃ d, d ∈ ends p.pattern c := by
    refine ⟨_, mem_ends_cat_append.mpr ⟨c, mem_ends_boundary.mpr ⟨h.boundary, rfl⟩,
      mem_ends_cat_append.mpr ⟨m, hm, mem_ends_cat_cons.mpr
        ⟨_, mem_ends_group.mpr ⟨_, hletter, rfl⟩, mem_ends_cat_cons.mpr
          ⟨_, mem_ends_opt.mpr (Or.inr rfl), mem_ends_cat_nil.mpr rfl⟩⟩⟩⟩⟩
  exact Option.isSome_iff_exists.mp (isSome_match_iff.mpr hend)

/-- **A phrase pattern captures the letters a reader comes to.** -/
theorem Phrase.Distinct.captures_iff_reads (hp : p.Distinct) (x : Char) (fuel : ℕ) (c : Cursor Char)
    (hfuel : c.ahead.length < fuel) :
    (∃ m ∈ findAllFrom p.pattern fuel c, m.2.captured = some [x]) ↔
      ∃ front after, p.Reads front x after c.behind.reverse c.ahead := by
  -- each round of the search leaves a shorter text
  induction hlen : c.ahead.length using Nat.strong_induction_on generalizing c fuel with
  | _ n ih =>
  obtain ⟨fuel, rfl⟩ := Nat.exists_eq_add_one_of_ne_zero (Nat.ne_zero_of_lt hfuel)
  cases hmatch : match? p.pattern c with
  | some d =>
    obtain ⟨lead, y, after, hmention, hcaptured, close, hclose, hafter, hbehind⟩ :=
      hp.mention_of_mem_ends (List.mem_of_head? hmatch)
    have hshort : d.ahead.length < c.ahead.length := by
      rw [hmention.split, hafter]
      simp
      omega
    have hrest := ih _ (hlen ▸ hshort) fuel { d with captured := none } (by simp; omega) rfl
    -- reading goes on behind the letter or behind the parenthesis
    have hgoes : ∀ front after', p.Reads front x after' d.behind.reverse d.ahead ↔
        p.Reads front x after' (c.behind.reverse ++ (lead ++ [y])) after := by
      intro front after'
      rw [hbehind, hafter]
      rcases hclose with rfl | rfl
      · simp
      · exact (Phrase.reads_close_iff hp).symm
    simp only at hrest
    rw [findAllFrom_of_match hmatch]
    simp only [List.mem_cons, exists_eq_or_imp, hrest, hcaptured, hgoes]
    constructor
    · rintro (hx | ⟨front, after', h⟩)
      · obtain rfl := List.singleton_inj.mp (Option.some.inj hx)
        exact ⟨_, _, Phrase.Reads.here hmention rfl⟩
      · exact ⟨front, after', Phrase.Reads.behind hmention h⟩
    · rintro ⟨front, after', h⟩
      cases h with
      | here hfound =>
        obtain ⟨-, rfl, -⟩ := hmention.unique hp hfound
        exact Or.inl rfl
      | next _ hnone => exact absurd hmention (hnone _ _ _)
      | behind hfound h =>
        obtain ⟨rfl, rfl, rfl⟩ := hmention.unique hp hfound
        exact Or.inr ⟨front, after', h⟩
  | none =>
    have hnone : ∀ lead z rest, ¬ p.Mention c.behind.reverse c.ahead lead z rest := by
      intro lead z rest hmention
      obtain ⟨d, hd⟩ := hp.exists_match hmention
      rw [hmatch] at hd
      cases hd
    -- no phrase begins here
    have hnext : ∀ front after, p.Reads front x after c.behind.reverse c.ahead ↔
        ∃ y rest, c.ahead = y :: rest ∧
          p.Reads front x after (c.behind.reverse ++ [y]) rest := by
      intro front after
      constructor
      · rintro (⟨hmention, -⟩ | ⟨hahead, -, h⟩ | ⟨hmention, -⟩)
        · exact absurd hmention (hnone _ _ _)
        · exact ⟨_, _, hahead, h⟩
        · exact absurd hmention (hnone _ _ _)
      · rintro ⟨y, rest, hahead, h⟩
        exact Phrase.Reads.next hahead hnone h
    simp only [hnext]
    cases hahead : c.ahead with
    | nil =>
      rw [findAllFrom_of_nil hmatch hahead]
      simp
    | cons y rest =>
      have hskip : (c.skip 1).ahead = rest := by rw [ahead_skip, hahead]; rfl
      have hbehind : (c.skip 1).behind.reverse = c.behind.reverse ++ [y] := by
        simp [Cursor.skip, hahead]
      rw [hahead, List.length_cons] at hlen hfuel
      have hrest := ih rest.length (by omega) (fuel + 1) (c.skip 1) (by rw [hskip]; omega)
        (by rw [hskip])
      rw [hskip, hbehind] at hrest
      rw [findAllFrom_of_none hmatch hahead, hrest]
      simp

theorem Phrase.Distinct.mem_submatches_iff (hp : p.Distinct) (s : List Char) (x : Char) :
    [x] ∈ submatches p.pattern s ↔ ∃ front after, p.Reads front x after [] s := by
  refine Iff.trans ?_ (hp.captures_iff_reads x (s.length + 1) (.start s) (Nat.lt_succ_self _))
  rw [submatches, List.mem_filterMap, findAll]

/-! ### The letter that heads a text -/

/-- What `\s` takes. -/
def isBlank (c : Char) : Bool := c ∈ ['\t', '\n', '\x0c', '\r', ' ']

/-- The text is an option letter, perhaps in parentheses, or goes on with a mark behind it. -/
def HeadedBy (s : List Char) (x : Char) : Prop :=
  isOptionAD x = true ∧ ∃ opening close gap rest, s = opening ++ x :: (close ++ (gap ++ rest)) ∧
    (opening = [] ∨ opening = ['(']) ∧ (close = [] ∨ close = [')']) ∧
    (∀ y ∈ gap, isBlank y = true) ∧ ∀ y ∈ rest.head?, isMark y = true

theorem HeadedBy.unique {s : List Char} (h : HeadedBy s x) (h' : HeadedBy s x') : x = x' := by
  obtain ⟨hx, opening, close, gap, rest, hs, hopening, -⟩ := h
  obtain ⟨hx', opening', close', gap', rest', hs', hopening', -⟩ := h'
  have hparen : isOptionAD '(' = false := by decide
  rw [hs] at hs'
  rcases hopening with rfl | rfl <;> rcases hopening' with rfl | rfl
  · exact (List.cons.inj hs').1
  · rw [(List.cons.inj hs').1, hparen] at hx
    cases hx
  · rw [← (List.cons.inj hs').1, hparen] at hx'
    cases hx'
  · exact (List.cons.inj (List.cons.inj hs').2).1

/-- The letter with its parentheses, then the rest of the pattern. -/
theorem optionLetter_spec {tail : List (Regexp Char)} (hgroup : hasGroup (cat tail) = false)
    (hd : d ∈ ends (cat (optionLetter ++ tail)) c) : ∃ x opening close, ∃ m : Cursor Char,
      isOptionAD x = true ∧ c.ahead = opening ++ x :: (close ++ m.ahead) ∧
        (opening = [] ∨ opening = ['(']) ∧ (close = [] ∨ close = [')']) ∧
        d ∈ ends (cat tail) m ∧ d.captured = some [x] := by
  simp only [optionLetter, List.cons_append, List.nil_append, mem_ends_cat_cons] at hd
  obtain ⟨m₁, h₁, m₂, h₂, m₃, h₃, hd⟩ := hd
  obtain ⟨x, hx, hletter, hcaptured⟩ := captured_of_group_symbol h₂
  have hclose : hasGroup (opt (lit ')')) = false := rfl
  obtain ⟨opening, hopening, hahead⟩ : ∃ opening, (opening = [] ∨ opening = ['(']) ∧
      c.ahead = opening ++ m₁.ahead := by
    rcases mem_ends_opt.mp h₁ with h₁ | rfl
    · exact ⟨['('], Or.inr rfl, ahead_of_lit h₁⟩
    · exact ⟨[], Or.inl rfl, rfl⟩
  obtain ⟨close, hclosing, hafter⟩ : ∃ close, (close = [] ∨ close = [')']) ∧
      m₂.ahead = close ++ m₃.ahead := by
    rcases mem_ends_opt.mp h₃ with h₃ | rfl
    · exact ⟨[')'], Or.inr rfl, ahead_of_lit h₃⟩
    · exact ⟨[], Or.inl rfl, rfl⟩
  refine ⟨x, opening, close, m₃, hx, ?_, hopening, hclosing, hd, ?_⟩
  · rw [hahead, hletter, hafter]
  · rw [captured_of_mem_ends hgroup hd, captured_of_mem_ends hclose h₃, hcaptured]

theorem blanks_of_mem_ends (hd : d ∈ ends (star blank) c) :
    ∃ gap, (∀ y ∈ gap, isBlank y = true) ∧ c.ahead = gap ++ d.ahead :=
  ahead_of_star_symbol hd

/-- An anchored pattern captures the letter that heads the text. -/
theorem headedBy_of_mem_ends {re : Regexp Char} (hre : re ∈ anchoredPatterns)
    (hd : d ∈ ends re c) : c.behind = [] ∧ ∃ x, HeadedBy c.ahead x ∧ d.captured = some [x] := by
  simp only [anchoredPatterns, List.mem_cons, List.not_mem_nil, or_false] at hre
  rcases hre with rfl | rfl
  · rw [List.append_assoc, List.singleton_append, mem_ends_cat_cons] at hd
    obtain ⟨m, hm, hd⟩ := hd
    obtain ⟨hstart, rfl⟩ := mem_ends_bol.mp hm
    obtain ⟨x, opening, close, m', hx, hahead, hopening, hclose, htail, hcaptured⟩ :=
      optionLetter_spec rfl hd
    simp only [mem_ends_cat_cons, mem_ends_cat_nil, mem_ends_eol] at htail
    obtain ⟨m₁, h₁, m₂, h₂, m₃, h₃, _, ⟨hend, rfl⟩, rfl⟩ := htail
    obtain ⟨gap, hgap, hblanks⟩ := blanks_of_mem_ends h₁
    obtain ⟨gap', hgap', hblanks'⟩ := blanks_of_mem_ends h₃
    refine ⟨hstart, x, ⟨hx, ?_⟩, hcaptured⟩
    rcases mem_ends_opt.mp h₂ with h₂ | rfl
    · obtain ⟨y, hy, hmark⟩ := ahead_of_symbol h₂
      exact ⟨opening, close, gap, _, hblanks ▸ hahead, hopening, hclose, hgap, by simp [hmark, hy]⟩
    -- no mark: the blanks before it and after it
    · refine ⟨opening, close, gap ++ gap', [], ?_, hopening, hclose, ?_, by simp⟩
      · rw [hahead, hblanks, hblanks', hend, List.append_nil, List.append_nil]
      · exact List.forall_mem_append.mpr ⟨hgap, hgap'⟩
  · rw [List.append_assoc, List.singleton_append, mem_ends_cat_cons] at hd
    obtain ⟨m, hm, hd⟩ := hd
    obtain ⟨hstart, rfl⟩ := mem_ends_bol.mp hm
    obtain ⟨x, opening, close, m', hx, hahead, hopening, hclose, htail, hcaptured⟩ :=
      optionLetter_spec rfl hd
    simp only [mem_ends_cat_cons, mem_ends_cat_nil] at htail
    obtain ⟨m₁, h₁, m₂, h₂, -⟩ := htail
    obtain ⟨gap, hgap, hblanks⟩ := blanks_of_mem_ends h₁
    obtain ⟨y, hy, hmark⟩ := ahead_of_symbol h₂
    exact ⟨hstart, x, ⟨hx, opening, close, gap, _, hblanks ▸ hahead, hopening, hclose, hgap,
      by simp [hmark, hy]⟩, hcaptured⟩

/-- An expression behind `^` matches at the start of a text that a word of it begins. -/
theorem exists_match_of_language (tail : List (Regexp Char)) (rest : List Char)
    {rs : List (Regexp Char)} {u s : List Char}
    (hr : (cat rs).lookFree = true) (hu : u ∈ (cat rs).language) (hs : s = u ++ rest)
    (htail : ∀ m : Cursor Char, m.ahead = rest → m ∈ ends (cat tail) m) :
    ∃ d, match? (cat (bol :: (rs ++ tail))) (.start s) = some d := by
  obtain ⟨m, hm, hahead⟩ := (exists_mem_ends_iff hr (.start s) rest).mpr ⟨u, hu, hs⟩
  have hend : m ∈ ends (cat (bol :: (rs ++ tail))) (.start s) :=
    mem_ends_cat_cons.mpr ⟨_, mem_ends_bol.mpr ⟨rfl, rfl⟩,
      mem_ends_cat_append.mpr ⟨m, hm, htail m hahead⟩⟩
  exact Option.isSome_iff_exists.mp (isSome_match_iff.mpr ⟨m, hend⟩)

/-- A headed text is matched by an anchored pattern. -/
theorem HeadedBy.exists_match {s : List Char} (h : HeadedBy s x) :
    ∃ re ∈ anchoredPatterns, ∃ d, match? re (.start s) = some d := by
  obtain ⟨hx, opening, close, gap, rest, hs, hopening, hclose, hgap, hrest⟩ := h
  have hopening : opening ∈ (opt (lit '(')).language := mem_language_opt.mpr
    (hopening.symm.imp_left mem_language_lit.mpr)
  have hclose : close ∈ (opt (lit ')')).language := mem_language_opt.mpr
    (hclose.symm.imp_left mem_language_lit.mpr)
  have hletter : [x] ∈ (group (symbol isOptionAD)).language := ⟨x, hx, rfl⟩
  have hgap : gap ∈ (star blank).language :=
    mem_language_star_symbol.mpr hgap
  -- what follows the blanks: a mark or nothing, blanks, and perhaps more text
  obtain ⟨gap', hgap', tail, htail, hsplit⟩ : ∃ gap' ∈ (star blank).language, ∃ tail,
      (∀ y ∈ tail.head?, isBlank y = false) ∧ rest.tail = gap' ++ tail := by
    refine ⟨rest.tail.takeWhile isBlank, ?_, rest.tail.dropWhile isBlank, ?_, ?_⟩
    · exact mem_language_star_symbol.mpr
        fun y (hy : y ∈ rest.tail.takeWhile isBlank) => List.mem_takeWhile_imp (p := isBlank) hy
    · intro y hy
      have hnot := List.head?_dropWhile_not isBlank rest.tail
      rwa [Option.mem_def.mp hy] at hnot
    · exact List.takeWhile_append_dropWhile.symm
  cases tail with
  | nil =>
    have hmark : rest.take 1 ∈ (opt (symbol isMark)).language := by
      cases rest with
      | nil => exact mem_language_opt.mpr (Or.inr rfl)
      | cons y rest => exact mem_language_opt.mpr (Or.inl ⟨y, hrest y rfl, rfl⟩)
    have hword : opening ++ ([x] ++ (close ++ (gap ++ (rest.take 1 ++ (gap' ++ []))))) ∈
        (cat (optionLetter ++ [star blank, opt (symbol isMark), star blank])).language :=
      Language.append_mem_mul hopening (Language.append_mem_mul hletter
        (Language.append_mem_mul hclose (Language.append_mem_mul hgap
          (Language.append_mem_mul hmark (Language.append_mem_mul hgap' rfl)))))
    refine ⟨_, List.mem_cons_self,
      exists_match_of_language [eol] [] rfl hword ?_ fun m hm => ?_⟩
    · rw [← hsplit, ← List.drop_one, List.take_append_drop, hs]
      simp
    · simpa using hm
  | cons y tail =>
    obtain ⟨mark, rest, rfl⟩ : ∃ mark rest', rest = mark :: rest' :=
      List.exists_cons_of_ne_nil fun hnil => by simp [hnil] at hsplit
    have hword : opening ++ ([x] ++ (close ++ (gap ++ ([mark] ++ (gap' ++ ([y] ++ [])))))) ∈
        (cat (optionLetter ++ [star blank, symbol isMark, star blank,
          symbol (· ∉ ['\t', '\n', '\x0c', '\r', ' '])])).language :=
      Language.append_mem_mul hopening (Language.append_mem_mul hletter
        (Language.append_mem_mul hclose (Language.append_mem_mul hgap
          (Language.append_mem_mul ⟨mark, hrest mark rfl, rfl⟩ (Language.append_mem_mul hgap'
            (Language.append_mem_mul ⟨y, by simpa [isBlank] using htail y rfl, rfl⟩ rfl))))))
    refine ⟨_, List.mem_cons_of_mem _ List.mem_cons_self,
      exists_match_of_language [] tail rfl hword ?_ fun m _ => ?_⟩
    · rw [hs, show rest = gap' ++ y :: tail from hsplit]
      simp
    · simp

/-- **An anchored pattern captures the letter that heads the text.** -/
theorem mem_submatches_anchored_iff (s : List Char) (x : Char) :
    (∃ re ∈ anchoredPatterns, [x] ∈ submatches re s) ↔ HeadedBy s x := by
  constructor
  · rintro ⟨re, hre, hraw⟩
    obtain ⟨⟨b, d⟩, hmatch, hcaptured⟩ := List.mem_filterMap.mp hraw
    obtain ⟨hd, hs, -⟩ := exists_of_mem_findAll hmatch
    obtain ⟨hstart, y, hy, hletter⟩ := headedBy_of_mem_ends hre hd
    obtain rfl : y = x := by simpa using hletter.symm.trans hcaptured
    rwa [hs, hstart]
  · intro h
    obtain ⟨re, hre, d, hd⟩ := h.exists_match
    obtain ⟨-, y, hy, hletter⟩ := headedBy_of_mem_ends hre (List.mem_of_head? hd)
    obtain rfl := hy.unique h
    refine ⟨re, hre, List.mem_filterMap.mpr ⟨(.start s, d), ?_, hletter⟩⟩
    rw [findAll, findAllFrom_of_match hd]
    exact List.mem_cons_self

/-! ### Letters offered -/

/-- After a phrase of the text, or at its head, stands the letter in either case. -/
def Offers (s : List Char) (letter : Char) : Prop :=
  ∃ x, x.toUpper = letter ∧
    ((∃ p ∈ phrases, ∃ front after, p.Reads front x after [] s) ∨ HeadedBy s x)

/-- A Latin letter or digit is directly before the letter or directly after it. -/
def Joined (front after : List Char) : Prop :=
  (∃ y ∈ front.getLast?, isLatinOrDigit y = true) ∨ ∃ y ∈ after.head?, isLatinOrDigit y = true

/-- Where a Latin letter or digit is directly beside the option letter after a phrase, that letter
stands alone somewhere else in the text, or the text offers a different one. -/
def JoinedLettersContested (s : List Char) : Prop :=
  ∀ p ∈ phrases, ∀ front x after, p.Reads front x after [] s → Joined front after →
    StandsAlone x.toUpper s ∨ ∃ other ≠ x.toUpper, Offers s other

theorem consider_of_isOptionAD (hx : isOptionAD x = true) : consider [x] = some x.toUpper :=
  forall_isOptionAD (P := fun x => consider [x] = some x.toUpper) (by decide) x hx

/-- All that is captured is an option letter. -/
theorem isOptionAD_of_mem_submatches {re : Regexp Char} (hre : re ∈ mcqPatterns)
    {s raw : List Char} (hraw : raw ∈ submatches re s) : ∃ x, isOptionAD x = true ∧ raw = [x] := by
  obtain ⟨⟨b, d⟩, hmatch, hcaptured⟩ := List.mem_filterMap.mp hraw
  obtain ⟨hd, -, -⟩ := exists_of_mem_findAll hmatch
  rcases List.mem_append.mp hre with hphrase | hanchored
  · rw [phrasePatterns_eq] at hphrase
    obtain ⟨p, hp, rfl⟩ := List.mem_map.mp hphrase
    obtain ⟨lead, x, after, hmention, hletter, -⟩ :=
      (distinct_of_mem_phrases hp).mention_of_mem_ends hd
    exact ⟨x, hmention.letter, Option.some.inj (hcaptured.symm.trans hletter)⟩
  · obtain ⟨-, x, hx, hletter⟩ := headedBy_of_mem_ends hanchored hd
    exact ⟨x, hx.1, Option.some.inj (hcaptured.symm.trans hletter)⟩

/-- **The letters the patterns capture are those the text offers.** -/
theorem mem_lettersOf_iff {s : List Char} {letter : Char} :
    letter ∈ lettersOf mcqPatterns s ↔ Offers s letter := by
  have hphrase : ∀ x, (∃ re ∈ phrasePatterns, [x] ∈ submatches re s) ↔
      ∃ p ∈ phrases, ∃ front after, p.Reads front x after [] s := by
    intro x
    simp only [phrasePatterns_eq, List.mem_map, exists_exists_and_eq_and]
    refine exists_congr fun p => and_congr_right fun hp => ?_
    exact (distinct_of_mem_phrases hp).mem_submatches_iff s x
  have hcapture : ∀ x, (∃ re ∈ mcqPatterns, [x] ∈ submatches re s) ↔
      (∃ p ∈ phrases, ∃ front after, p.Reads front x after [] s) ∨ HeadedBy s x := by
    intro x
    rw [← hphrase, ← mem_submatches_anchored_iff, mcqPatterns]
    simp only [List.mem_append, or_and_right, exists_or]
  constructor
  · intro hletter
    obtain ⟨re, hre, hletter⟩ := List.mem_flatMap.mp hletter
    obtain ⟨raw, hraw, hconsider⟩ := List.mem_filterMap.mp hletter
    obtain ⟨x, hx, rfl⟩ := isOptionAD_of_mem_submatches hre hraw
    rw [consider_of_isOptionAD hx] at hconsider
    exact ⟨x, Option.some.inj hconsider, (hcapture x).mp ⟨re, hre, hraw⟩⟩
  · rintro ⟨x, rfl, hoffered⟩
    obtain ⟨re, hre, hraw⟩ := (hcapture x).mpr hoffered
    obtain ⟨y, hy, hxy⟩ := isOptionAD_of_mem_submatches hre hraw
    obtain rfl := List.singleton_inj.mp hxy
    exact List.mem_flatMap.mpr ⟨re, hre, List.mem_filterMap.mpr
      ⟨_, hraw, consider_of_isOptionAD hy⟩⟩

theorem standsAlone_of_not_joined {s front after : List Char} (hs : s = front ++ x :: after)
    (h : ¬ Joined front after) : StandsAlone x.toUpper s := by
  simp only [Joined, not_or, not_exists, not_and, Bool.not_eq_true] at h
  exact ⟨front, x, after, hs, rfl, h.1, h.2⟩

theorem Clear.append {u s : List Char} (hu : ∀ x ∈ u, isLatinOrDigit x = false) (hs : Clear s) :
    Clear (u ++ s) := by
  cases u with
  | nil => exact hs
  | cons x u => exact clear_cons (hu x (by simp)) _

theorem isLatinOrDigit_blank (hx : isBlank x = true) : isLatinOrDigit x = false :=
  forall_mem_of_all (p := fun x => isLatinOrDigit x = false) (by decide) x (of_decide_eq_true hx)

theorem isLatinOrDigit_mark (hx : isMark x = true) : isLatinOrDigit x = false := by
  have hall : ∀ x ∈ ['.', '。', '、', ',', '，', ':', '：'], isLatinOrDigit x = false :=
    forall_mem_of_all (by decide)
  exact hall x (of_decide_eq_true hx)

/-- What heads a text stands alone. -/
theorem HeadedBy.standsAlone {s : List Char} (h : HeadedBy s x) : StandsAlone x.toUpper s := by
  obtain ⟨-, opening, close, gap, rest, hs, hopening, hclose, hgap, hrest⟩ := h
  refine ⟨opening, x, close ++ (gap ++ rest), hs, rfl, ?_, ?_⟩
  · rcases hopening with rfl | rfl
    · simp
    · rintro y ⟨⟩
      decide
  · refine Clear.append (fun y hy => ?_) (Clear.append (fun y hy => ?_) ?_)
    · rcases hclose with rfl | rfl
      · cases hy
      · exact List.mem_singleton.mp hy ▸ (by decide : isLatinOrDigit ')' = false)
    · exact isLatinOrDigit_blank (hgap y hy)
    · exact fun y hy => isLatinOrDigit_mark (hrest y hy)

/-- **An extracted letter stands alone in the normalised answer, exactly if every letter after a
phrase that is joined to a word does so elsewhere or is contested.** -/
theorem extractOptionLetter_standsAlone_iff (F : Nfkc) (prompt expected answer : List Char) :
    (∀ letter, extractOptionLetter F prompt expected answer = some letter →
        StandsAlone letter (normalizeV2 F answer)) ↔
      JoinedLettersContested (normalizeV2 F answer) := by
  constructor
  · intro h p hp front x after hreads hjoined
    by_contra! hnone
    obtain ⟨hword, honly⟩ := hnone
    have hsingle : (lettersOf mcqPatterns (normalizeV2 F answer)).dedup = [x.toUpper] := by
      refine dedup_lettersOf.mpr ⟨?_, fun other hother => ?_⟩
      · exact mem_lettersOf_iff.mpr ⟨x, rfl, Or.inl ⟨p, hp, front, after, hreads⟩⟩
      · by_contra hne
        exact honly other hne (mem_lettersOf_iff.mp hother)
    exact hword (h _ (by rw [extractOptionLetter, hsingle]))
  · intro h letter hletter
    unfold extractOptionLetter at hletter
    split at hletter
    · rename_i found hsingle
      obtain rfl := Option.some.inj hletter
      obtain ⟨hmem, hall⟩ := dedup_lettersOf.mp hsingle
      obtain ⟨x, rfl, ⟨p, hp, front, after, hreads⟩ | hheaded⟩ := mem_lettersOf_iff.mp hmem
      · by_cases hjoined : Joined front after
        · rcases h p hp front x after hreads hjoined with halone | ⟨other, hne, hother⟩
          · exact halone
          · exact absurd (hall other (mem_lettersOf_iff.mpr hother)) hne
        · exact standsAlone_of_not_joined hreads.split hjoined
      · exact hheaded.standsAlone
    -- the patterns did not agree
    · exact standsAlone_of_lastLine hletter

/-- In the sentence below the first letter of a word is taken for the answer. -/
theorem not_extractOptionLetter_standsAlone : ¬ ∀ (F : Nfkc) (prompt expected answer : List Char)
    (letter : Char), extractOptionLetter F prompt expected answer = some letter →
      StandsAlone letter (normalizeV2 F answer) := by
  intro h
  have hextract : extractOptionLetter .plain [] ['B'] "The answer is apple".toList = some 'A' := by
    decide
  have hword : ¬ StandsAlone 'A' (normalizeV2 .plain "The answer is apple".toList) := by
    decide
  exact hword (h _ _ _ _ _ hextract)

end HubScope
