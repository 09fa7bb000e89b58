import Mathlib.Data.Char
import Mathlib.Data.List.DropRight

/-!
# Texts and their white space

Texts are lists of characters. White space is what Unicode calls so; trimming takes it off both
ends, the fields of a text are what it leaves between.

## Main definitions

* `Text.isSpace`, `Text.trimSpace`, `Text.fields`, `Text.collapse` — white space
* `Text.trimPrefix`, `Text.lines`, `Text.lastAfter` — one leading character, lines, and what
  follows the last occurrence of a pattern

## Main results

* `Text.trimSpace_of_bounded` — a text between two characters that are no spaces is trimmed
* `Text.fields_append_cons`, `getLast_fields` — fields of a text and its last field
* `Text.collapse_of_getLast` — the last field stands at the end of the collapsed text
* `Text.eq_of_lines` — a text from its lines
* `Text.map_lines_append`, `lines_append` — lines of a text after white space and after a word
-/

set_option autoImplicit false

namespace Text

/-- The Unicode property `White_Space`. -/
def isSpace (c : Char) : Bool :=
  c ∈ ['\t', '\n', '\x0b', '\x0c', '\r', ' ', '\u0085', '\u00a0', '\u1680', '\u2028', '\u2029',
    '\u202f', '\u205f', '\u3000'] ||
    '\u2000' ≤ c && c ≤ '\u200a'

/-- The text without the white space at its ends. -/
def trimSpace (s : List Char) : List Char := (s.dropWhile isSpace).rdropWhile isSpace

/-- The runs of other characters that white space separates. -/
def fields (s : List Char) : List (List Char) := (s.splitOnP isSpace).filter (· ≠ [])

/-- Every run of white space as one space, and none at the ends. -/
def collapse (s : List Char) : List Char := [' '].intercalate (fields s)

/-- The text without one given leading character. -/
def trimPrefix (c : Char) : List Char → List Char
  | [] => []
  | x :: xs => if x = c then xs else x :: xs

/-- The lines of a text. -/
def lines (s : List Char) : List (List Char) := s.splitOn '\n'

/-- What follows the last occurrence of a pattern. -/
def lastAfter (pattern : List Char) : List Char → Option (List Char)
  | [] => if pattern = [] then some [] else none
  | c :: s =>
    (lastAfter pattern s).or
      (if pattern.isPrefixOf (c :: s) then some ((c :: s).drop pattern.length) else none)

/-- What is decided of the members of a list one by one, without going through all characters. -/
theorem forall_mem_of_all {p : Char → Prop} [DecidablePred p] {s : List Char}
    (h : s.all (fun c => decide (p c)) = true) : ∀ c ∈ s, p c := by
  simpa only [List.all_eq_true, decide_eq_true_eq] using h

/-- A visible ASCII character is no white space. -/
theorem isSpace_eq_false_of_visible {c : Char} (hlo : '!' ≤ c) (hhi : c ≤ '~') :
    isSpace c = false := by
  have hlist : ∀ d ∈ ['\t', '\n', '\x0b', '\x0c', '\r', ' ', '\u0085', '\u00a0', '\u1680',
      '\u2028', '\u2029', '\u202f', '\u205f', '\u3000'], ¬ ('!' ≤ d ∧ d ≤ '~') :=
    forall_mem_of_all (by decide)
  rw [isSpace, Bool.or_eq_false_iff, Bool.and_eq_false_iff, decide_eq_false_iff_not,
    decide_eq_false_iff_not]
  refine ⟨fun hmem => hlist c hmem ⟨hlo, hhi⟩, Or.inl fun hle => ?_⟩
  exact absurd (le_trans hle hhi) (by decide)

@[simp] theorem trimPrefix_cons_self (c : Char) (s : List Char) : trimPrefix c (c :: s) = s :=
  if_pos rfl

theorem trimPrefix_cons_of_ne {c x : Char} (h : x ≠ c) (s : List Char) :
    trimPrefix c (x :: s) = x :: s :=
  if_neg h

/-- A text without white space at its ends is its own trimming. -/
theorem trimSpace_of_bounded {s : List Char} (hhead : ∀ c ∈ s.head?, isSpace c = false)
    (hlast : ∀ c ∈ s.getLast?, isSpace c = false) : trimSpace s = s := by
  have hdrop : s.dropWhile isSpace = s := by
    cases s with
    | nil => rfl
    | cons c s => rw [List.dropWhile_cons_of_neg]; simpa using hhead c
  rw [trimSpace, hdrop, List.rdropWhile_eq_self_iff]
  intro hne
  simpa using hlast _ (List.getLast?_eq_some_getLast hne)

/-- A text without white space is its own trimming. -/
theorem trimSpace_of_forall {s : List Char} (h : ∀ c ∈ s, isSpace c = false) : trimSpace s = s :=
  trimSpace_of_bounded (fun c hc => h c (List.mem_of_head? hc))
    fun c hc => h c (List.mem_of_getLast? hc)

/-- The white space at the ends and what is between. -/
theorem exists_trimSpace (s : List Char) : ∃ a b, (∀ c ∈ a, isSpace c = true) ∧
    (∀ c ∈ b, isSpace c = true) ∧ s = a ++ (trimSpace s ++ b) := by
  refine ⟨s.takeWhile isSpace, (s.dropWhile isSpace).rtakeWhile isSpace,
    fun c hc => List.mem_takeWhile_imp hc, fun c hc => List.mem_rtakeWhile_imp hc, ?_⟩
  rw [trimSpace, List.rdropWhile_append_rtakeWhile, List.takeWhile_append_dropWhile]

theorem getLast_trimSpace {s : List Char} {c : Char} (h : (trimSpace s).getLast? = some c) :
    isSpace c = false := by
  have hne : trimSpace s ≠ [] := by
    rintro hnil
    rw [hnil] at h
    cases h
  have hlast : ¬ isSpace ((trimSpace s).getLast hne) = true :=
    List.rdropWhile_last_not isSpace (s.dropWhile isSpace) hne
  rw [List.getLast?_eq_some_getLast hne] at h
  rw [← Option.some.inj h]
  simpa using hlast

theorem trimSpace_append_left {a : List Char} (ha : ∀ c ∈ a, isSpace c = true) (s : List Char) :
    trimSpace (a ++ s) = trimSpace s := by
  rw [trimSpace, List.dropWhile_append_of_pos ha, trimSpace]

theorem trimSpace_append_right {b : List Char} (hb : ∀ c ∈ b, isSpace c = true) (s : List Char) :
    trimSpace (s ++ b) = trimSpace s := by
  have hright : ∀ u : List Char, (u ++ b).rdropWhile isSpace = u.rdropWhile isSpace := fun u => by
    rw [List.rdropWhile, List.reverse_append,
      List.dropWhile_append_of_pos fun c hc => hb c (List.mem_reverse.mp hc), List.rdropWhile]
  rw [trimSpace, List.dropWhile_append, trimSpace]
  split_ifs with hnil
  · have hdrop : b.dropWhile isSpace = [] := List.dropWhile_eq_nil_iff.mpr hb
    rw [hdrop, List.isEmpty_iff.mp hnil]
  · exact hright _

/-- A text without the first character of a pattern has no occurrence of it. -/
theorem lastAfter_eq_none {x : Char} {pattern s : List Char} (h : x ∉ s) :
    lastAfter (x :: pattern) s = none := by
  induction s with
  | nil => exact if_neg (List.cons_ne_nil _ _)
  | cons c s ih =>
    obtain ⟨hc, hs⟩ := List.ne_and_not_mem_of_not_mem_cons h
    have hprefix : ¬ (x :: pattern).isPrefixOf (c :: s) = true := by simp [hc]
    rw [lastAfter, ih hs, if_neg hprefix, Option.or_none]

/-! ### Fields -/

@[simp] theorem fields_nil : fields [] = [] := rfl

/-- White space separates the fields of two texts. -/
theorem fields_append_cons {c : Char} (hc : isSpace c = true) (a b : List Char) :
    fields (a ++ c :: b) = fields a ++ fields b := by
  rw [fields, List.splitOnP_append_cons _ _ hc, List.filter_append]
  rfl

theorem fields_append_left {a : List Char} (ha : ∀ c ∈ a, isSpace c = true) (s : List Char) :
    fields (a ++ s) = fields s := by
  induction a with
  | nil => rfl
  | cons c a ih =>
    rw [← ih fun x hx => ha x (by simp [hx])]
    exact fields_append_cons (ha c (by simp)) [] _

theorem fields_append_right {b : List Char} (hb : ∀ c ∈ b, isSpace c = true) (s : List Char) :
    fields (s ++ b) = fields s := by
  cases b with
  | nil => rw [List.append_nil]
  | cons c b =>
    have hnil : fields b = [] := by
      simpa using fields_append_left (s := []) fun x hx => hb x (by simp [hx])
    rw [fields_append_cons (hb c (by simp)), hnil, List.append_nil]

theorem fields_trimSpace (s : List Char) : fields (trimSpace s) = fields s := by
  obtain ⟨a, b, ha, hb, hs⟩ := exists_trimSpace s
  conv_rhs => rw [hs, fields_append_left ha, fields_append_right hb]

/-- A word is its own field. -/
theorem fields_word {w : List Char} (hne : w ≠ []) (hw : ∀ c ∈ w, isSpace c = false) :
    fields w = [w] := by
  rw [fields, List.splitOnP_eq_singleton hw]
  simp [hne]

/-- What a text ends with ends its last field, unless it is white space. -/
theorem getLast_fields {s : List Char} {x : Char} (hx : isSpace x = false)
    (hs : s.getLast? = some x) : ∃ w, (fields s).getLast? = some (w ++ [x]) := by
  obtain ⟨y, rfl⟩ := List.getLast?_eq_some_iff.mp hs
  have hword : ∀ c ∈ y.rtakeWhile (!isSpace ·) ++ [x], isSpace c = false := by
    refine List.forall_mem_append.mpr ⟨fun c hc => ?_, by simpa using hx⟩
    simpa using List.mem_rtakeWhile_imp hc
  have hfield := fields_word (by simp) hword
  refine ⟨y.rtakeWhile (!isSpace ·), ?_⟩
  have hsplit : y.rdropWhile (!isSpace ·) ++ y.rtakeWhile (!isSpace ·) = y :=
    List.rdropWhile_append_rtakeWhile
  conv_lhs => rw [← hsplit, List.append_assoc]
  -- the last word is the whole text, or a space stands before it
  cases hdrop : (y.rdropWhile (!isSpace ·)).getLast? with
  | none => rw [List.getLast?_eq_none_iff.mp hdrop, List.nil_append, hfield]; rfl
  | some c =>
    obtain ⟨z, hz⟩ := List.getLast?_eq_some_iff.mp hdrop
    have hspace : isSpace c = true := by
      have hne : y.rdropWhile (!isSpace ·) ≠ [] := by simp [hz]
      have hlast := List.rdropWhile_last_not (fun c => !isSpace c) y hne
      rw [List.getLast?_eq_some_getLast hne] at hdrop
      rw [← Option.some.inj hdrop]
      simpa using hlast
    rw [hz, List.append_assoc, List.singleton_append, fields_append_cons hspace, hfield,
      List.getLast?_concat]

/-- The texts before one of a list, that one and the texts after it, with a separator
between. -/
theorem intercalate_append_cons (sep m : List Char) (before after : List (List Char)) :
    sep.intercalate (before ++ m :: after) =
      before.flatMap (· ++ sep) ++ (m ++ after.flatMap (sep ++ ·)) := by
  induction before with
  | nil =>
    induction after generalizing m with
    | nil => simp
    | cons l after ih =>
      have hrest := ih l
      rw [List.nil_append, List.flatMap_nil, List.nil_append] at hrest ⊢
      rw [List.intercalate_cons_of_ne_nil (List.cons_ne_nil _ _), hrest, List.flatMap_cons]
      simp
  | cons l before ih =>
    rw [List.cons_append, List.intercalate_cons_of_ne_nil (by simp), ih, List.flatMap_cons]
    simp

/-- The last field ends the collapsed text, alone or after a space. -/
theorem collapse_of_getLast {s w : List Char} (h : (fields s).getLast? = some w) :
    collapse s = w ∨ ∃ a, collapse s = a ++ ' ' :: w := by
  obtain ⟨ws, hws⟩ := List.getLast?_eq_some_iff.mp h
  rw [collapse, hws, intercalate_append_cons, List.flatMap_nil, List.append_nil]
  cases ws using List.reverseRecOn with
  | nil => exact Or.inl rfl
  | append_singleton ws v => exact Or.inr ⟨ws.flatMap (· ++ [' ']) ++ v, by simp⟩

/-! ### Lines -/

/-- A text is the lines before one of its lines, that line and the lines after it, with line
breaks between. -/
theorem eq_of_lines {s m : List Char} {before after : List (List Char)}
    (h : lines s = before ++ m :: after) :
    s = before.flatMap (· ++ ['\n']) ++ (m ++ after.flatMap (['\n'] ++ ·)) := by
  rw [← intercalate_append_cons, ← h, lines, List.intercalate_splitOn]

theorem lines_cons (c : Char) (s : List Char) :
    lines (c :: s) = if c = '\n' then [] :: lines s else (lines s).modifyHead (c :: ·) := by
  rw [lines, lines, List.splitOn, List.splitOn, List.splitOnP_cons_eq_if_modifyHead]
  simp

/-- White space before a text gives lines that differ from none in white space only. -/
theorem map_lines_append {β : Type*} {f : List Char → β}
    (hf : ∀ c l, isSpace c = true → f (c :: l) = f l) {a : List Char}
    (ha : ∀ c ∈ a, isSpace c = true) (s : List Char) :
    ∃ k, (lines (a ++ s)).map f = List.replicate k (f []) ++ (lines s).map f := by
  induction a with
  | nil => exact ⟨0, rfl⟩
  | cons c a ih =>
    obtain ⟨hc, ha⟩ := List.forall_mem_cons.mp ha
    obtain ⟨k, hk⟩ := ih ha
    rw [List.cons_append, lines_cons]
    split_ifs
    · exact ⟨k + 1, by rw [List.map_cons, hk]; rfl⟩
    · refine ⟨k, ?_⟩
      rw [← hk]
      cases lines (a ++ s) with
      | nil => rfl
      | cons l ls => exact congrArg (· :: ls.map f) (hf c l hc)

/-- A text without line breaks stands at the beginning of the first line. -/
theorem lines_append {w : List Char} (hw : '\n' ∉ w) (s : List Char) :
    lines (w ++ s) = (lines s).modifyHead (w ++ ·) := by
  induction w with
  | nil => cases h : lines s <;> simp [h]
  | cons c w ih =>
    obtain ⟨hc, hw⟩ := List.ne_and_not_mem_of_not_mem_cons hw
    rw [List.cons_append, lines_cons, if_neg (Ne.symm hc), ih hw]
    cases lines s <;> rfl

theorem mem_of_mem_lines {s l : List Char} (hl : l ∈ lines s) {c : Char} (hc : c ∈ l) : c ∈ s := by
  obtain ⟨before, after, hlines⟩ := List.append_of_mem hl
  rw [eq_of_lines hlines]
  exact List.mem_append_right _ (List.mem_append_left _ hc)

end Text
