import HubScope.Evaluator.OutputMatch
import HubScope.Evaluator.PyTally

/-!
# Literals as answers to themselves

A written literal has no assertion outside its strings and is not fenced, so that as an answer it
is taken as it stands, unless it has the opening answer tag in it. The tag is looked for without
regard to quotes, as the assertion is not: where a string of the literal contains the tag, what
follows it is taken for the answer. That is never the same literal, since the letters of the tag
are missing from it.

## Main results

* `Spells.topLevelDoubleEq` — no assertion outside the strings of a literal
* `extractOutputLiteral_of_noTag` — a literal without the tag is extracted as it is
* `unescaped_of_extract` — after the tag only a part of the rest is extracted
* `outputMatchVerdict_self_iff` — a literal is its own hit exactly if it lacks the tag
-/

set_option autoImplicit false

namespace HubScope

-- A byte has 256 values, and `decide` goes through all of them.
set_option maxRecDepth 2000

open Bytes PyParser

/-! ### No assertion outside strings -/

theorem topLevelDoubleEq_quote {q : Byte} (hq : isQuote q = true) (s : Bytes) :
    topLevelDoubleEq none (q :: s) = (topLevelDoubleEq (some q) s).map (· + 1) := by
  conv_lhs => unfold topLevelDoubleEq
  exact if_pos hq

theorem topLevelDoubleEq_escape (q e : Byte) (s : Bytes) :
    topLevelDoubleEq (some q) (byte '\\' :: e :: s) =
      (topLevelDoubleEq (some q) s).map (· + 2) := by
  conv_lhs => unfold topLevelDoubleEq
  exact if_pos rfl

theorem topLevelDoubleEq_close {q : Byte} (hq : q ≠ byte '\\') (s : Bytes) :
    topLevelDoubleEq (some q) (q :: s) = (topLevelDoubleEq none s).map (· + 1) := by
  conv_lhs => unfold topLevelDoubleEq
  simp only [if_neg hq, if_true]

theorem topLevelDoubleEq_inside {q c : Byte} (hslash : c ≠ byte '\\') (hc : c ≠ q) (s : Bytes) :
    topLevelDoubleEq (some q) (c :: s) = (topLevelDoubleEq (some q) s).map (· + 1) := by
  conv_lhs => unfold topLevelDoubleEq
  simp only [if_neg hslash, if_neg hc]

theorem topLevelDoubleEq_plain {c : Byte} (hc : plain c = true) (s : Bytes) :
    topLevelDoubleEq none (c :: s) = (topLevelDoubleEq none s).map (· + 1) := by
  have hplain : ∀ c, plain c = true → isQuote c = false ∧ c ≠ byte '=' := by decide
  obtain ⟨hquote, heq⟩ := hplain c hc
  conv_lhs => unfold topLevelDoubleEq
  simp only [hquote, heq, false_and, if_false, Bool.false_eq_true]

theorem topLevelDoubleEq_item {q : Byte} (hq : isQuote q = true) {item : PyItem} {t : Bytes}
    (h : SpellsItem q item t) {s : Bytes} (hs : topLevelDoubleEq (some q) s = none) :
    topLevelDoubleEq (some q) (t ++ s) = none := by
  have hplain : ∀ c, plain c = true → isQuote c = false ∧ c ≠ byte '\\' := by decide
  -- the digits of an escape neither close the string nor escape again
  have hother : ∀ c, plain c = true → c ≠ byte '\\' ∧ c ≠ q := by
    refine fun c hc => ⟨(hplain c hc).2, ?_⟩
    rintro rfl
    rw [(hplain c hc).1] at hq
    cases hq
  cases h with
  | raw hraw hslash =>
    rw [List.singleton_append, topLevelDoubleEq_inside hslash hraw, hs, Option.map_none]
  | letter he =>
    rw [List.cons_append, List.singleton_append, topLevelDoubleEq_escape, hs, Option.map_none]
  | @hex h l b hb =>
    obtain ⟨hh, hl⟩ := plain_of_hexByte hb
    have hhex := hother h hh
    have hlex := hother l hl
    simp only [List.cons_append, List.nil_append]
    rw [topLevelDoubleEq_escape, topLevelDoubleEq_inside hhex.1 hhex.2,
      topLevelDoubleEq_inside hlex.1 hlex.2, hs]
    rfl

theorem topLevelDoubleEq_items {q : Byte} (hq : isQuote q = true) {items : List PyItem}
    {t : Bytes} (h : SpellsItems q items t) {s : Bytes}
    (hs : topLevelDoubleEq (some q) s = none) : topLevelDoubleEq (some q) (t ++ s) = none := by
  induction h with
  | nil => exact hs
  | cons h hrest ih =>
    rw [List.append_assoc]
    exact topLevelDoubleEq_item hq h ih

/-- A written literal has no assertion outside its strings. -/
theorem Spells.topLevelDoubleEq {form : PyForm} {t : Bytes} (h : Spells form t) :
    topLevelDoubleEq none t = none := by
  have hquote : ∀ q, isQuote q = true → q ≠ byte '\\' := by decide
  have hrest : ∀ rest, HubScope.topLevelDoubleEq none rest = none →
      HubScope.topLevelDoubleEq none (t ++ rest) = none := by
    refine h.rule (M := fun _ t => ∀ rest, HubScope.topLevelDoubleEq none rest = none →
      HubScope.topLevelDoubleEq none (t ++ rest) = none) ?_ ?_ ?_ ?_
    · exact fun rest hrest => hrest
    · intro m n t u ht hu rest hrest
      rw [List.append_assoc]
      exact ht _ (hu _ hrest)
    · intro c hc rest hrest
      rw [List.singleton_append, topLevelDoubleEq_plain hc, hrest, Option.map_none]
    · intro q items t hq hitems rest hrest
      have hclose : HubScope.topLevelDoubleEq (some q) (q :: rest) = none := by
        rw [topLevelDoubleEq_close (hquote q hq), hrest, Option.map_none]
      have hinside := topLevelDoubleEq_items hq hitems hclose
      rw [List.append_assoc, List.cons_append, topLevelDoubleEq_quote hq, List.singleton_append,
        hinside, Option.map_none]
  simpa using hrest [] rfl

/-! ### A literal without the tag -/

/-- A literal without the answer tag is extracted as it is. -/
theorem extractOutputLiteral_of_noTag {v : PyLiteral} {s t w w' : Bytes} (hw : Blank w)
    (hw' : Blank w') (ht : Spells (.value v) t) (hs : s = w ++ t ++ w')
    (htag : cut answerOpen t = none) : extractOutputLiteral s = some t := by
  have htrim : trimSpace s = t := by rw [hs, trimSpace_append hw ht.solid hw']
  obtain ⟨hne, hhead, -⟩ := ht.bounds
  have hinside : insideTags t = t := by rw [insideTags, htag]
  have hfence : unfence t = some t := by
    have hprefix : ¬ fence.isPrefixOf t = true := by
      rw [List.isPrefixOf_iff_prefix]
      rintro ⟨r, rfl⟩
      exact absurd (hhead _ rfl) (by decide)
    rw [unfence, if_neg hprefix]
  have hassert : afterDoubleEq t = t := by rw [afterDoubleEq, ht.topLevelDoubleEq]
  simp only [extractOutputLiteral, htrim, if_neg hne, hinside, hfence, Option.bind_eq_bind,
    Option.bind_some, hassert]

/-! ### What is extracted after the tag -/

/-- The text has `==` at the position. -/
def DoubleEqAt (s : Bytes) (i : ℕ) : Prop :=
  ∃ u r, s = u ++ byte '=' :: byte '=' :: r ∧ u.length = i

theorem DoubleEqAt.cons {s : Bytes} {i : ℕ} (h : DoubleEqAt s i) (c : Byte) :
    DoubleEqAt (c :: s) (i + 1) := by
  obtain ⟨u, r, rfl, rfl⟩ := h
  exact ⟨c :: u, r, rfl, rfl⟩

theorem doubleEqAt_of_map {found : Option ℕ} {s : Bytes} {i : ℕ}
    (hs : ∀ {i : ℕ}, found = some i → DoubleEqAt s i) (c : Byte)
    (h : found.map (· + 1) = some i) : DoubleEqAt (c :: s) i := by
  obtain ⟨j, hj, rfl⟩ := Option.map_eq_some_iff.mp h
  exact (hs hj).cons c

theorem doubleEqAt_of_topLevelDoubleEq {quote : Option Byte} {s : Bytes} {i : ℕ}
    (h : topLevelDoubleEq quote s = some i) : DoubleEqAt s i := by
  fun_induction topLevelDoubleEq quote s generalizing i with
  | case1 => cases h
  | case2 => cases h
  | case3 q e s ih =>
    obtain ⟨j, hj, rfl⟩ := Option.map_eq_some_iff.mp h
    exact ((ih hj).cons e).cons (byte '\\')
  | case4 s q hq ih => exact doubleEqAt_of_map ih q h
  | case5 c s q hslash hq ih => exact doubleEqAt_of_map ih c h
  | case6 c s hquote ih => exact doubleEqAt_of_map ih c h
  | case7 c s hquote heq =>
    obtain ⟨rfl, hhead⟩ := heq
    obtain rfl := Option.some.inj h
    exact ⟨[], s.tail, by rw [List.nil_append, List.cons_head?_tail hhead], rfl⟩
  | case8 c s hquote heq ih => exact doubleEqAt_of_map ih c h

theorem unescaped_after {u : Bytes} {c : Byte} (hc : c ≠ byte '\\') (x z : Bytes) :
    Unescaped x (u ++ [c] ++ (x ++ z)) := by
  refine ⟨u ++ [c], z, rfl, ?_⟩
  rw [List.getLast?_concat]
  exact fun heq => hc (Option.some.inj heq)

theorem unescaped_afterDoubleEq (s : Bytes) : Unescaped (afterDoubleEq s) s := by
  rw [afterDoubleEq]
  split
  · exact .refl s
  · rename_i i h
    obtain ⟨u, r, rfl, rfl⟩ := doubleEqAt_of_topLevelDoubleEq h
    have hdrop : (u ++ byte '=' :: byte '=' :: r).drop (u.length + 2) = r := by
      rw [← List.drop_drop, List.drop_left]
      rfl
    rw [hdrop]
    have hafter := unescaped_after (u := u ++ [byte '=']) (c := byte '=') (by decide) r []
    simp only [List.append_assoc, List.append_nil, List.singleton_append] at hafter
    exact (Unescaped.trimSpace r).trans hafter

/-- Of what comes before and after a pattern neither begins after a backslash, if the pattern does
not end in one. -/
theorem unescaped_of_cut {pattern s before after : Bytes} {c : Byte}
    (hpattern : pattern.getLast? = some c) (hc : c ≠ byte '\\')
    (h : cut pattern s = some (before, after)) : Unescaped before s ∧ Unescaped after s := by
  obtain ⟨p, rfl⟩ := List.getLast?_eq_some_iff.mp hpattern
  obtain rfl := eq_of_cut h
  refine ⟨⟨[], p ++ [c] ++ after, by simp, by simp⟩, ?_⟩
  have hafter := unescaped_after (u := before ++ p) hc after []
  simpa using hafter

theorem unescaped_unfence {s s' : Bytes} (h : unfence s = some s') : Unescaped s' s := by
  have hfence : fence.getLast? = some (byte '\x60') := rfl
  have htick : byte '\x60' ≠ byte '\\' := by decide
  have hbreak : byte '\n' ≠ byte '\\' := by decide
  rw [unfence] at h
  split_ifs at h with hprefix
  · obtain ⟨r, rfl⟩ := List.isPrefixOf_iff_prefix.mp hprefix
    have hdrop : (fence ++ r).drop 3 = r := rfl
    have hstart : Unescaped r (fence ++ r) :=
      ⟨fence, [], by simp, by rw [hfence]; exact fun heq => htick (Option.some.inj heq)⟩
    rw [hdrop] at h
    split at h
    · cases h
    · rename_i inner outside hcut
      have hinner := (unescaped_of_cut hfence htick hcut).1.trans hstart
      split_ifs at h
      split at h
      · obtain rfl := Option.some.inj h
        exact (Unescaped.trimSpace _).trans hinner
      · rename_i line more hline
        obtain rfl := Option.some.inj h
        refine (Unescaped.trimSpace _).trans ?_
        -- the language tag goes with its line
        split_ifs
        · exact (unescaped_of_cut rfl hbreak hline).2.trans hinner
        · exact hinner
  · obtain rfl := Option.some.inj h
    exact .refl s

/-- Inside the tags there is a part of what follows the opening one. -/
theorem unescaped_insideTags {s before rest : Bytes} (h : cut answerOpen s = some (before, rest)) :
    Unescaped (insideTags s) rest := by
  simp only [insideTags, h]
  split
  · exact .trimSpace rest
  · rename_i inside after hclose
    have hbracket : byte ']' ≠ byte '\\' := by decide
    exact (Unescaped.trimSpace _).trans (unescaped_of_cut rfl hbracket hclose).1

/-- After the tag only a part of the rest is extracted. -/
theorem unescaped_of_extract {answer before rest literal : Bytes}
    (h : cut answerOpen (trimSpace answer) = some (before, rest))
    (hliteral : extractOutputLiteral answer = some literal) : Unescaped literal rest := by
  simp only [extractOutputLiteral] at hliteral
  split_ifs at hliteral with hnil
  obtain ⟨s, hs, hliteral⟩ := Option.bind_eq_some_iff.mp hliteral
  split_ifs at hliteral
  obtain rfl := Option.some.inj hliteral
  exact (unescaped_afterDoubleEq s).trans ((unescaped_unfence hs).trans (unescaped_insideTags h))

/-! ### The verdict on the expectation itself -/

/-- A text with the tag writes the letter once more than what follows the tag. -/
theorem tally_lt_of_tag (before rest : Bytes) :
    tally rest < tally (before ++ answerOpen ++ rest) := by
  have hbracket : byte '[' ≠ byte '\\' := by decide
  have hletters : tally (ascii ['A', 'N', 'S', 'W', 'E', 'R', ']'] ++ rest) = 1 + tally rest := by
    have hplain : ∀ c ∈ ascii ['A', 'N', 'S', 'E', 'R', ']'], plain c = true := by decide
    have hletter : byte 'W' ≠ byte '\\' := by decide
    simp only [ascii, List.map_cons, List.map_nil, List.forall_mem_cons, List.cons_append,
      List.nil_append] at hplain ⊢
    obtain ⟨hA, hN, hS, hE, hR, hclose, -⟩ := hplain
    rw [tally_plain hA, tally_plain hN, tally_plain hS, tally_cons hletter, if_pos rfl,
      tally_plain hE, tally_plain hR, tally_plain hclose]
  have hle := tally_le_after hbracket (ascii ['A', 'N', 'S', 'W', 'E', 'R', ']'] ++ rest) before
  rw [hletters, Nat.one_add] at hle
  rw [List.append_assoc]
  exact hle

/-- A pattern that shares no byte with the white space around a text lies within the text. -/
theorem infix_of_blank {w t w' : Bytes} (hw : Blank w) (hw' : Blank w')
    (h : answerOpen <:+: w ++ t ++ w') : answerOpen <:+: t := by
  have hspaces : (spaces.all fun x => x.all (· ∉ answerOpen)) = true := by decide
  have hblank : ∀ {w : Bytes}, Blank w → ∀ c ∈ answerOpen, c ∉ w := by
    rintro _ ⟨ws, hws, rfl⟩ c hc hmem
    obtain ⟨x, hx, hmem⟩ := List.mem_flatten.mp hmem
    have hall := List.all_eq_true.mp (List.all_eq_true.mp hspaces x (hws x hx)) c hmem
    exact of_decide_eq_true hall hc
  have hne : answerOpen ≠ [] := by decide
  have hleft := infix_of_append hne (hblank hw) (by rwa [← List.append_assoc])
  have hright := List.reverse_infix.mpr hleft
  rw [List.reverse_append] at hright
  refine List.reverse_infix.mp (infix_of_append (List.reverse_ne_nil_iff.mpr hne) ?_ hright)
  simpa using hblank hw'

/-- **A literal scores a hit for itself exactly if it has no answer tag in it.** -/
theorem outputMatchVerdict_self_iff {s : Bytes} (h : (canonicalPyLiteral s).isSome = true) :
    outputMatchVerdict s s = some 1 ↔ ¬ answerOpen <:+: s := by
  obtain ⟨c, hc⟩ := Option.isSome_iff_exists.mp h
  obtain ⟨v, ⟨w, t, w', hw, hw', ht, hs⟩, rfl⟩ := canonicalPyLiteral_eq_some_iff.mp hc
  have htrim : trimSpace s = t := by rw [hs, trimSpace_append hw ht.solid hw']
  rw [outputMatchVerdict_eq_one_iff]
  cases hcut : cut answerOpen t with
  | none =>
    have hliteral := extractOutputLiteral_of_noTag hw hw' ht hs hcut
    refine iff_of_true ⟨v.canon, t, hc, hliteral, ht.text.canonical⟩ fun hinfix => ?_
    obtain ⟨before, after, htag⟩ := infix_of_blank hw hw' (hs ▸ hinfix)
    have hfound := @isSome_cut answerOpen before after
    rw [htag, hcut] at hfound
    cases hfound
  | some parts =>
    obtain ⟨before, rest⟩ := parts
    have htext := eq_of_cut hcut
    refine iff_of_false ?_ (not_not.mpr ?_)
    · rintro ⟨c, literal, hwant, hliteral, hgot⟩
      obtain ⟨v', ⟨x, t', x', hx, hx', ht', rfl⟩, hcanon⟩ := canonicalPyLiteral_eq_some_iff.mp hgot
      have hpart : Unescaped (x ++ t' ++ x') rest :=
        unescaped_of_extract (by rw [htrim, hcut]) hliteral
      -- the part behind the tag is shorter by the letters of the tag, so its form cannot be the
      -- same
      have hle := ((Unescaped.of_blank hx t' x').trans hpart).tally_le
      have hlt := tally_lt_of_tag before rest
      have hsame : v'.canon = v.canon := hcanon.trans (Option.some.inj (hwant.symm.trans hc))
      rw [tally_eq_of_canonical ht' ht hsame, htext] at hle
      exact absurd hle (not_le.mpr hlt)
    · rw [hs, htext]
      exact ⟨w ++ before, rest ++ w', by simp⟩

end HubScope
