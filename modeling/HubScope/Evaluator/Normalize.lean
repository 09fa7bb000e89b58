import HubScope.Lib.Text
import HubScope.Store.Tables

/-!
# Normalisation of answers

Rule verdicts compare an answer with an expectation after both went through the pipeline of the
verdict profile: trim, take off paired quotes, fold by Unicode NFKC, take off quotes again and
collapse white space. The folding is a parameter with the laws the scorers rely on.

## Main definitions

* `Nfkc` — the folding with its laws
* `stripPairedQuotes`, `normalizeV2`, `normalizeForVerdict` — the pipeline

## Main results

* `normalizeV2_word` — a word in ASCII is left alone
* `fields_fold_append_cons` — folding keeps the fields of a text apart
* `normalizeV2_of_lastLine` — what stands alone in the last line of an answer stands at the end
  of the normalised answer
-/

set_option autoImplicit false

namespace HubScope

open Text

/-- The closing quote of an opening one. -/
def quotePairClose : Char → Option Char
  | '"' => some '"'
  | '\'' => some '\''
  | '“' => some '”'
  | '‘' => some '’'
  | '「' => some '」'
  | '『' => some '』'
  | _ => none

/-- A character that can close a quotation. -/
def isClosingQuote (c : Char) : Bool := c ∈ ['"', '\'', '”', '’', '」', '』']

/-- Unicode NFKC. White space is folded to white space by itself, a closing quote is inert, and
text without combining or compatibility characters is left alone. -/
structure Nfkc where
  fold : List Char → List Char
  ascii : ∀ s, (∀ c ∈ s, c.toNat < 128) → fold s = s
  space : ∀ c, isSpace c = true →
    ∃ c', isSpace c' = true ∧ ∀ a b, fold (a ++ c :: b) = fold a ++ c' :: fold b
  blank : ∀ s, (∀ c ∈ fold s, isSpace c = true) → ∀ c ∈ s, isSpace c = true
  quote : ∀ a c, isClosingQuote c = true → fold (a ++ [c]) = fold a ++ [c]

/-- The folding of texts that are in the normal form already. -/
def Nfkc.plain : Nfkc where
  fold s := s
  ascii _ _ := rfl
  space c hc := ⟨c, hc, fun _ _ => rfl⟩
  blank _ h := h
  quote _ _ _ := rfl

/-- Take off outer paired quotes, trimming between the layers. -/
def stripQuotes : ℕ → List Char → List Char
  | 0, s => trimSpace s
  | fuel + 1, s =>
    let s := trimSpace s
    match s.head?, s.getLast? with
    | some first, some last =>
      if s.length < 2 ∨ quotePairClose first ≠ some last then s
      else stripQuotes fuel s.tail.dropLast
    | _, _ => s

/-- A layer takes two characters, so half the length is enough rounds. -/
def stripPairedQuotes (s : List Char) : List Char := stripQuotes s.length s

def normalizeV1 (s : List Char) : List Char := trimSpace s

def normalizeV2 (F : Nfkc) (s : List Char) : List Char :=
  collapse (stripPairedQuotes (F.fold (stripPairedQuotes (trimSpace s))))

/-- The pipeline of a profile; every profile but the second is read as the first. -/
def normalizeForVerdict (F : Nfkc) : VerdictProfile → List Char → List Char
  | .v2, s => normalizeV2 F s
  | _, s => normalizeV1 s

/-! ### Quotes -/

theorem isClosingQuote_of_pair {first last : Char} (h : quotePairClose first = some last) :
    isClosingQuote last = true := by
  unfold quotePairClose at h
  split at h <;> first
    | (rw [← Option.some.inj h]; decide)
    | cases h

/-- A text that does not end in a closing quote is only trimmed. -/
theorem stripPairedQuotes_of_last {s : List Char}
    (h : ∀ c ∈ (trimSpace s).getLast?, isClosingQuote c = false) :
    stripPairedQuotes s = trimSpace s := by
  unfold stripPairedQuotes
  cases s.length with
  | zero => rfl
  | succ fuel =>
    unfold stripQuotes
    dsimp only
    split
    · rename_i first last hfirst hlast
      refine if_pos (Or.inr fun hpair => ?_)
      have hquote := isClosingQuote_of_pair hpair
      rw [h last hlast] at hquote
      cases hquote
    · rfl

/-! ### Texts without white space -/

theorem normalizeV2_of_blank (F : Nfkc) {s : List Char} (hs : ∀ c ∈ s, isSpace c = true) :
    normalizeV2 F s = [] := by
  have htrim : trimSpace s = [] := by
    rw [← List.append_nil s, trimSpace_append_left hs]
    rfl
  rw [normalizeV2, htrim, show stripPairedQuotes [] = [] from rfl, F.ascii [] (by simp)]
  rfl

theorem normalizeV2_append_left (F : Nfkc) {a : List Char} (ha : ∀ c ∈ a, isSpace c = true)
    (s : List Char) : normalizeV2 F (a ++ s) = normalizeV2 F s := by
  rw [normalizeV2, trimSpace_append_left ha, normalizeV2]

/-- Of a word in ASCII that does not end in a quote only the white space around it goes. -/
theorem normalizeV2_word (F : Nfkc) {s w : List Char} (hs : trimSpace s = w) (hne : w ≠ [])
    (hspace : ∀ c ∈ w, isSpace c = false) (hascii : ∀ c ∈ w, c.toNat < 128)
    (hquote : ∀ c ∈ w, isClosingQuote c = false) : normalizeV2 F s = w := by
  have htrim : trimSpace w = w := trimSpace_of_forall hspace
  have hstrip : stripPairedQuotes w = w := by
    rw [stripPairedQuotes_of_last, htrim]
    exact fun c hc => hquote c (by rw [htrim] at hc; exact List.mem_of_getLast? hc)
  rw [normalizeV2, hs, hstrip, F.ascii w hascii, hstrip, collapse, fields_word hne hspace]
  simp

/-! ### Folding and fields -/

section Folding

variable (F : Nfkc)

theorem fields_fold_append_cons {c : Char} (hc : isSpace c = true) (a b : List Char) :
    fields (F.fold (a ++ c :: b)) = fields (F.fold a) ++ fields (F.fold b) := by
  obtain ⟨c', hc', hfold⟩ := F.space c hc
  rw [hfold, fields_append_cons hc']

@[simp] theorem fold_nil : F.fold [] = [] := F.ascii [] (by simp)

theorem fields_fold_left {a : List Char} (ha : ∀ c ∈ a, isSpace c = true) (s : List Char) :
    fields (F.fold (a ++ s)) = fields (F.fold s) := by
  induction a with
  | nil => rfl
  | cons c a ih =>
    have hcons := fields_fold_append_cons F (ha c (by simp)) [] (a ++ s)
    rw [fold_nil, fields_nil, List.nil_append, List.nil_append] at hcons
    rw [List.cons_append, hcons, ih fun x hx => ha x (by simp [hx])]

theorem fields_fold_right {b : List Char} (hb : ∀ c ∈ b, isSpace c = true) (s : List Char) :
    fields (F.fold (s ++ b)) = fields (F.fold s) := by
  cases b with
  | nil => rw [List.append_nil]
  | cons c b =>
    have hnil : fields (F.fold b) = [] := by
      simpa using fields_fold_left F (s := []) fun x hx => hb x (by simp [hx])
    rw [fields_fold_append_cons F (hb c (by simp)), hnil, List.append_nil]

/-- Trimming before folding does not change the fields. -/
theorem fields_fold_trimSpace (s : List Char) :
    fields (F.fold (trimSpace s)) = fields (F.fold s) := by
  obtain ⟨a, b, ha, hb, hs⟩ := exists_trimSpace s
  conv_rhs => rw [hs, fields_fold_left F ha, fields_fold_right F hb]

/-- A line that folds to white space is white space. -/
theorem forall_isSpace_of_fold {l : List Char} (h : trimSpace (F.fold l) = []) :
    ∀ c ∈ l, isSpace c = true := by
  refine F.blank l fun c hc => ?_
  obtain ⟨a, b, ha, hb, hs⟩ := exists_trimSpace (F.fold l)
  rw [hs, h, List.nil_append] at hc
  exact List.forall_mem_append.mpr ⟨ha, hb⟩ c hc

variable {F}

/-- What stands alone in the last line that is not blank is the last field of the folded
text. -/
theorem getLast_fields_fold {s m w : List Char} {before after : List (List Char)}
    (hlines : lines s = before ++ m :: after)
    (hafter : ∀ l ∈ after, trimSpace (F.fold l) = []) (hm : trimSpace (F.fold m) = w)
    (hne : w ≠ []) (hw : ∀ c ∈ w, isSpace c = false) :
    (fields (F.fold s)).getLast? = some w := by
  have hblank : ∀ c ∈ after.flatMap (['\n'] ++ ·), isSpace c = true := by
    intro c hc
    obtain ⟨l, hl, hc⟩ := List.mem_flatMap.mp hc
    rcases List.mem_append.mp hc with hc | hc
    · rw [List.mem_singleton.mp hc]
      decide
    · exact forall_isSpace_of_fold F (hafter l hl) c hc
  have hword : fields (F.fold m) = [w] := by rw [← fields_trimSpace, hm, fields_word hne hw]
  rw [eq_of_lines hlines]
  cases before using List.reverseRecOn with
  | nil => rw [List.flatMap_nil, List.nil_append, fields_fold_right F hblank, hword]; rfl
  | append_singleton before l =>
    rw [List.flatMap_append, List.flatMap_singleton, List.append_assoc, List.append_assoc,
      List.singleton_append, ← List.append_assoc,
      fields_fold_append_cons F (by decide : isSpace '\n' = true), fields_fold_right F hblank,
      hword, List.getLast?_concat]

/-- **What stands alone in the last line of an answer that is not blank stands at the end of the
normalised answer**, unless it ends in a closing quote. -/
theorem normalizeV2_of_lastLine {s m w : List Char} {before after : List (List Char)}
    (hlines : lines s = before ++ m :: after)
    (hafter : ∀ l ∈ after, trimSpace (F.fold l) = []) (hm : trimSpace (F.fold m) = w)
    (hne : w ≠ []) (hw : ∀ c ∈ w, isSpace c = false)
    (hquote : ∀ c ∈ w.getLast?, isClosingQuote c = false) :
    normalizeV2 F s = w ∨ ∃ a, normalizeV2 F s = a ++ ' ' :: w := by
  let t := trimSpace (trimSpace s)
  have hlast : (fields (F.fold t)).getLast? = some w := by
    rw [fields_fold_trimSpace, fields_fold_trimSpace]
    exact getLast_fields_fold hlines hafter hm hne hw
  -- a closing quote at the end would end the last field
  have hinner : stripPairedQuotes (trimSpace s) = t := by
    refine stripPairedQuotes_of_last fun c hc => ?_
    by_contra hclose
    obtain ⟨y, hy⟩ := List.getLast?_eq_some_iff.mp hc
    have hfold : (F.fold t).getLast? = some c := by
      rw [show t = y ++ [c] from hy, F.quote y c (by simpa using hclose), List.getLast?_concat]
    obtain ⟨v, hv⟩ := getLast_fields (getLast_trimSpace hc) hfold
    have hwv : w = v ++ [c] := Option.some.inj (hlast.symm.trans hv)
    exact hclose (hquote c (by rw [hwv, List.getLast?_concat]; rfl))
  have houter : stripPairedQuotes (F.fold t) = trimSpace (F.fold t) := by
    refine stripPairedQuotes_of_last fun c hc => ?_
    obtain ⟨v, hv⟩ := getLast_fields (getLast_trimSpace hc) hc
    rw [fields_trimSpace, hlast] at hv
    exact hquote c (by rw [Option.some.inj hv, List.getLast?_concat]; rfl)
  rw [normalizeV2, hinner, houter]
  exact collapse_of_getLast (by rw [fields_trimSpace, hlast])

end Folding

end HubScope
