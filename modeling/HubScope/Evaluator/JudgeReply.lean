import HubScope.Lib.Json
import Mathlib.Data.List.DropRight

/-!
# The reply of a judge

A judge is asked for a JSON object with a score and a reason. Its reply is cut from the first
opening brace to the last closing one and decoded into a record of the two. The record starts
with the score zero, and a member that is absent or null leaves its field as it is: an object
without a score is read as the score zero.

## Main definitions

* `extractObject`, `unmarshal`, `parseJudgeResponse` — the parser of a reply
* `GivenScore` — the score an object carries

## Main results

* `score_foldl` — the decoded score is the last number given as a score, or zero
* `parseJudgeResponse_givenScore_iff` — an accepted score was given, exactly if the object gives
  one or is ill-typed
-/

set_option autoImplicit false

namespace HubScope

/-- The score and the reason of a judge. -/
structure JudgeResponse where
  score : ℚ
  reason : List Char

/-- "no JSON object found", "invalid judge JSON: …" and "judge score out of range: …". -/
inductive JudgeError
  | noObject
  | invalidJson
  | outOfRange (score : ℚ)

/-- From the first opening brace of the reply to its last closing one. -/
def extractObject (text : List Char) : Option (List Char) :=
  let slice := (text.dropWhile (· ≠ '{')).rdropWhile (· ≠ '}')
  if slice = [] then none else some slice

/-- A key regardless of case, as far as ASCII names see it: the long s and the Kelvin sign fold to
letters of them. -/
def foldName (key : List Char) : List Char := key.map fun c =>
  if c = 'ſ' then 'S' else if c = '\u212a' then 'K' else c.toUpper

/-- The member goes to the field of that name. -/
def Names (name : String) (m : List Char × Json) : Prop := foldName m.1 = foldName name.toList

instance (name : String) (m : List Char × Json) : Decidable (Names name m) :=
  inferInstanceAs (Decidable (_ = _))

/-- The record while its members are stored; an ill-typed member is an error in the end. -/
structure Decoded extends JudgeResponse where
  failed : Bool

/-- Store one member. A null leaves its field alone. -/
def storeMember (r : Decoded) (m : List Char × Json) : Decoded :=
  if Names "score" m then
    match m.2 with
    | .null => r
    | .number n =>
      match Json.toDouble n.value with
      | some q => { r with score := q }
      | none => { r with failed := true }
    | _ => { r with failed := true }
  else if Names "reason" m then
    match m.2 with
    | .null => r
    | .string s => { r with reason := s }
    | _ => { r with failed := true }
  else r

/-- Decode a value into the record, which starts out as zero. -/
def unmarshal : Json → Option JudgeResponse
  | .null => some ⟨0, []⟩
  | .object members =>
    let r := members.foldl storeMember ⟨⟨0, []⟩, false⟩
    if r.failed then none else some r.toJudgeResponse
  | _ => none

def parseJudgeResponse (text : List Char) : Except JudgeError JudgeResponse :=
  match extractObject text with
  | none => .error .noObject
  | some slice =>
    match (Json.parse slice).bind unmarshal with
    | none => .error .invalidJson
    | some parsed =>
      if parsed.score < 0 ∨ parsed.score > 1 then .error (.outOfRange parsed.score)
      else .ok parsed

/-! ### What an object carries -/

/-- The members of the object in the reply, if it is one. -/
def extractedMembers (text : List Char) : Option (List (List Char × Json)) :=
  match (extractObject text).bind Json.parse with
  | some (.object members) => some members
  | _ => none

/-- The members carry a number as their score, and none but nulls after it. -/
def GivenScore (members : List (List Char × Json)) (q : ℚ) : Prop :=
  ∃ before m after n, members = before ++ m :: after ∧ Names "score" m ∧ m.2 = .number n ∧
    Json.toDouble n.value = some q ∧ ∀ m' ∈ after, Names "score" m' → m'.2 = .null

/-- A score is given, or the reason is of another type than it should be. -/
def ScoreOrIllTyped (members : List (List Char × Json)) : Prop :=
  (∃ m ∈ members, Names "score" m ∧ m.2 ≠ .null) ∨
    ∃ m ∈ members, Names "reason" m ∧ m.2 ≠ .null ∧ ∀ s, m.2 ≠ .string s

/-! ### Storing members -/

variable {r : Decoded} {m : List Char × Json} {members : List (List Char × Json)}

theorem not_names_reason (hscore : Names "score" m) : ¬ Names "reason" m := fun hreason =>
  absurd (hscore.symm.trans hreason) (by decide)

/-- What was stored without an error: a number as the score, or a member that leaves the score
alone. -/
theorem storeMember_spec (h : (storeMember r m).failed = false) : r.failed = false ∧
    (Names "score" m ∧ (∃ n, m.2 = .number n ∧
        Json.toDouble n.value = some (storeMember r m).score) ∨
      (Names "score" m → m.2 = .null) ∧ (storeMember r m).score = r.score) ∧
    (Names "reason" m → m.2 = .null ∨ ∃ s, m.2 = .string s) := by
  unfold storeMember at h ⊢
  -- the two names differ also up to case, so a member fills at most one field
  by_cases hscore : Names "score" m
  · have hno : Names "reason" m → m.2 = .null ∨ ∃ s, m.2 = .string s := fun hreason =>
      absurd hreason (not_names_reason hscore)
    simp only [if_pos hscore] at h ⊢
    split at h
    · rename_i hnull
      exact ⟨h, Or.inr ⟨fun _ => hnull, rfl⟩, hno⟩
    · rename_i n hn
      split at h
      · rename_i q hq
        refine ⟨h, Or.inl ⟨hscore, n, hn, ?_⟩, hno⟩
        simp only [hq]
      · cases h
    · cases h
  · by_cases hreason : Names "reason" m
    · simp only [if_neg hscore, if_pos hreason] at h ⊢
      split at h
      · rename_i hnull
        exact ⟨h, Or.inr ⟨fun hs => absurd hs hscore, rfl⟩, fun _ => Or.inl hnull⟩
      · rename_i t ht
        exact ⟨h, Or.inr ⟨fun hs => absurd hs hscore, rfl⟩, fun _ => Or.inr ⟨t, ht⟩⟩
      · cases h
    · simp only [if_neg hscore, if_neg hreason] at h ⊢
      exact ⟨h, Or.inr ⟨fun hs => absurd hs hscore, trivial⟩, fun hr => absurd hr hreason⟩

theorem storeMember_of_silent (hr : r.failed = false) (hscore : Names "score" m → m.2 = .null)
    (hreason : Names "reason" m → m.2 = .null ∨ ∃ s, m.2 = .string s) :
    (storeMember r m).failed = false ∧ (storeMember r m).score = r.score := by
  unfold storeMember
  by_cases hs : Names "score" m
  · simp only [if_pos hs, hscore hs]
    exact ⟨hr, trivial⟩
  · by_cases hn : Names "reason" m
    · rcases hreason hn with hnull | ⟨t, ht⟩
      · simp only [if_neg hs, if_pos hn, hnull]
        exact ⟨hr, trivial⟩
      · simp only [if_neg hs, if_pos hn, ht]
        exact ⟨hr, trivial⟩
    · simp only [if_neg hs, if_neg hn]
      exact ⟨hr, trivial⟩

/-- The score of a record decoded without an error is the last one given, or the one it started
with. -/
theorem score_foldl (h : (members.foldl storeMember r).failed = false) :
    GivenScore members (members.foldl storeMember r).score ∨
      (∀ m ∈ members, Names "score" m → m.2 = .null) ∧
        (members.foldl storeMember r).score = r.score := by
  induction members using List.reverseRecOn with
  | nil => exact Or.inr ⟨by simp, rfl⟩
  | append_singleton members m ih =>
    rw [List.foldl_append, List.foldl_cons, List.foldl_nil] at h ⊢
    obtain ⟨hbefore, hstored, -⟩ := storeMember_spec h
    rcases hstored with ⟨hname, n, hn, hq⟩ | ⟨hnull, hsame⟩
    · exact Or.inl ⟨members, m, [], n, rfl, hname, hn, hq, by simp⟩
    · rw [hsame]
      rcases ih hbefore with ⟨before, m', after, n, rfl, hname, hn, hq, hlast⟩ | ⟨hall, hscore⟩
      · refine Or.inl ⟨before, m', after ++ [m], n, by simp, hname, hn, hq, ?_⟩
        exact List.forall_mem_append.mpr ⟨hlast, by simpa using hnull⟩
      · exact Or.inr ⟨List.forall_mem_append.mpr ⟨hall, by simpa using hnull⟩, hscore⟩

theorem reason_foldl (h : (members.foldl storeMember r).failed = false) :
    ∀ m ∈ members, Names "reason" m → m.2 = .null ∨ ∃ s, m.2 = .string s := by
  induction members using List.reverseRecOn with
  | nil => simp
  | append_singleton members m ih =>
    rw [List.foldl_append, List.foldl_cons, List.foldl_nil] at h
    obtain ⟨hbefore, -, hreason⟩ := storeMember_spec h
    exact List.forall_mem_append.mpr ⟨ih hbefore, by simpa using hreason⟩

/-- Members without a score and with a reason of the right type leave the score as it is. -/
theorem foldl_of_silent (hr : r.failed = false)
    (hscore : ∀ m ∈ members, Names "score" m → m.2 = .null)
    (hreason : ∀ m ∈ members, Names "reason" m → m.2 = .null ∨ ∃ s, m.2 = .string s) :
    (members.foldl storeMember r).failed = false ∧
      (members.foldl storeMember r).score = r.score := by
  induction members generalizing r with
  | nil => exact ⟨hr, rfl⟩
  | cons m members ih =>
    obtain ⟨hscore, hscores⟩ := List.forall_mem_cons.mp hscore
    obtain ⟨hreason, hreasons⟩ := List.forall_mem_cons.mp hreason
    obtain ⟨hfailed, hsame⟩ := storeMember_of_silent hr hscore hreason
    rw [List.foldl_cons, ← hsame]
    exact ih hfailed hscores hreasons

/-! ### The reply -/

theorem unmarshal_object (members : List (List Char × Json)) : unmarshal (.object members) =
    if (members.foldl storeMember ⟨⟨0, []⟩, false⟩).failed then none
    else some (members.foldl storeMember ⟨⟨0, []⟩, false⟩).toJudgeResponse :=
  rfl

theorem extractObject_brace {text slice : List Char} (h : extractObject text = some slice) :
    ∃ rest, slice = '{' :: rest := by
  simp only [extractObject] at h
  split_ifs at h with hne
  rw [← Option.some.inj h]
  obtain ⟨tail, htail⟩ := List.rdropWhile_prefix (fun c => decide (c ≠ '}'))
    (l := text.dropWhile fun c => decide (c ≠ '{'))
  cases hslice : (text.dropWhile fun c => decide (c ≠ '{')).rdropWhile (fun c => decide (c ≠ '}')) with
  | nil => exact absurd hslice hne
  | cons c rest =>
    have hhead : (text.dropWhile fun c => decide (c ≠ '{')).head? = some c := by
      rw [← htail, hslice]
      rfl
    have hbrace := List.head?_dropWhile_not (fun c => decide (c ≠ '{')) text
    rw [hhead] at hbrace
    exact ⟨rest, by simpa using hbrace⟩

/-- What the parser accepts is a well-typed object with the decoded score in range. -/
theorem parseJudgeResponse_ok {text : List Char} {parsed : JudgeResponse}
    (h : parseJudgeResponse text = .ok parsed) :
    0 ≤ parsed.score ∧ parsed.score ≤ 1 ∧ ∃ members, extractedMembers text = some members ∧
      (members.foldl storeMember ⟨⟨0, []⟩, false⟩).failed = false ∧
      parsed = (members.foldl storeMember ⟨⟨0, []⟩, false⟩).toJudgeResponse := by
  unfold parseJudgeResponse at h
  split at h
  · cases h
  · rename_i slice hslice
    split at h
    · cases h
    · rename_i decoded hdecoded
      split_ifs at h with hrange
      obtain rfl := Except.ok.inj h
      obtain ⟨v, hv, hunmarshal⟩ := Option.bind_eq_some_iff.mp hdecoded
      -- the slice starts with a brace, so what parses is an object
      obtain ⟨rest, rfl⟩ := extractObject_brace hslice
      obtain ⟨members, rfl⟩ := Json.parse_brace hv
      push Not at hrange
      refine ⟨hrange.1, hrange.2, members, ?_, ?_⟩
      · rw [extractedMembers, hslice, Option.bind_some, hv]
      · rw [unmarshal_object] at hunmarshal
        split_ifs at hunmarshal with hfailed
        exact ⟨by simpa using hfailed, (Option.some.inj hunmarshal).symm⟩

/-- An object decoded to the score zero is accepted. -/
theorem parseJudgeResponse_of_decoded {text : List Char}
    (hmembers : extractedMembers text = some members)
    (hfailed : (members.foldl storeMember ⟨⟨0, []⟩, false⟩).failed = false)
    (hzero : (members.foldl storeMember ⟨⟨0, []⟩, false⟩).score = 0) :
    parseJudgeResponse text =
      .ok (members.foldl storeMember ⟨⟨0, []⟩, false⟩).toJudgeResponse := by
  unfold extractedMembers at hmembers
  split at hmembers
  · rename_i ms hparse
    rw [Option.some.inj hmembers] at hparse
    obtain ⟨slice, hslice, hobject⟩ := Option.bind_eq_some_iff.mp hparse
    have hdecoded : (Json.parse slice).bind unmarshal =
        some (members.foldl storeMember ⟨⟨0, []⟩, false⟩).toJudgeResponse := by
      rw [hobject, Option.bind_some, unmarshal_object, hfailed]
      rfl
    -- zero is within the range of scores
    have hrange : ¬ ((members.foldl storeMember ⟨⟨0, []⟩, false⟩).score < 0 ∨
        (members.foldl storeMember ⟨⟨0, []⟩, false⟩).score > 1) := by
      rw [hzero]
      norm_num
    simp only [parseJudgeResponse, hslice, hdecoded]
    exact if_neg hrange
  · cases hmembers

/-- **An accepted reply carries its score, a number from zero to one, exactly if its object gives
a score or is ill-typed.** -/
theorem parseJudgeResponse_givenScore_iff (text : List Char) :
    (∀ parsed, parseJudgeResponse text = .ok parsed → 0 ≤ parsed.score ∧ parsed.score ≤ 1 ∧
        ∃ members, extractedMembers text = some members ∧ GivenScore members parsed.score) ↔
      ∀ members, extractedMembers text = some members → ScoreOrIllTyped members := by
  constructor
  · intro h members hmembers
    by_contra hsilent
    simp only [ScoreOrIllTyped, not_or, not_exists, not_and, not_not, not_forall] at hsilent
    obtain ⟨hscore, hreason⟩ := hsilent
    -- such an object is decoded to the score zero
    obtain ⟨hfailed, hzero⟩ := foldl_of_silent (r := ⟨⟨0, []⟩, false⟩) rfl hscore fun m hm hn => by
      by_cases hnull : m.2 = .null
      · exact Or.inl hnull
      · exact Or.inr (hreason m hm hn hnull)
    obtain ⟨-, -, members', hmembers', before, m, after, n, rfl, hname, hn, -⟩ :=
      h _ (parseJudgeResponse_of_decoded hmembers hfailed hzero)
    obtain rfl := Option.some.inj (hmembers.symm.trans hmembers')
    rw [hscore m (by simp) hname] at hn
    cases hn
  · intro h parsed hparsed
    obtain ⟨hlo, hhi, members, hmembers, hfailed, rfl⟩ := parseJudgeResponse_ok hparsed
    refine ⟨hlo, hhi, members, hmembers, ?_⟩
    rcases score_foldl hfailed with hgiven | ⟨hnull, -⟩
    · exact hgiven
    · rcases h members hmembers with ⟨m, hm, hname, hne⟩ | ⟨m, hm, hname, hne, hstring⟩
      · exact absurd (hnull m hm hname) hne
      · rcases reason_foldl hfailed m hm hname with hn | ⟨s, hs⟩
        · exact absurd hn hne
        · exact absurd hs (hstring s)

/-- A judge that gives no score is read as one that gives zero. -/
theorem not_parseJudgeResponse_givenScore : ¬ ∀ (text : List Char) (parsed : JudgeResponse),
    parseJudgeResponse text = .ok parsed → 0 ≤ parsed.score ∧ parsed.score ≤ 1 ∧
      ∃ members, extractedMembers text = some members ∧ GivenScore members parsed.score := by
  intro h
  have hzero : parseJudgeResponse "{}".toList = .ok ⟨0, []⟩ := rfl
  obtain ⟨-, -, members, hmembers, before, m, after, n, hsplit, -⟩ := h _ _ hzero
  obtain rfl : [] = members := Option.some.inj hmembers
  simp at hsplit

end HubScope
