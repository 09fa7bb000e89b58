import HubScope.Lib.Bytes
import HubScope.Lib.PrefixTable
import Mathlib.Algebra.Order.Ring.Rat
import Mathlib.Data.Rat.Floor

/-!
# The model registry

The registry tells the quality tier of a model and its prices by its id. A built-in table is
overlaid, field by field, with the entries an administrator registered. An entry is for one id,
or, with a trailing star, for all ids with a beginning. In either table the id itself wins over
its beginnings and a longer beginning over a shorter one.

Ids and patterns are texts of bytes, tiers and prices exact rationals.

## Main definitions

* `Info`, `Override`, `Entry` — what is told, and the rows of the two tables
* `builtin` — the table that is shipped
* `bestMatch`, `bestOverride`, `lookup` — the lookup, its scan with the best entry so far

## Main results

* `bestMatch_eq_find` — the scan finds the first of the most specific entries
* `lookup_of_bestOverride` — the override that wins overlays what is built in
* `lookup_precedence` — among overrides with distinct patterns the precedence alone decides
-/

set_option autoImplicit false

namespace HubScope.ModelRegistry

open Bytes PrefixTable

/-- The effective characteristics of a model. What is not registered is absent. -/
structure Info where
  iq : Option ℚ
  priceIn : Option ℚ
  priceOut : Option ℚ
  deriving DecidableEq

/-- An entry of the administrator, for the models its pattern matches. -/
structure Override where
  matchPattern : Bytes
  iq : Option ℚ
  priceIn : Option ℚ
  priceOut : Option ℚ
  deriving DecidableEq

structure Entry where
  pattern : Bytes
  info : Info
  deriving DecidableEq

/-- A row with all its fields. -/
def row (pattern : String) (iq priceIn priceOut : ℚ) : Entry :=
  ⟨ascii pattern.toList, some iq, some priceIn, some priceOut⟩

/-- The shipped snapshot. -/
def builtin : List Entry :=
  [row "claude-opus-4-*" 9.5 15.0 75.0,
    row "claude-sonnet-4-*" 8.5 3.0 15.0,
    row "claude-haiku-4-*" 7.0 1.0 5.0,
    row "gpt-4o-mini*" 7.0 0.15 0.6,
    row "gpt-4o*" 8.0 2.5 10.0,
    row "o3*" 9.5 10.0 40.0,
    row "deepseek-r1*" 9.0 0.55 2.19,
    row "deepseek-v3*" 8.5 0.27 1.1,
    row "qwen3-235b*" 9.0 2.0 8.0,
    row "qwen3-32b*" 7.5 0.3 1.0,
    row "qwen3-30b-a3b*" 7.5 0.3 1.0,
    row "qwen2.5-72b*" 7.0 0.35 1.4,
    row "glm-4-plus*" 8.0 0.5 0.5,
    row "glm-4-flash*" 6.0 0.1 0.1,
    row "llama-3.1-405b*" 8.0 3.0 3.0,
    row "llama-3.1-70b*" 7.0 0.35 0.4,
    row "llama-3.1-8b*" 5.5 0.05 0.08,
    row "mistral-large*" 8.5 2.0 6.0,
    row "gemini-2.5-pro*" 9.0 1.25 10.0,
    row "gemini-2.5-flash*" 7.5 0.3 2.5,
    row "yi-lightning*" 6.5 0.1 0.1,
    row "kimi-k2*" 8.5 0.6 2.5]

def star : Byte := byte '*'

/-- The pattern without a trailing star, where it has one. -/
def cutStar (pattern : Bytes) : Option Bytes :=
  if pattern.getLast? = some star then some pattern.dropLast else none

/-- The scan of the entries for an id with the best one so far and the length of its beginning. -/
def bestMatchFrom (id : Bytes) : Option Entry → ℤ → List Entry → Option Entry
  | best, _, [] => best
  | best, bestLen, e :: entries =>
    match cutStar e.pattern with
    | some pre =>
      if pre <+: id ∧ bestLen < pre.length then bestMatchFrom id (some e) pre.length entries
      else bestMatchFrom id best bestLen entries
    | none =>
      -- an exact pattern wins outright
      if e.pattern = id then some e else bestMatchFrom id best bestLen entries

/-- The winning entry for an id. -/
def bestMatch (id : Bytes) (entries : List Entry) : Option Entry :=
  bestMatchFrom id none (-1) entries

def Override.info (ov : Override) : Info := ⟨ov.iq, ov.priceIn, ov.priceOut⟩

def Override.entry (ov : Override) : Entry := ⟨ov.matchPattern, ov.info⟩

/-- The info of the winning override. -/
def bestOverride (id : Bytes) (overrides : List Override) : Option Info :=
  (bestMatch id (overrides.map Override.entry)).map Entry.info

/-- The info with the fields another one has in place of its own. -/
def Info.overlay (merged ov : Info) : Info where
  iq := ov.iq.or merged.iq
  priceIn := ov.priceIn.or merged.priceIn
  priceOut := ov.priceOut.or merged.priceOut

/-- The effective info of a model. -/
def lookup (modelId : Bytes) (overrides : List Override) : Info :=
  let merged := match bestMatch modelId builtin with
    | some bi => bi.info
    | none => ⟨none, none, none⟩
  match bestOverride modelId overrides with
  | some ov => merged.overlay ov
  | none => merged

example : lookup (ascii "gpt-4o-mini-2024-07-18".toList) [] = ⟨some 7, some 0.15, some 0.6⟩ := by
  decide +kernel

/-! ### Patterns -/

/-- What a pattern stands for. -/
def readPattern (pattern : Bytes) : Pattern Byte :=
  match cutStar pattern with
  | some pre => .beginning pre
  | none => .exact pattern

variable {p : Bytes} {id : Bytes}

theorem cutStar_eq_some_iff {pre : Bytes} : cutStar p = some pre ↔ p = pre ++ [star] := by
  unfold cutStar
  constructor
  · intro h
    obtain ⟨hlast, hpre⟩ := Option.ite_none_right_eq_some.mp h
    cases hpre
    exact (List.dropLast_append_getLast? star hlast).symm
  · rintro rfl
    rw [List.getLast?_concat, if_pos rfl, List.dropLast_concat]

theorem cutStar_eq_none_iff : cutStar p = none ↔ p.getLast? ≠ some star := by
  simp [cutStar]

theorem readPattern_eq_beginning_iff {pre : Bytes} :
    readPattern p = .beginning pre ↔ p = pre ++ [star] := by
  rw [← cutStar_eq_some_iff, readPattern]
  cases cutStar p with
  | some pre' => simp
  | none => simp

theorem readPattern_eq_exact_iff {key : Bytes} :
    readPattern p = .exact key ↔ p = key ∧ p.getLast? ≠ some star := by
  rw [← cutStar_eq_none_iff, readPattern]
  cases cutStar p with
  | some pre => simp
  | none => simp

/-- A pattern is what it stands for. -/
theorem readPattern_injective : Function.Injective readPattern := by
  intro p q h
  cases hq : readPattern q with
  | exact key =>
    rw [hq] at h
    exact (readPattern_eq_exact_iff.mp h).1.trans (readPattern_eq_exact_iff.mp hq).1.symm
  | beginning pre =>
    rw [hq] at h
    exact (readPattern_eq_beginning_iff.mp h).trans (readPattern_eq_beginning_iff.mp hq).symm

/-! ### The scan -/

/-- What the pattern of an entry stands for. -/
def Entry.reads (e : Entry) : Pattern Byte := readPattern e.pattern

/-- What the scan holds: nothing yet, or the entry with the longest beginning so far. -/
inductive Running : Option Entry → ℤ → Prop
  | nothing : Running none (-1)
  | longest {b : Entry} {pre : Bytes} (h : b.reads = .beginning pre) :
      Running (some b) pre.length

/-- The scan goes on as the one of the table of patterns does. -/
theorem bestMatchFrom_eq_findFrom {best : Option Entry} {bestLen : ℤ} {entries : List Entry}
    (h : Running best bestLen) :
    bestMatchFrom id best bestLen entries =
      findFrom Entry.reads id best entries := by
  induction entries generalizing best bestLen with
  | nil => rfl
  | cons e entries ih =>
    unfold bestMatchFrom
    split
    next pre hpre =>
      have hread : e.reads = .beginning pre := by rw [Entry.reads, readPattern, hpre]
      have hcovers : e.reads.Covers id ↔ pre <+: id := by
        rw [hread, Pattern.Covers]
      split_ifs with hlonger
      · obtain ⟨hbegins, hlen⟩ := hlonger
        -- longer than the best so far: it becomes the best
        rw [ih (.longest hread), findFrom_cons_of_lt (hcovers.mpr hbegins)]
        rintro b hb
        cases h with
        | nothing => cases hb
        | longest hb' =>
          cases hb
          rw [hread, hb']
          exact WithTop.coe_lt_coe.mpr (Nat.cast_lt.mp hlen)
      · rw [ih h]
        -- a prefix as long as the best or shorter leaves the earlier entry in place
        by_cases hbegins : pre <+: id
        · have hlen : ¬ bestLen < pre.length := fun hlen => hlonger ⟨hbegins, hlen⟩
          cases h with
          | nothing => omega
          | longest hb =>
            refine (findFrom_cons_of_le ?_).symm
            rw [hread, hb]
            exact WithTop.coe_le_coe.mpr (by omega)
        · exact (findFrom_cons_of_not_covers (mt hcovers.mp hbegins)).symm
    next hnone =>
      have hread : e.reads = .exact e.pattern := by rw [Entry.reads, readPattern, hnone]
      have hcovers : e.reads.Covers id ↔ e.pattern = id := by
        rw [hread, Pattern.Covers]
      split_ifs with hid
      · -- an exact match returns at once, and no pattern reads higher
        rw [findFrom_cons_of_lt (hcovers.mpr hid), findFrom_exact hread]
        rintro b hb
        cases h with
        | nothing => cases hb
        | longest hb' =>
          cases hb
          rw [hread, hb']
          exact WithTop.coe_lt_top _
      · rw [ih h, findFrom_cons_of_not_covers (mt hcovers.mp hid)]

/-- **The scan finds the first of the most specific entries.** -/
theorem bestMatch_eq_find (id : Bytes) (entries : List Entry) :
    bestMatch id entries = find Entry.reads id entries :=
  bestMatchFrom_eq_findFrom .nothing

/-- Distinct patterns stand for distinct ones. -/
theorem nodup_reads {entries : List Entry} (hdistinct : (entries.map (·.pattern)).Nodup) :
    (entries.map Entry.reads).Nodup := by
  have hreads := hdistinct.map readPattern_injective
  rw [List.map_map] at hreads
  exact hreads

/-- With distinct patterns the order of the entries does not matter. -/
theorem bestMatch_perm {entries entries' : List Entry} (hdistinct : (entries.map (·.pattern)).Nodup)
    (h : entries'.Perm entries) : bestMatch id entries' = bestMatch id entries := by
  rw [bestMatch_eq_find, bestMatch_eq_find, find_perm (nodup_reads hdistinct) h]

/-! ### Overrides -/

/-- The override is for the id itself. -/
def Override.IsExact (ov : Override) (id : Bytes) : Prop :=
  ov.matchPattern = id ∧ ov.matchPattern.getLast? ≠ some star

/-- The override is for a beginning of the id. -/
def Override.IsBeginning (ov : Override) (id : Bytes) : Prop :=
  ∃ pre, ov.matchPattern = pre ++ [star] ∧ pre <+: id

instance (ov : Override) (id : Bytes) : Decidable (ov.IsExact id) :=
  inferInstanceAs (Decidable (_ ∧ _))

instance (ov : Override) (id : Bytes) : Decidable (ov.IsBeginning id) :=
  decidable_of_iff (∃ pre ∈ cutStar ov.matchPattern, pre <+: id)
    (by simp only [Override.IsBeginning, Option.mem_def, cutStar_eq_some_iff])

variable {modelId : Bytes} {overrides : List Override} {ov : Override} {info : Info}

/-- What overlays the built-in info is the info of the winning override. -/
theorem lookup_of_bestOverride (h : bestOverride modelId overrides = some info) :
    lookup modelId overrides = (lookup modelId []).overlay info := by
  rw [lookup, h]
  rfl

theorem lookup_of_no_override (h : bestOverride modelId overrides = none) :
    lookup modelId overrides = lookup modelId [] := by
  rw [lookup, h]
  rfl

/-- The override wins, and overlays what is built in. -/
structure Wins (modelId : Bytes) (overrides : List Override) (ov : Override) : Prop where
  best : bestOverride modelId overrides = some ov.info
  overlays : lookup modelId overrides = (lookup modelId []).overlay ov.info

/-- An override whose entry is found wins. -/
theorem wins_of_find (h : find Entry.reads modelId (overrides.map Override.entry) = some ov.entry) :
    Wins modelId overrides ov := by
  have hbest : bestOverride modelId overrides = some ov.info := by
    rw [bestOverride, bestMatch_eq_find, h]
    rfl
  exact ⟨hbest, lookup_of_bestOverride hbest⟩

/-- Where no override is for the id or a beginning of it, what is built in is told. -/
theorem lookup_of_no_match (hexact : ∀ o ∈ overrides, ¬ o.IsExact modelId)
    (hbeginning : ∀ o ∈ overrides, ¬ o.IsBeginning modelId) :
    lookup modelId overrides = lookup modelId [] := by
  apply lookup_of_no_override
  rw [bestOverride, bestMatch_eq_find, Option.map_eq_none_iff, find_eq_none_iff]
  intro e he hcovers
  obtain ⟨o, ho, rfl⟩ := List.mem_map.mp he
  cases hread : o.entry.reads with
  | exact key =>
    rw [hread] at hcovers
    obtain rfl : key = modelId := hcovers
    exact hexact o ho (readPattern_eq_exact_iff.mp hread)
  | beginning pre =>
    rw [hread] at hcovers
    exact hbeginning o ho ⟨pre, readPattern_eq_beginning_iff.mp hread, hcovers⟩

section Distinct

variable (hdistinct : (overrides.map (·.matchPattern)).Nodup)
include hdistinct

theorem nodup_entries : ((overrides.map Override.entry).map Entry.pattern).Nodup := by
  rw [List.map_map]
  exact hdistinct

/-- The order of the overrides does not matter. -/
theorem lookup_perm {overrides' : List Override} (h : overrides'.Perm overrides) :
    lookup modelId overrides' = lookup modelId overrides := by
  have hsame : bestOverride modelId overrides' = bestOverride modelId overrides := by
    rw [bestOverride, bestOverride, bestMatch_perm (nodup_entries hdistinct) (h.map _)]
  rw [lookup, lookup, hsame]

/-- An override for the id itself wins. -/
theorem wins_of_isExact (hmem : ov ∈ overrides) (h : ov.IsExact modelId) :
    Wins modelId overrides ov :=
  wins_of_find (find_eq_some_of_exact (nodup_reads (nodup_entries hdistinct))
    (List.mem_map_of_mem hmem) (readPattern_eq_exact_iff.mpr h))

/-- Without one the longest beginning wins. -/
theorem wins_of_isBeginning (hmem : ov ∈ overrides) (h : ov.IsBeginning modelId)
    (hexact : ∀ o ∈ overrides, ¬ o.IsExact modelId)
    (hlongest : ∀ o ∈ overrides, o.IsBeginning modelId →
      o.matchPattern.length ≤ ov.matchPattern.length) : Wins modelId overrides ov := by
  obtain ⟨pre, hpattern, hbegins⟩ := h
  refine wins_of_find (find_eq_some_of_beginning (nodup_reads (nodup_entries hdistinct))
    (List.mem_map_of_mem hmem) (readPattern_eq_beginning_iff.mpr hpattern) hbegins ?_ ?_)
  · intro e he hread
    obtain ⟨o, ho, rfl⟩ := List.mem_map.mp he
    exact hexact o ho (readPattern_eq_exact_iff.mp hread)
  · intro e he pre' hread hbegins'
    obtain ⟨o, ho, rfl⟩ := List.mem_map.mp he
    have hpattern' := readPattern_eq_beginning_iff.mp hread
    -- both patterns are a beginning and the star
    have hlen := hlongest o ho ⟨pre', hpattern', hbegins'⟩
    rw [show o.matchPattern = pre' ++ [star] from hpattern', hpattern, List.length_append,
      List.length_append] at hlen
    exact Nat.le_of_add_le_add_right hlen

end Distinct

/-- **The precedence alone decides.** Among overrides with distinct patterns the one for the id
itself wins over those for its beginnings, and without it the one for the longest beginning. The
order of the overrides does not matter. -/
theorem lookup_precedence (modelId : Bytes) (overrides : List Override)
    (hdistinct : (overrides.map (·.matchPattern)).Nodup) :
    (∀ overrides' : List Override, overrides'.Perm overrides →
      lookup modelId overrides' = lookup modelId overrides) ∧
    (∀ ov ∈ overrides, ov.IsExact modelId → Wins modelId overrides ov) ∧
    (∀ ov ∈ overrides, ov.IsBeginning modelId → (∀ o ∈ overrides, ¬ o.IsExact modelId) →
      (∀ o ∈ overrides, o.IsBeginning modelId →
        o.matchPattern.length ≤ ov.matchPattern.length) → Wins modelId overrides ov) ∧
    ((∀ o ∈ overrides, ¬ o.IsExact modelId) → (∀ o ∈ overrides, ¬ o.IsBeginning modelId) →
      lookup modelId overrides = lookup modelId []) :=
  ⟨fun _ => lookup_perm hdistinct, fun _ => wins_of_isExact hdistinct,
    fun _ => wins_of_isBeginning hdistinct, lookup_of_no_match⟩

def family : Override := ⟨ascii "gpt-4o*".toList, some 9, none, none⟩
def minis : Override := ⟨ascii "gpt-4o-mini*".toList, none, some 0.2, none⟩
def mini : Override := ⟨ascii "gpt-4o-mini".toList, none, none, some 0.7⟩

/-- Of three overrides the one for the id, and for another id the longer of two beginnings. -/
theorem lookup_precedence_mini :
    Wins (ascii "gpt-4o-mini".toList) [family, minis, mini] mini ∧
    Wins (ascii "gpt-4o-mini-2024".toList) [family, minis, mini] minis ∧
    lookup (ascii "gpt-4o-mini-2024".toList) [mini, family, minis] =
      lookup (ascii "gpt-4o-mini-2024".toList) [family, minis, mini] ∧
    lookup (ascii "o1".toList) [family, minis, mini] = lookup (ascii "o1".toList) [] := by
  have hdistinct : ([family, minis, mini].map (·.matchPattern)).Nodup := by decide +kernel
  obtain ⟨-, hexact, -, -⟩ := lookup_precedence (ascii "gpt-4o-mini".toList) _ hdistinct
  obtain ⟨hperm, -, hlongest, -⟩ :=
    lookup_precedence (ascii "gpt-4o-mini-2024".toList) _ hdistinct
  obtain ⟨-, -, -, hnone⟩ := lookup_precedence (ascii "o1".toList) _ hdistinct
  exact ⟨hexact mini (by decide +kernel) (by decide +kernel),
    hlongest minis (by decide +kernel) (by decide +kernel) (by decide +kernel) (by decide +kernel),
    hperm _ (by decide +kernel), hnone (by decide +kernel) (by decide +kernel)⟩

end HubScope.ModelRegistry
