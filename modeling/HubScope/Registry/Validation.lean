import HubScope.Lib.Numerals
import HubScope.Registry.Lookup

/-!
# What overrides may hold

Overrides are checked when they are written: their number, and for each entry its pattern, its
tier, its prices and that some field is set. The two prices are gone through in the order of a
map, which is a parameter; it decides which error is told and never whether there is one. What is
shipped passes the same bounds, so a lookup under overrides that were accepted tells no tier and
no price out of bounds.

## Main definitions

* `Info.Bounded`, `Override.Valid` — the bounds, and the entries that are accepted
* `problem`, `validate` — the checks, with the texts of their errors

## Main results

* `validate_eq_ok_iff` — the overrides that are accepted, whatever the order of the prices
* `exists_problem_of_error` — an error is the problem of an entry before which there is none
* `lookup_bounded` — every lookup under accepted overrides is within the bounds
-/

set_option autoImplicit false

namespace HubScope.ModelRegistry

open Bytes Numerals

/-- The most entries. -/
def maxOverrides : ℕ := 200

/-- The longest pattern. -/
def maxPatternLen : ℕ := 128

/-- The highest price of a million tokens. -/
def maxPrice : ℕ := 10000

def text (s : String) : Bytes := ascii s.toList

/-- How the errors about a field of an entry begin. -/
def entryText (i : ℕ) (ov : Override) : Bytes :=
  text "entry " ++ decimal i ++ text " (" ++ ov.matchPattern ++ text "): "

/-- The prices of an entry with their names, in the order of the map. -/
def Override.prices (ov : Override) (inFirst : Bool) : List (String × Option ℚ) :=
  if inFirst then [("price_in", ov.priceIn), ("price_out", ov.priceOut)]
  else [("price_out", ov.priceOut), ("price_in", ov.priceIn)]

def priceProblem (i : ℕ) (ov : Override) (name : String) (price : Option ℚ) : Option Bytes :=
  if ∃ p ∈ price, p < 0 ∨ maxPrice < p then
    some (entryText i ov ++ text name ++ text " must be between 0 and " ++ decimal maxPrice)
  else none

/-- What is wrong with the entry at an index. -/
def problem (inFirst : Bool) (i : ℕ) (ov : Override) : Option Bytes :=
  if trimSpace ov.matchPattern = [] then
    some (text "entry " ++ decimal i ++ text ": match must not be empty")
  else if maxPatternLen < ov.matchPattern.length then
    some (text "entry " ++ decimal i ++ text ": match longer than " ++ decimal maxPatternLen ++
      text " characters")
  else if ∃ iq ∈ ov.iq, iq < 1 ∨ 10 < iq then
    some (entryText i ov ++ text "iq_tier must be between 1 and 10")
  else
    match (ov.prices inFirst).findSome? fun price => priceProblem i ov price.1 price.2 with
    | some err => some err
    | none =>
      if ov.iq = none ∧ ov.priceIn = none ∧ ov.priceOut = none then
        some (text "entry " ++ ov.matchPattern ++ text ": at least one field must be set")
      else none

def validateFrom (inFirst : ℕ → Bool) : ℕ → List Override → Except Bytes Unit
  | _, [] => .ok ()
  | i, ov :: overrides =>
    match problem (inFirst i) i ov with
    | some err => .error err
    | none => validateFrom inFirst (i + 1) overrides

/-- The check of overrides at the write boundary. `inFirst` tells of each entry whether the map of
its prices begins with the input price. -/
def validate (inFirst : ℕ → Bool) (overrides : List Override) : Except Bytes Unit :=
  if maxOverrides < overrides.length then
    .error (text "at most " ++ decimal maxOverrides ++ text " override entries")
  else validateFrom inFirst 0 overrides

/-! ### What is accepted -/

/-- Tier and prices are within the bounds where they are set. -/
structure Info.Bounded (info : Info) : Prop where
  iq : ∀ iq ∈ info.iq, 1 ≤ iq ∧ iq ≤ 10
  priceIn : ∀ p ∈ info.priceIn, 0 ≤ p ∧ p ≤ maxPrice
  priceOut : ∀ p ∈ info.priceOut, 0 ≤ p ∧ p ≤ maxPrice

/-- The pattern is neither blank nor too long, and some field is set, all within the bounds. -/
structure Override.Valid (ov : Override) : Prop where
  named : trimSpace ov.matchPattern ≠ []
  short : ov.matchPattern.length ≤ maxPatternLen
  bounded : ov.info.Bounded
  set : ov.info ≠ ⟨none, none, none⟩

variable {inFirst : ℕ → Bool} {overrides : List Override} {ov : Override} {i : ℕ}

theorem priceProblem_eq_none_iff {name : String} {price : Option ℚ} :
    priceProblem i ov name price = none ↔ ∀ p ∈ price, 0 ≤ p ∧ p ≤ maxPrice := by
  unfold priceProblem
  rw [ite_eq_right_iff]
  constructor
  · intro h p hp
    by_contra hout
    rw [not_and_or, not_le, not_le] at hout
    cases h ⟨p, hp, hout⟩
  · rintro h ⟨p, hp, hout⟩
    obtain ⟨hlo, hhi⟩ := h p hp
    exact absurd hout (not_or.mpr ⟨not_lt.mpr hlo, not_lt.mpr hhi⟩)

/-- In either order the prices have no problem just when both are within the bounds. -/
theorem findSome?_prices_eq_none_iff (first : Bool) (i : ℕ) (ov : Override) :
    ((ov.prices first).findSome? fun price => priceProblem i ov price.1 price.2) = none ↔
      (∀ p ∈ ov.priceIn, 0 ≤ p ∧ p ≤ (maxPrice : ℚ)) ∧
        ∀ p ∈ ov.priceOut, 0 ≤ p ∧ p ≤ (maxPrice : ℚ) := by
  rw [List.findSome?_eq_none_iff]
  cases first with
  | true => simp [Override.prices, priceProblem_eq_none_iff]
  | false => simp [Override.prices, priceProblem_eq_none_iff, and_comm]

/-- The checks find nothing just when the entry is valid. -/
theorem problem_eq_none_iff (first : Bool) (i : ℕ) : problem first i ov = none ↔ ov.Valid := by
  have hprices := findSome?_prices_eq_none_iff first i ov
  unfold problem
  split_ifs with hname hlen hiq hset
  · exact iff_of_false id fun h => h.named hname
  · exact iff_of_false id fun h => absurd hlen (Nat.not_lt.mpr h.short)
  · refine iff_of_false id fun h => ?_
    obtain ⟨iq, hmem, hout⟩ := hiq
    obtain ⟨hlo, hhi⟩ := h.bounded.iq iq hmem
    exact absurd hout (not_or.mpr ⟨not_lt.mpr hlo, not_lt.mpr hhi⟩)
  · -- no field is set, so no price is out of bounds either
    have hnone : ((ov.prices first).findSome? fun price => priceProblem i ov price.1 price.2) =
        none := hprices.mpr (by simp [hset])
    rw [hnone]
    refine iff_of_false (Option.some_ne_none _) fun h => h.set ?_
    rw [Override.info, hset.1, hset.2.1, hset.2.2]
  · have htier : ∀ iq ∈ ov.iq, 1 ≤ iq ∧ iq ≤ 10 := by
      intro iq hmem
      by_contra hout
      rw [not_and_or, not_le, not_le] at hout
      exact hiq ⟨iq, hmem, hout⟩
    have hinfo : ov.info ≠ ⟨none, none, none⟩ := by
      intro heq
      obtain ⟨h₁, h₂, h₃⟩ := Info.mk.inj heq
      exact hset ⟨h₁, h₂, h₃⟩
    cases hfound : (ov.prices first).findSome? fun price => priceProblem i ov price.1 price.2 with
    | some err =>
      refine iff_of_false (Option.some_ne_none _) fun h => ?_
      rw [hprices.mpr ⟨h.bounded.priceIn, h.bounded.priceOut⟩] at hfound
      cases hfound
    | none =>
      obtain ⟨hin, hout⟩ := hprices.mp hfound
      exact iff_of_true rfl ⟨hname, Nat.not_lt.mp hlen, ⟨htier, hin, hout⟩, hinfo⟩

theorem validateFrom_eq_ok_iff :
    validateFrom inFirst i overrides = .ok () ↔ ∀ ov ∈ overrides, ov.Valid := by
  induction overrides generalizing i with
  | nil => simp [validateFrom]
  | cons ov overrides ih =>
    rw [List.forall_mem_cons, ← problem_eq_none_iff (inFirst i) i, validateFrom]
    cases problem (inFirst i) i ov with
    | some err => simp
    | none => simp [ih]

/-- **Accepted are at most two hundred overrides, all of them valid**, in whatever order the prices
are gone through. -/
theorem validate_eq_ok_iff : validate inFirst overrides = .ok () ↔
    overrides.length ≤ maxOverrides ∧ ∀ ov ∈ overrides, ov.Valid := by
  unfold validate
  split_ifs with hmany
  · exact iff_of_false (by simp) fun h => absurd hmany (Nat.not_lt.mpr h.1)
  · rw [validateFrom_eq_ok_iff]
    exact (and_iff_right (Nat.not_lt.mp hmany)).symm

/-- An error of the scan is the problem of an entry, and no entry before it has one. -/
theorem exists_problem_of_error {err : Bytes} (h : validateFrom inFirst i overrides = .error err) :
    ∃ k ov, overrides[k]? = some ov ∧ problem (inFirst (i + k)) (i + k) ov = some err ∧
      ∀ ov' ∈ overrides.take k, ov'.Valid := by
  induction overrides generalizing i with
  | nil => cases h
  | cons ov overrides ih =>
    rw [validateFrom] at h
    cases hproblem : problem (inFirst i) i ov with
    | some err' =>
      rw [hproblem] at h
      cases h
      exact ⟨0, ov, rfl, hproblem, nofun⟩
    | none =>
      rw [hproblem] at h
      obtain ⟨k, ov', hget, hfound, hvalid⟩ := ih h
      refine ⟨k + 1, ov', hget, ?_, ?_⟩
      · rwa [Nat.add_right_comm] at hfound
      · rw [List.take_succ_cons, List.forall_mem_cons]
        exact ⟨(problem_eq_none_iff _ _).mp hproblem, hvalid⟩

/-! ### What is told -/

instance (info : Info) : Decidable info.Bounded :=
  decidable_of_iff ((∀ iq ∈ info.iq, 1 ≤ iq ∧ iq ≤ 10) ∧
    (∀ p ∈ info.priceIn, 0 ≤ p ∧ p ≤ (maxPrice : ℚ)) ∧
      ∀ p ∈ info.priceOut, 0 ≤ p ∧ p ≤ (maxPrice : ℚ))
    ⟨fun h => ⟨h.1, h.2.1, h.2.2⟩, fun h => ⟨h.iq, h.priceIn, h.priceOut⟩⟩

/-- What is shipped passes the checks of an override. -/
theorem builtin_bounded : ∀ e ∈ builtin, e.info.Bounded := by decide +kernel

theorem Info.Bounded.overlay {merged info : Info} (h : merged.Bounded) (h' : info.Bounded) :
    (merged.overlay info).Bounded := by
  refine ⟨fun iq hiq => ?_, fun p hp => ?_, fun p hp => ?_⟩
  · rcases Option.or_eq_some_iff.mp hiq with hiq | ⟨-, hiq⟩
    · exact h'.iq iq hiq
    · exact h.iq iq hiq
  · rcases Option.or_eq_some_iff.mp hp with hp | ⟨-, hp⟩
    · exact h'.priceIn p hp
    · exact h.priceIn p hp
  · rcases Option.or_eq_some_iff.mp hp with hp | ⟨-, hp⟩
    · exact h'.priceOut p hp
    · exact h.priceOut p hp

/-- The entry that wins is one of the entries. -/
theorem mem_of_bestMatch {id : Bytes} {entries : List Entry} {e : Entry}
    (h : bestMatch id entries = some e) : e ∈ entries := by
  rw [bestMatch_eq_find] at h
  exact (PrefixTable.mem_of_find h).1

theorem lookup_builtin_bounded (modelId : Bytes) : (lookup modelId []).Bounded := by
  unfold lookup
  cases hbest : bestMatch modelId builtin with
  | some bi => exact builtin_bounded bi (mem_of_bestMatch hbest)
  | none => exact ⟨nofun, nofun, nofun⟩

/-- **Under accepted overrides every lookup is within the bounds.** -/
theorem lookup_bounded (modelId : Bytes) (h : validate inFirst overrides = .ok ()) :
    (lookup modelId overrides).Bounded := by
  obtain ⟨-, hvalid⟩ := validate_eq_ok_iff.mp h
  cases hbest : bestOverride modelId overrides with
  | none =>
    rw [lookup_of_no_override hbest]
    exact lookup_builtin_bounded modelId
  | some info =>
    rw [lookup_of_bestOverride hbest]
    refine (lookup_builtin_bounded modelId).overlay ?_
    obtain ⟨e, he, rfl⟩ := Option.map_eq_some_iff.mp hbest
    obtain ⟨ov, hov, rfl⟩ := List.mem_map.mp (mem_of_bestMatch he)
    exact (hvalid ov hov).bounded

end HubScope.ModelRegistry
