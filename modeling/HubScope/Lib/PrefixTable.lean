import Mathlib.Data.List.MinMax
import Mathlib.Data.List.Nodup
import Mathlib.Order.WithBot

/-!
# Tables of patterns

A table holds entries for keys by a pattern, which is either one key or a word that the keys begin
with. Several patterns may cover a key. The most specific one is taken: the key itself before any
beginning of it, and a longer beginning before a shorter one. Two patterns that cover a key and
are equally specific are the same, so among entries with distinct patterns there is no tie, and
the order of the table does not matter.

## Main definitions

* `PrefixTable.Pattern` — a key, or a beginning of keys
* `PrefixTable.Pattern.Covers`, `PrefixTable.Pattern.specificity` — the keys, and the order
* `PrefixTable.find` — the first of the most specific entries for a key
* `PrefixTable.findFrom` — the scan of a table that goes on from the best entry so far

## Main results

* `PrefixTable.Pattern.eq_of_specificity` — no ties between the patterns that cover a key
* `PrefixTable.find_eq_some_iff` — with distinct patterns, the most specific entry
* `PrefixTable.find_perm` — with distinct patterns, whatever the order
* `PrefixTable.findFrom_exact` — a scan may stop at the key itself
-/

set_option autoImplicit false

namespace PrefixTable

variable {σ ι : Type*}

/-- One key, or all the keys that begin with a word. -/
inductive Pattern (σ : Type*)
  | exact (key : List σ)
  | beginning (word : List σ)

/-- The pattern covers the key. -/
def Pattern.Covers : Pattern σ → List σ → Prop
  | .exact key', key => key' = key
  | .beginning word, key => word <+: key

instance [DecidableEq σ] (p : Pattern σ) (key : List σ) : Decidable (p.Covers key) :=
  match p with
  | .exact key' => inferInstanceAs (Decidable (key' = key))
  | .beginning word => inferInstanceAs (Decidable (word <+: key))

/-- How much a pattern says of the keys it covers; a key itself says all. -/
def Pattern.specificity : Pattern σ → WithTop ℕ
  | .exact _ => ⊤
  | .beginning word => WithTop.some word.length

/-- The patterns that cover a key are told apart by how specific they are. -/
theorem Pattern.eq_of_specificity {p q : Pattern σ} {key : List σ} (hp : p.Covers key)
    (hq : q.Covers key) (h : p.specificity = q.specificity) : p = q := by
  cases p with
  | exact key₁ =>
    cases q with
    | exact key₂ => exact congrArg Pattern.exact (Eq.trans hp (Eq.symm hq))
    | beginning word => exact absurd h WithTop.top_ne_coe
  | beginning word₁ =>
    cases q with
    | exact key => exact absurd h WithTop.coe_ne_top
    | beginning word₂ =>
      -- of two beginnings of the key one begins the other
      have hlength : word₁.length = word₂.length := WithTop.coe_injective h
      have hbegins := List.prefix_of_prefix_length_le hp hq hlength.le
      exact congrArg Pattern.beginning (hbegins.eq_of_length hlength)

section Find

variable [DecidableEq σ] (pattern : ι → Pattern σ) (key : List σ)

/-- The entry with the most specific pattern that covers the key, the first of several. -/
def find (table : List ι) : Option ι :=
  (table.filter fun e => (pattern e).Covers key).argmax fun e => (pattern e).specificity

variable {pattern key} {table table' : List ι} {e e' : ι}

theorem find_eq_none_iff :
    find pattern key table = none ↔ ∀ e ∈ table, ¬ (pattern e).Covers key := by
  simp [find, List.filter_eq_nil_iff]

theorem mem_of_find (h : find pattern key table = some e) :
    e ∈ table ∧ (pattern e).Covers key := by
  simpa using List.argmax_mem h

theorem specificity_le_of_find (h : find pattern key table = some e) (hmem : e' ∈ table)
    (hcovers : (pattern e').Covers key) :
    (pattern e').specificity ≤ (pattern e).specificity := by
  have hcovering : e' ∈ table.filter fun e => (pattern e).Covers key :=
    List.mem_filter.mpr ⟨hmem, decide_eq_true hcovers⟩
  exact List.le_of_mem_argmax (f := fun e => (pattern e).specificity) hcovering h

/-- **With distinct patterns the most specific entry is found.** -/
theorem find_eq_some_iff (hdistinct : (table.map pattern).Nodup) :
    find pattern key table = some e ↔ e ∈ table ∧ (pattern e).Covers key ∧
      ∀ e' ∈ table, (pattern e').Covers key →
        (pattern e').specificity ≤ (pattern e).specificity := by
  constructor
  · intro h
    obtain ⟨hmem, hcovers⟩ := mem_of_find h
    exact ⟨hmem, hcovers, fun e' => specificity_le_of_find h⟩
  · rintro ⟨hmem, hcovers, hmost⟩
    cases hfind : find pattern key table with
    | none => exact absurd hcovers (find_eq_none_iff.mp hfind e hmem)
    | some e' =>
      obtain ⟨hmem', hcovers'⟩ := mem_of_find hfind
      have hsame := Pattern.eq_of_specificity hcovers' hcovers
        (le_antisymm (hmost e' hmem' hcovers') (specificity_le_of_find hfind hmem hcovers))
      exact congrArg some (List.inj_on_of_nodup_map hdistinct hmem' hmem hsame)

/-- **With distinct patterns the order of the table does not matter.** -/
theorem find_perm (hdistinct : (table.map pattern).Nodup) (h : table'.Perm table) :
    find pattern key table' = find pattern key table := by
  have hdistinct' : (table'.map pattern).Nodup := (h.map pattern).nodup_iff.mpr hdistinct
  refine Option.ext fun e => ?_
  rw [find_eq_some_iff hdistinct', find_eq_some_iff hdistinct]
  simp only [h.mem_iff]

/-- Where no pattern is the key itself, the longest beginning of it is found. -/
theorem find_eq_some_of_beginning (hdistinct : (table.map pattern).Nodup) (hmem : e ∈ table)
    {word : List σ} (hpattern : pattern e = .beginning word) (hword : word <+: key)
    (hexact : ∀ e' ∈ table, pattern e' ≠ .exact key)
    (hlongest : ∀ e' ∈ table, ∀ word', pattern e' = .beginning word' → word' <+: key →
      word'.length ≤ word.length) : find pattern key table = some e := by
  refine (find_eq_some_iff hdistinct).mpr ⟨hmem, hpattern ▸ hword, fun e' hmem' hcovers => ?_⟩
  cases hpattern' : pattern e' with
  | exact key' =>
    rw [hpattern'] at hcovers
    exact absurd (hpattern'.trans (congrArg _ hcovers)) (hexact e' hmem')
  | beginning word' =>
    rw [hpattern'] at hcovers
    rw [hpattern]
    exact WithTop.coe_le_coe.mpr (hlongest e' hmem' word' hpattern' hcovers)

/-- The key itself is found before any beginning of it. -/
theorem find_eq_some_of_exact (hdistinct : (table.map pattern).Nodup) (hmem : e ∈ table)
    (hpattern : pattern e = .exact key) : find pattern key table = some e := by
  have hcovers : (pattern e).Covers key := by rw [hpattern, Pattern.Covers]
  refine (find_eq_some_iff hdistinct).mpr ⟨hmem, hcovers, fun e' _ _ => ?_⟩
  rw [hpattern]
  exact le_top

end Find

section Scan

variable [DecidableEq σ] (pattern : ι → Pattern σ) (key : List σ)

/-- The scan of the rest of a table with the best entry so far. -/
def findFrom (best : Option ι) (table : List ι) : Option ι :=
  (table.filter fun e => (pattern e).Covers key).foldl
    (List.argAux fun b c => (pattern c).specificity < (pattern b).specificity) best

variable {pattern key} {best : Option ι} {table : List ι} {b e : ι}

@[simp] theorem findFrom_nil : findFrom pattern key best [] = best := rfl

theorem findFrom_cons_of_not_covers (h : ¬ (pattern e).Covers key) :
    findFrom pattern key best (e :: table) = findFrom pattern key best table := by
  rw [findFrom, findFrom, List.filter_cons_of_neg (by simpa using h)]

/-- A more specific entry takes over. -/
theorem findFrom_cons_of_lt (h : (pattern e).Covers key)
    (hlt : ∀ b ∈ best, (pattern b).specificity < (pattern e).specificity) :
    findFrom pattern key best (e :: table) = findFrom pattern key (some e) table := by
  rw [findFrom, findFrom, List.filter_cons_of_pos (by simpa using h), List.foldl_cons]
  congr 1
  cases best with
  | none => rfl
  | some b => exact if_pos (hlt b rfl)

/-- An entry that is not more specific is passed over. -/
theorem findFrom_cons_of_le (hle : (pattern e).specificity ≤ (pattern b).specificity) :
    findFrom pattern key (some b) (e :: table) = findFrom pattern key (some b) table := by
  by_cases h : (pattern e).Covers key
  · rw [findFrom, findFrom, List.filter_cons_of_pos (by simpa using h), List.foldl_cons]
    congr 1
    exact if_neg (not_lt.mpr hle)
  · exact findFrom_cons_of_not_covers h

/-- Once the key itself is found the scan may stop. -/
theorem findFrom_exact {key' : List σ} (h : pattern b = .exact key') (table : List ι) :
    findFrom pattern key (some b) table = some b := by
  induction table with
  | nil => rfl
  | cons e table ih =>
    rw [findFrom_cons_of_le (by rw [h]; exact le_top), ih]

end Scan

end PrefixTable
