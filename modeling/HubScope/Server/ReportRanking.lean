import HubScope.Lib.Ranking
import HubScope.Server.ReportScoring
import Mathlib.Data.Prod.Lex
import Mathlib.Data.String.Basic

/-!
# The ranking of a campaign's report

A settled report ranks its rows by the total or by a suite: complete rows before incomplete
ones, higher scores first, ties by model id, and complete rows without a score in the column
behind those with one. Two complete rows that both lack a score in the column are tied. They
stay in the order they came, and the model id does not decide.

The board of a running campaign ranks by the total and compares the model ids of two rows
without one.

## Main definitions

* `reportLess`, `sortReportRows` — the ranking of a settled report
* `liveLess`, `liveReportRows` — the board of a running campaign
* `WellRanked` — the ranking is well defined

## Main results

* `reportLess_iff`, `liveLess_iff` — the comparators compare keys
* `wellRanked_iff` — when the ranking of a settled report is well defined
* `sortLive_eq_of_perm` — the board does not depend on the order of its rows
-/

set_option autoImplicit false

namespace HubScope

variable {sortKey : String} {rows : List ReportRowDTO} {a b : ReportRowDTO}

/-! ### Settled reports -/

/-- A row that the gate did not mark incomplete. -/
def ReportRowDTO.rankable (row : ReportRowDTO) : Bool := row.complete.getD true

/-- The score a row is ranked by. -/
def ReportRowDTO.column (row : ReportRowDTO) (sortKey : String) : Option ℚ :=
  if sortKey = "total" then row.totalScore else row.suiteScore sortKey

/-- Whether a row ranks before another. -/
def reportLess (sortKey : String) (a b : ReportRowDTO) : Bool :=
  if a.rankable ≠ b.rankable then a.rankable
  else if a.rankable = false then a.modelId < b.modelId
  else
    match a.column sortKey, b.column sortKey with
    | some p, some q => if p ≠ q then q < p else a.modelId < b.modelId
    | p, _ => p.isSome

/-- Rank the rows. What the comparator ties stays in the order it came. -/
def sortReportRows (rows : List ReportRowDTO) (sortKey : String) : List ReportRowDTO :=
  Ranking.sortStable (fun a b => reportLess sortKey a b = true) rows

/-- Where a row belongs: its group, in the group its score downwards, and its model id. A
complete row without a score has no place of its own in its group. -/
def rankKey (sortKey : String) (row : ReportRowDTO) : ℕ ×ₗ ℚ ×ₗ String :=
  if row.rankable then
    match row.column sortKey with
    | some q => toLex (0, toLex (-q, row.modelId))
    | none => toLex (1, toLex (0, ""))
  else toLex (2, toLex (0, row.modelId))

/-- **The comparator.** It compares where the rows belong. -/
theorem reportLess_iff (sortKey : String) (a b : ReportRowDTO) :
    reportLess sortKey a b = true ↔ rankKey sortKey a < rankKey sortKey b := by
  unfold reportLess rankKey
  cases ha : a.rankable <;> cases hb : b.rankable
  · simp [Prod.Lex.toLex_lt_toLex]
  · cases hcolumn : b.column sortKey <;> simp [Prod.Lex.toLex_lt_toLex]
  · cases hcolumn : a.column sortKey <;> simp [Prod.Lex.toLex_lt_toLex]
  · cases hp : a.column sortKey <;> cases hq : b.column sortKey
    · simp
    · simp [Prod.Lex.toLex_lt_toLex]
    · simp [Prod.Lex.toLex_lt_toLex]
    · rename_i p q
      by_cases hpq : p = q
      · simp [Prod.Lex.toLex_lt_toLex, hpq]
      · simp [Prod.Lex.toLex_lt_toLex, hpq]

instance (sortKey : String) :
    IsStrictWeakOrder ReportRowDTO fun a b => reportLess sortKey a b = true :=
  Ranking.isStrictWeakOrder_of_key (rankKey sortKey) (reportLess_iff sortKey)

theorem rankable_iff : a.rankable = true ↔ a.complete ≠ some false := by
  unfold ReportRowDTO.rankable
  cases a.complete with
  | none => simp
  | some complete => cases complete <;> simp

/-- The ranking is well defined: the comparator is a strict weak order that ties no two rows,
the order the rows come in does not matter, and incomplete rows come last. -/
structure WellRanked (sortKey : String) (rows : List ReportRowDTO) : Prop where
  weak : IsStrictWeakOrder ReportRowDTO fun a b => reportLess sortKey a b = true
  untied : ∀ a ∈ rows, ∀ b ∈ rows, a ≠ b →
    reportLess sortKey a b = true ∨ reportLess sortKey b a = true
  order : ∀ rows', rows'.Perm rows → sortReportRows rows' sortKey = sortReportRows rows sortKey
  last : (sortReportRows rows sortKey).Pairwise fun a b =>
    a.complete = some false → b.complete = some false

/-- A row that is not marked incomplete and has no score in the column. -/
def ReportRowDTO.Unscored (row : ReportRowDTO) (sortKey : String) : Prop :=
  row.rankable = true ∧ row.column sortKey = none

/-- Rows of different models belong to one place only if neither has a score. -/
theorem rankKey_eq_iff (hne : a.modelId ≠ b.modelId) :
    rankKey sortKey a = rankKey sortKey b ↔ a.Unscored sortKey ∧ b.Unscored sortKey := by
  unfold rankKey ReportRowDTO.Unscored
  cases ha : a.rankable <;> cases hb : b.rankable
  · simp [hne]
  · cases hcolumn : b.column sortKey <;> simp
  · cases hcolumn : a.column sortKey <;> simp
  · cases hp : a.column sortKey <;> cases hq : b.column sortKey <;> simp [hne]

/-- Rows of different models are tied only if neither has a score. -/
theorem untied_iff (hne : a.modelId ≠ b.modelId) :
    reportLess sortKey a b = true ∨ reportLess sortKey b a = true ↔
      ¬ (a.Unscored sortKey ∧ b.Unscored sortKey) := by
  rw [reportLess_iff, reportLess_iff, ← rankKey_eq_iff hne]
  exact lt_or_lt_iff_ne

theorem pairwise_complete (rows : List ReportRowDTO) (sortKey : String) :
    (sortReportRows rows sortKey).Pairwise fun a b =>
      a.complete = some false → b.complete = some false := by
  have hfirst : ∀ a b : ReportRowDTO, a.rankable = true → ¬ b.rankable = true →
      reportLess sortKey a b = true := by
    intro a b ha hb
    rw [reportLess, if_pos, ha]
    rw [ha]
    exact Ne.symm hb
  apply (Ranking.pairwise_of_first hfirst rows).imp
  intro a b hab ha
  by_contra hb
  exact rankable_iff.mp (hab (rankable_iff.mpr hb)) ha

/-- **A well-defined ranking.** The ranking of rows of different models is well defined exactly
when no two complete rows lack a score in the column. -/
theorem wellRanked_iff (hids : (rows.map (·.modelId)).Nodup) :
    WellRanked sortKey rows ↔
      ∀ a ∈ rows, ∀ b ∈ rows, a.Unscored sortKey → b.Unscored sortKey → a = b := by
  have hne : ∀ a ∈ rows, ∀ b ∈ rows, a ≠ b → a.modelId ≠ b.modelId := fun a ha b hb hab heq =>
    hab (List.inj_on_of_nodup_map hids ha hb heq)
  constructor
  · intro h a ha b hb hunscored hunscored'
    by_contra hab
    exact (untied_iff (hne a ha b hb hab)).mp (h.untied a ha b hb hab) ⟨hunscored, hunscored'⟩
  · intro h
    have huntied : ∀ a ∈ rows, ∀ b ∈ rows, a ≠ b →
        reportLess sortKey a b = true ∨ reportLess sortKey b a = true := by
      intro a ha b hb hab
      apply (untied_iff (hne a ha b hb hab)).mpr
      exact fun ⟨hunscored, hunscored'⟩ => hab (h a ha b hb hunscored hunscored')
    exact ⟨inferInstance, huntied, fun rows' hperm => Ranking.sortStable_eq_of_perm huntied hperm,
      pairwise_complete rows sortKey⟩

/-- **Ties are seen.** A ranking that does not depend on the order of its rows ties none. -/
theorem wellRanked_iff_order (hids : (rows.map (·.modelId)).Nodup) :
    WellRanked sortKey rows ↔
      ∀ rows', rows'.Perm rows → sortReportRows rows' sortKey = sortReportRows rows sortKey := by
  refine ⟨WellRanked.order, fun horder => ?_⟩
  have huntied := (Ranking.forall_perm_iff (List.Nodup.of_map _ hids)).mp horder
  exact ⟨inferInstance, huntied, horder, pairwise_complete rows sortKey⟩

/-! ### Two rows without a score -/

/-- Two models that were scored in the suite `a`. The suite `b` has no score of either, and no
enabled case, so it does not gate. -/
def tiedRows : List ReportRowDTO :=
  applyCoverageGate
    (buildReportRows
      [⟨1, "z", "f", "a", some 1⟩, ⟨1, "z", "f", "b", none⟩, ⟨2, "y", "f", "a", some 1⟩,
        ⟨2, "y", "f", "b", none⟩] (fun _ => 0) fun _ => 0)
    [⟨1, "a"⟩]

/-- By the suite `a` the two rows are ranked. -/
theorem wellRanked_iff_tiedRows : WellRanked "a" tiedRows := by
  apply (wellRanked_iff (by decide)).mpr
  intro a ha b hb hunscored
  have hscored : ∀ row ∈ tiedRows, row.column "a" ≠ none := by decide
  exact absurd hunscored.2 (hscored a ha)

/-- By the suite `b` the two complete rows are tied, and the model id does not decide. -/
theorem not_wellRanked :
    ¬ ∀ (sortKey : String) (rows : List ReportRowDTO),
      (rows.map (·.modelId)).Nodup → WellRanked sortKey rows := by
  intro hall
  have huntied := (hall "b" tiedRows (by decide)).untied
  have htied : ∃ a ∈ tiedRows, ∃ b ∈ tiedRows, a.modelId ≠ b.modelId ∧
      reportLess "b" a b = false ∧ reportLess "b" b a = false := by
    refine ⟨_, List.mem_cons_self, _, List.mem_cons_of_mem _ (List.mem_singleton_self _), ?_⟩
    decide
  obtain ⟨a, ha, b, hb, hne, hab, hba⟩ := htied
  rcases huntied a ha b hb (fun heq => hne (congrArg _ heq)) with h | h
  · rw [hab] at h
    cases h
  · rw [hba] at h
    cases h

/-! ### The board of a running campaign -/

/-- Whether a row stands before another on the board. -/
def liveLess (a b : ReportRowDTO) : Bool :=
  match a.totalScore, b.totalScore with
  | some p, some q => if p ≠ q then q < p else a.modelId < b.modelId
  | none, none => a.modelId < b.modelId
  | p, _ => p.isSome

/-- A model the board has a row of. -/
structure ReportMember where
  modelDbId : ℕ
  modelId : String
  family : String

/-- Add the row of a model that has none yet. -/
def appendRow (scored : List ReportRowDTO) (rows : List ReportRowDTO) (m : ReportMember) :
    List ReportRowDTO :=
  if rows.any (·.modelDbId = m.modelDbId) then rows
  else
    match scored.find? (·.modelDbId = m.modelDbId) with
    | some row => rows ++ [row]
    | none => rows ++ [⟨m.modelDbId, m.modelId, m.family, none, ∅, none, 0⟩]

/-- The board: the members and the models with progress, each with what is scored of it. -/
def liveReportRows (members progress : List ReportMember) (scores : List CampaignSuiteScore)
    (weights nadirs : String → ℚ) : List ReportRowDTO :=
  Ranking.sortStable (fun a b => liveLess a b = true)
    ((members ++ progress).foldl (appendRow (buildReportRows scores weights nadirs)) [])

def liveKey (row : ReportRowDTO) : ℕ ×ₗ ℚ ×ₗ String :=
  match row.totalScore with
  | some q => toLex (0, toLex (-q, row.modelId))
  | none => toLex (1, toLex (0, row.modelId))

theorem liveLess_iff (a b : ReportRowDTO) : liveLess a b = true ↔ liveKey a < liveKey b := by
  unfold liveLess liveKey
  cases hp : a.totalScore <;> cases hq : b.totalScore
  · simp [Prod.Lex.toLex_lt_toLex]
  · simp [Prod.Lex.toLex_lt_toLex]
  · simp [Prod.Lex.toLex_lt_toLex]
  · rename_i p q
    by_cases hpq : p = q
    · simp [Prod.Lex.toLex_lt_toLex, hpq]
    · simp [Prod.Lex.toLex_lt_toLex, hpq]

instance : IsStrictWeakOrder ReportRowDTO fun a b => liveLess a b = true :=
  Ranking.isStrictWeakOrder_of_key liveKey liveLess_iff

theorem modelId_eq_of_liveKey_eq (h : liveKey a = liveKey b) : a.modelId = b.modelId := by
  unfold liveKey at h
  cases hp : a.totalScore <;> cases hq : b.totalScore <;> simp_all

/-- **The board.** Rows of different models have one order, whatever order they come in. -/
theorem sortLive_eq_of_perm (hids : (rows.map (·.modelId)).Nodup) {rows' : List ReportRowDTO}
    (h : rows'.Perm rows) :
    Ranking.sortStable (fun a b => liveLess a b = true) rows' =
      Ranking.sortStable (fun a b => liveLess a b = true) rows := by
  apply Ranking.sortStable_eq_of_perm _ h
  intro a ha b hb hab
  rw [liveLess_iff, liveLess_iff]
  apply lt_or_lt_iff_ne.mpr
  exact fun heq => hab (List.inj_on_of_nodup_map hids ha hb (modelId_eq_of_liveKey_eq heq))

end HubScope
