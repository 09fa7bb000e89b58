import Mathlib.Data.List.AList
import Mathlib.Data.Prod.Basic
import Mathlib.Tactic.SplitIfs

/-!
# Finite maps written as lists of entries

A list of keys with values is read as a finite map in which the last entry of a key counts.

## Main definitions

* `lastWins` — the entries that count
* `keepKeys` — the entries whose keys stay

## Main results

* `exists_mem_lastWins`, `eq_of_mem_lastWins` — every key keeps one entry
* `mem_lastWins_concat` — the last entry counts
* `mem_lastWins_iff` — nothing is lost where equal keys have equal values
* `lookup_foldl_insert` — inserting entries that agree on a key leaves their value
-/

set_option autoImplicit false

section

variable {α β : Type*} [DecidableEq α]

/-- Upserting rows that agree on a key leaves their value. -/
theorem lookup_foldl_insert (rows : List (α × β)) (t : AList fun _ : α => β) {k : α} {b : β}
    (h : ∀ r ∈ rows, r.1 = k → r.2 = b) :
    (rows.foldl (fun t row => t.insert row.1 row.2) t).lookup k =
      if k ∈ rows.map Prod.fst then some b else t.lookup k := by
  induction rows generalizing t with
  | nil => rfl
  | cons row rows ih =>
    rw [List.foldl_cons, ih _ fun r hr => h r (List.mem_cons_of_mem _ hr)]
    by_cases hrest : k ∈ rows.map Prod.fst
    · have hmem : k ∈ (row :: rows).map Prod.fst := List.mem_cons_of_mem _ hrest
      rw [if_pos hrest, if_pos hmem]
    · rw [if_neg hrest]
      by_cases hk : row.1 = k
      · have hrow := h row (List.mem_cons_self ..) hk
        have hmem : k ∈ (row :: rows).map Prod.fst := by simp [hk]
        rw [if_pos hmem, ← hk, AList.lookup_insert, hrow]
      · have hnot : k ∉ (row :: rows).map Prod.fst := by
          rw [List.map_cons, List.mem_cons, not_or]
          exact ⟨Ne.symm hk, hrest⟩
        rw [if_neg hnot, AList.lookup_insert_ne (Ne.symm hk)]

/-- The entries whose keys stay. -/
def keepKeys (stays : α → Bool) (t : AList fun _ : α => β) : AList fun _ : α => β :=
  ⟨t.entries.filter fun e => stays e.1, t.nodupKeys.sublist List.filter_sublist⟩

theorem lookup_keepKeys (stays : α → Bool) (t : AList fun _ : α => β) (k : α) :
    (keepKeys stays t).lookup k = if stays k then t.lookup k else none := by
  ext b
  have hentry : t.lookup k = some b ↔ Sigma.mk k b ∈ t.entries := AList.mem_lookup_iff
  rw [Option.ite_none_right_eq_some, hentry]
  exact AList.mem_lookup_iff.trans (List.mem_filter.trans And.comm)

end

open Classical

variable {κ β : Type} {l : List (κ × β)} {e f : κ × β}

/-- The entries of which no later one has the same key. -/
noncomputable def lastWins : List (κ × β) → List (κ × β)
  | [] => []
  | e :: l => if ∃ f ∈ l, f.1 = e.1 then lastWins l else e :: lastWins l

theorem mem_of_mem_lastWins (h : e ∈ lastWins l) : e ∈ l := by
  induction l with
  | nil => exact h
  | cons f l ih =>
    rw [lastWins] at h
    split_ifs at h
    · exact List.mem_cons_of_mem f (ih h)
    · rcases List.mem_cons.mp h with rfl | h
      · exact List.mem_cons_self
      · exact List.mem_cons_of_mem f (ih h)

theorem lastWins_subset_cons (e : κ × β) (l : List (κ × β)) :
    lastWins l ⊆ lastWins (e :: l) := by
  rw [lastWins]
  split_ifs
  · exact List.Subset.refl _
  · exact List.subset_cons_self e _

/-- Every key keeps an entry. -/
theorem exists_mem_lastWins (h : e ∈ l) : ∃ f ∈ lastWins l, f.1 = e.1 := by
  induction l generalizing e with
  | nil => cases h
  | cons g l ih =>
    have hlater : ∀ e ∈ l, ∃ f ∈ lastWins (g :: l), f.1 = e.1 := by
      intro e he
      obtain ⟨f, hf, hkey⟩ := ih he
      exact ⟨f, lastWins_subset_cons g l hf, hkey⟩
    rcases List.mem_cons.mp h with rfl | h
    · by_cases hdup : ∃ f ∈ l, f.1 = e.1
      · obtain ⟨f, hf, hkey⟩ := hdup
        obtain ⟨f', hf', hkey'⟩ := hlater f hf
        exact ⟨f', hf', hkey'.trans hkey⟩
      · exact ⟨e, by rw [lastWins, if_neg hdup]; exact List.mem_cons_self, rfl⟩
    · exact hlater e h

/-- Every key keeps one entry at most. -/
theorem eq_of_mem_lastWins (he : e ∈ lastWins l) (hf : f ∈ lastWins l) (hkey : e.1 = f.1) :
    e = f := by
  induction l with
  | nil => cases he
  | cons g l ih =>
    rw [lastWins] at he hf
    split_ifs at he hf with hdup
    · exact ih he hf
    · have hnew : ∀ f ∈ lastWins l, f.1 ≠ g.1 :=
        fun f hf heq => hdup ⟨f, mem_of_mem_lastWins hf, heq⟩
      rcases List.mem_cons.mp he with heq | hold
      · rcases List.mem_cons.mp hf with heq' | hold'
        · exact heq.trans heq'.symm
        · exact absurd (hkey.symm.trans (congrArg Prod.fst heq)) (hnew f hold')
      · rcases List.mem_cons.mp hf with heq' | hold'
        · exact absurd (hkey.trans (congrArg Prod.fst heq')) (hnew e hold)
        · exact ih hold hold'

/-- The last entry wins. -/
theorem mem_lastWins_concat (l : List (κ × β)) (e : κ × β) : e ∈ lastWins (l ++ [e]) := by
  induction l with
  | nil => simp [lastWins]
  | cons f l ih => exact lastWins_subset_cons f (l ++ [e]) ih

/-- Where equal keys have equal values, nothing is lost. -/
theorem mem_lastWins_iff (h : ∀ e ∈ l, ∀ f ∈ l, e.1 = f.1 → e.2 = f.2) :
    e ∈ lastWins l ↔ e ∈ l := by
  refine ⟨mem_of_mem_lastWins, fun he => ?_⟩
  obtain ⟨f, hf, hkey⟩ := exists_mem_lastWins he
  have heq : f = e := Prod.ext hkey (h f (mem_of_mem_lastWins hf) e he hkey)
  exact heq ▸ hf
