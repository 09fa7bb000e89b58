import Mathlib.Data.Finset.Card
import Mathlib.Data.Finset.Dedup

/-!
# Picking the first elements with distinct keys

A loop goes through a list and takes an element when no element taken before has its key, until
it has taken enough. It takes as many as there are distinct keys, up to the bound, so no other
choice of that size has more keys.

## Main definitions

* `Greedy.pick` — the loop, from what is already taken

## Main results

* `Greedy.nodup_keys_pick` — the keys of what is taken stay distinct
* `Greedy.length_pick` — how many are taken
-/

namespace Greedy

variable {α κ : Type*} [DecidableEq κ] {key : α → κ} {n : ℕ} {taken xs : List α}

/-- Take from the list what has a new key, until `n` are taken. -/
def pick (key : α → κ) (n : ℕ) : List α → List α → List α
  | taken, [] => taken
  | taken, x :: xs =>
    if taken.length = n then taken
    else if key x ∈ taken.map key then pick key n taken xs
    else pick key n (taken ++ [x]) xs

/-- The distinct keys of a list. -/
def keys (key : α → κ) (xs : List α) : Finset κ := (xs.map key).toFinset

theorem mem_keys {k : κ} : k ∈ keys key xs ↔ ∃ x ∈ xs, key x = k := by
  rw [keys, List.mem_toFinset, List.mem_map]

theorem keys_mono {ys : List α} (h : xs ⊆ ys) : keys key xs ⊆ keys key ys := by
  intro k hk
  obtain ⟨x, hx, rfl⟩ := mem_keys.mp hk
  exact mem_keys.mpr ⟨x, h hx, rfl⟩

theorem card_keys_le (xs : List α) : (keys key xs).card ≤ xs.length := by
  simpa [keys] using List.toFinset_card_le (xs.map key)

theorem card_keys (h : (xs.map key).Nodup) : (keys key xs).card = xs.length := by
  rw [keys, List.toFinset_card_of_nodup h, List.length_map]

/-- What was taken stays taken. -/
theorem prefix_pick : taken <+: pick key n taken xs := by
  induction xs generalizing taken with
  | nil => exact List.prefix_refl _
  | cons x xs ih =>
    rw [pick]
    split_ifs
    · exact List.prefix_refl _
    · exact ih
    · exact (List.prefix_append _ _).trans ih

/-- Only elements of the list are taken. -/
theorem pick_subset : pick key n taken xs ⊆ taken ++ xs := by
  induction xs generalizing taken with
  | nil => exact List.subset_append_left _ _
  | cons x xs ih =>
    rw [pick]
    split_ifs
    · exact List.subset_append_left _ _
    · intro y hy
      rcases List.mem_append.mp (ih hy) with hy | hy
      · exact List.mem_append_left _ hy
      · exact List.mem_append_right _ (List.mem_cons_of_mem _ hy)
    · intro y hy
      simpa [or_assoc] using ih hy

theorem nodup_keys_pick (h : (taken.map key).Nodup) : ((pick key n taken xs).map key).Nodup := by
  induction xs generalizing taken with
  | nil => exact h
  | cons x xs ih =>
    rw [pick]
    split_ifs with hfull hseen
    · exact h
    · exact ih h
    · refine ih ?_
      rw [List.map_append]
      exact List.Nodup.append h (List.nodup_singleton _) (by simpa using hseen)

/-- **The loop takes one element for each key there is, up to the bound.** -/
theorem length_pick (hle : taken.length ≤ n) (h : (taken.map key).Nodup) :
    (pick key n taken xs).length = min n (keys key (taken ++ xs)).card := by
  induction xs generalizing taken with
  | nil => rw [pick, List.append_nil, card_keys h, min_eq_right hle]
  | cons x xs ih =>
    rw [pick]
    split_ifs with hfull hseen
    · have hmany : n ≤ (keys key (taken ++ x :: xs)).card := by
        rw [← hfull, ← card_keys h]
        exact Finset.card_le_card (keys_mono (List.subset_append_left _ _))
      rw [hfull, min_eq_left hmany]
    · rw [ih hle h]
      -- the key of `x` is among those of what is taken
      have hkeys : keys key (taken ++ x :: xs) = keys key (taken ++ xs) := by
        ext k
        simp only [mem_keys, List.mem_append, List.mem_cons]
        constructor
        · rintro ⟨y, hy | rfl | hy, rfl⟩
          · exact ⟨y, Or.inl hy, rfl⟩
          · obtain ⟨z, hz, hkey⟩ := List.mem_map.mp hseen
            exact ⟨z, Or.inl hz, hkey⟩
          · exact ⟨y, Or.inr hy, rfl⟩
        · rintro ⟨y, hy | hy, rfl⟩
          · exact ⟨y, Or.inl hy, rfl⟩
          · exact ⟨y, Or.inr (Or.inr hy), rfl⟩
      rw [hkeys]
    · have hroom : (taken ++ [x]).length ≤ n := by
        rw [List.length_append, List.length_singleton]
        omega
      have hnew : ((taken ++ [x]).map key).Nodup := by
        rw [List.map_append]
        exact List.Nodup.append h (List.nodup_singleton _) (by simpa using hseen)
      rw [ih hroom hnew, List.append_assoc, List.singleton_append]

/-! ### From nothing taken -/

theorem pick_nil_subset : pick key n [] xs ⊆ xs := fun _ hx => by simpa using pick_subset hx

theorem nodup_keys_pick_nil : ((pick key n [] xs).map key).Nodup := nodup_keys_pick List.nodup_nil

theorem length_pick_nil : (pick key n [] xs).length = min n (keys key xs).card :=
  length_pick (Nat.zero_le n) List.nodup_nil

end Greedy
