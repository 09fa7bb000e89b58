import Mathlib.Algebra.BigOperators.Group.List.Basic
import Mathlib.Algebra.GroupWithZero.Nat
import Mathlib.Data.List.Dedup
import Mathlib.Data.List.Induction

/-!
# Grouping a list by a key, keys in first-seen order

The idiom "append to the map's bucket, remember the key the first time it is seen" turns
a list into buckets listed in first-seen order. No element is lost or duplicated, and the
keys of the buckets are distinct.

## Main definitions

* `Grouping.firstSeen` — the distinct keys of a list, in first-seen order
* `Grouping.group` — the buckets, in first-seen key order

## Main results

* `Grouping.firstSeen_nodup`, `Grouping.mem_firstSeen`
* `Grouping.group_perm` — the buckets together are the list
* `Grouping.sum_filterMap_group` — an aggregate adds up to the list
-/

namespace Grouping

variable {α κ : Type*} [DecidableEq κ]

/-- The distinct elements of a list, in the order in which they are first seen. -/
def firstSeen : List κ → List κ
  | [] => []
  | k :: ks => k :: (firstSeen ks).filter (· ≠ k)

@[simp] theorem firstSeen_nil : firstSeen ([] : List κ) = [] := rfl

@[simp] theorem mem_firstSeen {k : κ} {ks : List κ} : k ∈ firstSeen ks ↔ k ∈ ks := by
  induction ks with
  | nil => simp
  | cons j js ih =>
    by_cases h : k = j
    · simp [firstSeen, h]
    · simp [firstSeen, ih, h]

theorem firstSeen_nodup (ks : List κ) : (firstSeen ks).Nodup := by
  induction ks with
  | nil => exact List.nodup_nil
  | cons j js ih =>
    refine List.nodup_cons.mpr ⟨?_, ih.filter _⟩
    simp

theorem firstSeen_sublist (ks : List κ) : (firstSeen ks).Sublist ks := by
  induction ks with
  | nil => exact List.Sublist.refl _
  | cons j js ih => exact (List.filter_sublist.trans ih).cons_cons j

/-- The buckets of `xs` under the key `f`, in first-seen key order; each bucket keeps the
order of the list. -/
def group (f : α → κ) (xs : List α) : List (κ × List α) :=
  (firstSeen (xs.map f)).map fun k => (k, xs.filter fun x => f x = k)

theorem mem_group {f : α → κ} {xs : List α} {k : κ} {ys : List α} :
    (k, ys) ∈ group f xs ↔ (∃ x ∈ xs, f x = k) ∧ ys = xs.filter fun x => f x = k := by
  simp only [group, List.mem_map, mem_firstSeen, Prod.mk.injEq]
  constructor
  · rintro ⟨k, hk, rfl, rfl⟩
    exact ⟨hk, rfl⟩
  · rintro ⟨hk, rfl⟩
    exact ⟨k, hk, rfl, rfl⟩

theorem group_keys_nodup (f : α → κ) (xs : List α) : ((group f xs).map Prod.fst).Nodup := by
  have hkeys : (group f xs).map Prod.fst = firstSeen (xs.map f) := by
    simp [group, Function.comp_def]
  rw [hkeys]
  exact firstSeen_nodup _

/-- Over distinct keys that cover the list, the buckets together are the list. -/
theorem flatMap_filter_perm {f : α → κ} {xs : List α} {ks : List κ} (hnodup : ks.Nodup)
    (hcover : ∀ x ∈ xs, f x ∈ ks) :
    (ks.flatMap fun k => xs.filter fun x => f x = k).Perm xs := by
  induction ks generalizing xs with
  | nil =>
    have hnil : xs = [] := List.eq_nil_iff_forall_not_mem.mpr fun x hx => nomatch hcover x hx
    rw [hnil]
    rfl
  | cons k ks ih =>
    obtain ⟨hk, hks⟩ := List.nodup_cons.mp hnodup
    -- the other buckets are those of the elements with another key
    have hrest : ∀ x ∈ xs.filter fun x => !decide (f x = k), f x ∈ ks := by
      intro x hx
      obtain ⟨hx, hne⟩ := List.mem_filter.mp hx
      rcases List.mem_cons.mp (hcover x hx) with heq | hmem
      · simp [heq] at hne
      · exact hmem
    have hbuckets : (ks.flatMap fun j => xs.filter fun x => f x = j) =
        ks.flatMap fun j => (xs.filter fun x => !decide (f x = k)).filter fun x => f x = j := by
      refine List.flatMap_congr fun j hj => ?_
      rw [List.filter_filter]
      refine List.filter_congr fun x _ => ?_
      have hjk : j ≠ k := fun h => hk (h ▸ hj)
      by_cases hx : f x = j
      · simp [hx, hjk]
      · simp [hx]
    rw [List.flatMap_cons, hbuckets]
    exact ((ih hks hrest).append_left _).trans (List.filter_append_perm _ xs)

/-- The buckets hold every element exactly as often as the list does. -/
theorem group_perm (f : α → κ) (xs : List α) : ((group f xs).flatMap Prod.snd).Perm xs := by
  have hcover : ∀ x ∈ xs, f x ∈ firstSeen (xs.map f) := fun x hx =>
    mem_firstSeen.mpr (List.mem_map_of_mem hx)
  rw [group, List.flatMap_map]
  exact flatMap_filter_perm (firstSeen_nodup _) hcover

theorem countP_group (f : α → κ) (p : α → Bool) (xs : List α) :
    ((group f xs).map fun b => b.2.countP p).sum = xs.countP p := by
  rw [← (group_perm f xs).countP_eq, List.countP_flatMap]
  rfl

theorem sum_group {M : Type*} [AddCommMonoid M] (f : α → κ) (g : α → M) (xs : List α) :
    ((group f xs).map fun b => (b.2.map g).sum).sum = (xs.map g).sum := by
  rw [← ((group_perm f xs).map g).sum_eq, List.map_flatMap, List.flatMap_def, List.sum_flatten,
    List.map_map]
  rfl

theorem ne_nil_of_mem_group {f : α → κ} {xs : List α} {b : κ × List α} (hb : b ∈ group f xs) :
    b.2 ≠ [] := by
  obtain ⟨⟨x, hx, hkey⟩, hrows⟩ := mem_group.mp hb
  have hmem : x ∈ b.2 := hrows ▸ List.mem_filter.mpr ⟨hx, by simpa using hkey⟩
  exact List.ne_nil_of_mem hmem

/-- Over distinct keys, the sums of the buckets are the sum of the elements with one of the keys. -/
theorem sum_keys {M : Type*} [AddCommMonoid M] (f : α → κ) (g : α → M) (xs : List α) {ks : List κ}
    (hnodup : ks.Nodup) :
    (ks.map fun k => ((xs.filter fun x => f x = k).map g).sum).sum =
      ((xs.filter fun x => f x ∈ ks).map g).sum := by
  have hbucket : ∀ k ∈ ks, (xs.filter fun x => f x = k) =
      (xs.filter fun x => f x ∈ ks).filter fun x => f x = k := by
    intro k hk
    rw [List.filter_filter]
    refine List.filter_congr fun x _ => ?_
    by_cases hx : f x = k
    · simp [hx, hk]
    · simp [hx]
  have hperm : (ks.flatMap fun k => (xs.filter fun x => f x ∈ ks).filter fun x => f x = k).Perm
      (xs.filter fun x => f x ∈ ks) :=
    flatMap_filter_perm hnodup fun x hx => by simpa using (List.mem_filter.mp hx).2
  rw [← (hperm.map g).sum_eq, List.map_flatMap, List.flatMap_def, List.sum_flatten, List.map_map]
  exact congrArg List.sum (List.map_congr_left fun k hk => by rw [hbucket k hk]; rfl)

/-- The last element with a key, if no two have one key, is all there is of the key. -/
theorem filter_eq_find? {f : α → κ} {xs : List α} (hnodup : (xs.map f).Nodup) (k : κ) :
    (xs.filter fun x => f x = k) = (xs.reverse.find? fun x => f x = k).toList := by
  induction xs using List.reverseRecOn with
  | nil => rfl
  | append_singleton xs x ih =>
    rw [List.map_append, List.nodup_append] at hnodup
    obtain ⟨hxs, -, hdisjoint⟩ := hnodup
    rw [List.filter_append, ih hxs, List.reverse_concat, List.find?_cons]
    by_cases hx : f x = k
    · have hnone : (xs.reverse.find? fun y => f y = k) = none := by
        refine List.find?_eq_none.mpr fun y hy => ?_
        have hne := hdisjoint (f y) (List.mem_map_of_mem (List.mem_reverse.mp hy)) (f x) (by simp)
        simpa [hx] using hne
      simp [hx, hnone]
    · simp [hx]

/-- What the rows of an aggregate add up to, if each bucket has a row that holds its sum. -/
theorem sum_filterMap_group {M β : Type*} [AddCommMonoid M] {f : α → κ} {g : α → M}
    {row : κ × List α → Option β} {amount : β → M} {xs : List α}
    (hrow : ∀ b ∈ group f xs, ∃ r, row b = some r ∧ amount r = (b.2.map g).sum) :
    (((group f xs).filterMap row).map amount).sum = (xs.map g).sum := by
  have hsum (bs : List (κ × List α))
      (hbs : ∀ b ∈ bs, ∃ r, row b = some r ∧ amount r = (b.2.map g).sum) :
      ((bs.filterMap row).map amount).sum = (bs.map fun b => (b.2.map g).sum).sum := by
    induction bs with
    | nil => rfl
    | cons b bs ih =>
      obtain ⟨r, hr, hamount⟩ := hbs b List.mem_cons_self
      have ih := ih fun c hc => hbs c (List.mem_cons_of_mem b hc)
      rw [List.filterMap_cons_some hr, List.map_cons, List.sum_cons, ih, hamount, List.map_cons,
        List.sum_cons]
  rw [hsum _ hrow, sum_group]

/-- Grouping a list that was mapped groups the list by the keys of the images. -/
theorem group_map {β : Type*} (f : α → κ) (g : β → α) (xs : List β) :
    group f (xs.map g) = (group (fun x => f (g x)) xs).map fun b => (b.1, b.2.map g) := by
  simp only [group, List.map_map, List.filter_map]
  rfl

end Grouping
