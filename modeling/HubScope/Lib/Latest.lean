import Mathlib.Data.List.MinMax

/-!
# The latest entries of each key

Entries have a key and a rank, and of each key the entries of the highest rank are the latest
ones. A rank is only a stand-in for being current. The current entries of a key outrank its
other entries, but a key may have none: then an outdated entry is the latest.

## Main definitions

* `Latest.latest` — the entries of the highest rank of their key
* `Latest.Ranked` — current entries outrank the outdated ones of their key

## Main results

* `Latest.latest_map` — the latest entries of a list that is read through a function
* `Latest.latest_eq_filter_iff` — when the latest entries are the current ones
-/

set_option autoImplicit false

namespace Latest

variable {α β κ ρ : Type*} [DecidableEq κ] [LinearOrder ρ] {key : α → κ} {rank : α → ρ}
  {current : α → Prop} {xs : List α} {x : α}

/-- The entries no other entry of their key outranks. -/
def latest (key : α → κ) (rank : α → ρ) (xs : List α) : List α :=
  xs.filter fun x => ∀ y ∈ xs, key y = key x → rank y ≤ rank x

theorem mem_latest :
    x ∈ latest key rank xs ↔ x ∈ xs ∧ ∀ y ∈ xs, key y = key x → rank y ≤ rank x := by
  rw [latest, List.mem_filter, decide_eq_true_iff]

theorem latest_map (key : β → κ) (rank : β → ρ) (f : α → β) (xs : List α) :
    latest key rank (xs.map f) = (latest (key ∘ f) (rank ∘ f) xs).map f := by
  rw [latest, List.filter_map]
  congr 1
  apply List.filter_congr
  intro x _
  simp only [List.forall_mem_map, Function.comp_apply]

/-- Every key of an entry has a latest entry. -/
theorem exists_latest (hx : x ∈ xs) : ∃ y ∈ latest key rank xs, key y = key x := by
  have hmem : x ∈ xs.filter (key · = key x) := List.mem_filter.mpr ⟨hx, decide_eq_true rfl⟩
  obtain ⟨y, hy⟩ : ∃ y, List.argmax rank (xs.filter (key · = key x)) = some y := by
    apply Option.ne_none_iff_exists'.mp
    intro hnone
    exact List.ne_nil_of_mem hmem (List.argmax_eq_none.mp hnone)
  obtain ⟨hyxs, hkey⟩ := List.mem_filter.mp (List.argmax_mem hy)
  have hkey : key y = key x := of_decide_eq_true hkey
  refine ⟨y, mem_latest.mpr ⟨hyxs, fun z hz hzkey => ?_⟩, hkey⟩
  apply List.le_of_mem_argmax _ hy
  exact List.mem_filter.mpr ⟨hz, decide_eq_true (hzkey.trans hkey)⟩

/-- The current entries of a key have one rank, and it is above that of the outdated ones. -/
structure Ranked (key : α → κ) (rank : α → ρ) (current : α → Prop) (xs : List α) : Prop where
  same : ∀ x ∈ xs, ∀ y ∈ xs, current x → current y → key y = key x → rank y = rank x
  above : ∀ x ∈ xs, ∀ y ∈ xs, current x → ¬ current y → key y = key x → rank y < rank x

namespace Ranked

theorem mem_latest (h : Ranked key rank current xs) (hx : x ∈ xs) (hcurrent : current x) :
    x ∈ latest key rank xs := by
  refine Latest.mem_latest.mpr ⟨hx, fun y hy hkey => ?_⟩
  by_cases hy' : current y
  · exact (h.same x hx y hy hcurrent hy' hkey).le
  · exact (h.above x hx y hy hcurrent hy' hkey).le

variable [DecidablePred current]

/-- The current entries are among the latest. -/
theorem sublist_latest (h : Ranked key rank current xs) :
    (xs.filter (current ·)).Sublist (latest key rank xs) := by
  have hfilter : (latest key rank xs).filter (current ·) = xs.filter (current ·) := by
    rw [latest, List.filter_filter]
    apply List.filter_congr
    intro x hx
    by_cases hcurrent : current x
    · have hlatest := (Latest.mem_latest.mp (h.mem_latest hx hcurrent)).2
      simpa [hcurrent] using hlatest
    · simp [hcurrent]
  rw [← hfilter]
  exact List.filter_sublist

/-- **Latest and current.** The latest entries are the current ones exactly when every key that
has an outdated entry has a current one. -/
theorem latest_eq_filter_iff (h : Ranked key rank current xs) :
    latest key rank xs = xs.filter (current ·) ↔
      ∀ x ∈ xs, ¬ current x → ∃ y ∈ xs, current y ∧ key y = key x := by
  constructor
  · intro heq x hx _
    obtain ⟨y, hy, hkey⟩ : ∃ y ∈ latest key rank xs, key y = key x := exists_latest hx
    rw [heq] at hy
    obtain ⟨hyxs, hcurrent⟩ := List.mem_filter.mp hy
    exact ⟨y, hyxs, of_decide_eq_true hcurrent, hkey⟩
  · intro hevery
    apply List.filter_congr
    intro x hx
    apply decide_eq_decide.mpr
    refine ⟨fun hlatest => ?_, fun hcurrent =>
      (Latest.mem_latest.mp (h.mem_latest hx hcurrent)).2⟩
    by_contra hnot
    obtain ⟨y, hy, hcurrent, hkey⟩ := hevery x hx hnot
    exact absurd (h.above y hy x hx hcurrent hnot hkey.symm) (hlatest y hy hkey).not_gt

end Ranked

end Latest
