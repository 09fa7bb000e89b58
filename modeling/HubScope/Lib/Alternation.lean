import Mathlib.Data.List.Chain

/-!
# Alternating lists

A list that is `a, b, a, b, …` from its start. A log of openings and closings is one when its
first entry is an opening and each entry differs from the one before it.

## Main definitions

* `Alternates a b` — the list alternates between `a` and `b`, starting with `a`

## Main results

* `Alternates.concat` — what may be appended to an alternating list
-/

set_option autoImplicit false

variable {α : Type*} {a b x : α} {xs : List α}

/-- The list is `a, b, a, b, …`, as far as it goes. -/
structure Alternates (a b : α) (xs : List α) : Prop where
  start : ∀ x ∈ xs.head?, x = a
  only : ∀ x ∈ xs, x = a ∨ x = b
  chain : xs.IsChain (· ≠ ·)

namespace Alternates

theorem nil : Alternates a b [] := ⟨by simp, by simp, .nil⟩

/-- **Appending.** After an `a` comes a `b`, and an `a` otherwise. -/
theorem concat (h : Alternates a b xs) (hab : a ≠ b)
    (hx : xs.getLast? = some a ∧ x = b ∨ xs.getLast? ≠ some a ∧ x = a) :
    Alternates a b (xs ++ [x]) := by
  have honly : x = a ∨ x = b := hx.symm.imp And.right And.right
  have hdiffer : ∀ y ∈ xs.getLast?, y ≠ x := by
    intro y hy
    rcases hx with ⟨hlast, rfl⟩ | ⟨hlast, rfl⟩
    · obtain rfl := Option.some.inj (hlast.symm.trans hy)
      exact hab
    · rintro rfl
      exact hlast hy
  refine ⟨fun y hy => ?_, fun y hy => ?_, ?_⟩
  · cases xs with
    | nil =>
      obtain rfl := Option.some.inj hy
      rcases hx with ⟨hlast, -⟩ | ⟨-, hxa⟩
      · cases hlast
      · exact hxa
    | cons z zs => exact h.start y hy
  · rcases List.mem_append.mp hy with hy | hy
    · exact h.only y hy
    · rwa [List.mem_singleton.mp hy]
  · refine List.isChain_append.mpr ⟨h.chain, .singleton _, ?_⟩
    intro y hy z hz
    obtain rfl := Option.some.inj hz
    exact hdiffer y hy

end Alternates
