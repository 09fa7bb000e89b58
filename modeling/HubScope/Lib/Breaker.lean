import Mathlib.Data.List.Basic

/-!
# Circuit breakers

A breaker goes through a list in order and gives up after a number of consecutive failures. What
it attempted is then a prefix of the list: the shortest one that ends in that many failures, or
the whole list when no such prefix leaves anything over.

## Main definitions

* `Breaker.trailing` — how many failures a list ends in
* `Breaker.run` — what is attempted and what is left

## Main results

* `Breaker.run_spec` — the breaker opens at the first run of failures and not before
-/

set_option autoImplicit false

namespace Breaker

variable {α : Type*} (ok : α → Bool) (threshold : ℕ)

/-- How many failures the list ends in. -/
def trailing (as : List α) : ℕ := (as.reverse.takeWhile fun a => !ok a).length

@[simp] theorem trailing_nil : trailing ok [] = 0 := rfl

theorem trailing_concat_of_ok {a : α} (as : List α) (h : ok a = true) :
    trailing ok (as ++ [a]) = 0 := by
  simp [trailing, h]

theorem trailing_concat_of_failed {a : α} (as : List α) (h : ok a = false) :
    trailing ok (as ++ [a]) = trailing ok as + 1 := by
  simp [trailing, h]

/-- What is attempted of the list and what is left of it, `failed` failures in a row before. -/
def run (failed : ℕ) : List α → List α × List α
  | [] => ([], [])
  | a :: as =>
    if ok a then (a :: (run 0 as).1, (run 0 as).2)
    else if threshold ≤ failed + 1 then ([a], as)
    else (a :: (run (failed + 1) as).1, (run (failed + 1) as).2)

/-- What a breaker attempted and left of a list. -/
structure Spec (as attempted left : List α) : Prop where
  split : attempted ++ left = as
  closed : ∀ n < attempted.length, trailing ok (as.take n) < threshold
  opened : left ≠ [] → trailing ok attempted = threshold

variable {ok threshold}

/-- After a prefix on which it stayed closed the breaker goes on with the failures it ends in. -/
theorem run_spec_append {as done : List α}
    (hdone : ∀ n ≤ done.length, trailing ok (done.take n) < threshold) :
    Spec ok threshold (done ++ as) (done ++ (run ok threshold (trailing ok done) as).1)
      (run ok threshold (trailing ok done) as).2 := by
  have htrailing : trailing ok done < threshold := by
    simpa only [List.take_length] using hdone done.length (Nat.le_refl _)
  induction as generalizing done with
  | nil =>
    refine ⟨by simp [run], fun n hn => ?_, fun hne => absurd rfl hne⟩
    simp only [run, List.append_nil] at hn ⊢
    exact hdone n (Nat.le_of_lt hn)
  | cons a as ih =>
    have hprefix : ∀ n ≤ done.length, trailing ok ((done ++ a :: as).take n) < threshold := by
      intro n hn
      rw [List.take_append_of_le_length hn]
      exact hdone n hn
    have hnext : ∀ n ≤ (done ++ [a]).length, trailing ok (done ++ [a]) < threshold →
        trailing ok ((done ++ [a]).take n) < threshold := by
      intro n hn hlt
      rcases Nat.lt_or_ge n (done ++ [a]).length with hn' | hn'
      · rw [List.length_append, List.length_singleton] at hn'
        rw [List.take_append_of_le_length (by omega)]
        exact hdone n (by omega)
      · rw [List.take_of_length_le hn']
        exact hlt
    rw [List.append_cons]
    cases hok : ok a with
    | true =>
      have hzero := trailing_concat_of_ok ok done hok
      have hlt : trailing ok (done ++ [a]) < threshold := by omega
      simpa [run, hok, hzero] using ih (fun n hn => hnext n hn hlt) hlt
    | false =>
      have hsucc := trailing_concat_of_failed ok done hok
      by_cases htrip : threshold ≤ trailing ok done + 1
      · -- the failure that opens the breaker
        simp only [run, hok, Bool.false_eq_true, if_false, if_pos htrip]
        refine ⟨rfl, fun n hn => ?_, fun _ => by omega⟩
        rw [List.length_append, List.length_singleton] at hn
        rw [← List.append_cons]
        exact hprefix n (by omega)
      · have hlt : trailing ok (done ++ [a]) < threshold := by omega
        simpa [run, hok, htrip, hsucc] using ih (fun n hn => hnext n hn hlt) hlt

/-- **Breaker.** The breaker opens at the first run of failures that leaves something over. -/
theorem run_spec (hpos : 0 < threshold) (as : List α) :
    Spec ok threshold as (run ok threshold 0 as).1 (run ok threshold 0 as).2 := by
  have hnil : ∀ n ≤ ([] : List α).length, trailing ok (([] : List α).take n) < threshold := by
    intro n _
    rwa [List.take_nil, trailing_nil]
  exact run_spec_append hnil

end Breaker
