import Mathlib.Data.List.Basic
import Mathlib.Order.Basic

/-!
# Machines driven by timed requests

A machine takes requests with the times at which they come, and answers some of them. Where the
times never go back, two machines give the same answers if a relation between their states, at
the time of the last request, is kept by every request that the first of them can serve.

## Main definitions

* `Timed.run`, `Timed.answers` — the state after a list of requests, and what was answered
* `Timed.Served` — every request meets a condition in the state where it comes
* `Timed.Ordered` — times that never go back

## Main results

* `Timed.answers_eq` — the rule of simulation
* `Timed.run_invariant` — the rule of invariants
* `Timed.served_rule` — the rule of invariants over times and answers
* `Timed.answers_eq_of_forall₂` — the rule of simulation for requests that differ
-/

set_option autoImplicit false

namespace Timed

variable {τ σ ρ α β : Type*} {step : σ → τ × α → σ × Option β} {step' : ρ → τ × α → ρ × Option β}
  {ok : σ → τ × α → Prop} {s : σ} {r : ρ} {trace : List (τ × α)}

/-- The state after a list of requests. -/
def run (step : σ → τ × α → σ × Option β) (s : σ) (trace : List (τ × α)) : σ :=
  trace.foldl (fun s a => (step s a).1) s

/-- The answers to a list of requests. -/
def answers (step : σ → τ × α → σ × Option β) : σ → List (τ × α) → List β
  | _, [] => []
  | s, a :: trace => (step s a).2.toList ++ answers step (step s a).1 trace

/-- Every request meets the condition in the state where it comes. -/
def Served (step : σ → τ × α → σ × Option β) (ok : σ → τ × α → Prop) : σ → List (τ × α) → Prop
  | _, [] => True
  | s, a :: trace => ok s a ∧ Served step ok (step s a).1 trace

instance [∀ s a, Decidable (ok s a)] : ∀ s trace, Decidable (Served step ok s trace)
  | _, [] => inferInstanceAs (Decidable True)
  | s, a :: trace =>
    have := instDecidableServed (step s a).1 trace
    inferInstanceAs (Decidable (ok s a ∧ Served step ok (step s a).1 trace))

theorem run_concat (step : σ → τ × α → σ × Option β) (s : σ) (trace : List (τ × α)) (a : τ × α) :
    run step s (trace ++ [a]) = (step (run step s trace) a).1 := by
  rw [run, List.foldl_append]
  rfl

theorem answers_concat (step : σ → τ × α → σ × Option β) (s : σ) (trace : List (τ × α))
    (a : τ × α) : answers step s (trace ++ [a]) =
      answers step s trace ++ (step (run step s trace) a).2.toList := by
  induction trace generalizing s with
  | nil => exact List.append_nil _
  | cons b trace ih =>
    rw [List.cons_append, answers, answers, ih, List.append_assoc]
    rfl

theorem served_iff : Served step ok s trace ↔
    ∀ before a after, trace = before ++ a :: after → ok (run step s before) a := by
  induction trace generalizing s with
  | nil =>
    refine iff_of_true trivial fun before a after h => ?_
    exact absurd h.symm (List.append_ne_nil_of_right_ne_nil _ (List.cons_ne_nil a after))
  | cons b trace ih =>
    rw [Served, ih]
    constructor
    · rintro ⟨hfirst, hrest⟩ before a after h
      rcases List.cons_eq_append_iff.mp h with ⟨rfl, hsplit⟩ | ⟨before', rfl, hsplit⟩
      · rwa [(List.cons.inj hsplit).1]
      · exact hrest before' a after hsplit
    · exact fun h => ⟨h [] b trace rfl, fun before a after hsplit =>
        h (b :: before) a after (congrArg (b :: ·) hsplit)⟩

/-- What every request keeps, a list of requests keeps. -/
theorem run_invariant {I : σ → Prop} (hstart : I s) (hstep : ∀ s a, I s → I (step s a).1)
    (trace : List (τ × α)) : I (run step s trace) := by
  induction trace generalizing s with
  | nil => exact hstart
  | cons a trace ih => exact ih (hstep s a hstart)

/-- **Simulation of requests that differ.** Machines whose states stay related through related
requests answer alike. -/
theorem answers_eq_of_forall₂ {γ : Type*} {step' : ρ → τ × γ → ρ × Option β} {R : σ → ρ → Prop}
    {L : τ × α → τ × γ → Prop} {trace' : List (τ × γ)}
    (hstep : ∀ s r a b, R s r → L a b →
      R (step s a).1 (step' r b).1 ∧ (step s a).2 = (step' r b).2)
    (hstart : R s r) (htrace : List.Forall₂ L trace trace') :
    answers step s trace = answers step' r trace' := by
  induction htrace generalizing s r with
  | nil => rfl
  | cons ha _ ih =>
    obtain ⟨hrel, hanswer⟩ := hstep s r _ _ hstart ha
    rw [answers, answers, hanswer, ih hrel]

section Ordered

variable [Preorder τ]

/-- The times never go back. -/
def Ordered (trace : List (τ × α)) : Prop := trace.Pairwise fun a b => a.1 ≤ b.1

/-- **Simulation.** Machines whose states stay related answer alike. -/
theorem answers_eq {R : τ → σ → ρ → Prop}
    (hstep : ∀ t s r a, R t s r → t ≤ a.1 → ok s a →
      R a.1 (step s a).1 (step' r a).1 ∧ (step s a).2 = (step' r a).2)
    (hstart : ∀ t, R t s r) (hordered : Ordered trace) (hserved : Served step ok s trace) :
    answers step s trace = answers step' r trace := by
  -- by induction on the trace, with the relation at the time of the last call
  have hfrom : ∀ (trace : List (τ × α)) (t : τ) (s : σ) (r : ρ), R t s r →
      (∀ a ∈ trace, t ≤ a.1) → Ordered trace → Served step ok s trace →
      answers step s trace = answers step' r trace := by
    intro trace
    induction trace with
    | nil => exact fun _ _ _ _ _ _ _ => rfl
    | cons a trace ih =>
      intro t s r hR hle hordered hserved
      obtain ⟨hfirst, hrest⟩ := List.pairwise_cons.mp hordered
      obtain ⟨hrel, hanswer⟩ := hstep t s r a hR (hle a List.mem_cons_self) hserved.1
      rw [answers, answers, hanswer, ih a.1 _ _ hrel hfirst hrest hserved.2]
  cases trace with
  | nil => rfl
  | cons a trace =>
    obtain ⟨hfirst, hrest⟩ := List.pairwise_cons.mp hordered
    apply hfrom _ a.1 s r (hstart a.1) _ hordered hserved
    intro b hb
    rcases List.mem_cons.mp hb with rfl | hb
    · exact le_rfl
    · exact hfirst b hb

/-- **Invariants over times and answers.** What every request that is served keeps, of the time,
the state and the answers so far, ordered requests keep. -/
theorem served_rule {I : τ → σ → List β → Prop} {t : τ}
    (hstep : ∀ t s out a, I t s out → t ≤ a.1 → ok s a →
      I a.1 (step s a).1 (out ++ (step s a).2.toList))
    (hstart : I t s []) (hle : ∀ a ∈ trace, t ≤ a.1) (hordered : Ordered trace)
    (hserved : Served step ok s trace) :
    ∃ t', I t' (run step s trace) (answers step s trace) := by
  have hfrom : ∀ (trace : List (τ × α)) (t : τ) (s : σ) (out : List β), I t s out →
      (∀ a ∈ trace, t ≤ a.1) → Ordered trace → Served step ok s trace →
      ∃ t', I t' (run step s trace) (out ++ answers step s trace) := by
    intro trace
    induction trace with
    | nil =>
      intro t s out h _ _ _
      exact ⟨t, by rwa [answers, List.append_nil]⟩
    | cons a trace ih =>
      intro t s out h hle hordered hserved
      obtain ⟨hfirst, hrest⟩ := List.pairwise_cons.mp hordered
      have hnext := hstep t s out a h (hle a List.mem_cons_self) hserved.1
      rw [answers, ← List.append_assoc]
      exact ih a.1 _ _ hnext hfirst hrest hserved.2
  exact hfrom trace t s [] hstart hle hordered hserved

end Ordered

end Timed
