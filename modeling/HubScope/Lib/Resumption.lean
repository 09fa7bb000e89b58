import HubScope.Lib.Transition
import Mathlib.Data.Nat.Notation

/-!
# Programs that make calls

A program over an interface of calls either is done or makes a call and goes on with its answer.
The calls act on a shared state; each of them may fail. A program can be run to its end, or
threads that each run a program can interleave at their calls.

## Main definitions

* `Resumption` — a program over an interface
* `Resumption.run` — a program run to its end
* `Resumption.All` — every call a program may make has a property
* `Resumption.Meets` — the same, and every result it may end with has one
* `Threads`, `Threads.step` — programs that interleave at their calls

## Main results

* `Resumption.All.run` — what every call of a program keeps, a run keeps
* `Threads.all_of_reach` — the calls that are left to a thread are calls of its program
* `Threads.meets_of_reach` — threads keep an invariant that each of their calls keeps
-/

set_option autoImplicit false

/-- A program over the calls `Op` with answers `Ret`. -/
inductive Resumption (Op : Type) (Ret : Op → Type) (α : Type) : Type
  | done (a : α)
  | call (op : Op) (k : Ret op → Resumption Op Ret α)

namespace Resumption

variable {Op : Type} {Ret : Op → Type} {α σ : Type}
  {exec : σ → Bool → (op : Op) → Ret op × σ} {outcomes : ℕ → Bool}

/-- The call a program makes next. -/
def next? : Resumption Op Ret α → Option Op
  | done _ => none
  | call op _ => some op

/-- A program makes its next call. -/
def advance (exec : σ → Bool → (op : Op) → Ret op × σ) (ok : Bool) (s : σ) :
    Resumption Op Ret α → Option (Resumption Op Ret α × σ)
  | done _ => none
  | call op k => some (k (exec s ok op).1, (exec s ok op).2)

/-- A program runs to its end. The `n`-th call succeeds if `outcomes n` says so. -/
def run (exec : σ → Bool → (op : Op) → Ret op × σ) (outcomes : ℕ → Bool) :
    ℕ → σ → Resumption Op Ret α → α × σ
  | _, s, done a => (a, s)
  | n, s, call op k => run exec outcomes (n + 1) (exec s (outcomes n) op).2
      (k (exec s (outcomes n) op).1)

@[simp] theorem run_done (n : ℕ) (s : σ) (a : α) :
    run exec outcomes n s (done a : Resumption Op Ret α) = (a, s) := rfl

@[simp] theorem run_call (n : ℕ) (s : σ) (op : Op) (k : Ret op → Resumption Op Ret α) :
    run exec outcomes n s (call op k) = run exec outcomes (n + 1) (exec s (outcomes n) op).2
      (k (exec s (outcomes n) op).1) := rfl

/-- Every call the program may make has the property, whatever admitted answers it gets. -/
inductive All (P : Op → Prop) (admits : (op : Op) → Ret op → Prop) : Resumption Op Ret α → Prop
  | done (a : α) : All P admits (done a)
  | call {op : Op} {k : Ret op → Resumption Op Ret α} (hop : P op)
      (hk : ∀ r, admits op r → All P admits (k r)) : All P admits (call op k)

variable {P : Op → Prop} {admits : (op : Op) → Ret op → Prop} {p q : Resumption Op Ret α}
  {s t : σ} {ok : Bool}

theorem All.next (h : All P admits p) {op : Op} (hnext : p.next? = some op) : P op := by
  cases h with
  | done => cases hnext
  | call hop _ =>
    cases hnext
    exact hop

/-- What is left of a program after a call makes the calls of the program. -/
theorem All.advance (hadmits : ∀ s ok op, admits op (exec s ok op).1) (h : All P admits p)
    (hstep : p.advance exec ok s = some (q, t)) : All P admits q := by
  cases h with
  | done => cases hstep
  | call _ hk =>
    cases hstep
    exact hk _ (hadmits s ok _)

/-- **Invariant rule.** What every call of a program keeps, the program keeps. -/
theorem All.run {I : σ → Prop} (hadmits : ∀ s ok op, admits op (exec s ok op).1)
    (hexec : ∀ s ok op, P op → I s → I (exec s ok op).2) (h : All P admits p) (n : ℕ)
    (hs : I s) : I (p.run exec outcomes n s).2 := by
  induction h generalizing n s with
  | done a => exact hs
  | call hop _ ih =>
    rw [run_call]
    exact ih _ (hadmits _ _ _) _ (hexec _ _ _ hop hs)

/-- Every call the program may make and every result it may end with has its property, whatever
admitted answers the calls get. -/
inductive Meets (P : Op → Prop) (admits : (op : Op) → Ret op → Prop) (post : α → Prop) :
    Resumption Op Ret α → Prop
  | done {a : α} (ha : post a) : Meets P admits post (done a)
  | call {op : Op} {k : Ret op → Resumption Op Ret α} (hop : P op)
      (hk : ∀ r, admits op r → Meets P admits post (k r)) : Meets P admits post (call op k)

theorem Meets.result {post : α → Prop} {a : α}
    (h : Meets P admits post (Resumption.done a : Resumption Op Ret α)) : post a := by
  cases h with
  | done ha => exact ha

theorem Meets.next {post : α → Prop} (h : Meets P admits post p) {op : Op}
    (hnext : p.next? = some op) : P op := by
  cases h with
  | done => cases hnext
  | call hop _ =>
    cases hnext
    exact hop

/-- What is left of a program after a call whose answer is admitted. -/
theorem Meets.advance {post : α → Prop} (hadmits : ∀ op, admits op (exec s ok op).1)
    (h : Meets P admits post p) (hstep : p.advance exec ok s = some (q, t)) :
    Meets P admits post q := by
  cases h with
  | done => cases hstep
  | call _ hk =>
    cases hstep
    exact hk _ (hadmits _)

end Resumption

/-- A shared state, and the threads with the request each of them serves. -/
structure Threads (Req : Type) (Op : Type) (Ret : Op → Type) (α σ : Type) where
  shared : σ
  threads : List (Req × Resumption Op Ret α)

/-- A request comes, or a thread makes its next call. -/
inductive ThreadLabel (Req : Type)
  | start (req : Req)
  | call (i : ℕ) (ok : Bool)

namespace Threads

variable {Req Op : Type} {Ret : Op → Type} {α σ : Type}
  {exec : σ → Bool → (op : Op) → Ret op × σ} {program : Req → Resumption Op Ret α}

/-- One step of the threads. -/
def step (exec : σ → Bool → (op : Op) → Ret op × σ) (program : Req → Resumption Op Ret α)
    (s : Threads Req Op Ret α σ) : ThreadLabel Req → Option (Threads Req Op Ret α σ)
  | .start req => some { s with threads := s.threads ++ [(req, program req)] }
  | .call i ok =>
    (s.threads[i]?).bind fun th =>
      (th.2.advance exec ok s.shared).map fun next =>
        { shared := next.2, threads := s.threads.set i (th.1, next.1) }

variable {s t : Threads Req Op Ret α σ} {a : ThreadLabel Req}
  {guard : Threads Req Op Ret α σ → ThreadLabel Req → Prop}

/-- What a step does: a thread is added, or one makes a call. -/
theorem step_cases (h : step exec program s a = some t) :
    (∃ req, a = .start req ∧ t.shared = s.shared ∧
      t.threads = s.threads ++ [(req, program req)]) ∨
    ∃ i ok req p q, a = .call i ok ∧ s.threads[i]? = some (req, p) ∧
      p.advance exec ok s.shared = some (q, t.shared) ∧ t.threads = s.threads.set i (req, q) := by
  cases a with
  | start req =>
    cases h
    exact .inl ⟨req, rfl, rfl, rfl⟩
  | call i ok =>
    obtain ⟨⟨req, p⟩, hth, h⟩ := Option.bind_eq_some_iff.mp h
    obtain ⟨⟨q, shared⟩, hadvance, rfl⟩ := Option.map_eq_some_iff.mp h
    exact .inr ⟨i, ok, req, p, q, rfl, hth, hadvance, rfl⟩

/-- **Every call of a thread is a call of its program.** -/
theorem all_of_reach {P : Req → Op → Prop} {admits : (op : Op) → Ret op → Prop}
    (hadmits : ∀ s ok op, admits op (exec s ok op).1)
    (hprogram : ∀ req, (program req).All (P req) admits) (hinit : s.threads = [])
    (h : Transition.Reach (step exec program) guard s t) :
    ∀ th ∈ t.threads, th.2.All (P th.1) admits := by
  apply h.invariant
  · intro th hth
    rw [hinit] at hth
    cases hth
  · intro t a u ht _ hstep
    -- a request arrives, or a thread makes its next call
    obtain ⟨req, -, -, hthreads⟩ | ⟨i, ok, req, p, q, -, hget, hadvance, hthreads⟩ :=
      step_cases hstep
    · rw [hthreads]
      intro th hth
      obtain hth | hth := List.mem_append.mp hth
      · exact ht th hth
      · rw [List.mem_singleton.mp hth]
        exact hprogram req
    · rw [hthreads]
      intro th hth
      obtain hth | rfl := List.mem_or_eq_of_mem_set hth
      · exact ht th hth
      · exact (ht _ (List.mem_of_getElem? hget)).advance hadmits hadvance

/-- **Invariant rule for threads.** The programs rely on the answers that calls get in states with
the invariant, and each of their calls keeps it. Then the state has the invariant in every
interleaving, and what is left of each thread still meets its postcondition. -/
theorem meets_of_reach {I : σ → Prop} {P : Op → Prop} {admits : (op : Op) → Ret op → Prop}
    {post : α → Prop} (hadmits : ∀ s ok op, I s → admits op (exec s ok op).1)
    (hexec : ∀ s ok op, P op → I s → I (exec s ok op).2)
    (hprogram : ∀ req, (program req).Meets P admits post) (hinit : I s.shared)
    (hthreads : s.threads = []) (h : Transition.Reach (step exec program) guard s t) :
    I t.shared ∧ ∀ th ∈ t.threads, th.2.Meets P admits post := by
  refine h.invariant (I := fun t => I t.shared ∧ ∀ th ∈ t.threads, th.2.Meets P admits post)
    ⟨hinit, ?_⟩ ?_
  · rw [hthreads]
    exact fun _ hth => nomatch hth
  · intro t a u ⟨hshared, hmeets⟩ _ hstep
    obtain ⟨req, -, hkept, hnew⟩ | ⟨i, ok, req, p, q, -, hget, hadvance, hnew⟩ := step_cases hstep
    · rw [hkept, hnew]
      refine ⟨hshared, fun th hth => ?_⟩
      rcases List.mem_append.mp hth with hth | hth
      · exact hmeets th hth
      · rw [List.mem_singleton.mp hth]
        exact hprogram req
    · have hp := hmeets _ (List.mem_of_getElem? hget)
      refine ⟨?_, fun th hth => ?_⟩
      · cases p with
        | done => cases hadvance
        | call op k =>
          obtain ⟨-, hto⟩ := Prod.mk.inj (Option.some.inj hadvance)
          rw [← hto]
          exact hexec _ _ _ (hp.next rfl) hshared
      · rw [hnew] at hth
        rcases List.mem_or_eq_of_mem_set hth with hth | rfl
        · exact hmeets th hth
        · exact hp.advance (fun op => hadmits _ _ _ hshared) hadvance

end Threads
