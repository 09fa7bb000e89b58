import HubScope.Store.Failures
import HubScope.Store.Models
import HubScope.Status.Score

/-!
# Models all of whose chat endpoints are down

Before a run the evaluator asks for the models it need not call. One statement answers for all
the models of the run: it groups the failed probes after each endpoint's last success, keeps the
endpoints with enough of them, joins these to the enabled chat endpoints and keeps the models
where the join leaves no endpoint alone. The board decides the same for one endpoint by counting
its failures and comparing with the threshold.

## Main definitions

* `leftJoin` — the outer join of two lists
* `fails` — the endpoints with enough failures
* `listModelsAllChatEndpointsDown` — the statement

## Main results

* `length_eq_countP_leftJoin` — `COUNT(*) = COUNT(right)` says that every left row has a match
* `mem_fails` — the grouped failures are the count of one endpoint
* `mem_listModelsAllChatEndpointsDown` — the statement decides what the counts decide
-/

set_option autoImplicit false

namespace HubScope

/-! ### Outer joins -/

section LeftJoin

variable {α β : Type*} {on : α → β → Bool} {xs : List α} {ys : List β}

/-- Every left row with each right row it matches, or alone where it matches none. -/
def leftJoin (on : α → β → Bool) (xs : List α) (ys : List β) : List (α × Option β) :=
  xs.flatMap fun x =>
    if ys.any (on x) then (ys.filter (on x)).map fun y => (x, some y) else [(x, none)]

theorem mem_leftJoin {x : α} {o : Option β} : (x, o) ∈ leftJoin on xs ys ↔
    x ∈ xs ∧ match o with
      | some y => y ∈ ys ∧ on x y = true
      | none => ∀ y ∈ ys, on x y = false := by
  rw [leftJoin, List.mem_flatMap]
  constructor
  · rintro ⟨x', hx, hmem⟩
    split_ifs at hmem with hany
    · obtain ⟨y, hy, heq⟩ := List.mem_map.mp hmem
      cases heq
      exact ⟨hx, List.mem_filter.mp hy⟩
    · cases List.mem_singleton.mp hmem
      exact ⟨hx, by simpa using hany⟩
  · rintro ⟨hx, hmatch⟩
    refine ⟨x, hx, ?_⟩
    cases o with
    | none =>
      have hany : ¬ ys.any (on x) = true := by simpa using hmatch
      rw [if_neg hany]
      exact List.mem_singleton.mpr rfl
    | some y =>
      have hany : ys.any (on x) = true := List.any_eq_true.mpr ⟨y, hmatch⟩
      rw [if_pos hany]
      exact List.mem_map_of_mem (List.mem_filter.mpr hmatch)

/-- No left row is lost. -/
theorem exists_mem_leftJoin {x : α} (hx : x ∈ xs) : ∃ o, (x, o) ∈ leftJoin on xs ys := by
  by_cases hmatch : ∃ y ∈ ys, on x y = true
  · obtain ⟨y, hy⟩ := hmatch
    exact ⟨some y, mem_leftJoin.mpr ⟨hx, hy⟩⟩
  · exact ⟨none, mem_leftJoin.mpr ⟨hx, by simpa using hmatch⟩⟩

variable (on xs ys) in
/-- Among the joined rows of some left rows, as many have a match as there are just when each
of these left rows has one. -/
theorem length_eq_countP_leftJoin (p : α → Bool) :
    ((leftJoin on xs ys).filter fun r => p r.1).length =
        ((leftJoin on xs ys).filter fun r => p r.1).countP (·.2.isSome) ↔
      ∀ x ∈ xs, p x = true → ∃ y ∈ ys, on x y = true := by
  rw [eq_comm, List.countP_eq_length]
  constructor
  · intro hall x hx hp
    obtain ⟨o, ho⟩ : ∃ o, (x, o) ∈ leftJoin on xs ys := exists_mem_leftJoin hx
    have hsome : o.isSome = true := hall (x, o) (List.mem_filter.mpr ⟨ho, hp⟩)
    obtain ⟨y, rfl⟩ := Option.isSome_iff_exists.mp hsome
    exact ⟨y, (mem_leftJoin.mp ho).2⟩
  · rintro hmatch ⟨x, o⟩ hr
    obtain ⟨hjoin, hp⟩ := List.mem_filter.mp hr
    obtain ⟨hx, ho⟩ := mem_leftJoin.mp hjoin
    cases o with
    | some y => rfl
    | none =>
      -- a row alone contradicts the match of its left side
      obtain ⟨y, hy, hon⟩ := hmatch x hx hp
      exact absurd hon (by simp [ho y hy])

end LeftJoin

/-! ### The statement -/

/-- The failed probes after the last success of their endpoint. -/
def failedSinceSuccess (rows : List ProbeRow) : List ProbeRow :=
  rows.filter fun p =>
    !p.probe.ok && (lastSuccessAt rows p.probe.endpointId).all (· < p.probe.createdAt)

/-- `fails`: the endpoints with at least the threshold of them. -/
def fails (rows : List ProbeRow) : List ℕ :=
  ((Grouping.group (·.probe.endpointId) (failedSinceSuccess rows)).filter fun g =>
    Status.downThreshold ≤ g.2.length).map (·.1)

/-- The endpoint is enabled and of a chat protocol. -/
def EndpointRow.EnabledChat (e : EndpointRow) : Prop :=
  e.enabled = true ∧ (e.protocol = protocolAnthropic ∨ e.protocol = protocolOpenAI)

instance (e : EndpointRow) : Decidable e.EnabledChat := inferInstanceAs (Decidable (_ ∧ _))

/-- The enabled chat endpoints of the given models, with the entry of `fails` each has. -/
def chatEndpointsWithFails (t : HubTables) (rows : List ProbeRow) (modelIds : List ℕ) :
    List (EndpointRow × Option ℕ) :=
  leftJoin (fun e f => f = e.id)
    (t.endpoints.filter fun e => e.modelDbId ∈ modelIds ∧ e.EnabledChat) (fails rows)

/-- The models, of the given ones, every enabled chat endpoint of which is down. -/
def listModelsAllChatEndpointsDown (t : HubTables) (rows : List ProbeRow) (modelIds : List ℕ) :
    List ℕ :=
  if modelIds = [] then []
  else
    ((Grouping.group (·.1.modelDbId) (chatEndpointsWithFails t rows modelIds)).filter fun g =>
      g.2.length = g.2.countP (·.2.isSome)).map (·.1)

variable {t : HubTables} {rows : List ProbeRow} {modelIds : List ℕ}

/-- The failures grouped under an endpoint are the ones it counts. -/
theorem length_failedSinceSuccess (endpointId : ℕ) :
    ((failedSinceSuccess rows).filter fun p => p.probe.endpointId = endpointId).length =
      countConsecutiveFailures rows endpointId := by
  rw [countConsecutiveFailures, probesOf, failedSinceSuccess, List.countP_filter, List.filter_filter,
    ← List.countP_eq_length_filter]
  refine List.countP_congr fun p _ => ?_
  by_cases hid : p.probe.endpointId = endpointId
  · simp [hid]
  · simp [hid]

/-- An endpoint is among the grouped failures just when it counts enough of them. The threshold
is positive, so an endpoint without a group counts too few. -/
theorem mem_fails {endpointId : ℕ} : endpointId ∈ fails rows ↔
    Status.downThreshold ≤ countConsecutiveFailures rows endpointId := by
  rw [← length_failedSinceSuccess]
  constructor
  · intro hmem
    obtain ⟨g, hg, hid⟩ := List.mem_map.mp hmem
    obtain ⟨hg, hmany⟩ := List.mem_filter.mp hg
    obtain ⟨-, hrows⟩ := Grouping.mem_group.mp (show (g.1, g.2) ∈ _ from hg)
    rw [← hid, ← hrows]
    exact of_decide_eq_true hmany
  · intro hmany
    have hpos : 0 < ((failedSinceSuccess rows).filter fun p =>
        p.probe.endpointId = endpointId).length := by
      have hthreshold : (0 : ℤ) < Status.downThreshold := by decide
      omega
    obtain ⟨p, hp⟩ := List.exists_mem_of_length_pos hpos
    obtain ⟨hp, hid⟩ := List.mem_filter.mp hp
    refine List.mem_map.mpr ⟨(endpointId, _), List.mem_filter.mpr ⟨?_, decide_eq_true hmany⟩, rfl⟩
    exact Grouping.mem_group.mpr ⟨⟨p, hp, of_decide_eq_true hid⟩, rfl⟩

/-- A model has a joined row just when it is asked for and has an enabled chat endpoint. -/
theorem exists_chatEndpoint_iff {modelId : ℕ} :
    (∃ r ∈ chatEndpointsWithFails t rows modelIds, r.1.modelDbId = modelId) ↔
      modelId ∈ modelIds ∧ ∃ e ∈ t.endpoints, e.modelDbId = modelId ∧ e.EnabledChat := by
  constructor
  · rintro ⟨⟨e, o⟩, hr, rfl⟩
    obtain ⟨he, hasked⟩ := List.mem_filter.mp (mem_leftJoin.mp hr).1
    rw [decide_eq_true_eq] at hasked
    exact ⟨hasked.1, e, he, rfl, hasked.2⟩
  · rintro ⟨hasked, e, he, rfl, hchat⟩
    have hmem : e ∈ t.endpoints.filter fun e => e.modelDbId ∈ modelIds ∧ e.EnabledChat :=
      List.mem_filter.mpr ⟨he, decide_eq_true ⟨hasked, hchat⟩⟩
    obtain ⟨o, ho⟩ := exists_mem_leftJoin hmem
    exact ⟨(e, o), ho, rfl⟩

/-- **Over any tables and probes, the statement returns, of the models asked for, those with an
enabled chat endpoint and at least the threshold of consecutive failures on every such
endpoint.** -/
theorem mem_listModelsAllChatEndpointsDown (t : HubTables) (rows : List ProbeRow)
    (modelIds : List ℕ) (modelId : ℕ) :
    modelId ∈ listModelsAllChatEndpointsDown t rows modelIds ↔
      modelId ∈ modelIds ∧
        (∃ e ∈ t.endpoints, e.modelDbId = modelId ∧ e.EnabledChat) ∧
        ∀ e ∈ t.endpoints, e.modelDbId = modelId → e.EnabledChat →
          Status.downThreshold ≤ countConsecutiveFailures rows e.id := by
  by_cases hasked : modelId ∈ modelIds
  · have hsome : modelIds ≠ [] := List.ne_nil_of_mem hasked
    -- what the group of the model counts is decided endpoint by endpoint
    have hcount := length_eq_countP_leftJoin (fun e f => decide (f = e.id))
      (t.endpoints.filter fun e => e.modelDbId ∈ modelIds ∧ e.EnabledChat) (fails rows)
      fun e => decide (e.modelDbId = modelId)
    have hdown : (∀ e ∈ t.endpoints.filter fun e => e.modelDbId ∈ modelIds ∧ e.EnabledChat,
          decide (e.modelDbId = modelId) = true → ∃ f ∈ fails rows, decide (f = e.id) = true) ↔
        ∀ e ∈ t.endpoints, e.modelDbId = modelId → e.EnabledChat →
          Status.downThreshold ≤ countConsecutiveFailures rows e.id := by
      simp only [List.mem_filter, decide_eq_true_eq, exists_eq_right, mem_fails]
      constructor
      · exact fun h e he hid hchat => h e ⟨he, hid ▸ hasked, hchat⟩ hid
      · exact fun h e he hid => h e he.1 hid he.2.2
    rw [listModelsAllChatEndpointsDown, if_neg hsome]
    constructor
    · intro hmem
      obtain ⟨⟨id, g⟩, hg, rfl⟩ := List.mem_map.mp hmem
      obtain ⟨hg, hall⟩ := List.mem_filter.mp hg
      obtain ⟨hrow, rfl⟩ := Grouping.mem_group.mp hg
      exact ⟨hasked, (exists_chatEndpoint_iff.mp hrow).2,
        hdown.mp (hcount.mp (of_decide_eq_true hall))⟩
    · rintro ⟨-, hchat, hall⟩
      have hrow : ∃ r ∈ chatEndpointsWithFails t rows modelIds, r.1.modelDbId = modelId :=
        exists_chatEndpoint_iff.mpr ⟨hasked, hchat⟩
      have hgroup := Grouping.mem_group.mpr ⟨hrow, rfl⟩
      refine List.mem_map.mpr ⟨_, List.mem_filter.mpr ⟨hgroup, ?_⟩, rfl⟩
      exact decide_eq_true (hcount.mpr (hdown.mpr hall))
  · refine iff_of_false (fun hmem => ?_) fun h => hasked h.1
    rw [listModelsAllChatEndpointsDown] at hmem
    split_ifs at hmem with hnil
    · cases hmem
    · obtain ⟨⟨id, g⟩, hg, rfl⟩ := List.mem_map.mp hmem
      obtain ⟨hrow, -⟩ := Grouping.mem_group.mp (List.mem_filter.mp hg).1
      exact hasked (exists_chatEndpoint_iff.mp hrow).1

end HubScope
