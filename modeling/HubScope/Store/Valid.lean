import HubScope.Store.Calls

/-!
# Keys of the evaluation tables

Ids are autoincremented primary keys: no two rows share one, and none is above the sequence
that numbers them. A result row belongs to a run the sequence has numbered. Every store call
keeps this, so a run that is created has no row yet.

## Main definitions

* `Store.Valid` — the keys of the tables

## Main results

* `Store.Valid.rowCount_eq_zero` — a run beyond the sequence has no result rows
-/

set_option autoImplicit false

namespace HubScope.Store

variable {st st' : Store}

/-- The keys of the tables. -/
structure Valid (st : Store) : Prop where
  modelIds : (st.models.map (·.id)).Nodup
  caseIds : (st.cases.map (·.id)).Nodup
  campaignIds : (st.campaigns.map (·.id)).Nodup
  campaignSeq : ∀ c ∈ st.campaigns, c.id ≤ st.campaignSeq
  runIds : (st.runs.map (·.id)).Nodup
  runSeq : ∀ r ∈ st.runs, r.id ≤ st.runSeq
  resultRuns : ∀ r ∈ st.results, r.runId ≤ st.runSeq

namespace Valid

variable {u : UnitKey}

/-- A run the sequence has not numbered has no result rows. -/
theorem rowCount_eq_zero (h : st.Valid) (hu : st.runSeq < u.runId) : st.rowCount u = 0 := by
  rw [rowCount, List.countP_eq_zero]
  intro r hr hunit
  have hle := h.resultRuns r hr
  have hrun : r.unit.runId = u.runId := congrArg UnitKey.runId (by simpa using hunit)
  change r.runId = u.runId at hrun
  omega

theorem createCampaign (h : st.Valid) (modelIds : List ℕ) :
    (st.createCampaign modelIds).1.Valid where
  modelIds := h.modelIds
  caseIds := h.caseIds
  campaignIds := by
    simp only [Store.createCampaign, List.map_append, List.map_cons, List.map_nil]
    refine List.nodup_append.mpr ⟨h.campaignIds, List.nodup_singleton _, ?_⟩
    intro id hid id' hid'
    obtain ⟨c, hc, rfl⟩ := List.mem_map.mp hid
    obtain rfl := List.mem_singleton.mp hid'
    have hle := h.campaignSeq c hc
    omega
  campaignSeq c hc := by
    change c ∈ st.campaigns ++ _ at hc
    change c.id ≤ st.campaignSeq + 1
    rcases List.mem_append.mp hc with hc | hc
    · exact Nat.le_succ_of_le (h.campaignSeq c hc)
    · rw [List.mem_singleton.mp hc]
  runIds := h.runIds
  runSeq := h.runSeq
  resultRuns := h.resultRuns

theorem createEvalRun (h : st.Valid) (campaignId suiteId : ℕ) (judgeModel : String) :
    (st.createEvalRun campaignId suiteId judgeModel).1.Valid where
  modelIds := h.modelIds
  caseIds := h.caseIds
  campaignIds := h.campaignIds
  campaignSeq := h.campaignSeq
  runIds := by
    simp only [Store.createEvalRun, List.map_append, List.map_cons, List.map_nil]
    refine List.nodup_append.mpr ⟨h.runIds, List.nodup_singleton _, ?_⟩
    intro id hid id' hid'
    obtain ⟨r, hr, rfl⟩ := List.mem_map.mp hid
    obtain rfl := List.mem_singleton.mp hid'
    have hle := h.runSeq r hr
    omega
  runSeq r hr := by
    change r ∈ st.runs ++ _ at hr
    change r.id ≤ st.runSeq + 1
    rcases List.mem_append.mp hr with hr | hr
    · exact Nat.le_succ_of_le (h.runSeq r hr)
    · rw [List.mem_singleton.mp hr]
  resultRuns r hr := Nat.le_succ_of_le (h.resultRuns r hr)

/-- Rewriting runs in place keeps the keys. -/
theorem map_runs (h : st.Valid) {f : EvalRun → EvalRun} (hf : ∀ r, (f r).id = r.id) :
    Valid { st with runs := st.runs.map f } where
  modelIds := h.modelIds
  caseIds := h.caseIds
  campaignIds := h.campaignIds
  campaignSeq := h.campaignSeq
  runIds := by
    have hids : (st.runs.map f).map (·.id) = st.runs.map (·.id) := by
      rw [List.map_map]
      exact List.map_congr_left fun r _ => hf r
    exact hids ▸ h.runIds
  runSeq r hr := by
    obtain ⟨r₀, hr₀, rfl⟩ := List.mem_map.mp hr
    rw [hf]
    exact h.runSeq r₀ hr₀
  resultRuns := h.resultRuns

/-- Rewriting campaigns in place keeps the keys. -/
theorem map_campaigns (h : st.Valid) {f : Campaign → Campaign} (hf : ∀ c, (f c).id = c.id) :
    Valid { st with campaigns := st.campaigns.map f } where
  modelIds := h.modelIds
  caseIds := h.caseIds
  campaignIds := by
    have hids : (st.campaigns.map f).map (·.id) = st.campaigns.map (·.id) := by
      rw [List.map_map]
      exact List.map_congr_left fun c _ => hf c
    exact hids ▸ h.campaignIds
  campaignSeq c hc := by
    obtain ⟨c₀, hc₀, rfl⟩ := List.mem_map.mp hc
    rw [hf]
    exact h.campaignSeq c₀ hc₀
  runIds := h.runIds
  runSeq := h.runSeq
  resultRuns := h.resultRuns

theorem updateRun (h : st.Valid) (id : ℕ) {f : EvalRun → EvalRun} (hf : ∀ r, (f r).id = r.id) :
    (st.updateRun id f).Valid := by
  refine h.map_runs fun r => ?_
  split_ifs
  · exact hf r
  · rfl

/-- A reopen rewrites campaigns and runs in place. -/
theorem reopenCampaign (h : st.Valid) {id : ℕ} {rejoin : EvalRun → Bool}
    (hreopen : st.reopenCampaign id rejoin = some st') : st'.Valid := by
  unfold Store.reopenCampaign at hreopen
  split_ifs at hreopen
  obtain rfl := Option.some.inj hreopen
  refine (h.map_campaigns fun c => ?_).map_runs fun r => ?_
  · split_ifs <;> rfl
  · split_ifs <;> rfl

end Valid

end HubScope.Store
