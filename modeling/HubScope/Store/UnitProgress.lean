import HubScope.Store.Calls
import Mathlib.Algebra.BigOperators.Group.List.Basic
import Mathlib.Algebra.GroupWithZero.Nat
import Mathlib.Algebra.Order.BigOperators.Group.List
import Mathlib.Algebra.Order.Group.Nat
import Mathlib.Data.List.Dedup
import Mathlib.Data.List.ProdSigma

/-!
# The unit progress of active campaigns

The campaign list shows for every pending or running campaign how many units are judged and how
many are expected. Judged are the distinct (model, case) pairs among the result rows of its runs;
expected are, for each run, the campaign's members times the enabled cases of the run's suite.
The first counts what was stored, the second what the tables hold now.

## Main definitions

* `Store.getRunUnitProgress`, `Store.fillActiveCampaignUnits` — the two counts
* `Store.createCase`, `replaceCase`, `setCaseEnabled` — what administrators do to the cases
* `Store.OnGrid` — the rows of a run are of members and of enabled cases of its suite

## Main results

* `Store.doneUnits_le_totalUnits` — a run whose rows are on the grid has no unit too many
* `Store.judgedUnits_le_expectedUnits` — nor has a campaign of such runs
-/

set_option autoImplicit false

namespace HubScope

/-! ### The cases of a suite -/

namespace Store

/-- Insert a case. Its id is a new one. -/
def createCase (st : Store) (c : Case) : Option Store :=
  if st.cases.any (·.id = c.id) then none else some { st with cases := st.cases ++ [c] }

/-- Toggle a case in place. -/
def setEnabled (st : Store) (id : ℕ) (enabled : Bool) : Store :=
  { st with cases := st.cases.map fun c => if c.id = id then { c with enabled := enabled } else c }

/-- The immutable edit: disable the old case and insert the merged one. -/
def replaceCase (st : Store) (oldId : ℕ) (c : Case) : Option Store :=
  (st.setEnabled oldId false).createCase c

/-- Toggle a case that exists. -/
def setCaseEnabled (st : Store) (id : ℕ) (enabled : Bool) : Option Store :=
  (st.getCase id).map fun _ => st.setEnabled id enabled

end Store

/-! ### Progress of a run -/

/-- A run's campaign and its completion, in (model, case) units. -/
structure RunUnitProgress where
  campaignId : ℕ
  doneUnits : ℕ
  totalUnits : ℕ
  deriving DecidableEq, Repr

namespace Store

/-- The units of a run with at least one result row. -/
def doneUnits (st : Store) (runId : ℕ) : List (ℕ × ℕ) :=
  ((st.listEvalResults runId).map fun r => (r.modelDbId, r.caseId)).dedup

/-- How many members a campaign has. -/
def countMembers (st : Store) (campaignId : ℕ) : ℕ := st.campaignModels.countP (·.1 = campaignId)

/-- The unit completion of a run as it stands. -/
def unitProgress (st : Store) (run : EvalRun) : RunUnitProgress where
  campaignId := run.campaignId
  doneUnits := (st.doneUnits run.id).length
  totalUnits := st.countMembers run.campaignId * (st.listEnabledCases run.suiteId).length

/-- The unit completion of the runs with the given ids; unknown ids are absent. -/
def getRunUnitProgress (st : Store) (ids : List ℕ) : List (ℕ × RunUnitProgress) :=
  (st.runs.filter (·.id ∈ ids)).map fun run => (run.id, st.unitProgress run)

end Store

/-! ### The campaign list -/

/-- The run counts of a campaign and, of an active one, its units. -/
structure CampaignProgress where
  total : ℕ
  done : ℕ
  failed : ℕ
  running : ℕ
  judgedUnits : ℕ
  expectedUnits : ℕ
  deriving DecidableEq, Repr

/-- A campaign of the list. -/
structure CampaignDTO where
  id : ℕ
  status : Status
  progress : CampaignProgress
  deriving DecidableEq, Repr

namespace Store

/-- A campaign with the counts of its runs. -/
def toCampaignDTO (st : Store) (c : Campaign) : CampaignDTO :=
  let runs := st.listEvalRunsByCampaign c.id
  { id := c.id
    status := c.status
    progress :=
      { total := runs.length
        done := runs.countP (·.status = .done)
        failed := runs.countP (·.status = .failed)
        running := runs.countP (·.status = .running)
        judgedUnits := 0
        expectedUnits := 0 } }

/-- The campaigns in the scope of a session, newest first. -/
def listCampaigns (st : Store) (inScope : ℕ → Bool) : List CampaignDTO :=
  ((st.campaigns.filter fun c => inScope c.id).insertionSort fun a b => b.id ≤ a.id).map
    st.toCampaignDTO

/-- Attach the units to every active campaign. -/
def fillActiveCampaignUnits (st : Store) (dtos : List CampaignDTO) : List CampaignDTO :=
  dtos.map fun dto =>
    if dto.status ≠ .running ∧ dto.status ≠ .pending then dto
    else
      let units := st.getRunUnitProgress ((st.listEvalRunsByCampaign dto.id).map (·.id))
      { dto with
        progress :=
          { dto.progress with
            judgedUnits := dto.progress.judgedUnits + (units.map (·.2.doneUnits)).sum
            expectedUnits := dto.progress.expectedUnits + (units.map (·.2.totalUnits)).sum } }

/-- `GET /api/campaigns`. -/
def handleListCampaigns (st : Store) (inScope : ℕ → Bool) : List CampaignDTO :=
  st.fillActiveCampaignUnits (st.listCampaigns inScope)

/-- Every active campaign of the list has at most as many judged units as expected ones. -/
def UnitsBounded (st : Store) : Prop :=
  ∀ inScope, ∀ dto ∈ st.handleListCampaigns inScope, dto.status.terminal = false →
    dto.progress.judgedUnits ≤ dto.progress.expectedUnits

/-! ### Rows on the grid -/

variable {st : Store} {run : EvalRun}

/-- The rows of a run are of members of its campaign and of enabled cases of its suite. -/
def OnGrid (st : Store) (run : EvalRun) : Prop :=
  ∀ r ∈ st.results, r.runId = run.id → (run.campaignId, r.modelDbId) ∈ st.campaignModels ∧
    ∃ c ∈ st.listEnabledCases run.suiteId, c.id = r.caseId

/-- The units of a grid are the pairs of its members and its cases. -/
theorem doneUnits_le_totalUnits (h : st.OnGrid run) :
    (st.unitProgress run).doneUnits ≤ (st.unitProgress run).totalUnits := by
  let members := (st.campaignModels.filter (·.1 = run.campaignId)).map (·.2)
  let cases := (st.listEnabledCases run.suiteId).map (·.id)
  -- done units are pairs of a member and an enabled case
  have hsubset : st.doneUnits run.id ⊆ members.product cases := by
    intro u hu
    obtain ⟨r, hr, rfl⟩ := List.mem_map.mp (List.mem_dedup.mp hu)
    obtain ⟨hmem, hrun⟩ := List.mem_filter.mp hr
    obtain ⟨hmember, c, hc, hid⟩ := h r hmem (of_decide_eq_true hrun)
    apply List.mem_product.mpr
    constructor
    · exact List.mem_map.mpr ⟨_, List.mem_filter.mpr ⟨hmember, by simp⟩, rfl⟩
    · exact List.mem_map.mpr ⟨c, hc, hid⟩
  have hle : (st.doneUnits run.id).length ≤ (members.product cases).length :=
    (List.subperm_of_subset (List.nodup_dedup _) hsubset).length_le
  calc (st.doneUnits run.id).length
    _ ≤ (members.product cases).length := hle
    _ = members.length * cases.length := List.length_product ..
    _ = (st.unitProgress run).totalUnits := by
      simp only [members, cases, List.length_map, ← List.countP_eq_length_filter]
      rfl

/-- **Units of a campaign.** If the rows of all runs of active campaigns are on their grids, no
active campaign has more units judged than expected. -/
theorem judgedUnits_le_expectedUnits (hids : (st.runs.map (·.id)).Nodup)
    (h : ∀ run ∈ st.runs, (∃ c ∈ st.campaigns, c.id = run.campaignId ∧ c.status.terminal = false) →
      st.OnGrid run) : st.UnitsBounded := by
  intro inScope dto hdto hactive
  obtain ⟨d, hd, rfl⟩ := List.mem_map.mp hdto
  obtain ⟨c, hc, rfl⟩ := List.mem_map.mp hd
  have hmem : c ∈ st.campaigns :=
    List.mem_of_mem_filter ((List.perm_insertionSort _ _).mem_iff.mp hc)
  dsimp only at hactive ⊢
  split_ifs at hactive ⊢ with hsettled
  · exact le_refl _
  · have hle : ∀ p ∈ st.getRunUnitProgress ((st.listEvalRunsByCampaign c.id).map (·.id)),
        p.2.doneUnits ≤ p.2.totalUnits := by
      intro p hp
      obtain ⟨run, hrun, rfl⟩ := List.mem_map.mp hp
      obtain ⟨hrun, hlisted⟩ := List.mem_filter.mp hrun
      obtain ⟨run', hrun', hid⟩ := List.mem_map.mp (of_decide_eq_true hlisted)
      obtain ⟨hrun', hcampaign⟩ := List.mem_filter.mp hrun'
      -- the listed id is the run's own
      obtain rfl : run' = run := List.inj_on_of_nodup_map hids hrun' hrun hid
      exact doneUnits_le_totalUnits
        (h run' hrun ⟨c, hmem, (of_decide_eq_true hcampaign).symm, hactive⟩)
    exact Nat.add_le_add (le_refl 0) (List.sum_le_sum hle)

end Store

end HubScope
