import HubScope.Lib.Greedy
import Mathlib.Algebra.Order.Ring.Rat
import Mathlib.Data.List.Sort
import Mathlib.Data.String.Basic
import Mathlib.Tactic.Ring

/-!
# Selecting a jury

The jury of a subject is chosen from the models of its hub that passed the probe gate. A policy
weighs their intelligence, speed and price, each relative to the best of the candidates. The
ranked pool is gone through twice: first one judge of each family is taken, then the seats left
are filled in rank order. The subject serves on its own jury only where fewer than three others
could, and the selection says so.

Scores are exact rationals.

## Main definitions

* `JuryCandidate`, `JurySelection` — what is chosen from and the outcome
* `score`, `rank` — the order of the candidates under a policy
* `pickDiverse` — the two passes
* `selectJury` — the selection

## Main results

* `pickDiverse_eq` — the passes pick the first candidates with new families, then with new ids
* `rank_perm` — the ranked pool does not depend on the order of the pool
* `selectJury_spec` — distinct judges of the pool, as many and as diverse as possible
-/

set_option autoImplicit false

namespace HubScope

open Greedy

def juryPolicyBalanced : String := "balanced"
def juryPolicySpeed : String := "speed"
def juryPolicyIQ : String := "iq"
def juryPolicyCost : String := "cost"

/-- A model that may serve on a jury. What the registry does not know is absent. -/
structure JuryCandidate where
  modelDbId : ℕ
  modelId : String
  family : String
  iq : Option ℚ
  priceIn : Option ℚ
  priceOut : Option ℚ
  tps : ℚ
  deriving DecidableEq

/-- The judges by model id, and whether the subject is one of them. -/
structure JurySelection where
  judges : List String
  selfIncluded : Bool
  deriving DecidableEq

/-! ### Ranking -/

/-- The price of a token in and one out, where both are known. -/
def JuryCandidate.price (c : JuryCandidate) : Option ℚ :=
  match c.priceIn, c.priceOut with
  | some priceIn, some priceOut => some (priceIn + priceOut)
  | _, _ => none

/-- The highest speed, or zero where none is positive. -/
def maxTPS (cands : List JuryCandidate) : ℚ :=
  cands.foldl (fun m c => if m < c.tps then c.tps else m) 0

/-- The highest known price, or zero where none is positive. -/
def maxPrice (cands : List JuryCandidate) : ℚ :=
  cands.foldl (fun m c =>
    match c.price with
    | some p => if m < p then p else m
    | none => m) 0

/-- The score of a candidate under a policy. An unknown intelligence or price scores zero, and
so does every speed or price where the highest is zero. -/
def score (cands : List JuryCandidate) (policy : String) (c : JuryCandidate) : ℚ :=
  let iq := match c.iq with
    | some iq => iq / 10
    | none => 0
  let spd := if 0 < maxTPS cands then c.tps / maxTPS cands else 0
  let chp := match c.price with
    | some p => if 0 < maxPrice cands then 1 - p / maxPrice cands else 0
    | none => 0
  if policy = juryPolicySpeed then 1 / 10 * iq + 7 / 10 * spd + 2 / 10 * chp
  else if policy = juryPolicyIQ then 8 / 10 * iq + 1 / 10 * spd + 1 / 10 * chp
  else if policy = juryPolicyCost then 15 / 100 * iq + 15 / 100 * spd + 7 / 10 * chp
  else 4 / 10 * iq + 3 / 10 * spd + 3 / 10 * chp

/-- `a` does not rank after `b`: its score is higher, or equal and its id not larger. -/
def RanksBefore (cands : List JuryCandidate) (policy : String) (a b : JuryCandidate) : Prop :=
  score cands policy b < score cands policy a ∨
    score cands policy a = score cands policy b ∧ a.modelId ≤ b.modelId

instance (cands : List JuryCandidate) (policy : String) :
    DecidableRel (RanksBefore cands policy) :=
  fun _ _ => inferInstanceAs (Decidable (_ ∨ _ ∧ _))

/-- The pool, stably sorted by score and id. -/
def rank (cands : List JuryCandidate) (policy : String) (pool : List JuryCandidate) :
    List JuryCandidate :=
  pool.insertionSort (RanksBefore cands policy)

/-! ### The two passes -/

/-- The first pass: a judge of each family not seen before. -/
def pickFamilies (n : ℕ) : List String → List String → List JuryCandidate → List String
  | out, _, [] => out
  | out, seen, c :: ranked =>
    if out.length = n then out
    else if c.family ∈ seen then pickFamilies n out seen ranked
    else pickFamilies n (out ++ [c.modelId]) (c.family :: seen) ranked

/-- The second pass: the judges not yet chosen. -/
def fillSeats (n : ℕ) : List String → List JuryCandidate → List String
  | out, [] => out
  | out, c :: ranked =>
    if out.length = n then out
    else if c.modelId ∈ out then fillSeats n out ranked
    else fillSeats n (out ++ [c.modelId]) ranked

/-- Up to `n` judges, one of each family before a second of any. -/
def pickDiverse (ranked : List JuryCandidate) (n : ℕ) : List String :=
  -- where the first pass returns early the second has no seat to fill
  fillSeats n (pickFamilies n [] [] ranked) ranked

def containsModel (cands : List JuryCandidate) (modelId : String) : Bool :=
  cands.any (·.modelId = modelId)

/-- The candidates other than the subject. -/
def others (cands : List JuryCandidate) (subjectModelId : String) : List JuryCandidate :=
  cands.filter (·.modelId ≠ subjectModelId)

/-- What the jury is chosen from: the others where there are at least three. -/
def juryPool (cands : List JuryCandidate) (subjectModelId : String) : List JuryCandidate :=
  if 3 ≤ (others cands subjectModelId).length then others cands subjectModelId else cands

def selectJury (cands : List JuryCandidate) (policy subjectModelId : String) : JurySelection where
  judges := pickDiverse (rank cands policy (juryPool cands subjectModelId)) 3
  selfIncluded :=
    if 3 ≤ (others cands subjectModelId).length then false else containsModel cands subjectModelId

/-! ### What the passes pick -/

variable {n : ℕ} {cands cands' pool pool' ranked taken : List JuryCandidate}
  {policy subjectModelId : String}

/-- The first pass is a pick by family; the families it has seen are those of what it took. -/
theorem pickFamilies_eq {seen : List String} (hseen : ∀ f, f ∈ seen ↔ f ∈ taken.map (·.family)) :
    pickFamilies n (taken.map (·.modelId)) seen ranked =
      (pick (·.family) n taken ranked).map (·.modelId) := by
  induction ranked generalizing taken seen with
  | nil => rfl
  | cons c ranked ih =>
    rw [pickFamilies, pick, List.length_map]
    simp only [hseen]
    split_ifs with hfull hold
    · rfl
    · exact ih hseen
    · have hseen' (f : String) : f ∈ c.family :: seen ↔ f ∈ (taken ++ [c]).map (·.family) := by
        rw [List.map_append, List.map_singleton, List.mem_cons, List.mem_append,
          List.mem_singleton, hseen, or_comm]
      rw [← ih hseen', List.map_append, List.map_singleton]

/-- The second pass is a pick by id. -/
theorem fillSeats_eq : fillSeats n (taken.map (·.modelId)) ranked =
    (pick (·.modelId) n taken ranked).map (·.modelId) := by
  induction ranked generalizing taken with
  | nil => rfl
  | cons c ranked ih =>
    rw [fillSeats, pick, List.length_map]
    split_ifs
    · rfl
    · exact ih
    · rw [← ih, List.map_append, List.map_singleton]

/-- The candidates the two passes pick. -/
def panel (ranked : List JuryCandidate) (n : ℕ) : List JuryCandidate :=
  pick (·.modelId) n (pick (·.family) n [] ranked) ranked

theorem pickDiverse_eq : pickDiverse ranked n = (panel ranked n).map (·.modelId) := by
  have hfirst : pickFamilies n [] [] ranked = (pick (·.family) n [] ranked).map (·.modelId) :=
    @pickFamilies_eq n ranked [] [] fun _ => Iff.rfl
  rw [pickDiverse, panel, ← fillSeats_eq, hfirst]

theorem panel_subset : panel ranked n ⊆ ranked := by
  intro c hc
  rcases List.mem_append.mp (pick_subset hc) with hc | hc
  · exact pick_nil_subset hc
  · exact hc

theorem length_pick_families_le : (pick (·.family) n [] ranked).length ≤ n := by
  rw [length_pick_nil]
  exact min_le_left _ _

section Distinct

variable (hids : (ranked.map (·.modelId)).Nodup)

include hids

/-- What has distinct families has distinct ids: the ids of the pool name its candidates. -/
theorem nodup_pick_families : ((pick (·.family) n [] ranked).map (·.modelId)).Nodup := by
  have hfamilies : ((pick (·.family) n [] ranked).map (·.family)).Nodup :=
    nodup_keys_pick_nil
  refine (List.nodup_map_iff_inj_on (List.Nodup.of_map _ hfamilies)).mpr ?_
  intro a ha b hb hab
  exact List.inj_on_of_nodup_map hids (pick_nil_subset ha) (pick_nil_subset hb) hab

theorem nodup_panel : ((panel ranked n).map (·.modelId)).Nodup :=
  nodup_keys_pick (nodup_pick_families hids)

theorem length_panel : (panel ranked n).length = min n ranked.length := by
  rw [panel, length_pick (length_pick_families_le) (nodup_pick_families hids),
    ← card_keys hids]
  congr 2
  refine (keys_mono ?_).antisymm (keys_mono (List.subset_append_right _ _))
  exact List.append_subset.mpr ⟨pick_nil_subset, List.Subset.refl _⟩

/-- The panel has as many families as it can: the first pass alone has. -/
theorem card_families_panel :
    (keys (·.family) (panel ranked n)).card = min n (keys (·.family) ranked).card := by
  apply le_antisymm
  · refine le_min ?_ (Finset.card_le_card (keys_mono panel_subset))
    calc (keys (·.family) (panel ranked n)).card ≤ (panel ranked n).length := card_keys_le _
      _ = min n ranked.length := length_panel hids
      _ ≤ n := min_le_left _ _
  · have hfirst : (keys (·.family) (pick (·.family) n [] ranked)).card =
        min n (keys (·.family) ranked).card := by
      rw [card_keys nodup_keys_pick_nil, length_pick_nil]
    rw [← hfirst]
    exact Finset.card_le_card (keys_mono prefix_pick.subset)

end Distinct

/-! ### Ranking does not depend on the order -/

instance : RightCommutative fun (m : ℚ) (c : JuryCandidate) => if m < c.tps then c.tps else m :=
  ⟨fun m a b => by
    have hmax : ∀ x y : ℚ, (if x < y then y else x) = max x y := fun x y =>
      (max_def_lt x y).symm
    simp only [hmax, max_right_comm]⟩

instance : RightCommutative fun (m : ℚ) (c : JuryCandidate) =>
    match c.price with
    | some p => if m < p then p else m
    | none => m :=
  ⟨fun m a b => by
    have hmax : ∀ x y : ℚ, (if x < y then y else x) = max x y := fun x y =>
      (max_def_lt x y).symm
    cases a.price with
    | none => rfl
    | some p =>
      cases b.price with
      | none => rfl
      | some q => simp only [hmax, max_right_comm]⟩

theorem score_perm (h : cands.Perm cands') : score cands = score cands' := by
  have htps : maxTPS cands = maxTPS cands' := h.foldl_eq 0
  have hprice : maxPrice cands = maxPrice cands' := h.foldl_eq 0
  funext policy c
  rw [score, score, htps, hprice]

theorem pairwise_rank :
    (rank cands policy pool).Pairwise (RanksBefore cands policy) := by
  have htotal : Std.Total (RanksBefore cands policy) := ⟨fun a b => by
    rcases lt_trichotomy (score cands policy a) (score cands policy b) with hlt | heq | hlt
    · exact Or.inr (Or.inl hlt)
    · rcases le_total a.modelId b.modelId with hle | hle
      · exact Or.inl (Or.inr ⟨heq, hle⟩)
      · exact Or.inr (Or.inr ⟨heq.symm, hle⟩)
    · exact Or.inl (Or.inl hlt)⟩
  have htrans : IsTrans JuryCandidate (RanksBefore cands policy) := ⟨fun a b c hab hbc => by
    rcases hab with hab | ⟨hab, hle⟩
    · rcases hbc with hbc | ⟨hbc, -⟩
      · exact Or.inl (hbc.trans hab)
      · exact Or.inl (hbc ▸ hab)
    · rcases hbc with hbc | ⟨hbc, hle'⟩
      · exact Or.inl (hab ▸ hbc)
      · exact Or.inr ⟨hab.trans hbc, hle.trans hle'⟩⟩
  exact List.pairwise_insertionSort _ _

/-- With distinct ids no two candidates rank alike, so there is one ranked order. -/
theorem rank_perm (hids : (pool.map (·.modelId)).Nodup) (h : pool.Perm pool') :
    rank cands policy pool = rank cands policy pool' := by
  have hperm : (rank cands policy pool).Perm (rank cands policy pool') :=
    (List.perm_insertionSort _ _).trans (h.trans (List.perm_insertionSort _ _).symm)
  refine hperm.eq_of_pairwise ?_ pairwise_rank pairwise_rank
  intro a b ha hb hab hba
  have hsame : a.modelId = b.modelId := by
    rcases hab with hab | ⟨hab, hle⟩
    · rcases hba with hba | ⟨hba, -⟩
      · exact absurd hba (lt_asymm hab)
      · exact absurd hba.symm (ne_of_gt hab)
    · rcases hba with hba | ⟨-, hle'⟩
      · exact absurd hab (ne_of_lt hba)
      · exact le_antisymm hle hle'
  have ha : a ∈ pool := (List.mem_insertionSort _).mp ha
  have hb : b ∈ pool := h.mem_iff.mpr ((List.mem_insertionSort _).mp hb)
  exact List.inj_on_of_nodup_map hids ha hb hsame

/-! ### The selection -/

theorem juryPool_sublist : (juryPool cands subjectModelId).Sublist cands := by
  rw [juryPool]
  split_ifs
  · exact List.filter_sublist
  · exact List.Sublist.refl _

theorem juryPool_perm (h : cands.Perm cands') :
    (juryPool cands subjectModelId).Perm (juryPool cands' subjectModelId) := by
  have hothers : (others cands subjectModelId).Perm (others cands' subjectModelId) := h.filter _
  rw [juryPool, juryPool, hothers.length_eq]
  split_ifs
  · exact hothers
  · exact h

/-- With distinct ids a subject with fewer than three others is in a pool of at most three. -/
theorem length_le_three (hids : (cands.map (·.modelId)).Nodup)
    (hfew : ¬ 3 ≤ (others cands subjectModelId).length) : cands.length ≤ 3 := by
  have hself : (cands.map (·.modelId)).count subjectModelId ≤ 1 :=
    List.nodup_iff_count_le_one.mp hids _
  have hsplit : cands.length = (others cands subjectModelId).length +
      (cands.map (·.modelId)).count subjectModelId := by
    rw [others, List.length_eq_countP_add_countP (fun c => decide (c.modelId ≠ subjectModelId)),
      List.countP_eq_length_filter, List.count, List.countP_map]
    congr 1
    refine List.countP_congr fun c _ => ?_
    simp
  omega

theorem mem_judges_iff {id : String} : id ∈ (selectJury cands policy subjectModelId).judges ↔
    ∃ c ∈ panel (rank cands policy (juryPool cands subjectModelId)) 3, c.modelId = id := by
  rw [selectJury, pickDiverse_eq, List.mem_map]

/-- A panel of at most three candidates has all of them. -/
theorem mem_panel_of_length_le (hids : (ranked.map (·.modelId)).Nodup) (hfew : ranked.length ≤ n)
    {c : JuryCandidate} (hc : c ∈ ranked) : c ∈ panel ranked n := by
  have hsub : (panel ranked n).Subperm ranked :=
    (List.Nodup.of_map _ (nodup_panel hids)).subperm panel_subset
  have hlength : ranked.length ≤ (panel ranked n).length := by
    rw [length_panel hids, min_eq_right hfew]
  exact (hsub.perm_of_length_le hlength).mem_iff.mpr hc

section Selection

variable (hids : (cands.map (·.modelId)).Nodup)
  (hrank : ((rank cands policy (juryPool cands subjectModelId)).map (·.modelId)).Nodup)
  (hperm : (rank cands policy (juryPool cands subjectModelId)).Perm
    (juryPool cands subjectModelId))

include hids hrank hperm in
/-- With three others the subject is not in the pool; otherwise everyone in the pool serves. -/
theorem selfIncluded_iff : (selectJury cands policy subjectModelId).selfIncluded = true ↔
    subjectModelId ∈ (selectJury cands policy subjectModelId).judges := by
  rw [mem_judges_iff]
  by_cases hmany : 3 ≤ (others cands subjectModelId).length
  · rw [selectJury, if_pos hmany]
    refine iff_of_false Bool.false_ne_true ?_
    rintro ⟨c, hc, hself⟩
    have hpool : c ∈ juryPool cands subjectModelId := hperm.subset (panel_subset hc)
    rw [juryPool, if_pos hmany, others, List.mem_filter, decide_eq_true_eq] at hpool
    exact hpool.2 hself
  · have hpool : juryPool cands subjectModelId = cands := by rw [juryPool, if_neg hmany]
    -- with fewer than three others everyone in the pool gets a seat, the subject among them
    have hfew : (rank cands policy (juryPool cands subjectModelId)).length ≤ 3 := by
      rw [hperm.length_eq, hpool]
      exact length_le_three hids hmany
    rw [selectJury, if_neg hmany, containsModel, List.any_eq_true]
    constructor
    · rintro ⟨c, hc, hself⟩
      have hpooled : c ∈ juryPool cands subjectModelId := hpool.symm ▸ hc
      exact ⟨c, mem_panel_of_length_le hrank hfew (hperm.mem_iff.mpr hpooled),
        of_decide_eq_true hself⟩
    · rintro ⟨c, hc, hself⟩
      exact ⟨c, hpool ▸ hperm.subset (panel_subset hc), decide_eq_true hself⟩

include hrank hperm in
/-- The candidates named by the judges are the panel. -/
theorem keys_filter_judges : keys (·.family) ((juryPool cands subjectModelId).filter fun c =>
      c.modelId ∈ (selectJury cands policy subjectModelId).judges) =
    keys (·.family) (panel (rank cands policy (juryPool cands subjectModelId)) 3) := by
  ext f
  rw [mem_keys, mem_keys]
  refine exists_congr fun c => and_congr_left fun _ => ?_
  rw [List.mem_filter, decide_eq_true_eq, mem_judges_iff]
  constructor
  · rintro ⟨hc, c', hc', hid⟩
    have hsame : c' = c :=
      List.inj_on_of_nodup_map hrank (panel_subset hc') (hperm.mem_iff.mpr hc) hid
    exact hsame ▸ hc'
  · exact fun hc => ⟨hperm.subset (panel_subset hc), c, hc, rfl⟩

end Selection

theorem selectJury_perm (hids : (cands.map (·.modelId)).Nodup) (h : cands.Perm cands') :
    selectJury cands policy subjectModelId = selectJury cands' policy subjectModelId := by
  have hpool : ((juryPool cands subjectModelId).map (·.modelId)).Nodup :=
    hids.sublist (juryPool_sublist.map _)
  have hrank : rank cands policy (juryPool cands subjectModelId) =
      rank cands' policy (juryPool cands' subjectModelId) := by
    have hbefore : RanksBefore cands policy = RanksBefore cands' policy := by
      funext a b
      rw [RanksBefore, RanksBefore, score_perm h]
    rw [rank_perm hpool (juryPool_perm h), rank, rank]
    congr!
  have hothers : (others cands subjectModelId).length = (others cands' subjectModelId).length :=
    (h.filter _).length_eq
  have hcontains : containsModel cands subjectModelId = containsModel cands' subjectModelId :=
    h.any_eq
  rw [selectJury, selectJury, hrank, hothers, hcontains]

/-- **With distinct model ids the judges are distinct candidates of the pool, as many as there
are seats or candidates, of as many families as there are seats or families; the flag says
whether the subject is one of them; and the order of the candidates does not matter.** -/
theorem selectJury_spec (cands : List JuryCandidate) (policy subjectModelId : String)
    (hids : (cands.map (·.modelId)).Nodup) :
    (selectJury cands policy subjectModelId).judges.Nodup ∧
      (∀ id ∈ (selectJury cands policy subjectModelId).judges,
        ∃ c ∈ juryPool cands subjectModelId, c.modelId = id) ∧
      (selectJury cands policy subjectModelId).judges.length =
        min 3 (juryPool cands subjectModelId).length ∧
      ((selectJury cands policy subjectModelId).selfIncluded = true ↔
        subjectModelId ∈ (selectJury cands policy subjectModelId).judges) ∧
      (keys (·.family) ((juryPool cands subjectModelId).filter fun c =>
          c.modelId ∈ (selectJury cands policy subjectModelId).judges)).card =
        min 3 (keys (·.family) (juryPool cands subjectModelId)).card ∧
      ∀ cands', cands'.Perm cands →
        selectJury cands' policy subjectModelId = selectJury cands policy subjectModelId := by
  have hpool : ((juryPool cands subjectModelId).map (·.modelId)).Nodup :=
    hids.sublist (juryPool_sublist.map _)
  have hperm : (rank cands policy (juryPool cands subjectModelId)).Perm
      (juryPool cands subjectModelId) := List.perm_insertionSort _ _
  -- ranking only reorders the pool
  have hrank : ((rank cands policy (juryPool cands subjectModelId)).map (·.modelId)).Nodup :=
    (hperm.map _).nodup_iff.mpr hpool
  have hlength : (selectJury cands policy subjectModelId).judges.length =
      min 3 (juryPool cands subjectModelId).length := by
    rw [selectJury, pickDiverse_eq, List.length_map, length_panel hrank, hperm.length_eq]
  refine ⟨?_, ?_, hlength, ?_, ?_, ?_⟩
  · rw [selectJury, pickDiverse_eq]
    exact nodup_panel hrank
  · intro id hid
    obtain ⟨c, hc, rfl⟩ := mem_judges_iff.mp hid
    exact ⟨c, hperm.subset (panel_subset hc), rfl⟩
  · exact selfIncluded_iff hids hrank hperm
  · rw [keys_filter_judges hrank hperm, card_families_panel hrank]
    congr 2
    exact (keys_mono hperm.subset).antisymm (keys_mono hperm.symm.subset)
  · exact fun cands' h => (selectJury_perm hids h.symm).symm

/-- Two of one family outrank the others. -/
def oneFamilyAhead : List JuryCandidate :=
  [⟨1, "kimi-a", "kimi", some 9, some 1, some 1, 100⟩,
    ⟨2, "kimi-b", "kimi", some 8, some 1, some 1, 90⟩,
    ⟨3, "claude-a", "claude", some 7, some 1, some 1, 70⟩,
    ⟨4, "glm-a", "glm", none, none, none, 60⟩]

/-- The jury still has three families. -/
theorem selectJury_spec_oneFamilyAhead :
    (keys (·.family) ((juryPool oneFamilyAhead "subject").filter fun c =>
      c.modelId ∈ (selectJury oneFamilyAhead juryPolicyIQ "subject").judges)).card = 3 := by
  obtain ⟨-, -, -, -, hfamilies, -⟩ :=
    selectJury_spec oneFamilyAhead juryPolicyIQ "subject" (by decide)
  exact hfamilies.trans (by decide)

end HubScope
