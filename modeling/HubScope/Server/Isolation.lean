import HubScope.Server.Console
import Mathlib.Tactic.Common

/-!
# Hub isolation of the by-id requests

A session of a hub should not learn from a by-id request whether a campaign without a member model
of its hub exists, nor act on it: the answer is that for an unknown id, and nothing changes. The
handlers that start with `loadVisibleCampaign` keep this. Four requests do not: `retry-failed`
loads the campaign without the visibility check, a foreign eval run is answered with the words for
a campaign, and tasks and share links are looked up without the session.

## Main definitions

* `Foreign` — no member model of the campaign belongs to the hub
* `Twin` — a request on a foreign resource and the same request with an unknown id
* `Masked` — the two get the same answer and the first changes nothing
* `Sheltered` — the requests whose handlers keep foreign resources hidden

## Main results

* `masked_iff` — a request on a foreign resource is masked just when it is sheltered
* `not_masked` — a task of a foreign eval run is shown
-/

set_option autoImplicit false

namespace HubScope

/-- No member model of the campaign belongs to the hub. -/
def Foreign (s : Console) (hub campaignId : ℕ) : Prop :=
  ∀ modelId, (campaignId, modelId) ∈ s.store.campaignModels → (modelId, hub) ∉ s.modelHubs

/-- The primary keys of the runs and the result rows. -/
structure Console.Keyed (s : Console) : Prop where
  runs : (s.store.runs.map (·.id)).Nodup
  results : (s.resultIds.map Prod.fst).Nodup

/-- The first request names a resource whose campaign is foreign to the hub, the second names an
id that there is not in its place. -/
inductive Twin (s : Console) (hub : ℕ) : ConsoleRequest → ConsoleRequest → Prop
  | campaign {id id' : ℕ} {c : Campaign} (action : CampaignAction)
      (hid : s.store.getCampaign id = some c) (hforeign : Foreign s hub id)
      (hid' : s.store.getCampaign id' = none) :
      Twin s hub (.campaign (some id) action) (.campaign (some id') action)
  | liveFeedResult {result result' : ℕ} {run : EvalRun} (id : Option ℕ)
      (hresult : (result, run.id) ∈ s.resultIds) (hrun : run ∈ s.store.runs)
      (hforeign : Foreign s hub run.campaignId) (hresult' : result' ∉ s.resultIds.map Prod.fst) :
      Twin s hub (.campaign id (.liveFeedResult (some result)))
        (.campaign id (.liveFeedResult (some result')))
  | evalRun {id id' : ℕ} {run : EvalRun} (hid : s.store.getEvalRun id = some run)
      (hforeign : Foreign s hub run.campaignId) (hid' : s.store.getEvalRun id' = none) :
      Twin s hub (.evalRun (some id)) (.evalRun (some id'))
  | task {id id' runId : ℕ} {task : TaskRow} {run : EvalRun} (hid : s.getTask id = some task)
      (htype : task.type = .evalRun) (hentity : task.entity = .evalRun runId)
      (hrun : s.store.getEvalRun runId = some run) (hforeign : Foreign s hub run.campaignId)
      (hid' : s.getTask id' = none) :
      Twin s hub (.task (some id)) (.task (some id'))
  | shareLink {id' : ℕ} {link : ShareLink} (hlink : link ∈ s.shareLinks)
      (hforeign : Foreign s hub link.campaignId) (hid' : id' ∉ s.shareLinks.map (·.id)) :
      Twin s hub (.revokeShareLink (some link.id)) (.revokeShareLink (some id'))

/-- The session gets the same answer to both requests, and the first changes nothing. -/
def Masked (v : Views) (s : Console) (u : SessionUser) (req req' : ConsoleRequest) : Prop :=
  (serve v s u req).1 = (serve v s u req').1 ∧ (serve v s u req).2 = s

/-- The requests that keep foreign resources hidden: those on a campaign or a live-feed result,
and of `retry-failed` and the revocation of a share link those of a viewer, whose role does not
admit them. -/
def Sheltered (u : SessionUser) : ConsoleRequest → Prop
  | .campaign _ .retryFailed | .revokeShareLink _ => u.role = .viewer
  | .campaign _ _ => True
  | .evalRun _ | .task _ => False

variable {v : Views} {s : Console} {u : SessionUser} {hub id : ℕ}

/-! ### The visibility check -/

theorem foreign_iff : Foreign s hub id ↔ s.campaignVisibleToHub id hub = false := by
  unfold Foreign Console.campaignVisibleToHub
  rw [List.any_eq_false]
  constructor
  · rintro h ⟨c, m⟩ hcm
    simp only [Bool.and_eq_true, decide_eq_true_eq, List.contains_iff_mem, not_and]
    rintro rfl
    exact h m hcm
  · intro h m hcm
    simpa using h (id, m) hcm

/-- A session of the hub does not see a foreign campaign. -/
theorem campaignVisibleToSession_foreign (hrole : u.role ≠ .superAdmin) (hhub : u.hubId = some hub)
    (hforeign : Foreign s hub id) :
    campaignVisibleToSession s u id = .error campaignNotFound := by
  unfold campaignVisibleToSession
  rw [if_neg hrole, hhub]
  simp only [foreign_iff.mp hforeign]
  rfl

theorem loadVisibleCampaign_unknown (hid : s.store.getCampaign id = none) :
    loadVisibleCampaign s u (some id) = .error campaignNotFound := by
  simp only [loadVisibleCampaign, hid]

theorem loadVisibleCampaign_foreign (hrole : u.role ≠ .superAdmin) (hhub : u.hubId = some hub)
    (hforeign : Foreign s hub id) :
    loadVisibleCampaign s u (some id) = .error campaignNotFound := by
  cases hid : s.store.getCampaign id with
  | none => exact loadVisibleCampaign_unknown hid
  | some c =>
    simp only [loadVisibleCampaign, hid, campaignVisibleToSession_foreign hrole hhub hforeign]
    rfl

/-- A campaign that a session of the hub is given is not foreign. -/
theorem visible_of_load {id : Option ℕ} {c : Campaign} (hrole : u.role ≠ .superAdmin)
    (hhub : u.hubId = some hub) (h : loadVisibleCampaign s u id = .ok c) :
    ¬ Foreign s hub c.id := by
  intro hforeign
  cases id with
  | none => cases h
  | some id =>
    cases hid : s.store.getCampaign id with
    | none =>
      rw [loadVisibleCampaign_unknown hid] at h
      cases h
    | some c' =>
      have hcid : c'.id = id := by simpa using List.find?_some hid
      have hc : c' = c := by
        simp only [loadVisibleCampaign, hid] at h
        cases hvisible : campaignVisibleToSession s u id with
        | error a =>
          rw [hvisible] at h
          cases h
        | ok _ =>
          rw [hvisible] at h
          exact Except.ok.inj h
      rw [← hc, hcid] at hforeign
      -- the campaign that was loaded is the one of the id, which the check refuses
      rw [loadVisibleCampaign_foreign hrole hhub hforeign] at h
      cases h

/-- What a guarded handler answers when the campaign is not loaded. -/
theorem withVisibleCampaign_error {id : Option ℕ} {k : Campaign → Answer × Console} {a : Answer}
    (h : loadVisibleCampaign s u id = .error a) : withVisibleCampaign s u id k = (a, s) := by
  rw [withVisibleCampaign, h]

/-- Every action on a campaign but `retry-failed` starts with the visibility check. -/
theorem serveCampaign_error {id : Option ℕ} {action : CampaignAction} {a : Answer}
    (haction : action ≠ .retryFailed) (h : loadVisibleCampaign s u id = .error a) :
    serveCampaign v s u id action = (a, s) := by
  cases action with
  | retryFailed => exact absurd rfl haction
  | view | liveFeedResult | retryUnits | restart | confirmJury | cancel | createShareLink =>
    exact withVisibleCampaign_error h

/-! ### The handlers without the check -/

theorem behindWriterRoles_viewer {response : Answer × Console} (hrole : u.role = .viewer) :
    behindWriterRoles s u response = (.error 403 "insufficient role", s) := by
  simp [behindWriterRoles, requireRole, writerRoles, hrole]

theorem behindWriterRoles_writer {response : Answer × Console} (hrole : u.role ≠ .viewer) :
    behindWriterRoles s u response = response := by
  unfold behindWriterRoles
  have hwriter : requireRole writerRoles (some u) = true := by
    cases h : u.role with
    | superAdmin | admin | operator => simp [requireRole, writerRoles, h]
    | viewer => exact absurd h hrole
  rw [if_pos hwriter]

/-- `retry-failed` of a campaign that there is either answers differently from that of an unknown
one or leaves an audit row. -/
theorem handleRetryCampaignFailed_some {c : Campaign} (hid : s.store.getCampaign id = some c) :
    (handleRetryCampaignFailed v s u (some id)).1 ≠ campaignNotFound ∨
      (handleRetryCampaignFailed v s u (some id)).2 ≠ s := by
  simp only [handleRetryCampaignFailed, hid]
  split
  · exact .inl (by simp [campaignNotFound])
  split
  · exact .inl (by simp [campaignNotFound])
  split
  · exact .inl (by simp [campaignNotFound])
  split
  · exact .inl (by simp [campaignNotFound])
  · refine .inr fun heq => ?_
    have hlogs := congrArg (fun s => s.auditLogs.length) heq
    simp [Console.audit, Console.launch] at hlogs

/-- The campaign of a result row is the one its run belongs to. -/
theorem hasResult_campaign {result : ℕ} {run : EvalRun} {campaignId : ℕ} (hkeyed : s.Keyed)
    (hresult : (result, run.id) ∈ s.resultIds) (hrun : run ∈ s.store.runs)
    (h : s.hasResult campaignId result = true) : run.campaignId = campaignId := by
  unfold Console.hasResult at h
  obtain ⟨⟨result', runId⟩, hmem, hjoin⟩ := List.any_eq_true.mp h
  simp only [Bool.and_eq_true, decide_eq_true_eq, List.any_eq_true] at hjoin
  obtain ⟨rfl, run', hrun', hrunId, hcampaign⟩ := hjoin
  have hsame : (result', runId) = (result', run.id) :=
    List.inj_on_of_nodup_map hkeyed.results hmem hresult rfl
  have hid : run'.id = run.id := by rw [hrunId, (Prod.mk.inj hsame).2]
  rw [← hcampaign, List.inj_on_of_nodup_map hkeyed.runs hrun' hrun hid]

/-! ### Which requests are masked -/

/-- A result row of a foreign campaign is answered like a result row that there is not. -/
theorem masked_liveFeedResult {id : Option ℕ} {result result' : ℕ} {run : EvalRun}
    (hkeyed : s.Keyed) (hrole : u.role ≠ .superAdmin) (hhub : u.hubId = some hub)
    (hresult : (result, run.id) ∈ s.resultIds) (hrun : run ∈ s.store.runs)
    (hforeign : Foreign s hub run.campaignId) (hresult' : result' ∉ s.resultIds.map Prod.fst) :
    Masked v s u (.campaign id (.liveFeedResult (some result)))
      (.campaign id (.liveFeedResult (some result'))) := by
  have heq : ∀ r : ℕ, serve v s u (.campaign id (.liveFeedResult (some r))) =
      handleGetCampaignLiveFeedResult v s u id (some r) := fun _ => rfl
  unfold Masked
  rw [heq, heq]
  unfold handleGetCampaignLiveFeedResult withVisibleCampaign
  cases hload : loadVisibleCampaign s u id with
  | error a => exact ⟨rfl, rfl⟩
  | ok c =>
    -- the result is of a foreign campaign, so not of the one that was loaded
    have hno : s.hasResult c.id result = false := by
      rw [Bool.eq_false_iff]
      intro hhas
      apply visible_of_load hrole hhub hload
      rw [← hasResult_campaign hkeyed hresult hrun hhas]
      exact hforeign
    have hno' : s.hasResult c.id result' = false := by
      unfold Console.hasResult
      rw [List.any_eq_false]
      rintro ⟨r, runId⟩ hmem
      have hne : r ≠ result' := fun heq => hresult' (heq ▸ List.mem_map_of_mem hmem)
      simp [hne]
    simp only [hno, hno']
    exact ⟨rfl, rfl⟩

/-- A request on a foreign campaign is masked just when it is sheltered. -/
theorem masked_campaign_iff {id' : ℕ} {c : Campaign} {action : CampaignAction}
    (hrole : u.role ≠ .superAdmin) (hhub : u.hubId = some hub)
    (hid : s.store.getCampaign id = some c) (hforeign : Foreign s hub id)
    (hid' : s.store.getCampaign id' = none) :
    Masked v s u (.campaign (some id) action) (.campaign (some id') action) ↔
      Sheltered u (.campaign (some id) action) := by
  have hload := loadVisibleCampaign_foreign hrole hhub hforeign
  have hload' : loadVisibleCampaign s u (some id') = .error campaignNotFound :=
    loadVisibleCampaign_unknown hid'
  -- retry-failed alone looks the campaign up without the caller's hub
  by_cases haction : action = .retryFailed
  · subst haction
    have hserve : ∀ id, serve v s u (.campaign id .retryFailed) =
        behindWriterRoles s u (handleRetryCampaignFailed v s u id) := fun _ => rfl
    unfold Masked
    rw [hserve, hserve]
    show _ ↔ u.role = .viewer
    by_cases hviewer : u.role = .viewer
    · rw [behindWriterRoles_viewer hviewer, behindWriterRoles_viewer hviewer]
      exact iff_of_true ⟨rfl, rfl⟩ hviewer
    · rw [behindWriterRoles_writer hviewer, behindWriterRoles_writer hviewer]
      -- a writer gets the campaign itself: another answer, or another state
      refine iff_of_false ?_ hviewer
      have hunknown : handleRetryCampaignFailed v s u (some id') = (campaignNotFound, s) := by
        simp only [handleRetryCampaignFailed, hid']
      rw [hunknown]
      rintro ⟨hanswer, hstate⟩
      obtain hne | hne := handleRetryCampaignFailed_some (v := v) (u := u) hid
      · exact hne hanswer
      · exact hne hstate
  · have hsheltered : Sheltered u (.campaign (some id) action) := by
      cases action with
      | retryFailed => exact absurd rfl haction
      | view | liveFeedResult | retryUnits | restart | confirmJury | cancel | createShareLink =>
        exact trivial
    refine iff_of_true ?_ hsheltered
    have hserve : ∀ id, serve v s u (.campaign id action) =
        if action.writes then behindWriterRoles s u (serveCampaign v s u id action)
        else serveCampaign v s u id action := fun _ => rfl
    unfold Masked
    rw [hserve, hserve, serveCampaign_error haction hload, serveCampaign_error haction hload']
    unfold behindWriterRoles
    split
    · split
      · exact ⟨rfl, rfl⟩
      · exact ⟨rfl, rfl⟩
    · exact ⟨rfl, rfl⟩

/-- **Hub isolation.** A session of a hub gets for a resource of a foreign campaign the answer for
an unknown id, and changes nothing, just when the request is sheltered. -/
theorem masked_iff {req req' : ConsoleRequest} (hkeyed : s.Keyed) (hrole : u.role ≠ .superAdmin)
    (hhub : u.hubId = some hub) (htwin : Twin s hub req req') :
    Masked v s u req req' ↔ Sheltered u req := by
  cases htwin with
  | campaign action hid hforeign hid' => exact masked_campaign_iff hrole hhub hid hforeign hid'
  | liveFeedResult id hresult hrun hforeign hresult' =>
    exact iff_of_true
      (masked_liveFeedResult hkeyed hrole hhub hresult hrun hforeign hresult') trivial
  | evalRun hid hforeign hid' =>
    refine iff_of_false ?_ id
    rintro ⟨hanswer, -⟩
    -- A foreign run is answered with the words for a campaign.
    simp only [serve, handleGetEval, hid, hid',
      campaignVisibleToSession_foreign hrole hhub hforeign] at hanswer
    simp [campaignNotFound] at hanswer
  | task hid _ _ _ hforeign hid' =>
    refine iff_of_false ?_ id
    rintro ⟨hanswer, -⟩
    simp only [serve, handleGetTask, hid, hid'] at hanswer
    cases hanswer
  | @shareLink id' link hlink hforeign hid' =>
    have hserve : ∀ id, serve v s u (.revokeShareLink id) =
        behindWriterRoles s u (handleRevokeShareLink s u id) := fun _ => rfl
    show _ ↔ u.role = .viewer
    unfold Masked
    rw [hserve, hserve]
    by_cases hviewer : u.role = .viewer
    · rw [behindWriterRoles_viewer hviewer, behindWriterRoles_viewer hviewer]
      exact iff_of_true ⟨rfl, rfl⟩ hviewer
    · rw [behindWriterRoles_writer hviewer, behindWriterRoles_writer hviewer]
      refine iff_of_false ?_ hviewer
      rintro ⟨hanswer, -⟩
      have hfound : s.shareLinks.any (·.id = link.id) = true :=
        List.any_eq_true.mpr ⟨link, hlink, by simp⟩
      have hnot : s.shareLinks.any (·.id = id') = false := by
        rw [List.any_eq_false]
        intro l hl
        have hne : l.id ≠ id' := fun heq => hid' (heq ▸ List.mem_map_of_mem hl)
        simp [hne]
      simp only [handleRevokeShareLink, Console.revokeShareLink, hfound, hnot] at hanswer
      cases hanswer

/-- A campaign of a model of hub 2, with one run and the task that executes it. -/
def foreignConsole : Console where
  store :=
    { models := [], suites := [], cases := [], campaigns := [⟨1, .running⟩],
      campaignModels := [(1, 7)], runs := [⟨5, 1, 1, "", .running, none, none⟩], results := [],
      answers := [], judgeScores := [], campaignSeq := 1, runSeq := 5, answerSeq := 0 }
  modelHubs := [(7, 2)]
  resultIds := []
  tasks := [⟨3, .evalRun, .running, .evalRun 5⟩]
  taskLogs := [⟨3, "info", "evaluation started"⟩]
  shareLinks := []
  shareLinkSeq := 0
  auditLogs := []
  registry := ⟨fun _ => none, []⟩
  gate := .empty
  launched := []
  now := 0

/-- Views without content. -/
def blankViews : Views := ⟨fun _ _ _ => .page 200 "", fun _ _ => .page 200 "", fun _ _ => .page 200 ""⟩

/-- An operator of hub 1. -/
def hubOperator : SessionUser := ⟨1, .operator, some 1, "operator"⟩

theorem foreign_foreignConsole : Foreign foreignConsole 1 1 :=
  foreign_iff.mpr rfl

theorem masked_iff_operator :
    Masked blankViews foreignConsole hubOperator (.campaign (some 1) .cancel)
        (.campaign (some 9) .cancel) ∧
      ¬ Masked blankViews foreignConsole hubOperator (.campaign (some 1) .retryFailed)
        (.campaign (some 9) .retryFailed) ∧
      ¬ Masked blankViews foreignConsole hubOperator (.evalRun (some 5)) (.evalRun (some 9)) := by
  have hkeyed : foreignConsole.Keyed := ⟨by decide, by decide⟩
  have hcampaign : ∀ action, Twin foreignConsole 1 (.campaign (some 1) action)
      (.campaign (some 9) action) := fun action => .campaign action rfl foreign_foreignConsole rfl
  refine ⟨?_, ?_, ?_⟩
  · exact (masked_iff hkeyed (by decide) rfl (hcampaign _)).mpr trivial
  · rw [masked_iff hkeyed (by decide) rfl (hcampaign _)]
    exact Role.noConfusion
  · rw [masked_iff hkeyed (by decide) rfl (.evalRun rfl foreign_foreignConsole rfl)]
    exact id

/-- The task of a run of a foreign campaign is shown to an operator of another hub. -/
theorem not_masked : ¬ ∀ (v : Views) (s : Console) (u : SessionUser) (hub : ℕ)
    (req req' : ConsoleRequest), s.Keyed → u.role ≠ .superAdmin → u.hubId = some hub →
    Twin s hub req req' → Masked v s u req req' := by
  intro h
  have hmasked := h blankViews foreignConsole hubOperator 1 (.task (some 3)) (.task (some 4))
    ⟨by decide, by decide⟩ (by decide) rfl (.task rfl rfl rfl rfl foreign_foreignConsole rfl)
  have hanswer : Answer.task ⟨3, .evalRun, .running, .evalRun 5⟩
      [⟨3, "info", "evaluation started"⟩] = .error 404 "task not found" := hmasked.1
  cases hanswer

end HubScope
