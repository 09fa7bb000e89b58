import HubScope.Store.Tables
import HubScope.Web.LiveFeed

/-!
# The live feed of a watched batch

The console page that watches a batch pulls its feed on every tick while the batch is listed as
unfinished. A pull takes the cursor from the feed it has, gets a number of its own, and the reply
to an older number is dropped when it comes; a switch to another batch starts the feed over.
Results get their ids from one sequence for all batches, and are deleted again when a unit is
retried.

The list of batches comes from the server as well, and where the selected batch is not in it any
more another one is selected. That leaves the feed and the pulls in flight as they are, so the
feed may go on with the results of the other batch behind those of the first. Without it the feed
shows what the merging alone does not promise: whatever the network does with the replies, no
result is passed over.

## Main definitions

* `FeedView`, `viewStep` — the results of all batches, the page, and its pulls in flight
* `FeedView.Shows` — the feed holds the newest results up to its cursor
* `FeedView.pull` — a pull that is answered before anything else happens

## Main results

* `shows_of_reach` — in every run the feed shows the batch up to its cursor
* `caughtUp_of_pulls` — as many pulls as there are pages behind the cursor show what the cap lets
  the feed show of the batch
-/

set_option autoImplicit false

namespace HubScope

namespace LiveFeed

/-- The cap of the feed. -/
def liveFeedCap : ℕ := 200

/-- The page size a pull asks for. -/
def liveFeedPage : ℕ := 200

/-- A result with the batch it belongs to. -/
structure BatchResult where
  campaignId : ℕ
  entry : LiveFeedEntry
  deriving DecidableEq

/-- A pull on its way to the server. -/
structure FeedRequest where
  seq : ℕ
  campaignId : ℕ
  sinceId : ℕ
  deriving DecidableEq

/-- A page on its way back. -/
structure FeedReply where
  seq : ℕ
  page : List LiveFeedEntry
  deriving DecidableEq

/-- The results that were recorded, with the last id given out and the ids deleted since, the
page that watches a batch, and its pulls. The page has the list of batches it loaded last. `since`
are the batches that were selected since the feed was emptied. -/
structure FeedView where
  lastId : ℕ
  recorded : List BatchResult
  deleted : List ℕ
  campaigns : List Campaign
  selectedId : Option ℕ
  since : List ℕ
  feed : List LiveFeedEntry
  feedSeq : ℕ
  requests : List FeedRequest
  replies : List FeedReply
  deriving DecidableEq

namespace FeedView

/-- The stored results of a batch, ascending by id. -/
def batch (s : FeedView) (campaignId : ℕ) : List LiveFeedEntry :=
  (s.recorded.filter fun r => r.campaignId = campaignId ∧ r.entry.id ∉ s.deleted).map
    BatchResult.entry

/-- The cursor the page would pull with. -/
def cursor (s : FeedView) : ℕ := liveFeedCursor s.feed

/-- The batch a pull would be for: the selected one, if it is listed as unfinished. -/
def polled (s : FeedView) : Option ℕ :=
  s.selectedId.bind fun id =>
    (s.campaigns.find? (·.id = id)).bind fun c => if c.status.terminal then none else some id

end FeedView

/-- The batch the page opens with: the requested one if it is listed, otherwise the newest. -/
def resolveInitialBatchId (campaigns : List Campaign) (requestedId : Option ℕ) : Option ℕ :=
  if requestedId.any fun id => campaigns.any (·.id = id) then requestedId
  else (campaigns.head?.or (campaigns.find? (·.status = .done))).map Campaign.id

/-- What happens to the results, the page and its pulls. -/
inductive ViewAct
  | record (campaignId : ℕ) (modelId suiteKey : String)
  | delete (id : ℕ)
  | loadCampaigns (list : List Campaign) (requestedId : Option ℕ)
  | switchBatch (id : ℕ)
  | loadLiveFeed
  | serve (r : FeedRequest)
  | fail (r : FeedRequest)
  | receive (r : FeedReply)

/-- One step. Any list may come as the list of batches; it selects another batch if the selected
one is not in it. The reply to a pull that is not the latest is dropped. -/
def viewStep (cap limit : ℕ) (s : FeedView) : ViewAct → Option FeedView
  | .record campaignId modelId suiteKey =>
    some { s with
      lastId := s.lastId + 1
      recorded := s.recorded ++ [⟨campaignId, s.lastId + 1, modelId, suiteKey⟩] }
  | .delete id => some { s with deleted := id :: s.deleted }
  | .loadCampaigns list requestedId =>
    if s.selectedId.any fun id => list.any (·.id = id) then some { s with campaigns := list }
    else
      let id := resolveInitialBatchId list requestedId
      some { s with campaigns := list, selectedId := id, since := id.toList ++ s.since }
  | .switchBatch id =>
    some { s with selectedId := some id, since := [id], feed := [], feedSeq := s.feedSeq + 1 }
  | .loadLiveFeed =>
    match s.polled with
    | none => some s
    | some id =>
      some { s with
        feedSeq := s.feedSeq + 1
        requests := ⟨s.feedSeq + 1, id, liveFeedCursor s.feed⟩ :: s.requests }
  | .serve r =>
    if r ∈ s.requests then
      some { s with
        requests := s.requests.erase r
        replies := ⟨r.seq, listCampaignLiveFeed (s.batch r.campaignId) r.sinceId limit⟩ ::
          s.replies }
    else none
  | .fail r =>
    if r ∈ s.requests then some { s with requests := s.requests.erase r } else none
  | .receive r =>
    if r ∈ s.replies then
      some { s with
        feed := if r.seq = s.feedSeq then mergeLiveFeed s.feed r.page cap else s.feed
        replies := s.replies.erase r }
    else none

/-- A page that was just opened, over results recorded before. -/
def openedView (recorded : List BatchResult) (lastId : ℕ) : FeedView :=
  ⟨lastId, recorded, [], [], none, [], [], 0, [], []⟩

/-- Results as the store hands out their ids: ascending, from one, up to the last. -/
structure Numbered (recorded : List BatchResult) (lastId : ℕ) : Prop where
  ordered : recorded.Pairwise fun a b => a.entry.id < b.entry.id
  positive : ∀ r ∈ recorded, 0 < r.entry.id
  bounded : ∀ r ∈ recorded, r.entry.id ≤ lastId

theorem numbered_nil (lastId : ℕ) : Numbered [] lastId := ⟨.nil, by simp, by simp⟩

theorem Numbered.concat {recorded : List BatchResult} {lastId : ℕ} (h : Numbered recorded lastId)
    (campaignId : ℕ) (modelId suiteKey : String) :
    Numbered (recorded ++ [⟨campaignId, lastId + 1, modelId, suiteKey⟩]) (lastId + 1) := by
  refine ⟨List.pairwise_append.mpr ⟨h.ordered, List.pairwise_singleton _ _, ?_⟩, ?_, ?_⟩
  · intro r hr q hq
    rw [List.mem_singleton.mp hq]
    exact Nat.lt_succ_of_le (h.bounded r hr)
  · intro r hr
    rcases List.mem_append.mp hr with hr | hr
    · exact h.positive r hr
    · rw [List.mem_singleton.mp hr]
      exact Nat.succ_pos _
  · intro r hr
    rcases List.mem_append.mp hr with hr | hr
    · exact Nat.le_succ_of_le (h.bounded r hr)
    · obtain rfl := List.mem_singleton.mp hr
      exact Nat.le_refl _

variable {cap limit : ℕ} {s t : FeedView} {a : ViewAct} {e f : LiveFeedEntry}
  {feed page : List LiveFeedEntry}

namespace FeedView

theorem mem_batch {id : ℕ} :
    e ∈ s.batch id ↔ ⟨id, e⟩ ∈ s.recorded ∧ e.id ∉ s.deleted := by
  rw [batch, List.mem_map]
  constructor
  · rintro ⟨r, hr, rfl⟩
    obtain ⟨hmem, hcond⟩ := List.mem_filter.mp hr
    obtain ⟨rfl, hkept⟩ := of_decide_eq_true hcond
    exact ⟨hmem, hkept⟩
  · rintro ⟨hmem, hkept⟩
    exact ⟨⟨id, e⟩, List.mem_filter.mpr ⟨hmem, decide_eq_true ⟨rfl, hkept⟩⟩, rfl⟩

theorem ascending_batch (h : Numbered s.recorded s.lastId) (id : ℕ) : Ascending (s.batch id) :=
  List.pairwise_map.mpr (h.ordered.filter _)

/-- One batch was selected all the time since the feed was emptied. -/
def Only (s : FeedView) (id : ℕ) : Prop := ∀ b ∈ s.since, b = id

/-- The feed shows the batches selected since it was emptied, in the order of the ids. If that was
one batch, it shows it up to the cursor: each stored result, unless the cap is used up by newer
ones. -/
structure Shows (cap : ℕ) (s : FeedView) : Prop where
  ascending : Ascending s.feed
  capped : s.feed.length ≤ cap
  recorded : ∀ e ∈ s.feed, ∃ id ∈ s.since, ⟨id, e⟩ ∈ s.recorded
  complete : ∀ id, s.Only id → ∀ e ∈ s.batch id, e.id ≤ s.cursor →
    e ∈ s.feed ∨ s.feed.length = cap ∧ ∀ f ∈ s.feed, e.id < f.id

/-- A page that continues the feed: what is stored from the cursor up to its last entry. -/
structure Continues (s : FeedView) (page : List LiveFeedEntry) : Prop where
  ascending : Ascending page
  recorded : ∀ e ∈ page, ∃ id ∈ s.since, ⟨id, e⟩ ∈ s.recorded
  newer : ∀ e ∈ page, s.cursor < e.id
  complete : ∀ id, s.Only id → ∀ e ∈ s.batch id, s.cursor < e.id →
    ∀ f ∈ page, e.id ≤ f.id → e ∈ page

/-- What holds between the steps of the page. Only the latest pull counts, and it was made with
a batch selected since the feed was emptied and with the cursor of the page. -/
structure Sound (cap : ℕ) (s : FeedView) : Prop where
  numbered : Numbered s.recorded s.lastId
  selected : ∀ id, s.selectedId = some id → id ∈ s.since
  shows : s.Shows cap
  seqs : ((s.requests.map FeedRequest.seq) ++ s.replies.map FeedReply.seq).Nodup
  old : ∀ n ∈ (s.requests.map FeedRequest.seq) ++ s.replies.map FeedReply.seq, n ≤ s.feedSeq
  request : ∀ r ∈ s.requests, r.seq = s.feedSeq →
    r.campaignId ∈ s.since ∧ r.sinceId = s.cursor
  reply : ∀ r ∈ s.replies, r.seq = s.feedSeq → s.Continues r.page

/-! ### Merging the next page -/

/-- Merging a page of newer entries keeps the newest of both. -/
theorem mergeLiveFeed_newer (hcap : feed.length ≤ cap) (hfeed : Ascending feed)
    (hpage : Ascending page) (hnew : ∀ e ∈ page, liveFeedCursor feed < e.id) :
    mergeLiveFeed feed page cap = (feed ++ page).drop ((feed ++ page).length - cap) := by
  have hunseen : unseen feed page = page := by
    rw [unseen_eq hfeed fun e he => Or.inr (hnew e he)]
    exact List.filter_eq_self.mpr fun e he => by simpa using hnew e he
  rw [mergeLiveFeed_eq hpage.nodup hcap, hunseen]

theorem ascending_append (hfeed : Ascending feed) (hpage : Ascending page)
    (hnew : ∀ e ∈ page, liveFeedCursor feed < e.id) : Ascending (feed ++ page) :=
  List.pairwise_append.mpr ⟨hfeed, hpage, fun _ he f hf =>
    Nat.lt_of_le_of_lt (le_liveFeedCursor hfeed he) (hnew f hf)⟩

/-- The cursor after a merge is the id of the last entry of the page. -/
theorem cursor_merge (hpos : 0 < cap) (hcap : feed.length ≤ cap) (hfeed : Ascending feed)
    (hpage : Ascending page) (hnew : ∀ e ∈ page, liveFeedCursor feed < e.id) (hne : page ≠ []) :
    liveFeedCursor (mergeLiveFeed feed page cap) = (page.getLast hne).id := by
  have hlength := List.length_pos_iff.mpr hne
  have hkept : ¬ (feed ++ page).length ≤ (feed ++ page).length - cap := by
    rw [List.length_append]
    omega
  rw [mergeLiveFeed_newer hcap hfeed hpage hnew, liveFeedCursor, List.getLast?_drop,
    if_neg hkept, List.getLast?_append_of_ne_nil _ hne, List.getLast?_eq_some_getLast hne]

/-- **The next page.** Merging a page that continues the feed shows the batch up to the end of
that page. -/
theorem Shows.merge (h : s.Shows cap) (hnumbered : Numbered s.recorded s.lastId)
    (hpage : s.Continues page) (replies : List FeedReply) :
    Shows cap { s with feed := mergeLiveFeed s.feed page cap, replies := replies } := by
  have hmerged := mergeLiveFeed_newer h.capped h.ascending hpage.ascending hpage.newer
  have hboth := ascending_append h.ascending hpage.ascending hpage.newer
  have hsplit := List.take_append_drop ((s.feed ++ page).length - cap) (s.feed ++ page)
  refine ⟨?_, ?_, ?_, ?_⟩
  · rw [hmerged]
    exact hboth.sublist (List.drop_sublist _ _)
  · rw [hmerged, List.length_drop]
    omega
  · intro e he
    rw [hmerged] at he
    rcases List.mem_append.mp (List.mem_of_mem_drop he) with he | he
    · exact h.recorded e he
    · exact hpage.recorded e he
  · intro id hid e he hle
    change e.id ≤ liveFeedCursor (mergeLiveFeed s.feed page cap) at hle
    change e ∈ mergeLiveFeed s.feed page cap ∨ (mergeLiveFeed s.feed page cap).length = cap ∧
      ∀ f ∈ mergeLiveFeed s.feed page cap, e.id < f.id
    have hpositive : 0 < e.id := hnumbered.positive _ (mem_batch.mp he).1
    rcases Nat.eq_zero_or_pos cap with hzero | hpos
    · -- a cap of zero has no cursor
      have hnone : mergeLiveFeed s.feed page cap = [] := by
        rw [hmerged, hzero, Nat.sub_zero, List.drop_length]
      rw [hnone] at hle
      exact absurd hle (Nat.not_le.mpr hpositive)
    · -- the result is in the old feed, or in the page, or older than a full old feed
      have hseen : e ∈ s.feed ++ page ∨ s.feed.length = cap ∧ ∀ f ∈ s.feed, e.id < f.id := by
        rcases Nat.lt_or_ge s.cursor e.id with hlt | hge
        · have hne : page ≠ [] := by
            rintro rfl
            rw [mergeLiveFeed, if_pos rfl] at hle
            exact absurd hle (Nat.not_le.mpr hlt)
          rw [cursor_merge hpos h.capped h.ascending hpage.ascending hpage.newer hne] at hle
          exact Or.inl (List.mem_append_right _
            (hpage.complete id hid e he hlt _ (List.getLast_mem hne) hle))
        · exact (h.complete id hid e he hge).imp_left (List.mem_append_left _)
      rw [hmerged]
      rcases hseen with hmem | ⟨hfull, holder⟩
      · rw [← hsplit] at hmem hboth
        rcases List.mem_append.mp hmem with htake | hdrop
        · -- what the cap evicts is older than what it keeps
          refine Or.inr ⟨?_, fun f hf => (List.pairwise_append.mp hboth).2.2 e htake f hf⟩
          have hlength := List.length_pos_of_mem htake
          rw [List.length_take] at hlength
          rw [List.length_drop]
          omega
        · exact Or.inl hdrop
      · refine Or.inr ⟨?_, fun f hf => ?_⟩
        · rw [List.length_drop, List.length_append]
          omega
        · rcases List.mem_append.mp (List.mem_of_mem_drop hf) with hf | hf
          · exact holder f hf
          · obtain ⟨g, hg⟩ := List.exists_mem_of_length_pos (hfull ▸ hpos)
            exact Nat.lt_trans (holder g hg)
              (Nat.lt_of_le_of_lt (le_liveFeedCursor h.ascending hg) (hpage.newer f hf))

/-! ### The steps of the page -/

/-- A page that is served for the cursor of the feed continues it. -/
theorem continues_listCampaignLiveFeed (hnumbered : Numbered s.recorded s.lastId) {id : ℕ}
    (hid : id ∈ s.since) (limit : ℕ) :
    s.Continues (listCampaignLiveFeed (s.batch id) s.cursor limit) := by
  have hordered : Ascending ((s.batch id).filter fun e => s.cursor < e.id) :=
    (ascending_batch hnumbered id).sublist List.filter_sublist
  refine ⟨hordered.sublist (List.take_sublist _ _), ?_, ?_, ?_⟩
  · intro e he
    exact ⟨id, hid, (mem_batch.mp (List.mem_of_mem_filter (List.mem_of_mem_take he))).1⟩
  · intro e he
    simpa using (List.mem_filter.mp (List.mem_of_mem_take he)).2
  · intro id' hid' e he hlt f hf hle
    obtain rfl : id = id' := hid' id hid
    have hmem : e ∈ (s.batch id).filter fun e => s.cursor < e.id :=
      List.mem_filter.mpr ⟨he, by simpa using hlt⟩
    rw [← List.take_append_drop limit ((s.batch id).filter _)] at hmem hordered
    rcases List.mem_append.mp hmem with hmem | hmem
    · exact hmem
    · -- what the limit cuts off is newer than the whole page
      exact absurd hle (Nat.not_le.mpr ((List.pairwise_append.mp hordered).2.2 f hf e hmem))

theorem Shows.cursor_le (h : s.Shows cap) (hnumbered : Numbered s.recorded s.lastId) :
    s.cursor ≤ s.lastId := by
  by_cases hne : s.feed = []
  · rw [cursor, hne]
    exact Nat.zero_le _
  · obtain ⟨l, hl, -, hcursor⟩ := exists_last_of_ne_nil hne
    obtain ⟨id, -, hmem⟩ := h.recorded l hl
    rw [cursor, hcursor]
    exact hnumbered.bounded _ hmem

theorem shows_empty (cap : ℕ) (h : s.feed = []) (hnumbered : Numbered s.recorded s.lastId) :
    s.Shows cap := by
  refine ⟨?_, ?_, ?_, ?_⟩
  · rw [h]
    exact .nil
  · rw [h]
    exact Nat.zero_le _
  · rw [h]
    simp
  · intro id _ e he hle
    rw [cursor, h] at hle
    exact absurd hle (Nat.not_le.mpr (hnumbered.positive _ (mem_batch.mp he).1))

theorem Sound.step_record (h : s.Sound cap) (campaignId : ℕ) (modelId suiteKey : String) :
    Sound cap { s with
      lastId := s.lastId + 1
      recorded := s.recorded ++ [⟨campaignId, s.lastId + 1, modelId, suiteKey⟩] } := by
  -- a stored result is an old one or newer than every id so far
  have hbatch : ∀ id, ∀ e ∈ FeedView.batch { s with
      lastId := s.lastId + 1
      recorded := s.recorded ++ [⟨campaignId, s.lastId + 1, modelId, suiteKey⟩] } id,
      e ∈ s.batch id ∨ s.lastId < e.id := by
    intro id e he
    obtain ⟨hmem, hkept⟩ := mem_batch.mp he
    rcases List.mem_append.mp hmem with hmem | hmem
    · exact Or.inl (mem_batch.mpr ⟨hmem, hkept⟩)
    · obtain rfl : e = ⟨s.lastId + 1, modelId, suiteKey⟩ :=
        congrArg BatchResult.entry (List.mem_singleton.mp hmem)
      exact Or.inr (Nat.lt_succ_self _)
  refine ⟨h.numbered.concat _ _ _, h.selected, ⟨h.shows.ascending, h.shows.capped, ?_, ?_⟩, h.seqs,
    h.old, h.request, fun r hr hseq => ?_⟩
  · intro e he
    obtain ⟨id, hid, hmem⟩ := h.shows.recorded e he
    exact ⟨id, hid, List.mem_append_left _ hmem⟩
  · intro id hid e he hle
    rcases hbatch id e he with hold | hnew
    · exact h.shows.complete id hid e hold hle
    · exact absurd (Nat.le_trans hle (h.shows.cursor_le h.numbered)) (Nat.not_le.mpr hnew)
  · have hpage := h.reply r hr hseq
    refine ⟨hpage.ascending, ?_, hpage.newer, ?_⟩
    · intro e he
      obtain ⟨id, hid, hmem⟩ := hpage.recorded e he
      exact ⟨id, hid, List.mem_append_left _ hmem⟩
    · intro id hid e he hlt f hf hle
      rcases hbatch id e he with hold | hnew
      · exact hpage.complete id hid e hold hlt f hf hle
      · obtain ⟨id', -, hmem⟩ := hpage.recorded f hf
        exact absurd (Nat.le_trans hle (h.numbered.bounded _ hmem)) (Nat.not_le.mpr hnew)

theorem Sound.step_delete (h : s.Sound cap) (id : ℕ) :
    Sound cap { s with deleted := id :: s.deleted } := by
  have hbatch : ∀ b, ∀ e ∈ FeedView.batch { s with deleted := id :: s.deleted } b,
      e ∈ s.batch b := by
    intro b e he
    obtain ⟨hmem, hkept⟩ := mem_batch.mp he
    exact mem_batch.mpr ⟨hmem, fun hdel => hkept (List.mem_cons_of_mem _ hdel)⟩
  refine ⟨h.numbered, h.selected, ⟨h.shows.ascending, h.shows.capped, h.shows.recorded, ?_⟩, h.seqs,
    h.old, h.request, fun r hr hseq => ?_⟩
  · exact fun b hb e he => h.shows.complete b hb e (hbatch b e he)
  · have hpage := h.reply r hr hseq
    exact ⟨hpage.ascending, hpage.recorded, hpage.newer,
      fun b hb e he => hpage.complete b hb e (hbatch b e he)⟩

/-- A number larger than the page's makes all pulls in flight stale. -/
theorem Sound.stale (h : s.Sound cap) :
    (∀ r ∈ s.requests, r.seq ≠ s.feedSeq + 1) ∧ ∀ r ∈ s.replies, r.seq ≠ s.feedSeq + 1 := by
  constructor
  · intro r hr heq
    have hle := h.old _ (List.mem_append_left _ (List.mem_map_of_mem hr))
    omega
  · intro r hr heq
    have hle := h.old _ (List.mem_append_right _ (List.mem_map_of_mem hr))
    omega

theorem Sound.step_switchBatch (h : s.Sound cap) (id : ℕ) :
    Sound cap { s with
      selectedId := some id
      since := [id]
      feed := []
      feedSeq := s.feedSeq + 1 } := by
  obtain ⟨hrequests, hreplies⟩ := h.stale
  refine ⟨h.numbered, ?_, shows_empty cap rfl h.numbered, h.seqs, ?_, ?_, ?_⟩
  · rintro b ⟨⟩
    exact List.mem_singleton_self id
  · exact fun n hn => Nat.le_succ_of_le (h.old n hn)
  · exact fun r hr hseq => absurd hseq (hrequests r hr)
  · exact fun r hr hseq => absurd hseq (hreplies r hr)

theorem selectedId_of_polled {id : ℕ} (hid : s.polled = some id) : s.selectedId = some id := by
  obtain ⟨b, hb, hfound⟩ := Option.bind_eq_some_iff.mp hid
  obtain ⟨c, -, hc⟩ := Option.bind_eq_some_iff.mp hfound
  split_ifs at hc
  rw [hb, hc]

/-- Another batch takes over the feed and the pulls in flight. -/
theorem Sound.step_reselect (h : s.Sound cap) (list : List Campaign) (id : Option ℕ) :
    Sound cap { s with campaigns := list, selectedId := id, since := id.toList ++ s.since } := by
  refine ⟨h.numbered, ?_, ⟨h.shows.ascending, h.shows.capped, ?_, ?_⟩, h.seqs, h.old, ?_, ?_⟩
  · rintro b hb
    obtain rfl : id = some b := hb
    exact List.mem_cons_self
  · intro e he
    obtain ⟨b, hb, hmem⟩ := h.shows.recorded e he
    exact ⟨b, List.mem_append_right _ hb, hmem⟩
  · exact fun b hb => h.shows.complete b fun b' hb' => hb b' (List.mem_append_right _ hb')
  · intro r hr hseq
    exact ⟨List.mem_append_right _ (h.request r hr hseq).1, (h.request r hr hseq).2⟩
  · intro r hr hseq
    have hpage := h.reply r hr hseq
    refine ⟨hpage.ascending, fun e he => ?_, hpage.newer, fun b hb => ?_⟩
    · obtain ⟨b, hb, hmem⟩ := hpage.recorded e he
      exact ⟨b, List.mem_append_right _ hb, hmem⟩
    · exact hpage.complete b fun b' hb' => hb b' (List.mem_append_right _ hb')

theorem Sound.step_campaigns (h : s.Sound cap) (list : List Campaign) :
    Sound cap { s with campaigns := list } :=
  ⟨h.numbered, h.selected, ⟨h.shows.ascending, h.shows.capped, h.shows.recorded, h.shows.complete⟩,
    h.seqs, h.old, h.request, fun r hr hseq =>
      have hpage := h.reply r hr hseq
      ⟨hpage.ascending, hpage.recorded, hpage.newer, hpage.complete⟩⟩

theorem Sound.step_loadLiveFeed (h : s.Sound cap) {id : ℕ} (hid : id ∈ s.since) :
    Sound cap { s with
      feedSeq := s.feedSeq + 1
      requests := ⟨s.feedSeq + 1, id, liveFeedCursor s.feed⟩ :: s.requests } := by
  obtain ⟨hrequests, hreplies⟩ := h.stale
  refine ⟨h.numbered, h.selected,
    ⟨h.shows.ascending, h.shows.capped, h.shows.recorded, h.shows.complete⟩, ?_, ?_, ?_, ?_⟩
  · rw [List.map_cons, List.cons_append, List.nodup_cons]
    refine ⟨fun hmem => ?_, h.seqs⟩
    have hle : s.feedSeq + 1 ≤ s.feedSeq := h.old _ hmem
    omega
  · intro n hn
    rw [List.map_cons, List.cons_append] at hn
    rcases List.mem_cons.mp hn with rfl | hn
    · exact Nat.le_refl _
    · exact Nat.le_succ_of_le (h.old n hn)
  · intro r hr hseq
    rcases List.mem_cons.mp hr with rfl | hr
    · exact ⟨hid, rfl⟩
    · exact absurd hseq (hrequests r hr)
  · exact fun r hr hseq => absurd hseq (hreplies r hr)

theorem Sound.step_serve (h : s.Sound cap) {r : FeedRequest} (hr : r ∈ s.requests)
    (limit : ℕ) :
    Sound cap { s with
      requests := s.requests.erase r
      replies := ⟨r.seq, listCampaignLiveFeed (s.batch r.campaignId) r.sinceId limit⟩ ::
        s.replies } := by
  -- the number moves from the requests to the replies
  have hperm : (((s.requests.erase r).map FeedRequest.seq) ++
      (r.seq :: s.replies.map FeedReply.seq)).Perm
        ((s.requests.map FeedRequest.seq) ++ s.replies.map FeedReply.seq) := by
    have hcons := (List.perm_cons_erase hr).map FeedRequest.seq
    exact List.perm_middle.trans (hcons.symm.append_right (s.replies.map FeedReply.seq))
  refine ⟨h.numbered, h.selected,
    ⟨h.shows.ascending, h.shows.capped, h.shows.recorded, h.shows.complete⟩,
    hperm.nodup_iff.mpr h.seqs, fun n hn => h.old n (hperm.subset hn), ?_, ?_⟩
  · exact fun q hq => h.request q (List.mem_of_mem_erase hq)
  · intro q hq hseq
    rcases List.mem_cons.mp hq with rfl | hq
    · obtain ⟨hid, hsince⟩ := h.request r hr hseq
      rw [hsince]
      have hpage := continues_listCampaignLiveFeed h.numbered hid limit
      exact ⟨hpage.ascending, hpage.recorded, hpage.newer, hpage.complete⟩
    · have hpage := h.reply q hq hseq
      exact ⟨hpage.ascending, hpage.recorded, hpage.newer, hpage.complete⟩

theorem Sound.step_fail (h : s.Sound cap) (r : FeedRequest) :
    Sound cap { s with requests := s.requests.erase r } := by
  have hsub : (((s.requests.erase r).map FeedRequest.seq) ++ s.replies.map FeedReply.seq).Sublist
      ((s.requests.map FeedRequest.seq) ++ s.replies.map FeedReply.seq) :=
    (List.erase_sublist.map _).append_right _
  refine ⟨h.numbered, h.selected,
    ⟨h.shows.ascending, h.shows.capped, h.shows.recorded, h.shows.complete⟩,
    h.seqs.sublist hsub, fun n hn => h.old n (hsub.subset hn), ?_, ?_⟩
  · exact fun q hq => h.request q (List.mem_of_mem_erase hq)
  · intro q hq hseq
    have hpage := h.reply q hq hseq
    exact ⟨hpage.ascending, hpage.recorded, hpage.newer, hpage.complete⟩

theorem Sound.step_receive (h : s.Sound cap) {r : FeedReply} (hr : r ∈ s.replies) :
    Sound cap { s with
      feed := if r.seq = s.feedSeq then mergeLiveFeed s.feed r.page cap else s.feed
      replies := s.replies.erase r } := by
  have hperm := List.perm_cons_erase hr
  have hsub : ((s.requests.map FeedRequest.seq) ++ (s.replies.erase r).map FeedReply.seq).Sublist
      ((s.requests.map FeedRequest.seq) ++ s.replies.map FeedReply.seq) :=
    (List.erase_sublist.map _).append_left _
  -- no other pull in flight has the number of this one
  have hseqs : (r.seq :: (s.requests.map FeedRequest.seq ++
      (s.replies.erase r).map FeedReply.seq)).Nodup := by
    refine List.Perm.nodup_iff ?_ |>.mpr h.seqs
    exact (List.perm_middle.symm).trans ((hperm.map FeedReply.seq).symm.append_left _)
  have hother := (List.nodup_cons.mp hseqs).1
  by_cases hlatest : r.seq = s.feedSeq
  · rw [if_pos hlatest]
    refine ⟨h.numbered, h.selected, h.shows.merge h.numbered (h.reply r hr hlatest) _,
      h.seqs.sublist hsub,
      fun n hn => h.old n (hsub.subset hn), ?_, ?_⟩
    · intro q hq hseq
      have hmem : q.seq ∈ s.requests.map FeedRequest.seq ++
        (s.replies.erase r).map FeedReply.seq := List.mem_append_left _ (List.mem_map_of_mem hq)
      exact absurd (hlatest.trans hseq.symm ▸ hmem) hother
    · intro q hq hseq
      have hmem : q.seq ∈ s.requests.map FeedRequest.seq ++
        (s.replies.erase r).map FeedReply.seq := List.mem_append_right _ (List.mem_map_of_mem hq)
      exact absurd (hlatest.trans hseq.symm ▸ hmem) hother
  · rw [if_neg hlatest]
    refine ⟨h.numbered, h.selected,
      ⟨h.shows.ascending, h.shows.capped, h.shows.recorded, h.shows.complete⟩,
      h.seqs.sublist hsub, fun n hn => h.old n (hsub.subset hn), h.request, ?_⟩
    intro q hq hseq
    have hpage := h.reply q (List.mem_of_mem_erase hq) hseq
    exact ⟨hpage.ascending, hpage.recorded, hpage.newer, hpage.complete⟩

/-- **A step of the page.** -/
theorem Sound.step (h : s.Sound cap) (hstep : viewStep cap limit s a = some t) : t.Sound cap := by
  cases a with
  | record campaignId modelId suiteKey =>
    obtain rfl := Option.some.inj hstep
    exact h.step_record campaignId modelId suiteKey
  | delete id =>
    obtain rfl := Option.some.inj hstep
    exact h.step_delete id
  | switchBatch id =>
    obtain rfl := Option.some.inj hstep
    exact h.step_switchBatch id
  | loadCampaigns list requestedId =>
    rw [viewStep] at hstep
    split_ifs at hstep
    · obtain rfl := Option.some.inj hstep
      exact h.step_campaigns list
    · obtain rfl := Option.some.inj hstep
      exact h.step_reselect list _
  | loadLiveFeed =>
    rw [viewStep] at hstep
    split at hstep
    · obtain rfl := Option.some.inj hstep
      exact h
    · next id hid =>
      obtain rfl := Option.some.inj hstep
      exact h.step_loadLiveFeed (h.selected id (selectedId_of_polled hid))
  | serve r =>
    rw [viewStep] at hstep
    split_ifs at hstep with hr
    obtain rfl := Option.some.inj hstep
    exact h.step_serve hr limit
  | fail r =>
    rw [viewStep] at hstep
    split_ifs at hstep with hr
    obtain rfl := Option.some.inj hstep
    exact h.step_fail r
  | receive r =>
    by_cases hr : r ∈ s.replies
    · rw [viewStep, if_pos hr] at hstep
      obtain rfl := Option.some.inj hstep
      exact h.step_receive hr
    · rw [viewStep, if_neg hr] at hstep
      cases hstep

theorem sound_openedView {recorded : List BatchResult} {lastId : ℕ}
    (h : Numbered recorded lastId) : (openedView recorded lastId).Sound cap :=
  ⟨h, by simp [openedView], shows_empty cap rfl h, .nil, by simp [openedView], by simp [openedView],
    by simp [openedView]⟩

theorem sound_of_reach {recorded : List BatchResult} {lastId : ℕ} (h : Numbered recorded lastId)
    (hreach : Transition.Reachable (viewStep cap limit) (openedView recorded lastId) s) :
    s.Sound cap :=
  hreach.invariant (sound_openedView h) fun _ _ _ hinv _ hstep => hinv.step hstep

/-- **No result is passed over.** In every run of recordings, deletions, loads of the list,
switches of the batch and pulls whose replies come late, out of order or not at all, the feed holds
results of the batches selected since it was emptied, in the order of their ids and within its cap;
and if that was one batch, every stored result of it up to the cursor but those that are older
than a full feed. -/
theorem shows_of_reach {recorded : List BatchResult} {lastId : ℕ} (h : Numbered recorded lastId)
    (hreach : Transition.Reachable (viewStep cap limit) (openedView recorded lastId) s) :
    s.Shows cap :=
  (sound_of_reach h hreach).shows

/-- The `n`-th result of batch one. -/
def answered (n : ℕ) : LiveFeedEntry := ⟨n, "model", "suite"⟩

/-- Two pulls with the same cursor, the second answered first. -/
def overtaken : List ViewAct :=
  [.loadCampaigns [⟨1, .running⟩] none, .record 1 "model" "suite", .loadLiveFeed, .serve ⟨1, 1, 0⟩,
    .record 1 "model" "suite", .loadLiveFeed, .serve ⟨2, 1, 0⟩,
    .receive ⟨2, [answered 1, answered 2]⟩, .receive ⟨1, [answered 1]⟩]

/-- The page after both replies: the first one came too late. -/
def afterOvertaken : FeedView :=
  ⟨2, [⟨1, answered 1⟩, ⟨1, answered 2⟩], [], [⟨1, .running⟩], some 1, [1],
    [answered 1, answered 2], 2, [], []⟩

theorem shows_of_reach_overtaken : afterOvertaken.Shows liveFeedCap := by
  have hreplay : Transition.replay (viewStep liveFeedCap liveFeedPage) (openedView [] 0) overtaken =
      some afterOvertaken := by decide
  exact shows_of_reach (numbered_nil 0) (.of_replay hreplay)

/-! ### Catching up -/

/-- A pull of the polled batch that is answered before anything else happens. -/
def pull (cap limit : ℕ) (s : FeedView) : Option FeedView :=
  s.polled.bind fun id =>
    Transition.replay (viewStep cap limit) s
      [.loadLiveFeed, .serve ⟨s.feedSeq + 1, id, s.cursor⟩,
        .receive ⟨s.feedSeq + 1, listCampaignLiveFeed (s.batch id) s.cursor limit⟩]

/-- Such pulls one after the other. -/
def pulls (cap limit : ℕ) : ℕ → FeedView → Option FeedView
  | 0, s => some s
  | k + 1, s => (pull cap limit s).bind (pulls cap limit k)

/-- The stored results of a batch that the cursor has not reached. -/
def ahead (s : FeedView) (id : ℕ) : List LiveFeedEntry :=
  (s.batch id).filter fun e => s.cursor < e.id

theorem pull_eq {id : ℕ} (hid : s.polled = some id) : pull cap limit s =
    some { s with
      feedSeq := s.feedSeq + 1
      feed := mergeLiveFeed s.feed ((s.ahead id).take limit) cap } := by
  let r : FeedRequest := ⟨s.feedSeq + 1, id, s.cursor⟩
  let q : FeedReply := ⟨s.feedSeq + 1, (s.ahead id).take limit⟩
  have hask : viewStep cap limit s .loadLiveFeed =
      some { s with feedSeq := s.feedSeq + 1, requests := r :: s.requests } := by
    rw [viewStep, hid]
    rfl
  have hserve : viewStep cap limit { s with feedSeq := s.feedSeq + 1, requests := r :: s.requests }
      (.serve r) = some { s with feedSeq := s.feedSeq + 1, replies := q :: s.replies } := by
    rw [viewStep, if_pos List.mem_cons_self, List.erase_cons_head]
    rfl
  have hreceive : viewStep cap limit { s with feedSeq := s.feedSeq + 1, replies := q :: s.replies }
      (.receive q) = some { s with
        feedSeq := s.feedSeq + 1
        feed := mergeLiveFeed s.feed ((s.ahead id).take limit) cap } := by
    rw [viewStep, if_pos List.mem_cons_self, List.erase_cons_head, if_pos rfl]
  rw [pull, hid]
  change (viewStep cap limit s .loadLiveFeed).bind (fun t => (viewStep cap limit t (.serve r)).bind
    fun t => (viewStep cap limit t (.receive q)).bind some) = _
  rw [hask, Option.bind_some, hserve, Option.bind_some, hreceive]
  rfl

/-- A pull moves the cursor past one page. -/
theorem ahead_merge (h : s.Sound cap) (hpos : 0 < cap) {id : ℕ} (hid : id ∈ s.since) (seq : ℕ) :
    ahead { s with
      feedSeq := seq
      feed := mergeLiveFeed s.feed ((s.ahead id).take limit) cap } id =
        (s.ahead id).drop limit := by
  have hpage := continues_listCampaignLiveFeed h.numbered hid limit
  change s.Continues ((s.ahead id).take limit) at hpage
  by_cases hne : (s.ahead id).take limit = []
  · -- nothing is ahead, or the page is of size zero
    have hstays : mergeLiveFeed s.feed [] cap = s.feed := if_pos rfl
    rw [hne, hstays]
    rcases List.take_eq_nil_iff.mp hne with hzero | hnil
    · rw [hzero, List.drop_zero]
      rfl
    · rw [hnil, List.drop_nil]
      exact hnil
  · have hcursor := cursor_merge hpos h.shows.capped h.shows.ascending hpage.ascending hpage.newer
      hne
    have hordered := ascending_batch h.numbered id
    have hsplit : s.batch id = ((s.batch id).filter fun e => e.id ≤ s.cursor) ++ s.ahead id :=
      hordered.split s.cursor
    rw [← List.take_append_drop limit (s.ahead id), ← List.append_assoc] at hsplit
    rw [hsplit] at hordered
    have hbetween := cursor_between hordered hne
    have hlast : liveFeedCursor ((s.ahead id).take limit) =
        (((s.ahead id).take limit).getLast hne).id := by
      rw [liveFeedCursor, List.getLast?_eq_some_getLast hne]
    rw [ahead]
    change (s.batch id).filter (fun e => liveFeedCursor (mergeLiveFeed s.feed _ cap) < e.id) = _
    rw [hcursor, ← hlast]
    apply (eq_filter_of_split hsplit _ hbetween.2).symm
    intro e he
    rcases List.mem_append.mp he with he | he
    · exact hbetween.1 e he
    · exact le_liveFeedCursor hpage.ascending he

theorem Sound.pull (h : s.Sound cap) {id : ℕ} (hid : s.polled = some id) :
    Sound cap { s with
      feedSeq := s.feedSeq + 1
      feed := mergeLiveFeed s.feed ((s.ahead id).take limit) cap } := by
  obtain ⟨id', -, hreplay⟩ := Option.bind_eq_some_iff.mp (pull_eq hid)
  exact (Transition.Reach.of_replay hreplay).invariant h fun _ _ _ hinv _ hstep => hinv.step hstep

/-- **Catching up.** From any reached state whose batch is polled, and was the only one selected
since the feed was emptied, as many answered pulls as there are pages ahead of the cursor show all
stored results of the batch but those older than a full feed. -/
theorem caughtUp_of_pulls {recorded : List BatchResult} {lastId : ℕ}
    (h : Numbered recorded lastId)
    (hreach : Transition.Reachable (viewStep cap limit) (openedView recorded lastId) s)
    (hpos : 0 < cap) {id : ℕ} (hid : s.polled = some id) (honly : s.Only id) {k : ℕ}
    (hk : (s.ahead id).length ≤ k * limit) :
    ∃ t, pulls cap limit k s = some t ∧ t.Shows cap ∧
      ∀ e ∈ s.batch id, e ∈ t.feed ∨ t.feed.length = cap ∧ ∀ f ∈ t.feed, e.id < f.id := by
  have hsound := sound_of_reach h hreach
  -- by induction on the number of pages ahead
  clear hreach
  induction k generalizing s with
  | zero =>
    rw [Nat.zero_mul, Nat.le_zero, List.length_eq_zero_iff] at hk
    refine ⟨s, rfl, hsound.shows, fun e he => hsound.shows.complete id honly e he ?_⟩
    have hnot := List.filter_eq_nil_iff.mp hk e he
    simpa using hnot
  | succ k ih =>
    let next : FeedView := { s with
      feedSeq := s.feedSeq + 1
      feed := mergeLiveFeed s.feed ((s.ahead id).take limit) cap }
    have hnext : next.Sound cap := hsound.pull hid
    have hahead : next.ahead id = (s.ahead id).drop limit :=
      ahead_merge hsound hpos (hsound.selected id (selectedId_of_polled hid)) (s.feedSeq + 1)
    have hlength : (next.ahead id).length ≤ k * limit := by
      rw [Nat.succ_mul] at hk
      rw [hahead, List.length_drop]
      omega
    obtain ⟨t, ht, hshows, hall⟩ := ih (s := next) hid honly hlength hnext
    exact ⟨t, by rw [pulls, pull_eq hid, Option.bind_some, ht], hshows, hall⟩

/-- Three results in pages of two, behind one that was shown before: two pulls show the newest
two. -/
theorem caughtUp_of_pulls_two : ∃ t,
    pulls 2 2 2 ⟨4, [⟨1, answered 1⟩, ⟨1, answered 2⟩, ⟨1, answered 3⟩, ⟨1, answered 4⟩], [],
      [⟨1, .running⟩], some 1, [1], [answered 1], 1, [], []⟩ = some t ∧ t.Shows 2 ∧
        ∀ e ∈ [answered 1, answered 2, answered 3, answered 4],
          e ∈ t.feed ∨ t.feed.length = 2 ∧ ∀ f ∈ t.feed, e.id < f.id := by
  have hreplay : Transition.replay (viewStep 2 2) (openedView [] 0)
      [.loadCampaigns [⟨1, .running⟩] none, .record 1 "model" "suite", .loadLiveFeed,
        .serve ⟨1, 1, 0⟩, .receive ⟨1, [answered 1]⟩, .record 1 "model" "suite",
        .record 1 "model" "suite", .record 1 "model" "suite"] =
      some ⟨4, [⟨1, answered 1⟩, ⟨1, answered 2⟩, ⟨1, answered 3⟩, ⟨1, answered 4⟩], [],
        [⟨1, .running⟩], some 1, [1], [answered 1], 1, [], []⟩ := by
    decide
  exact caughtUp_of_pulls (numbered_nil 0) (.of_replay hreplay) (by decide) rfl
    (by simp [Only]) (by decide)

end FeedView

end LiveFeed

end HubScope
