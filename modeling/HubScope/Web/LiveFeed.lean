import HubScope.Lib.Transition
import Mathlib.Data.List.Nodup
import Mathlib.Data.List.Pairwise

/-!
# The live feed of the console

The console accumulates the judged cases of a batch. It asks the server for the results after
the last id it holds, merges the page that comes back by id, and keeps the newest entries up to
a cap. Pages are served from a growing list of results, and may be merged late, again, or in
another order than they were asked for.

## Main definitions

* `liveFeedCursor`, `mergeLiveFeed`, `listCampaignLiveFeed` — the feed and the pages
* `FeedState`, `feedStep` — the batch, the requests in flight and the feed
* `keepsOut` — a merge whose page holds no entry that the cap has evicted

## Main results

* `capped_of_reach` — in every run the feed is duplicate-free and within its cap
* `window_of_reach` — while no evicted entry comes back, the feed is a window of the results
* `orderedWindow_of_reach` — such a feed is ascending and its cursor never decreases
-/

set_option autoImplicit false

namespace HubScope

namespace LiveFeed

/-- A judged case of a batch. -/
structure LiveFeedEntry where
  id : ℕ
  modelId : String
  suiteKey : String
  deriving DecidableEq, Repr

/-- The next cursor: the last id, or zero before the first pull. -/
def liveFeedCursor (entries : List LiveFeedEntry) : ℕ :=
  match entries.getLast? with
  | none => 0
  | some e => e.id

/-- Append an entry whose id was not seen. -/
def appendUnseen : List ℕ × List LiveFeedEntry → LiveFeedEntry → List ℕ × List LiveFeedEntry
  | (seen, merged), entry =>
    if entry.id ∈ seen then (seen, merged) else (entry.id :: seen, merged ++ [entry])

/-- Append one page to the feed, deduped by id and capped to the newest entries. -/
def mergeLiveFeed (existing incoming : List LiveFeedEntry) (cap : ℕ) : List LiveFeedEntry :=
  if incoming = [] then existing
  else
    let merged := (incoming.foldl appendUnseen (existing.map LiveFeedEntry.id, existing)).2
    if cap < merged.length then merged.drop (merged.length - cap) else merged

/-- Up to `limit` results of the batch after `sinceId`, ascending by id. -/
def listCampaignLiveFeed (results : List LiveFeedEntry) (sinceId limit : ℕ) :
    List LiveFeedEntry :=
  (results.filter fun e => sinceId < e.id).take limit

/-- A batch and a console that watches it: the results so far, the feed, the cursors that were
asked with and the pages that were served. -/
structure FeedState where
  results : List LiveFeedEntry
  feed : List LiveFeedEntry
  asked : List ℕ
  served : List (List LiveFeedEntry)
  deriving DecidableEq

/-- What happens to them. A page that was served can be merged at any time, and again. -/
inductive FeedAct
  | judge (e : LiveFeedEntry)
  | ask
  | serve (sinceId limit : ℕ)
  | merge (page : List LiveFeedEntry)

/-- One step. Results get increasing ids. -/
def feedStep (cap : ℕ) (s : FeedState) : FeedAct → Option FeedState
  | .judge e =>
    if 0 < e.id ∧ ∀ r ∈ s.results, r.id < e.id then some { s with results := s.results ++ [e] }
    else none
  | .ask => some { s with asked := liveFeedCursor s.feed :: s.asked }
  | .serve sinceId limit =>
    if sinceId ∈ s.asked then
      some { s with served := listCampaignLiveFeed s.results sinceId limit :: s.served }
    else none
  | .merge page =>
    if page ∈ s.served then some { s with feed := mergeLiveFeed s.feed page cap } else none

/-- A batch without results, and a feed before its first pull. -/
def emptyFeed : FeedState := ⟨[], [], [], []⟩

/-- The page that is merged holds only entries that are still in the feed or newer than its
cursor, so none that the cap has evicted. A page asked with the cursor of the feed does, and the
console merges no other one. -/
def keepsOut (s : FeedState) : FeedAct → Prop
  | .merge page => ∀ e ∈ page, e ∈ s.feed ∨ liveFeedCursor s.feed < e.id
  | _ => True

instance : ∀ s a, Decidable (keepsOut s a)
  | s, .merge page =>
    inferInstanceAs (Decidable (∀ e ∈ page, e ∈ s.feed ∨ liveFeedCursor s.feed < e.id))
  | _, .judge _ | _, .ask | _, .serve _ _ => inferInstanceAs (Decidable True)

/-! ### Merging -/

variable {cap : ℕ} {s t : FeedState} {a : FeedAct} {e : LiveFeedEntry}
  {existing incoming page : List LiveFeedEntry}

theorem foldl_appendUnseen (seen : List ℕ) (merged incoming : List LiveFeedEntry)
    (hnodup : (incoming.map LiveFeedEntry.id).Nodup) :
    (incoming.foldl appendUnseen (seen, merged)).2 =
      merged ++ incoming.filter fun e => e.id ∉ seen := by
  induction incoming generalizing seen merged with
  | nil => simp
  | cons e incoming ih =>
    rw [List.map_cons, List.nodup_cons] at hnodup
    rw [List.foldl_cons, appendUnseen]
    split_ifs with hseen
    · rw [ih seen merged hnodup.2, List.filter_cons_of_neg (by simpa using hseen)]
    · rw [ih (e.id :: seen) (merged ++ [e]) hnodup.2,
        List.filter_cons_of_pos (by simpa using hseen), List.append_assoc, List.singleton_append]
      -- the other entries of the page have other ids
      congr 2
      apply List.filter_congr
      intro f hf
      have hne : f.id ≠ e.id := fun heq => hnodup.1 (heq ▸ List.mem_map_of_mem hf)
      simp [hne]

/-- The entries of a page that the feed does not hold. -/
def unseen (existing incoming : List LiveFeedEntry) : List LiveFeedEntry :=
  incoming.filter fun e => e.id ∉ existing.map LiveFeedEntry.id

/-- A merge keeps the newest entries of the feed and the unseen ones of the page. -/
theorem mergeLiveFeed_eq (hnodup : (incoming.map LiveFeedEntry.id).Nodup)
    (hcap : existing.length ≤ cap) : mergeLiveFeed existing incoming cap =
      (existing ++ unseen existing incoming).drop
        ((existing ++ unseen existing incoming).length - cap) := by
  rw [mergeLiveFeed]
  split_ifs with hempty
  · rw [hempty, unseen, List.filter_nil, List.append_nil, Nat.sub_eq_zero_of_le hcap,
      List.drop_zero]
  · simp only [foldl_appendUnseen _ _ _ hnodup]
    split_ifs with hover
    · rfl
    · have hzero := Nat.sub_eq_zero_of_le (Nat.not_lt.mp hover)
      rw [unseen, hzero, List.drop_zero]

theorem length_mergeLiveFeed_le (hnodup : (incoming.map LiveFeedEntry.id).Nodup)
    (hcap : existing.length ≤ cap) : (mergeLiveFeed existing incoming cap).length ≤ cap := by
  rw [mergeLiveFeed_eq hnodup hcap, List.length_drop]
  omega

/-- A merge does not render an entry twice. -/
theorem nodup_mergeLiveFeed (hnodup : (incoming.map LiveFeedEntry.id).Nodup)
    (hexisting : (existing.map LiveFeedEntry.id).Nodup) (hcap : existing.length ≤ cap) :
    ((mergeLiveFeed existing incoming cap).map LiveFeedEntry.id).Nodup := by
  rw [mergeLiveFeed_eq hnodup hcap]
  apply List.Nodup.sublist ((List.drop_sublist _ _).map _)
  rw [List.map_append, List.nodup_append]
  refine ⟨hexisting, hnodup.sublist (List.filter_sublist.map _), ?_⟩
  rintro i hi j hj rfl
  obtain ⟨e, he, rfl⟩ := List.mem_map.mp hj
  exact (by simpa using (List.mem_filter.mp he).2 : e.id ∉ existing.map LiveFeedEntry.id) hi

/-! ### Pages -/

/-- Results in the order of their ids. -/
def Ascending (results : List LiveFeedEntry) : Prop := results.Pairwise fun a b => a.id < b.id

theorem Ascending.nodup {results : List LiveFeedEntry} (h : Ascending results) :
    (results.map LiveFeedEntry.id).Nodup :=
  List.pairwise_map.mpr (h.imp fun hlt => Nat.ne_of_lt hlt)

/-- Ascending results are those up to a cursor and those after it. -/
theorem Ascending.split {results : List LiveFeedEntry} (h : Ascending results) (c : ℕ) :
    results = (results.filter fun e => e.id ≤ c) ++ results.filter fun e => c < e.id := by
  induction results with
  | nil => rfl
  | cons e results ih =>
    obtain ⟨hfirst, hrest⟩ := List.pairwise_cons.mp h
    by_cases he : e.id ≤ c
    · rw [List.filter_cons_of_pos (by simpa using he), List.filter_cons_of_neg (by simpa using he),
        List.cons_append, ← ih hrest]
    · -- everything behind `e` is newer than the cursor as well
      have hnone : (e :: results).filter (fun e => e.id ≤ c) = [] := by
        apply List.filter_eq_nil_iff.mpr
        intro f hf
        rcases List.mem_cons.mp hf with rfl | hf
        · simpa using he
        · have hlt := hfirst f hf
          simp only [decide_eq_true_eq]
          omega
      have hall : (e :: results).filter (fun e => c < e.id) = e :: results := by
        apply List.filter_eq_self.mpr
        intro f hf
        rcases List.mem_cons.mp hf with rfl | hf
        · simpa using he
        · have hlt := hfirst f hf
          simp only [decide_eq_true_eq]
          omega
      rw [hnone, hall, List.nil_append]

/-- A page is a stretch of the results, behind what its cursor had reached. -/
theorem exists_append_page {results : List LiveFeedEntry} (h : Ascending results)
    (sinceId limit : ℕ) : ∃ front back,
      results = front ++ listCampaignLiveFeed results sinceId limit ++ back ∧
        ∀ e ∈ front, e.id ≤ sinceId := by
  refine ⟨results.filter fun e => e.id ≤ sinceId,
    (results.filter fun e => sinceId < e.id).drop limit, ?_, fun e he => ?_⟩
  · rw [listCampaignLiveFeed, List.append_assoc, List.take_append_drop]
    exact h.split sinceId
  · simpa using (List.mem_filter.mp he).2

/-! ### Runs -/

/-- The feed holds no entry twice and keeps to its cap. -/
structure FeedCapped (cap : ℕ) (s : FeedState) : Prop where
  ordered : Ascending s.results
  positive : ∀ e ∈ s.results, 0 < e.id
  served : ∀ page ∈ s.served, Ascending page
  nodup : (s.feed.map LiveFeedEntry.id).Nodup
  capped : s.feed.length ≤ cap

theorem FeedCapped.step (h : FeedCapped cap s) (hstep : feedStep cap s a = some t) :
    FeedCapped cap t := by
  cases a with
  | judge e =>
    rw [feedStep] at hstep
    split_ifs at hstep with hnew
    obtain rfl := Option.some.inj hstep
    -- a new result has the largest id
    refine ⟨?_, ?_, h.served, h.nodup, h.capped⟩
    · apply List.pairwise_append.mpr ⟨h.ordered, List.pairwise_singleton _ _, ?_⟩
      intro r hr f hf
      rw [List.mem_singleton.mp hf]
      exact hnew.2 r hr
    · intro f hf
      rcases List.mem_append.mp hf with hf | hf
      · exact h.positive f hf
      · rw [List.mem_singleton.mp hf]
        exact hnew.1
  | ask =>
    obtain rfl := Option.some.inj hstep
    exact ⟨h.ordered, h.positive, h.served, h.nodup, h.capped⟩
  | serve sinceId limit =>
    rw [feedStep] at hstep
    split_ifs at hstep
    obtain rfl := Option.some.inj hstep
    -- a page is a stretch of the results above its cursor
    refine ⟨h.ordered, h.positive, ?_, h.nodup, h.capped⟩
    intro page hpage
    rcases List.mem_cons.mp hpage with rfl | hpage
    · exact h.ordered.sublist ((List.take_sublist _ _).trans List.filter_sublist)
    · exact h.served page hpage
  | merge page =>
    rw [feedStep] at hstep
    split_ifs at hstep with hpage
    obtain rfl := Option.some.inj hstep
    have hids := (h.served page hpage).nodup
    exact ⟨h.ordered, h.positive, h.served, nodup_mergeLiveFeed hids h.nodup h.capped,
      length_mergeLiveFeed_le hids h.capped⟩

/-- **Dedupe and cap.** In every run, whatever pages are merged, the feed holds no entry twice and
keeps to its cap. -/
theorem capped_of_reach (h : Transition.Reachable (feedStep cap) emptyFeed s) :
    FeedCapped cap s := by
  apply h.invariant
  · exact ⟨.nil, by simp [emptyFeed], by simp [emptyFeed], .nil, Nat.zero_le _⟩
  · exact fun _ _ _ hinv _ hstep => hinv.step hstep

/-- The feed is a window of the results: what is behind it is newer than its cursor, and the
pages on their way begin at or before the cursor's next result. -/
structure FeedWindow (s : FeedState) : Prop where
  window : ∃ front back, s.results = front ++ s.feed ++ back ∧
    (∀ e ∈ front, e.id ≤ liveFeedCursor s.feed) ∧ ∀ e ∈ back, liveFeedCursor s.feed < e.id
  asked : ∀ c ∈ s.asked, c ≤ liveFeedCursor s.feed
  served : ∀ page ∈ s.served, ∃ front back, s.results = front ++ page ++ back ∧
    ∀ e ∈ front, e.id ≤ liveFeedCursor s.feed

/-! ### Windows -/

variable {feed front back results xs ys : List LiveFeedEntry} {c : ℕ}

theorem exists_last_of_ne_nil (hne : feed ≠ []) :
    ∃ l ∈ feed, feed.getLast? = some l ∧ liveFeedCursor feed = l.id := by
  have hlast := List.getLast?_eq_some_getLast hne
  refine ⟨feed.getLast hne, List.getLast_mem hne, hlast, ?_⟩
  rw [liveFeedCursor, hlast]

/-- The cursor of an ascending feed is its largest id. -/
theorem le_liveFeedCursor (h : Ascending feed) (he : e ∈ feed) : e.id ≤ liveFeedCursor feed := by
  have hne := List.ne_nil_of_mem he
  obtain ⟨l, -, hlast, hcursor⟩ := exists_last_of_ne_nil hne
  rw [← List.dropLast_append_getLast? l hlast] at h he
  rw [hcursor]
  rcases List.mem_append.mp he with he | he
  · exact Nat.le_of_lt ((List.pairwise_append.mp h).2.2 e he l (List.mem_singleton_self l))
  · exact Nat.le_of_eq (congrArg LiveFeedEntry.id (List.mem_singleton.mp he))

/-- A stretch of ascending results has its cursor between what is around it. -/
theorem cursor_between (h : Ascending (front ++ feed ++ back)) (hne : feed ≠ []) :
    (∀ e ∈ front, e.id ≤ liveFeedCursor feed) ∧ ∀ e ∈ back, liveFeedCursor feed < e.id := by
  obtain ⟨l, hl, -, hcursor⟩ := exists_last_of_ne_nil hne
  obtain ⟨hleft, -, hright⟩ := List.pairwise_append.mp h
  rw [hcursor]
  constructor
  · exact fun e he => Nat.le_of_lt ((List.pairwise_append.mp hleft).2.2 e he l hl)
  · exact fun e he => hright l (List.mem_append_right _ hl) e he

/-- What lies behind a cursor is told by the cursor. -/
theorem eq_filter_of_split (h : results = xs ++ ys) (hxs : ∀ e ∈ xs, e.id ≤ c)
    (hys : ∀ e ∈ ys, c < e.id) : ys = results.filter fun e => c < e.id := by
  have hnone : xs.filter (fun e => c < e.id) = [] := by
    apply List.filter_eq_nil_iff.mpr
    intro e he
    simpa using hxs e he
  have hall : ys.filter (fun e => c < e.id) = ys := by
    apply List.filter_eq_self.mpr
    intro e he
    simpa using hys e he
  rw [h, List.filter_append, hnone, hall, List.nil_append]

/-- Where no evicted entry comes back, a merge takes the entries after the cursor. -/
theorem unseen_eq (h : Ascending feed)
    (hkeep : ∀ e ∈ page, e ∈ feed ∨ liveFeedCursor feed < e.id) :
    unseen feed page = page.filter fun e => liveFeedCursor feed < e.id := by
  apply List.filter_congr
  intro e he
  rw [decide_eq_decide]
  constructor
  · intro hnot
    refine (hkeep e he).resolve_left fun hmem => ?_
    exact hnot (List.mem_map_of_mem hmem)
  · intro hlt hmem
    obtain ⟨f, hf, hid⟩ := List.mem_map.mp hmem
    have hle := le_liveFeedCursor h hf
    omega

/-- The new entries of a page are the next results. -/
theorem back_eq {before after feed : List LiveFeedEntry} (hordered : Ascending results)
    (hwindow : results = front ++ feed ++ back) (hserved : results = before ++ page ++ after)
    (hfront : ∀ e ∈ front ++ feed, e.id ≤ c) (hback : ∀ e ∈ back, c < e.id)
    (hbefore : ∀ e ∈ before, e.id ≤ c) (hpage : Ascending page)
    (hfresh : page.filter (fun e => c < e.id) ≠ []) :
    back = (page.filter fun e => c < e.id) ++ after := by
  obtain ⟨l, hl⟩ := List.exists_mem_of_ne_nil _ hfresh
  obtain ⟨hmem, hlt⟩ := List.mem_filter.mp hl
  have hsplit : results = (before ++ page.filter fun e => e.id ≤ c) ++
      ((page.filter fun e => c < e.id) ++ after) := by
    rw [List.append_assoc, ← List.append_assoc (page.filter _), ← hpage.split c,
      ← List.append_assoc]
    exact hserved
  rw [eq_filter_of_split hwindow hfront hback]
  apply (eq_filter_of_split hsplit _ _).symm
  · intro e he
    rcases List.mem_append.mp he with he | he
    · exact hbefore e he
    · simpa using (List.mem_filter.mp he).2
  · intro e he
    rcases List.mem_append.mp he with he | he
    · simpa using (List.mem_filter.mp he).2
    · -- behind the page, and so behind its new entries
      rw [hserved] at hordered
      have hafter := (List.pairwise_append.mp hordered).2.2 l (List.mem_append_right _ hmem) e he
      have hlt' : c < l.id := by simpa using hlt
      exact Nat.lt_trans hlt' hafter

/-- The newest of a feed and the next results are a window again. -/
theorem window_newest {fresh after : List LiveFeedEntry} (hc : FeedCapped cap s)
    (hwindow : s.results = front ++ s.feed ++ (fresh ++ after)) (hfresh : fresh ≠ [])
    (hnew : ∀ e ∈ fresh, liveFeedCursor s.feed < e.id) {k : ℕ}
    (hk : k = (s.feed ++ fresh).length - cap) :
    liveFeedCursor s.feed ≤ liveFeedCursor ((s.feed ++ fresh).drop k) ∧
      ∃ front back, s.results = front ++ (s.feed ++ fresh).drop k ++ back ∧
        (∀ e ∈ front, e.id ≤ liveFeedCursor ((s.feed ++ fresh).drop k)) ∧
        ∀ e ∈ back, liveFeedCursor ((s.feed ++ fresh).drop k) < e.id := by
  have hresults : s.results = (front ++ (s.feed ++ fresh).take k) ++ (s.feed ++ fresh).drop k ++
      after := by
    rw [List.append_assoc front, List.take_append_drop, hwindow]
    simp only [List.append_assoc]
  by_cases hnil : (s.feed ++ fresh).drop k = []
  · -- only a cap of zero keeps nothing
    have hlength := List.drop_eq_nil_iff.mp hnil
    have hpos := List.length_pos_iff.mpr hfresh
    rw [List.length_append] at hk hlength
    have hempty : s.feed = [] := List.length_eq_zero_iff.mp (by have := hc.capped; omega)
    rw [hnil, hempty]
    exact ⟨Nat.le_refl _, [], s.results, rfl, by simp, hc.positive⟩
  · have hordered := hc.ordered
    rw [hresults] at hordered
    obtain ⟨hfront, hback⟩ := cursor_between hordered hnil
    refine ⟨?_, _, _, hresults, hfront, hback⟩
    -- the cursor is the last of the new entries
    obtain ⟨l, -, hlast, hcursor⟩ := exists_last_of_ne_nil hnil
    rw [List.getLast?_drop, if_neg (by rw [List.drop_eq_nil_iff] at hnil; exact hnil),
      List.getLast?_append_of_ne_nil _ hfresh] at hlast
    rw [hcursor]
    exact Nat.le_of_lt (hnew l (List.mem_of_getLast? hlast))

/-- A result that is judged now is newer than the cursor. -/
theorem cursor_lt_of_new (hwindow : results = front ++ feed ++ back) (hpos : 0 < e.id)
    (hnew : ∀ r ∈ results, r.id < e.id) : liveFeedCursor feed < e.id := by
  by_cases hne : feed = []
  · rw [hne]
    exact hpos
  · obtain ⟨l, hl, -, hcursor⟩ := exists_last_of_ne_nil hne
    rw [hcursor]
    apply hnew l
    rw [hwindow]
    exact List.mem_append_left _ (List.mem_append_right _ hl)

theorem FeedWindow.ascending (h : FeedWindow s) (hc : FeedCapped cap s) : Ascending s.feed := by
  obtain ⟨front, back, hwindow, -, -⟩ := h.window
  have hordered := hc.ordered
  rw [hwindow] at hordered
  exact (List.pairwise_append.mp (List.pairwise_append.mp hordered).1).2.1

/-- **Merging into a window.** A page that begins at or before the feed's next result, and brings
no evicted entry back, leaves a window whose cursor is not smaller. -/
theorem window_merge (hc : FeedCapped cap s) (h : FeedWindow s) (hpage : page ∈ s.served)
    (hkeep : ∀ e ∈ page, e ∈ s.feed ∨ liveFeedCursor s.feed < e.id) :
    liveFeedCursor s.feed ≤ liveFeedCursor (mergeLiveFeed s.feed page cap) ∧
      ∃ front back, s.results = front ++ mergeLiveFeed s.feed page cap ++ back ∧
        (∀ e ∈ front, e.id ≤ liveFeedCursor (mergeLiveFeed s.feed page cap)) ∧
        ∀ e ∈ back, liveFeedCursor (mergeLiveFeed s.feed page cap) < e.id := by
  obtain ⟨front, back, hwindow, hfront, hback⟩ := h.window
  obtain ⟨before, after, hserved, hbefore⟩ := h.served page hpage
  have hfeed := h.ascending hc
  rw [mergeLiveFeed_eq (hc.served page hpage).nodup hc.capped, unseen_eq hfeed hkeep]
  by_cases hfresh : page.filter (fun e => liveFeedCursor s.feed < e.id) = []
  · -- nothing new
    rw [hfresh, List.append_nil, Nat.sub_eq_zero_of_le hc.capped, List.drop_zero]
    exact ⟨Nat.le_refl _, h.window⟩
  · have hnext := back_eq hc.ordered hwindow hserved
      (fun e he => (List.mem_append.mp he).elim (hfront e) (le_liveFeedCursor hfeed)) hback
      hbefore (hc.served page hpage) hfresh
    rw [hnext] at hwindow
    apply window_newest hc hwindow hfresh _ rfl
    intro e he
    simpa using (List.mem_filter.mp he).2

/-- **A step of a window.** -/
theorem FeedWindow.step (hc : FeedCapped cap s) (h : FeedWindow s) (hkeep : keepsOut s a)
    (hstep : feedStep cap s a = some t) :
    FeedWindow t ∧ liveFeedCursor s.feed ≤ liveFeedCursor t.feed := by
  cases a with
  | judge e =>
    rw [feedStep] at hstep
    split_ifs at hstep with hnew
    obtain rfl := Option.some.inj hstep
    refine ⟨⟨?_, h.asked, ?_⟩, Nat.le_refl _⟩
    · -- the new result lies behind the window
      obtain ⟨front, back, hwindow, hfront, hback⟩ := h.window
      refine ⟨front, back ++ [e], by rw [hwindow, List.append_assoc], hfront, fun f hf => ?_⟩
      rcases List.mem_append.mp hf with hf | hf
      · exact hback f hf
      · rw [List.mem_singleton.mp hf]
        exact cursor_lt_of_new hwindow hnew.1 hnew.2
    · intro page hpage
      obtain ⟨front, back, heq, hfront⟩ := h.served page hpage
      exact ⟨front, back ++ [e], by rw [heq, List.append_assoc], hfront⟩
  | ask =>
    obtain rfl := Option.some.inj hstep
    refine ⟨⟨h.window, ?_, h.served⟩, Nat.le_refl _⟩
    intro c hmem
    rcases List.mem_cons.mp hmem with rfl | hmem
    · exact Nat.le_refl _
    · exact h.asked c hmem
  | serve sinceId limit =>
    rw [feedStep] at hstep
    split_ifs at hstep with hasked
    obtain rfl := Option.some.inj hstep
    refine ⟨⟨h.window, h.asked, ?_⟩, Nat.le_refl _⟩
    intro page hpage
    rcases List.mem_cons.mp hpage with rfl | hpage
    · -- the page begins behind the cursor it was asked with, which the feed has passed since
      obtain ⟨front, back, heq, hfront⟩ := exists_append_page hc.ordered sinceId limit
      exact ⟨front, back, heq, fun e he => Nat.le_trans (hfront e he) (h.asked sinceId hasked)⟩
    · exact h.served page hpage
  | merge page =>
    rw [feedStep] at hstep
    split_ifs at hstep with hpage
    obtain rfl := Option.some.inj hstep
    -- merging moves the cursor on, so that what was asked or served before stays behind it
    obtain ⟨hle, hwindow⟩ := window_merge hc h hpage hkeep
    refine ⟨⟨hwindow, fun c hmem => Nat.le_trans (h.asked c hmem) hle, ?_⟩, hle⟩
    intro page' hpage'
    obtain ⟨front, back, heq, hfront⟩ := h.served page' hpage'
    exact ⟨front, back, heq, fun e he => Nat.le_trans (hfront e he) hle⟩

/-- **The feed is a window.** While no evicted entry comes back, the feed is a stretch of the
results without a gap. -/
theorem window_of_reach (h : Transition.Reach (feedStep cap) keepsOut emptyFeed s) :
    FeedWindow s := by
  apply h.invariant_of fun t ht => capped_of_reach ht.reachable
  · exact ⟨⟨[], [], rfl, by simp, by simp⟩, by simp [emptyFeed], by simp [emptyFeed]⟩
  · exact fun _ _ _ hc hinv hkeep hstep => (hinv.step hc hkeep hstep).1

/-- A page asked with the cursor of the feed brings nothing back. -/
theorem keepsOut_of_cursor (s : FeedState) (limit : ℕ) :
    keepsOut s (.merge (listCampaignLiveFeed s.results (liveFeedCursor s.feed) limit)) := by
  intro e he
  have hnewer := (List.mem_filter.mp (List.mem_of_mem_take he)).2
  exact Or.inr (of_decide_eq_true hnewer)

/-- In a window that holds something, an evicted entry is one older than the oldest retained. -/
theorem keepsOut_iff (hc : FeedCapped cap s) (h : FeedWindow s) (hpage : page ∈ s.served)
    {oldest : LiveFeedEntry} {rest : List LiveFeedEntry} (hfeed : s.feed = oldest :: rest) :
    keepsOut s (.merge page) ↔ ∀ e ∈ page, oldest.id ≤ e.id := by
  have hascending := h.ascending hc
  have holdest : ∀ e ∈ s.feed, oldest.id ≤ e.id := by
    intro e he
    rw [hfeed] at hascending he
    rcases List.mem_cons.mp he with rfl | he
    · exact Nat.le_refl _
    · exact Nat.le_of_lt ((List.pairwise_cons.mp hascending).1 e he)
  have hmem : oldest ∈ s.feed := hfeed ▸ List.mem_cons_self
  constructor
  · intro hkeep e he
    rcases hkeep e he with hin | hlt
    · exact holdest e hin
    · exact Nat.le_of_lt (Nat.lt_of_le_of_lt (le_liveFeedCursor hascending hmem) hlt)
  · intro hold e he
    obtain ⟨front, back, hwindow, -, hback⟩ := h.window
    obtain ⟨before, after, hserved, -⟩ := h.served page hpage
    have hresult : e ∈ front ++ s.feed ++ back := by
      rw [← hwindow, hserved]
      exact List.mem_append_left _ (List.mem_append_right _ he)
    have hordered := hc.ordered
    rw [hwindow] at hordered
    rcases List.mem_append.mp hresult with hresult | hresult
    · rcases List.mem_append.mp hresult with hfront | hin
      · -- in front of the window everything is older
        have hlt := (List.pairwise_append.mp (List.pairwise_append.mp hordered).1).2.2 e hfront
          oldest hmem
        exact absurd (hold e he) (Nat.not_le.mpr hlt)
      · exact Or.inl hin
    · exact Or.inr (hback e hresult)

/-- **An ordered window.** In every run, from any cap, whose merges bring no evicted entry back,
the feed is strictly ascending, holds no entry twice and keeps to its cap, and its cursor never
decreases, however late, often or out of order the pages are merged. -/
theorem orderedWindow_of_reach (h : Transition.Reach (feedStep cap) keepsOut emptyFeed s)
    (h' : Transition.Reach (feedStep cap) keepsOut s t) :
    Ascending t.feed ∧ (t.feed.map LiveFeedEntry.id).Nodup ∧ t.feed.length ≤ cap ∧
      liveFeedCursor s.feed ≤ liveFeedCursor t.feed := by
  have hcapped := capped_of_reach (h.trans h').reachable
  refine ⟨(window_of_reach (h.trans h')).ascending hcapped, hcapped.nodup, hcapped.capped, ?_⟩
  induction h' with
  | refl => exact Nat.le_refl _
  | tail hrun hkeep hstep ih =>
    have hwindow := window_of_reach (h.trans hrun)
    have hle := (hwindow.step (capped_of_reach (h.trans hrun).reachable) hkeep hstep).2
    exact Nat.le_trans (ih (capped_of_reach (h.trans hrun).reachable)) hle

/-! ### A page that comes back late -/

/-- The `n`-th judged case of a batch. -/
def judged (n : ℕ) : LiveFeedEntry := ⟨n, "model", "suite"⟩

/-- Four results in pages of two, and the pages merged in turn. -/
def twoPages : List FeedAct :=
  [.judge (judged 1), .judge (judged 2), .judge (judged 3), .judge (judged 4), .ask, .serve 0 2,
    .merge [judged 1, judged 2], .ask, .serve 2 2, .merge [judged 3, judged 4]]

/-- What is seen after both pages, with a cap of three. -/
def afterTwoPages : FeedState :=
  ⟨[judged 1, judged 2, judged 3, judged 4], [judged 2, judged 3, judged 4], [2, 0],
    [[judged 3, judged 4], [judged 1, judged 2]]⟩

theorem reach_afterTwoPages :
    Transition.Reach (feedStep 3) keepsOut emptyFeed afterTwoPages := by
  have hreplay : Transition.replayWith (feedStep 3) keepsOut emptyFeed twoPages =
      some afterTwoPages := by decide
  exact .of_replayWith hreplay

/-- The second page comes again. -/
theorem orderedWindow_of_reach_repeated :
    Ascending afterTwoPages.feed ∧ (afterTwoPages.feed.map LiveFeedEntry.id).Nodup ∧
      afterTwoPages.feed.length ≤ 3 ∧
      liveFeedCursor afterTwoPages.feed ≤ liveFeedCursor afterTwoPages.feed := by
  have hrepeated : feedStep 3 afterTwoPages (.merge [judged 3, judged 4]) = some afterTwoPages := by
    decide
  exact orderedWindow_of_reach reach_afterTwoPages (.single (by decide) hrepeated)

/-- The first page comes again after its first entry was evicted: the entry is appended behind
newer ones, the feed is out of order and the cursor goes back. -/
theorem not_orderedWindow : ∃ s t, Transition.Reachable (feedStep 3) emptyFeed s ∧
    Transition.Reachable (feedStep 3) s t ∧ ¬ Ascending t.feed ∧
      liveFeedCursor t.feed < liveFeedCursor s.feed := by
  have hlate : feedStep 3 afterTwoPages (.merge [judged 1, judged 2]) =
      some { afterTwoPages with feed := [judged 3, judged 4, judged 1] } := by decide
  refine ⟨afterTwoPages, _, reach_afterTwoPages.reachable, .single trivial hlate, ?_, by decide⟩
  intro h
  exact absurd ((List.pairwise_cons.mp h).1 (judged 1) (by decide)) (by decide)

end LiveFeed

end HubScope
