import HubScope.Store.Reopening

/-!
# The catalogue of suites

What a database offers to evaluate: its suites by key, each with its bank of questions in order.
Row ids do not show in it. Seeding a suite is an update of one entry; what Open does after the
seeding is done to each entry by itself, and keeps or drops it.

## Main definitions

* `SuiteEntry`, `Catalogue` — the suites with their banks, and the settings Open reads
* `Catalogue.seedSuite`, `Catalogue.seedSuites` — seeding
* `SuiteEntry.settle` — the migrations and the purge, on one entry
* `Catalogue.openStore` — Open
* `Database.catalogue` — the catalogue of a database

## Main results

* `catalogue_seedSuites`, `entries_migrate` — the seeding and the migrations refine theirs
* `entries_openStore` — Open refines Open
-/

set_option autoImplicit false

namespace HubScope

/-- What is asked, and whether it still is. -/
structure Question where
  content : CaseContent
  enabled : Bool
  deriving DecidableEq

/-- A suite with its bank. -/
structure SuiteEntry where
  key : String
  name : String
  capability : String
  nadir : ℚ
  version : ℕ
  enabled : Bool
  bank : List Question
  deriving DecidableEq

/-- The suites with their banks, and the settings Open reads. -/
structure Catalogue where
  entries : List SuiteEntry
  seedGens : String → Option (Option ℤ)
  purged : String → Bool
  benchmarkCutover : Bool
  benchmarkTrim : Bool

/-! ### Seeding -/

namespace Catalogue

variable (cat : Catalogue)

/-- The bank of a key, empty when no suite has it. -/
def bankOf (key : String) : List Question :=
  ((cat.entries.find? (·.key = key)).map SuiteEntry.bank).getD []

/-- The seed generation a key has received. -/
def received (key : String) : Option ℤ :=
  match cat.seedGens key with
  | some recorded => recorded
  | none => some (if cat.bankOf key = [] then 0 else 1)

/-- A suite without an entry gets an empty one. -/
def insertSuite (S : SeedSuite) : Catalogue :=
  if cat.entries.any (·.key = S.key) then cat
  else
    { cat with
      entries := cat.entries ++ [⟨S.key, S.name, S.capability, S.nadir, 1, true, []⟩] }

end Catalogue

/-- An entry after its retirement, if it is due, and the addition of cases. -/
def SuiteEntry.extend (retire : Bool) (contents : List CaseContent) (e : SuiteEntry) : SuiteEntry :=
  { e with enabled := e.enabled && !retire, bank := e.bank ++ contents.map (⟨·, true⟩) }

namespace Catalogue

variable (cat : Catalogue)

/-- An update of the entry of a key. -/
def modify (key : String) (f : SuiteEntry → SuiteEntry) : Catalogue :=
  { cat with entries := cat.entries.map fun e => if e.key = key then f e else e }

/-- A generation record, when there is one to write. -/
def setSeedGen (key : String) : Option ℤ → Catalogue
  | none => cat
  | some gen => { cat with seedGens := fun k => if k = key then some (some gen) else cat.seedGens k }

/-- Seed one suite. -/
def seedSuite (S : SeedSuite) : Bool × Catalogue :=
  if cat.purged S.key then (true, cat)
  else
    match (cat.insertSuite S).received S.key with
    | none => (false, cat.insertSuite S)
    | some received =>
      (true, ((cat.insertSuite S).modify S.key
        (.extend (received < S.retireAtGen) (S.pending received))).setSeedGen S.key
          (S.record received))

/-- Seed the suites in order, up to the first that fails. -/
def seedSuites : List SeedSuite → Catalogue → Bool × Catalogue
  | [], cat => (true, cat)
  | S :: suites, cat =>
    if (cat.seedSuite S).1 then seedSuites suites (cat.seedSuite S).2 else cat.seedSuite S

end Catalogue

/-! ### Migrations and purge -/

/-- Of the first `n` enabled questions, those that are not kept are disabled. -/
def trimWindow (keep : CaseContent → Bool) : ℕ → List Question → List Question
  | 0, bank => bank
  | _ + 1, [] => []
  | n + 1, q :: bank =>
    if q.enabled then ⟨q.content, keep q.content⟩ :: trimWindow keep n bank
    else q :: trimWindow keep (n + 1) bank

/-- The cases of a suite whose prompt is in its bank. -/
def SeedSuite.keeps (S : SeedSuite) (c : CaseContent) : Bool :=
  c.prompt ∈ S.cases.map (·.content.prompt)

namespace SuiteEntry

/-- The first 100 enabled questions. -/
def window (e : SuiteEntry) : List Question := (e.bank.filter (·.enabled)).take 100

/-- Trim the entry of a suite to the cases the suite keeps. -/
def trim (e : SuiteEntry) (S : SeedSuite) : SuiteEntry :=
  if e.key ≠ S.key ∨ e.window.length < 100 ∨ e.window.all (S.keeps ·.content) then e
  else { e with version := e.version + 1, bank := trimWindow S.keeps 100 e.bank }

/-- Switch the entries of some keys on or off. -/
def setEnabled (keys : List String) (enabled : Bool) (e : SuiteEntry) : SuiteEntry :=
  if e.key ∈ keys then { e with enabled := enabled } else e

/-- An entry without a capability is retired. -/
def retireLegacy (e : SuiteEntry) : SuiteEntry :=
  if e.capability = "" then { e with enabled := false } else e

/-- An entry the purge starts from: the cutover and the trim are done unless they have been. -/
def beforePurge (banks : Banks) (cutover trim : Bool) (e : SuiteEntry) : SuiteEntry :=
  let e := if cutover then e else e.setEnabled (banks.benchmarkSuites.map SeedSuite.key) true
  let e := if trim then e else banks.benchmarkSuites.foldl SuiteEntry.trim e
  e.setEnabled (banks.capabilitySuites.map SeedSuite.key) false

/-- What is off without an exemption goes. -/
def purge (banks : Banks) (e : SuiteEntry) : Option SuiteEntry :=
  if !e.retireLegacy.enabled && !banks.exempt e.key then none else some e.retireLegacy

/-- The migrations and the purge of an entry. -/
def settle (banks : Banks) (cutover trim : Bool) (e : SuiteEntry) : Option SuiteEntry :=
  (e.beforePurge banks cutover trim).purge banks

end SuiteEntry

/-- The entries after Open. -/
def Catalogue.openStore (banks : Banks) (cat : Catalogue) : List SuiteEntry :=
  if (seedSuites banks.builtinSuites cat).1 then
    (seedSuites banks.builtinSuites cat).2.entries.filterMap
      (SuiteEntry.settle banks cat.benchmarkCutover cat.benchmarkTrim)
  else (seedSuites banks.builtinSuites cat).2.entries

/-! ### The catalogue of a database -/

/-- A case as a question. -/
def CaseRow.question (c : CaseRow) : Question := ⟨c.content, c.enabled⟩

namespace Database

/-- The questions of a suite, in id order. -/
def bank (db : Database) (suiteId : ℕ) : List Question := (db.casesOf suiteId).map CaseRow.question

/-- The entry of a suite with a given bank. -/
def entryWith (s : SuiteRow) (bank : List Question) : SuiteEntry :=
  ⟨s.key, s.name, s.capability, s.nadir, s.version, s.enabled, bank⟩

/-- The entry of a suite. -/
def entry (db : Database) (s : SuiteRow) : SuiteEntry := entryWith s (db.bank s.id)

/-- The suites of a database with their questions. -/
def entries (db : Database) : List SuiteEntry := db.suites.map db.entry

/-- The catalogue of a database. -/
def catalogue (db : Database) : Catalogue :=
  ⟨db.entries, db.seedGens, db.purged, db.benchmarkCutover, db.benchmarkTrim⟩

variable {db db' : Database} {banks : Banks} {S T : SeedSuite} {key : String}

/-! ### Seeding refines seeding -/

/-- Inserting a suite appends its entry: a row that has never been can have no cases. -/
theorem catalogue_insertSuite (h : db.Keyed) :
    (db.insertSuite S).catalogue = db.catalogue.insertSuite S := by
  have hany : db.catalogue.entries.any (·.key = S.key) = db.suites.any (·.key = S.key) :=
    List.any_map
  unfold insertSuite Catalogue.insertSuite
  rw [hany]
  split
  · rfl
  · have hnew : db.bank (db.suiteSeq + 1) = [] := by
      rw [bank, List.map_eq_nil_iff, casesOf, List.filter_eq_nil_iff]
      intro c hc heq
      have hle := h.caseSuites c hc
      simp only [decide_eq_true_eq] at heq
      omega
    have hentries : (db.suites ++ [SuiteRow.mk (db.suiteSeq + 1) S.key S.name S.capability S.nadir 1
        true]).map db.entry =
        db.entries ++ [⟨S.key, S.name, S.capability, S.nadir, 1, true, []⟩] := by
      rw [List.map_append, List.map_singleton, entry, hnew]
      rfl
    exact congrArg (Catalogue.mk · db.seedGens db.purged db.benchmarkCutover db.benchmarkTrim)
      hentries

theorem bankOf_catalogue {s : SuiteRow} (h : db.getSuiteByKey key = some s) :
    db.catalogue.bankOf key = db.bank s.id := by
  have hfind : db.catalogue.entries.find? (·.key = key) = (db.getSuiteByKey key).map db.entry :=
    List.find?_map
  rw [Catalogue.bankOf, hfind, h]
  rfl

theorem received_catalogue {s : SuiteRow} (h : db.getSuiteByKey key = some s) :
    db.catalogue.received key = db.seedGeneration key s.id := by
  unfold Catalogue.received seedGeneration
  rw [bankOf_catalogue h, bank]
  simp only [List.map_eq_nil_iff]
  rfl

/-- A row has the id of a key's suite just when it has the key. -/
theorem Keyed.id_eq_iff {s t : SuiteRow} (h : db.Keyed) (hs : db.getSuiteByKey key = some s)
    (ht : t ∈ db.suites) : t.id = s.id ↔ t.key = key := by
  obtain ⟨hmem, rfl⟩ := mem_of_getSuiteByKey hs
  constructor
  · intro hid
    rw [List.inj_on_of_nodup_map h.suiteIds ht hmem hid]
  · intro hkey
    rw [List.inj_on_of_nodup_map h.suiteKeys ht hmem hkey]

/-- An update of the rows that updates their entries. -/
theorem entries_of_map {f : SuiteRow → SuiteRow} {g : SuiteEntry → SuiteEntry}
    (hsuites : db'.suites = db.suites.map f)
    (hentry : ∀ t ∈ db.suites, db'.entry (f t) = g (db.entry t)) :
    db'.entries = db.entries.map g := by
  rw [entries, hsuites, List.map_map, entries, List.map_map]
  exact List.map_congr_left hentry

theorem catalogue_retireSuite {s : SuiteRow} (h : db.Keyed)
    (hs : db.getSuiteByKey key = some s) :
    (db.setSuiteEnabled s.id false).catalogue =
      db.catalogue.modify key (SuiteEntry.extend true []) := by
  have hentries : (db.setSuiteEnabled s.id false).entries =
      db.entries.map fun e => if e.key = key then e.extend true [] else e := by
    apply entries_of_map
    · rfl
    · intro t ht
      by_cases hkey : t.key = key
      · rw [if_pos ((h.id_eq_iff hs ht).mpr hkey)]
        show _ = if t.key = key then _ else _
        rw [if_pos hkey]
        simp [entry, entryWith, SuiteEntry.extend]
        rfl
      · rw [if_neg (fun hid => hkey ((h.id_eq_iff hs ht).mp hid))]
        show _ = if t.key = key then _ else _
        rw [if_neg hkey]
        rfl
  exact congrArg (Catalogue.mk · db.seedGens db.purged db.benchmarkCutover db.benchmarkTrim)
    hentries

theorem bank_insertCase {suiteId id : ℕ} {c : CaseContent} :
    (db.insertCase suiteId c).bank id = db.bank id ++ if id = suiteId then [⟨c, true⟩] else [] := by
  simp only [bank, casesOf, insertCase, List.filter_append, List.map_append]
  congr 1
  by_cases hid : id = suiteId
  · simp [hid, CaseRow.question]
  · simp [hid, Ne.symm hid]

theorem catalogue_insertCase {s : SuiteRow} (h : db.Keyed)
    (hs : db.getSuiteByKey key = some s) (c : CaseContent) :
    (db.insertCase s.id c).catalogue = db.catalogue.modify key (SuiteEntry.extend false [c]) := by
  have hentries : (db.insertCase s.id c).entries =
      db.entries.map fun e => if e.key = key then e.extend false [c] else e := by
    apply entries_of_map
    · exact (List.map_id _).symm
    · intro t ht
      show entryWith t ((db.insertCase s.id c).bank t.id) = if t.key = key then _ else _
      rw [bank_insertCase]
      by_cases hkey : t.key = key
      · rw [if_pos ((h.id_eq_iff hs ht).mpr hkey), if_pos hkey]
        simp [entry, entryWith, SuiteEntry.extend]
      · rw [if_neg (fun hid => hkey ((h.id_eq_iff hs ht).mp hid)), if_neg hkey, List.append_nil]
        rfl
  exact congrArg (Catalogue.mk · db.seedGens db.purged db.benchmarkCutover db.benchmarkTrim)
    hentries

end Database

namespace Catalogue

variable {cat : Catalogue} {key : String}

/-- Two updates of an entry are one. -/
theorem modify_modify {f g : SuiteEntry → SuiteEntry} (hf : ∀ e, (f e).key = e.key) :
    (cat.modify key f).modify key g = cat.modify key fun e => g (f e) := by
  simp only [modify, List.map_map, Catalogue.mk.injEq, and_true]
  apply List.map_congr_left
  intro e _
  by_cases hkey : e.key = key <;> simp [hkey, hf]

theorem modify_extend {retire retire' : Bool} {contents contents' : List CaseContent} :
    (cat.modify key (SuiteEntry.extend retire contents)).modify key
        (SuiteEntry.extend retire' contents') =
      cat.modify key (SuiteEntry.extend (retire || retire') (contents ++ contents')) := by
  rw [modify_modify (f := SuiteEntry.extend retire contents) (fun _ => rfl)]
  congr 1
  funext e
  simp [SuiteEntry.extend, Bool.and_assoc, Bool.not_or]

theorem modify_extend_nil : cat.modify key (SuiteEntry.extend false []) = cat := by
  have hself : ∀ e ∈ cat.entries, (if e.key = key then e.extend false [] else e) = e := by
    intro e _
    simp [SuiteEntry.extend]
  rw [modify, List.map_congr_left hself, List.map_id']

end Catalogue

namespace Database

variable {db db' : Database} {banks : Banks} {S T : SeedSuite} {key : String}

theorem catalogue_insertCases {s : SuiteRow} (h : db.Keyed) (hs : db.getSuiteByKey key = some s)
    (contents : List CaseContent) :
    (db.execAll (contents.map (SeedStatement.insertCase s.id))).catalogue =
      db.catalogue.modify key (SuiteEntry.extend false contents) := by
  induction contents generalizing db with
  | nil => exact Catalogue.modify_extend_nil.symm
  | cons c contents ih =>
    have hinsert : (db.insertCase s.id c).Keyed :=
      h.insertCase (h.suiteSeq s (mem_of_getSuiteByKey hs).1) c
    have hrest := ih hinsert hs
    rw [List.map_cons, execAll_cons]
    refine hrest.trans ?_
    rw [catalogue_insertCase h hs, Catalogue.modify_extend]
    rfl

/-- The writes of a suite's seeding update its entry. -/
theorem catalogue_execAll {s : SuiteRow} (h : db.Keyed) (hs : db.getSuiteByKey key = some s)
    (retire : Bool) (contents : List CaseContent) (record : Option ℤ) :
    (db.execAll (seedWrites s.id key retire contents record)).catalogue =
      (db.catalogue.modify key (SuiteEntry.extend retire contents)).setSeedGen key record := by
  have hbefore : (db.execAll (seedWrites s.id key retire contents none)).catalogue =
      db.catalogue.modify key (SuiteEntry.extend retire contents) := by
    cases retire with
    | false =>
      simpa [seedWrites] using catalogue_insertCases h hs contents
    | true =>
      have hkey : ∀ t : SuiteRow,
          (if t.id = s.id then { t with enabled := false } else t).key = t.key := by
        intro t
        split <;> rfl
      -- retiring keeps the keys, so the suite is found as before
      have hs' : (db.setSuiteEnabled s.id false).getSuiteByKey key =
          some { s with enabled := false } := by
        refine (getSuiteByKey_mapSuites hkey).trans ?_
        rw [hs, Option.map_some, if_pos rfl]
      have hinsert := catalogue_insertCases (h.setSuiteEnabled s.id false) hs' contents
      rw [catalogue_retireSuite h hs, Catalogue.modify_extend] at hinsert
      simpa [seedWrites, SeedStatement.exec] using hinsert
  cases record with
  | none => exact hbefore
  | some g =>
    rw [execAll_seedWrites_some]
    rw [← hbefore]
    rfl

/-- **Seeding a suite refines seeding its entry.** -/
theorem catalogue_seedSuite (h : db.Keyed) (S : SeedSuite) :
    db.catalogue.seedSuite S = ((db.seedSuite S).1, (db.seedSuite S).2.catalogue) := by
  have hinsert := catalogue_insertSuite (S := S) h
  unfold Catalogue.seedSuite seedSuite
  rw [← hinsert]
  -- the suite was purged, or its generation cannot be read, or the bank is extended
  refine seedStatements_cases ?_ ?_ ?_
  · intro hpurged
    exact if_pos hpurged
  · intro hpurged hrecord
    have hreceived : (db.insertSuite S).catalogue.received S.key = none := by
      have hgens : (db.insertSuite S).catalogue.seedGens S.key = some none :=
        (congrFun seedGens_insertSuite _).trans hrecord
      rw [Catalogue.received, hgens]
    have hnot : ¬ db.catalogue.purged S.key = true := by
      simp [catalogue, hpurged]
    rw [if_neg hnot, hreceived]
    rfl
  · intro suite received hpurged hsuite hgen
    have hreceived := (received_catalogue hsuite).trans hgen
    have hnot : ¬ db.catalogue.purged S.key = true := by
      simp [catalogue, hpurged]
    rw [if_neg hnot, hreceived]
    exact congrArg (Prod.mk true)
      (catalogue_execAll (h.insertSuite S) hsuite _ _ _).symm

theorem catalogue_seedSuites (h : db.Keyed) (suites : List SeedSuite) :
    Catalogue.seedSuites suites db.catalogue =
      ((seedSuites suites db).1, (seedSuites suites db).2.catalogue) := by
  induction suites generalizing db with
  | nil => rfl
  | cons S suites ih =>
    rw [Catalogue.seedSuites, seedSuites, catalogue_seedSuite h]
    dsimp only
    split
    · exact ih (h.seedSuite S)
    · rfl

/-! ### The migrations and the purge refine theirs -/

/-- The ids of the cases of a window that are not kept. -/
def retireIds (keep : CaseContent → Bool) (n : ℕ) (cases : List CaseRow) : List ℕ :=
  (((cases.filter (·.enabled)).take n).filter (!keep ·.content)).map CaseRow.id

theorem mem_of_mem_retireIds {keep : CaseContent → Bool} {n id : ℕ} {cases : List CaseRow}
    (h : id ∈ retireIds keep n cases) : id ∈ cases.map CaseRow.id := by
  obtain ⟨c, hc, rfl⟩ := List.mem_map.mp h
  exact List.mem_map_of_mem
    (List.mem_of_mem_filter (List.mem_of_mem_take (List.mem_of_mem_filter hc)))

/-- A case after the disabling of some ids. -/
def disableIn (ids : List ℕ) (c : CaseRow) : CaseRow :=
  if c.id ∈ ids then { c with enabled := false } else c

/-- Other ids do not matter. -/
theorem map_disableIn_cons {id : ℕ} {ids : List ℕ} {cases : List CaseRow}
    (h : id ∉ cases.map CaseRow.id) :
    cases.map (disableIn (id :: ids)) = cases.map (disableIn ids) := by
  apply List.map_congr_left
  intro c hc
  have hne : c.id ≠ id := fun heq => h (heq ▸ List.mem_map_of_mem hc)
  simp only [disableIn, List.mem_cons, hne, false_or]

/-- Disabling the ids of a window trims the questions of its cases. -/
theorem trimWindow_map {keep : CaseContent → Bool} {cases : List CaseRow} (n : ℕ)
    (hnodup : (cases.map CaseRow.id).Nodup) :
    trimWindow keep n (cases.map CaseRow.question) =
      (cases.map (disableIn (retireIds keep n cases))).map CaseRow.question := by
  induction cases generalizing n with
  | nil => cases n <;> rfl
  | cons c cases ih =>
    rw [List.map_cons, List.nodup_cons] at hnodup
    cases n with
    | zero => simp [trimWindow, retireIds, disableIn]
    | succ n =>
      -- the other cases have other ids, so the head is decided by itself
      have hfresh : ∀ m, c.id ∉ retireIds keep m cases :=
        fun m hmem => hnodup.1 (mem_of_mem_retireIds hmem)
      cases henabled : c.enabled with
      | false =>
        have hids : retireIds keep (n + 1) (c :: cases) = retireIds keep (n + 1) cases := by
          simp [retireIds, henabled]
        rw [hids, List.map_cons, List.map_cons, List.map_cons, ← ih (n + 1) hnodup.2, disableIn,
          if_neg (hfresh (n + 1))]
        simp [trimWindow, CaseRow.question, henabled]
      | true =>
        cases hkeep : keep c.content with
        | true =>
          have hids : retireIds keep (n + 1) (c :: cases) = retireIds keep n cases := by
            simp [retireIds, henabled, hkeep]
          rw [hids, List.map_cons, List.map_cons, List.map_cons, ← ih n hnodup.2, disableIn,
            if_neg (hfresh n)]
          simp [trimWindow, CaseRow.question, henabled, hkeep]
        | false =>
          have hids : retireIds keep (n + 1) (c :: cases) = c.id :: retireIds keep n cases := by
            simp [retireIds, henabled, hkeep]
          rw [hids, List.map_cons, List.map_cons, map_disableIn_cons hnodup.1, List.map_cons,
            ← ih n hnodup.2, disableIn, if_pos List.mem_cons_self]
          simp [trimWindow, CaseRow.question, henabled, hkeep]

theorem casesOf_setCasesEnabled {ids : List ℕ} {suiteId : ℕ} :
    (db.setCasesEnabled ids false).casesOf suiteId =
      (db.casesOf suiteId).map (disableIn ids) := by
  have hsuite : ∀ c : CaseRow, (disableIn ids c).suiteId = c.suiteId := by
    intro c
    unfold disableIn
    split <;> rfl
  show (db.cases.map (disableIn ids)).filter _ = _
  rw [List.filter_map]
  simp only [Function.comp_def, hsuite, casesOf]

theorem nodup_casesOf (h : db.Keyed) (suiteId : ℕ) :
    ((db.casesOf suiteId).map CaseRow.id).Nodup :=
  (List.filter_sublist.map _).nodup h.caseIds

theorem window_entry (s : SuiteRow) :
    (db.entry s).window = (db.seedWindow s.id).map CaseRow.question := by
  show (((db.casesOf s.id).map CaseRow.question).filter (·.enabled)).take 100 = _
  rw [List.filter_map, ← List.map_take]
  rfl

/-- A suite is left alone just when its entry is. -/
theorem window_settled_iff (s : SuiteRow) :
    ((db.seedWindow s.id).length < 100 ∨
      (db.seedWindow s.id).filter (!S.keeps ·.content) = []) ↔
    ((db.entry s).window.length < 100 ∨ (db.entry s).window.all (S.keeps ·.content) = true) := by
  rw [window_entry, List.length_map, List.filter_eq_nil_iff, List.all_map, List.all_eq_true]
  simp [CaseRow.question]

/-- The cases of another suite have other ids. -/
theorem bank_setCasesEnabled_of_ne {ids : List ℕ} {suiteId id : ℕ} (h : db.Keyed)
    (hids : ∀ i ∈ ids, i ∈ (db.casesOf suiteId).map CaseRow.id) (hne : id ≠ suiteId) :
    (db.setCasesEnabled ids false).bank id = db.bank id := by
  rw [bank, casesOf_setCasesEnabled, bank, List.map_map]
  apply List.map_congr_left
  intro c hc
  obtain ⟨hmem, hsuite⟩ := List.mem_filter.mp hc
  have hnot : c.id ∉ ids := by
    intro hin
    obtain ⟨d, hd, hid⟩ := List.mem_map.mp (hids _ hin)
    obtain ⟨hmem', hsuite'⟩ := List.mem_filter.mp hd
    have heq : d = c := List.inj_on_of_nodup_map h.caseIds hmem' hmem hid
    simp only [decide_eq_true_eq] at hsuite hsuite'
    exact hne (hsuite.symm.trans (heq ▸ hsuite'))
  rw [Function.comp_apply, disableIn, if_neg hnot]

/-- **Trimming a suite trims its entry.** -/
theorem entries_trimSuite (h : db.Keyed) (S : SeedSuite) :
    (db.trimSuite S).entries = db.entries.map (SuiteEntry.trim · S) := by
  -- an entry of another key is left alone
  have hother : ∀ s : SuiteRow, s.key ≠ S.key → SuiteEntry.trim (db.entry s) S = db.entry s :=
    fun s hkey => if_pos (.inl hkey)
  unfold trimSuite
  split
  next hnone =>
    have hself : ∀ e ∈ db.entries, SuiteEntry.trim e S = e := by
      intro e he
      obtain ⟨s, hs, rfl⟩ := List.mem_map.mp he
      apply hother
      simpa using List.find?_eq_none.mp hnone s hs
    rw [List.map_congr_left hself, List.map_id']
  next suite hsuite =>
    -- the seed says what to retire by the prompt, the entry by its contents
    have hretire : ((db.seedWindow suite.id).filter fun c =>
        c.content.prompt ∉ S.cases.map (·.content.prompt)) =
        (db.seedWindow suite.id).filter (!S.keeps ·.content) := by
      simp only [SeedSuite.keeps, decide_not]
    dsimp only
    rw [hretire]
    split
    next hsettled =>
      have hself : ∀ e ∈ db.entries, SuiteEntry.trim e S = e := by
        intro e he
        obtain ⟨s, hs, rfl⟩ := List.mem_map.mp he
        by_cases hkey : s.key = S.key
        · have heq : s = suite := List.inj_on_of_nodup_map h.suiteIds hs
            (mem_of_getSuiteByKey hsuite).1 ((h.id_eq_iff hsuite hs).mpr hkey)
          rw [heq]
          exact if_pos (.inr ((window_settled_iff suite).mp hsettled))
        · exact hother s hkey
      rw [List.map_congr_left hself, List.map_id']
    next hsettled =>
      apply entries_of_map
      · rfl
      · intro t ht
        show entryWith _ ((db.setCasesEnabled _ false).bank _) = _
        by_cases hkey : t.key = S.key
        · have heq : t = suite := List.inj_on_of_nodup_map h.suiteIds ht
            (mem_of_getSuiteByKey hsuite).1 ((h.id_eq_iff hsuite ht).mpr hkey)
          subst heq
          -- the retired ids are those of the window, so that the bank is trimmed likewise
          have hbank : (db.setCasesEnabled (((db.seedWindow t.id).filter
              (!S.keeps ·.content)).map CaseRow.id) false).bank t.id =
              trimWindow S.keeps 100 (db.bank t.id) := by
            rw [bank, casesOf_setCasesEnabled, bank,
              trimWindow_map 100 (nodup_casesOf h t.id)]
            rfl
          have hgoes : ¬ ((db.entry t).key ≠ S.key ∨ (db.entry t).window.length < 100 ∨
              (db.entry t).window.all (S.keeps ·.content) = true) := by
            rw [not_or, ← window_settled_iff]
            exact ⟨fun hne => hne hkey, hsettled⟩
          rw [if_pos rfl, SuiteEntry.trim, if_neg hgoes, hbank]
          rfl
        · have hid : t.id ≠ suite.id := fun hid => hkey ((h.id_eq_iff hsuite ht).mp hid)
          rw [if_neg hid, hother t hkey, bank_setCasesEnabled_of_ne h _ hid]
          · rfl
          · intro i hi
            exact mem_of_mem_retireIds (n := 100) hi

theorem Keyed.trimSuite (h : db.Keyed) (S : SeedSuite) : (db.trimSuite S).Keyed := by
  obtain heq | ⟨ids, id, heq⟩ := trimSuite_cases db S
  · rwa [heq]
  · rw [heq]
    exact (h.setCasesEnabled ids false).bumpSuiteVersion id

theorem entries_trimSuites (h : db.Keyed) (suites : List SeedSuite) :
    (suites.foldl trimSuite db).entries = db.entries.map (suites.foldl SuiteEntry.trim ·) := by
  induction suites generalizing db with
  | nil => exact (List.map_id' _).symm
  | cons S suites ih =>
    rw [List.foldl_cons, ih (h.trimSuite S), entries_trimSuite h, List.map_map]
    rfl

theorem entries_setKeysEnabled (keys : List String) (enabled : Bool) :
    (db.setKeysEnabled keys enabled).entries = db.entries.map (SuiteEntry.setEnabled keys enabled) := by
  apply entries_of_map
  · rfl
  · intro t _
    show entryWith _ (db.bank _) = if t.key ∈ keys then _ else _
    split <;> rfl

/-- **Before the purge the migrations are done to each entry.** -/
theorem entries_beforePurge (h : db.Keyed) (banks : Banks) :
    (db.beforePurge banks).entries =
      db.entries.map (SuiteEntry.beforePurge banks db.benchmarkCutover db.benchmarkTrim) := by
  have henable : (db.enableBenchmarkSuitesAtCutover banks).entries = db.entries.map fun e =>
      if db.benchmarkCutover then e
      else e.setEnabled (banks.benchmarkSuites.map SeedSuite.key) true := by
    unfold enableBenchmarkSuitesAtCutover
    split
    · exact (List.map_id' _).symm
    · show (db.setKeysEnabled (banks.benchmarkSuites.map SeedSuite.key) true).entries = _
      exact entries_setKeysEnabled _ _
  -- enabling the suites does not touch the flag of the trim
  have hflag : (db.enableBenchmarkSuitesAtCutover banks).benchmarkTrim = db.benchmarkTrim := by
    unfold enableBenchmarkSuitesAtCutover
    split <;> rfl
  have htrim : ((db.enableBenchmarkSuitesAtCutover banks).trimBenchmarkSuitesToTwenty
      banks).entries = (db.enableBenchmarkSuitesAtCutover banks).entries.map fun e =>
      if db.benchmarkTrim then e else banks.benchmarkSuites.foldl SuiteEntry.trim e := by
    unfold trimBenchmarkSuitesToTwenty
    rw [hflag]
    split
    · exact (List.map_id' _).symm
    · exact entries_trimSuites (h.enableBenchmarkSuitesAtCutover banks) _
  rw [beforePurge, retireV3SuitesAtOpen, entries_setKeysEnabled, htrim, henable, List.map_map,
    List.map_map]
  rfl

/-- **The purge keeps or drops each entry by itself.** -/
theorem entries_purgeDisabledSuites (h : db.Keyed) (banks : Banks) :
    (db.purgeDisabledSuites banks).entries = db.entries.filterMap (SuiteEntry.purge banks) := by
  -- a suite that stays keeps its cases: they are deleted by suite id
  have hbank : ∀ s ∈ db.suites, banks.doomed s.retireLegacy = false →
      (db.purgeDisabledSuites banks).bank s.id = db.bank s.id := by
    intro s hs hstays
    have hid := id_notMem_doomedIds h hs hstays
    show ((db.cases.filter _).filter _).map _ = (db.cases.filter _).map _
    rw [List.filter_filter]
    congr 1
    apply List.filter_congr
    intro c _
    by_cases hsuite : c.suiteId = s.id
    · simp [hsuite, hid]
    · simp [hsuite]
  have hentries : ∀ suites : List SuiteRow, (∀ s ∈ suites, s ∈ db.suites) →
      ((suites.map SuiteRow.retireLegacy).filter (!banks.doomed ·)).map
        (db.purgeDisabledSuites banks).entry =
        (suites.map db.entry).filterMap (SuiteEntry.purge banks) := by
    intro suites
    induction suites with
    | nil => simp
    | cons s suites ih =>
      intro hsub
      have hrest := ih fun t ht => hsub t (List.mem_cons_of_mem _ ht)
      have hlegacy : (db.entry s).retireLegacy = entryWith s.retireLegacy (db.bank s.id) := by
        unfold SuiteEntry.retireLegacy SuiteRow.retireLegacy
        show (if s.capability = "" then _ else _) = _
        split <;> rfl
      have hpurge : (db.entry s).purge banks = if banks.doomed s.retireLegacy then none else
          some (entryWith s.retireLegacy (db.bank s.id)) := by
        rw [SuiteEntry.purge, hlegacy]
        show (if (!s.retireLegacy.enabled && !banks.exempt s.key) = true then _ else _) = _
        rw [Banks.doomed, SuiteRow.key_retireLegacy]
      rw [List.map_cons, List.map_cons, List.filter_cons, List.filterMap_cons, hpurge]
      cases hdoomed : banks.doomed s.retireLegacy with
      | true => simpa using hrest
      | false =>
        have hself := hbank s (hsub s List.mem_cons_self) hdoomed
        simp only [Bool.not_false, if_true, Bool.false_eq_true, if_false, List.map_cons, hrest]
        rw [entry, SuiteRow.id_retireLegacy, hself]
  exact hentries db.suites fun _ hs => hs

theorem entries_migrate (h : db.Keyed) (banks : Banks) :
    (db.migrate banks).entries =
      db.entries.filterMap (SuiteEntry.settle banks db.benchmarkCutover db.benchmarkTrim) := by
  show ((db.beforePurge banks).purgeDisabledSuites banks).entries = _
  rw [entries_purgeDisabledSuites (h.beforePurge banks), entries_beforePurge h,
    List.filterMap_map]
  rfl

theorem flags_exec (st : SeedStatement) :
    (SeedStatement.exec db st).benchmarkCutover = db.benchmarkCutover ∧
      (SeedStatement.exec db st).benchmarkTrim = db.benchmarkTrim := by
  cases st with
  | insertSuite T =>
    show (db.insertSuite T).benchmarkCutover = _ ∧ (db.insertSuite T).benchmarkTrim = _
    unfold insertSuite
    split <;> exact ⟨rfl, rfl⟩
  | retireSuite id => exact ⟨rfl, rfl⟩
  | insertCase id c => exact ⟨rfl, rfl⟩
  | setSeedGen key g => exact ⟨rfl, rfl⟩

theorem flags_execAll (statements : List SeedStatement) :
    (db.execAll statements).benchmarkCutover = db.benchmarkCutover ∧
      (db.execAll statements).benchmarkTrim = db.benchmarkTrim := by
  apply execAll_invariant (P := fun db' => db'.benchmarkCutover = db.benchmarkCutover ∧
    db'.benchmarkTrim = db.benchmarkTrim)
  · intro db' st _ hdb
    exact ⟨(flags_exec st).1.trans hdb.1, (flags_exec st).2.trans hdb.2⟩
  · exact ⟨rfl, rfl⟩

theorem flags_seedSuites (suites : List SeedSuite) :
    (seedSuites suites db).2.benchmarkCutover = db.benchmarkCutover ∧
      (seedSuites suites db).2.benchmarkTrim = db.benchmarkTrim := by
  apply seedSuites_invariant (P := fun db' => db'.benchmarkCutover = db.benchmarkCutover ∧
    db'.benchmarkTrim = db.benchmarkTrim)
  · intro db' S _ hdb
    exact ⟨(flags_execAll _).1.trans hdb.1, (flags_execAll _).2.trans hdb.2⟩
  · exact ⟨rfl, rfl⟩

/-- **Open refines Open on the catalogue.** -/
theorem entries_openStore (h : db.Keyed) (banks : Banks) :
    (openStore banks db).2.entries = db.catalogue.openStore banks := by
  have hstamp : db.stampRuns.catalogue = db.catalogue := rfl
  have hseed := catalogue_seedSuites h.stampRuns banks.builtinSuites
  have hflags : (seedSuites banks.builtinSuites db.stampRuns).2.benchmarkCutover = _ ∧ _ :=
    flags_seedSuites banks.builtinSuites
  rw [hstamp] at hseed
  unfold openStore Catalogue.openStore
  rw [hseed]
  dsimp only
  split
  · dsimp only
    rw [entries_migrate (h.stampRuns.seedSuites _), hflags.1, hflags.2]
    rfl
  · rfl

end Database

end HubScope
