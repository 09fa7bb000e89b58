import HubScope.Lib.Transition
import HubScope.Store.Seeding

/-!
# Disabled means gone

A suite the purge deletes is tombstoned, and the seeding skips a tombstoned key, so no later Open
brings the suite back. Each part of Open is a no-op on what Open leaves: every built-in suite is
received or tombstoned, the one-time migrations have left their flags, the capability suites are
off, and what is off without an exemption is gone.

## Main definitions

* `Migrated` — nothing of the migrations and of the purge is left to do
* `StoreAction`, `storeStep` — an Open, or an administrator toggling a suite or a case

## Main results

* `openStore_openStore` — a second Open changes nothing
* `gone_of_tombstoned` — an Open that tombstones a key leaves no suite with it
* `tombstoned_of_reach` — a tombstone stays, and no suite with its key is added
* `gone_of_reach` — the three along every sequence of Opens and toggles
-/

set_option autoImplicit false

namespace HubScope

open Transition

namespace Database

variable {db db' : Database} {banks : Banks} {S T : SeedSuite} {key : String}

/-! ### The migrations keep what is received -/

theorem Received.mapSuites {f : SuiteRow → SuiteRow} (h : db.Received T)
    (hf : ∀ s, ((f s).id, (f s).key) = (s.id, s.key)) : (db.mapSuites f).Received T := by
  apply h.grow
  · exact fun hpurged => hpurged
  · intro s hs
    have hkey : ∀ s, (f s).key = s.key := fun s => congrArg Prod.snd (hf s)
    exact ⟨f s, (getSuiteByKey_mapSuites hkey).trans (congrArg _ hs), congrArg Prod.fst (hf s)⟩
  · rfl
  · exact fun _ _ hne => hne

theorem Received.setKeysEnabled (h : db.Received T) (keys : List String) (enabled : Bool) :
    (db.setKeysEnabled keys enabled).Received T :=
  h.mapSuites fun s => by split <;> rfl

theorem Received.setCasesEnabled (h : db.Received T) (ids : List ℕ) (enabled : Bool) :
    (db.setCasesEnabled ids enabled).Received T := by
  apply h.grow
  · exact fun hpurged => hpurged
  · exact fun s hs => ⟨s, hs, rfl⟩
  · rfl
  · intro s _ hne hnil
    apply hne
    have hsuite : ∀ c : CaseRow,
        (if c.id ∈ ids then { c with enabled := enabled } else c).suiteId = c.suiteId := by
      intro c
      split <;> rfl
    simpa only [casesOf, Database.setCasesEnabled, List.filter_map, Function.comp_def, hsuite,
      List.map_eq_nil_iff] using hnil

/-- Trimming a suite disables cases of it and bumps its version, or does nothing. -/
theorem trimSuite_cases (db : Database) (S : SeedSuite) :
    db.trimSuite S = db ∨
      ∃ ids id, db.trimSuite S = (db.setCasesEnabled ids false).bumpSuiteVersion id := by
  unfold trimSuite
  split
  · exact .inl rfl
  · dsimp only
    split
    · exact .inl rfl
    · exact .inr ⟨_, _, rfl⟩

/-- What the trim of each suite keeps, the trim keeps. -/
theorem trimSuites_invariant {P : Database → Prop}
    (hcases : ∀ db ids id, P db → P ((db.setCasesEnabled ids false).bumpSuiteVersion id))
    (suites : List SeedSuite) (h : P db) : P (suites.foldl trimSuite db) := by
  induction suites generalizing db with
  | nil => exact h
  | cons S suites ih =>
    apply ih
    obtain heq | ⟨ids, id, heq⟩ := trimSuite_cases db S
    · rwa [heq]
    · rw [heq]
      exact hcases db ids id h

theorem Keyed.trimBenchmarkSuitesToTwenty (h : db.Keyed) (banks : Banks) :
    (db.trimBenchmarkSuitesToTwenty banks).Keyed := by
  unfold Database.trimBenchmarkSuitesToTwenty
  split
  · exact h
  · have htrim : (banks.benchmarkSuites.foldl trimSuite db).Keyed :=
      trimSuites_invariant (P := Keyed)
        (fun db ids id hdb => (hdb.setCasesEnabled ids false).bumpSuiteVersion id) _ h
    exact ⟨htrim.suiteIds, htrim.suiteSeq, htrim.suiteKeys, htrim.caseIds, htrim.caseSeq,
      htrim.caseSuites, htrim.runIds⟩

theorem Keyed.purgeDisabledSuites (h : db.Keyed) (banks : Banks) :
    (db.purgeDisabledSuites banks).Keyed := by
  apply h.of_sublist
  · have hsame : ∀ s : SuiteRow, (s.retireLegacy.id, s.retireLegacy.key) = (s.id, s.key) := by
      intro s
      unfold SuiteRow.retireLegacy
      split <;> rfl
    have hmap : (db.suites.map SuiteRow.retireLegacy).map (fun s => (s.id, s.key)) =
        db.suites.map fun s => (s.id, s.key) := by
      simp [Function.comp_def, hsame]
    rw [← hmap]
    exact List.filter_sublist.map _
  · rfl
  · exact List.filter_sublist.map _
  · rfl
  · exact List.filter_sublist.map _

theorem Keyed.enableBenchmarkSuitesAtCutover (h : db.Keyed) (banks : Banks) :
    (db.enableBenchmarkSuitesAtCutover banks).Keyed := by
  unfold Database.enableBenchmarkSuitesAtCutover
  split
  · exact h
  · have henable := h.setKeysEnabled (banks.benchmarkSuites.map SeedSuite.key) true
    exact ⟨henable.suiteIds, henable.suiteSeq, henable.suiteKeys, henable.caseIds, henable.caseSeq,
      henable.caseSuites, henable.runIds⟩

/-- The tables the purge starts from. -/
def beforePurge (banks : Banks) (db : Database) : Database :=
  ((db.enableBenchmarkSuitesAtCutover banks).trimBenchmarkSuitesToTwenty
    banks).retireV3SuitesAtOpen banks

theorem Keyed.beforePurge (h : db.Keyed) (banks : Banks) : (db.beforePurge banks).Keyed :=
  ((h.enableBenchmarkSuitesAtCutover banks).trimBenchmarkSuitesToTwenty banks).setKeysEnabled _ _

theorem Keyed.migrate (h : db.Keyed) (banks : Banks) : (db.migrate banks).Keyed :=
  (h.beforePurge banks).purgeDisabledSuites banks

/-- **Open keeps the keys.** -/
theorem Keyed.openStore (h : db.Keyed) (banks : Banks) : (openStore banks db).2.Keyed := by
  have hseed := h.stampRuns.seedSuites banks.builtinSuites
  unfold Database.openStore
  split
  · exact hseed.migrate banks
  · exact hseed

theorem Received.beforePurge (h : db.Received T) (banks : Banks) :
    (db.beforePurge banks).Received T := by
  have henable : (db.enableBenchmarkSuitesAtCutover banks).Received T := by
    unfold enableBenchmarkSuitesAtCutover
    split
    · exact h
    · exact h.setKeysEnabled _ _
  have htrim : ((db.enableBenchmarkSuitesAtCutover banks).trimBenchmarkSuitesToTwenty
      banks).Received T := by
    unfold trimBenchmarkSuitesToTwenty
    split
    · exact henable
    · refine trimSuites_invariant (P := fun db => db.Received T) ?_ _ henable
      intro db ids id hdb
      exact (hdb.setCasesEnabled ids false).mapSuites fun s => by split <;> rfl
  exact htrim.setKeysEnabled _ _

@[simp] theorem SuiteRow.id_retireLegacy (s : SuiteRow) : s.retireLegacy.id = s.id := by
  unfold SuiteRow.retireLegacy
  split <;> rfl

@[simp] theorem SuiteRow.key_retireLegacy (s : SuiteRow) : s.retireLegacy.key = s.key := by
  unfold SuiteRow.retireLegacy
  split <;> rfl

theorem SuiteRow.retireLegacy_retireLegacy (s : SuiteRow) :
    s.retireLegacy.retireLegacy = s.retireLegacy := by
  by_cases hlegacy : s.capability = "" <;> simp [SuiteRow.retireLegacy, hlegacy]

theorem SuiteRow.enabled_retireLegacy {s : SuiteRow} (h : s.enabled = false) :
    s.retireLegacy.enabled = false := by
  unfold SuiteRow.retireLegacy
  split
  · rfl
  · exact h

/-- The id of a row that stays is not among the deleted ones. -/
theorem id_notMem_doomedIds (h : db.Keyed) {s : SuiteRow} (hs : s ∈ db.suites)
    (hstays : banks.doomed s.retireLegacy = false) : s.id ∉ db.doomedIds banks := by
  intro hmem
  obtain ⟨t, ht, hid⟩ := List.mem_map.mp hmem
  obtain ⟨ht, hdoomed⟩ := List.mem_filter.mp ht
  obtain ⟨t, ht', rfl⟩ := List.mem_map.mp ht
  rw [SuiteRow.id_retireLegacy] at hid
  have heq : t = s := List.inj_on_of_nodup_map h.suiteIds ht' hs hid
  rw [heq, hstays] at hdoomed
  exact absurd hdoomed (by simp)

/-- The purge tombstones a suite or leaves what it has received. -/
theorem Received.purgeDisabledSuites (h : db.Received T) (hkeyed : db.Keyed) :
    (db.purgeDisabledSuites banks).Received T := by
  by_cases hkey : T.key ∈ db.doomedKeys banks
  · exact .inl (by simp [Database.purgeDisabledSuites, hkey])
  · have hstays : ∀ s, db.getSuiteByKey T.key = some s → banks.doomed s.retireLegacy = false := by
      intro s hs
      obtain ⟨hmem, hskey⟩ := mem_of_getSuiteByKey hs
      by_contra hdoomed
      apply hkey
      apply List.mem_map.mpr
      refine ⟨s.retireLegacy, List.mem_filter.mpr ⟨List.mem_map_of_mem hmem, ?_⟩, ?_⟩
      · simpa using hdoomed
      · rw [SuiteRow.key_retireLegacy, hskey]
    apply h.grow
    · intro hpurged
      simp [Database.purgeDisabledSuites, hpurged]
    · intro s hs
      refine ⟨s.retireLegacy, ?_, SuiteRow.id_retireLegacy s⟩
      have hspec := mem_of_getSuiteByKey hs
      have hmem : s.retireLegacy ∈ (db.purgeDisabledSuites banks).suites :=
        List.mem_filter.mpr ⟨List.mem_map_of_mem hspec.1, by simp [hstays s hs]⟩
      have hfind := (hkeyed.purgeDisabledSuites banks).getSuiteByKey_eq_some hmem
      rwa [SuiteRow.key_retireLegacy, hspec.2] at hfind
    · simp [Database.purgeDisabledSuites, hkey]
    · intro s hs hne
      obtain ⟨c, hc⟩ := List.exists_mem_of_ne_nil _ hne
      apply List.ne_nil_of_mem (a := c)
      obtain ⟨hmem, hsuite⟩ := List.mem_filter.mp hc
      refine List.mem_filter.mpr ⟨List.mem_filter.mpr ⟨hmem, ?_⟩, hsuite⟩
      have hid := id_notMem_doomedIds hkeyed (mem_of_getSuiteByKey hs).1 (hstays s hs)
      simpa [of_decide_eq_true hsuite] using hid

/-! ### Opening twice -/

/-- Nothing of the migrations and of the purge is left to do. -/
structure Migrated (banks : Banks) (db : Database) : Prop where
  cutover : db.benchmarkCutover = true
  trim : db.benchmarkTrim = true
  legacy : ∀ s ∈ db.suites, s.retireLegacy = s
  stays : ∀ s ∈ db.suites, banks.doomed s = false
  retired : ∀ s ∈ db.suites, s.key ∈ banks.capabilitySuites.map SeedSuite.key → s.enabled = false

theorem migrated_migrate (banks : Banks) (db : Database) : Migrated banks (db.migrate banks) := by
  -- the cutover writes its marker, or found it written
  have hcutover : (db.enableBenchmarkSuitesAtCutover banks).benchmarkCutover = true := by
    unfold enableBenchmarkSuitesAtCutover
    split
    next hdone => exact hdone
    · rfl
  have hmem : ∀ s ∈ (db.migrate banks).suites, ∃ t, s = SuiteRow.retireLegacy
      (if t.key ∈ banks.capabilitySuites.map SeedSuite.key then { t with enabled := false } else t) ∧
      banks.doomed s = false := by
    -- a retired suite keeps its key, so retiring it twice is retiring it once
    intro s hs
    obtain ⟨hs, hstays⟩ := List.mem_filter.mp hs
    obtain ⟨t, ht, rfl⟩ := List.mem_map.mp hs
    obtain ⟨t, -, rfl⟩ := List.mem_map.mp ht
    exact ⟨t, rfl, by simpa using hstays⟩
  constructor
  · show ((db.enableBenchmarkSuitesAtCutover banks).trimBenchmarkSuitesToTwenty
      banks).benchmarkCutover = true
    unfold trimBenchmarkSuitesToTwenty
    split
    · exact hcutover
    · exact trimSuites_invariant (P := fun db => db.benchmarkCutover = true)
        (fun _ _ _ hdb => hdb) _ hcutover
  · show ((db.enableBenchmarkSuitesAtCutover banks).trimBenchmarkSuitesToTwenty
      banks).benchmarkTrim = true
    unfold trimBenchmarkSuitesToTwenty
    split
    next hdone => exact hdone
    · rfl
  · intro s hs
    obtain ⟨t, rfl, -⟩ := hmem s hs
    exact SuiteRow.retireLegacy_retireLegacy _
  · intro s hs
    obtain ⟨t, -, hstays⟩ := hmem s hs
    exact hstays
  · intro s hs hkey
    obtain ⟨t, rfl, -⟩ := hmem s hs
    apply SuiteRow.enabled_retireLegacy
    rw [SuiteRow.key_retireLegacy] at hkey
    split
    · rfl
    next hout =>
      rw [if_neg hout] at hkey
      exact absurd hkey hout

/-- An update that changes no row changes nothing. -/
theorem mapSuites_eq_self {f : SuiteRow → SuiteRow} (hf : ∀ s ∈ db.suites, f s = s) :
    db.mapSuites f = db := by
  have hmap : db.suites.map f = db.suites := by
    rw [List.map_congr_left hf, List.map_id']
  rw [mapSuites, hmap]

/-- The migrations and the purge of what is migrated change nothing. -/
theorem migrate_of_migrated (h : Migrated banks db) : db.migrate banks = db := by
  have hretire : db.retireV3SuitesAtOpen banks = db := by
    apply mapSuites_eq_self
    intro s hs
    split
    next hkey => rw [← h.retired s hs hkey]
    · rfl
  have hlegacy : db.suites.map SuiteRow.retireLegacy = db.suites := by
    rw [List.map_congr_left h.legacy, List.map_id']
  have hdoomed : db.doomedSuites banks = [] := by
    rw [doomedSuites, hlegacy, List.filter_eq_nil_iff]
    intro s hs
    simp [h.stays s hs]
  have hsuites : db.suites.filter (!banks.doomed ·) = db.suites := by
    rw [List.filter_eq_self]
    intro s hs
    simp [h.stays s hs]
  rw [migrate, enableBenchmarkSuitesAtCutover, if_pos h.cutover, trimBenchmarkSuitesToTwenty,
    if_pos h.trim, hretire]
  simp [purgeDisabledSuites, doomedKeys, doomedIds, doomedRuns, hdoomed, hlegacy, hsuites]

theorem seedSuites_of_received {suites : List SeedSuite} (h : ∀ S ∈ suites, db.Received S) :
    (seedSuites suites db).2 = db := by
  induction suites with
  | nil => rfl
  | cons S suites ih =>
    have hfirst := seedSuite_of_received (h S List.mem_cons_self)
    rw [seedSuites]
    split
    · rw [hfirst]
      exact ih fun T hT => h T (List.mem_cons_of_mem _ hT)
    · exact hfirst

theorem Received.migrate (h : db.Received T) (hkeyed : db.Keyed) :
    (db.migrate banks).Received T :=
  (h.beforePurge banks).purgeDisabledSuites (hkeyed.beforePurge banks)

/-- Before the purge no record is touched. -/
theorem seedGens_beforePurge : (db.beforePurge banks).seedGens = db.seedGens ∧
    (db.beforePurge banks).purged = db.purged ∧ (db.beforePurge banks).runs = db.runs := by
  have henable : (db.enableBenchmarkSuitesAtCutover banks).seedGens = db.seedGens ∧
      (db.enableBenchmarkSuitesAtCutover banks).purged = db.purged ∧
      (db.enableBenchmarkSuitesAtCutover banks).runs = db.runs := by
    unfold enableBenchmarkSuitesAtCutover
    split <;> exact ⟨rfl, rfl, rfl⟩
  rw [← henable.1, ← henable.2.1, ← henable.2.2]
  show ((db.enableBenchmarkSuitesAtCutover banks).trimBenchmarkSuitesToTwenty banks).seedGens = _ ∧
    ((db.enableBenchmarkSuitesAtCutover banks).trimBenchmarkSuitesToTwenty banks).purged = _ ∧
    ((db.enableBenchmarkSuitesAtCutover banks).trimBenchmarkSuitesToTwenty banks).runs = _
  unfold trimBenchmarkSuitesToTwenty
  split
  · exact ⟨rfl, rfl, rfl⟩
  · exact trimSuites_invariant (P := fun db' => db'.seedGens = _ ∧ db'.purged = _ ∧ db'.runs = _)
      (fun _ _ _ hdb => hdb) _ ⟨rfl, rfl, rfl⟩

theorem readable_migrate (h : db.readable key = true) :
    (db.migrate banks).readable key = true := by
  have hbefore : (db.beforePurge banks).readable key = true := by
    unfold readable at h ⊢
    rwa [seedGens_beforePurge.1, seedGens_beforePurge.2.1]
  show ((db.beforePurge banks).purgeDisabledSuites banks).readable key = true
  unfold readable at hbefore ⊢
  by_cases hkey : key ∈ (db.beforePurge banks).doomedKeys banks
  · simp [purgeDisabledSuites, hkey]
  · simpa [purgeDisabledSuites, hkey] using hbefore

theorem stampRuns_eq_self (h : ∀ run ∈ db.runs, run.status ≠ .running) : db.stampRuns = db := by
  have hmap : (db.runs.map fun run =>
      if run.status = .running then { run with status := .failed } else run) = db.runs := by
    rw [List.map_congr_left (fun run hrun => if_neg (h run hrun)), List.map_id']
  rw [stampRuns, hmap]

theorem stampRuns_not_running (db : Database) :
    ∀ run ∈ db.stampRuns.runs, run.status ≠ .running := by
  intro run hrun
  obtain ⟨run, -, rfl⟩ := List.mem_map.mp hrun
  split
  · simp
  next hnot => exact hnot

/-- **A second Open changes nothing**, whether the first succeeds or not. -/
theorem openStore_openStore (h : db.Keyed) (banks : Banks) :
    openStore banks (openStore banks db).2 = openStore banks db := by
  have hkeyed := h.stampRuns.seedSuites banks.builtinSuites
  have hruns : ∀ run ∈ (seedSuites banks.builtinSuites db.stampRuns).2.runs,
      run.status ≠ .running := by
    rw [runs_seedSuites]
    exact stampRuns_not_running db
  by_cases hok : (seedSuites banks.builtinSuites db.stampRuns).1 = true
  · have hopen : openStore banks db =
        (true, (seedSuites banks.builtinSuites db.stampRuns).2.migrate banks) := if_pos hok
    -- a seeding that read every bank left each of them received, and the migrations keep them so
    have hreceived : ∀ S ∈ banks.builtinSuites,
        ((seedSuites banks.builtinSuites db.stampRuns).2.migrate banks).Received S :=
      fun S hS => (received_seedSuites banks.keys_nodup hok S hS).migrate hkeyed
    have hmigrated := migrated_migrate banks (seedSuites banks.builtinSuites db.stampRuns).2
    have hread : ∀ S ∈ banks.builtinSuites,
        ((seedSuites banks.builtinSuites db.stampRuns).2.migrate banks).readable S.key = true := by
      intro S hS
      apply readable_migrate
      apply seedSuites_invariant (P := fun db => db.readable S.key = true)
      · exact fun _ _ _ hdb => readable_seedSuite.trans hdb
      · rw [seedSuites_fst, List.all_eq_true] at hok
        exact hok S hS
    -- no migration sets a run going again
    have hstopped : ∀ run ∈
        ((seedSuites banks.builtinSuites db.stampRuns).2.migrate banks).runs,
        run.status ≠ .running := by
      intro run hrun
      apply hruns
      have hsame : ((seedSuites banks.builtinSuites db.stampRuns).2.beforePurge banks).runs = _ :=
        seedGens_beforePurge.2.2
      rw [← hsame]
      exact List.mem_of_mem_filter hrun
    rw [hopen]
    generalize (seedSuites banks.builtinSuites db.stampRuns).2.migrate banks = opened at *
    have hagain : (seedSuites banks.builtinSuites opened).1 = true := by
      rw [seedSuites_fst, List.all_eq_true]
      exact hread
    rw [openStore, stampRuns_eq_self hstopped, if_pos hagain, seedSuites_of_received hreceived,
      migrate_of_migrated hmigrated]
  · have hopen : openStore banks db = seedSuites banks.builtinSuites db.stampRuns := if_neg hok
    have hagain : seedSuites banks.builtinSuites (seedSuites banks.builtinSuites db.stampRuns).2 =
        seedSuites banks.builtinSuites db.stampRuns :=
      seedSuites_seedSuites banks.keys_nodup
    rw [hopen, openStore, stampRuns_eq_self hruns, hagain]
    exact if_neg hok

/-! ### Tombstones -/

/-- The key is tombstoned, and the suites that have it are suites of `before`. -/
structure Tombstoned (key : String) (before db : Database) : Prop where
  purged : db.purged key = true
  suites : ∀ s ∈ db.suites, s.key = key → ∃ t ∈ before.suites, t.key = key ∧ t.id = s.id

namespace Tombstoned

variable {before : Database}

theorem refl (h : db.purged key = true) : Tombstoned key db db :=
  ⟨h, fun s hs hkey => ⟨s, hs, hkey, rfl⟩⟩

theorem mapSuites (h : Tombstoned key before db) {f : SuiteRow → SuiteRow}
    (hf : ∀ s, ((f s).id, (f s).key) = (s.id, s.key)) : Tombstoned key before (db.mapSuites f) := by
  refine ⟨h.purged, fun s hs hkey => ?_⟩
  obtain ⟨s, hs', rfl⟩ := List.mem_map.mp hs
  have hid : (f s).id = s.id := congrArg Prod.fst (hf s)
  have hskey : (f s).key = s.key := congrArg Prod.snd (hf s)
  rw [hid]
  exact h.suites s hs' (hskey ▸ hkey)

theorem congr (h : Tombstoned key before db) (hpurged : db'.purged = db.purged)
    (hsuites : db'.suites = db.suites) : Tombstoned key before db' :=
  ⟨by rw [hpurged, h.purged], by rw [hsuites]; exact h.suites⟩

theorem insertSuite (h : Tombstoned key before db) (hne : S.key ≠ key) :
    Tombstoned key before (db.insertSuite S) := by
  refine ⟨by rw [purged_insertSuite, h.purged], fun s hs hkey => ?_⟩
  unfold Database.insertSuite at hs
  split at hs
  · exact h.suites s hs hkey
  · rcases List.mem_append.mp hs with hs | hs
    · exact h.suites s hs hkey
    · rw [List.mem_singleton.mp hs] at hkey
      exact absurd hkey hne

/-- The seeding skips a tombstoned key and inserts no suite of another one. -/
theorem seedSuite (h : Tombstoned key before db) (S : SeedSuite) :
    Tombstoned key before (db.seedSuite S).2 := by
  unfold Database.seedSuite
  refine seedStatements_cases ?_ ?_ ?_
  · intro _
    exact h
  · intro hpurged _
    apply h.insertSuite
    rintro rfl
    exact absurd h.purged (by simp [hpurged])
  · intro suite received hpurged _ _
    have hne : S.key ≠ key := by
      rintro rfl
      exact absurd h.purged (by simp [hpurged])
    have hinserted := h.insertSuite hne
    show Tombstoned key before ((db.insertSuite S).execAll (seedWrites _ _ _ _ _))
    refine execAll_invariant (P := Tombstoned key before) ?_ hinserted
    intro db st hst hdb
    obtain rfl | ⟨c, rfl⟩ | ⟨g, rfl⟩ := mem_seedWrites hst
    · exact hdb.mapSuites fun s => by split <;> rfl
    · exact hdb.congr rfl rfl
    · exact hdb.congr rfl rfl

theorem purgeDisabledSuites (h : Tombstoned key before db) (banks : Banks) :
    Tombstoned key before (db.purgeDisabledSuites banks) := by
  refine ⟨by simp [Database.purgeDisabledSuites, h.purged], fun s hs hkey => ?_⟩
  obtain ⟨s, hs', rfl⟩ := List.mem_map.mp (List.mem_filter.mp hs).1
  rw [SuiteRow.key_retireLegacy] at hkey
  rw [SuiteRow.id_retireLegacy]
  exact h.suites s hs' hkey

theorem beforePurge (h : Tombstoned key before db) (banks : Banks) :
    Tombstoned key before (db.beforePurge banks) := by
  have henable : Tombstoned key before (db.enableBenchmarkSuitesAtCutover banks) := by
    unfold enableBenchmarkSuitesAtCutover
    split
    · exact h
    · exact (h.mapSuites fun s => by split <;> rfl).congr rfl rfl
  have htrim : Tombstoned key before
      ((db.enableBenchmarkSuitesAtCutover banks).trimBenchmarkSuitesToTwenty banks) := by
    unfold trimBenchmarkSuitesToTwenty
    split
    · exact henable
    · refine (trimSuites_invariant (P := Tombstoned key before) ?_ _ henable).congr rfl rfl
      intro db ids id hdb
      have hcases : Tombstoned key before (db.setCasesEnabled ids false) := hdb.congr rfl rfl
      exact hcases.mapSuites fun s => by split <;> rfl
  exact htrim.mapSuites fun s => by split <;> rfl

theorem openStore (h : Tombstoned key before db) (banks : Banks) :
    Tombstoned key before (openStore banks db).2 := by
  have hseed : Tombstoned key before (seedSuites banks.builtinSuites db.stampRuns).2 :=
    seedSuites_invariant (fun _ S _ hdb => hdb.seedSuite S) (h.congr rfl rfl)
  unfold Database.openStore
  split
  · exact (hseed.beforePurge banks).purgeDisabledSuites banks
  · exact hseed

end Tombstoned

/-- **An Open that tombstones a key leaves no suite with it.** -/
theorem gone_of_tombstoned (h : db.Keyed) (hbefore : db.purged key = false)
    (hafter : (openStore banks db).2.purged key = true) :
    ∀ s ∈ (openStore banks db).2.suites, s.key ≠ key := by
  have hkeyed := (h.stampRuns.seedSuites banks.builtinSuites).beforePurge banks
  have hunpurged : ((seedSuites banks.builtinSuites db.stampRuns).2.beforePurge banks).purged key =
      false := by
    rw [seedGens_beforePurge.2.1, purged_seedSuites]
    exact hbefore
  unfold openStore at hafter ⊢
  split at hafter
  next hok =>
    rw [if_pos hok]
    intro s hs hkey
    -- the purge tombstones the keys of the suites it deletes, and those only
    have hdoomed : key ∈ Database.doomedKeys banks
        ((seedSuites banks.builtinSuites db.stampRuns).2.beforePurge banks) := by
      by_contra hnot
      change (((seedSuites banks.builtinSuites db.stampRuns).2.beforePurge
        banks).purgeDisabledSuites banks).purged key = true at hafter
      simp [purgeDisabledSuites, hnot, hunpurged] at hafter
    obtain ⟨t, ht, htkey⟩ := List.mem_map.mp hdoomed
    obtain ⟨ht, htdoomed⟩ := List.mem_filter.mp ht
    obtain ⟨t, ht', rfl⟩ := List.mem_map.mp ht
    obtain ⟨hs, hstays⟩ := List.mem_filter.mp hs
    obtain ⟨s, hs', rfl⟩ := List.mem_map.mp hs
    rw [SuiteRow.key_retireLegacy] at hkey htkey
    have heq : t = s :=
      List.inj_on_of_nodup_map hkeyed.suiteKeys ht' hs' (htkey.trans hkey.symm)
    rw [heq] at htdoomed
    simp [htdoomed] at hstays
  next hok =>
    rw [purged_seedSuites] at hafter
    exact absurd hafter (by simp [stampRuns, hbefore])

end Database

/-! ### Sequences of Opens and toggles -/

/-- The process starts, or an administrator toggles a suite or a case. -/
inductive StoreAction
  | openStore (banks : Banks)
  | setSuiteEnabled (id : ℕ) (enabled : Bool)
  | setCaseEnabled (id : ℕ) (enabled : Bool)

/-- The tables after an action; an Open that fails leaves what it has written. -/
def storeStep (db : Database) : StoreAction → Option Database
  | .openStore banks => some (Database.openStore banks db).2
  | .setSuiteEnabled id enabled => some (db.setSuiteEnabled id enabled)
  | .setCaseEnabled id enabled => some (db.setCaseEnabled id enabled)

variable {db db' : Database} {a : StoreAction} {key : String}

theorem Database.Keyed.storeStep (h : db.Keyed) (hstep : storeStep db a = some db') :
    db'.Keyed := by
  cases a with
  | openStore banks =>
    cases hstep
    exact h.openStore banks
  | setSuiteEnabled id enabled =>
    cases hstep
    exact h.setSuiteEnabled id enabled
  | setCaseEnabled id enabled =>
    cases hstep
    exact h.setCaseEnabled id enabled

theorem Database.Tombstoned.storeStep {before : Database} (h : Database.Tombstoned key before db)
    (hstep : storeStep db a = some db') : Database.Tombstoned key before db' := by
  cases a with
  | openStore banks =>
    cases hstep
    exact h.openStore banks
  | setSuiteEnabled id enabled =>
    cases hstep
    exact h.mapSuites fun s => by split <;> rfl
  | setCaseEnabled id enabled =>
    cases hstep
    unfold Database.setCaseEnabled
    split
    · exact h
    · have hcases : Database.Tombstoned key before (db.setCasesEnabled [id] enabled) :=
        h.congr rfl rfl
      exact hcases.mapSuites fun s => by split <;> rfl

theorem keyed_of_reach (h : db.Keyed) (hreach : Reachable storeStep db db') : db'.Keyed :=
  hreach.invariant h fun _ _ _ hdb _ hstep => hdb.storeStep hstep

/-- **A tombstone stays, and no suite with its key is added.** -/
theorem tombstoned_of_reach (h : db.purged key = true) (hreach : Reachable storeStep db db') :
    Database.Tombstoned key db db' :=
  hreach.invariant (.refl h) fun _ _ _ hdb _ hstep => hdb.storeStep hstep

/-- **Disabled means gone.** Whatever Opens and toggles follow, a key that an Open tombstones has
no suite any more, a tombstoned key gets no suite it did not have, and opening again changes
nothing. -/
theorem gone_of_reach (h : db.Keyed) (hreach : Reachable storeStep db db') :
    (∀ banks key later, db'.purged key = false → (Database.openStore banks db').2.purged key = true →
      Reachable storeStep (Database.openStore banks db').2 later →
      later.purged key = true ∧ ∀ s ∈ later.suites, s.key ≠ key) ∧
    (∀ key later, db'.purged key = true → Reachable storeStep db' later →
      later.purged key = true ∧
      ∀ s ∈ later.suites, s.key = key → ∃ t ∈ db'.suites, t.key = key ∧ t.id = s.id) ∧
    ∀ banks, Database.openStore banks (Database.openStore banks db').2 =
      Database.openStore banks db' := by
  have hkeyed := keyed_of_reach h hreach
  refine ⟨?_, ?_, fun banks => Database.openStore_openStore hkeyed banks⟩
  · intro banks key later hbefore hafter hlater
    have hgone := Database.gone_of_tombstoned hkeyed hbefore hafter
    have htomb := tombstoned_of_reach hafter hlater
    refine ⟨htomb.purged, fun s hs hkey => ?_⟩
    obtain ⟨t, ht, htkey, -⟩ := htomb.suites s hs hkey
    exact hgone t ht htkey
  · intro key later hpurged hlater
    have htomb := tombstoned_of_reach hpurged hlater
    exact ⟨htomb.purged, htomb.suites⟩

/-- A database with one suite of the time before capabilities. -/
def legacyDatabase : Database :=
  ⟨[⟨1, "legacy", "Legacy", "", 0, 1, true⟩], 1, [], 0, fun _ => none, fun _ => false,
    false, false, [], [], [], []⟩

/-- A binary without built-in suites. -/
def noBanks : Banks := ⟨[], [], List.nodup_nil⟩

/-- A binary that brings the suite back, with one question. -/
def legacyBanks : Banks :=
  ⟨[], [⟨"legacy", "Legacy", "knowledge", 0, 0,
    [⟨1, ⟨"q1", .rule, some "exact", some "A", none, "basic", some 1, none⟩⟩]⟩],
    List.nodup_singleton _⟩

/-- The suite is purged at the first Open, and the binary that brings it back does not seed it. -/
theorem gone_of_reach_legacy :
    let reopened := (Database.openStore legacyBanks (Database.openStore noBanks legacyDatabase).2).2
    (Database.openStore noBanks legacyDatabase).2.purged "legacy" = true ∧
      reopened.purged "legacy" = true ∧ ∀ s ∈ reopened.suites, s.key ≠ "legacy" := by
  have hkeyed : legacyDatabase.Keyed := by
    constructor <;> simp [legacyDatabase]
  have hreopen : Reachable storeStep (Database.openStore noBanks legacyDatabase).2
      (Database.openStore legacyBanks (Database.openStore noBanks legacyDatabase).2).2 :=
    .tail (a := .openStore legacyBanks) .refl trivial rfl
  have hpurged : (Database.openStore noBanks legacyDatabase).2.purged "legacy" = true := by decide
  exact ⟨hpurged, (gone_of_reach hkeyed .refl).1 noBanks "legacy" _ (by decide) hpurged hreopen⟩

end HubScope
