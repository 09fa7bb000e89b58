import HubScope.Store.Bank

/-!
# Seeding the built-in suites

Seeding is additive: a suite that has received its bank is left as it is. What a suite has
received is read off its generation record or, without one, off the presence of cases, and
neither the seeding of another suite nor a migration takes anything of this back.

## Main definitions

* `Database.Keyed` — the primary and unique keys, and the sequences above them
* `Database.Received` — nothing of a suite's seeding is left to do

## Main results

* `Keyed.seedSuites`, `Keyed.migrate`, `Keyed.openStore` — Open keeps the keys
* `seedSuite_of_received` — seeding a received suite changes nothing
* `received_seedSuites` — once the seeding succeeds, every suite is received
-/

set_option autoImplicit false

namespace HubScope

namespace Database

variable {db db' : Database} {banks : Banks} {S T : SeedSuite} {key : String} {id : ℕ}

/-- The keys of the tables: ids and suite keys are unique, the sequences are above the ids in use,
and a case belongs to a suite the sequence has given out. -/
structure Keyed (db : Database) : Prop where
  suiteIds : (db.suites.map SuiteRow.id).Nodup
  suiteSeq : ∀ s ∈ db.suites, s.id ≤ db.suiteSeq
  suiteKeys : (db.suites.map SuiteRow.key).Nodup
  caseIds : (db.cases.map CaseRow.id).Nodup
  caseSeq : ∀ c ∈ db.cases, c.id ≤ db.caseSeq
  caseSuites : ∀ c ∈ db.cases, c.suiteId ≤ db.suiteSeq
  runIds : (db.runs.map EvalRun.id).Nodup

/-! ### Open keeps the keys -/

/-- Updates of other columns and deletions keep the keys. -/
theorem Keyed.of_sublist (h : db.Keyed)
    (hsuites : List.Sublist (db'.suites.map fun s => (s.id, s.key))
      (db.suites.map fun s => (s.id, s.key)))
    (hsuiteSeq : db'.suiteSeq = db.suiteSeq)
    (hcases : List.Sublist (db'.cases.map fun c => (c.id, c.suiteId))
      (db.cases.map fun c => (c.id, c.suiteId)))
    (hcaseSeq : db'.caseSeq = db.caseSeq)
    (hruns : List.Sublist (db'.runs.map EvalRun.id) (db.runs.map EvalRun.id)) : db'.Keyed := by
  have hsuite : ∀ s ∈ db'.suites, ∃ t ∈ db.suites, t.id = s.id := by
    intro s hs
    have hmem := hsuites.subset (List.mem_map_of_mem hs)
    obtain ⟨t, ht, heq⟩ := List.mem_map.mp hmem
    exact ⟨t, ht, (Prod.ext_iff.mp heq).1⟩
  have hcase : ∀ c ∈ db'.cases, ∃ d ∈ db.cases, d.id = c.id ∧ d.suiteId = c.suiteId := by
    intro c hc
    have hmem := hcases.subset (List.mem_map_of_mem hc)
    obtain ⟨d, hd, heq⟩ := List.mem_map.mp hmem
    exact ⟨d, hd, (Prod.ext_iff.mp heq).1, (Prod.ext_iff.mp heq).2⟩
  constructor
  · simpa [Function.comp_def] using (hsuites.map Prod.fst).nodup
      (by simpa [Function.comp_def] using h.suiteIds)
  · intro s hs
    obtain ⟨t, ht, hid⟩ := hsuite s hs
    rw [← hid, hsuiteSeq]
    exact h.suiteSeq t ht
  · simpa [Function.comp_def] using (hsuites.map Prod.snd).nodup
      (by simpa [Function.comp_def] using h.suiteKeys)
  · simpa [Function.comp_def] using (hcases.map Prod.fst).nodup
      (by simpa [Function.comp_def] using h.caseIds)
  · intro c hc
    obtain ⟨d, hd, hid, -⟩ := hcase c hc
    rw [← hid, hcaseSeq]
    exact h.caseSeq d hd
  · intro c hc
    obtain ⟨d, hd, -, hsuite⟩ := hcase c hc
    rw [← hsuite, hsuiteSeq]
    exact h.caseSuites d hd
  · exact hruns.nodup h.runIds

/-- An update of the suite rows that keeps ids and keys. -/
theorem Keyed.mapSuites {f : SuiteRow → SuiteRow} (h : db.Keyed)
    (hf : ∀ s, ((f s).id, (f s).key) = (s.id, s.key)) : (db.mapSuites f).Keyed := by
  apply h.of_sublist
  · simp [Database.mapSuites, Function.comp_def, hf]
  · rfl
  · exact List.Sublist.refl _
  · rfl
  · exact List.Sublist.refl _

theorem Keyed.setSuiteEnabled (h : db.Keyed) (id : ℕ) (enabled : Bool) :
    (db.setSuiteEnabled id enabled).Keyed :=
  h.mapSuites fun s => by split <;> rfl

theorem Keyed.setKeysEnabled (h : db.Keyed) (keys : List String) (enabled : Bool) :
    (db.setKeysEnabled keys enabled).Keyed :=
  h.mapSuites fun s => by split <;> rfl

theorem Keyed.bumpSuiteVersion (h : db.Keyed) (id : ℕ) : (db.bumpSuiteVersion id).Keyed :=
  h.mapSuites fun s => by split <;> rfl

theorem Keyed.setCasesEnabled (h : db.Keyed) (ids : List ℕ) (enabled : Bool) :
    (db.setCasesEnabled ids enabled).Keyed := by
  apply h.of_sublist
  · exact List.Sublist.refl _
  · rfl
  · have hsame : ∀ c : CaseRow, ((if c.id ∈ ids then { c with enabled := enabled } else c).id,
        (if c.id ∈ ids then { c with enabled := enabled } else c).suiteId) = (c.id, c.suiteId) := by
      intro c
      split <;> rfl
    simp [Database.setCasesEnabled, Function.comp_def, hsame]
  · rfl
  · exact List.Sublist.refl _

theorem Keyed.setCaseEnabled (h : db.Keyed) (id : ℕ) (enabled : Bool) :
    (db.setCaseEnabled id enabled).Keyed := by
  unfold Database.setCaseEnabled
  split
  · exact h
  · exact (h.setCasesEnabled _ _).bumpSuiteVersion _

theorem Keyed.stampRuns (h : db.Keyed) : db.stampRuns.Keyed := by
  apply h.of_sublist
  · exact List.Sublist.refl _
  · rfl
  · exact List.Sublist.refl _
  · rfl
  · have hsame : ∀ run : EvalRun,
        (if run.status = .running then { run with status := .failed } else run).id = run.id := by
      intro run
      split <;> rfl
    simp [Database.stampRuns, Function.comp_def, hsame]

theorem Keyed.insertSuite (h : db.Keyed) (S : SeedSuite) : (db.insertSuite S).Keyed := by
  unfold Database.insertSuite
  split
  · exact h
  next hnew =>
    have hkey : S.key ∉ db.suites.map SuiteRow.key := by
      simpa using hnew
    have hid : db.suiteSeq + 1 ∉ db.suites.map SuiteRow.id := by
      intro hmem
      obtain ⟨s, hs, heq⟩ := List.mem_map.mp hmem
      have hle := h.suiteSeq s hs
      omega
    constructor
    · simpa [List.nodup_append, List.nodup_cons] using ⟨h.suiteIds, by simpa using hid⟩
    · intro s hs
      rcases List.mem_append.mp hs with hs | hs
      · exact Nat.le_succ_of_le (h.suiteSeq s hs)
      · rw [List.mem_singleton.mp hs]
    · simpa [List.nodup_append, List.nodup_cons] using ⟨h.suiteKeys, by simpa using hkey⟩
    · exact h.caseIds
    · exact h.caseSeq
    · intro c hc
      exact Nat.le_succ_of_le (h.caseSuites c hc)
    · exact h.runIds

theorem Keyed.insertCase (h : db.Keyed) {suiteId : ℕ} (hsuite : suiteId ≤ db.suiteSeq)
    (content : CaseContent) : (db.insertCase suiteId content).Keyed := by
  have hid : db.caseSeq + 1 ∉ db.cases.map CaseRow.id := by
    intro hmem
    obtain ⟨c, hc, heq⟩ := List.mem_map.mp hmem
    have hle := h.caseSeq c hc
    omega
  constructor
  · exact h.suiteIds
  · exact h.suiteSeq
  · exact h.suiteKeys
  · simpa [Database.insertCase, List.nodup_append, List.nodup_cons] using
      ⟨h.caseIds, by simpa using hid⟩
  · intro c hc
    rcases List.mem_append.mp hc with hc | hc
    · exact Nat.le_succ_of_le (h.caseSeq c hc)
    · rw [List.mem_singleton.mp hc]
      exact le_refl _
  · intro c hc
    rcases List.mem_append.mp hc with hc | hc
    · exact h.caseSuites c hc
    · rw [List.mem_singleton.mp hc]
      exact hsuite
  · exact h.runIds

/-! ### The suite of a key -/

theorem mem_of_getSuiteByKey {s : SuiteRow} (h : db.getSuiteByKey key = some s) :
    s ∈ db.suites ∧ s.key = key := by
  refine ⟨List.mem_of_find?_eq_some h, ?_⟩
  simpa using List.find?_some h

/-- The suite of a key is the one that has it. -/
theorem Keyed.getSuiteByKey_eq_some {s : SuiteRow} (h : db.Keyed) (hs : s ∈ db.suites) :
    db.getSuiteByKey s.key = some s := by
  cases hfind : db.getSuiteByKey s.key with
  | none =>
    have hnone := List.find?_eq_none.mp hfind s hs
    exact absurd hnone (by simp)
  | some t =>
    obtain ⟨ht, hkey⟩ := mem_of_getSuiteByKey hfind
    rw [List.inj_on_of_nodup_map h.suiteKeys ht hs hkey]

theorem getSuiteByKey_mapSuites {f : SuiteRow → SuiteRow} (hf : ∀ s, (f s).key = s.key) :
    (db.mapSuites f).getSuiteByKey key = (db.getSuiteByKey key).map f := by
  simp only [getSuiteByKey, mapSuites, List.find?_map, Function.comp_def, hf]

/-- Inserting a suite leaves the suites that are there. -/
theorem getSuiteByKey_insertSuite_of_some {s : SuiteRow} (h : db.getSuiteByKey key = some s) :
    (db.insertSuite S).getSuiteByKey key = some s := by
  unfold insertSuite
  split
  · exact h
  · simp only [getSuiteByKey] at h ⊢
    rw [List.find?_append, h, Option.some_or]

/-- Once inserted, a suite is there. -/
theorem exists_getSuiteByKey_insertSuite (db : Database) (S : SeedSuite) :
    ∃ s, (db.insertSuite S).getSuiteByKey S.key = some s := by
  rw [← Option.isSome_iff_exists, getSuiteByKey, List.find?_isSome]
  unfold insertSuite
  split
  next hold => simpa using hold
  · exact ⟨_, List.mem_append_right _ (List.mem_singleton.mpr rfl), by simp⟩

theorem insertSuite_of_some {s : SuiteRow} (h : db.getSuiteByKey S.key = some s) :
    db.insertSuite S = db := by
  have hmem := mem_of_getSuiteByKey h
  have hany : db.suites.any (·.key = S.key) = true := by
    simpa using ⟨s, hmem.1, hmem.2⟩
  rw [insertSuite, if_pos hany]

@[simp] theorem casesOf_insertSuite : (db.insertSuite S).casesOf id = db.casesOf id := by
  unfold insertSuite
  split <;> rfl

@[simp] theorem seedGens_insertSuite : (db.insertSuite S).seedGens = db.seedGens := by
  unfold insertSuite
  split <;> rfl

@[simp] theorem purged_insertSuite : (db.insertSuite S).purged = db.purged := by
  unfold insertSuite
  split <;> rfl

@[simp] theorem runs_insertSuite : (db.insertSuite S).runs = db.runs := by
  unfold insertSuite
  split <;> rfl

/-! ### The writes of a suite's seeding -/

/-- The seeding of a suite makes no write at all, or inserts the suite and fails on its record,
or inserts the suite and makes the writes that are due. -/
@[elab_as_elim]
theorem seedStatements_cases {P : List SeedStatement × Bool → Prop}
    (purged : db.purged S.key = true → P ([], true))
    (unreadable : db.purged S.key = false → db.seedGens S.key = some none →
      P ([.insertSuite S], false))
    (seeded : ∀ suite received, db.purged S.key = false →
      (db.insertSuite S).getSuiteByKey S.key = some suite →
      (db.insertSuite S).seedGeneration S.key suite.id = some received →
      P (.insertSuite S :: seedWrites suite.id S.key (received < S.retireAtGen)
        (S.pending received) (S.record received), true)) :
    P (db.seedStatements S) := by
  unfold seedStatements
  cases hpurged : db.purged S.key with
  | true => exact purged hpurged
  | false =>
    obtain ⟨suite, hsuite⟩ := exists_getSuiteByKey_insertSuite db S
    cases hgen : (db.insertSuite S).seedGeneration S.key suite.id with
    | none =>
      have hrecord : db.seedGens S.key = some none := by
        unfold seedGeneration at hgen
        split at hgen
        next recorded hrec => rw [← seedGens_insertSuite (S := S), hrec, hgen]
        · exact absurd hgen (by simp)
      simpa [hsuite, hgen] using unreadable hpurged hrecord
    | some received => simpa [hsuite, hgen] using seeded suite received hpurged hsuite hgen

/-- What each write keeps, a list of writes keeps. -/
theorem execAll_invariant {P : Database → Prop} {statements : List SeedStatement}
    (hstep : ∀ db, ∀ st ∈ statements, P db → P (SeedStatement.exec db st)) (h : P db) :
    P (db.execAll statements) := by
  induction statements generalizing db with
  | nil => exact h
  | cons st statements ih =>
    apply ih
    · intro db' st' hst'
      exact hstep db' st' (List.mem_cons_of_mem _ hst')
    · exact hstep db st List.mem_cons_self h

theorem mem_seedWrites {st : SeedStatement} {suiteId : ℕ} {retire : Bool}
    {contents : List CaseContent} {record : Option ℤ}
    (h : st ∈ seedWrites suiteId key retire contents record) :
    st = .retireSuite suiteId ∨ (∃ c, st = .insertCase suiteId c) ∨
      ∃ g, st = .setSeedGen key g := by
  rcases List.mem_append.mp h with h | h
  · split at h
    · exact .inl (List.mem_singleton.mp h)
    · exact absurd h List.not_mem_nil
  · rcases List.mem_append.mp h with h | h
    · obtain ⟨c, -, rfl⟩ := List.mem_map.mp h
      exact .inr (.inl ⟨c, rfl⟩)
    · obtain ⟨g, -, rfl⟩ := List.mem_map.mp h
      exact .inr (.inr ⟨g, rfl⟩)

/-- Nothing is written once the generation received covers the bank. -/
theorem seedWrites_eq_nil {received : ℤ} (hretire : S.retireAtGen ≤ received)
    (hcases : ∀ c ∈ S.cases, c.gen ≤ received) :
    seedWrites id S.key (received < S.retireAtGen) (S.pending received) (S.record received) =
      [] := by
  have hpending : S.pending received = [] := by
    simpa [SeedSuite.pending, List.filter_eq_nil_iff] using hcases
  -- the fold over the cases never finds a newer generation
  have hmax : S.maxGen received = received := by
    have hfold : ∀ cases : List SeedCase, (∀ c ∈ cases, c.gen ≤ received) →
        cases.foldl (fun maxGen c => if maxGen < c.gen then c.gen else maxGen) received =
          received := by
      intro cases
      induction cases with
      | nil => simp
      | cons c cases ih =>
        intro hle
        have hc := hle c List.mem_cons_self
        rw [List.foldl_cons, if_neg (by omega)]
        exact ih fun c' hc' => hle c' (List.mem_cons_of_mem _ hc')
    simp only [SeedSuite.maxGen, hfold S.cases hcases]
    omega
  have hnot : ¬ received < S.retireAtGen := by omega
  simp [seedWrites, SeedSuite.record, hpending, hmax, hnot]

/-- The recorded generation covers the bank. -/
theorem le_maxGen (S : SeedSuite) (received : ℤ) : received ≤ S.maxGen received ∧
    S.retireAtGen ≤ S.maxGen received ∧ ∀ c ∈ S.cases, c.gen ≤ S.maxGen received := by
  have hfold : ∀ (cases : List SeedCase) (g : ℤ),
      g ≤ cases.foldl (fun maxGen c => if maxGen < c.gen then c.gen else maxGen) g ∧
      ∀ c ∈ cases,
        c.gen ≤ cases.foldl (fun maxGen c => if maxGen < c.gen then c.gen else maxGen) g := by
    intro cases
    induction cases with
    | nil => simp
    | cons c cases ih =>
      intro g
      rw [List.foldl_cons]
      obtain ⟨hle, hall⟩ := ih (if g < c.gen then c.gen else g)
      -- the fold keeps the larger of what it has and what it meets
      have hmax : g ≤ (if g < c.gen then c.gen else g) ∧
          c.gen ≤ (if g < c.gen then c.gen else g) := by
        split <;> omega
      constructor
      · exact hmax.1.trans hle
      · intro c' hc'
        rcases List.mem_cons.mp hc' with rfl | hc'
        · exact hmax.2.trans hle
        · exact hall c' hc'
  obtain ⟨hle, hall⟩ := hfold S.cases received
  simp only [SeedSuite.maxGen]
  split
  · exact ⟨by omega, le_refl _, fun c hc => (hall c hc).trans (by omega)⟩
  · exact ⟨hle, by omega, hall⟩

/-! ### A received suite -/

/-- Nothing of a suite's seeding is left to do: it is purged, or its row is there and the
generation it has received, when it can be read, covers the bank. -/
def Received (db : Database) (S : SeedSuite) : Prop :=
  db.purged S.key = true ∨ ∃ s, db.getSuiteByKey S.key = some s ∧
    ∀ g, db.seedGeneration S.key s.id = some g → S.retireAtGen ≤ g ∧ ∀ c ∈ S.cases, c.gen ≤ g

/-- The seeding of a key does not fail. -/
def readable (db : Database) (key : String) : Bool :=
  db.purged key || db.seedGens key ≠ some none

theorem seedSuite_fst : (db.seedSuite S).1 = db.readable S.key := by
  unfold seedSuite readable
  refine seedStatements_cases ?_ ?_ ?_
  · intro hpurged
    simp [hpurged]
  · intro hpurged hrecord
    simp [hpurged, hrecord]
  · intro suite received hpurged hsuite hgen
    -- a generation was read, so the record is not one that cannot be
    have hrecord : db.seedGens S.key ≠ some none := by
      intro hnone
      rw [seedGeneration, seedGens_insertSuite, hnone] at hgen
      exact absurd hgen (by simp)
    simp [hpurged, hrecord]

/-- **Seeding a received suite changes nothing.** -/
theorem seedSuite_of_received (h : db.Received S) : (db.seedSuite S).2 = db := by
  unfold seedSuite
  refine seedStatements_cases ?_ ?_ ?_
  · intro _
    rfl
  · intro hpurged _
    obtain hpurged' | ⟨s, hs, -⟩ := h
    · exact absurd hpurged' (by simp [hpurged])
    · exact insertSuite_of_some hs
  · intro suite received hpurged hsuite hgen
    obtain hpurged' | ⟨s, hs, hcovers⟩ := h
    · exact absurd hpurged' (by simp [hpurged])
    · rw [insertSuite_of_some hs] at hsuite hgen
      rw [hs] at hsuite
      cases hsuite
      obtain ⟨hretire, hcases⟩ := hcovers received hgen
      rw [seedWrites_eq_nil hretire hcases]
      exact insertSuite_of_some hs

/-- What a suite has received is not taken back while its row stays, its record stands, and it
does not lose its last case. -/
theorem Received.grow (h : db.Received T)
    (hpurged : db.purged T.key = true → db'.purged T.key = true)
    (hsuite : ∀ s, db.getSuiteByKey T.key = some s →
      ∃ s', db'.getSuiteByKey T.key = some s' ∧ s'.id = s.id)
    (hgens : db'.seedGens T.key = db.seedGens T.key)
    (hcases : ∀ s, db.getSuiteByKey T.key = some s → db.casesOf s.id ≠ [] →
      db'.casesOf s.id ≠ []) : db'.Received T := by
  obtain h | ⟨s, hs, hcovers⟩ := h
  · exact .inl (hpurged h)
  · obtain ⟨s', hs', hid⟩ := hsuite s hs
    refine .inr ⟨s', hs', fun g hg => ?_⟩
    rw [hid] at hg
    unfold seedGeneration at hg hcovers
    rw [hgens] at hg
    split at hg
    next recorded hrec =>
      rw [hrec] at hcovers
      exact hcovers g hg
    next hrec =>
      rw [hrec] at hcovers
      obtain ⟨hretire, hall⟩ := hcovers _ rfl
      -- without a record the generation is 0 or 1, and 1 as soon as there is a case
      have hle : (if db.casesOf s.id = [] then 0 else 1 : ℤ) ≤ g := by
        rw [← Option.some.inj hg]
        by_cases hempty : db.casesOf s.id = []
        · rw [if_pos hempty]
          split <;> omega
        · rw [if_neg hempty, if_neg (hcases s hs hempty)]
      exact ⟨hretire.trans hle, fun c hc => (hall c hc).trans hle⟩

/-- The writes of another suite's seeding leave a received suite received. -/
theorem Received.exec (h : db.Received T) {st : SeedStatement}
    (hst : st ∈ (db'.seedStatements S).1) (hne : T.key ≠ S.key) :
    (SeedStatement.exec db st).Received T := by
  -- one case for each kind of statement; only the case insert and the record touch what is received
  have hcases : st = .insertSuite S ∨ (∃ id, st = .retireSuite id) ∨
      (∃ id c, st = .insertCase id c) ∨ ∃ g, st = .setSeedGen S.key g := by
    revert hst
    refine seedStatements_cases ?_ ?_ ?_
    · intro _ hst
      exact absurd hst List.not_mem_nil
    · intro _ _ hst
      exact .inl (List.mem_singleton.mp hst)
    · intro suite received _ _ _ hst
      rcases List.mem_cons.mp hst with hst | hst
      · exact .inl hst
      · rcases mem_seedWrites hst with hst | ⟨c, hst⟩ | ⟨g, hst⟩
        · exact .inr (.inl ⟨_, hst⟩)
        · exact .inr (.inr (.inl ⟨_, c, hst⟩))
        · exact .inr (.inr (.inr ⟨g, hst⟩))
  obtain rfl | ⟨id, rfl⟩ | ⟨id, c, rfl⟩ | ⟨g, rfl⟩ := hcases
  · apply h.grow
    · simp [SeedStatement.exec]
    · intro s hs
      exact ⟨s, getSuiteByKey_insertSuite_of_some hs, rfl⟩
    · simp [SeedStatement.exec]
    · simp [SeedStatement.exec]
  · apply h.grow
    · exact fun hpurged => hpurged
    · intro s hs
      have hkey : ∀ s : SuiteRow,
          (if s.id = id then { s with enabled := false } else s).key = s.key := by
        intro s
        split <;> rfl
      refine ⟨_, (getSuiteByKey_mapSuites hkey).trans (congrArg _ hs), ?_⟩
      dsimp only
      split <;> rfl
    · rfl
    · exact fun _ _ hne => hne
  · apply h.grow
    · exact fun hpurged => hpurged
    · exact fun s hs => ⟨s, hs, rfl⟩
    · rfl
    · intro s _ hne
      simp only [SeedStatement.exec, casesOf, insertCase, List.filter_append] at hne ⊢
      exact List.append_ne_nil_of_left_ne_nil hne _
  · apply h.grow
    · exact fun hpurged => hpurged
    · exact fun s hs => ⟨s, hs, rfl⟩
    · simp [SeedStatement.exec, setSeedGen, hne]
    · exact fun _ _ hne => hne

theorem Received.seedSuite (h : db.Received T) (hne : T.key ≠ S.key) :
    (db.seedSuite S).2.Received T :=
  execAll_invariant (P := fun db => db.Received T) (fun _ _ hst hdb => hdb.exec hst hne) h

@[simp] theorem execAll_nil : db.execAll [] = db := rfl

@[simp] theorem execAll_cons {st : SeedStatement} {statements : List SeedStatement} :
    db.execAll (st :: statements) = (SeedStatement.exec db st).execAll statements := rfl

theorem execAll_append {statements statements' : List SeedStatement} :
    db.execAll (statements ++ statements') = (db.execAll statements).execAll statements' :=
  List.foldl_append

/-- The record is written last. -/
theorem execAll_seedWrites_some {retire : Bool} {contents : List CaseContent} {g : ℤ} :
    db.execAll (seedWrites id key retire contents (some g)) =
      (db.execAll (seedWrites id key retire contents none)).setSeedGen key g := by
  simp only [seedWrites, execAll_append, Option.toList_some, Option.toList_none, List.map_cons,
    List.map_nil, execAll_cons, execAll_nil, SeedStatement.exec]

/-- The writes leave the row of every suite, with its id. -/
theorem exists_getSuiteByKey_execAll {s : SuiteRow} (h : db.getSuiteByKey key = some s)
    (suiteId : ℕ) (key' : String) (retire : Bool) (contents : List CaseContent)
    (record : Option ℤ) :
    ∃ s', (db.execAll (seedWrites suiteId key' retire contents record)).getSuiteByKey key =
      some s' ∧ s'.id = s.id := by
  apply execAll_invariant (P := fun db => ∃ s', db.getSuiteByKey key = some s' ∧ s'.id = s.id)
  · intro db st hst hdb
    obtain ⟨s', hs', hid⟩ := hdb
    obtain rfl | ⟨c, rfl⟩ | ⟨g, rfl⟩ := mem_seedWrites hst
    · have hkey : ∀ s : SuiteRow,
          (if s.id = suiteId then { s with enabled := false } else s).key = s.key := by
        intro s
        split <;> rfl
      refine ⟨_, (getSuiteByKey_mapSuites hkey).trans (congrArg _ hs'), ?_⟩
      rw [← hid]
      dsimp only
      split <;> rfl
    · exact ⟨s', hs', hid⟩
    · exact ⟨s', hs', hid⟩
  · exact ⟨s, h, rfl⟩

/-- **A seeded suite is received.** -/
theorem received_seedSuite (db : Database) (S : SeedSuite) : (db.seedSuite S).2.Received S := by
  unfold seedSuite
  refine seedStatements_cases ?_ ?_ ?_
  · intro hpurged
    exact .inl hpurged
  · intro _ hrecord
    obtain ⟨s, hs⟩ := exists_getSuiteByKey_insertSuite db S
    refine .inr ⟨s, hs, fun g hg => ?_⟩
    simp only [execAll_cons, execAll_nil, SeedStatement.exec, seedGeneration,
      seedGens_insertSuite, hrecord] at hg
    exact absurd hg (by simp)
  · intro suite received _ hsuite hgen
    obtain ⟨hle, hretire, hcases⟩ := le_maxGen S received
    -- either the new generation is recorded, after all cases, or there was nothing to write
    by_cases hlt : received < S.maxGen received
    · have hrecord : S.record received = some (S.maxGen received) := if_pos hlt
      obtain ⟨s, hs, -⟩ := exists_getSuiteByKey_execAll hsuite suite.id S.key
        (received < S.retireAtGen) (S.pending received) none
      rw [hrecord, execAll_cons, execAll_seedWrites_some]
      refine .inr ⟨s, hs, fun g hg => ?_⟩
      simp only [seedGeneration, setSeedGen, if_true] at hg
      cases hg
      exact ⟨hretire, hcases⟩
    · have heq : S.maxGen received = received := by omega
      rw [heq] at hretire hcases
      rw [seedWrites_eq_nil hretire hcases]
      refine .inr ⟨suite, hsuite, fun g hg => ?_⟩
      simp only [execAll_cons, execAll_nil, SeedStatement.exec, hgen] at hg
      cases hg
      exact ⟨hretire, hcases⟩

/-! ### What seeding leaves alone -/

@[simp] theorem purged_exec (st : SeedStatement) : (SeedStatement.exec db st).purged = db.purged := by
  cases st <;> simp [SeedStatement.exec, setSuiteEnabled, mapSuites, insertCase, setSeedGen]

@[simp] theorem runs_exec (st : SeedStatement) : (SeedStatement.exec db st).runs = db.runs := by
  cases st <;> simp [SeedStatement.exec, setSuiteEnabled, mapSuites, insertCase, setSeedGen]

theorem purged_seedSuite : (db.seedSuite S).2.purged = db.purged :=
  execAll_invariant (P := fun db' => db'.purged = db.purged)
    (fun _ _ _ hdb => (purged_exec _).trans hdb) rfl

theorem runs_seedSuite : (db.seedSuite S).2.runs = db.runs :=
  execAll_invariant (P := fun db' => db'.runs = db.runs)
    (fun _ _ _ hdb => (runs_exec _).trans hdb) rfl

/-- The writes before the record touch no generation record. -/
theorem seedGens_execAll {retire : Bool} {contents : List CaseContent} {suiteId : ℕ} :
    (db.execAll (seedWrites suiteId key retire contents none)).seedGens = db.seedGens := by
  apply execAll_invariant (P := fun db' => db'.seedGens = db.seedGens)
  · intro db' st hst hdb
    obtain rfl | ⟨c, rfl⟩ | ⟨g, rfl⟩ := mem_seedWrites hst
    · exact hdb
    · exact hdb
    · simp [seedWrites] at hst
  · rfl

/-- A key whose seeding does not fail keeps it so. -/
theorem readable_seedSuite : (db.seedSuite S).2.readable key = db.readable key := by
  suffices hgens : (db.seedSuite S).2.seedGens key = db.seedGens key ∨
      (db.seedGens key ≠ some none ∧ (db.seedSuite S).2.seedGens key ≠ some none) by
    unfold readable
    rw [purged_seedSuite]
    obtain heq | ⟨hne, hne'⟩ := hgens
    · rw [heq]
    · simp [hne, hne']
  unfold seedSuite
  refine seedStatements_cases ?_ ?_ ?_
  · intro _
    exact .inl rfl
  · intro _ _
    exact .inl (by simp [SeedStatement.exec])
  · intro suite received _ _ hgen
    have hrecord : db.seedGens S.key ≠ some none := by
      intro hnone
      rw [seedGeneration, seedGens_insertSuite, hnone] at hgen
      exact absurd hgen (by simp)
    cases S.record received with
    | none =>
      left
      rw [execAll_cons, seedGens_execAll]
      simp [SeedStatement.exec]
    | some g =>
      rw [execAll_cons, execAll_seedWrites_some]
      by_cases hkey : key = S.key
      · right
        rw [hkey]
        exact ⟨hrecord, by simp [setSeedGen]⟩
      · left
        simp [setSeedGen, hkey, seedGens_execAll, SeedStatement.exec]

/-- A suite's writes fall on the suite. -/
theorem Keyed.execAll_seedWrites (h : db.Keyed) {suiteId : ℕ} (hid : suiteId ≤ db.suiteSeq)
    {retire : Bool} {contents : List CaseContent} {record : Option ℤ} :
    (db.execAll (seedWrites suiteId key retire contents record)).Keyed := by
  refine (execAll_invariant (P := fun db => db.Keyed ∧ suiteId ≤ db.suiteSeq) ?_ ⟨h, hid⟩).1
  intro db st hst hdb
  obtain rfl | ⟨c, rfl⟩ | ⟨g, rfl⟩ := mem_seedWrites hst
  · exact ⟨hdb.1.setSuiteEnabled _ _, hdb.2⟩
  · exact ⟨hdb.1.insertCase hdb.2 _, hdb.2⟩
  · exact ⟨⟨hdb.1.suiteIds, hdb.1.suiteSeq, hdb.1.suiteKeys, hdb.1.caseIds, hdb.1.caseSeq,
      hdb.1.caseSuites, hdb.1.runIds⟩, hdb.2⟩

theorem Keyed.seedSuite (h : db.Keyed) (S : SeedSuite) : (db.seedSuite S).2.Keyed := by
  unfold Database.seedSuite
  refine seedStatements_cases ?_ ?_ ?_
  · intro _
    exact h
  · intro _ _
    exact h.insertSuite S
  · intro suite received _ hsuite _
    have hkeyed := h.insertSuite S
    exact hkeyed.execAll_seedWrites (hkeyed.suiteSeq suite (mem_of_getSuiteByKey hsuite).1)

/-! ### All suites -/

/-- What the seeding of each suite keeps, the seeding keeps. -/
theorem seedSuites_invariant {P : Database → Prop} {suites : List SeedSuite}
    (hstep : ∀ db, ∀ S ∈ suites, P db → P (db.seedSuite S).2) (h : P db) :
    P (seedSuites suites db).2 := by
  induction suites generalizing db with
  | nil => exact h
  | cons S suites ih =>
    have hfirst := hstep db S List.mem_cons_self h
    rw [seedSuites]
    split
    · exact ih (fun db' T hT => hstep db' T (List.mem_cons_of_mem _ hT)) hfirst
    · exact hfirst

theorem purged_seedSuites {suites : List SeedSuite} :
    (seedSuites suites db).2.purged = db.purged :=
  seedSuites_invariant (P := fun db' => db'.purged = db.purged)
    (fun _ _ _ hdb => purged_seedSuite.trans hdb) rfl

theorem runs_seedSuites {suites : List SeedSuite} : (seedSuites suites db).2.runs = db.runs :=
  seedSuites_invariant (P := fun db' => db'.runs = db.runs)
    (fun _ _ _ hdb => runs_seedSuite.trans hdb) rfl

theorem Keyed.seedSuites (h : db.Keyed) (suites : List SeedSuite) :
    (seedSuites suites db).2.Keyed :=
  seedSuites_invariant (fun _ S _ hdb => hdb.seedSuite S) h

/-- The seeding succeeds just when no key makes it fail. -/
theorem seedSuites_fst {suites : List SeedSuite} :
    (seedSuites suites db).1 = suites.all fun S => db.readable S.key := by
  induction suites generalizing db with
  | nil => rfl
  | cons S suites ih =>
    rw [seedSuites, List.all_cons]
    by_cases hread : db.readable S.key = true
    · rw [if_pos (seedSuite_fst.trans hread), ih, hread, Bool.true_and]
      simp only [readable_seedSuite]
    · rw [if_neg (by rwa [seedSuite_fst]), seedSuite_fst]
      simp only [Bool.not_eq_true] at hread
      rw [hread, Bool.false_and]

theorem Received.seedSuites {suites : List SeedSuite} (h : db.Received T)
    (hne : T.key ∉ suites.map SeedSuite.key) : (seedSuites suites db).2.Received T := by
  refine seedSuites_invariant (P := fun db => db.Received T) ?_ h
  intro db S hS hdb
  apply hdb.seedSuite
  intro heq
  exact hne (heq ▸ List.mem_map_of_mem hS)

/-- **Once the seeding succeeds, every suite is received.** -/
theorem received_seedSuites {suites : List SeedSuite} (hnodup : (suites.map SeedSuite.key).Nodup)
    (hok : (seedSuites suites db).1 = true) :
    ∀ S ∈ suites, (seedSuites suites db).2.Received S := by
  induction suites generalizing db with
  | nil => simp
  | cons S suites ih =>
    rw [List.map_cons, List.nodup_cons] at hnodup
    rw [seedSuites] at hok ⊢
    split at hok
    next hfirst =>
      rw [if_pos hfirst]
      intro T hT
      rcases List.mem_cons.mp hT with rfl | hT
      · exact (received_seedSuite db T).seedSuites hnodup.1
      · exact ih hnodup.2 hok T hT
    next hfirst => exact absurd hok hfirst

/-- **Seeding twice is seeding once**, also where it fails half-way. -/
theorem seedSuites_seedSuites {suites : List SeedSuite}
    (hnodup : (suites.map SeedSuite.key).Nodup) :
    seedSuites suites (seedSuites suites db).2 = seedSuites suites db := by
  induction suites generalizing db with
  | nil => rfl
  | cons S suites ih =>
    rw [List.map_cons, List.nodup_cons] at hnodup
    by_cases hfirst : (db.seedSuite S).1 = true
    · have hcons : seedSuites (S :: suites) db = seedSuites suites (db.seedSuite S).2 :=
        if_pos hfirst
      have hreceived := (received_seedSuite db S).seedSuites hnodup.1
      -- the later suites leave the first one received and readable: seeding it again does nothing
      have hread : ((seedSuites suites (db.seedSuite S).2).2.seedSuite S).1 = true := by
        rw [seedSuite_fst] at hfirst ⊢
        exact seedSuites_invariant (P := fun db => db.readable S.key = true)
          (fun _ _ _ hdb => readable_seedSuite.trans hdb) (readable_seedSuite.trans hfirst)
      rw [hcons, seedSuites, if_pos hread, seedSuite_of_received hreceived]
      exact ih hnodup.2
    · have hcons : seedSuites (S :: suites) db = db.seedSuite S := if_neg hfirst
      -- a record that could not be read stays, and the second seeding stops at it
      have hread : ¬ ((db.seedSuite S).2.seedSuite S).1 = true := by
        rwa [seedSuite_fst, readable_seedSuite, ← seedSuite_fst]
      rw [hcons, seedSuites, if_neg hread]
      apply Prod.ext
      · rw [seedSuite_fst, readable_seedSuite, seedSuite_fst]
      · exact seedSuite_of_received (received_seedSuite db S)

end Database

end HubScope
