import HubScope.Store.Catalogue

/-!
# An interrupted seeding

The seeding commits each of its writes by itself, and what a suite has received is read off its
generation record, which is written last. A process that dies after it has inserted some of a
suite's cases leaves cases without their record: the next Open inserts a bank that is recorded
in part again, and takes a bank of generation 1 that it finds in part for complete.

The suites before the interrupted one are complete and the ones after it untouched, so the two
Opens leave the same catalogue up to the bank of the interrupted suite, and that suite shows
only if it outlives the purge.

## Main definitions

* `CrashPoint` — a point between two writes of the seeding
* `Outlives` — the suite is still there after Open
* `Recovers` — the condition under which the next Open makes up for the crash

## Main results

* `Masks.seedSuites` — the other suites are seeded alike whatever a suite's entry
* `settle_eq_none_iff` — which entries Open drops
* `exists_crashPoint` — every point between two writes is a crash point
* `recovers_iff` — the next Open leaves the same catalogue just when the crash point recovers
* `not_recovers` — a crash that does not
-/

set_option autoImplicit false

namespace HubScope

/-! ### Crash points -/

/-- A point between two writes of the seeding: the suites before are seeded, and `writes` of the
writes of the suite are made. -/
structure CrashPoint (banks : Banks) where
  before : List SeedSuite
  suite : SeedSuite
  after : List SeedSuite
  writes : ℕ
  split : banks.builtinSuites = before ++ suite :: after

namespace CrashPoint

variable {banks : Banks} (p : CrashPoint banks)

/-- The tables when the seeding comes to the suite. -/
def reachedState (db : Database) : Database := (Database.seedSuites p.before db.stampRuns).2

/-- The seeding comes to the suite. -/
def Reached (db : Database) : Prop := (Database.seedSuites p.before db.stampRuns).1 = true

/-- The tables the dead process leaves. -/
def state (db : Database) : Database :=
  (p.reachedState db).execAll (((p.reachedState db).seedStatements p.suite).1.take p.writes)

/-- How many of the suite's cases are inserted before the crash. -/
def inserted (received : ℤ) : ℕ :=
  min (p.writes - (1 + if received < p.suite.retireAtGen then 1 else 0))
    (p.suite.pending received).length

/-- All writes of the suite are made, its record included. -/
def Complete (received : ℤ) : Prop :=
  (1 + if received < p.suite.retireAtGen then 1 else 0) + (p.suite.pending received).length <
    p.writes

end CrashPoint

/-- The entry a suite is seeded into. -/
def Catalogue.seedEntry (cat : Catalogue) (S : SeedSuite) : SuiteEntry :=
  (cat.entries.find? (·.key = S.key)).getD ⟨S.key, S.name, S.capability, S.nadir, 1, true, []⟩

/-- The seeding of a key does not fail. -/
def Catalogue.readable (cat : Catalogue) (key : String) : Bool :=
  cat.purged key || cat.seedGens key ≠ some none

/-- A suite is still there after Open: a record stops the seeding and so the purge, or the suite
is exempt, or it has a capability, is no capability suite of the bank, and is enabled or joins the
rotation at the cutover. -/
def Outlives (banks : Banks) (cat : Catalogue) (S : SeedSuite) (received : ℤ) : Prop :=
  (∃ T ∈ banks.builtinSuites, cat.readable T.key = false) ∨ S.retireAtGen = 1 ∨
    ((cat.seedEntry S).capability ≠ "" ∧ S.key ∉ banks.capabilitySuites.map SeedSuite.key ∧
      ((cat.seedEntry S).enabled = true ∧ S.retireAtGen ≤ received ∨
        cat.benchmarkCutover = false ∧ S.key ∈ banks.benchmarkSuites.map SeedSuite.key))

/-- No case of the suite is inserted before the crash, or all its writes are made, or the suite is
new and the cases inserted with those of a later generation than the first are its bank, or the
suite does not outlive Open. -/
def Recovers {banks : Banks} (p : CrashPoint banks) (cat : Catalogue) : Prop :=
  ∀ received, cat.purged p.suite.key = false → cat.received p.suite.key = some received →
    p.inserted received = 0 ∨ p.Complete received ∨
    (cat.seedGens p.suite.key = none ∧ cat.bankOf p.suite.key = [] ∧
      (p.suite.pending received).take (p.inserted received) ++ p.suite.pending 1 =
        p.suite.pending received) ∨
    ¬ Outlives banks cat p.suite received

/-! ### Entries that Open drops -/

namespace SuiteEntry

variable {banks : Banks} {e e' : SuiteEntry} {cutover trim : Bool}

theorem contents_trimWindow {keep : CaseContent → Bool} (n : ℕ) (bank : List Question) :
    (trimWindow keep n bank).map Question.content = bank.map Question.content := by
  induction bank generalizing n with
  | nil => cases n <;> rfl
  | cons q bank ih =>
    cases n with
    | zero => rfl
    | succ n =>
      rw [trimWindow]
      split
      · rw [List.map_cons, List.map_cons, ih]
      · rw [List.map_cons, List.map_cons, ih]

/-- Trimming switches questions off and counts the version up. -/
theorem trim_spec (e : SuiteEntry) (S : SeedSuite) :
    (e.trim S).key = e.key ∧ (e.trim S).capability = e.capability ∧
      (e.trim S).enabled = e.enabled ∧
      (e.trim S).bank.map Question.content = e.bank.map Question.content := by
  unfold trim
  split
  · exact ⟨rfl, rfl, rfl, rfl⟩
  · exact ⟨rfl, rfl, rfl, contents_trimWindow _ _⟩

theorem trims_spec (suites : List SeedSuite) (e : SuiteEntry) :
    (suites.foldl SuiteEntry.trim e).key = e.key ∧
      (suites.foldl SuiteEntry.trim e).capability = e.capability ∧
      (suites.foldl SuiteEntry.trim e).enabled = e.enabled ∧
      (suites.foldl SuiteEntry.trim e).bank.map Question.content = e.bank.map Question.content := by
  induction suites generalizing e with
  | nil => exact ⟨rfl, rfl, rfl, rfl⟩
  | cons S suites ih =>
    obtain ⟨hkey, hcapability, henabled, hbank⟩ := ih (e.trim S)
    obtain ⟨hkey', hcapability', henabled', hbank'⟩ := trim_spec e S
    exact ⟨hkey.trans hkey', hcapability.trans hcapability', henabled.trans henabled',
      hbank.trans hbank'⟩

theorem setEnabled_spec (keys : List String) (enabled : Bool) (e : SuiteEntry) :
    (e.setEnabled keys enabled).key = e.key ∧
      (e.setEnabled keys enabled).capability = e.capability ∧
      (e.setEnabled keys enabled).enabled = (if e.key ∈ keys then enabled else e.enabled) ∧
      (e.setEnabled keys enabled).bank = e.bank := by
  unfold setEnabled
  split <;> exact ⟨rfl, rfl, rfl, rfl⟩

/-- What the migrations make of an entry. -/
theorem beforePurge_spec (banks : Banks) (cutover trim : Bool) (e : SuiteEntry) :
    (e.beforePurge banks cutover trim).key = e.key ∧
      (e.beforePurge banks cutover trim).capability = e.capability ∧
      (e.beforePurge banks cutover trim).enabled =
        (if e.key ∈ banks.capabilitySuites.map SeedSuite.key then false
        else if cutover = false ∧ e.key ∈ banks.benchmarkSuites.map SeedSuite.key then true
        else e.enabled) ∧
      (e.beforePurge banks cutover trim).bank.map Question.content =
        e.bank.map Question.content := by
  -- enable at the cutover, then trim, then disable: each keeps what the others change
  have henable : ∃ e₁ : SuiteEntry, (if cutover then e
        else e.setEnabled (banks.benchmarkSuites.map SeedSuite.key) true) = e₁ ∧
      e₁.key = e.key ∧ e₁.capability = e.capability ∧
      e₁.enabled = (if cutover = false ∧ e.key ∈ banks.benchmarkSuites.map SeedSuite.key then true
        else e.enabled) ∧ e₁.bank = e.bank := by
    cases cutover with
    | true => exact ⟨e, rfl, rfl, rfl, by simp, rfl⟩
    | false =>
      obtain ⟨hkey, hcapability, henabled, hbank⟩ :=
        setEnabled_spec (banks.benchmarkSuites.map SeedSuite.key) true e
      exact ⟨_, rfl, hkey, hcapability, by simpa using henabled, hbank⟩
  obtain ⟨e₁, he₁, hkey₁, hcapability₁, henabled₁, hbank₁⟩ := henable
  have htrim : ∃ e₂ : SuiteEntry, (if trim then e₁
        else banks.benchmarkSuites.foldl SuiteEntry.trim e₁) = e₂ ∧
      e₂.key = e₁.key ∧ e₂.capability = e₁.capability ∧ e₂.enabled = e₁.enabled ∧
      e₂.bank.map Question.content = e₁.bank.map Question.content := by
    cases trim with
    | true => exact ⟨e₁, rfl, rfl, rfl, rfl, rfl⟩
    | false => exact ⟨_, rfl, trims_spec banks.benchmarkSuites e₁⟩
  obtain ⟨e₂, he₂, hkey₂, hcapability₂, henabled₂, hbank₂⟩ := htrim
  obtain ⟨hkey, hcapability, henabled, hbank⟩ :=
    setEnabled_spec (banks.capabilitySuites.map SeedSuite.key) false e₂
  have hbefore : e.beforePurge banks cutover trim =
      e₂.setEnabled (banks.capabilitySuites.map SeedSuite.key) false := by
    rw [← he₂, ← he₁]
    rfl
  rw [hbefore]
  refine ⟨hkey.trans (hkey₂.trans hkey₁), hcapability.trans (hcapability₂.trans hcapability₁), ?_,
    ?_⟩
  · rw [henabled, henabled₂, henabled₁, hkey₂, hkey₁]
  · rw [hbank, hbank₂, hbank₁]

theorem purge_eq_none_iff : e.purge banks = none ↔
    (e.capability = "" ∨ e.enabled = false) ∧ banks.exempt e.key = false := by
  unfold purge retireLegacy
  by_cases hlegacy : e.capability = "" <;> simp [hlegacy]

/-- **Which entries Open drops**: the ones without an exemption that have no capability, are
capability suites of the bank, or are off and do not join at the cutover. -/
theorem settle_eq_none_iff : e.settle banks cutover trim = none ↔
    (e.capability = "" ∨ e.key ∈ banks.capabilitySuites.map SeedSuite.key ∨
      e.enabled = false ∧
        ¬ (cutover = false ∧ e.key ∈ banks.benchmarkSuites.map SeedSuite.key)) ∧
      banks.exempt e.key = false := by
  obtain ⟨hkey, hcapability, henabled, -⟩ := beforePurge_spec banks cutover trim e
  rw [settle, purge_eq_none_iff, hkey, hcapability, henabled]
  apply and_congr_left
  intro _
  apply or_congr_right
  split
  next hin => simp only [hin, true_or]
  next hout =>
    split
    next hjoin => simp [hjoin, hout]
    next hstay => simp only [hout, hstay, not_false_iff, and_true, false_or]

/-- What Open keeps of an entry has its questions. -/
theorem contents_settle (h : e.settle banks cutover trim = some e') :
    e'.bank.map Question.content = e.bank.map Question.content := by
  obtain ⟨-, -, -, hbank⟩ := beforePurge_spec banks cutover trim e
  unfold settle purge at h
  split at h
  · exact absurd h (by simp)
  · cases h
    rw [← hbank]
    unfold retireLegacy
    split <;> rfl

/-- Open drops an entry whatever its bank. -/
theorem settle_eq_none_congr (hkey : e'.key = e.key) (hcapability : e'.capability = e.capability)
    (henabled : e'.enabled = e.enabled) :
    e'.settle banks cutover trim = none ↔ e.settle banks cutover trim = none := by
  rw [settle_eq_none_iff, settle_eq_none_iff, hkey, hcapability, henabled]

end SuiteEntry

/-! ### The other suites are seeded alike -/

namespace Catalogue

variable {cat cat' : Catalogue} {S T : SeedSuite} {key : String} {f : SuiteEntry → SuiteEntry}

/-- `cat'` is `cat` with the entry of a key updated, and any record of that key. -/
structure Masks (key : String) (f : SuiteEntry → SuiteEntry) (cat cat' : Catalogue) : Prop where
  entries : cat'.entries = (cat.modify key f).entries
  seedGens : ∀ k, k ≠ key → cat'.seedGens k = cat.seedGens k
  purged : cat'.purged = cat.purged

theorem find?_modify {key' : String} (hf : ∀ e, (f e).key = e.key) (hne : key' ≠ key) :
    (cat.modify key f).entries.find? (·.key = key') = cat.entries.find? (·.key = key') := by
  have hsame : ∀ e : SuiteEntry, (if e.key = key then f e else e).key = e.key := by
    intro e
    split
    · exact hf e
    · rfl
  simp only [modify, List.find?_map, Function.comp_def, hsame]
  cases hfind : cat.entries.find? (·.key = key') with
  | none => rfl
  | some e =>
    have hkey : e.key = key' := by simpa using List.find?_some hfind
    rw [Option.map_some, if_neg (hkey ▸ hne)]

theorem insertSuite_modify (hf : ∀ e, (f e).key = e.key) (hne : T.key ≠ key) :
    ((cat.modify key f).insertSuite T).entries = ((cat.insertSuite T).modify key f).entries := by
  have hany : (cat.modify key f).entries.any (·.key = T.key) =
      cat.entries.any (·.key = T.key) := by
    rw [modify, List.any_map]
    congr 1
    funext e
    rw [Function.comp_apply]
    split
    · rw [hf]
    · rfl
  unfold insertSuite
  rw [hany]
  split
  · rfl
  · simp [modify, hne]

theorem modify_comm {g : SuiteEntry → SuiteEntry} (hf : ∀ e, (f e).key = e.key)
    (hg : ∀ e, (g e).key = e.key) (hne : T.key ≠ key) :
    ((cat.modify key f).modify T.key g).entries = ((cat.modify T.key g).modify key f).entries := by
  simp only [modify, List.map_map]
  apply List.map_congr_left
  intro e _
  rw [Function.comp_apply, Function.comp_apply]
  by_cases hkey : e.key = key
  · have hother : e.key ≠ T.key := fun heq => hne (heq.symm.trans hkey)
    rw [if_pos hkey, if_neg hother, if_pos hkey, hf, if_neg hother]
  · by_cases hown : e.key = T.key
    · rw [if_neg hkey, if_pos hown, hg, if_neg hkey]
    · rw [if_neg hkey, if_neg hown, if_neg hkey]

namespace Masks

theorem insertSuite (h : Masks key f cat cat') (hf : ∀ e, (f e).key = e.key)
    (hne : T.key ≠ key) : Masks key f (cat.insertSuite T) (cat'.insertSuite T) := by
  have hentries : (cat'.insertSuite T).entries = ((cat.modify key f).insertSuite T).entries := by
    unfold Catalogue.insertSuite
    rw [h.entries]
    split
    · exact h.entries
    · rfl
  constructor
  · rw [hentries, insertSuite_modify hf hne]
  · intro k hk
    unfold Catalogue.insertSuite
    split <;> split <;> exact h.seedGens k hk
  · unfold Catalogue.insertSuite
    split <;> split <;> exact h.purged

theorem received (h : Masks key f cat cat') (hf : ∀ e, (f e).key = e.key) (hne : T.key ≠ key) :
    cat'.received T.key = cat.received T.key := by
  have hbank : cat'.bankOf T.key = cat.bankOf T.key := by
    rw [bankOf, h.entries, find?_modify hf hne]
    rfl
  rw [Catalogue.received, Catalogue.received, h.seedGens _ hne, hbank]

theorem modify {g : SuiteEntry → SuiteEntry} (h : Masks key f cat cat')
    (hf : ∀ e, (f e).key = e.key) (hg : ∀ e, (g e).key = e.key) (hne : T.key ≠ key) :
    Masks key f (cat.modify T.key g) (cat'.modify T.key g) := by
  constructor
  · rw [← modify_comm hf hg hne]
    simp only [Catalogue.modify, h.entries]
  · exact h.seedGens
  · exact h.purged

theorem setSeedGen (h : Masks key f cat cat') (k : String) (record : Option ℤ) :
    Masks key f (cat.setSeedGen k record) (cat'.setSeedGen k record) := by
  cases record with
  | none => exact h
  | some g =>
    constructor
    · exact h.entries
    · intro k' hk'
      simp only [Catalogue.setSeedGen, h.seedGens k' hk']
    · exact h.purged

/-- **Another suite is seeded alike.** -/
theorem seedSuite (h : Masks key f cat cat') (hf : ∀ e, (f e).key = e.key) (hne : T.key ≠ key) :
    (cat'.seedSuite T).1 = (cat.seedSuite T).1 ∧
      Masks key f (cat.seedSuite T).2 (cat'.seedSuite T).2 := by
  have hinsert := h.insertSuite hf hne
  unfold Catalogue.seedSuite
  rw [h.purged]
  split
  · exact ⟨rfl, h⟩
  · rw [hinsert.received hf hne]
    cases (cat.insertSuite T).received T.key with
    | none => exact ⟨rfl, hinsert⟩
    | some received =>
      have hextend := hinsert.modify (g := SuiteEntry.extend (received < T.retireAtGen)
        (T.pending received)) hf (fun _ => rfl) hne
      exact ⟨rfl, hextend.setSeedGen T.key (T.record received)⟩

/-- **The other suites are seeded alike**, whatever the entry of the key. -/
theorem seedSuites {suites : List SeedSuite} (h : Masks key f cat cat')
    (hf : ∀ e, (f e).key = e.key) (hne : key ∉ suites.map SeedSuite.key) :
    (seedSuites suites cat').1 = (seedSuites suites cat).1 ∧
      Masks key f (seedSuites suites cat).2 (seedSuites suites cat').2 := by
  induction suites generalizing cat cat' with
  | nil => exact ⟨rfl, h⟩
  | cons T suites ih =>
    rw [List.map_cons, List.mem_cons, not_or] at hne
    obtain ⟨hok, hfirst⟩ := h.seedSuite hf (Ne.symm hne.1)
    rw [Catalogue.seedSuites, Catalogue.seedSuites, hok]
    split
    · exact ih hfirst hne.2
    · exact ⟨hok, hfirst⟩

end Masks

theorem seedSuites_append {suites suites' : List SeedSuite}
    (hok : (seedSuites suites cat).1 = true) :
    seedSuites (suites ++ suites') cat = seedSuites suites' (seedSuites suites cat).2 := by
  induction suites generalizing cat with
  | nil => rfl
  | cons T suites ih =>
    rw [seedSuites] at hok
    rw [List.cons_append, seedSuites, seedSuites]
    split at hok
    next hfirst =>
      rw [if_pos hfirst, if_pos hfirst]
      exact ih hok
    next hfirst => exact absurd hok hfirst

/-! ### Seeding leaves the other entries -/

/-- What Open reads of a key. -/
structure SameAt (key : String) (cat cat' : Catalogue) : Prop where
  find : cat'.entries.find? (·.key = key) = cat.entries.find? (·.key = key)
  seedGens : cat'.seedGens key = cat.seedGens key
  purged : cat'.purged key = cat.purged key

theorem SameAt.trans {cat'' : Catalogue} (h : SameAt key cat cat') (h' : SameAt key cat' cat'') :
    SameAt key cat cat'' :=
  ⟨h'.find.trans h.find, h'.seedGens.trans h.seedGens, h'.purged.trans h.purged⟩

theorem SameAt.setSeedGen (h : SameAt key cat cat') (hne : S.key ≠ key) (record : Option ℤ) :
    SameAt key cat (cat'.setSeedGen S.key record) := by
  cases record with
  | none => exact h
  | some g => exact ⟨h.find, (if_neg (Ne.symm hne)).trans h.seedGens, h.purged⟩

theorem sameAt_insertSuite (hne : S.key ≠ key) : SameAt key cat (cat.insertSuite S) := by
  unfold insertSuite
  split
  · exact ⟨rfl, rfl, rfl⟩
  · refine ⟨?_, rfl, rfl⟩
    rw [List.find?_append]
    have hnone : [SuiteEntry.mk S.key S.name S.capability S.nadir 1 true []].find? (·.key = key) =
        none := by
      simp [hne]
    rw [hnone, Option.or_none]

theorem sameAt_seedSuite (hne : S.key ≠ key) : SameAt key cat (cat.seedSuite S).2 := by
  have hinsert : SameAt key cat (cat.insertSuite S) := sameAt_insertSuite hne
  unfold seedSuite
  split
  · exact ⟨rfl, rfl, rfl⟩
  · cases (cat.insertSuite S).received S.key with
    | none => exact hinsert
    | some received =>
      have hextend : SameAt key (cat.insertSuite S) ((cat.insertSuite S).modify S.key
          (SuiteEntry.extend (received < S.retireAtGen) (S.pending received))) :=
        ⟨find?_modify (fun _ => rfl) (Ne.symm hne), rfl, rfl⟩
      exact (hinsert.trans hextend).setSeedGen hne (S.record received)

theorem sameAt_seedSuites {suites : List SeedSuite} (hne : key ∉ suites.map SeedSuite.key) :
    SameAt key cat (seedSuites suites cat).2 := by
  induction suites generalizing cat with
  | nil => exact ⟨rfl, rfl, rfl⟩
  | cons S suites ih =>
    rw [List.map_cons, List.mem_cons, not_or] at hne
    have hfirst : SameAt key cat (cat.seedSuite S).2 := sameAt_seedSuite (Ne.symm hne.1)
    rw [seedSuites]
    split
    · exact hfirst.trans (ih hne.2)
    · exact hfirst

/-- The entry a suite is seeded into is the entry of its key. -/
theorem find?_insertSuite :
    (cat.insertSuite S).entries.find? (·.key = S.key) = some (cat.seedEntry S) := by
  unfold insertSuite seedEntry
  split
  next hold =>
    have hsome : (cat.entries.find? (·.key = S.key)).isSome = true := by
      rw [List.find?_isSome]
      simpa using hold
    obtain ⟨e, he⟩ := Option.isSome_iff_exists.mp hsome
    rw [he]
    rfl
  next hnew =>
    have hnone : cat.entries.find? (·.key = S.key) = none := by
      rw [List.find?_eq_none]
      simpa using hnew
    rw [List.find?_append, hnone]
    simp

theorem find?_modify_self (hf : ∀ e, (f e).key = e.key) :
    (cat.modify key f).entries.find? (·.key = key) =
      (cat.entries.find? (·.key = key)).map f := by
  have hsame : ∀ e : SuiteEntry, (if e.key = key then f e else e).key = e.key := by
    intro e
    split
    · exact hf e
    · rfl
  simp only [modify, List.find?_map, Function.comp_def, hsame]
  cases hfind : cat.entries.find? (·.key = key) with
  | none => rfl
  | some e =>
    have hkey : e.key = key := by simpa using List.find?_some hfind
    rw [Option.map_some, Option.map_some, if_pos hkey]

theorem find?_extend {retire : Bool} {contents : List CaseContent} :
    (cat.modify key (SuiteEntry.extend retire contents)).entries.find? (·.key = key) =
      (cat.entries.find? (·.key = key)).map (SuiteEntry.extend retire contents) :=
  find?_modify_self fun _ => rfl

theorem bankOf_extend {e : SuiteEntry} {retire : Bool} {contents : List CaseContent}
    (h : cat.entries.find? (·.key = key) = some e) :
    (cat.modify key (SuiteEntry.extend retire contents)).bankOf key =
      cat.bankOf key ++ contents.map (⟨·, true⟩) := by
  rw [bankOf, find?_extend, bankOf, h]
  rfl

/-- An inserted suite has an empty bank, so it counts as it did before. -/
theorem bankOf_insertSuite : (cat.insertSuite S).bankOf S.key = cat.bankOf S.key := by
  rw [bankOf, find?_insertSuite, bankOf, seedEntry]
  cases cat.entries.find? (·.key = S.key) <;> rfl

theorem seedGens_insertSuite : (cat.insertSuite S).seedGens = cat.seedGens := by
  unfold insertSuite
  split <;> rfl

theorem received_insertSuite : (cat.insertSuite S).received S.key = cat.received S.key := by
  rw [received, received, bankOf_insertSuite, seedGens_insertSuite]

/-! ### Seeding a suite again -/

/-- What an interrupted seeding leaves of a suite, from `X` on where its row is there. -/
def interrupted (X : Catalogue) (S : SeedSuite) (received : ℤ) (writes : ℕ) : Catalogue :=
  (X.modify S.key (SuiteEntry.extend (received < S.retireAtGen && 0 < writes)
    ((S.pending received).take (writes - if received < S.retireAtGen then 1 else 0)))).setSeedGen
      S.key (if (if received < S.retireAtGen then 1 else 0) + (S.pending received).length < writes
        then S.record received else none)

theorem pending_eq_nil {g : ℤ} (h : ∀ c ∈ S.cases, c.gen ≤ g) : S.pending g = [] := by
  simpa [SeedSuite.pending, List.filter_eq_nil_iff] using h

/-- Seeding an interrupted suite from the generation `g'` on. -/
theorem modify_interrupted {X : Catalogue} {g g' : ℤ} {n : ℕ}
    (hretire : (decide (g < S.retireAtGen) && decide (0 < n) || decide (g' < S.retireAtGen)) =
      decide (g < S.retireAtGen)) :
    ((X.interrupted S g n).modify S.key
      (SuiteEntry.extend (g' < S.retireAtGen) (S.pending g'))).entries =
        (X.modify S.key (SuiteEntry.extend (g < S.retireAtGen)
          ((S.pending g).take (n - if g < S.retireAtGen then 1 else 0) ++
            S.pending g'))).entries := by
  have hgen : ∀ (cat : Catalogue) (record : Option ℤ) (f : SuiteEntry → SuiteEntry),
      ((cat.setSeedGen S.key record).modify S.key f).entries = (cat.modify S.key f).entries := by
    intro cat record f
    cases record <;> rfl
  rw [interrupted, hgen, modify_extend, hretire]

/-- An unfinished seeding leaves the record as it was. -/
theorem received_interrupted {X : Catalogue} {e : SuiteEntry} {g : ℤ} {n : ℕ}
    (hfind : X.entries.find? (·.key = S.key) = some e)
    (hrecord : (if (if g < S.retireAtGen then 1 else 0) + (S.pending g).length < n
      then S.record g else none) = none) :
    (X.interrupted S g n).received S.key = match X.seedGens S.key with
      | some recorded => recorded
      | none => some (if X.bankOf S.key = [] ∧
          (S.pending g).take (n - if g < S.retireAtGen then 1 else 0) = [] then 0 else 1) := by
  rw [interrupted, hrecord]
  show Catalogue.received (X.modify S.key _) S.key = _
  rw [received, bankOf_extend hfind]
  simp only [List.append_eq_nil_iff, List.map_eq_nil_iff]
  rfl

/-- **What the next Open makes of a suite.** It inserts a list of cases where an uninterrupted
Open inserts the pending ones, and the two are the same under the condition. -/
theorem exists_reseeded {X : Catalogue} {e : SuiteEntry} {g : ℤ} {n k : ℕ}
    (hfind : X.entries.find? (·.key = S.key) = some e) (hg : X.received S.key = some g)
    (hk : k = min (n - if g < S.retireAtGen then 1 else 0) (S.pending g).length) :
    ∃ g' contents, (X.interrupted S g n).received S.key = some g' ∧
      ((X.interrupted S g n).modify S.key
        (SuiteEntry.extend (g' < S.retireAtGen) (S.pending g'))).entries =
          (X.modify S.key (SuiteEntry.extend (g < S.retireAtGen) contents)).entries ∧
      (contents = S.pending g ↔ k = 0 ∨
        (if g < S.retireAtGen then 1 else 0) + (S.pending g).length < n ∨
        X.seedGens S.key = none ∧ X.bankOf S.key = [] ∧
          (S.pending g).take k ++ S.pending 1 = S.pending g) := by
  have htake : (S.pending g).take (n - if g < S.retireAtGen then 1 else 0) =
      (S.pending g).take k := by
    rw [hk, List.take_eq_take_iff]
    omega
  obtain ⟨hle, hretire, hcases⟩ := Database.le_maxGen S g
  by_cases hcomplete : (if g < S.retireAtGen then 1 else 0) + (S.pending g).length < n
  · -- every write is made: nothing is left to insert
    have hall : (S.pending g).take k = S.pending g := by
      apply List.take_of_length_le
      omega
    suffices hdone : ∃ m, (X.interrupted S g n).received S.key = some m ∧ S.retireAtGen ≤ m ∧
        ∀ c ∈ S.cases, c.gen ≤ m by
      obtain ⟨m, hm, hretire, hcases⟩ := hdone
      refine ⟨m, S.pending g, hm, ?_, iff_of_true rfl (.inr (.inl hcomplete))⟩
      have hnot : ¬ m < S.retireAtGen := by omega
      rw [modify_interrupted, htake, hall, pending_eq_nil hcases, List.append_nil]
      by_cases hr : g < S.retireAtGen
      · have hpos : 0 < n := by omega
        simp [hr, hnot, hpos]
      · simp [hr, hnot]
    by_cases hlt : g < S.maxGen g
    · refine ⟨S.maxGen g, ?_, hretire, hcases⟩
      have hrecord : S.record g = some (S.maxGen g) := if_pos hlt
      rw [interrupted, if_pos hcomplete, hrecord]
      simp [received, setSeedGen]
    · have heq : S.maxGen g = g := by omega
      rw [heq] at hretire hcases
      refine ⟨g, ?_, hretire, hcases⟩
      have hrecord : S.record g = none := if_neg hlt
      rw [received_interrupted hfind (by rw [if_pos hcomplete, hrecord]),
        pending_eq_nil hcases, ← hg, received]
      cases X.seedGens S.key <;> simp
  · -- the record is as it was
    have hreceived := received_interrupted (n := n) hfind (if_neg hcomplete)
    rw [htake] at hreceived
    have hsame : (decide (g < S.retireAtGen) && decide (0 < n) || decide (g < S.retireAtGen)) =
        decide (g < S.retireAtGen) := by
      cases decide (g < S.retireAtGen) <;> simp
    by_cases hzero : k = 0
    · refine ⟨g, S.pending g, ?_, ?_, iff_of_true rfl (.inl hzero)⟩
      · rw [hreceived, ← hg, received]
        cases X.seedGens S.key <;> simp [hzero]
      · rw [modify_interrupted hsame, htake, hzero, List.take_zero, List.nil_append]
    · have hpos : 0 < k := Nat.pos_of_ne_zero hzero
      have hne : (S.pending g).take k ≠ [] := by
        rw [Ne, List.take_eq_nil_iff, ← List.length_eq_zero_iff]
        omega
      by_cases hfirst : X.seedGens S.key = none ∧ X.bankOf S.key = []
      · -- first contact: the cases found are taken for a complete first generation
        have hzero' : g = 0 := by
          rw [received, hfirst.1, hfirst.2] at hg
          simpa using hg.symm
        refine ⟨1, (S.pending g).take k ++ S.pending 1, ?_, ?_, ?_⟩
        · rw [hreceived, hfirst.1]
          simp [hne]
        · rw [modify_interrupted, htake]
          have hn : 0 < n := by omega
          by_cases hr : (0 : ℤ) < S.retireAtGen
          · simp [hzero', hr, hn]
          · have hr' : ¬ (1 : ℤ) < S.retireAtGen := by omega
            simp [hzero', hr, hr']
        · simp [hzero, hcomplete, hfirst.1, hfirst.2]
      · refine ⟨g, (S.pending g).take k ++ S.pending g, ?_, ?_, ?_⟩
        · rw [hreceived, ← hg, received]
          cases hrec : X.seedGens S.key with
          | some recorded => rfl
          | none =>
            have hbank : X.bankOf S.key ≠ [] := fun hnil => hfirst ⟨hrec, hnil⟩
            simp [hbank]
        · rw [modify_interrupted hsame, htake]
        · constructor
          · intro heq
            have hlen := congrArg List.length heq
            rw [List.length_append] at hlen
            exact absurd (List.length_eq_zero_iff.mp (by omega)) hne
          · rintro (h | h | ⟨hrec, hnil, -⟩)
            · exact absurd h hzero
            · exact absurd h hcomplete
            · exact absurd ⟨hrec, hnil⟩ hfirst

/-- A suite that has an entry is not inserted again. -/
theorem insertSuite_of_find {e : SuiteEntry}
    (h : cat.entries.find? (·.key = S.key) = some e) : cat.insertSuite S = cat := by
  have hmem := List.mem_of_find?_eq_some h
  have hkey := List.find?_some h
  exact if_pos (List.any_eq_true.mpr ⟨e, hmem, hkey⟩)

theorem seedGens_setSeedGen {k : String} (hk : k ≠ key) (record : Option ℤ) :
    (cat.setSeedGen key record).seedGens k = cat.seedGens k := by
  cases record with
  | none => rfl
  | some g => exact if_neg hk

@[simp] theorem purged_setSeedGen (record : Option ℤ) :
    (cat.setSeedGen key record).purged = cat.purged := by
  cases record <;> rfl

@[simp] theorem entries_setSeedGen (record : Option ℤ) :
    (cat.setSeedGen key record).entries = cat.entries := by
  cases record <;> rfl

theorem find?_interrupted {e : SuiteEntry} {g : ℤ} {n : ℕ}
    (h : cat.entries.find? (·.key = S.key) = some e) :
    ∃ e', (cat.interrupted S g n).entries.find? (·.key = S.key) = some e' := by
  rw [interrupted, entries_setSeedGen, find?_extend, h]
  exact ⟨_, rfl⟩

end Catalogue

/-! ### The tables a dead process leaves -/

namespace Database

variable {db : Database} {S T : SeedSuite} {key : String}

/-- A part of a suite's writes is again a list of writes. -/
theorem seedWrites_take {suiteId : ℕ} {retire : Bool} {contents : List CaseContent}
    {record : Option ℤ} (n : ℕ) :
    (seedWrites suiteId key retire contents record).take n =
      seedWrites suiteId key (retire && 0 < n) (contents.take (n - if retire then 1 else 0))
        (if (if retire then 1 else 0) + contents.length < n then record else none) := by
  -- the questions come before the record, which is reached last
  have hrest : ∀ m, (contents.map (SeedStatement.insertCase suiteId) ++
      record.toList.map (SeedStatement.setSeedGen key)).take m =
      (contents.take m).map (SeedStatement.insertCase suiteId) ++
        (if contents.length < m then record else none).toList.map
          (SeedStatement.setSeedGen key) := by
    intro m
    rw [List.take_append, List.map_take, List.length_map]
    congr 1
    by_cases hlt : contents.length < m
    · rw [if_pos hlt]
      apply List.take_of_length_le
      cases record with
      | none => simp
      | some g =>
        simp
        omega
    · have hzero : m - contents.length = 0 := by omega
      rw [if_neg hlt, hzero]
      rfl
  cases retire with
  | false => simpa [seedWrites] using hrest n
  | true =>
    cases n with
    | zero => simp [seedWrites]
    | succ n =>
      have hlt : (1 + contents.length < n + 1) ↔ contents.length < n := by omega
      simpa [seedWrites, hlt] using hrest n

/-- **What a process that dies within a suite's seeding leaves of the catalogue.** -/
theorem catalogue_crash (h : db.Keyed) (S : SeedSuite) (w : ℕ) :
    (db.execAll ((db.seedStatements S).1.take w)).Keyed ∧
    (db.purged S.key = true ∧
        (db.execAll ((db.seedStatements S).1.take w)).catalogue = db.catalogue ∨
      db.purged S.key = false ∧ db.catalogue.received S.key = none ∧
        (db.execAll ((db.seedStatements S).1.take w)).catalogue.insertSuite S =
          db.catalogue.insertSuite S ∨
      ∃ g, db.purged S.key = false ∧ db.catalogue.received S.key = some g ∧
        (db.execAll ((db.seedStatements S).1.take w)).catalogue.insertSuite S =
          (db.catalogue.insertSuite S).interrupted S g (w - 1)) := by
  have hfind : (db.catalogue.insertSuite S).entries.find? (·.key = S.key) = _ :=
    Catalogue.find?_insertSuite
  have hagain := Catalogue.insertSuite_of_find hfind
  -- purged suites get no statements, broken records one, and the others the suite and its bank
  refine seedStatements_cases ?_ ?_ ?_
  · intro hpurged
    rw [List.take_nil]
    exact ⟨h, .inl ⟨hpurged, rfl⟩⟩
  · intro hpurged hrecord
    have hreceived : db.catalogue.received S.key = none := by
      have hgens : db.catalogue.seedGens S.key = some none := hrecord
      rw [Catalogue.received, hgens]
    cases w with
    | zero => exact ⟨h, .inr (.inl ⟨hpurged, hreceived, rfl⟩)⟩
    | succ w =>
      rw [List.take_succ_cons, List.take_nil]
      refine ⟨h.insertSuite S, .inr (.inl ⟨hpurged, hreceived, ?_⟩)⟩
      show (db.insertSuite S).catalogue.insertSuite S = _
      rw [catalogue_insertSuite h, hagain]
  · intro suite received hpurged hsuite hgen
    have hreceived : db.catalogue.received S.key = some received := by
      rw [← Catalogue.received_insertSuite, ← catalogue_insertSuite h, received_catalogue hsuite,
        hgen]
    cases w with
    | zero =>
      refine ⟨h, .inr (.inr ⟨received, hpurged, hreceived, ?_⟩)⟩
      -- nothing was written, which is an interruption before the first question
      have hnothing : (db.catalogue.insertSuite S).interrupted S received 0 =
          db.catalogue.insertSuite S := by
        simp only [Catalogue.interrupted, Nat.not_lt_zero, decide_false, Bool.and_false, if_false,
          Nat.zero_sub, List.take_zero]
        exact Catalogue.modify_extend_nil
      rw [hnothing]
      rfl
    | succ w =>
      have hkeyed := h.insertSuite S
      have hid := hkeyed.suiteSeq suite (mem_of_getSuiteByKey hsuite).1
      rw [List.take_succ_cons, execAll_cons, seedWrites_take]
      refine ⟨hkeyed.execAll_seedWrites hid, .inr (.inr ⟨received, hpurged, hreceived, ?_⟩)⟩
      show ((db.insertSuite S).execAll _).catalogue.insertSuite S = _
      rw [catalogue_execAll hkeyed hsuite, catalogue_insertSuite h]
      obtain ⟨e, he⟩ := Catalogue.find?_interrupted (g := received) (n := w) hfind
      have hsame := Catalogue.insertSuite_of_find he
      simp only [Catalogue.interrupted] at hsame
      simp only [Nat.add_sub_cancel, Catalogue.interrupted, decide_eq_true_eq]
      exact hsame

theorem readable_seedSuites {suites : List SeedSuite} :
    (seedSuites suites db).2.readable key = db.readable key :=
  seedSuites_invariant (P := fun db' => db'.readable key = db.readable key)
    (fun _ _ _ hdb => readable_seedSuite.trans hdb) rfl

theorem readable_insertSuite : (db.insertSuite S).readable key = db.readable key := by
  rw [readable, readable, purged_insertSuite, seedGens_insertSuite]

/-- No write makes the seeding of a key fail. -/
theorem readable_exec {st : SeedStatement} (h : db.readable key = true) :
    (SeedStatement.exec db st).readable key = true := by
  cases st with
  | insertSuite S => exact readable_insertSuite.trans h
  | retireSuite id => exact h
  | insertCase id c => exact h
  | setSeedGen k g =>
    by_cases hkey : key = k
    · simp [readable, SeedStatement.exec, setSeedGen, hkey]
    · simpa [readable, SeedStatement.exec, setSeedGen, hkey] using h

/-- **The suites before the interrupted one stay complete.** -/
theorem seedSuites_crash {suites : List SeedSuite} {start : Database} (w : ℕ)
    (hdb : db = (seedSuites suites start).2) (hok : (seedSuites suites start).1 = true)
    (hnodup : (suites.map SeedSuite.key).Nodup) (hne : S.key ∉ suites.map SeedSuite.key) :
    seedSuites suites (db.execAll ((db.seedStatements S).1.take w)) =
      (true, db.execAll ((db.seedStatements S).1.take w)) := by
  have hreceived : ∀ T ∈ suites, (db.execAll ((db.seedStatements S).1.take w)).Received T := by
    intro T hT
    have hother : T.key ≠ S.key := fun heq => hne (heq ▸ List.mem_map_of_mem hT)
    apply execAll_invariant (P := fun db => db.Received T)
    · intro db' st hst hdb'
      exact hdb'.exec (List.mem_of_mem_take hst) hother
    · rw [hdb]
      exact received_seedSuites hnodup hok T hT
  apply Prod.ext
  · rw [seedSuites_fst, List.all_eq_true] at hok ⊢
    intro T hT
    apply execAll_invariant (P := fun db => db.readable T.key = true)
    · exact fun _ _ _ hdb' => readable_exec hdb'
    · rw [hdb, readable_seedSuites]
      exact hok T hT
  · exact seedSuites_of_received hreceived

end Database

/-! ### Comparing the two Opens -/

/-- What Open makes of the catalogue once the suites are seeded. -/
def Catalogue.finish (banks : Banks) (cutover trim : Bool) (r : Bool × Catalogue) :
    List SuiteEntry :=
  if r.1 then r.2.entries.filterMap (SuiteEntry.settle banks cutover trim) else r.2.entries

/-- Lists that differ in the entry of one key are filtered alike just when the entry is. -/
theorem filterMap_update_iff {l : List SuiteEntry} {key : String} {e : SuiteEntry}
    {f f' : SuiteEntry → SuiteEntry} {h : SuiteEntry → Option SuiteEntry}
    (hnodup : (l.map SuiteEntry.key).Nodup) (hfind : l.find? (·.key = key) = some e) :
    (l.map fun a => if a.key = key then f' a else a).filterMap h =
      (l.map fun a => if a.key = key then f a else a).filterMap h ↔ h (f' e) = h (f e) := by
  induction l with
  | nil => exact absurd hfind (by simp)
  | cons a l ih =>
    rw [List.map_cons, List.nodup_cons] at hnodup
    rw [List.find?_cons] at hfind
    rw [List.map_cons, List.map_cons, List.filterMap_cons, List.filterMap_cons]
    by_cases hkey : a.key = key
    · -- the other entries have other keys
      have hrest : ∀ g : SuiteEntry → SuiteEntry,
          (l.map fun a => if a.key = key then g a else a) = l := by
        intro g
        have hother : ∀ b ∈ l, (if b.key = key then g b else b) = b := by
          intro b hb
          apply if_neg
          rintro rfl
          exact hnodup.1 (hkey ▸ List.mem_map_of_mem hb)
        rw [List.map_congr_left hother, List.map_id']
      have heq : a = e := by simpa [hkey] using hfind
      rw [heq] at hkey ⊢
      rw [hrest, hrest, if_pos hkey, if_pos hkey]
      cases h (f' e) <;> cases h (f e) <;> simp
    · have hfind' : l.find? (·.key = key) = some e := by simpa [hkey] using hfind
      rw [if_neg hkey, if_neg hkey]
      cases h a with
      | none => exact ih hnodup.2 hfind'
      | some b =>
        rw [List.cons_inj_right]
        exact ih hnodup.2 hfind'

/-- Open keeps different banks different. -/
theorem SuiteEntry.settle_extend_eq_iff {banks : Banks} {cutover trim retire : Bool}
    {e : SuiteEntry} {contents contents' : List CaseContent} :
    (e.extend retire contents').settle banks cutover trim =
        (e.extend retire contents).settle banks cutover trim ↔
      contents' = contents ∨ (e.extend retire contents).settle banks cutover trim = none := by
  have hnone : (e.extend retire contents').settle banks cutover trim = none ↔
      (e.extend retire contents).settle banks cutover trim = none :=
    settle_eq_none_congr rfl rfl rfl
  constructor
  · intro heq
    cases hsettle : (e.extend retire contents).settle banks cutover trim with
    | none => exact .inr rfl
    | some kept =>
      rw [hsettle] at heq
      have hcontents := (contents_settle heq).symm.trans (contents_settle hsettle)
      simp only [extend, List.map_append, List.map_map, List.append_cancel_left_eq] at hcontents
      left
      simpa [Function.comp_def] using hcontents
  · rintro (rfl | hdropped)
    · rfl
    · rw [hdropped, hnone.mpr hdropped]

theorem exempt_iff {banks : Banks} {S : SeedSuite} (hS : S ∈ banks.builtinSuites) :
    banks.exempt S.key = true ↔ S.retireAtGen = 1 := by
  rw [Banks.exempt, List.any_eq_true]
  constructor
  · rintro ⟨T, hT, hexempt⟩
    obtain ⟨hretire, hkey⟩ := of_decide_eq_true hexempt
    have heq : T = S := List.inj_on_of_nodup_map banks.keys_nodup hT hS hkey
    rwa [heq] at hretire
  · intro hretire
    exact ⟨S, hS, decide_eq_true ⟨hretire, rfl⟩⟩

theorem Catalogue.key_seedEntry (cat : Catalogue) (S : SeedSuite) :
    (cat.seedEntry S).key = S.key := by
  have hfind : (cat.insertSuite S).entries.find? (·.key = S.key) = some (cat.seedEntry S) :=
    Catalogue.find?_insertSuite
  simpa using List.find?_some hfind

/-- When nothing stops the seeding, the suites that do not outlive Open are the dropped ones. -/
theorem settle_seedEntry_iff {banks : Banks} {cat : Catalogue} {S : SeedSuite} {received : ℤ}
    {trim : Bool} {contents : List CaseContent} (hS : S ∈ banks.builtinSuites)
    (hread : ∀ T ∈ banks.builtinSuites, cat.readable T.key = true) :
    ((cat.seedEntry S).extend (received < S.retireAtGen) contents).settle banks
        cat.benchmarkCutover trim = none ↔ ¬ Outlives banks cat S received := by
  have hnone : ¬ ∃ T ∈ banks.builtinSuites, cat.readable T.key = false := by
    rintro ⟨T, hT, hfalse⟩
    exact absurd (hread T hT) (by simp [hfalse])
  have hexempt : banks.exempt S.key = false ↔ ¬ S.retireAtGen = 1 := by
    rw [← exempt_iff hS, Bool.not_eq_true]
  have henabled : ((cat.seedEntry S).enabled && !decide (received < S.retireAtGen)) = false ↔
      ¬ ((cat.seedEntry S).enabled = true ∧ S.retireAtGen ≤ received) := by
    rw [Bool.and_eq_false_iff, ← Int.not_lt]
    cases (cat.seedEntry S).enabled <;> simp
  rw [SuiteEntry.settle_eq_none_iff]
  show ((cat.seedEntry S).capability = "" ∨ (cat.seedEntry S).key ∈ _ ∨
    ((cat.seedEntry S).enabled && !decide (received < S.retireAtGen)) = false ∧
      ¬ (_ ∧ (cat.seedEntry S).key ∈ _)) ∧ banks.exempt (cat.seedEntry S).key = false ↔ _
  rw [Catalogue.key_seedEntry, hexempt, henabled, Outlives, or_iff_right hnone]
  simp only [not_or, not_and_or, not_not, ne_eq]
  exact and_comm

/-- The next Open leaves the suites and cases an uninterrupted one would have left. -/
def SameBanks (banks : Banks) (p : CrashPoint banks) (db : Database) : Prop :=
  (Database.openStore banks (p.state db)).2.entries = (Database.openStore banks db).2.entries

section CrashPoint

variable {banks : Banks} {p : CrashPoint banks} {db : Database}

theorem CrashPoint.suite_mem (p : CrashPoint banks) : p.suite ∈ banks.builtinSuites := by
  rw [p.split]
  exact List.mem_append_right _ List.mem_cons_self

/-- The keys of the other suites are other keys. -/
theorem CrashPoint.keys (p : CrashPoint banks) :
    (p.before.map SeedSuite.key).Nodup ∧ p.suite.key ∉ p.before.map SeedSuite.key ∧
      p.suite.key ∉ p.after.map SeedSuite.key := by
  have hnodup := banks.keys_nodup
  have hsplit : banks.capabilitySuites ++ banks.benchmarkSuites = p.before ++ p.suite :: p.after :=
    p.split
  rw [hsplit, List.map_append, List.map_cons, List.nodup_append, List.nodup_cons] at hnodup
  obtain ⟨hbefore, ⟨hafter, -⟩, hdisjoint⟩ := hnodup
  refine ⟨hbefore, ?_, hafter⟩
  intro hmem
  exact hdisjoint _ hmem _ List.mem_cons_self rfl

/-- Open from where the seeding comes to the suite. -/
theorem openStore_resume {cat cat' : Catalogue}
    (h : Catalogue.seedSuites p.before cat = (true, cat')) :
    cat.openStore banks = Catalogue.finish banks cat.benchmarkCutover cat.benchmarkTrim
      (Catalogue.seedSuites (p.suite :: p.after) cat') := by
  have hok : (Catalogue.seedSuites p.before cat).1 = true := by rw [h]
  have happend : Catalogue.seedSuites (p.before ++ p.suite :: p.after) cat = _ :=
    Catalogue.seedSuites_append hok
  rw [← p.split, h] at happend
  rw [Catalogue.openStore, happend]
  rfl

/-- Where the seeding comes to the suite, all before is as it was at the start. -/
theorem CrashPoint.reachedState_spec (h : db.Keyed) (hreached : p.Reached db) :
    (p.reachedState db).Keyed ∧
      Catalogue.seedSuites p.before db.catalogue = (true, (p.reachedState db).catalogue) ∧
      Catalogue.SameAt p.suite.key db.catalogue (p.reachedState db).catalogue := by
  have hseed := Database.catalogue_seedSuites h.stampRuns p.before
  have hstamp : db.stampRuns.catalogue = db.catalogue := rfl
  rw [hstamp, hreached] at hseed
  have hsame : Catalogue.SameAt p.suite.key db.catalogue _ :=
    Catalogue.sameAt_seedSuites p.keys.2.1
  rw [hseed] at hsame
  exact ⟨h.stampRuns.seedSuites p.before, hseed, hsame⟩

/-- The process that dies leaves the settings it started with. -/
theorem CrashPoint.resume (h : db.Keyed) (hreached : p.Reached db) :
    Catalogue.seedSuites p.before (p.state db).catalogue = (true, (p.state db).catalogue) ∧
      (p.state db).benchmarkCutover = db.benchmarkCutover ∧
      (p.state db).benchmarkTrim = db.benchmarkTrim ∧ (p.state db).purged = db.purged := by
  obtain ⟨hkeyed, -, -⟩ := p.reachedState_spec h hreached
  have hcrash : (p.state db).Keyed := (Database.catalogue_crash hkeyed p.suite p.writes).1
  have hseed := Database.catalogue_seedSuites hcrash p.before
  have hagain : Database.seedSuites p.before (p.state db) = (true, p.state db) :=
    Database.seedSuites_crash p.writes rfl hreached p.keys.1 p.keys.2.1
  have hcutover : (p.reachedState db).benchmarkCutover = db.benchmarkCutover ∧
      (p.reachedState db).benchmarkTrim = db.benchmarkTrim := Database.flags_seedSuites p.before
  have hpurged : (p.reachedState db).purged = db.purged := Database.purged_seedSuites
  have hflags : (p.state db).benchmarkCutover = (p.reachedState db).benchmarkCutover ∧ _ :=
    Database.flags_execAll _
  refine ⟨?_, hflags.1.trans hcutover.1, hflags.2.trans hcutover.2, ?_⟩
  · rwa [hagain] at hseed
  · rw [← hpurged]
    exact Database.execAll_invariant (P := fun db' => db'.purged = (p.reachedState db).purged)
      (fun _ _ _ hdb => (Database.purged_exec _).trans hdb) rfl

/-- The seeding of a suite whose generation cannot be read. -/
theorem seedSuites_cons_of_unreadable {cat : Catalogue} {S : SeedSuite} {suites : List SeedSuite}
    (hpurged : cat.purged S.key = false) (hreceived : (cat.insertSuite S).received S.key = none) :
    Catalogue.seedSuites (S :: suites) cat = (false, cat.insertSuite S) := by
  have hfirst : cat.seedSuite S = (false, cat.insertSuite S) := by
    rw [Catalogue.seedSuite, if_neg (by simp [hpurged]), hreceived]
  rw [Catalogue.seedSuites, hfirst, if_neg (by simp)]

/-- The seeding of a suite whose generation can be read. -/
theorem seedSuites_cons_of_received {cat : Catalogue} {S : SeedSuite} {suites : List SeedSuite}
    {received : ℤ} (hpurged : cat.purged S.key = false)
    (hreceived : (cat.insertSuite S).received S.key = some received) :
    Catalogue.seedSuites (S :: suites) cat =
      Catalogue.seedSuites suites (((cat.insertSuite S).modify S.key
        (SuiteEntry.extend (received < S.retireAtGen) (S.pending received))).setSeedGen S.key
          (S.record received)) := by
  have hfirst : cat.seedSuite S = (true, ((cat.insertSuite S).modify S.key
      (SuiteEntry.extend (received < S.retireAtGen) (S.pending received))).setSeedGen S.key
        (S.record received)) := by
    rw [Catalogue.seedSuite, if_neg (by simp [hpurged]), hreceived]
  rw [Catalogue.seedSuites, hfirst, if_pos rfl]

theorem masks_of_entries {cat X : Catalogue} {S : SeedSuite} {f : SuiteEntry → SuiteEntry}
    (hentries : cat.entries = (X.modify S.key f).entries)
    (hgens : ∀ k, k ≠ S.key → cat.seedGens k = X.seedGens k) (hpurged : cat.purged = X.purged)
    (record : Option ℤ) : Catalogue.Masks S.key f X (cat.setSeedGen S.key record) :=
  ⟨(Catalogue.entries_setSeedGen record).trans hentries,
    fun k hk => (Catalogue.seedGens_setSeedGen hk record).trans (hgens k hk),
    (Catalogue.purged_setSeedGen record).trans hpurged⟩

/-- The two Opens differ in one entry, and show it just when they keep it. -/
theorem finish_iff {X C D : Catalogue} {retire cutover trim : Bool} {e : SuiteEntry}
    {contents contents' : List CaseContent} {suites : List SeedSuite} {key : String}
    (hnodup : ((Catalogue.seedSuites suites X).2.entries.map SuiteEntry.key).Nodup)
    (hfind : X.entries.find? (·.key = key) = some e) (hkey : key ∉ suites.map SeedSuite.key)
    (hC : Catalogue.Masks key (SuiteEntry.extend retire contents) X C)
    (hD : Catalogue.Masks key (SuiteEntry.extend retire contents') X D) :
    Catalogue.finish banks cutover trim (Catalogue.seedSuites suites D) =
        Catalogue.finish banks cutover trim (Catalogue.seedSuites suites C) ↔
      contents' = contents ∨ ((Catalogue.seedSuites suites X).1 = true ∧
        (e.extend retire contents).settle banks cutover trim = none) := by
  obtain ⟨(hokC : (Catalogue.seedSuites suites C).1 = _), hmaskC⟩ :=
    hC.seedSuites (fun _ => rfl) hkey
  obtain ⟨(hokD : (Catalogue.seedSuites suites D).1 = _), hmaskD⟩ :=
    hD.seedSuites (fun _ => rfl) hkey
  have hsame : Catalogue.SameAt key X (Catalogue.seedSuites suites X).2 :=
    Catalogue.sameAt_seedSuites hkey
  have hfind' := hsame.find.trans hfind
  rw [Catalogue.finish, Catalogue.finish, hokC, hokD, hmaskC.entries, hmaskD.entries]
  by_cases hok : (Catalogue.seedSuites suites X).1 = true
  · rw [if_pos hok, if_pos hok, Catalogue.modify, Catalogue.modify,
      filterMap_update_iff hnodup hfind', SuiteEntry.settle_extend_eq_iff]
    simp only [hok, true_and]
  · rw [if_neg hok, if_neg hok, Catalogue.modify, Catalogue.modify]
    have hupdate : (List.map _ _).filterMap some = (List.map _ _).filterMap some ↔
        some (SuiteEntry.extend retire contents' e) = some (SuiteEntry.extend retire contents e) :=
      filterMap_update_iff hnodup hfind'
    simp only [List.filterMap_some] at hupdate
    rw [hupdate, Option.some.injEq]
    simp only [hok, Bool.false_eq_true, false_and, or_false]
    constructor
    · intro heq
      have hbank := congrArg SuiteEntry.bank heq
      simp only [SuiteEntry.extend, List.append_cancel_left_eq] at hbank
      have hcontents := congrArg (List.map Question.content) hbank
      simpa [Function.comp_def] using hcontents
    · rintro rfl
      rfl

/-- The seeding of the suites after succeeds just when no key of the banks makes it fail. -/
theorem seedSuites_after_iff (h : db.Keyed) (hreached : p.Reached db) {g : ℤ}
    (hg : db.catalogue.received p.suite.key = some g) :
    (Catalogue.seedSuites p.after
        ((p.reachedState db).catalogue.insertSuite p.suite)).1 = true ↔
      ∀ T ∈ banks.builtinSuites, db.catalogue.readable T.key = true := by
  obtain ⟨hkeyed, -, -⟩ := p.reachedState_spec h hreached
  have hread : ∀ key, ((p.reachedState db).insertSuite p.suite).readable key = db.readable key :=
    fun key => Database.readable_insertSuite.trans Database.readable_seedSuites
  rw [← Database.catalogue_insertSuite hkeyed,
    Database.catalogue_seedSuites (hkeyed.insertSuite p.suite), Database.seedSuites_fst,
    List.all_eq_true]
  have hbefore : ∀ T ∈ p.before, db.readable T.key = true := by
    have hall := hreached
    rw [CrashPoint.Reached, Database.seedSuites_fst, List.all_eq_true] at hall
    exact hall
  have hsuite : db.readable p.suite.key = true := by
    have hrecord : db.seedGens p.suite.key ≠ some none := by
      intro hnone
      have hgens : db.catalogue.seedGens p.suite.key = some none := hnone
      rw [Catalogue.received, hgens] at hg
      exact absurd hg (by simp)
    simp [Database.readable, hrecord]
  constructor
  · intro hafter T hT
    rw [p.split, List.mem_append, List.mem_cons] at hT
    rcases hT with hT | rfl | hT
    · exact hbefore T hT
    · exact hsuite
    · exact (hread T.key).symm.trans (hafter T hT)
  · intro hall T hT
    have hmem : T ∈ banks.builtinSuites := by
      rw [p.split]
      exact List.mem_append_right _ (List.mem_cons_of_mem _ hT)
    exact (hread T.key).trans (hall T hmem)

/-- Neither the seeding before the suite nor the crash touches a tombstone. -/
theorem CrashPoint.purged_state (h : db.Keyed) (hreached : p.Reached db) :
    (p.state db).catalogue.purged p.suite.key = (p.reachedState db).catalogue.purged p.suite.key := by
  obtain ⟨-, -, hsame⟩ := p.reachedState_spec h hreached
  obtain ⟨-, -, -, hpurges⟩ := p.resume h hreached
  have hpurged : (p.reachedState db).catalogue.purged p.suite.key = db.purged p.suite.key :=
    hsame.purged
  rw [hpurged]
  exact congrFun hpurges _

/-- Where the seeding comes to the suite, its generation is as it was at the start. -/
theorem CrashPoint.received_reachedState (h : db.Keyed) (hreached : p.Reached db) :
    db.catalogue.received p.suite.key = (p.reachedState db).catalogue.received p.suite.key := by
  obtain ⟨-, -, hsame⟩ := p.reachedState_spec h hreached
  rw [Catalogue.received, Catalogue.received, hsame.seedGens, Catalogue.bankOf, Catalogue.bankOf,
    hsame.find]

theorem CrashPoint.nodup_keys_after (h : db.Keyed) (hreached : p.Reached db) :
    ((Catalogue.seedSuites p.after
      ((p.reachedState db).catalogue.insertSuite p.suite)).2.entries.map SuiteEntry.key).Nodup := by
  obtain ⟨hkeyed, -, -⟩ := p.reachedState_spec h hreached
  rw [← Database.catalogue_insertSuite hkeyed,
    Database.catalogue_seedSuites (hkeyed.insertSuite p.suite)]
  have hkeys := ((hkeyed.insertSuite p.suite).seedSuites p.after).suiteKeys
  simpa [Database.catalogue, Database.entries, Function.comp_def, Database.entry,
    Database.entryWith] using hkeys

/-- What the purge drops is what does not outlive Open. -/
theorem CrashPoint.dropped_iff (h : db.Keyed) (hreached : p.Reached db) {g : ℤ}
    (hg : db.catalogue.received p.suite.key = some g) :
    ((Catalogue.seedSuites p.after
        ((p.reachedState db).catalogue.insertSuite p.suite)).1 = true ∧
      (((p.reachedState db).catalogue.seedEntry p.suite).extend (g < p.suite.retireAtGen)
        (p.suite.pending g)).settle banks db.catalogue.benchmarkCutover
          db.catalogue.benchmarkTrim = none) ↔
      ¬ Outlives banks db.catalogue p.suite g := by
  obtain ⟨-, -, hsame⟩ := p.reachedState_spec h hreached
  have hentry : (p.reachedState db).catalogue.seedEntry p.suite =
      db.catalogue.seedEntry p.suite := by
    rw [Catalogue.seedEntry, Catalogue.seedEntry, hsame.find]
  rw [seedSuites_after_iff h hreached hg, hentry]
  by_cases hread : ∀ T ∈ banks.builtinSuites, db.catalogue.readable T.key = true
  · rw [settle_seedEntry_iff p.suite_mem hread]
    exact and_iff_right hread
  · have hfails : ∃ T ∈ banks.builtinSuites, db.catalogue.readable T.key = false := by
      simpa using hread
    simp only [hread, false_and, false_iff, not_not]
    exact .inl hfails

/-- **The next Open makes up for a crash exactly at the points that recover.** -/
theorem recovers_iff (h : db.Keyed) (hreached : p.Reached db) :
    SameBanks banks p db ↔ Recovers p db.catalogue := by
  obtain ⟨hkeyed, hseed, hsame⟩ := p.reachedState_spec h hreached
  obtain ⟨hresume, hcutover, htrim, -⟩ := p.resume h hreached
  obtain ⟨hcrashed, hcases⟩ := Database.catalogue_crash hkeyed p.suite p.writes
  change (p.state db).Keyed at hcrashed
  have hstate := p.purged_state h hreached
  have hpurged : db.catalogue.purged p.suite.key = (p.reachedState db).catalogue.purged p.suite.key :=
    hsame.purged.symm
  have hreceived := p.received_reachedState h hreached
  have hflags : (p.state db).catalogue.benchmarkCutover = db.catalogue.benchmarkCutover ∧
      (p.state db).catalogue.benchmarkTrim = db.catalogue.benchmarkTrim := ⟨hcutover, htrim⟩
  rw [SameBanks, Database.entries_openStore h, Database.entries_openStore hcrashed,
    openStore_resume hseed, openStore_resume hresume, hflags.1, hflags.2]
  obtain ⟨hdead, hleft⟩ | ⟨halive, hunreadable, hleft⟩ | ⟨g, halive, hg, hleft⟩ := hcases
  · -- a tombstoned suite is skipped
    refine iff_of_true (congrArg _ (congrArg _ hleft)) fun received halive _ => ?_
    rw [hpurged] at halive
    exact absurd (hdead.symm.trans halive) (by simp)
  · -- the seeding fails at the suite, whether its row is there or not
    have hunreadable' := hunreadable
    rw [← Catalogue.received_insertSuite] at hunreadable'
    change (p.state db).catalogue.insertSuite p.suite = _ at hleft
    rw [seedSuites_cons_of_unreadable halive hunreadable',
      seedSuites_cons_of_unreadable (hstate.trans halive) (by rw [hleft, hunreadable']), hleft]
    refine iff_of_true rfl fun received _ hsome => ?_
    rw [hreceived, hunreadable] at hsome
    exact absurd hsome (by simp)
  · -- both Opens seed the suite from the same row, with different cases in it
    have hfind : ((p.reachedState db).catalogue.insertSuite p.suite).entries.find?
        (·.key = p.suite.key) = some ((p.reachedState db).catalogue.seedEntry p.suite) :=
      Catalogue.find?_insertSuite
    have hg' := hg
    rw [← Catalogue.received_insertSuite] at hg'
    have hinserted : p.inserted g = min (p.writes - 1 - if g < p.suite.retireAtGen then 1 else 0)
        (p.suite.pending g).length := by
      rw [CrashPoint.inserted, Nat.sub_sub]
    obtain ⟨g', contents, hreseeded, hentries, hcontents⟩ :=
      Catalogue.exists_reseeded hfind hg' hinserted
    change (p.state db).catalogue.insertSuite p.suite = _ at hleft
    rw [← hleft] at hreseeded hentries
    rw [seedSuites_cons_of_received halive hg',
      seedSuites_cons_of_received (hstate.trans halive) hreseeded]
    have hgens : ∀ k, k ≠ p.suite.key → ((p.state db).catalogue.insertSuite p.suite).seedGens k =
        ((p.reachedState db).catalogue.insertSuite p.suite).seedGens k := by
      intro k hk
      rw [hleft]
      exact Catalogue.seedGens_setSeedGen hk _
    have hpurged' : ((p.state db).catalogue.insertSuite p.suite).purged =
        ((p.reachedState db).catalogue.insertSuite p.suite).purged := by
      rw [hleft]
      exact Catalogue.purged_setSeedGen _
    rw [finish_iff (p.nodup_keys_after h hreached) hfind p.keys.2.2
      (masks_of_entries rfl (fun _ _ => rfl) rfl _) (masks_of_entries hentries hgens hpurged' _)]
    have hgdb : db.catalogue.received p.suite.key = some g := hreceived.trans hg
    have hcomplete : p.Complete g ↔
        (if g < p.suite.retireAtGen then 1 else 0) + (p.suite.pending g).length < p.writes - 1 := by
      rw [CrashPoint.Complete]
      omega
    rw [p.dropped_iff h hreached hgdb, hcontents, Catalogue.seedGens_insertSuite,
      Catalogue.bankOf_insertSuite, hsame.seedGens, Catalogue.bankOf, hsame.find,
      ← Catalogue.bankOf, ← hcomplete]
    constructor
    · intro hcond received _ hsome
      rw [hgdb] at hsome
      cases hsome
      simpa only [or_assoc] using hcond
    · intro hrecovers
      have hcond := hrecovers g (hpurged.trans halive) hgdb
      simpa only [or_assoc] using hcond

end CrashPoint

/-! ### Every point is a crash point -/

/-- The writes of the seeding, in order. -/
def Database.seedTrace : List SeedSuite → Database → List SeedStatement
  | [], _ => []
  | S :: suites, db =>
    (db.seedStatements S).1 ++
      if (db.seedSuite S).1 then seedTrace suites (db.seedSuite S).2 else []

theorem Database.execAll_seedTrace (suites : List SeedSuite) (db : Database) :
    db.execAll (Database.seedTrace suites db) = (Database.seedSuites suites db).2 := by
  induction suites generalizing db with
  | nil => rfl
  | cons S suites ih =>
    rw [Database.seedTrace, Database.execAll_append, Database.seedSuites]
    split
    · exact ih (db.seedSuite S).2
    · rfl

theorem Database.seedSuites_concat {suites : List SeedSuite} {db : Database} {S : SeedSuite}
    (hok : (Database.seedSuites suites db).1 = true) :
    Database.seedSuites (suites ++ [S]) db = (Database.seedSuites suites db).2.seedSuite S := by
  induction suites generalizing db with
  | nil =>
    show (if (db.seedSuite S).1 then (true, (db.seedSuite S).2) else db.seedSuite S) = _
    split
    next hfirst => exact Prod.ext hfirst.symm rfl
    · rfl
  | cons T suites ih =>
    rw [Database.seedSuites] at hok
    rw [List.cons_append, Database.seedSuites, Database.seedSuites]
    split at hok
    next hfirst =>
      rw [if_pos hfirst, if_pos hfirst]
      exact ih hok
    next hfirst => exact absurd hok hfirst

/-- What is executed when the seeding has come to some suite is a crash point. -/
theorem exists_crashPoint_of_split {banks : Banks} {db : Database} {n : ℕ}
    (before suites : List SeedSuite) (hsplit : banks.builtinSuites = before ++ suites)
    (hok : (Database.seedSuites before db.stampRuns).1 = true)
    (hn : n < (Database.seedTrace suites (Database.seedSuites before db.stampRuns).2).length) :
    ∃ p : CrashPoint banks, p.Reached db ∧
      p.state db = (Database.seedSuites before db.stampRuns).2.execAll
        ((Database.seedTrace suites (Database.seedSuites before db.stampRuns).2).take n) := by
  induction suites generalizing before n with
  | nil => exact absurd hn (Nat.not_lt_zero n)
  | cons S suites ih =>
    rw [Database.seedTrace] at hn ⊢
    set seeded := (Database.seedSuites before db.stampRuns).2 with hseeded
    by_cases hwithin : n ≤ (seeded.seedStatements S).1.length
    · refine ⟨⟨before, S, suites, n, hsplit⟩, hok, ?_⟩
      rw [List.take_append_of_le_length hwithin]
      rfl
    · have hnext : (seeded.seedSuite S).1 = true := by
        by_contra hfails
        rw [if_neg hfails, List.append_nil] at hn
        omega
      have hconcat : Database.seedSuites (before ++ [S]) db.stampRuns = seeded.seedSuite S :=
        Database.seedSuites_concat hok
      rw [if_pos hnext, List.length_append] at hn
      obtain ⟨p, hreached, hstate⟩ := ih (n := n - (seeded.seedStatements S).1.length)
        (before ++ [S]) (by rw [hsplit, List.append_assoc, List.singleton_append])
        (by rw [hconcat, hnext]) (by rw [hconcat]; omega)
      refine ⟨p, hreached, ?_⟩
      have htake : (seeded.seedStatements S).1.take n = (seeded.seedStatements S).1 :=
        List.take_of_length_le (by omega)
      rw [hstate, hconcat, if_pos hnext, List.take_append, Database.execAll_append, htake]
      rfl

/-- **Every point between two writes of the seeding is a crash point that is reached.** -/
theorem exists_crashPoint {banks : Banks} {db : Database} {n : ℕ}
    (hn : n < (Database.seedTrace banks.builtinSuites db.stampRuns).length) :
    ∃ p : CrashPoint banks, p.Reached db ∧ p.state db =
      db.stampRuns.execAll ((Database.seedTrace banks.builtinSuites db.stampRuns).take n) :=
  exists_crashPoint_of_split [] banks.builtinSuites rfl rfl hn

/-! ### The first boot -/

/-- A built-in question of the first generation. -/
def firstQuestion (prompt : String) : SeedCase :=
  ⟨1, ⟨prompt, .rule, some "exact", some "A", none, "basic", some 1, none⟩⟩

/-- A benchmark suite of two questions. -/
def mmlu : SeedSuite :=
  ⟨"mmlu", "MMLU", "knowledge", 1 / 4, 0, [firstQuestion "q1", firstQuestion "q2"]⟩

/-- The banks of a binary with that suite. -/
def mmluBanks : Banks := ⟨[], [mmlu], List.nodup_singleton _⟩

/-- A database nothing has been written to. -/
def freshDatabase : Database :=
  ⟨[], 0, [], 0, fun _ => none, fun _ => false, false, false, [], [], [], []⟩

theorem freshDatabase_keyed : freshDatabase.Keyed := by
  constructor <;> simp [freshDatabase]

/-- The process dies after some writes of the suite. -/
def dieAfter (writes : ℕ) : CrashPoint mmluBanks := ⟨[], mmlu, [], writes, rfl⟩

/-- **A first boot that dies between two questions** leaves a bank of one question, which the next
Open takes for complete. -/
theorem not_recovers : freshDatabase.Keyed ∧ (dieAfter 2).Reached freshDatabase ∧
    ¬ SameBanks mmluBanks (dieAfter 2) freshDatabase := by
  refine ⟨freshDatabase_keyed, rfl, fun hsame => ?_⟩
  have hlengths := congrArg (List.map fun e => e.bank.length) hsame
  exact absurd hlengths (by decide)

/-- One that dies before the first question is made up for. -/
theorem recovers_iff_mmlu : SameBanks mmluBanks (dieAfter 1) freshDatabase := by
  have hrecovers : Recovers (dieAfter 1) freshDatabase.catalogue := by
    intro received _ hreceived
    cases hreceived
    exact .inl rfl
  have hreached : (dieAfter 1).Reached freshDatabase := rfl
  exact (recovers_iff freshDatabase_keyed hreached).mpr hrecovers

end HubScope
