import HubScope.Store.Tables
import Mathlib.Data.List.Nodup

/-!
# The question bank at Open

Opening the store seeds the built-in suites and their cases, runs two one-time migrations of the
benchmark suites, retires the capability suites and purges the suites that are disabled. The
seeding autocommits each of its statements; the migrations and the purge are transactions.

A settings record is read by what the code makes of it: a generation record is absent, a number
or not a number, and a tombstone or a migration flag is set or not.

## Main definitions

* `SeedSuite`, `Banks` — the built-in suites
* `Database` — the tables Open reads and writes
* `SeedStatement`, `Database.seedStatements` — the writes of one suite's seeding, in order
* `Database.purgeDisabledSuites` — the purge
* `Database.openStore` — Open
-/

set_option autoImplicit false

namespace HubScope

/-- The columns of a case that its seed sets. -/
structure CaseContent where
  prompt : String
  verdictType : VerdictType
  ruleMode : Option String
  ruleExpected : Option String
  rubric : Option String
  difficulty : String
  sampleCount : Option ℕ
  checkParams : Option String
  deriving DecidableEq

/-- A built-in case with the seed generation that introduced it. -/
structure SeedCase where
  gen : ℤ
  content : CaseContent
  deriving DecidableEq

/-- A built-in suite. `retireAtGen` is the generation at which it leaves the rotation, zero when
it stays. -/
structure SeedSuite where
  key : String
  name : String
  capability : String
  nadir : ℚ
  retireAtGen : ℤ
  cases : List SeedCase
  deriving DecidableEq

/-- The two banks of built-in suites. Their keys are distinct constants. -/
structure Banks where
  capabilitySuites : List SeedSuite
  benchmarkSuites : List SeedSuite
  keys_nodup : ((capabilitySuites ++ benchmarkSuites).map SeedSuite.key).Nodup

/-- The capability suites, then the benchmark suites. -/
def Banks.builtinSuites (banks : Banks) : List SeedSuite :=
  banks.capabilitySuites ++ banks.benchmarkSuites

/-- A `suites` row. -/
structure SuiteRow where
  id : ℕ
  key : String
  name : String
  capability : String
  nadir : ℚ
  version : ℕ
  enabled : Bool
  deriving DecidableEq

/-- A `cases` row. -/
structure CaseRow where
  id : ℕ
  suiteId : ℕ
  content : CaseContent
  enabled : Bool
  deriving DecidableEq

/-- The tables Open works on. `seedGens` and `purged` are the settings `seed_gen_<key>` and
`purged_suite_<key>`; a generation record that is no number is `some none`. -/
structure Database where
  suites : List SuiteRow
  suiteSeq : ℕ
  cases : List CaseRow
  caseSeq : ℕ
  seedGens : String → Option (Option ℤ)
  purged : String → Bool
  benchmarkCutover : Bool
  benchmarkTrim : Bool
  runs : List EvalRun
  results : List EvalResult
  answers : List EvalAnswer
  judgeScores : List EvalJudgeScore

namespace Database

variable (db : Database)

/-! ### Reads and single statements -/

/-- `SELECT id FROM suites WHERE key = ?`. -/
def getSuiteByKey (key : String) : Option SuiteRow := db.suites.find? (·.key = key)

/-- The cases of a suite, in id order. -/
def casesOf (suiteId : ℕ) : List CaseRow := db.cases.filter (·.suiteId = suiteId)

/-- An update of the suite rows. -/
def mapSuites (f : SuiteRow → SuiteRow) : Database := { db with suites := db.suites.map f }

/-- `INSERT OR IGNORE INTO suites`. -/
def insertSuite (S : SeedSuite) : Database :=
  if db.suites.any (·.key = S.key) then db
  else
    { db with
      suites := db.suites ++
        [⟨db.suiteSeq + 1, S.key, S.name, S.capability, S.nadir, 1, true⟩]
      suiteSeq := db.suiteSeq + 1 }

/-- `UPDATE suites SET enabled = ? WHERE id = ?`. -/
def setSuiteEnabled (id : ℕ) (enabled : Bool) : Database :=
  db.mapSuites fun s => if s.id = id then { s with enabled := enabled } else s

/-- `INSERT INTO cases`. -/
def insertCase (suiteId : ℕ) (content : CaseContent) : Database :=
  { db with
    cases := db.cases ++ [⟨db.caseSeq + 1, suiteId, content, true⟩]
    caseSeq := db.caseSeq + 1 }

/-- The setting that records a suite's seed generation. -/
def setSeedGen (key : String) (gen : ℤ) : Database :=
  { db with seedGens := fun k => if k = key then some (some gen) else db.seedGens k }

/-- Bump a suite's version. -/
def bumpSuiteVersion (suiteId : ℕ) : Database :=
  db.mapSuites fun s => if s.id = suiteId then { s with version := s.version + 1 } else s

/-- `UPDATE cases SET enabled = ? WHERE id IN (…)`. -/
def setCasesEnabled (ids : List ℕ) (enabled : Bool) : Database :=
  { db with
    cases := db.cases.map fun c => if c.id ∈ ids then { c with enabled := enabled } else c }

/-- An administrator toggles a case: its suite's version is bumped. -/
def setCaseEnabled (id : ℕ) (enabled : Bool) : Database :=
  match db.cases.find? (·.id = id) with
  | none => db
  | some c => (db.setCasesEnabled [id] enabled).bumpSuiteVersion c.suiteId

/-- The highest seed generation a suite has received; `none` when the record is no number. -/
def seedGeneration (key : String) (suiteId : ℕ) : Option ℤ :=
  match db.seedGens key with
  | some recorded => recorded
  | none => some (if db.casesOf suiteId = [] then 0 else 1)

end Database

/-! ### Seeding -/

/-- The cases of a suite that a database which received `received` still lacks. -/
def SeedSuite.pending (S : SeedSuite) (received : ℤ) : List CaseContent :=
  (S.cases.filter (received < ·.gen)).map SeedCase.content

/-- The generation a suite has received once it is seeded. -/
def SeedSuite.maxGen (S : SeedSuite) (received : ℤ) : ℤ :=
  let maxGen := S.cases.foldl (fun maxGen c => if maxGen < c.gen then c.gen else maxGen) received
  if maxGen < S.retireAtGen then S.retireAtGen else maxGen

/-- A write of the seeding. -/
inductive SeedStatement
  | insertSuite (S : SeedSuite)
  | retireSuite (suiteId : ℕ)
  | insertCase (suiteId : ℕ) (content : CaseContent)
  | setSeedGen (key : String) (gen : ℤ)

/-- The tables after a write. -/
def SeedStatement.exec (db : Database) : SeedStatement → Database
  | .insertSuite S => db.insertSuite S
  | .retireSuite suiteId => db.setSuiteEnabled suiteId false
  | .insertCase suiteId content => db.insertCase suiteId content
  | .setSeedGen key gen => db.setSeedGen key gen

/-- The writes after a suite's row is there: the retirement, the cases and the record. -/
def seedWrites (suiteId : ℕ) (key : String) (retire : Bool) (contents : List CaseContent)
    (record : Option ℤ) : List SeedStatement :=
  (if retire then [.retireSuite suiteId] else []) ++
    (contents.map (.insertCase suiteId) ++ record.toList.map (.setSeedGen key))

/-- The generation record the seeding of a suite writes. -/
def SeedSuite.record (S : SeedSuite) (received : ℤ) : Option ℤ :=
  if received < S.maxGen received then some (S.maxGen received) else none

namespace Database

/-- The writes that seeding a suite makes, and whether it succeeds. -/
def seedStatements (db : Database) (S : SeedSuite) : List SeedStatement × Bool :=
  if db.purged S.key then ([], true)
  else
    let inserted := db.insertSuite S
    match inserted.getSuiteByKey S.key with
    | none => ([.insertSuite S], false)
    | some suite =>
      match inserted.seedGeneration S.key suite.id with
      | none => ([.insertSuite S], false)
      | some received =>
        (.insertSuite S :: seedWrites suite.id S.key (received < S.retireAtGen)
          (S.pending received) (S.record received), true)

/-- The tables after a list of writes. -/
def execAll (db : Database) (statements : List SeedStatement) : Database :=
  statements.foldl SeedStatement.exec db

/-- Seed one suite. -/
def seedSuite (db : Database) (S : SeedSuite) : Bool × Database :=
  ((db.seedStatements S).2, db.execAll (db.seedStatements S).1)

/-- Seed the suites in order, up to the first that fails. -/
def seedSuites : List SeedSuite → Database → Bool × Database
  | [], db => (true, db)
  | S :: suites, db =>
    if (db.seedSuite S).1 then seedSuites suites (db.seedSuite S).2 else db.seedSuite S

/-! ### Migrations -/

variable (banks : Banks) (db : Database)

/-- `UPDATE suites SET enabled = ? WHERE key IN (…)`. -/
def setKeysEnabled (keys : List String) (enabled : Bool) : Database :=
  db.mapSuites fun s => if s.key ∈ keys then { s with enabled := enabled } else s

/-- The benchmark suites join the rotation, once. -/
def enableBenchmarkSuitesAtCutover : Database :=
  if db.benchmarkCutover then db
  else
    { db.setKeysEnabled (banks.benchmarkSuites.map SeedSuite.key) true with
      benchmarkCutover := true }

/-- The first 100 enabled cases of a suite. -/
def seedWindow (suiteId : ℕ) : List CaseRow :=
  ((db.casesOf suiteId).filter (·.enabled)).take 100

/-- Disable the cases of a suite's window whose prompt is no longer in the bank. -/
def trimSuite (db : Database) (S : SeedSuite) : Database :=
  match db.getSuiteByKey S.key with
  | none => db
  | some suite =>
    let bank := db.seedWindow suite.id
    let retire := bank.filter fun c => c.content.prompt ∉ S.cases.map (·.content.prompt)
    -- fresh or already-trimmed bank: nothing to retire
    if bank.length < 100 ∨ retire = [] then db
    else (db.setCasesEnabled (retire.map CaseRow.id) false).bumpSuiteVersion suite.id

/-- The benchmark suites shrink to the cases of the bank, once. -/
def trimBenchmarkSuitesToTwenty : Database :=
  if db.benchmarkTrim then db
  else { banks.benchmarkSuites.foldl trimSuite db with benchmarkTrim := true }

/-- The capability suites leave the rotation. -/
def retireV3SuitesAtOpen : Database :=
  db.setKeysEnabled (banks.capabilitySuites.map SeedSuite.key) false

end Database

/-- The suites seeded disabled by design, which the purge spares. -/
def Banks.exempt (banks : Banks) (key : String) : Bool :=
  banks.builtinSuites.any fun S => S.retireAtGen = 1 ∧ S.key = key

/-- A suite the purge deletes. -/
def Banks.doomed (banks : Banks) (s : SuiteRow) : Bool := !s.enabled && !banks.exempt s.key

/-- Suites without a capability are retired. -/
def SuiteRow.retireLegacy (s : SuiteRow) : SuiteRow :=
  if s.capability = "" then { s with enabled := false } else s

namespace Database

variable (banks : Banks) (db : Database)

/-- The suites the purge deletes. -/
def doomedSuites : List SuiteRow :=
  (db.suites.map SuiteRow.retireLegacy).filter banks.doomed

/-- The ids of the suites the purge deletes. -/
def doomedIds : List ℕ := (db.doomedSuites banks).map SuiteRow.id

/-- The keys of the suites the purge deletes. -/
def doomedKeys : List String := (db.doomedSuites banks).map SuiteRow.key

/-- The ids of the runs the purge deletes. -/
def doomedRuns : List ℕ :=
  (db.runs.filter (·.suiteId ∈ db.doomedIds banks)).map EvalRun.id

/-- Disabled suites are deleted with their cases, their runs and the results of these; their
generation records give way to tombstones. -/
def purgeDisabledSuites : Database :=
  { db with
    suites := (db.suites.map SuiteRow.retireLegacy).filter (!banks.doomed ·)
    purged := fun key => key ∈ db.doomedKeys banks || db.purged key
    results := db.results.filter (·.runId ∉ db.doomedRuns banks)
    runs := db.runs.filter (·.suiteId ∉ db.doomedIds banks)
    cases := db.cases.filter (·.suiteId ∉ db.doomedIds banks)
    seedGens := fun key => if key ∈ db.doomedKeys banks then none else db.seedGens key }

/-- Runs left running by a dead process are stamped failed. -/
def stampRuns : Database :=
  { db with
    runs := db.runs.map fun run =>
      if run.status = .running then { run with status := .failed } else run }

/-- What Open does once the suites are seeded. -/
def migrate : Database :=
  (((db.enableBenchmarkSuitesAtCutover banks).trimBenchmarkSuitesToTwenty
    banks).retireV3SuitesAtOpen banks).purgeDisabledSuites banks

/-- Open: whether it succeeds, and the tables it leaves. -/
def openStore : Bool × Database :=
  if (seedSuites banks.builtinSuites db.stampRuns).1 then
    (true, (seedSuites banks.builtinSuites db.stampRuns).2.migrate banks)
  else seedSuites banks.builtinSuites db.stampRuns

end Database

end HubScope
