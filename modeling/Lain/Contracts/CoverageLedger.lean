import Mathlib
import Lain.Contracts.Evaluate

/-!
# The coverage ledger

A sensor reports what it could not resolve and how it failed, and the ledger files that under the
sensor and a language.
-/

namespace Lain.Contracts

open Foundation Federation

/-! ### The ledger of a sensor pass -/

inductive Lang where
  | python | tsJs | ts | tsx | rust | go | java | cSharp | ruby | kotlin
  deriving DecidableEq

def langLabel : Lang → String
  | .python => "python"
  | .tsJs => "tsjs"
  | .ts => "ts"
  | .tsx => "tsx"
  | .rust => "rust"
  | .go => "go"
  | .java => "java"
  | .cSharp => "csharp"
  | .ruby => "ruby"
  | .kotlin => "kotlin"

/-- A file of the workspace and the language it is written in, if a sensor reads it. -/
structure FileRecord where
  path : String
  lang : Option Lang

/-- What a sensor reports of one pass. -/
structure ScanReport where
  emitted : Nat := 0
  unresolved : List UnresolvedRecord := []
  error : Option String := none

def filesOf (records : List FileRecord) (lang : Lang) : Nat :=
  (records.filter fun r => decide (r.lang = some lang)).length

def SensorLedger.addRust (entry : SensorLedger) (seen : Nat) (report : ScanReport) :
    SensorLedger :=
  { entry with
    filesSeen := entry.filesSeen + seen
    unresolved := entry.unresolved ++ report.unresolved
    error := report.error }

def SensorLedger.addPython (entry : SensorLedger) (seen : Nat) (sensorName : String)
    (report : ScanReport) : SensorLedger :=
  { entry with
    filesSeen := entry.filesSeen + seen
    emitted := entry.emitted + report.emitted
    unresolved :=
      if sensorName ≠ "grpc_consumer" then entry.unresolved ++ report.unresolved
      else entry.unresolved
    error := report.error.or entry.error }

def addReport (records : List FileRecord) (sensorName : String) (report : ScanReport)
    (bucket : SortedMap String SensorLedger) : SortedMap String SensorLedger :=
  let rustSeen := filesOf records .rust
  let routed :=
    if sensorName = "grpc_consumer" ∧ 0 < rustSeen then
      bucket.alter (langLabel .rust) fun old => (old.getD {}).addRust rustSeen report
    else bucket
  routed.alter (langLabel .python) fun old =>
    (old.getD {}).addPython (filesOf records .python) sensorName report

def fileReport (records : List FileRecord)
    (ledger : SortedMap String (SortedMap String SensorLedger))
    (report : String × ScanReport) : SortedMap String (SortedMap String SensorLedger) :=
  ledger.alter report.1 fun old => addReport records report.1 report.2 (old.getD ∅)

def filesByLang (records : List FileRecord) : SortedMap String (List String) :=
  SortedMap.group <| records.filterMap fun r => r.lang.map fun lang => (langLabel lang, r.path)

def SensorLedger.addSkip (entry : SensorLedger) (skip : SkipRecord) : SensorLedger :=
  { entry with filesSkipped := entry.filesSkipped ++ [skip] }

def noteUnsupported (ledger : SortedMap String (SortedMap String SensorLedger))
    (files : String × List String) : SortedMap String (SortedMap String SensorLedger) :=
  let hasAnalyzed := ledger.entries.any fun sensor =>
    match sensor.2.get? files.1 with
    | some entry => decide (0 < entry.filesAnalyzed)
    | none => false
  if hasAnalyzed then ledger
  else
    let skip : SkipRecord := ⟨.unsupportedLanguage, files.2.length, files.2.take 5⟩
    ledger.alter "classifier" fun old => (old.getD ∅).alter files.1 fun old =>
      (old.getD {}).addSkip skip

/-- The coverage of a repository after a pass of its sensors, from the files of the workspace,
the counts of the sensors and their reports. -/
def coverageFromReports (records : List FileRecord) (cacheKey : Snapshots.CacheKey)
    (counts : SortedMap String Nat) (reports : List (String × ScanReport)) : RepoCoverage :=
  let filed := reports.foldl (fileReport records) ∅
  { ledger := (filesByLang records).entries.foldl noteUnsupported filed
    languagesPresent := (records.filterMap fun r => r.lang.map langLabel).toFinset
    sensorCounts := counts
    cacheKey
    error := none }

/-! ### What the ledger keeps -/

/-- An entry of a sensor. -/
def Entry (ledger : SortedMap String (SortedMap String SensorLedger)) (sensorName : String)
    (entry : SensorLedger) : Prop :=
  ∃ bucket lang, ledger.get? sensorName = some bucket ∧ bucket.get? lang = some entry

/-- A sensor's records have a place in a workspace of these files: those of the gRPC consumers
are about Rust files. -/
def Placed (records : List FileRecord) (sensorName : String) : Prop :=
  sensorName = "grpc_consumer" → ∃ r ∈ records, r.lang = some .rust

theorem filesOf_pos_iff {records : List FileRecord} {lang : Lang} :
    0 < filesOf records lang ↔ ∃ r ∈ records, r.lang = some lang := by
  simp [filesOf, List.length_pos_iff_exists_mem]

/-- The entries of a sensor show a report. -/
structure Shows (records : List FileRecord) (sensorName : String) (report : ScanReport)
    (ledger : SortedMap String (SortedMap String SensorLedger)) : Prop where
  /-- The records of the report are in an entry. -/
  unresolved : Placed records sensorName → ∀ record ∈ report.unresolved,
    ∃ entry, Entry ledger sensorName entry ∧ record ∈ entry.unresolved
  /-- The error of the report is in an entry. -/
  error : ∀ failure, report.error = some failure →
    ∃ entry, Entry ledger sensorName entry ∧ entry.error = some failure

/-- **Filing a report shows it.** -/
theorem shows_fileReport (records : List FileRecord)
    (ledger : SortedMap String (SortedMap String SensorLedger)) (sensorName : String)
    (report : ScanReport) :
    Shows records sensorName report (fileReport records ledger (sensorName, report)) := by
  set bucket := addReport records sensorName report ((ledger.get? sensorName).getD ∅) with filed
  have own : (fileReport records ledger (sensorName, report)).get? sensorName = some bucket := by
    unfold fileReport
    rw [SortedMap.get?_alter, if_pos rfl]
  -- The entry of Python, which takes the error of every report.
  obtain ⟨before, python⟩ : ∃ before : SensorLedger, bucket.get? (langLabel .python) =
      some (before.addPython (filesOf records .python) sensorName report) := by
    rw [filed, addReport, SortedMap.get?_alter, if_pos rfl]
    exact ⟨_, rfl⟩
  constructor
  · intro placed record member
    by_cases grpc : sensorName = "grpc_consumer"
    · have seen : 0 < filesOf records .rust := filesOf_pos_iff.mpr (placed grpc)
      have rust : bucket.get? (langLabel .rust) =
          some (((((ledger.get? sensorName).getD ∅).get? (langLabel .rust)).getD {}).addRust
            (filesOf records .rust) report) := by
        rw [filed, addReport, SortedMap.get?_alter, if_neg (by decide), if_pos ⟨grpc, seen⟩,
          SortedMap.get?_alter, if_pos rfl]
      exact ⟨_, ⟨_, _, own, rust⟩, List.mem_append_right _ member⟩
    · refine ⟨_, ⟨_, _, own, python⟩, ?_⟩
      rw [SensorLedger.addPython, if_pos grpc]
      exact List.mem_append_right _ member
  · intro failure failed
    refine ⟨_, ⟨_, _, own, python⟩, ?_⟩
    rw [SensorLedger.addPython, failed, Option.some_or]

theorem get?_foldl_fileReport (records : List FileRecord) {sensorName : String}
    {reports : List (String × ScanReport)} (other : sensorName ∉ reports.map Prod.fst)
    (ledger : SortedMap String (SortedMap String SensorLedger)) :
    (reports.foldl (fileReport records) ledger).get? sensorName = ledger.get? sensorName := by
  induction reports generalizing ledger with
  | nil => rfl
  | cons report reports ih =>
    rw [List.map_cons, List.mem_cons, not_or] at other
    rw [List.foldl_cons, ih other.2, fileReport, SortedMap.get?_alter, if_neg other.1]

theorem shows_foldl_fileReport (records : List FileRecord) {reports : List (String × ScanReport)}
    (distinct : (reports.map Prod.fst).Nodup) {sensorName : String} {report : ScanReport}
    (member : (sensorName, report) ∈ reports) :
    Shows records sensorName report (reports.foldl (fileReport records) ∅) := by
  obtain ⟨before, after, rfl⟩ := List.append_of_mem member
  rw [List.map_append, List.map_cons] at distinct
  have other : sensorName ∉ after.map Prod.fst :=
    (List.nodup_cons.mp distinct.of_append_right).1
  rw [List.foldl_append, List.foldl_cons]
  have shown := shows_fileReport records (before.foldl (fileReport records) ∅) sensorName report
  have entries : ∀ entry, Entry (fileReport records (before.foldl (fileReport records) ∅)
      (sensorName, report)) sensorName entry → Entry (after.foldl (fileReport records) (fileReport
        records (before.foldl (fileReport records) ∅) (sensorName, report))) sensorName entry := by
    rintro entry ⟨bucket, lang, own, here⟩
    exact ⟨bucket, lang, (get?_foldl_fileReport records other _).trans own, here⟩
  constructor
  · intro placed record inside
    obtain ⟨entry, own, there⟩ := shown.unresolved placed record inside
    exact ⟨entry, entries entry own, there⟩
  · intro failure failed
    obtain ⟨entry, own, there⟩ := shown.error failure failed
    exact ⟨entry, entries entry own, there⟩

theorem exists_entry_noteUnsupported {ledger : SortedMap String (SortedMap String SensorLedger)}
    {sensorName : String} {entry : SensorLedger} (own : Entry ledger sensorName entry)
    (files : String × List String) :
    ∃ later, Entry (noteUnsupported ledger files) sensorName later ∧
      later.unresolved = entry.unresolved ∧ later.error = entry.error := by
  obtain ⟨bucket, lang, found, here⟩ := own
  unfold noteUnsupported
  dsimp only
  split
  · exact ⟨entry, ⟨bucket, lang, found, here⟩, rfl, rfl⟩
  · by_cases classifier : sensorName = "classifier"
    · -- Where the note is made, the entry only gains the skipped files.
      set noted := bucket.alter files.1 fun old => (old.getD {}).addSkip
        ⟨.unsupportedLanguage, files.2.length, files.2.take 5⟩ with note
      have own : (ledger.alter "classifier" fun old => (old.getD ∅).alter files.1 fun old =>
          (old.getD {}).addSkip ⟨.unsupportedLanguage, files.2.length, files.2.take 5⟩).get?
            sensorName = some noted := by
        rw [SortedMap.get?_alter, if_pos classifier, ← classifier, found, Option.getD_some]
      by_cases same : lang = files.1
      · refine ⟨entry.addSkip ⟨.unsupportedLanguage, files.2.length, files.2.take 5⟩,
          ⟨noted, lang, own, ?_⟩, rfl, rfl⟩
        rw [note, SortedMap.get?_alter, if_pos same, ← same, here, Option.getD_some]
      · refine ⟨entry, ⟨noted, lang, own, ?_⟩, rfl, rfl⟩
        rw [note, SortedMap.get?_alter, if_neg same]
        exact here
    · refine ⟨entry, ⟨bucket, lang, ?_, here⟩, rfl, rfl⟩
      rw [SortedMap.get?_alter, if_neg classifier]
      exact found

theorem exists_entry_foldl_noteUnsupported (files : List (String × List String)) :
    ∀ {ledger : SortedMap String (SortedMap String SensorLedger)} {sensorName : String}
      {entry : SensorLedger}, Entry ledger sensorName entry →
      ∃ later, Entry (files.foldl noteUnsupported ledger) sensorName later ∧
        later.unresolved = entry.unresolved ∧ later.error = entry.error := by
  induction files with
  | nil => exact fun own => ⟨_, own, rfl, rfl⟩
  | cons first files ih =>
    intro ledger sensorName entry own
    obtain ⟨noted, own', unresolved, error⟩ := exists_entry_noteUnsupported own first
    obtain ⟨later, own'', unresolved', error'⟩ := ih own'
    exact ⟨later, own'', unresolved'.trans unresolved, error'.trans error⟩

theorem isComplete_eq_false {cover : RepoCoverage} {sensorName : String} {entry : SensorLedger}
    (own : Entry cover.ledger sensorName entry)
    (doubt : entry.unresolved ≠ [] ∨ entry.error ≠ none) (langs : List String)
    (version : String) : cover.isComplete langs version = false := by
  obtain ⟨bucket, lang, found, here⟩ := own
  refine Bool.eq_false_iff.mpr fun complete => ?_
  unfold RepoCoverage.isComplete at complete
  simp only [Bool.and_eq_true] at complete
  have clean := List.all_eq_true.mp (List.all_eq_true.mp complete.1.2 _
    (SortedMap.mem_entries.mpr found)) _ (SortedMap.mem_entries.mpr here)
  rw [Bool.and_eq_true, Option.isNone_iff_eq_none, List.isEmpty_iff] at clean
  exact doubt.elim (fun left => left clean.2) fun failed => failed clean.1

/-- **The ledger loses nothing of a report that has a place in it**, and a report with an error or
a record that has a place keeps the repository from being complete. -/
theorem coverageFromReports_loses_nothing (records : List FileRecord)
    (cacheKey : Snapshots.CacheKey) (counts : SortedMap String Nat)
    {reports : List (String × ScanReport)} (distinct : (reports.map Prod.fst).Nodup)
    {sensorName : String} {report : ScanReport} (member : (sensorName, report) ∈ reports) :
    Shows records sensorName report
        (coverageFromReports records cacheKey counts reports).ledger ∧
      (report.error ≠ none ∨ Placed records sensorName ∧ report.unresolved ≠ [] →
        ∀ langs version,
          (coverageFromReports records cacheKey counts reports).isComplete langs version
            = false) := by
  have filed := shows_foldl_fileReport records distinct member
  have shown : Shows records sensorName report
      (coverageFromReports records cacheKey counts reports).ledger := by
    constructor
    · intro placed record inside
      obtain ⟨entry, own, there⟩ := filed.unresolved placed record inside
      obtain ⟨later, own', unresolved, -⟩ := exists_entry_foldl_noteUnsupported _ own
      exact ⟨later, own', unresolved ▸ there⟩
    · intro failure failed
      obtain ⟨entry, own, there⟩ := filed.error failure failed
      obtain ⟨later, own', -, error⟩ := exists_entry_foldl_noteUnsupported _ own
      exact ⟨later, own', error.trans there⟩
  refine ⟨shown, ?_⟩
  rintro (failed | ⟨placed, left⟩) langs version
  · obtain ⟨failure, some⟩ := Option.ne_none_iff_exists'.mp failed
    obtain ⟨entry, own, there⟩ := shown.error failure some
    exact isComplete_eq_false own (Or.inr (there ▸ Option.some_ne_none _)) langs version
  · obtain ⟨record, inside⟩ := List.exists_mem_of_ne_nil _ left
    obtain ⟨entry, own, there⟩ := shown.unresolved placed record inside
    exact isComplete_eq_false own (Or.inl (List.ne_nil_of_mem there)) langs version

def openStub : String × ScanReport :=
  ("grpc_consumer", { unresolved := [⟨.rpcStubUnknown, 1, ["src/main.rs"]⟩] })

theorem coverageFromReports_loses_nothing_openStub :
    Shows [⟨"src/main.rs", some .rust⟩] "grpc_consumer" openStub.2
        (coverageFromReports [⟨"src/main.rs", some .rust⟩] ⟨"shop", "a", "1"⟩ ∅
          [("http", { error := some "walk failed" }), openStub]).ledger ∧
      (coverageFromReports [⟨"src/main.rs", some .rust⟩] ⟨"shop", "a", "1"⟩ ∅
          [("http", { error := some "walk failed" }), openStub]).isComplete
        consumerCapableLangs "1" = false :=
  have kept := @coverageFromReports_loses_nothing [⟨"src/main.rs", some .rust⟩]
    ⟨"shop", "a", "1"⟩ ∅ [("http", { error := some "walk failed" }), openStub] (by decide)
    "grpc_consumer" openStub.2 (List.mem_cons_of_mem _ List.mem_cons_self)
  ⟨kept.1, kept.2 (Or.inr ⟨fun _ => ⟨_, List.mem_cons_self, rfl⟩, List.cons_ne_nil _ _⟩) _ _⟩

/-- **Without Rust files the records of the gRPC consumers are lost**, and the repository counts
as complete. -/
theorem coverageFromReports_loses_openStub :
    ¬ ∀ (records : List FileRecord) (cacheKey : Snapshots.CacheKey) (counts : SortedMap String Nat)
        (reports : List (String × ScanReport)), (reports.map Prod.fst).Nodup →
        ∀ report ∈ reports, report.2.unresolved ≠ [] →
          (∃ entry, Entry (coverageFromReports records cacheKey counts reports).ledger report.1
            entry ∧ entry.unresolved ≠ []) ∧
          (coverageFromReports records cacheKey counts reports).isComplete consumerCapableLangs
            cacheKey.analyzerVersion = false := by
  intro all
  have complete : (coverageFromReports [] ⟨"shop", "a", "1"⟩ ∅ [openStub]).isComplete
      consumerCapableLangs "1" = true := by
    decide +kernel
  have kept := (all [] ⟨"shop", "a", "1"⟩ ∅ [openStub] (by decide) openStub List.mem_cons_self
    (List.cons_ne_nil _ _)).2
  exact Bool.false_ne_true (kept.symm.trans complete)

end Lain.Contracts
