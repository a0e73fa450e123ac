import Mathlib
import Lain.Foundation.Text
import Lain.Foundation.TextLines

/-!
# The event log

A file of lines, each an id and the text of an event.
-/

namespace Lain.Server

open Foundation Foundation.TextLines

variable {Event Public : Type*}

structure EventCodec (Event Public : Type*) where
  publish : Event → Public
  encode : Public → Option String
  decode : String → Option Public

/-- What is promised of the text of an event: it stands on one line and reads back. -/
structure EventCodec.Lawful (codec : EventCodec Event Public) : Prop where
  reads : ∀ {event text}, codec.encode event = some text → codec.decode text = some event
  oneLine : ∀ {event text}, codec.encode event = some text → '\n' ∉ text.toList
  noReturn : ∀ {event text}, codec.encode event = some text → '\r' ∉ text.toList

def eventsLogMaxBytes : Nat :=
  50 * 1024 * 1024

structure LogDisk where
  live : Option FileBytes := none
  rotated : Option FileBytes := none
  deriving DecidableEq

structure EventsLog where
  disk : LogDisk
  nextId : Nat
  deriving DecidableEq

/-! ### Lines -/

def parseU64 (s : String) : Option Nat :=
  (Text.parseNat s).filter fun n => n < 2 ^ 64

def splitLine (line : String) : Option (Nat × String) := do
  let (id, rest) ← Text.splitOnce line "\t"
  return (← parseU64 id, rest)

def lineIds (file : FileBytes) : List Nat :=
  (readLines file).filterMap fun line => (splitLine line).map Prod.fst

def readMaxEventId (file : FileBytes) : Nat :=
  (lineIds file).foldl max 0

def fileEntries (codec : EventCodec Event Public) (last : Nat) (file : FileBytes) :
    List (Nat × Public) :=
  (((readLines file).filterMap splitLine).filter fun entry => last < entry.1).filterMap
    fun entry => (codec.decode entry.2).map fun event => (entry.1, event)

def replayAfter (codec : EventCodec Event Public) (last : Nat) (disk : LogDisk) :
    List (Nat × Public) :=
  ([disk.live, disk.rotated].reduceOption.flatMap (fileEntries codec last)).mergeSort
    fun a b => a.1 ≤ b.1

def logLine (id : Nat) (payload : String) : String :=
  s!"{id}\t{payload}\n"

/-! ### Operations -/

namespace LogDisk

def needsRotate (disk : LogDisk) : Bool :=
  eventsLogMaxBytes ≤ (disk.live.getD []).length

/-- The live file takes the place of the rotated one, and an empty one its own. -/
def rotate (disk : LogDisk) : LogDisk where
  live := some []
  rotated := disk.live

/-- The files as the next line finds them. -/
def ready (disk : LogDisk) : LogDisk :=
  if disk.needsRotate then disk.rotate else disk

def write (disk : LogDisk) (bytes : FileBytes) : LogDisk :=
  { disk with live := some (disk.live.getD [] ++ bytes) }

end LogDisk

namespace EventsLog

def openLog (disk : LogDisk) : EventsLog where
  disk := { disk with live := some (disk.live.getD []) }
  nextId := (readMaxEventId (disk.live.getD []) + 1) % 2 ^ 64

/-- The bytes of the line an event would get, if its text can be made. -/
def lineOf (codec : EventCodec Event Public) (log : EventsLog) (event : Event) :
    Option FileBytes :=
  (codec.encode (codec.publish event)).map fun payload => utf8 (logLine log.nextId payload)

/-- Append an event: its id and the log after. -/
def append (codec : EventCodec Event Public) (log : EventsLog) (event : Event) :
    Nat × EventsLog :=
  let nextId := (log.nextId + 1) % 2 ^ 64
  match log.lineOf codec event with
  | none => (log.nextId, { log with nextId })
  | some line => (log.nextId, { disk := log.disk.ready.write line, nextId })

end EventsLog

inductive CrashPoint where
  /-- The id is taken and nothing else has happened. -/
  | assigned
  /-- The rotated file of before is gone. -/
  | removed
  /-- The live file has become the rotated one. -/
  | renamed
  /-- There is an empty live file. -/
  | reopened
  /-- Some bytes of the line are in the live file. -/
  | torn (kept : Nat)
  /-- The line is in the live file. -/
  | written
  deriving DecidableEq

def EventsLog.crashDisk (codec : EventCodec Event Public) (log : EventsLog) (event : Event)
    (point : CrashPoint) : Option LogDisk :=
  match point, log.lineOf codec event with
  | .assigned, _ => some log.disk
  | .removed, some _ => if log.disk.needsRotate then some { log.disk with rotated := none } else none
  | .renamed, some _ => if log.disk.needsRotate then some ⟨none, log.disk.live⟩ else none
  | .reopened, some _ => if log.disk.needsRotate then some log.disk.rotate else none
  | .torn kept, some line =>
    if kept < line.length then some (log.disk.ready.write (line.take kept)) else none
  | .written, some line => some (log.disk.ready.write line)
  | _, none => none

/-! ### Whole lines -/

variable {codec : EventCodec Event Public}

def entryBytes (codec : EventCodec Event Public) (entry : Nat × Public) : FileBytes :=
  utf8 (logLine entry.1 ((codec.encode entry.2).getD ""))

def Storable (codec : EventCodec Event Public) (entry : Nat × Public) : Prop :=
  entry.1 < 2 ^ 64 ∧ (codec.encode entry.2).isSome = true

structure FileHolds (codec : EventCodec Event Public) (file : FileBytes)
    (entries : List (Nat × Public)) : Prop where
  storable : ∀ entry ∈ entries, Storable codec entry
  lines : ∃ tail, 10 ∉ tail ∧ file = entries.flatMap (entryBytes codec) ++ tail

def EndsLine (file : FileBytes) : Prop :=
  file = [] ∨ file.getLast? = some 10

instance EndsLine.decidable (file : FileBytes) : Decidable (EndsLine file) :=
  inferInstanceAs (Decidable (_ ∨ _))

theorem parseU64_repr {id : Nat} (small : id < 2 ^ 64) : parseU64 id.repr = some id := by
  unfold parseU64
  rw [Text.parseNat_repr]
  exact Option.filter_some_pos (decide_eq_true small)

theorem notMem_repr {id : Nat} {c : Char} (other : c.isDigit = false) : c ∉ id.repr.toList := by
  intro member
  rw [Text.isDigit_of_mem_repr member] at other
  cases other

theorem splitLine_entry {id : Nat} (small : id < 2 ^ 64) (payload : String) :
    splitLine (id.repr ++ "\t" ++ payload) = some (id, payload) := by
  unfold splitLine
  rw [Text.splitOnce_append (c := '\t') rfl (notMem_repr rfl), Option.bind_eq_bind,
    Option.bind_some]
  simp only [parseU64_repr small, Option.bind_eq_bind, Option.bind_some, Option.pure_def]

theorem entryBytes_eq {entry : Nat × Public} {payload : String}
    (text : codec.encode entry.2 = some payload) :
    entryBytes codec entry = utf8 (entry.1.repr ++ "\t" ++ payload) ++ [10] := by
  have line : logLine entry.1 payload = entry.1.repr ++ "\t" ++ payload ++ "\n" := rfl
  unfold entryBytes
  rw [text, Option.getD_some, line, utf8_append (_ ++ payload)]
  rfl

/-- **What is read of a file begins with the lines that were written whole.** -/
theorem readLines_entries (lawful : codec.Lawful) {entries : List (Nat × Public)}
    (storable : ∀ entry ∈ entries, Storable codec entry) (tail : FileBytes) :
    (readLines (entries.flatMap (entryBytes codec) ++ tail)).filterMap splitLine =
      entries.map (fun entry => (entry.1, (codec.encode entry.2).getD "")) ++
        (readLines tail).filterMap splitLine := by
  induction entries with
  | nil => rfl
  | cons entry rest ih =>
    obtain ⟨⟨small, encoded⟩, later⟩ := List.forall_mem_cons.mp storable
    obtain ⟨payload, text⟩ := Option.isSome_iff_exists.mp encoded
    have feed : '\n' ∉ (entry.1.repr ++ "\t" ++ payload).toList := by
      simp only [String.toList_append, List.mem_append, not_or]
      exact ⟨⟨notMem_repr rfl, by decide⟩, lawful.oneLine text⟩
    have carriage : '\r' ∉ (entry.1.repr ++ "\t" ++ payload).toList := by
      simp only [String.toList_append, List.mem_append, not_or]
      exact ⟨⟨notMem_repr rfl, by decide⟩, lawful.noReturn text⟩
    rw [List.flatMap_cons, entryBytes_eq text, List.append_assoc, List.append_assoc,
      List.singleton_append, readLines_line feed carriage,
      List.filterMap_cons_some (splitLine_entry small payload), ih later, List.map_cons, text,
      Option.getD_some, List.cons_append]

theorem FileHolds.mem_fileEntries {file : FileBytes} {entries : List (Nat × Public)}
    (holds : FileHolds codec file entries) (lawful : codec.Lawful) {entry : Nat × Public}
    (member : entry ∈ entries) {last : Nat} (above : last < entry.1) :
    entry ∈ fileEntries codec last file := by
  obtain ⟨tail, -, rfl⟩ := holds.lines
  obtain ⟨payload, text⟩ := Option.isSome_iff_exists.mp (holds.storable entry member).2
  unfold fileEntries
  rw [readLines_entries lawful holds.storable]
  refine List.mem_filterMap.mpr ⟨(entry.1, payload), List.mem_filter.mpr ⟨?_, ?_⟩, ?_⟩
  · refine List.mem_append_left _ (List.mem_map.mpr ⟨entry, member, ?_⟩)
    rw [text, Option.getD_some]
  · exact decide_eq_true above
  · rw [lawful.reads text, Option.map_some]

theorem FileHolds.nil : FileHolds codec [] [] where
  storable _ member := absurd member List.not_mem_nil
  lines := ⟨[], List.not_mem_nil, rfl⟩

theorem FileHolds.eq_of_endsLine {file : FileBytes} {entries : List (Nat × Public)}
    (holds : FileHolds codec file entries) (ends : EndsLine file) :
    file = entries.flatMap (entryBytes codec) := by
  obtain ⟨tail, unbroken, rfl⟩ := holds.lines
  have ended : tail = [] := by
    by_contra more
    rcases ends with empty | feed
    · exact more (List.append_eq_nil_iff.mp empty).2
    · rw [List.getLast?_append_of_ne_nil _ more] at feed
      exact unbroken (List.mem_of_getLast? feed)
  rw [ended, List.append_nil]

theorem FileHolds.concat {file : FileBytes} {entries : List (Nat × Public)}
    (holds : FileHolds codec file entries) (ends : EndsLine file) {entry : Nat × Public}
    (storable : Storable codec entry) :
    FileHolds codec (file ++ entryBytes codec entry) (entries ++ [entry]) where
  storable := List.forall_mem_append.mpr
    ⟨holds.storable, fun _ member => List.mem_singleton.mp member ▸ storable⟩
  lines := by
    refine ⟨[], List.not_mem_nil, ?_⟩
    rw [holds.eq_of_endsLine ends, List.append_nil, List.flatMap_append, List.flatMap_singleton]

theorem FileHolds.piece {file : FileBytes} {entries : List (Nat × Public)}
    (holds : FileHolds codec file entries) {bytes : FileBytes} (unbroken : 10 ∉ bytes) :
    FileHolds codec (file ++ bytes) entries where
  storable := holds.storable
  lines := by
    obtain ⟨tail, free, rfl⟩ := holds.lines
    refine ⟨tail ++ bytes, ?_, List.append_assoc _ _ _⟩
    exact fun member => (List.mem_append.mp member).elim free unbroken

theorem notMem_take_entryBytes (lawful : codec.Lawful) {entry : Nat × Public}
    (storable : Storable codec entry) {kept : Nat} (short : kept < (entryBytes codec entry).length) :
    10 ∉ (entryBytes codec entry).take kept := by
  obtain ⟨payload, text⟩ := Option.isSome_iff_exists.mp storable.2
  rw [entryBytes_eq text] at short ⊢
  rw [List.length_append, List.length_singleton] at short
  rw [List.take_append_of_le_length (Nat.lt_succ_iff.mp short)]
  intro member
  obtain ⟨c, listed, same⟩ := mem_utf8 (by decide) (List.mem_of_mem_take member)
  obtain rfl : c = '\n' := Char.toNat_inj.mp same
  simp only [String.toList_append, List.mem_append] at listed
  rcases listed with (id | tab) | rest
  · exact notMem_repr rfl id
  · exact absurd tab (by decide)
  · exact lawful.oneLine text rest

end Lain.Server
