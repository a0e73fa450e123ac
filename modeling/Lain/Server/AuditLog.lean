import Mathlib
import Lain.Foundation.TextLines

/-!
# The audit log

A file of lines, each the text of an event, and the file that was set aside before it.
-/

namespace Lain.Server.AuditLog

open Foundation Foundation.TextLines

structure AuditCodec (Event : Type*) where
  encode : Event → String
  decode : String → Option Event
  tsUnix : Event → ℚ

variable {Event : Type*}

/-- What is promised of the text of an event: it stands on one line, reads back, and no shorter
beginning of it reads as an event; nor does no text. -/
structure AuditCodec.Lawful (codec : AuditCodec Event) : Prop where
  reads : ∀ event, codec.decode (codec.encode event) = some event
  oneLine : ∀ event, '\n' ∉ (codec.encode event).toList
  noReturn : ∀ event, '\r' ∉ (codec.encode event).toList
  torn : ∀ {event text}, text.toList <+: (codec.encode event).toList →
    text ≠ codec.encode event → codec.decode text = none
  blank : codec.decode "" = none

def auditLogMaxBytes : Nat :=
  50 * 1024 * 1024

structure AuditDisk where
  live : Option FileBytes := none
  rotated : Option FileBytes := none
  deriving DecidableEq

/-! ### Writing -/

namespace AuditDisk

def needsRotate (disk : AuditDisk) : Bool :=
  decide (auditLogMaxBytes ≤ (disk.live.getD []).length)

def rotate (disk : AuditDisk) : AuditDisk where
  live := none
  rotated := disk.live

/-- The files as the next line finds them. -/
def ready (disk : AuditDisk) : AuditDisk :=
  if disk.needsRotate then disk.rotate else disk

/-- Bytes are added to the live file, which is made if it is absent. -/
def write (disk : AuditDisk) (bytes : FileBytes) : AuditDisk :=
  { disk with live := some (disk.live.getD [] ++ bytes) }

end AuditDisk

variable (codec : AuditCodec Event)

def lineOf (event : Event) : FileBytes :=
  utf8 (codec.encode event) ++ [10]

def appendEditEvent (disk : AuditDisk) (event : Event) : AuditDisk :=
  disk.ready.write (lineOf codec event)

/-! ### Reading -/

def notBefore (since : Option ℚ) (event : Event) : Bool :=
  since.all fun time => decide (time ≤ codec.tsUnix event)

def fileEvents (file : FileBytes) : List Event :=
  ((readLines file).filter (· ≠ "")).filterMap codec.decode

def readAuditLog (disk : AuditDisk) (since : Option ℚ) : List Event :=
  ([disk.live, disk.rotated].reduceOption.flatMap (fileEvents codec)).filter
    (notBefore codec since)

def sinceSkewSecs : ℚ := 300

def wellPast (since : Option ℚ) (event : Event) : Bool :=
  since.any fun time => decide (codec.tsUnix event < time - sinceSkewSecs)

/-- Scan lines, the newest first; whether the scan is over. -/
def scan (since : Option ℚ) (limit : Nat) (keep : Event → Bool) :
    List String → List Event → List Event × Bool
  | [], newestFirst => (newestFirst, false)
  | line :: rest, newestFirst =>
    if line = "" then scan since limit keep rest newestFirst
    else
      match codec.decode line with
      | none => scan since limit keep rest newestFirst
      | some event =>
        if wellPast codec since event then (newestFirst, true)
        else if !notBefore codec since event then scan since limit keep rest newestFirst
        else if keep event then
          if limit ≤ newestFirst.length + 1 then (newestFirst ++ [event], true)
          else scan since limit keep rest (newestFirst ++ [event])
        else scan since limit keep rest newestFirst

def scanFiles (since : Option ℚ) (limit : Nat) (keep : Event → Bool) :
    List (Option FileBytes) → List Event → Option (List Event)
  | [], newestFirst => some newestFirst
  | file :: rest, newestFirst =>
    if limit ≤ newestFirst.length then some newestFirst
    else
      match file with
      | none => scanFiles since limit keep rest newestFirst
      | some bytes =>
        match textOf bytes with
        | none => none
        | some text =>
          let scanned := scan codec since limit keep
            ((lines text.toList).map String.ofList).reverse newestFirst
          if scanned.2 then some scanned.1
          else scanFiles since limit keep rest scanned.1

def readAuditLogRecent (disk : AuditDisk) (since : Option ℚ) (limit : Nat)
    (keep : Event → Bool) : Option (List Event) :=
  (scanFiles codec since limit keep [disk.live, disk.rotated] []).map List.reverse

/-! ### Files of lines -/

def fileText (texts : List String) (tail : String) : String :=
  texts.foldr (fun text rest => text ++ "\n" ++ rest) tail

def linesOf (texts : List String) (tail : String) : List String :=
  texts.map (fun text => String.ofList (dropReturn text.toList)) ++
    if tail = "" then [] else [tail]

def FileHolds (file : FileBytes) (entries : List (Option Event)) : Prop :=
  ∃ texts tail, (∀ text ∈ texts, '\n' ∉ text.toList) ∧ '\n' ∉ tail.toList ∧
    file = utf8 (fileText texts tail) ∧ entries = (linesOf texts tail).map codec.decode

section Files

variable {texts : List String} {tail : String}

theorem utf8_fileText_cons (text : String) (texts : List String) (tail : String) :
    utf8 (fileText (text :: texts) tail) = utf8 text ++ 10 :: utf8 (fileText texts tail) := by
  unfold fileText
  rw [List.foldr_cons, utf8_append, utf8_append, List.append_assoc]
  rfl

theorem readLines_fileText (free : ∀ text ∈ texts, '\n' ∉ text.toList)
    (last : '\n' ∉ tail.toList) :
    readLines (utf8 (fileText texts tail)) = linesOf texts tail := by
  induction texts with
  | nil =>
    unfold linesOf fileText
    split_ifs with none_
    · rw [none_]
      rfl
    · exact readLines_of_notMem last none_
  | cons text texts ih =>
    rw [utf8_fileText_cons, readLines_textLine (free text List.mem_cons_self),
      ih fun later member => free later (List.mem_cons_of_mem _ member)]
    rfl

theorem lines_fileText (free : ∀ text ∈ texts, '\n' ∉ text.toList) (last : '\n' ∉ tail.toList) :
    (lines (fileText texts tail).toList).map String.ofList = linesOf texts tail := by
  induction texts with
  | nil =>
    unfold linesOf fileText
    split_ifs with none_
    · rw [none_]
      rfl
    · rw [List.foldr_nil, lines_of_notMem last (by simpa using none_)]
      simp
  | cons text texts ih =>
    have split_ : (fileText (text :: texts) tail).toList =
        text.toList ++ '\n' :: (fileText texts tail).toList := by
      unfold fileText
      rw [List.foldr_cons, String.toList_append, String.toList_append, List.append_assoc]
      rfl
    rw [split_, lines_line (free text List.mem_cons_self), List.map_cons,
      ih fun later member => free later (List.mem_cons_of_mem _ member)]
    rfl

end Files

variable {codec}

theorem filterMap_filter_blank (lawful : codec.Lawful) (texts : List String) :
    (texts.filter (· ≠ "")).filterMap codec.decode = texts.filterMap codec.decode := by
  rw [List.filterMap_filter]
  refine List.filterMap_congr fun text _ => ?_
  by_cases none_ : text = ""
  · simp [none_, lawful.blank]
  · simp [none_]

/-- **The events of a file** are those its lines hold. -/
theorem FileHolds.fileEvents_eq {file : FileBytes} {entries : List (Option Event)}
    (holds : FileHolds codec file entries) (lawful : codec.Lawful) :
    fileEvents codec file = entries.reduceOption := by
  obtain ⟨texts, tail, free, last, rfl, rfl⟩ := holds
  unfold fileEvents
  rw [readLines_fileText free last, filterMap_filter_blank lawful]
  unfold List.reduceOption
  rw [List.filterMap_map]
  rfl

/-! ### The scan from the end -/

def NewestFirst (codec : AuditCodec Event) (events : List Event) : Prop :=
  events.Pairwise fun later earlier => codec.tsUnix earlier ≤ codec.tsUnix later + sinceSkewSecs

section Scan

variable {since : Option ℚ} {limit : Nat} {keep : Event → Bool}

/-- An event is asked for. -/
def passes (codec : AuditCodec Event) (since : Option ℚ) (keep : Event → Bool) (event : Event) :
    Bool :=
  notBefore codec since event && keep event

theorem passes_of_wellPast {event earlier : Event} (past : wellPast codec since event = true)
    (ordered : codec.tsUnix earlier ≤ codec.tsUnix event + sinceSkewSecs) :
    passes codec since keep earlier = false := by
  unfold wellPast at past
  cases since with
  | none => cases past
  | some time =>
    simp only [Option.any_some, decide_eq_true_eq] at past
    unfold passes notBefore
    simp only [Option.all_some, Bool.and_eq_false_iff, decide_eq_false_iff_not, not_le]
    left
    linarith

/-- **Scanning lines** gives the first events that pass, as many as are wanted. -/
theorem scan_eq (lawful : codec.Lawful) {texts : List String}
    (ordered : since.isSome = true → NewestFirst codec (texts.filterMap codec.decode))
    {newestFirst : List Event} (room : newestFirst.length < limit) :
    (scan codec since limit keep texts newestFirst).1 =
      (newestFirst ++ (texts.filterMap codec.decode).filter (passes codec since keep)).take
        limit := by
  induction texts generalizing newestFirst with
  | nil => simp [scan, List.take_of_length_le room.le]
  | cons text rest ih =>
    rw [scan]
    by_cases none_ : text = ""
    · rw [none_, List.filterMap_cons_none lawful.blank] at ordered ⊢
      rw [if_pos rfl]
      exact ih ordered room
    rw [if_neg none_]
    cases found : codec.decode text with
    | none =>
      rw [List.filterMap_cons_none found] at ordered ⊢
      exact ih ordered room
    | some event =>
      rw [List.filterMap_cons_some found] at ordered ⊢
      have later : since.isSome = true → NewestFirst codec (rest.filterMap codec.decode) :=
        fun bound => (List.pairwise_cons.mp (ordered bound)).2
      dsimp only
      split_ifs with past early kept full
      · have nothing : (event :: rest.filterMap codec.decode).filter
            (passes codec since keep) = [] := by
          have bound : since.isSome = true := by
            cases since with
            | none => cases past
            | some time => rfl
          refine List.filter_eq_nil_iff.mpr fun other member => ?_
          rw [Bool.not_eq_true]
          refine passes_of_wellPast past ?_
          rcases List.mem_cons.mp member with rfl | member
          · exact le_add_of_nonneg_right (by decide +kernel)
          · exact (List.pairwise_cons.mp (ordered bound)).1 other member
        rw [nothing, List.append_nil, List.take_of_length_le room.le]
      · rw [List.filter_cons_of_neg (by simp_all [passes])]
        exact ih later room
      · have one : (newestFirst ++ [event]).length = limit := by
          rw [List.length_append, List.length_singleton]
          exact le_antisymm room full
        rw [List.filter_cons_of_pos (by simp_all [passes]), List.append_cons newestFirst event
          (List.filter _ _), List.take_append_of_le_length one.ge,
          List.take_of_length_le one.le]
      · rw [List.filter_cons_of_pos (by simp_all [passes]), List.append_cons newestFirst event
          (List.filter _ _)]
        exact ih later (by rw [List.length_append]; exact not_le.mp full)
      · rw [List.filter_cons_of_neg (by simp_all [passes])]
        exact ih later room

theorem scan_append (first second : List String) (newestFirst : List Event) :
    scan codec since limit keep (first ++ second) newestFirst =
      if (scan codec since limit keep first newestFirst).2 then
        scan codec since limit keep first newestFirst
      else
        scan codec since limit keep second (scan codec since limit keep first newestFirst).1 := by
  induction first generalizing newestFirst with
  | nil => rfl
  | cons text rest ih =>
    rw [List.cons_append, scan, scan]
    by_cases none_ : text = ""
    · rw [if_pos none_, if_pos none_, ih]
    rw [if_neg none_, if_neg none_]
    cases codec.decode text with
    | none => exact ih newestFirst
    | some event =>
      cases past : wellPast codec since event <;> cases early : notBefore codec since event <;>
        cases kept : keep event <;> by_cases full : limit ≤ newestFirst.length + 1 <;>
        simp [ih, past, early, kept, full]

theorem length_scan_lt (texts : List String) {newestFirst : List Event}
    (room : newestFirst.length < limit)
    (goesOn : (scan codec since limit keep texts newestFirst).2 = false) :
    (scan codec since limit keep texts newestFirst).1.length < limit := by
  induction texts generalizing newestFirst with
  | nil => exact room
  | cons text rest ih =>
    rw [scan] at goesOn ⊢
    by_cases none_ : text = ""
    · rw [if_pos none_] at goesOn ⊢
      exact ih room goesOn
    rw [if_neg none_] at goesOn ⊢
    cases found : codec.decode text with
    | none =>
      rw [found] at goesOn
      exact ih room goesOn
    | some event =>
      rw [found] at goesOn
      dsimp only at goesOn ⊢
      split_ifs at goesOn ⊢ with past early kept full
      · exact ih room goesOn
      · exact ih (by rw [List.length_append]; exact not_le.mp full) goesOn
      · exact ih room goesOn

end Scan

/-! ### Both readers -/

def lastOf {α : Type*} (limit : Nat) (l : List α) : List α :=
  l.drop (l.length - limit)

def InOrder (codec : AuditCodec Event) (events : List Event) : Prop :=
  events.Pairwise fun earlier later => codec.tsUnix earlier ≤ codec.tsUnix later + sinceSkewSecs

structure LineEvents (Event : Type*) where
  live : List (Option Event) := []
  rotated : List (Option Event) := []
  deriving DecidableEq

structure DiskHolds (codec : AuditCodec Event) (disk : AuditDisk) (entries : LineEvents Event) :
    Prop where
  live : FileHolds codec (disk.live.getD []) entries.live
  rotated : FileHolds codec (disk.rotated.getD []) entries.rotated

/-- **What is read of the log**, whatever the order of the times. -/
structure Reads (codec : AuditCodec Event) (disk : AuditDisk) (entries : LineEvents Event) :
    Prop where
  whole : ∀ since, readAuditLog codec disk since =
    (entries.live.reduceOption ++ entries.rotated.reduceOption).filter (notBefore codec since)
  recent : ∀ since limit keep,
    (since.isSome = true →
      InOrder codec (entries.rotated.reduceOption ++ entries.live.reduceOption)) →
      readAuditLogRecent codec disk since limit keep =
        some (lastOf limit ((entries.rotated.reduceOption ++ entries.live.reduceOption).filter
          (passes codec since keep)))

section Readers

variable {disk : AuditDisk} {entries : LineEvents Event} {since : Option ℚ} {limit : Nat}
  {keep : Event → Bool}

theorem flatMap_fileEvents {file : Option FileBytes} {held : List (Option Event)}
    (holds : FileHolds codec (file.getD []) held) (lawful : codec.Lawful) :
    [file].reduceOption.flatMap (fileEvents codec) = held.reduceOption := by
  have read := holds.fileEvents_eq lawful
  cases file with
  | none => exact read
  | some bytes =>
    rw [List.reduceOption_singleton]
    exact (List.flatMap_singleton _ _).trans read

theorem DiskHolds.readAuditLog_eq (holds : DiskHolds codec disk entries) (lawful : codec.Lawful) :
    readAuditLog codec disk since =
      (entries.live.reduceOption ++ entries.rotated.reduceOption).filter
        (notBefore codec since) := by
  have files : [disk.live, disk.rotated].reduceOption =
      [disk.live].reduceOption ++ [disk.rotated].reduceOption :=
    List.reduceOption_append [disk.live] [disk.rotated]
  unfold readAuditLog
  rw [files, List.flatMap_append, flatMap_fileEvents holds.live lawful,
    flatMap_fileEvents holds.rotated lawful]

theorem scanFiles_cons (since : Option ℚ) (limit : Nat) (keep : Event → Bool)
    {file : Option FileBytes} {held : List (Option Event)}
    (holds : FileHolds codec (file.getD []) held) :
    ∃ seen : List String, held = seen.map codec.decode ∧
      ∀ rest (newestFirst : List Event), newestFirst.length < limit →
        scanFiles codec since limit keep (file :: rest) newestFirst =
          if (scan codec since limit keep seen.reverse newestFirst).2 then
            some (scan codec since limit keep seen.reverse newestFirst).1
          else scanFiles codec since limit keep rest
            (scan codec since limit keep seen.reverse newestFirst).1 := by
  obtain ⟨texts, tail, free, last, bytes, rfl⟩ := holds
  refine ⟨linesOf texts tail, rfl, fun rest newestFirst room => ?_⟩
  cases file with
  | none =>
    have nothing : linesOf texts tail = [] := by
      rw [← readLines_fileText free last, ← bytes]
      rfl
    rw [scanFiles, if_neg (not_le.mpr room), nothing]
    rfl
  | some file =>
    rw [scanFiles, if_neg (not_le.mpr room),
      show file = utf8 (fileText texts tail) from bytes, textOf_utf8]
    dsimp only
    rw [lines_fileText free last]

/-- **The two files are scanned as one text.** -/
theorem DiskHolds.readAuditLogRecent_eq (holds : DiskHolds codec disk entries)
    (lawful : codec.Lawful)
    (ordered : since.isSome = true →
      InOrder codec (entries.rotated.reduceOption ++ entries.live.reduceOption)) :
    readAuditLogRecent codec disk since limit keep =
      some (lastOf limit ((entries.rotated.reduceOption ++ entries.live.reduceOption).filter
        (passes codec since keep))) := by
  rcases Nat.eq_zero_or_pos limit with rfl | some_
  · unfold readAuditLogRecent lastOf
    rw [Nat.sub_zero, List.drop_length]
    cases disk.live <;> rfl
  obtain ⟨first, heldLive, scanned⟩ := scanFiles_cons since limit keep holds.live
  obtain ⟨second, heldRotated, scanned'⟩ := scanFiles_cons since limit keep holds.rotated
  have events : (first.reverse ++ second.reverse).filterMap codec.decode =
      (entries.rotated.reduceOption ++ entries.live.reduceOption).reverse := by
    rw [heldLive, heldRotated, ← List.reverse_append, List.filterMap_reverse,
      List.filterMap_append]
    unfold List.reduceOption
    rw [List.filterMap_map, List.filterMap_map]
    rfl
  have both : scanFiles codec since limit keep [disk.live, disk.rotated] [] =
      some (scan codec since limit keep (first.reverse ++ second.reverse) []).1 := by
    rw [scanned _ [] some_, scan_append]
    split_ifs with stopped
    · rfl
    · rw [Bool.not_eq_true] at stopped
      have room : ([] : List Event).length < limit := some_
      rw [scanned' _ _ (length_scan_lt _ room stopped)]
      split_ifs
      · rfl
      · rfl
  have newest : since.isSome = true →
      NewestFirst codec ((first.reverse ++ second.reverse).filterMap codec.decode) := by
    intro bound
    rw [events]
    exact List.pairwise_reverse.mpr (ordered bound)
  unfold readAuditLogRecent lastOf
  rw [both, Option.map_some, scan_eq lawful newest some_, events, List.nil_append,
    List.filter_reverse, List.reverse_take, List.reverse_reverse, List.length_reverse]

/-- **What the lines hold is what is read.** -/
theorem DiskHolds.reads (holds : DiskHolds codec disk entries) (lawful : codec.Lawful) :
    Reads codec disk entries where
  whole _ := holds.readAuditLog_eq lawful
  recent _ _ _ ordered := holds.readAuditLogRecent_eq lawful ordered

end Readers

end Lain.Server.AuditLog
