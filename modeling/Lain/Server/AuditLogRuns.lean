import Mathlib
import Lain.Foundation.LineBuffer
import Lain.Foundation.Runs
import Lain.Server.AuditLog

/-!
# Runs of the audit log

Appends, crashes that leave the beginning of a line, and damage to a line, with what each line of
the two files holds kept beside them.
-/

namespace Lain.Server.AuditLog

open Foundation Foundation.TextLines

/-- What can happen to the log. -/
inductive AuditStep (Event : Type*) where
  /-- An append runs to its end. -/
  | append (event : Event)
  /-- An append stops after some bytes of its line. -/
  | crash (event : Event) (kept : Nat)
  /-- A line of a file, between what is in front of it and what is behind, becomes another. -/
  | damage (rotated : Bool) (front line rest text : FileBytes)

/-- The files, and what each of their lines holds. -/
structure AuditWorld (Event : Type*) where
  disk : AuditDisk := {}
  entries : LineEvents Event := {}
  deriving DecidableEq

variable {Event : Type*}

def tornOf (file : FileBytes) : String :=
  (textOf (LineBuffer.takeLines 10 file).2).getD ""

def extend (entries : List (Option Event)) (torn : String) (alone joined : Option Event) :
    List (Option Event) :=
  if torn = "" then entries ++ [alone] else entries.dropLast ++ [joined]

namespace LineEvents

/-- The entries as the next line finds them. -/
def ready (entries : LineEvents Event) (disk : AuditDisk) : LineEvents Event :=
  if disk.needsRotate then { live := [], rotated := entries.live } else entries

def write (entries : LineEvents Event) (torn : String) (alone joined : Option Event) :
    LineEvents Event :=
  { entries with live := extend entries.live torn alone joined }

def forget (entries : LineEvents Event) (rotated : Bool) (i : Nat) : LineEvents Event :=
  if rotated then { entries with rotated := entries.rotated.set i none }
  else { entries with live := entries.live.set i none }

end LineEvents

def EndsLine (file : FileBytes) : Prop :=
  file = [] ∨ file.getLast? = some 10

instance EndsLine.decidable (file : FileBytes) : Decidable (EndsLine file) :=
  inferInstanceAs (Decidable (_ ∨ _))

def AuditDisk.file (disk : AuditDisk) (rotated : Bool) : Option FileBytes :=
  if rotated then disk.rotated else disk.live

def AuditDisk.setFile (disk : AuditDisk) (rotated : Bool) (file : FileBytes) : AuditDisk :=
  if rotated then { disk with rotated := some file } else { disk with live := some file }

namespace AuditWorld

variable (codec : AuditCodec Event)

def torn (w : AuditWorld Event) : String :=
  tornOf (w.disk.ready.live.getD [])

/-- One step. -/
def step (w : AuditWorld Event) : AuditStep Event → Option (AuditWorld Event)
  | .append event =>
    some
      { disk := appendEditEvent codec w.disk event
        entries := (w.entries.ready w.disk).write w.torn (some event)
          (codec.decode (w.torn ++ codec.encode event)) }
  | .crash event kept =>
    let piece := (lineOf codec event).take kept
    if kept < (lineOf codec event).length then
      some
        { disk := w.disk.ready.write piece
          entries :=
            if kept = 0 then w.entries.ready w.disk
            else (w.entries.ready w.disk).write w.torn
              (if kept + 1 = (lineOf codec event).length then some event else none)
              (codec.decode (w.torn ++ (textOf piece).getD "")) }
    else none
  | .damage rotated front line rest text =>
    if w.disk.file rotated = some (front ++ line ++ 10 :: rest) ∧ EndsLine front ∧ 10 ∉ line ∧
        10 ∉ text then
      some
        { disk := w.disk.setFile rotated (front ++ text ++ 10 :: rest)
          entries := w.entries.forget rotated (LineBuffer.takeLines 10 front).1.length }
    else none

/-- What a crash or the damage leaves is text, the latter of no event. -/
def Spared (_ : AuditWorld Event) : AuditStep Event → Prop
  | .append _ => True
  | .crash event kept => ∃ text : String, text.toList <+: (codec.encode event).toList ∧
      (lineOf codec event).take kept = utf8 text
  | .damage _ _ _ _ text => ∃ line : String, text = utf8 line ∧
      codec.decode (String.ofList (dropReturn line.toList)) = none

end AuditWorld

/-! ### What is kept -/

section Invariant

variable {codec : AuditCodec Event} {w w' : AuditWorld Event} {entries : List (Option Event)}

theorem FileHolds.nil : FileHolds codec [] [] :=
  ⟨[], "", fun _ member => absurd member List.not_mem_nil, by simp, rfl, rfl⟩

theorem utf8_fileText (texts : List String) (tail : String) :
    utf8 (fileText texts tail) = (texts.map utf8).flatMap (· ++ [10]) ++ utf8 tail := by
  induction texts with
  | nil => rfl
  | cons text texts ih =>
    rw [utf8_fileText_cons, ih, List.map_cons, List.flatMap_cons, List.append_assoc,
      List.append_assoc]
    rfl

theorem tornOf_fileText {texts : List String} {tail : String}
    (free : ∀ text ∈ texts, '\n' ∉ text.toList) (last : '\n' ∉ tail.toList) :
    tornOf (utf8 (fileText texts tail)) = tail := by
  have whole : ∀ piece ∈ texts.map utf8, 10 ∉ piece := by
    intro piece member
    obtain ⟨text, listed, rfl⟩ := List.mem_map.mp member
    exact notMem_utf8 (c := '\n') (free text listed) (by decide)
  have last_ : 10 ∉ utf8 tail := notMem_utf8 (c := '\n') last (by decide)
  unfold tornOf
  rw [utf8_fileText, LineBuffer.takeLines_flatMap whole, LineBuffer.takeLines_of_notMem last_]
  dsimp only
  rw [textOf_utf8, Option.getD_some]

theorem extend_linesOf (texts : List String) (tail : String) (alone : Option Event)
    (text : String) :
    extend ((linesOf texts tail).map codec.decode) tail alone (codec.decode text) =
      texts.map (fun text => codec.decode (String.ofList (dropReturn text.toList))) ++
        [if tail = "" then alone else codec.decode text] := by
  unfold extend linesOf
  split_ifs with none_ <;> simp

theorem AuditCodec.Lawful.encode_ne (lawful : codec.Lawful) (event : Event) :
    codec.encode event ≠ "" := by
  intro none_
  have read := lawful.reads event
  rw [none_, lawful.blank] at read
  cases read

theorem FileHolds.line {file : FileBytes} (holds : FileHolds codec file entries)
    (lawful : codec.Lawful) (event : Event) :
    FileHolds codec (file ++ lineOf codec event)
      (extend entries (tornOf file) (some event)
        (codec.decode (tornOf file ++ codec.encode event))) := by
  obtain ⟨texts, tail, free, last, rfl, rfl⟩ := holds
  rw [tornOf_fileText free last, extend_linesOf]
  refine ⟨texts ++ [tail ++ codec.encode event], "", ?_, by simp, ?_, ?_⟩
  · refine List.forall_mem_append.mpr ⟨free, fun text member => ?_⟩
    rw [List.mem_singleton.mp member, String.toList_append]
    exact List.not_mem_append last (lawful.oneLine event)
  · have one : utf8 tail ++ lineOf codec event =
        [utf8 (tail ++ codec.encode event)].flatMap (· ++ [10]) := by
      unfold lineOf
      rw [List.flatMap_singleton, utf8_append, List.append_assoc]
    have nothing : utf8 "" = [] := rfl
    rw [utf8_fileText, utf8_fileText, List.map_append, List.flatMap_append, List.map_singleton,
      List.append_assoc, one, nothing, List.append_nil]
  · have kept : dropReturn (tail ++ codec.encode event).toList =
        (tail ++ codec.encode event).toList := by
      have some_ : (codec.encode event).toList ≠ [] :=
        mt String.toList_eq_nil_iff.mp (lawful.encode_ne event)
      refine if_neg fun ends => lawful.noReturn event ?_
      rw [String.toList_append, List.getLast?_append_of_ne_nil _ some_] at ends
      exact List.mem_of_getLast? ends
    unfold linesOf
    rw [if_pos rfl, List.append_nil, List.map_append, List.map_append, List.map_map,
      List.map_singleton, List.map_singleton, kept, String.ofList_toList]
    congr 2
    split_ifs with none_
    · rw [none_, String.empty_append, lawful.reads]
    · rfl

theorem FileHolds.piece {file : FileBytes} (holds : FileHolds codec file entries) {text : String}
    (free : '\n' ∉ text.toList) (some_ : text ≠ "") :
    FileHolds codec (file ++ utf8 text)
      (extend entries (tornOf file) (codec.decode text) (codec.decode (tornOf file ++ text))) := by
  obtain ⟨texts, tail, whole, last, rfl, rfl⟩ := holds
  rw [tornOf_fileText whole last, extend_linesOf]
  refine ⟨texts, tail ++ text, whole, ?_, ?_, ?_⟩
  · rw [String.toList_append]
    exact List.not_mem_append last free
  · rw [utf8_fileText, utf8_fileText, List.append_assoc, utf8_append]
  · have filled : tail ++ text ≠ "" := fun none_ => some_ (String.append_eq_empty_iff.mp none_).2
    unfold linesOf
    rw [if_neg filled, List.map_append, List.map_map, List.map_singleton]
    congr 2
    split_ifs with none_
    · rw [none_, String.empty_append]
    · rfl

theorem FileHolds.damage {front line rest : FileBytes}
    (holds : FileHolds codec (front ++ line ++ 10 :: rest) entries) (ends : EndsLine front)
    (whole : 10 ∉ line) {text : String} (free : 10 ∉ utf8 text)
    (none_ : codec.decode (String.ofList (dropReturn text.toList)) = none) :
    FileHolds codec (front ++ utf8 text ++ 10 :: rest)
      (entries.set (LineBuffer.takeLines 10 front).1.length none) := by
  obtain ⟨texts, tail, free', last, bytes, rfl⟩ := holds
  obtain ⟨before, rest', split_, clear, unbroken⟩ := LineBuffer.exists_lines 10 front
  obtain rfl : rest' = [] := by
    by_contra more
    rw [split_] at ends
    rcases ends with empty | feed
    · exact more (List.append_eq_nil_iff.mp empty).2
    · rw [List.getLast?_append_of_ne_nil _ more] at feed
      exact unbroken (List.mem_of_getLast? feed)
  rw [List.append_nil] at split_
  have count : (LineBuffer.takeLines 10 front).1 = before := by
    have taken := LineBuffer.takeLines_flatMap clear []
    rw [List.append_nil, ← split_] at taken
    rw [taken, LineBuffer.takeLines_of_notMem List.not_mem_nil, List.append_nil]
  -- the damaged line is one of the lines of the file, so the file splits around it
  have taken : before ++ line :: (LineBuffer.takeLines 10 rest).1 = texts.map utf8 := by
    have whole_ : ∀ piece ∈ texts.map utf8, 10 ∉ piece := by
      intro piece member
      obtain ⟨text, listed, rfl⟩ := List.mem_map.mp member
      exact notMem_utf8 (c := '\n') (free' text listed) (by decide)
    have last_ : 10 ∉ utf8 tail := notMem_utf8 (c := '\n') last (by decide)
    have same := congrArg (fun file => (LineBuffer.takeLines 10 file).1) bytes
    simp only [utf8_fileText, List.append_assoc] at same
    rw [split_, LineBuffer.takeLines_flatMap clear, LineBuffer.takeLines_line whole,
      LineBuffer.takeLines_flatMap whole_, LineBuffer.takeLines_of_notMem last_,
      List.append_nil] at same
    exact same
  obtain ⟨texts₁, texts₂, rfl, same₁, same₂⟩ := List.map_eq_append_iff.mp taken.symm
  obtain ⟨old, texts₃, rfl, rfl, -⟩ := List.map_eq_cons_iff.mp same₂
  have behind : rest = utf8 (fileText texts₃ tail) := by
    rw [utf8_fileText, List.map_append, List.flatMap_append, same₁, ← split_, List.append_assoc,
      List.append_assoc, List.map_cons, List.flatMap_cons, List.append_assoc,
      List.append_assoc] at bytes
    have cut := List.append_cancel_left (List.append_cancel_left bytes)
    rw [utf8_fileText]
    exact (List.cons_inj_right 10).mp cut
  have line_ : ∀ middle : String, linesOf (texts₁ ++ middle :: texts₃) tail =
      linesOf texts₁ "" ++ String.ofList (dropReturn middle.toList) :: linesOf texts₃ tail := by
    intro middle
    unfold linesOf
    simp
  refine ⟨texts₁ ++ text :: texts₃, tail, ?_, last, ?_, ?_⟩
  · intro member listed
    rcases List.mem_append.mp listed with first | later
    · exact free' member (List.mem_append_left _ first)
    rcases List.mem_cons.mp later with rfl | later
    · exact fun feed => free (List.mem_flatMap.mpr ⟨'\n', feed, List.mem_singleton_self 10⟩)
    · exact free' member (List.mem_append_right _ (List.mem_cons_of_mem _ later))
  · rw [behind, utf8_fileText, utf8_fileText, List.map_append, List.flatMap_append, same₁,
      ← split_, List.map_cons, List.flatMap_cons]
    simp only [List.append_assoc, List.cons_append, List.nil_append]
  · have place : (linesOf texts₁ "").length = before.length := by
      rw [← same₁]
      simp [linesOf]
    rw [count, line_, line_, List.map_append, List.map_append, List.map_cons, List.map_cons, none_,
      ← place]
    simp

theorem DiskHolds.setFile {disk : AuditDisk} {held : LineEvents Event} {i : Nat}
    {rotated : Bool} {file : FileBytes} (holds : DiskHolds codec disk held)
    (changed : FileHolds codec file
      ((if rotated then held.rotated else held.live).set i none)) :
    DiskHolds codec (disk.setFile rotated file) (held.forget rotated i) := by
  cases rotated with
  | false => exact ⟨changed, holds.rotated⟩
  | true => exact ⟨holds.live, changed⟩

theorem DiskHolds.ready (holds : DiskHolds codec w.disk w.entries) :
    DiskHolds codec w.disk.ready (w.entries.ready w.disk) := by
  unfold AuditDisk.ready LineEvents.ready
  split_ifs with full
  · exact ⟨.nil, holds.live⟩
  · exact holds

theorem decode_of_take (lawful : codec.Lawful) {event : Event} {kept : Nat} {text : String}
    (short : kept < (lineOf codec event).length)
    (begins : text.toList <+: (codec.encode event).toList)
    (left : (lineOf codec event).take kept = utf8 text) :
    codec.decode text =
      if kept + 1 = (lineOf codec event).length then some event else none := by
  have length_ : (lineOf codec event).length = (utf8 (codec.encode event)).length + 1 := by
    unfold lineOf
    rw [List.length_append, List.length_singleton]
  split_ifs with all
  · have whole : (lineOf codec event).take kept = utf8 (codec.encode event) := by
      unfold lineOf
      rw [List.take_append_of_le_length (by omega), List.take_of_length_le (by omega)]
    have same : some text = some (codec.encode event) := by
      rw [← textOf_utf8, ← textOf_utf8, ← left, whole]
    rw [Option.some_inj.mp same]
    exact lawful.reads event
  · refine lawful.torn begins fun same => all ?_
    have counted := congrArg List.length left
    rw [List.length_take, same] at counted
    omega

/-- **What the files hold is kept by every step.** -/
theorem AuditWorld.step_keeps (lawful : codec.Lawful) (holds : DiskHolds codec w.disk w.entries)
    {event : AuditStep Event} (spared : w.Spared codec event)
    (moved : w.step codec event = some w') : DiskHolds codec w'.disk w'.entries := by
  have held := holds.ready
  cases event with
  | append event =>
    cases moved
    exact ⟨held.live.line lawful event, held.rotated⟩
  | crash event kept =>
    obtain ⟨text, begins, left⟩ := spared
    obtain ⟨short, done⟩ := Option.ite_none_right_eq_some.mp moved
    cases done
    dsimp only
    by_cases none_ : kept = 0
    · rw [if_pos none_, none_, List.take_zero]
      refine ⟨?_, held.rotated⟩
      have same := held.live
      rw [← List.append_nil (w.disk.ready.live.getD [])] at same
      exact same
    · rw [if_neg none_]
      have some_ : text ≠ "" := by
        rintro rfl
        have counted := congrArg List.length left
        rw [List.length_take] at counted
        exact none_ ((min_eq_left short.le).symm.trans counted)
      have free : '\n' ∉ text.toList := fun feed => lawful.oneLine event (begins.subset feed)
      rw [← decode_of_take lawful short begins left, left, textOf_utf8, Option.getD_some]
      exact ⟨held.live.piece free some_, held.rotated⟩
  | damage rotated front line rest bytes =>
    obtain ⟨text, rfl, none_⟩ := spared
    obtain ⟨⟨there, ends, whole, free⟩, done⟩ := Option.ite_none_right_eq_some.mp moved
    cases done
    refine holds.setFile ?_
    cases rotated with
    | false =>
      have held := holds.live
      rw [show w.disk.live = _ from there] at held
      exact held.damage ends whole free none_
    | true =>
      have held := holds.rotated
      rw [show w.disk.rotated = _ from there] at held
      exact held.damage ends whole free none_

theorem AuditWorld.holds_of_runs (lawful : codec.Lawful) {steps : List (AuditStep Event)}
    (run : Runs (AuditWorld.step codec) (AuditWorld.Spared codec) {} steps w) :
    DiskHolds codec w.disk w.entries :=
  Runs.invariant (I := fun _ w => DiskHolds codec w.disk w.entries) ⟨.nil, .nil⟩
    (fun holds spared moved => AuditWorld.step_keeps lawful holds spared moved) run

/-- **Both readers find what was written whole.** In every run of appends, rotations, crashes and
damage that spares the other lines, the one reader has the events of the live file and then those
that were set aside, and the other has the last of those asked for, in the order of the appends. -/
theorem AuditWorld.reads_of_runs (lawful : codec.Lawful) {steps : List (AuditStep Event)}
    (run : Runs (AuditWorld.step codec) (AuditWorld.Spared codec) {} steps w) :
    Reads codec w.disk w.entries :=
  (AuditWorld.holds_of_runs lawful run).reads lawful

end Invariant

/-! ### Two events -/

/-- Two events: a digit, and a digit with zeros behind it. -/
def padded (zeros : Nat) : AuditCodec Bool where
  encode event := String.ofList (if event then '1' :: List.replicate zeros '0' else ['0'])
  decode text :=
    if text = String.ofList ('1' :: List.replicate zeros '0') then some true
    else if text = String.ofList ['0'] then some false
    else none
  tsUnix _ := 0

theorem padded_lawful (zeros : Nat) : (padded zeros).Lawful where
  reads event := by
    cases event with
    | false =>
      have other : String.ofList ['0'] ≠ String.ofList ('1' :: List.replicate zeros '0') :=
        fun same => by simpa using String.ofList_injective same
      exact (if_neg other).trans (if_pos rfl)
    | true => exact if_pos rfl
  oneLine event := by cases event <;> simp [padded]
  noReturn event := by cases event <;> simp [padded]
  torn {event text} begins other := by
    obtain ⟨chars, rfl⟩ : ∃ chars, text = String.ofList chars := ⟨text.toList, by simp⟩
    cases event with
    | false =>
      have digit : chars <+: ['0'] := by simpa [padded] using begins
      rcases List.prefix_cons_iff.mp digit with rfl | ⟨rest, rfl, nothing⟩
      · exact (if_neg (by simp)).trans (if_neg (by simp))
      · rw [List.prefix_nil.mp nothing] at other
        exact absurd rfl other
    | true =>
      refine (if_neg other).trans (if_neg fun same => ?_)
      rw [same] at begins
      simp [padded] at begins
  blank := (if_neg (by simp)).trans (if_neg (by decide))

theorem needsRotate_padded (disk : AuditDisk) {zeros : Nat} (many : auditLogMaxBytes ≤ zeros) :
    (disk.write (lineOf (padded zeros) true)).needsRotate = true := by
  have encoded : (utf8 ((padded zeros).encode true)).length = zeros + 1 := by
    have one : String.utf8EncodeChar '1' = [49] := rfl
    have zero : '0'.utf8Size = 1 := rfl
    simp [utf8, padded, one, zero]
  have size : zeros ≤ (disk.live.getD [] ++ lineOf (padded zeros) true).length := by
    unfold lineOf
    rw [List.length_append, List.length_append, encoded]
    omega
  exact decide_eq_true (many.trans size)

theorem AuditWorld.reads_of_runs_two :
    Reads (padded 2) { live := some [120, 10, 48, 10, 49, 48, 10] }
      { live := [none, some false, none] } := by
  have one : Runs (AuditWorld.step (padded 2)) (AuditWorld.Spared (padded 2)) {}
      [.append true]
      { disk := { live := some [49, 48, 48, 10] }, entries := { live := [some true] } } :=
    Runs.start.step trivial (by decide +kernel)
  have two : Runs (AuditWorld.step (padded 2)) (AuditWorld.Spared (padded 2)) {}
      ([.append true] ++ [.append false])
      { disk := { live := some [49, 48, 48, 10, 48, 10] }
        entries := { live := [some true, some false] } } :=
    one.step trivial (by decide +kernel)
  have three : Runs (AuditWorld.step (padded 2)) (AuditWorld.Spared (padded 2)) {}
      ([.append true] ++ [.append false] ++ [.damage false [] [49, 48, 48] [48, 10] [120]])
      { disk := { live := some [120, 10, 48, 10] }
        entries := { live := [none, some false] } } :=
    two.step ⟨"x", rfl, by decide +kernel⟩ (by decide +kernel)
  have four : Runs (AuditWorld.step (padded 2)) (AuditWorld.Spared (padded 2)) {}
      ([.append true] ++ [.append false] ++ [.damage false [] [49, 48, 48] [48, 10] [120]] ++
        [.crash true 1])
      { disk := { live := some [120, 10, 48, 10, 49] }
        entries := { live := [none, some false, none] } } :=
    three.step ⟨"1", by decide +kernel, by decide +kernel⟩ (by decide +kernel)
  have five : Runs (AuditWorld.step (padded 2)) (AuditWorld.Spared (padded 2)) {}
      ([.append true] ++ [.append false] ++ [.damage false [] [49, 48, 48] [48, 10] [120]] ++
        [.crash true 1] ++ [.append false])
      { disk := { live := some [120, 10, 48, 10, 49, 48, 10] }
        entries := { live := [none, some false, none] } } :=
    four.step trivial (by decide +kernel)
  exact AuditWorld.reads_of_runs (padded_lawful 2) five

theorem runs_padded {zeros : Nat} (many : auditLogMaxBytes ≤ zeros) :
    ∃ w, Runs (AuditWorld.step (padded zeros)) (AuditWorld.Spared (padded zeros)) {}
        [.append true, .append false] w ∧
      w.entries = { live := [some false], rotated := [some true] } := by
  have full := needsRotate_padded {} many
  have one : Runs (AuditWorld.step (padded zeros)) (AuditWorld.Spared (padded zeros)) {}
      [.append true]
      { disk := ({} : AuditDisk).write (lineOf (padded zeros) true)
        entries := { live := [some true] } } :=
    Runs.start.step trivial rfl
  have alone : ({ disk := ({} : AuditDisk).write (lineOf (padded zeros) true)
                  entries := { live := [some true] } } : AuditWorld Bool).torn = "" := by
    unfold AuditWorld.torn AuditDisk.ready
    rw [if_pos full]
    rfl
  refine ⟨_, one.step trivial rfl, ?_⟩
  unfold LineEvents.ready LineEvents.write extend
  rw [if_pos full, if_pos alone]
  rfl

/-- The live file is read before the one that was set aside, so the later event comes first. -/
theorem readAuditLog_fails :
    ∃ w, (padded auditLogMaxBytes).Lawful ∧
      Runs (AuditWorld.step (padded auditLogMaxBytes))
        (AuditWorld.Spared (padded auditLogMaxBytes)) {} [.append true, .append false] w ∧
      w.entries = { live := [some false], rotated := [some true] } ∧
      readAuditLog (padded auditLogMaxBytes) w.disk none = [false, true] := by
  have lawful := padded_lawful auditLogMaxBytes
  obtain ⟨w, run, held⟩ := runs_padded (le_refl auditLogMaxBytes)
  refine ⟨w, lawful, run, held, ?_⟩
  rw [(AuditWorld.holds_of_runs lawful run).readAuditLog_eq lawful, held]
  rfl

end Lain.Server.AuditLog
