import Mathlib
import Lain.Foundation.Runs
import Lain.Server.EventsLog

/-!
# Runs of the event log

Appends, crashes inside an append and restarts, with the ids that were issued and the events
whose lines were written whole kept beside the files.
-/

namespace Lain.Server

open Foundation Foundation.TextLines

variable {Event Public : Type*}

/-- What can happen to the log. -/
inductive LogStep (Event : Type*) where
  | append (event : Event)
  | crash (event : Event) (point : CrashPoint)
  | restart
  deriving DecidableEq

structure WholeEvents (Public : Type*) where
  live : List (Nat × Public) := []
  rotated : List (Nat × Public) := []
  deriving DecidableEq

namespace WholeEvents

def rotate (whole : WholeEvents Public) : WholeEvents Public where
  live := []
  rotated := whole.live

/-- The events as the next line finds them. -/
def ready (whole : WholeEvents Public) (disk : LogDisk) : WholeEvents Public :=
  if disk.needsRotate then whole.rotate else whole

def write (whole : WholeEvents Public) (entry : Nat × Public) : WholeEvents Public :=
  { whole with live := whole.live ++ [entry] }

end WholeEvents

/-- The files, the next id of the process that runs, and what happened so far: the ids that
an append returned or wrote a whole line for, in order, and the events of the whole lines. -/
structure EventsWorld (Public : Type*) where
  disk : LogDisk := {}
  running : Option Nat := none
  issued : List Nat := []
  whole : WholeEvents Public := {}
  deriving DecidableEq

namespace EventsWorld

/-- The whole events after an append that ran to its end. -/
def appended (codec : EventCodec Event Public) (w : EventsWorld Public) (log : EventsLog)
    (event : Event) : WholeEvents Public :=
  match log.lineOf codec event with
  | none => w.whole
  | some _ => (w.whole.ready w.disk).write (log.nextId, codec.publish event)

def crashed (codec : EventCodec Event Public) (w : EventsWorld Public) (log : EventsLog)
    (event : Event) : CrashPoint → WholeEvents Public
  | .assigned => w.whole
  | .removed => { w.whole with rotated := [] }
  | .renamed => w.whole.rotate
  | .reopened => w.whole.rotate
  | .torn _ => w.whole.ready w.disk
  | .written => w.appended codec log event

/-- One step: an append and a crash need a running process, a restart ends it. -/
def step (codec : EventCodec Event Public) (w : EventsWorld Public) :
    LogStep Event → Option (EventsWorld Public)
  | .append event =>
    w.running.map fun nextId =>
      let log := EventsLog.mk w.disk nextId
      { disk := (log.append codec event).2.disk
        running := some (log.append codec event).2.nextId
        issued := w.issued ++ [(log.append codec event).1]
        whole := w.appended codec log event }
  | .crash event point =>
    w.running.bind fun nextId =>
      let log := EventsLog.mk w.disk nextId
      (log.crashDisk codec event point).map fun disk =>
        { disk
          running := none
          issued := if point = .written then w.issued ++ [nextId] else w.issued
          whole := w.crashed codec log event point }
  | .restart =>
    let log := EventsLog.openLog w.disk
    some { w with disk := log.disk, running := some log.nextId }

/-- **What the log promises**: ids increase over the whole history, and a replay gives, in id
order, every event above an id whose line stands whole in one of the files. -/
structure Sound (codec : EventCodec Event Public) (w : EventsWorld Public) : Prop where
  increasing : w.issued.Pairwise (· < ·)
  ordered : ∀ last, (replayAfter codec last w.disk).Pairwise fun a b => a.1 ≤ b.1
  replayed : ∀ last, ∀ entry ∈ w.whole.live ++ w.whole.rotated, last < entry.1 →
    entry ∈ replayAfter codec last w.disk

def LineFits (codec : EventCodec Event Public) (w : EventsWorld Public) (event : Event) : Prop :=
  codec.encode (codec.publish event) = none ∨ w.disk.needsRotate = true ∨
    EndsLine (w.disk.live.getD [])

/-- No line is put behind a torn one, every restart finds an id in the live file that is as
high as any issued, and the counter stays in its 64 bits. -/
def Spared (codec : EventCodec Event Public) (w : EventsWorld Public) : LogStep Event → Prop
  | .append event => w.LineFits codec event ∧ ∀ nextId ∈ w.running, nextId + 1 < 2 ^ 64
  | .crash event point => point = .written → w.LineFits codec event
  | .restart =>
    (∀ id ∈ w.issued, id ≤ readMaxEventId (w.disk.live.getD [])) ∧
      readMaxEventId (w.disk.live.getD []) + 1 < 2 ^ 64

instance LineFits.decidable (codec : EventCodec Event Public) (w : EventsWorld Public)
    (event : Event) : Decidable (w.LineFits codec event) :=
  inferInstanceAs (Decidable (_ ∨ _ ∨ _))

instance Spared.decidable (codec : EventCodec Event Public) (w : EventsWorld Public) :
    (step : LogStep Event) → Decidable (w.Spared codec step)
  | .append event => inferInstanceAs (Decidable (w.LineFits codec event ∧ ∀ _ ∈ w.running, _))
  | .crash event point => inferInstanceAs (Decidable (point = .written → w.LineFits codec event))
  | .restart => inferInstanceAs (Decidable ((∀ _ ∈ w.issued, _) ∧ _))

end EventsWorld

/-! ### What is kept -/

section Invariant

variable {codec : EventCodec Event Public} {w w' : EventsWorld Public}

structure DiskHolds (codec : EventCodec Event Public) (disk : LogDisk)
    (whole : WholeEvents Public) : Prop where
  live : FileHolds codec (disk.live.getD []) whole.live
  rotated : FileHolds codec (disk.rotated.getD []) whole.rotated

/-- The files hold the whole events, and every issued id is below the next. -/
structure EventsWorld.Kept (codec : EventCodec Event Public) (w : EventsWorld Public) : Prop where
  holds : DiskHolds codec w.disk w.whole
  increasing : w.issued.Pairwise (· < ·)
  below : ∀ nextId ∈ w.running, nextId < 2 ^ 64 ∧ ∀ id ∈ w.issued, id < nextId

theorem DiskHolds.rotate {disk : LogDisk} {whole : WholeEvents Public}
    (holds : DiskHolds codec disk whole) : DiskHolds codec disk.rotate whole.rotate where
  live := FileHolds.nil
  rotated := holds.live

theorem DiskHolds.ready {disk : LogDisk} {whole : WholeEvents Public}
    (holds : DiskHolds codec disk whole) : DiskHolds codec disk.ready (whole.ready disk) := by
  unfold LogDisk.ready WholeEvents.ready
  split_ifs
  · exact holds.rotate
  · exact holds

theorem endsLine_ready {event : Event} {payload : String}
    (text : codec.encode (codec.publish event) = some payload) (fits : w.LineFits codec event) :
    EndsLine (w.disk.ready.live.getD []) := by
  unfold LogDisk.ready
  split_ifs with full
  · exact Or.inl rfl
  · rcases fits with textless | full' | ends
    · rw [text] at textless
      cases textless
    · exact absurd full' full
    · exact ends

theorem lineOf_eq {log : EventsLog} {event : Event} {line : FileBytes}
    (made : log.lineOf codec event = some line) :
    line = entryBytes codec (log.nextId, codec.publish event) ∧
      (codec.encode (codec.publish event)).isSome = true := by
  unfold EventsLog.lineOf at made
  obtain ⟨payload, text, rfl⟩ := Option.map_eq_some_iff.mp made
  unfold entryBytes
  rw [text]
  exact ⟨rfl, rfl⟩

theorem DiskHolds.written (holds : DiskHolds codec w.disk w.whole) {nextId : Nat}
    (small : nextId < 2 ^ 64) {event : Event} {line : FileBytes}
    (made : (EventsLog.mk w.disk nextId).lineOf codec event = some line)
    (fits : w.LineFits codec event) :
    DiskHolds codec (w.disk.ready.write line)
      ((w.whole.ready w.disk).write (nextId, codec.publish event)) where
  live := by
    obtain ⟨rfl, encoded⟩ := lineOf_eq made
    obtain ⟨payload, text⟩ := Option.isSome_iff_exists.mp encoded
    exact holds.ready.live.concat (endsLine_ready text fits) ⟨small, encoded⟩
  rotated := holds.ready.rotated

theorem DiskHolds.append (holds : DiskHolds codec w.disk w.whole) {nextId : Nat}
    (small : nextId < 2 ^ 64) {event : Event} (fits : w.LineFits codec event) :
    DiskHolds codec ((EventsLog.mk w.disk nextId).append codec event).2.disk
      (w.appended codec ⟨w.disk, nextId⟩ event) := by
  unfold EventsLog.append EventsWorld.appended
  cases made : (EventsLog.mk w.disk nextId).lineOf codec event with
  | none => exact holds
  | some line => exact holds.written small made fits

theorem DiskHolds.crash (holds : DiskHolds codec w.disk w.whole) (lawful : codec.Lawful)
    {nextId : Nat} (small : nextId < 2 ^ 64) {event : Event} {point : CrashPoint} {disk : LogDisk}
    (left : (EventsLog.mk w.disk nextId).crashDisk codec event point = some disk)
    (fits : point = .written → w.LineFits codec event) :
    DiskHolds codec disk (w.crashed codec ⟨w.disk, nextId⟩ event point) := by
  unfold EventsLog.crashDisk at left
  cases made : (EventsLog.mk w.disk nextId).lineOf codec event with
  | none =>
    cases point with
    | assigned =>
      obtain rfl := Option.some.inj left
      exact holds
    | removed | renamed | reopened | torn | written =>
      rw [made] at left
      cases left
  | some line =>
    rw [made] at left
    cases point with
    | assigned =>
      obtain rfl := Option.some.inj left
      exact holds
    | removed =>
      obtain ⟨-, same⟩ := Option.ite_none_right_eq_some.mp left
      obtain rfl := Option.some.inj same
      exact ⟨holds.live, FileHolds.nil⟩
    | renamed =>
      obtain ⟨-, same⟩ := Option.ite_none_right_eq_some.mp left
      obtain rfl := Option.some.inj same
      exact ⟨FileHolds.nil, holds.live⟩
    | reopened =>
      obtain ⟨-, same⟩ := Option.ite_none_right_eq_some.mp left
      obtain rfl := Option.some.inj same
      exact holds.rotate
    | torn kept =>
      obtain ⟨short, same⟩ := Option.ite_none_right_eq_some.mp left
      obtain rfl := Option.some.inj same
      obtain ⟨rfl, encoded⟩ := lineOf_eq made
      exact ⟨holds.ready.live.piece (notMem_take_entryBytes lawful ⟨small, encoded⟩ short),
        holds.ready.rotated⟩
    | written =>
      obtain rfl := Option.some.inj left
      unfold EventsWorld.crashed EventsWorld.appended
      rw [made]
      exact holds.written small made (fits rfl)

theorem increasing_concat {issued : List Nat} (increasing : issued.Pairwise (· < ·)) {id : Nat}
    (above : ∀ earlier ∈ issued, earlier < id) : (issued ++ [id]).Pairwise (· < ·) :=
  List.pairwise_append.mpr ⟨increasing, List.pairwise_singleton _ _, fun earlier member _ new =>
    List.mem_singleton.mp new ▸ above earlier member⟩

theorem append_fst (log : EventsLog) (event : Event) : (log.append codec event).1 = log.nextId := by
  unfold EventsLog.append
  split <;> rfl

theorem append_nextId (log : EventsLog) (event : Event) :
    (log.append codec event).2.nextId = (log.nextId + 1) % 2 ^ 64 := by
  unfold EventsLog.append
  split <;> rfl

theorem EventsWorld.Kept.step (kept : w.Kept codec) (lawful : codec.Lawful) {event : LogStep Event}
    (spared : w.Spared codec event) (moved : w.step codec event = some w') : w'.Kept codec := by
  cases event with
  | append event =>
    obtain ⟨nextId, running, rfl⟩ := Option.map_eq_some_iff.mp moved
    obtain ⟨fits, room⟩ := spared
    obtain ⟨small, below⟩ := kept.below nextId running
    refine ⟨kept.holds.append small fits, ?_, fun next counted => ?_⟩
    · change (w.issued ++ [_]).Pairwise _
      rw [append_fst]
      exact increasing_concat kept.increasing below
    · obtain rfl := Option.some.inj counted
      rw [append_nextId, Nat.mod_eq_of_lt (room nextId running)]
      refine ⟨room nextId running, fun id member => ?_⟩
      rcases List.mem_append.mp member with earlier | new
      · exact Nat.lt_succ_of_lt (below id earlier)
      · rw [List.mem_singleton.mp new, append_fst]
        exact Nat.lt_succ_self nextId
  | crash event point =>
    obtain ⟨nextId, running, stopped⟩ := Option.bind_eq_some_iff.mp moved
    obtain ⟨disk, left, rfl⟩ := Option.map_eq_some_iff.mp stopped
    obtain ⟨small, below⟩ := kept.below nextId running
    refine ⟨kept.holds.crash lawful small left spared, ?_, fun _ absent => by cases absent⟩
    change List.Pairwise _ (if point = .written then _ else _)
    split_ifs
    · exact increasing_concat kept.increasing below
    · exact kept.increasing
  | restart =>
    obtain rfl := Option.some.inj moved
    obtain ⟨named, room⟩ := spared
    refine ⟨⟨kept.holds.live, kept.holds.rotated⟩, kept.increasing, fun next opened => ?_⟩
    obtain rfl := Option.some.inj opened
    have counted : (EventsLog.openLog w.disk).nextId = readMaxEventId (w.disk.live.getD []) + 1 :=
      Nat.mod_eq_of_lt room
    rw [counted]
    exact ⟨room, fun id member => Nat.lt_succ_of_le (named id member)⟩

theorem replayAfter_ordered (last : Nat) (disk : LogDisk) :
    (replayAfter codec last disk).Pairwise fun a b => a.1 ≤ b.1 := by
  unfold replayAfter
  refine (List.pairwise_mergeSort ?_ ?_ _).imp fun {a b} ordered => of_decide_eq_true ordered
  · exact fun a b c first second =>
      decide_eq_true (le_trans (of_decide_eq_true first) (of_decide_eq_true second))
  · intro a b
    simpa using Nat.le_total a.1 b.1

theorem FileHolds.mem_replayAfter {disk : LogDisk} {file : Option FileBytes}
    {entries : List (Nat × Public)} (holds : FileHolds codec (file.getD []) entries)
    (lawful : codec.Lawful) (read : file ∈ [disk.live, disk.rotated]) {entry : Nat × Public}
    (member : entry ∈ entries) {last : Nat} (above : last < entry.1) :
    entry ∈ replayAfter codec last disk := by
  have found := holds.mem_fileEntries lawful member above
  cases file with
  | none => cases found
  | some bytes =>
    exact List.mem_mergeSort.mpr
      (List.mem_flatMap.mpr ⟨bytes, List.reduceOption_mem_iff.mpr read, found⟩)

theorem EventsWorld.Kept.sound (kept : w.Kept codec) (lawful : codec.Lawful) : w.Sound codec where
  increasing := kept.increasing
  ordered last := replayAfter_ordered last w.disk
  replayed last entry member above := by
    rcases List.mem_append.mp member with live | rotated
    · exact kept.holds.live.mem_replayAfter lawful List.mem_cons_self live above
    · exact kept.holds.rotated.mem_replayAfter lawful (List.mem_cons_of_mem _ List.mem_cons_self)
        rotated above

/-- **Along every run that puts no line behind a torn one and whose restarts find the last id,
ids increase and a replay has every whole event.** -/
theorem sparedLog_sound (lawful : codec.Lawful) {steps : List (LogStep Event)}
    (run : Runs (EventsWorld.step codec) (EventsWorld.Spared codec) {} steps w) : w.Sound codec := by
  have kept : w.Kept codec := by
    refine run.invariant (I := fun _ w => w.Kept codec) ?_ fun kept spared moved =>
      kept.step lawful spared moved
    exact ⟨⟨FileHolds.nil, FileHolds.nil⟩, List.Pairwise.nil, fun _ stopped => by cases stopped⟩
  exact kept.sound lawful

end Invariant

/-! ### One line behind a torn one -/

def sampleCodec : EventCodec Bool Bool where
  publish event := event
  encode event := some (if event then "true" else "false")
  decode text :=
    if text = "true" then some true else if text = "false" then some false else none

theorem sampleCodec_lawful : sampleCodec.Lawful where
  reads {event _} text := by
    obtain rfl := Option.some.inj text
    cases event <;> rfl
  oneLine {event _} text := by
    obtain rfl := Option.some.inj text
    cases event <;> decide
  noReturn {event _} text := by
    obtain rfl := Option.some.inj text
    cases event <;> decide

theorem sound_sampleLog :
    ∃ w, Runs (EventsWorld.step sampleCodec) (EventsWorld.Spared sampleCodec) {}
        [.restart, .append true, .crash false .assigned, .restart, .append false] w ∧
      w.Sound sampleCodec := by
  obtain ⟨w, done⟩ := Option.isSome_iff_exists.mp
    (by decide +kernel : (execute (EventsWorld.step sampleCodec)
      (EventsWorld.Spared sampleCodec) {}
      [.restart, .append true, .crash false .assigned, .restart, .append false]).isSome = true)
  exact ⟨w, runs_of_execute done, sparedLog_sound sampleCodec_lawful (runs_of_execute done)⟩

def tornLog : EventsWorld Bool where
  disk := { live := some (utf8 "11\tfalse\n") }
  running := some 2
  issued := [1]
  whole := { live := [(1, false)] }

/-- **The event after a torn line is lost to every replay.** -/
theorem not_sound_tornLog :
    ¬ ∀ {steps : List (LogStep Bool)} {w : EventsWorld Bool},
      Runs (EventsWorld.step sampleCodec) (fun _ _ => True) {} steps w → w.Sound sampleCodec := by
  intro sound
  have done : execute (EventsWorld.step sampleCodec) (fun _ _ => True) {}
      [.restart, .crash true (.torn 1), .restart, .append false] = some tornLog := by
    decide +kernel
  have replayed := (sound (runs_of_execute done)).replayed 0 (1, false)
    (List.mem_singleton_self _) Nat.one_pos
  have lost : (1, false) ∉ replayAfter sampleCodec 0 tornLog.disk := by decide +kernel
  exact lost replayed

end Lain.Server
