import Lain.Graph.CrashSafety

/-!
# The federated backend

The graph of all repositories keeps two copies of its snapshot: the payload file the
database opens, and `federated_graph.bin`, the same bytes behind an envelope.
-/

namespace Lain.Federation

open Lain.Graph Foundation

def federationGraphVersion : Nat := 4

inductive BinFile where
  | foreign (found : Nat)
  | headed (payload : Snapshot)

/-- Check that a payload decodes and has this build's path format. -/
def validatePersistedPayload : Snapshot → Except LainError Unit
  | .unreadable reason => .error (.database reason)
  | .encoded state =>
    if state.pathFormatVersion ≠ pathFormatVersion then
      .error (.database (s!"graph payload path format v{state.pathFormatVersion} " ++
        s!"does not match v{pathFormatVersion}"))
    else .ok ()

def openDatabase (codec : Codec) (disk : Disk) : Disk × Outcome Unit :=
  match disk.main with
  | none => (disk, .ok {} ())
  | some _ => loadFromDisk codec disk {}

/-- Open the backend on its files. -/
def openBackend (codec : Codec) (bin : Option BinFile) (disk : Disk) : Disk × Outcome Unit :=
  match bin with
  | none => openDatabase codec disk
  | some (.foreign found) =>
    (disk, .error {} (.federationSchemaMismatch found federationGraphVersion))
  | some (.headed payload) =>
    match validatePersistedPayload payload with
    | .error reason => (disk, .error {} (.federationPayloadCorrupt reason.display))
    | .ok () => openDatabase codec { disk with main := some payload }

/-- The machine of the backend: the graph's machine, the body of the bin file, the
snapshot a mirrored checkpoint is about to rename into its place, and the depth of
open bulk sections. -/
structure Backend where
  machine : Machine
  bin : Snapshot
  mirror : Option GraphState := none
  bulkDepth : Nat := 0
  acked : Nat := 0
  binAt : Nat := 0
  retiredAt : Nat := 0
  mirrorAt : Nat := 0
  gapped : Bool := false

inductive BackendEvent where
  | graph (event : Event)
  | renameBin
  | dropMirror
  | acknowledge (count : Nat)
  | beginBulk
  | endBulk
  | tearPayload (reason : String)
  | repairPrev
  | reopen

namespace Backend

def opened (b : Backend) : Disk :=
  { b.machine.disk with main := some b.bin }

def stop (b : Backend) (m : Machine) : Backend :=
  { b with machine := m, mirror := none, bulkDepth := 0 }

/-- What a step of the graph's machine changes for the backend: a log is retired, the
encoder tees into the mirror unless a load is folding, a retired log is deleted. -/
def advance (b : Backend) (m : Machine) : Event → Backend
  | .rotate | .truncate => { b with machine := m, retiredAt := b.machine.log.length }
  | .encode =>
    match b.machine.process with
    | some ⟨_, .opening, _⟩ => { b with machine := m }
    | some ⟨db, _, _⟩ =>
      { b with
        machine := m, mirror := some db.buildState, mirrorAt := b.machine.log.length }
    | none => { b with machine := m }
  | .discard =>
    { b with machine := m, gapped := b.gapped || decide (b.binAt < b.retiredAt) }
  | .abort => { b with machine := m, mirror := none }
  | .crash | .tear _ _ | .tearMerge _ => b.stop m
  | _ => { b with machine := m }

def Lifts (b : Backend) : Event → Prop
  | .rotate | .merge | .tearMerge _ => b.mirror = none
  | .repairPrev | .reopen => False
  | _ => True

def logged (codec : Codec) (file : Option Bytes) : List GraphOp :=
  (FrameLog.scan (walFormat codec) (file.getD [])).ops

def continued (codec : Codec) (b : Backend) : List GraphOp :=
  if b.gapped then
    b.machine.log.take b.binAt ++
      (logged codec b.machine.disk.prev ++ logged codec b.machine.disk.live)
  else b.machine.log.take b.machine.durable

inductive Step (codec : Codec) : Backend → BackendEvent → Backend → Prop where
  | graph {b : Backend} {event : Event} {m : Machine} :
      b.machine.Step codec event m → b.Lifts event →
      Step codec b (.graph event) (b.advance m event)
  | renameBin {b : Backend} {db : GraphDatabase} {writer : Writer} {state : GraphState} :
      b.machine.process = some ⟨db, writer, .idle⟩ → b.mirror = some state →
      Step codec b .renameBin
        { b with
          bin := .encoded state, mirror := none, binAt := b.mirrorAt, gapped := false }
  | dropMirror {b : Backend} {db : GraphDatabase} {writer : Writer} :
      b.machine.process = some ⟨db, writer, .idle⟩ →
      Step codec b .dropMirror { b with mirror := none }
  | acknowledge {b : Backend} {db : GraphDatabase} {checkpoint : Checkpoint} {count : Nat} :
      b.machine.process = some ⟨db, .idle, checkpoint⟩ → b.acked ≤ count →
      count ≤ b.machine.log.length → count ≤ b.binAt ∨ 0 < b.bulkDepth →
      Step codec b (.acknowledge count) { b with acked := count }
  | beginBulk {b : Backend} {process : Process} :
      b.machine.process = some process →
      Step codec b .beginBulk { b with bulkDepth := b.bulkDepth + 1 }
  | endBulk {b : Backend} {process : Process} :
      b.machine.process = some process →
      Step codec b .endBulk { b with bulkDepth := b.bulkDepth - 1 }
  | tearPayload {b : Backend} {reason : String} :
      b.machine.process = none →
      Step codec b (.tearPayload reason)
        { b with
          machine :=
            { b.machine with
              disk := { b.machine.disk with main := some (.unreadable reason) } } }
  | repairPrev {b : Backend} {state : GraphState} :
      b.machine.process = none → b.bin.decodeState = some state →
      Step codec b .repairPrev
        { b with
          machine :=
            { b.machine with
              disk :=
                { b.opened with
                  prev := (replayAndRepair codec b.machine.disk.prev
                    (GraphDatabase.applyStateLoaded {} state)).1 } } }
  | reopen {b : Backend} {disk : Disk} {db : GraphDatabase} {replayed : Nat} :
      b.machine.process = none → recover codec b.opened {} = (disk, .ok db replayed) →
      Step codec b .reopen
        { b with
          machine :=
            { b.machine with
              disk
              process := some ⟨db, if replayed = 0 then .idle else .opening, .idle⟩
              log := b.continued codec
              durable := (b.continued codec).length } }

/-- A backend at rest: the bin file holds the graph in memory, and both logs are empty. -/
structure Fresh (b : Backend) (initial : GraphDatabase) : Prop where
  consistent : Consistent initial
  writable : initial.readOnly = false
  process : b.machine.process = some ⟨initial, .idle, .idle⟩
  bin : ∃ saved : GraphDatabase, b.bin = .encoded saved.buildState ∧
    Consistent saved ∧ viewOf saved = viewOf initial
  live : b.machine.disk.live.getD [] = []
  prev : b.machine.disk.prev.getD [] = []
  history : b.machine.log = [] ∧ b.machine.durable = 0 ∧ b.acked = 0 ∧ b.binAt = 0
  settled : b.mirror = none ∧ b.gapped = false

/-- A run from a backend at rest. -/
inductive Run (codec : Codec) (initial : GraphDatabase) : Backend → Prop where
  | start {b : Backend} : b.Fresh initial → Run codec initial b
  | step {b b' : Backend} {event : BackendEvent} :
      Run codec initial b → Step codec b event b' → Run codec initial b'

def Covered (b : Backend) : Prop :=
  b.gapped = true → b.acked ≤ b.binAt

def Durable (codec : Codec) (b : Backend) : BackendEvent → Prop
  | .graph event =>
    event.Recoverable codec b.machine ∧
      match event with
      | .crash | .tear _ _ | .tearMerge _ => b.Covered
      | _ => True
  | _ => True

/-- A run whose every event is durable. -/
inductive DurableRun (codec : Codec) (initial : GraphDatabase) : Backend → Prop where
  | start {b : Backend} : b.Fresh initial → DurableRun codec initial b
  | step {b b' : Backend} {event : BackendEvent} :
      DurableRun codec initial b → b.Durable codec event → Step codec b event b' →
        DurableRun codec initial b'

end Backend

end Lain.Federation

/-!
## The files of the backend

What the bin file and the two logs hold between them.
-/

namespace Lain.Federation

open Lain.Graph Foundation GraphDatabase

def SnapshotAt (initial : View) (history : List GraphOp) (state : GraphState)
    (position : Nat) : Prop :=
  ∃ db : GraphDatabase, state = db.buildState ∧ Consistent db ∧
    viewOf db = stateAt View.apply initial history position ∧ position ≤ history.length

structure Contiguous (form : Option Bytes → List GraphOp → Prop) (initial : View)
    (history : List GraphOp) (disk : Disk) (binAt base retired : Nat) : Prop where
  base_le : base ≤ binAt
  binAt_le : binAt ≤ history.length
  logged : View.WellLogged (stateAt View.apply initial history base) (history.drop base)
  files : Recoverable form (stateAt View.apply initial history base) (history.drop base) disk
    (binAt - base) retired

def Behind (form : Option Bytes → List GraphOp → Prop) (history : List GraphOp) (disk : Disk)
    (binAt : Nat) : Prop :=
  ∃ prevOps liveOps, form disk.prev prevOps ∧ form disk.live liveOps ∧
    ∀ op ∈ prevOps ++ liveOps, op ∈ history.drop binAt

structure Retired (codec : Codec) (initial : View) (history : List GraphOp) (disk : Disk)
    (retiredAt : Nat) : Prop where
  le : retiredAt ≤ history.length
  live : Intact codec disk.live (history.drop retiredAt)
  logged : View.WellLogged (stateAt View.apply initial history retiredAt) (history.drop retiredAt)

def PastRotation : Checkpoint → Prop
  | .rotated => True
  | .encoded _ => True
  | .published => True
  | _ => False

variable {codec : Codec} {initial : View} {history : List GraphOp} {disk : Disk}
  {binAt base retired retiredAt position : Nat}

/-! ### Snapshots and files under one step -/

theorem SnapshotAt.extend {state : GraphState} (snapshot : SnapshotAt initial history state position)
    (later : List GraphOp) : SnapshotAt initial (history ++ later) state position := by
  obtain ⟨db, same, consistent, view, bound⟩ := snapshot
  refine ⟨db, same, consistent, ?_, by simp; omega⟩
  rw [view, stateAt_append View.apply initial bound]

theorem Retired.log (r : Retired codec initial history disk retiredAt) {db : GraphDatabase}
    (atEnd : AtEnd initial history db) (command : Command) {disk' : Disk}
    (written : disk.logOps codec (command.call db).logged = some disk') :
    Retired codec initial (history ++ (command.call db).logged) disk' retiredAt := by
  have le := r.le
  refine ⟨by simp; omega, ?_, ?_⟩
  · rw [List.drop_append_of_le_length le]
    exact r.live.log written
  · rw [List.drop_append_of_le_length le, stateAt_append View.apply initial le]
    exact (atEnd.drop retiredAt).wellLogged r.logged command

theorem Retired.start (empty : disk.live.getD [] = []) :
    Retired codec initial history disk history.length := by
  refine ⟨le_rfl, ?_, ?_⟩
  · rw [List.drop_length, Intact, empty]
    rfl
  · rw [List.drop_length]
    exact fun j edge here => by simp at here

theorem rotate_live (room : disk.live = none ∨ disk.prev = none) :
    disk.rotate.live = none := by
  unfold Disk.rotate
  cases live : disk.live with
  | none => exact live
  | some bytes =>
    cases prev : disk.prev with
    | none => rfl
    | some other => simp [live, prev] at room

theorem rotate_main (main : Option Snapshot) :
    ({ disk with main } : Disk).rotate = { disk.rotate with main } := by
  obtain ⟨_, live, prev⟩ := disk
  cases live <;> cases prev <;> rfl

theorem logOps_main {ops : List GraphOp} {disk' : Disk}
    (written : disk.logOps codec ops = some disk') (main : Option Snapshot) :
    ({ disk with main } : Disk).logOps codec ops = some { disk' with main } := by
  unfold Disk.logOps at *
  split at written
  next empty =>
      cases written
      rw [if_pos empty]
  next nonempty =>
      obtain ⟨bytes, framed, rfl⟩ := Option.map_eq_some_iff.mp written
      rw [if_neg nonempty, framed]
      rfl

namespace Contiguous

theorem base_le_length {form : Option Bytes → List GraphOp → Prop}
    (c : Contiguous form initial history disk binAt base retired) : base ≤ history.length :=
  c.base_le.trans c.binAt_le

theorem log (c : Contiguous (Intact codec) initial history disk binAt base retired)
    {db : GraphDatabase} (atEnd : AtEnd initial history db) (command : Command) {disk' : Disk}
    (written : disk.logOps codec (command.call db).logged = some disk') :
    Contiguous (Intact codec) initial (history ++ (command.call db).logged) disk' binAt base
      retired := by
  have le := c.base_le_length
  have binAt_le := c.binAt_le
  refine ⟨c.base_le, by simp; omega, ?_, ?_⟩
  · rw [List.drop_append_of_le_length le, stateAt_append View.apply initial le]
    exact (atEnd.drop base).wellLogged c.logged command
  · rw [List.drop_append_of_le_length le, stateAt_append View.apply initial le]
    exact c.files.log written

theorem tear (c : Contiguous (Intact codec) initial history disk binAt base retired)
    (lawful : codec.Lawful) (fits : FrameLog.Fits (walFormat codec) history) {db : GraphDatabase}
    (atEnd : AtEnd initial history db) (command : Command)
    (fitsOps : FrameLog.Fits (walFormat codec) (command.call db).logged) {bytes : Bytes}
    (framed : codec.frames (command.call db).logged = some bytes) (written : Nat) :
    Contiguous (Reads codec) initial
      ((history ++ (command.call db).logged).take
        (history.length + wholeFrames codec (bytes.take written)))
      (disk.append (bytes.take written)) binAt base retired := by
  have le := c.base_le_length
  have binAt_le := c.binAt_le
  obtain ⟨_, files⟩ := c.files.tear lawful
    (fun op member => fits op (List.mem_of_mem_drop member)) fitsOps framed written
  rw [List.take_length_add_append]
  refine ⟨c.base_le, by simp; omega, ?_, ?_⟩
  · rw [List.drop_append_of_le_length le, stateAt_append View.apply initial le]
    have whole := (atEnd.drop base).wellLogged c.logged command
    have part := whole.take ((history.drop base).length + wholeFrames codec (bytes.take written))
    rwa [List.take_length_add_append] at part
  · rw [List.drop_append_of_le_length le, stateAt_append View.apply initial le]
    exact files

theorem reads (c : Contiguous (Intact codec) initial history disk binAt base retired)
    (lawful : codec.Lawful) (fits : FrameLog.Fits (walFormat codec) history) :
    Contiguous (Reads codec) initial history disk binAt base retired :=
  ⟨c.base_le, c.binAt_le, c.logged,
    c.files.reads lawful fun op member => fits op (List.mem_of_mem_drop member)⟩

theorem of_bare {state : GraphState} (snapshot : SnapshotAt initial history state binAt)
    (main : disk.main = some (.encoded state)) (noPrev : disk.prev = none)
    (r : Retired codec initial history disk retiredAt) (covered : retiredAt ≤ binAt) :
    Contiguous (Intact codec) initial history disk binAt retiredAt 0 := by
  obtain ⟨db, rfl, consistent, view, bound⟩ := snapshot
  have le := r.le
  exact
    { base_le := covered
      binAt_le := bound
      logged := r.logged
      files :=
        { snapshot := ⟨db, main, consistent, by rw [view, stateAt_drop View.apply initial covered]⟩
          prev := ⟨[], _, by rw [Intact, noPrev]; rfl, .done _, Nat.zero_le _⟩
          live := r.live
          saved_le := by simp; omega
          retired_le := Nat.zero_le _ } }

end Contiguous

namespace Behind

theorem log (behind : Behind (Intact codec) history disk binAt) (binAt_le : binAt ≤ history.length)
    {ops : List GraphOp} {disk' : Disk} (written : disk.logOps codec ops = some disk') :
    Behind (Intact codec) (history ++ ops) disk' binAt := by
  obtain ⟨prevOps, liveOps, prev, live, members⟩ := behind
  obtain ⟨_, samePrev, _⟩ := Disk.logOps_spec written
  refine ⟨prevOps, liveOps ++ ops, samePrev ▸ prev, live.log written, ?_⟩
  intro op member
  rw [List.drop_append_of_le_length binAt_le]
  rw [← List.append_assoc] at member
  rcases List.mem_append.mp member with old | new
  · exact List.mem_append_left _ (members op old)
  · exact List.mem_append_right _ new

theorem reads (behind : Behind (Intact codec) history disk binAt) (lawful : codec.Lawful)
    (fits : FrameLog.Fits (walFormat codec) history) : Behind (Reads codec) history disk binAt := by
  obtain ⟨prevOps, liveOps, prev, live, members⟩ := behind
  have fitsBoth : ∀ op ∈ prevOps ++ liveOps, op ∈ history :=
    fun op member => List.mem_of_mem_drop (members op member)
  exact ⟨prevOps, liveOps,
    prev.reads lawful fun op member => fits op (fitsBoth op (List.mem_append_left _ member)),
    live.reads lawful fun op member => fits op (fitsBoth op (List.mem_append_right _ member)),
    members⟩

theorem tear (behind : Behind (Intact codec) history disk binAt) (binAt_le : binAt ≤ history.length)
    (lawful : codec.Lawful) (fits : FrameLog.Fits (walFormat codec) history) {ops : List GraphOp}
    (fitsOps : FrameLog.Fits (walFormat codec) ops) {bytes : Bytes}
    (framed : codec.frames ops = some bytes) (written : Nat) :
    Behind (Reads codec) (history ++ ops) (disk.append (bytes.take written)) binAt := by
  obtain ⟨prevOps, liveOps, prev, live, members⟩ := behind
  have fitsBoth : ∀ op ∈ prevOps ++ liveOps, op ∈ history :=
    fun op member => List.mem_of_mem_drop (members op member)
  obtain ⟨_, cut⟩ := live.cut lawful
    (fun op member => fits op (fitsBoth op (List.mem_append_right _ member))) framed fitsOps
    written
  refine ⟨prevOps, _,
    prev.reads lawful fun op member => fits op (fitsBoth op (List.mem_append_left _ member)),
    cut, ?_⟩
  intro op member
  rw [List.drop_append_of_le_length binAt_le]
  rw [← List.append_assoc] at member
  rcases List.mem_append.mp member with old | new
  · exact List.mem_append_left _ (members op old)
  · exact List.mem_append_right _ (List.mem_of_mem_take new)

theorem rotate (behind : Behind (Intact codec) history disk binAt)
    (room : disk.live = none ∨ disk.prev = none) :
    Behind (Intact codec) history disk.rotate binAt := by
  obtain ⟨prevOps, liveOps, prev, live, members⟩ := behind
  cases hasLive : disk.live with
  | none =>
    unfold Disk.rotate
    rw [hasLive]
    exact ⟨prevOps, liveOps, prev, live, members⟩
  | some bytes =>
    have noPrev : disk.prev = none := room.resolve_left (by simp [hasLive])
    unfold Disk.rotate
    rw [hasLive, noPrev]
    rw [hasLive] at live
    exact ⟨liveOps, [], live, rfl, fun op member => members op (by
      rw [List.append_nil] at member
      exact List.mem_append_right _ member)⟩

theorem merge (behind : Behind (Intact codec) history disk binAt) {live prev : Bytes}
    (hasLive : disk.live = some live) (hasPrev : disk.prev = some prev) :
    Behind (Intact codec) history (disk.appendPrev live) binAt := by
  obtain ⟨prevOps, liveOps, intactPrev, intactLive, members⟩ := behind
  rw [hasPrev] at intactPrev
  refine ⟨prevOps ++ liveOps, liveOps, ?_, intactLive, ?_⟩
  · rw [hasLive] at intactLive
    unfold Disk.appendPrev
    rw [hasPrev]
    exact intactPrev.append intactLive
  · intro op member
    rcases List.mem_append.mp member with merged | again
    · exact members op merged
    · exact members op (List.mem_append_right _ again)

theorem tearMerge (behind : Behind (Intact codec) history disk binAt) (lawful : codec.Lawful)
    (fits : FrameLog.Fits (walFormat codec) history) {live prev : Bytes}
    (hasLive : disk.live = some live) (hasPrev : disk.prev = some prev) (written : Nat) :
    Behind (Reads codec) history (disk.appendPrev (live.take written)) binAt := by
  obtain ⟨prevOps, liveOps, intactPrev, intactLive, members⟩ := behind
  have fitsBoth : ∀ op ∈ prevOps ++ liveOps, op ∈ history :=
    fun op member => List.mem_of_mem_drop (members op member)
  have fitsLive : FrameLog.Fits (walFormat codec) liveOps :=
    fun op member => fits op (fitsBoth op (List.mem_append_right _ member))
  rw [hasPrev] at intactPrev
  rw [hasLive] at intactLive
  obtain ⟨_, cut⟩ := intactPrev.cut lawful
    (fun op member => fits op (fitsBoth op (List.mem_append_left _ member))) intactLive fitsLive
    written
  have readsLive := intactLive.reads lawful fitsLive
  rw [← hasLive] at readsLive
  have readsPrev : Reads codec (disk.appendPrev (live.take written)).prev
      (prevOps ++ liveOps.take (wholeFrames codec (live.take written))) := by
    unfold Disk.appendPrev
    rw [hasPrev]
    exact cut
  refine ⟨_, liveOps, readsPrev, readsLive, ?_⟩
  · intro op member
    rcases List.mem_append.mp member with merged | again
    · rcases List.mem_append.mp merged with old | part
      · exact members op (List.mem_append_left _ old)
      · exact members op (List.mem_append_right _ (List.mem_of_mem_take part))
    · exact members op (List.mem_append_right _ again)

theorem truncate (behind : Behind (Intact codec) history disk binAt) :
    Behind (Intact codec) history { disk with live := some [] } binAt := by
  obtain ⟨prevOps, liveOps, prev, _, members⟩ := behind
  exact ⟨prevOps, [], prev, rfl, fun op member => members op (by
    rw [List.append_nil] at member
    exact List.mem_append_left _ member)⟩

theorem discard (behind : Behind (Intact codec) history disk binAt) :
    Behind (Intact codec) history disk.discardPrev binAt := by
  obtain ⟨prevOps, liveOps, _, live, members⟩ := behind
  exact ⟨[], liveOps, rfl, live, fun op member => members op (List.mem_append_right _ member)⟩

theorem of_bare (r : Retired codec initial history disk retiredAt) (ahead : binAt ≤ retiredAt)
    (noPrev : disk.prev = none) : Behind (Intact codec) history disk binAt := by
  refine ⟨[], history.drop retiredAt, by rw [Intact, noPrev]; rfl, r.live, ?_⟩
  intro op member
  rw [List.nil_append, ← Nat.add_sub_cancel' ahead, ← List.drop_drop] at member
  exact List.mem_of_mem_drop member

end Behind

end Lain.Federation
