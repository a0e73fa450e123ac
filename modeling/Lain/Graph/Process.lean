import Lain.Graph.Wal

/-!
# A process over its files

One process at a time owns the files of a graph.
-/

namespace Lain.Graph

open Foundation GraphDatabase

/-- A call without its value. -/
def Call.void {α : Type} (call : Call α) : Call Unit where
  logged := call.logged
  outcome :=
    match call.outcome with
    | .ok db _ => .ok db ()
    | .error db reason => .error db reason
    | .panicked => .panicked

/-- The mutators the log records. -/
inductive Command where
  | upsertNode (node : GraphNode)
  | insertNodesBatch (nodes : List GraphNode)
  | upsertEdge (edge : GraphEdge)
  | insertEdgesBatch (edges : List GraphEdge)
  | upsertEdgesBatchStrict (edges : List GraphEdge)
  | removeNodesByIds (ids : List String)
  | removeEdges (edges : List GraphEdge)

/-- Call a mutator. -/
def Command.call (db : GraphDatabase) : Command → Call Unit
  | .upsertNode node => db.upsertNode node
  | .insertNodesBatch nodes => db.insertNodesBatch nodes
  | .upsertEdge edge => db.upsertEdge edge
  | .insertEdgesBatch edges => (db.insertEdgesBatch edges).void
  | .upsertEdgesBatchStrict edges => db.upsertEdgesBatchStrict edges
  | .removeNodesByIds ids => (db.removeNodesByIds ids).void
  | .removeEdges edges => (db.removeEdges edges).void

/-- The state a call leaves, unless it panics. -/
def Outcome.state {α : Type} : Outcome α → Option GraphDatabase
  | .ok db _ => some db
  | .error db _ => some db
  | .panicked => none

/-- Where the current mutator is: a load still folds what it replayed into a fresh
snapshot, nothing runs, the frames are written and the lock is held, or a removal has
released the lock but not yet cleaned the indexes. -/
inductive Writer where
  | opening
  | idle
  | logged (command : Command)
  | unlocked (ids : List String) (removal : Removal)

def Writer.Released : Writer → Prop
  | .logged _ => False
  | _ => True

def Writer.folded : Writer → Writer
  | .opening => .idle
  | other => other

inductive Checkpoint where
  | idle
  | merging
  | rotated
  | encoded (state : GraphState)
  | published

/-- A running process. -/
structure Process where
  db : GraphDatabase
  writer : Writer := .idle
  checkpoint : Checkpoint := .idle

structure Machine where
  disk : Disk
  process : Option Process := none
  log : List GraphOp := []
  durable : Nat := 0
  acked : Nat := 0

inductive Event where
  | log (command : Command)
  | apply
  | unlock
  | cleanup
  | rotate
  | merge
  | truncate
  | encode
  | publish
  | discard
  | abort
  | crash
  | tear (command : Command) (written : Nat)
  | tearMerge (written : Nat)
  | repairPrev
  | reopen

/-- The frames of a batch of operations. -/
def Codec.frames (codec : Codec) (ops : List GraphOp) : Option Bytes :=
  FrameLog.frames (walFormat codec) ops

/-- Log a batch with one write; an empty batch writes nothing. -/
def Disk.logOps (codec : Codec) (disk : Disk) (ops : List GraphOp) : Option Disk :=
  if ops.isEmpty then some disk else (codec.frames ops).map disk.append

def wholeFrames (codec : Codec) (bytes : Bytes) : Nat :=
  (FrameLog.scan (walFormat codec) bytes).ops.length

inductive Machine.Step (codec : Codec) : Machine → Event → Machine → Prop where
  | log {m : Machine} {db : GraphDatabase} {checkpoint : Checkpoint} {command : Command}
      {disk : Disk} :
      m.process = some ⟨db, .idle, checkpoint⟩ → checkpoint ≠ .merging →
      m.disk.logOps codec (command.call db).logged = some disk →
      Step codec m (.log command)
        { m with
          disk
          process := some ⟨db, .logged command, checkpoint⟩
          log := m.log ++ (command.call db).logged
          durable := m.durable + (command.call db).logged.length }
  | apply {m : Machine} {db db' : GraphDatabase} {checkpoint : Checkpoint}
      {command : Command} :
      m.process = some ⟨db, .logged command, checkpoint⟩ →
      (∀ ids, command ≠ .removeNodesByIds ids) →
      (command.call db).outcome.state = some db' →
      Step codec m .apply
        { m with process := some ⟨db', .idle, checkpoint⟩, acked := m.log.length }
  | unlock {m : Machine} {db : GraphDatabase} {checkpoint : Checkpoint} {ids : List String} :
      m.process = some ⟨db, .logged (.removeNodesByIds ids), checkpoint⟩ →
      Step codec m .unlock
        { m with
          process := some ⟨{ db with graph := (db.removeLocked ids).graph },
            .unlocked ids (db.removeLocked ids), checkpoint⟩ }
  | cleanup {m : Machine} {db : GraphDatabase} {checkpoint : Checkpoint}
      {ids : List String} {removal : Removal} :
      m.process = some ⟨db, .unlocked ids removal, checkpoint⟩ →
      Step codec m .cleanup
        { m with
          process := some
            ⟨db.removeCleanup ids removal.clearedPaths removal.clearedNames, .idle, checkpoint⟩
          acked := m.log.length }
  | rotate {m : Machine} {db : GraphDatabase} {writer : Writer} :
      m.process = some ⟨db, writer, .idle⟩ → writer.Released →
      m.disk.live = none ∨ m.disk.prev = none →
      Step codec m .rotate
        { m with disk := m.disk.rotate, process := some ⟨db, writer, .rotated⟩ }
  | merge {m : Machine} {db : GraphDatabase} {writer : Writer} {live prev : Bytes} :
      m.process = some ⟨db, writer, .idle⟩ → writer.Released →
      m.disk.live = some live → m.disk.prev = some prev →
      Step codec m .merge
        { m with disk := m.disk.appendPrev live, process := some ⟨db, writer, .merging⟩ }
  | truncate {m : Machine} {db : GraphDatabase} {writer : Writer} :
      m.process = some ⟨db, writer, .merging⟩ →
      Step codec m .truncate
        { m with
          disk := { m.disk with live := some [] }
          process := some ⟨db, writer, .rotated⟩ }
  | encode {m : Machine} {db : GraphDatabase} {writer : Writer} :
      m.process = some ⟨db, writer, .rotated⟩ → writer.Released →
      Step codec m .encode { m with process := some ⟨db, writer, .encoded db.buildState⟩ }
  | publish {m : Machine} {db : GraphDatabase} {writer : Writer} {state : GraphState} :
      m.process = some ⟨db, writer, .encoded state⟩ →
      Step codec m .publish
        { m with disk := m.disk.publish state, process := some ⟨db, writer, .published⟩ }
  | discard {m : Machine} {db : GraphDatabase} {writer : Writer} :
      m.process = some ⟨db, writer, .published⟩ →
      Step codec m .discard
        { m with
          disk := m.disk.discardPrev
          process := some ⟨db, writer.folded, .idle⟩ }
  | abort {m : Machine} {db : GraphDatabase} {writer : Writer} {checkpoint : Checkpoint} :
      m.process = some ⟨db, writer, checkpoint⟩ → checkpoint ≠ .merging → writer ≠ .opening →
      Step codec m .abort { m with process := some ⟨db, writer, .idle⟩ }
  | crash {m : Machine} {process : Process} :
      m.process = some process → Step codec m .crash { m with process := none }
  | tear {m : Machine} {db : GraphDatabase} {checkpoint : Checkpoint} {command : Command}
      {bytes : Bytes} {written : Nat} :
      m.process = some ⟨db, .idle, checkpoint⟩ → checkpoint ≠ .merging →
      codec.frames (command.call db).logged = some bytes → written < bytes.length →
      Step codec m (.tear command written)
        { m with
          disk := m.disk.append (bytes.take written)
          process := none
          log := m.log ++ (command.call db).logged
          durable := m.durable + wholeFrames codec (bytes.take written) }
  | tearMerge {m : Machine} {db : GraphDatabase} {writer : Writer} {live prev : Bytes}
      {written : Nat} :
      m.process = some ⟨db, writer, .idle⟩ → writer.Released →
      m.disk.live = some live → m.disk.prev = some prev →
      Step codec m (.tearMerge written)
        { m with disk := m.disk.appendPrev (live.take written), process := none }
  | repairPrev {m : Machine} {state : GraphState} :
      m.process = none → m.disk.main.bind Snapshot.decodeState = some state →
      Step codec m .repairPrev
        { m with
          disk :=
            { m.disk with
              prev := (replayAndRepair codec m.disk.prev
                (GraphDatabase.applyStateLoaded {} state)).1 } }
  | reopen {m : Machine} {disk : Disk} {db : GraphDatabase} {replayed : Nat} :
      m.process = none → recover codec m.disk {} = (disk, .ok db replayed) →
      Step codec m .reopen
        { m with
          disk
          process := some ⟨db, if replayed = 0 then .idle else .opening, .idle⟩
          log := m.log.take m.durable }

/-- A process at rest whose snapshot is readable and holds the graph in memory, with
both logs empty. -/
structure Machine.Fresh (m : Machine) (initial : GraphDatabase) : Prop where
  consistent : Consistent initial
  writable : initial.readOnly = false
  process : m.process = some ⟨initial, .idle, .idle⟩
  main : ∃ saved : GraphDatabase, m.disk.main = some (.encoded saved.buildState) ∧
    Consistent saved ∧ viewOf saved = viewOf initial
  live : m.disk.live.getD [] = []
  prev : m.disk.prev.getD [] = []
  history : m.log = [] ∧ m.durable = 0 ∧ m.acked = 0

def GraphDatabase.IdsLive (db : GraphDatabase) : Prop :=
  ∀ id i, db.indexMap.lookup id = some i → (db.graph.nodeWeight i).isSome = true

def Event.Recoverable (codec : Codec) (m : Machine) : Event → Prop
  | .log command | .tear command _ =>
    ∀ process, m.process = some process →
      FrameLog.Fits (walFormat codec) (command.call process.db).logged
  | .encode => ∀ process, m.process = some process → process.db.IdsLive
  | _ => True

/-- A run from a machine at rest. -/
inductive Machine.Run (codec : Codec) (initial : GraphDatabase) : Machine → Prop where
  | start {m : Machine} : m.Fresh initial → Run codec initial m
  | step {m m' : Machine} {event : Event} :
      Run codec initial m → Step codec m event m' → Run codec initial m'

inductive Machine.RecoverableRun (codec : Codec) (initial : GraphDatabase) :
    Machine → Prop where
  | start {m : Machine} : m.Fresh initial → RecoverableRun codec initial m
  | step {m m' : Machine} {event : Event} :
      RecoverableRun codec initial m → event.Recoverable codec m → Step codec m event m' →
        RecoverableRun codec initial m'

end Lain.Graph
