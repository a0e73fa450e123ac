import Lain.Graph.Persist
import Lain.Foundation.FrameLog

/-!
# The write-ahead log

The frames of the log, the files a checkpoint moves between, and the load that
replays the retired log and then the live one over the snapshot on disk.
-/

namespace Lain.Graph

open Foundation GraphDatabase

/-- One entry of the CRC table: eight shifts of the reflected Castagnoli polynomial. -/
def crcTable (i : BitVec 32) : BitVec 32 :=
  (List.range 8).foldl
    (fun crc _ => if crc &&& 1 ≠ 0 then 0x82f63b78#32 ^^^ (crc >>> 1) else crc >>> 1) i

/-- CRC-32C of a payload. -/
def crc32c (data : Bytes) : BitVec 32 :=
  data.foldl
      (fun (crc : BitVec 32) (b : UInt8) =>
        (crc >>> 8) ^^^ crcTable ((crc ^^^ BitVec.ofNat 32 b.toNat) &&& 0xff))
      0xffffffff#32 ^^^ 0xffffffff#32

example : crc32c [0x31, 0x32, 0x33, 0x34, 0x35, 0x36, 0x37, 0x38, 0x39] = 0xE3069283#32 := by
  decide +kernel

def frameCap : Nat := 64 * 1024 * 1024

structure Codec where
  encodeOp : GraphOp → Option Bytes
  decodeOp : Bytes → Option GraphOp

def Codec.Lawful (codec : Codec) : Prop :=
  ∀ op payload, codec.encodeOp op = some payload → codec.decodeOp payload = some op

def walFormat (codec : Codec) : FrameLog.Format GraphOp where
  encode := codec.encodeOp
  decode := codec.decodeOp
  checksum := fun payload => (crc32c payload).toNat
  cap := frameCap
  checksum_lt := fun _ => BitVec.isLt _
  cap_lt := by decide

structure Disk where
  main : Option Snapshot := none
  live : Option Bytes := none
  prev : Option Bytes := none

namespace Disk

/-- The live log with more bytes at its end; the first append creates the file. -/
def append (disk : Disk) (bytes : Bytes) : Disk :=
  { disk with live := some (disk.live.getD [] ++ bytes) }

def appendPrev (disk : Disk) (bytes : Bytes) : Disk :=
  { disk with prev := disk.prev.map (· ++ bytes) }

/-- Move every frame logged so far out of the live log. -/
def rotate (disk : Disk) : Disk :=
  match disk.live with
  | none => disk
  | some live =>
    match disk.prev with
    | some _ => { disk.appendPrev live with live := some [] }
    | none => { disk with live := none, prev := some live }

/-- Rename a finished snapshot into place. -/
def publish (disk : Disk) (state : GraphState) : Disk :=
  { disk with main := some (.encoded state) }

/-- Delete the retired log. -/
def discardPrev (disk : Disk) : Disk :=
  { disk with prev := none }

/-- A whole uninterrupted checkpoint. -/
def saveToDiskSync (disk : Disk) (db : GraphDatabase) : Disk :=
  (disk.rotate.publish db.buildState).discardPrev

end Disk

def skipNotFound {α : Type} : Outcome α → Outcome Unit
  | .ok db _ => .ok db ()
  | .error db (.notFound _) => .ok db ()
  | .error db reason => .error db reason
  | .panicked => .panicked

def tripleEdge (endpoint : String × String × EdgeType) : GraphEdge where
  edgeType := endpoint.2.2
  sourceId := endpoint.1
  targetId := endpoint.2.1

def replayOp (db : GraphDatabase) : GraphOp → Outcome Unit
  | .upsertNode node => skipNotFound (db.upsertNode node).outcome
  | .upsertEdge edge => skipNotFound (db.upsertEdge edge).outcome
  | .removeNodesByIds ids => skipNotFound (db.removeNodesByIds ids).outcome
  | .removeEdges endpoints => skipNotFound (db.removeEdges (endpoints.map tripleEdge)).outcome
  | .commitIndexMap _ => .ok db ()

def replayOps : List GraphOp → GraphDatabase → Outcome Unit
  | [], db => .ok db ()
  | op :: rest, db =>
    match replayOp db op with
    | .ok after _ => replayOps rest after
    | .error after reason => .error after reason
    | .panicked => .panicked

def oversizedFrame (len : Nat) : LainError :=
  .database s!"wal replay: WAL frame length {len} exceeds cap"

def replayError (reason : LainError) : LainError :=
  .database s!"wal replay: {reason.display}"

/-- Replay one log file and cut its torn tail off; a file that is missing replays
nothing. -/
def replayAndRepair (codec : Codec) (file : Option Bytes) (db : GraphDatabase) :
    Option Bytes × Outcome Nat :=
  match file with
  | none => (none, .ok db 0)
  | some bytes =>
    let found := FrameLog.scan (walFormat codec) bytes
    match replayOps found.ops db with
    | .panicked => (some bytes, .panicked)
    | .error after reason => (some bytes, .error after (replayError reason))
    | .ok after _ =>
      match found.oversized with
      | some len => (some bytes, .error after (oversizedFrame len))
      | none => (some (bytes.take found.goodEnd), .ok after found.ops.length)

def recover (codec : Codec) (disk : Disk) (db : GraphDatabase) : Disk × Outcome Nat :=
  match disk.main with
  | none => (disk, .error db (.database "No such file or directory (os error 2)"))
  | some snapshot =>
    match snapshot.decodeState with
    | none => (disk, .ok db 0)
    | some state =>
      if state.pathFormatVersion ≠ Graph.pathFormatVersion then (disk, .ok db 0)
      else
        match replayAndRepair codec disk.prev (db.applyStateLoaded state) with
        | (prev, .panicked) => ({ disk with prev }, .panicked)
        | (prev, .error after reason) => ({ disk with prev }, .error after reason)
        | (prev, .ok middle first) =>
          match replayAndRepair codec disk.live middle with
          | (live, .panicked) => ({ disk with prev, live }, .panicked)
          | (live, .error after reason) => ({ disk with prev, live }, .error after reason)
          | (live, .ok after second) =>
            ({ disk with prev, live }, .ok after (first + second))

/-- Load the graph from its files. -/
def loadFromDisk (codec : Codec) (disk : Disk) (db : GraphDatabase) : Disk × Outcome Unit :=
  match recover codec disk db with
  | (disk', .panicked) => (disk', .panicked)
  | (disk', .error after reason) => (disk', .error after reason)
  | (disk', .ok after replayed) =>
    if 0 < replayed ∧ after.readOnly = false then
      (disk'.saveToDiskSync after, .ok after ())
    else (disk', .ok after ())

/-! ### Replaying refines the logged operations -/

variable {db : GraphDatabase}

private theorem skip_all {α : Type} {outcome : Outcome α} {P : GraphDatabase → Prop}
    (all : outcome.All P) (noError : ∀ db reason, outcome = .error db reason →
      ∃ message, reason = .notFound message) :
    ∃ db', skipNotFound outcome = .ok db' () ∧ P db' := by
  cases outcome with
  | ok db' value => exact ⟨db', rfl, all⟩
  | error db' reason =>
    obtain ⟨message, rfl⟩ := noError db' reason rfl
    exact ⟨db', rfl, all⟩
  | panicked => exact all.elim

private theorem apply_unanchored {edge : GraphEdge}
    (missing : db.indexMap.lookup edge.sourceId = none ∨
      db.indexMap.lookup edge.targetId = none) :
    (viewOf db).apply (.upsertEdge edge) = viewOf db := by
  refine View.ext rfl (Set.ext fun key => ?_)
  change key ∈ (viewOf db).edges ∨ key = edgeIdentityKey edge ∧ (viewOf db).Anchors key ↔
    key ∈ (viewOf db).edges
  constructor
  · rintro (old | ⟨rfl, source, target⟩)
    · exact old
    · change (db.getNode edge.sourceId).isSome = true at source
      change (db.getNode edge.targetId).isSome = true at target
      rcases missing with absent | absent
      · simp [getNode, absent] at source
      · simp [getNode, absent] at target
  · exact Or.inl

theorem replayOp_spec (consistent : Consistent db) (writable : db.readOnly = false)
    (op : GraphOp) :
    ∃ db', replayOp db op = .ok db' () ∧ Consistent db' ∧
      viewOf db' = (viewOf db).apply op ∧ db'.readOnly = false := by
  cases op with
  | upsertNode node =>
    have refined := consistent.upsertNode node
    unfold GraphDatabase.upsertNode Refines at refined
    simp only [replayOp, GraphDatabase.upsertNode]
    rw [if_neg (by simp [writable])] at refined ⊢
    obtain ⟨db', ended, steps, sameMode⟩ := skip_all refined (by
      intro after reason failed
      cases put : db.putNode node <;> simp [settle, put] at failed)
    exact ⟨db', ended, steps.consistent, steps.view, sameMode.trans writable⟩
  | upsertEdge edge =>
    simp only [replayOp, GraphDatabase.upsertEdge, GraphDatabase.insertEdge,
      GraphDatabase.endpoints]
    cases source : db.indexMap.lookup edge.sourceId with
    | none =>
      refine ⟨db, by simp [writable, skipNotFound, sourceNotFound], consistent,
        (apply_unanchored (Or.inl source)).symm, writable⟩
    | some s =>
      cases target : db.indexMap.lookup edge.targetId with
      | none =>
        refine ⟨db, by simp [writable, skipNotFound, targetNotFound],
          consistent, (apply_unanchored (Or.inr target)).symm, writable⟩
      | some t =>
        by_cases stored : db.edgeExists s t edge = true
        · have steps := Steps.storedEdge consistent
            ((consistent.edgeExists_iff source target).mp stored)
          exact ⟨db, by simp [stored, skipNotFound], consistent,
            steps.view, writable⟩
        · obtain ⟨db', added, steps, _, sameMode, _⟩ :=
            Steps.addEdge consistent source target
          exact ⟨db', by simp [stored, writable, added, skipNotFound, settle], steps.consistent, steps.view, sameMode.trans writable⟩
  | removeNodesByIds ids =>
    have refined := consistent.removeNodesByIds ids
    unfold GraphDatabase.removeNodesByIds Refines at refined
    simp only [replayOp, GraphDatabase.removeNodesByIds]
    rw [if_neg (by simp [writable])] at refined ⊢
    obtain ⟨steps, sameMode⟩ := refined
    exact ⟨_, rfl, steps.consistent, steps.view, sameMode.trans writable⟩
  | removeEdges endpoints =>
    have refined := consistent.removeEdges (endpoints.map tripleEdge)
    unfold GraphDatabase.removeEdges Refines at refined
    simp only [replayOp, GraphDatabase.removeEdges]
    rw [if_neg (by simp [writable])] at refined ⊢
    obtain ⟨steps, sameMode⟩ := refined
    have same : (endpoints.map tripleEdge).map GraphEdge.triple = endpoints := by
      rw [List.map_map]
      exact List.map_id endpoints
    simp only [same] at steps sameMode ⊢
    exact ⟨_, rfl, steps.consistent, steps.view, sameMode.trans writable⟩
  | commitIndexMap version => exact ⟨db, rfl, consistent, rfl, writable⟩

theorem replayOps_spec (ops : List GraphOp) :
    ∀ {db : GraphDatabase}, Consistent db → db.readOnly = false →
      ∃ db', replayOps ops db = .ok db' () ∧ Consistent db' ∧
        viewOf db' = ops.foldl View.apply (viewOf db) ∧ db'.readOnly = false := by
  induction ops with
  | nil => exact fun consistent writable => ⟨_, rfl, consistent, rfl, writable⟩
  | cons op rest ih =>
    intro db consistent writable
    obtain ⟨middle, step, kept, view, writable'⟩ := replayOp_spec consistent writable op
    obtain ⟨final, run, kept', view', writable''⟩ := ih kept writable'
    refine ⟨final, ?_, kept', ?_, writable''⟩
    · unfold replayOps
      rw [step]
      exact run
    · rw [view', view, List.foldl_cons]

/-! ### The codec on removals -/

def utf8 (s : String) : Bytes :=
  s.toUTF8.data.toList

def lengthBytes (n : Nat) : Bytes :=
  FrameLog.littleEndian n ++ FrameLog.littleEndian (n / 2 ^ 32)

def removalBytes (id : String) (count : Nat) : Bytes :=
  FrameLog.littleEndian 2 ++ lengthBytes count ++
    (List.replicate count (lengthBytes (utf8 id).length ++ utf8 id)).flatten

def removalCodec (id : String) : Codec where
  encodeOp
    | .removeNodesByIds ids =>
      if ids = List.replicate ids.length id then some (removalBytes id ids.length) else none
    | _ => none
  decodeOp payload :=
    let count := (payload.length - 12) / (8 + (utf8 id).length)
    if payload = removalBytes id count then some (.removeNodesByIds (List.replicate count id))
    else none

theorem length_removalBytes (id : String) (count : Nat) :
    (removalBytes id count).length = 12 + count * (8 + (utf8 id).length) := by
  simp [removalBytes, lengthBytes, ← Nat.add_assoc]

theorem removalCodec_lawful (id : String) : (removalCodec id).Lawful := by
  intro op payload encoded
  cases op with
  | removeNodesByIds ids =>
    simp only [removalCodec, Option.ite_none_right_eq_some, Option.some.injEq] at encoded
    obtain ⟨same, rfl⟩ := encoded
    have count : ((removalBytes id ids.length).length - 12) / (8 + (utf8 id).length) =
        ids.length := by
      rw [length_removalBytes, Nat.add_sub_cancel_left]
      exact Nat.mul_div_cancel _ (by omega)
    simp only [removalCodec, count, if_true, ← same]
  | upsertNode node => cases encoded
  | upsertEdge edge => cases encoded
  | removeEdges endpoints => cases encoded
  | commitIndexMap version => cases encoded

theorem removalCodec_frames (id : String) (count : Nat) :
    FrameLog.frames (walFormat (removalCodec id))
        [.removeNodesByIds (List.replicate count id)] =
      some (FrameLog.frame (walFormat (removalCodec id)) (removalBytes id count)) := by
  have encodes : (walFormat (removalCodec id)).encode
      (.removeNodesByIds (List.replicate count id)) = some (removalBytes id count) := by
    simp [walFormat, removalCodec]
  simp [FrameLog.frames, encodes]

theorem removalCodec_fits (id : String) (count : Nat)
    (fits : 12 + count * (8 + (utf8 id).length) ≤ frameCap) :
    FrameLog.Fits (walFormat (removalCodec id))
      [.removeNodesByIds (List.replicate count id)] := by
  intro op member payload encoded
  obtain rfl := List.mem_singleton.mp member
  obtain rfl : removalBytes id count = payload := by
    simpa [walFormat, removalCodec] using encoded
  rw [length_removalBytes]
  exact fits

end Lain.Graph
