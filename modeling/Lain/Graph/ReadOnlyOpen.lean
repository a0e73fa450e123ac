import Mathlib
import Lain.Graph.Wal

/-!
# Opening read-only

A read-only handle is an ordinary open whose handle is marked afterwards.
-/

namespace Lain.Graph

open Foundation GraphDatabase

/-- Open the graph at a path; without a snapshot it starts empty. -/
def new (codec : Codec) (disk : Disk) : Disk × Outcome Unit :=
  match disk.main with
  | none => (disk, .ok {} ())
  | some _ => loadFromDisk codec disk {}

/-- Open the graph at a path as immutable. -/
def openReadOnly (codec : Codec) (disk : Disk) : Disk × Outcome Unit :=
  match new codec disk with
  | (disk', .ok db _) => (disk', .ok { db with readOnly := true } ())
  | (disk', .error db reason) => (disk', .error db reason)
  | (disk', .panicked) => (disk', .panicked)

def replayed (codec : Codec) (file : Option Bytes) (db : GraphDatabase) : Option GraphDatabase :=
  match file with
  | none => some db
  | some bytes =>
    match replayOps (FrameLog.scan (walFormat codec) bytes).ops db with
    | .ok after _ =>
      if (FrameLog.scan (walFormat codec) bytes).oversized = none then some after else none
    | _ => none

def EndsWhole (codec : Codec) (file : Option Bytes) : Prop :=
  ∀ bytes, file = some bytes → bytes.take (FrameLog.scan (walFormat codec) bytes).goodEnd = bytes

def Blank (file : Option Bytes) : Prop :=
  ∀ bytes, file = some bytes → bytes = []

/-- **When opening leaves the files alone.** The snapshot is absent or not for this
build; or the retired log cannot be replayed on it; or the retired log ends in a whole
frame and the live log cannot be replayed behind it; or both logs are blank. -/
def OpensUntouched (codec : Codec) (disk : Disk) : Prop :=
  ∀ snapshot state, disk.main = some snapshot → snapshot.decodeState = some state →
    state.pathFormatVersion = Graph.pathFormatVersion →
    ∀ middle, replayed codec disk.prev (GraphDatabase.applyStateLoaded {} state) = some middle →
      EndsWhole codec disk.prev ∧
        (replayed codec disk.live middle = none ∨ Blank disk.prev ∧ Blank disk.live)

/-! ### Replaying keeps the handle writable -/

def Outcome.Ends {α : Type} (P : GraphDatabase → Prop) : Outcome α → Prop
  | .ok db _ => P db
  | .error db _ => P db
  | .panicked => True

theorem Outcome.Ends.skipNotFound {α : Type} {P : GraphDatabase → Prop} {outcome : Outcome α}
    (ends : outcome.Ends P) : (Graph.skipNotFound outcome).Ends P := by
  cases outcome with
  | ok db value => exact ends
  | error db reason => cases reason <;> exact ends
  | panicked => trivial

theorem Outcome.Ends.settle {α : Type} {P : GraphDatabase → Prop} {value : α}
    {after : Option GraphDatabase} (kept : ∀ db, after = some db → P db) :
    (GraphDatabase.settle value after).Ends P := by
  cases after with
  | none => trivial
  | some db => exact kept db rfl

variable {db : GraphDatabase}

theorem putNode_readOnly {node : GraphNode} {after : GraphDatabase}
    (put : db.putNode node = some after) : after.readOnly = db.readOnly := by
  unfold putNode at put
  split at put
  · split at put
    · cases put
    · split at put <;> cases put <;> rfl
  · cases put
    rfl

theorem addEdge_readOnly {source target : Nat} {edge : GraphEdge} {after : GraphDatabase}
    (added : db.addEdge source target edge = some after) : after.readOnly = db.readOnly := by
  obtain ⟨graph, -, rfl⟩ := Option.map_eq_some_iff.mp added
  rfl

theorem insertEdge_ends (edge : GraphEdge) :
    (db.insertEdge edge).outcome.Ends fun after => after.readOnly = db.readOnly := by
  unfold GraphDatabase.insertEdge
  split
  · rfl
  · split
    · rfl
    · exact Outcome.Ends.settle fun _ => addEdge_readOnly

theorem replayOp_ends (op : GraphOp) :
    (replayOp db op).Ends fun after => after.readOnly = db.readOnly := by
  cases op with
  | upsertNode node =>
    refine Outcome.Ends.skipNotFound ?_
    unfold GraphDatabase.upsertNode
    split
    · rfl
    · exact Outcome.Ends.settle fun _ => putNode_readOnly
  | upsertEdge edge =>
    refine Outcome.Ends.skipNotFound ?_
    unfold GraphDatabase.upsertEdge
    split
    · split
      · rfl
      · exact insertEdge_ends edge
    · exact insertEdge_ends edge
  | removeNodesByIds ids =>
    refine Outcome.Ends.skipNotFound ?_
    unfold GraphDatabase.removeNodesByIds
    split <;> rfl
  | removeEdges endpoints =>
    refine Outcome.Ends.skipNotFound ?_
    unfold GraphDatabase.removeEdges
    split <;> rfl
  | commitIndexMap version => rfl

theorem replayOps_readOnly (ops : List GraphOp) {after : GraphDatabase} :
    ∀ {db : GraphDatabase}, replayOps ops db = .ok after () → after.readOnly = db.readOnly := by
  induction ops with
  | nil =>
    intro db ended
    cases ended
    rfl
  | cons op rest ih =>
    intro db ended
    unfold replayOps at ended
    have step : (replayOp db op).Ends fun after => after.readOnly = db.readOnly := replayOp_ends op
    cases one : replayOp db op with
    | ok middle value =>
      rw [one] at ended step
      exact (ih ended).trans step
    | error middle reason => rw [one] at ended; cases ended
    | panicked => rw [one] at ended; cases ended

theorem replayed_readOnly {codec : Codec} {file : Option Bytes} {after : GraphDatabase}
    (ended : replayed codec file db = some after) : after.readOnly = db.readOnly := by
  unfold replayed at ended
  split at ended
  · cases ended
    rfl
  · split at ended
    next found =>
        split_ifs at ended
        cases ended
        exact replayOps_readOnly _ found
    · cases ended

/-! ### What a load does to the files -/

section Load

variable {codec : Codec} {file : Option Bytes}

def repaired (codec : Codec) (file : Option Bytes) : Option Bytes :=
  file.map fun bytes => bytes.take (FrameLog.scan (walFormat codec) bytes).goodEnd

def opCount (codec : Codec) (file : Option Bytes) : Nat :=
  (file.map fun bytes => (FrameLog.scan (walFormat codec) bytes).ops.length).getD 0

theorem repaired_eq_iff : repaired codec file = file ↔ EndsWhole codec file := by
  cases file with
  | none => simp [repaired, EndsWhole]
  | some bytes => simp [repaired, EndsWhole]

theorem replayAndRepair_none (refused : replayed codec file db = none) :
    ∃ outcome, replayAndRepair codec file db = (file, outcome) ∧ ∀ after n, outcome ≠ .ok after n := by
  cases file with
  | none => cases refused
  | some bytes =>
    unfold replayed at refused
    unfold replayAndRepair
    dsimp only at refused ⊢
    cases ran : replayOps (FrameLog.scan (walFormat codec) bytes).ops db with
    | panicked => exact ⟨_, rfl, nofun⟩
    | error after reason => exact ⟨_, rfl, nofun⟩
    | ok after value =>
      rw [ran] at refused
      cases long : (FrameLog.scan (walFormat codec) bytes).oversized with
      | none => simp [long] at refused
      | some len => exact ⟨_, rfl, nofun⟩

theorem replayAndRepair_some {after : GraphDatabase}
    (ended : replayed codec file db = some after) :
    replayAndRepair codec file db = (repaired codec file, .ok after (opCount codec file)) := by
  cases file with
  | none =>
    cases ended
    rfl
  | some bytes =>
    unfold replayed at ended
    unfold replayAndRepair
    dsimp only at ended ⊢
    cases ran : replayOps (FrameLog.scan (walFormat codec) bytes).ops db with
    | panicked => rw [ran] at ended; cases ended
    | error after reason => rw [ran] at ended; cases ended
    | ok final value =>
      rw [ran] at ended
      cases long : (FrameLog.scan (walFormat codec) bytes).oversized with
      | some len => simp [long] at ended
      | none =>
        simp only [long, if_true, Option.some.injEq] at ended
        rw [ended]
        rfl

theorem Blank.opCount (blank : Blank file) : opCount codec file = 0 := by
  cases file with
  | none => rfl
  | some bytes =>
    rw [blank bytes rfl, Graph.opCount, Option.map_some, FrameLog.scan_nil]
    rfl

theorem scan_goodEnd_of_ops {bytes : Bytes}
    (none : (FrameLog.scan (walFormat codec) bytes).ops = []) :
    (FrameLog.scan (walFormat codec) bytes).goodEnd = 0 := by
  rw [FrameLog.scan] at none ⊢
  split at none
  · simp_all
  · simp_all
  · split_ifs at none
    simp_all

theorem Disk.logs_eq_iff {disk : Disk} {live prev : Option Bytes} :
    ({ disk with live, prev } : Disk) = disk ↔ prev = disk.prev ∧ live = disk.live := by
  cases disk
  simp [and_comm]

theorem endsWhole_iff_blank (none : opCount codec file = 0) :
    EndsWhole codec file ↔ Blank file := by
  cases file with
  | none => simp [EndsWhole, Blank]
  | some bytes =>
    have ops : (FrameLog.scan (walFormat codec) bytes).ops = [] :=
      List.length_eq_zero_iff.mp none
    simp [EndsWhole, Blank, scan_goodEnd_of_ops ops, eq_comm]

variable {disk : Disk}

theorem saveToDiskSync_ne (some_ : 0 < opCount codec disk.prev + opCount codec disk.live)
    (after : GraphDatabase) :
    ({ disk with prev := repaired codec disk.prev
                 live := repaired codec disk.live } : Disk).saveToDiskSync after ≠ disk := by
  intro same
  have noPrev : disk.prev = none := by
    rw [← congrArg Disk.prev same]
    rfl
  cases live : disk.live with
  | none => simp [noPrev, live, opCount] at some_
  | some bytes =>
    have gone := congrArg Disk.live same
    rw [live] at gone
    simp [Disk.saveToDiskSync, Disk.rotate, Disk.publish, Disk.discardPrev, repaired,
      noPrev] at gone

theorem loadFromDisk_files {snapshot : Snapshot} {state : GraphState}
    (main : disk.main = some snapshot) (decoded : snapshot.decodeState = some state)
    (current : state.pathFormatVersion = Graph.pathFormatVersion) :
    (loadFromDisk codec disk {}).1 =
      match replayed codec disk.prev (GraphDatabase.applyStateLoaded {} state) with
      | none => disk
      | some middle =>
        match replayed codec disk.live middle with
        | none => { disk with prev := repaired codec disk.prev }
        | some after =>
          let rest : Disk := { disk with
            prev := repaired codec disk.prev, live := repaired codec disk.live }
          if 0 < opCount codec disk.prev + opCount codec disk.live then
            rest.saveToDiskSync after
          else rest := by
  unfold loadFromDisk recover
  simp only [main, decoded, current, ne_eq, not_true_eq_false, if_false]
  cases retired : replayed codec disk.prev (GraphDatabase.applyStateLoaded {} state) with
  | none =>
    obtain ⟨outcome, ran, failed⟩ := replayAndRepair_none retired
    rw [ran]
    cases outcome with
    | ok after n => exact absurd rfl (failed after n)
    | error after reason => simp [← main]
    | panicked => simp [← main]
  | some middle =>
    rw [replayAndRepair_some retired]
    cases recent : replayed codec disk.live middle with
    | none =>
      obtain ⟨outcome, ran, failed⟩ := replayAndRepair_none recent
      simp only [ran, recent]
      cases outcome with
      | ok after n => exact absurd rfl (failed after n)
      | error after reason => simp [← main]
      | panicked => simp [← main]
    | some after =>
      have writable : after.readOnly = false :=
        (replayed_readOnly recent).trans (replayed_readOnly retired)
      simp only [replayAndRepair_some recent, recent, writable, and_true]
      split_ifs <;> simp [← main]

end Load

theorem loadFromDisk_skips {codec : Codec} {disk : Disk} {snapshot : Snapshot}
    (main : disk.main = some snapshot)
    (foreign : ¬ ∃ state, snapshot.decodeState = some state ∧
      state.pathFormatVersion = Graph.pathFormatVersion) :
    (loadFromDisk codec disk {}).1 = disk := by
  unfold loadFromDisk recover
  simp only [main]
  cases decoded : snapshot.decodeState with
  | none => rfl
  | some state =>
    have other : state.pathFormatVersion ≠ Graph.pathFormatVersion := fun current =>
      foreign ⟨state, decoded, current⟩
    simp [other]

theorem openReadOnly_files (codec : Codec) (disk : Disk) :
    (openReadOnly codec disk).1 = (new codec disk).1 := by
  unfold openReadOnly
  split <;> rename_i ran <;> rw [ran]

/-- **Opening read-only** leaves the files alone exactly when there is nothing to
repair or replay, or the load fails first. -/
theorem openReadOnly_files_iff (codec : Codec) (disk : Disk) :
    (openReadOnly codec disk).1 = disk ↔ OpensUntouched codec disk := by
  rw [openReadOnly_files]
  unfold new
  cases main : disk.main with
  | none => exact ⟨fun _ snapshot _ found => by simp [main] at found, fun _ => rfl⟩
  | some snapshot =>
    dsimp only
    by_cases loads : ∃ state, snapshot.decodeState = some state ∧
        state.pathFormatVersion = Graph.pathFormatVersion
    · obtain ⟨state, decoded, current⟩ := loads
      have condition : OpensUntouched codec disk ↔ ∀ middle,
          replayed codec disk.prev (GraphDatabase.applyStateLoaded {} state) = some middle →
          EndsWhole codec disk.prev ∧
            (replayed codec disk.live middle = none ∨ Blank disk.prev ∧ Blank disk.live) := by
        constructor
        · exact fun all => all snapshot state main decoded current
        · intro all snapshot' state' main' decoded' _
          obtain rfl : snapshot = snapshot' := Option.some.inj (main.symm.trans main')
          obtain rfl : state = state' := Option.some.inj (decoded.symm.trans decoded')
          exact all
      rw [loadFromDisk_files main decoded current, condition]
      cases retired : replayed codec disk.prev (GraphDatabase.applyStateLoaded {} state) with
      | none => simp
      | some middle =>
        simp only [Option.some.injEq, forall_eq']
        cases recent : replayed codec disk.live middle with
        | none => simp [Disk.logs_eq_iff, repaired_eq_iff]
        | some after =>
          dsimp only
          split_ifs with found
          · refine iff_of_false (saveToDiskSync_ne found after) ?_
            rintro ⟨-, refused | ⟨prevBlank, liveBlank⟩⟩
            · cases refused
            · rw [prevBlank.opCount, liveBlank.opCount] at found
              exact absurd found (by decide)
          · have prevNone : opCount codec disk.prev = 0 := by omega
            have liveNone : opCount codec disk.live = 0 := by omega
            simp [Disk.logs_eq_iff, repaired_eq_iff, endsWhole_iff_blank prevNone,
              endsWhole_iff_blank liveNone]
    · refine iff_of_true (loadFromDisk_skips main loads) ?_
      intro snapshot' state main' decoded current
      obtain rfl : snapshot = snapshot' := Option.some.inj (main.symm.trans main')
      exact absurd ⟨state, decoded, current⟩ loads

def tornDisk : Disk where
  main := some (.encoded (GraphDatabase.buildState {}))
  live := some [1]

/-- An open that is meant to read cuts the torn byte off. -/
theorem openReadOnly_writes : (openReadOnly (removalCodec "a") tornDisk).1 ≠ tornDisk := by
  intro same
  have torn : FrameLog.scan (walFormat (removalCodec "a")) [1] = ⟨[], 0, none⟩ :=
    FrameLog.scan_torn_of _ rfl
  have live := congrArg Disk.live same
  rw [openReadOnly_files, new, tornDisk, loadFromDisk_files rfl rfl rfl] at live
  simp [replayed, repaired, opCount, torn, replayOps] at live

end Lain.Graph
