import Lain.Graph.Process

/-!
# Crash recovery

The files of a machine always hold a snapshot of some point of the history, a
retired log that leads on from it and a live log that leads to the end.
-/

namespace Lain.Graph

open Foundation GraphDatabase

def Intact (codec : Codec) (file : Option Bytes) (ops : List GraphOp) : Prop :=
  codec.frames ops = some (file.getD [])

def Reads (codec : Codec) (file : Option Bytes) (ops : List GraphOp) : Prop :=
  ∃ whole, codec.frames ops = some whole ∧
    FrameLog.scan (walFormat codec) (file.getD []) = ⟨ops, whole.length, none⟩ ∧
      (file.getD []).take whole.length = whole

section Files

variable {codec : Codec} {file : Option Bytes} {ops : List GraphOp}

theorem Intact.reads_append (intact : Intact codec file ops) (lawful : codec.Lawful)
    (fits : FrameLog.Fits (walFormat codec) ops) (tail whole : Bytes) (found : List GraphOp)
    (torn : FrameLog.scan (walFormat codec) tail = ⟨found, whole.length, none⟩)
    (framed : codec.frames found = some whole) (cut : tail.take whole.length = whole) :
    Reads codec (some (file.getD [] ++ tail)) (ops ++ found) := by
  refine ⟨file.getD [] ++ whole, FrameLog.frames_append _ intact framed, ?_, ?_⟩
  · rw [Option.getD_some, FrameLog.scan_frames_append (walFormat codec) lawful intact fits, torn,
      List.length_append]
  · rw [Option.getD_some, List.length_append, List.take_length_add_append, cut]

theorem Intact.reads (intact : Intact codec file ops) (lawful : codec.Lawful)
    (fits : FrameLog.Fits (walFormat codec) ops) : Reads codec file ops := by
  have whole := intact.reads_append lawful fits [] [] []
    (FrameLog.scan_nil _) rfl rfl
  rw [List.append_nil, List.append_nil] at whole
  obtain ⟨bytes, framed, read, cut⟩ := whole
  exact ⟨bytes, framed, read, cut⟩

theorem Intact.append (intact : Intact codec file ops) {more : List GraphOp} {bytes : Bytes}
    (framed : codec.frames more = some bytes) :
    Intact codec (some (file.getD [] ++ bytes)) (ops ++ more) :=
  FrameLog.frames_append _ intact framed

theorem Intact.wholeFrames_le (lawful : codec.Lawful) {more : List GraphOp} {bytes : Bytes}
    (framed : codec.frames more = some bytes)
    (fits : FrameLog.Fits (walFormat codec) more) (written : Nat) :
    wholeFrames codec (bytes.take written) ≤ more.length := by
  obtain ⟨n, bound, _, _, read, _⟩ :=
    FrameLog.scan_take_frames (walFormat codec) lawful framed fits written
  unfold wholeFrames
  rw [read, List.length_take_of_le bound]
  exact bound

theorem Intact.cut (intact : Intact codec file ops) (lawful : codec.Lawful)
    (fits : FrameLog.Fits (walFormat codec) ops) {more : List GraphOp} {bytes : Bytes}
    (framed : codec.frames more = some bytes)
    (fitsMore : FrameLog.Fits (walFormat codec) more) (written : Nat) :
    wholeFrames codec (bytes.take written) ≤ more.length ∧
      Reads codec (some (file.getD [] ++ bytes.take written))
        (ops ++ more.take (wholeFrames codec (bytes.take written))) := by
  obtain ⟨n, bound, whole, kept, read, cut, _⟩ :=
    FrameLog.scan_take_frames (walFormat codec) lawful framed fitsMore written
  have count : wholeFrames codec (bytes.take written) = n := by
    unfold wholeFrames
    rw [read, List.length_take_of_le bound]
  rw [count]
  exact ⟨bound, intact.reads_append lawful fits _ _ _ read kept cut⟩

theorem Reads.scan_ops (reads : Reads codec file ops) :
    (FrameLog.scan (walFormat codec) (file.getD [])).ops = ops := by
  obtain ⟨whole, _, read, _⟩ := reads
  rw [read]

theorem Disk.logOps_spec {disk disk' : Disk} (written : disk.logOps codec ops = some disk') :
    disk'.main = disk.main ∧ disk'.prev = disk.prev ∧
      ∃ bytes, codec.frames ops = some bytes ∧
        disk'.live.getD [] = disk.live.getD [] ++ bytes := by
  unfold Disk.logOps at written
  split at written
  next empty =>
      cases written
      exact ⟨rfl, rfl, [], by rw [List.isEmpty_iff.mp empty]; rfl, by simp⟩
  next =>
      obtain ⟨bytes, framed, rfl⟩ := Option.map_eq_some_iff.mp written
      exact ⟨rfl, rfl, bytes, framed, rfl⟩

theorem Intact.log {disk disk' : Disk} (intact : Intact codec disk.live ops)
    {more : List GraphOp} (written : disk.logOps codec more = some disk') :
    Intact codec disk'.live (ops ++ more) := by
  obtain ⟨_, _, bytes, framed, live⟩ := Disk.logOps_spec written
  have appended := intact.append framed
  unfold Intact at *
  rwa [live]

/-- **Replaying a log file** applies the operations it holds and cuts its tail. -/
theorem Reads.replay (reads : Reads codec file ops) {db : GraphDatabase}
    (consistent : Consistent db) (writable : db.readOnly = false) :
    ∃ file' db' n, replayAndRepair codec file db = (file', .ok db' n) ∧
      Intact codec file' ops ∧ Consistent db' ∧ db'.readOnly = false ∧
        viewOf db' = ops.foldl View.apply (viewOf db) := by
  obtain ⟨whole, framed, read, cut⟩ := reads
  cases file with
  | none =>
    rw [Option.getD_none, FrameLog.scan_nil] at read
    obtain rfl : [] = ops := congrArg FrameLog.Scan.ops read
    exact ⟨none, db, 0, rfl, rfl, consistent, writable, rfl⟩
  | some bytes =>
    rw [Option.getD_some] at read cut
    obtain ⟨db', replayed, kept, view, writable'⟩ := replayOps_spec ops consistent writable
    refine ⟨some whole, db', ops.length, ?_, framed, kept, writable', view⟩
    unfold replayAndRepair
    simp only [read, replayed, cut]

theorem loads_buildState {saved : GraphDatabase} (consistent : Consistent saved) :
    ∃ state : GraphState,
      (Snapshot.encoded saved.buildState).decodeState = some state ∧
      state.pathFormatVersion = Graph.pathFormatVersion ∧
      Consistent (GraphDatabase.applyStateLoaded {} state) ∧
      (GraphDatabase.applyStateLoaded {} state).readOnly = false ∧
      viewOf (GraphDatabase.applyStateLoaded {} state) = viewOf saved := by
  obtain ⟨kept, sameView⟩ := loaded_consistent {} consistent
  exact ⟨{ saved.buildState with graph := saved.graph.relink }, rfl, rfl, kept, rfl, sameView⟩

theorem recover_reads {disk : Disk} {saved : GraphDatabase} {prevOps liveOps : List GraphOp}
    (main : disk.main = some (.encoded saved.buildState)) (consistent : Consistent saved)
    (prev : Reads codec disk.prev prevOps) (live : Reads codec disk.live liveOps) :
    ∃ disk' db replayed, recover codec disk {} = (disk', .ok db replayed) ∧
      Consistent db ∧ db.readOnly = false ∧
      viewOf db = (prevOps ++ liveOps).foldl View.apply (viewOf saved) ∧
      disk'.main = disk.main ∧ Intact codec disk'.prev prevOps ∧
      Intact codec disk'.live liveOps := by
  obtain ⟨state, decoded, version, loaded, writable, view⟩ := loads_buildState consistent
  obtain ⟨prev', middle, first, replayPrev, intactPrev, kept, writable', viewMiddle⟩ :=
    prev.replay loaded writable
  obtain ⟨live', db, second, replayLive, intactLive, kept', writable'', viewEnd⟩ :=
    live.replay kept writable'
  refine ⟨{ disk with prev := prev', live := live' }, db, first + second, ?_, kept',
    writable'', ?_, rfl, intactPrev, intactLive⟩
  · unfold recover
    simp only [main, decoded, version, ne_eq, not_true_eq_false, if_false, replayPrev,
      replayLive]
  · rw [viewEnd, viewMiddle, view, List.foldl_append]

end Files

structure Recoverable (form : Option Bytes → List GraphOp → Prop) (initial : View)
    (history : List GraphOp) (disk : Disk) (saved retired : Nat) : Prop where
  snapshot : ∃ db : GraphDatabase, disk.main = some (.encoded db.buildState) ∧
    Consistent db ∧ viewOf db = stateAt View.apply initial history saved
  prev : ∃ ops reached, form disk.prev ops ∧ Retraces history saved ops reached ∧
    retired ≤ reached
  live : form disk.live (history.drop retired)
  saved_le : saved ≤ history.length
  retired_le : retired ≤ history.length

namespace Recoverable

variable {form : Option Bytes → List GraphOp → Prop} {initial : View}
  {history : List GraphOp} {disk : Disk} {saved retired : Nat} {codec : Codec}

theorem live_retraces (files : Recoverable form initial history disk saved retired)
    {reached : Nat} (covered : retired ≤ reached) :
    Retraces history reached (history.drop retired) history.length :=
  .back covered (.suffix history retired files.retired_le)

theorem reads (files : Recoverable (Intact codec) initial history disk saved retired)
    (lawful : codec.Lawful) (fits : FrameLog.Fits (walFormat codec) history) :
    Recoverable (Reads codec) initial history disk saved retired := by
  obtain ⟨ops, reached, intact, retraces, covered⟩ := files.prev
  exact
    { snapshot := files.snapshot
      prev := ⟨ops, reached,
        intact.reads lawful fun op member => fits op (retraces.mem_history op member),
        retraces, covered⟩
      live := files.live.reads lawful fun op member => fits op (List.mem_of_mem_drop member)
      saved_le := files.saved_le
      retired_le := files.retired_le }

theorem recover_exact
    (files : Recoverable (Reads codec) initial history disk saved retired)
    (logged : View.WellLogged initial history) :
    ∃ disk' db replayed, recover codec disk {} = (disk', .ok db replayed) ∧
      Consistent db ∧ db.readOnly = false ∧
      viewOf db = history.foldl View.apply initial ∧
      Recoverable (Intact codec) initial history disk' saved retired := by
  obtain ⟨snapshot, main, consistent, viewSaved⟩ := files.snapshot
  obtain ⟨ops, reached, readsPrev, retraces, covered⟩ := files.prev
  obtain ⟨disk', db, replayed, recovered, kept, writable, view, sameMain, prev, live⟩ :=
    recover_reads main consistent readsPrev files.live
  have whole := retraces.append (files.live_retraces covered)
  refine ⟨disk', db, replayed, recovered, kept, writable, ?_, ?_⟩
  · rw [view, viewSaved]
    exact View.replay_exact logged whole
  · exact
      { snapshot := ⟨snapshot, sameMain.trans main, consistent, viewSaved⟩
        prev := ⟨ops, reached, prev, retraces, covered⟩
        live
        saved_le := files.saved_le
        retired_le := files.retired_le }

theorem repairPrev
    (files : Recoverable (Reads codec) initial history disk saved retired)
    (lawful : codec.Lawful) (fits : FrameLog.Fits (walFormat codec) history)
    {state : GraphState} (decoded : disk.main.bind Snapshot.decodeState = some state) :
    Recoverable (Reads codec) initial history
      { disk with
        prev := (replayAndRepair codec disk.prev
          (GraphDatabase.applyStateLoaded {} state)).1 } saved retired := by
  obtain ⟨snapshot, main, consistent, _⟩ := files.snapshot
  obtain ⟨same, decodes, _, loaded, writable, _⟩ := loads_buildState consistent
  rw [main, Option.bind_some] at decoded
  obtain rfl : state = same := Option.some.inj (decoded.symm.trans decodes)
  obtain ⟨ops, reached, readsPrev, retraces, covered⟩ := files.prev
  obtain ⟨prev, middle, first, replayPrev, intactPrev, _⟩ := readsPrev.replay loaded writable
  rw [replayPrev]
  exact
    { snapshot := files.snapshot
      prev := ⟨ops, reached,
        intactPrev.reads lawful fun op member => fits op (retraces.mem_history op member),
        retraces, covered⟩
      live := files.live
      saved_le := files.saved_le
      retired_le := files.retired_le }

theorem log (files : Recoverable (Intact codec) initial history disk saved retired)
    {ops : List GraphOp} {disk' : Disk} (written : disk.logOps codec ops = some disk') :
    Recoverable (Intact codec) initial (history ++ ops) disk' saved retired := by
  obtain ⟨db, main, consistent, view⟩ := files.snapshot
  obtain ⟨prevOps, reached, intact, retraces, covered⟩ := files.prev
  obtain ⟨sameMain, samePrev, _⟩ := Disk.logOps_spec written
  have saved_le := files.saved_le
  have retired_le := files.retired_le
  refine
    { snapshot := ⟨db, sameMain ▸ main, consistent, ?_⟩
      prev := ⟨prevOps, reached, samePrev ▸ intact, retraces.extend ops, covered⟩
      live := ?_
      saved_le := by simp; omega
      retired_le := by simp; omega }
  · rw [view, stateAt_append View.apply initial saved_le]
  · rw [List.drop_append_of_le_length retired_le]
    exact files.live.log written

theorem tear (files : Recoverable (Intact codec) initial history disk saved retired)
    (lawful : codec.Lawful) (fits : FrameLog.Fits (walFormat codec) history)
    {ops : List GraphOp} (fitsOps : FrameLog.Fits (walFormat codec) ops) {bytes : Bytes}
    (framed : codec.frames ops = some bytes) (written : Nat) :
    wholeFrames codec (bytes.take written) ≤ ops.length ∧
      Recoverable (Reads codec) initial
        (history ++ ops.take (wholeFrames codec (bytes.take written)))
        (disk.append (bytes.take written)) saved retired := by
  obtain ⟨bound, appended⟩ := files.live.cut lawful
    (fun op member => fits op (List.mem_of_mem_drop member)) framed fitsOps written
  obtain ⟨db, main, consistent, view⟩ := files.snapshot
  obtain ⟨prevOps, reached, intact, retraces, covered⟩ := files.prev
  have saved_le := files.saved_le
  have retired_le := files.retired_le
  refine ⟨bound,
    { snapshot := ⟨db, main, consistent, ?_⟩
      prev := ⟨prevOps, reached,
        intact.reads lawful fun op member => fits op (retraces.mem_history op member),
        retraces.extend _, covered⟩
      live := ?_
      saved_le := by simp; omega
      retired_le := by simp; omega }⟩
  · rw [view, stateAt_append View.apply initial saved_le]
  · rw [List.drop_append_of_le_length retired_le]
    exact appended

end Recoverable

/-! ### Checkpoints -/

def Checkpoint.Covers (codec : Codec) (initial : View) (history : List GraphOp) (disk : Disk)
    (saved retired : Nat) : Checkpoint → Prop
  | .idle => True
  | .rotated => True
  | .merging =>
    ∃ ops, Intact codec disk.prev ops ∧ Retraces history saved ops history.length
  | .encoded state =>
    ∃ db reached, state = db.buildState ∧ Consistent db ∧
      viewOf db = stateAt View.apply initial history reached ∧ saved ≤ reached ∧
        retired ≤ reached ∧ reached ≤ history.length
  | .published => retired ≤ saved

namespace Checkpoint.Covers

variable {codec : Codec} {initial : View} {history : List GraphOp} {disk : Disk}
  {saved retired : Nat} {checkpoint : Checkpoint}

theorem log (covers : checkpoint.Covers codec initial history disk saved retired)
    (unlocked : checkpoint ≠ .merging) (later : List GraphOp) (disk' : Disk) :
    checkpoint.Covers codec initial (history ++ later) disk' saved retired := by
  cases checkpoint with
  | idle => trivial
  | rotated => trivial
  | merging => exact absurd rfl unlocked
  | encoded state =>
    obtain ⟨db, reached, same, consistent, view, fromSaved, fromRetired, bound⟩ := covers
    refine ⟨db, reached, same, consistent, ?_, fromSaved, fromRetired, by simp; omega⟩
    rw [view, stateAt_append View.apply initial bound]
  | published => exact covers

end Checkpoint.Covers

namespace Recoverable

variable {initial : View} {history : List GraphOp} {disk : Disk} {saved retired : Nat}
  {codec : Codec}

theorem rotate (files : Recoverable (Intact codec) initial history disk saved retired)
    (room : disk.live = none ∨ disk.prev = none) :
    ∃ retired', Recoverable (Intact codec) initial history disk.rotate saved retired' := by
  cases live : disk.live with
  | none =>
    refine ⟨retired, ?_⟩
    unfold Disk.rotate
    rw [live]
    exact files
  | some bytes =>
    have noPrev : disk.prev = none := room.resolve_left (by simp [live])
    obtain ⟨ops, reached, intact, retraces, covered⟩ := files.prev
    obtain rfl : ops = [] := FrameLog.frames_eq_nil _ (by rw [noPrev] at intact; exact intact)
    have earlier : retired ≤ saved := covered.trans (retraces.le_of_nil rfl)
    have moved := files.live
    refine ⟨history.length, ?_⟩
    unfold Disk.rotate
    rw [live, noPrev]
    rw [live] at moved
    exact
      { snapshot := files.snapshot
        prev := ⟨history.drop retired, history.length, moved,
          files.live_retraces earlier, le_rfl⟩
        live := by rw [List.drop_length]; rfl
        saved_le := files.saved_le
        retired_le := le_rfl }

theorem merge (files : Recoverable (Intact codec) initial history disk saved retired)
    {live prev : Bytes} (hasLive : disk.live = some live) (hasPrev : disk.prev = some prev) :
    Recoverable (Intact codec) initial history (disk.appendPrev live) saved retired ∧
      Checkpoint.merging.Covers codec initial history (disk.appendPrev live) saved retired := by
  obtain ⟨ops, reached, intact, retraces, covered⟩ := files.prev
  have whole := retraces.append (files.live_retraces covered)
  have merged : Intact codec (disk.appendPrev live).prev (ops ++ history.drop retired) := by
    have intactLive := files.live
    unfold Intact Disk.appendPrev at *
    rw [hasPrev] at intact ⊢
    rw [hasLive] at intactLive
    exact FrameLog.frames_append _ intact intactLive
  exact ⟨
    { snapshot := files.snapshot
      prev := ⟨_, _, merged, whole, files.retired_le⟩
      live := files.live
      saved_le := files.saved_le
      retired_le := files.retired_le }, _, merged, whole⟩

theorem tearMerge (files : Recoverable (Intact codec) initial history disk saved retired)
    (lawful : codec.Lawful) (fits : FrameLog.Fits (walFormat codec) history)
    {live prev : Bytes} (hasLive : disk.live = some live) (hasPrev : disk.prev = some prev)
    (written : Nat) :
    Recoverable (Reads codec) initial history (disk.appendPrev (live.take written)) saved
      retired := by
  have fitsLive : FrameLog.Fits (walFormat codec) (history.drop retired) :=
    fun op member => fits op (List.mem_of_mem_drop member)
  obtain ⟨ops, reached, intact, retraces, covered⟩ := files.prev
  have intactLive := files.live
  rw [hasLive] at intactLive
  rw [hasPrev] at intact
  obtain ⟨bound, appended⟩ := intact.cut lawful
    (fun op member => fits op (retraces.mem_history op member)) intactLive fitsLive written
  rw [List.length_drop, Option.getD_some] at bound
  have retired_le := files.retired_le
  have part := Retraces.segment history retired (wholeFrames codec (live.take written))
    (by omega)
  refine
    { snapshot := files.snapshot
      prev := ⟨_, _, ?_, retraces.append (.back covered part), by omega⟩
      live := files.live.reads lawful fitsLive
      saved_le := files.saved_le
      retired_le := files.retired_le }
  unfold Disk.appendPrev
  rw [hasPrev]
  exact appended

theorem truncate (files : Recoverable (Intact codec) initial history disk saved retired)
    (merged : Checkpoint.merging.Covers codec initial history disk saved retired) :
    Recoverable (Intact codec) initial history { disk with live := some [] } saved
      history.length := by
  obtain ⟨ops, intact, retraces⟩ := merged
  exact
    { snapshot := files.snapshot
      prev := ⟨ops, history.length, intact, retraces, le_rfl⟩
      live := by rw [List.drop_length]; rfl
      saved_le := files.saved_le
      retired_le := le_rfl }

theorem publish (files : Recoverable (Intact codec) initial history disk saved retired)
    {state : GraphState}
    (encoded : (Checkpoint.encoded state).Covers codec initial history disk saved retired) :
    ∃ saved', Recoverable (Intact codec) initial history (disk.publish state) saved' retired ∧
      retired ≤ saved' := by
  obtain ⟨db, reached, rfl, consistent, view, fromSaved, fromRetired, bound⟩ := encoded
  obtain ⟨ops, last, intact, retraces, covered⟩ := files.prev
  exact ⟨reached,
    { snapshot := ⟨db, rfl, consistent, view⟩
      prev := ⟨ops, last, intact, .back fromSaved retraces, covered⟩
      live := files.live
      saved_le := bound
      retired_le := files.retired_le }, fromRetired⟩

theorem discard (files : Recoverable (Intact codec) initial history disk saved retired)
    (covered : retired ≤ saved) :
    Recoverable (Intact codec) initial history disk.discardPrev saved retired :=
  { snapshot := files.snapshot
    prev := ⟨[], saved, rfl, .done saved, covered⟩
    live := files.live
    saved_le := files.saved_le
    retired_le := files.retired_le }

end Recoverable

end Lain.Graph
