import Lain.Graph.Recovery

/-!
# Crash safety of runs

What holds of the files and of the memory of a machine after every step of a
run whose logged frames fit the cap and whose snapshots are taken while the id
index is clean, and from it what a load finds after a crash at any point.
-/

namespace Lain.Graph

open Foundation GraphDatabase

structure AtEnd (initial : View) (history : List GraphOp) (db : GraphDatabase) : Prop where
  consistent : Consistent db
  writable : db.readOnly = false
  view : viewOf db = history.foldl View.apply initial

def Writer.Follows (initial : View) (history : List GraphOp) (db : GraphDatabase) :
    Writer → Prop
  | .opening => AtEnd initial history db
  | .idle => AtEnd initial history db
  | .logged command =>
    ∃ before, history = before ++ (command.call db).logged ∧ AtEnd initial before db
  | .unlocked ids removal =>
    ∃ before origin, history = before ++ [.removeNodesByIds ids] ∧
      AtEnd initial before origin ∧ removal = origin.removeLocked ids ∧
        db = { origin with graph := removal.graph }

/-- What holds while a process runs. -/
structure Running (codec : Codec) (initial : View) (history : List GraphOp) (disk : Disk)
    (process : Process) : Prop where
  logged : View.WellLogged initial history
  fits : FrameLog.Fits (walFormat codec) history
  files : ∃ saved retired, Recoverable (Intact codec) initial history disk saved retired ∧
    process.checkpoint.Covers codec initial history disk saved retired
  follows : process.writer.Follows initial history process.db

structure Stopped (codec : Codec) (initial : View) (history : List GraphOp) (disk : Disk) :
    Prop where
  logged : View.WellLogged initial history
  fits : FrameLog.Fits (walFormat codec) history
  files : ∃ saved retired, Recoverable (Reads codec) initial history disk saved retired

structure Machine.Sound (codec : Codec) (initial : View) (m : Machine) : Prop where
  acked_le : m.acked ≤ m.durable
  durable_le : m.durable ≤ m.log.length
  running : ∀ process, m.process = some process →
    m.durable = m.log.length ∧ Running codec initial m.log m.disk process
  stopped : m.process = none → Stopped codec initial (m.log.take m.durable) m.disk

variable {codec : Codec} {initial : View} {history : List GraphOp} {disk : Disk}

/-! ### Mutators -/

theorem Refines.state {α : Type} {db : GraphDatabase} {call : Call α}
    (refines : Refines db call) :
    ∃ db', call.outcome.state = some db' ∧ Steps db call.logged db' ∧
      db'.readOnly = db.readOnly := by
  unfold Refines at refines
  cases ended : call.outcome with
  | ok db' value =>
    rw [ended] at refines
    exact ⟨db', rfl, refines⟩
  | error db' reason =>
    rw [ended] at refines
    exact ⟨db', rfl, refines⟩
  | panicked =>
    rw [ended] at refines
    exact refines.elim

theorem Refines.void {α : Type} {db : GraphDatabase} {call : Call α}
    (refines : Refines db call) : Refines db call.void := by
  unfold Refines Call.void at *
  cases ended : call.outcome <;> rw [ended] at refines <;> exact refines

theorem Command.refines {db : GraphDatabase} (consistent : Consistent db)
    (command : Command) : Refines db (command.call db) := by
  cases command with
  | upsertNode node => exact consistent.upsertNode node
  | insertNodesBatch nodes => exact consistent.insertNodesBatch nodes
  | upsertEdge edge => exact consistent.upsertEdge edge
  | insertEdgesBatch edges => exact (consistent.insertEdgesBatch edges).void
  | upsertEdgesBatchStrict edges => exact consistent.upsertEdgesBatchStrict edges
  | removeNodesByIds ids => exact (consistent.removeNodesByIds ids).void
  | removeEdges edges => exact (consistent.removeEdges edges).void

theorem AtEnd.steps {db db' : GraphDatabase} (atEnd : AtEnd initial history db)
    {ops : List GraphOp} (steps : Steps db ops db') (sameMode : db'.readOnly = db.readOnly) :
    AtEnd initial (history ++ ops) db' where
  consistent := steps.consistent
  writable := sameMode.trans atEnd.writable
  view := by rw [steps.view, atEnd.view, List.foldl_append]

theorem AtEnd.wellLogged {db : GraphDatabase} (atEnd : AtEnd initial history db)
    (logged : View.WellLogged initial history) (command : Command) :
    View.WellLogged initial (history ++ (command.call db).logged) := by
  obtain ⟨_, _, steps, _⟩ := (command.refines atEnd.consistent).state
  exact Steps.wellLogged_append logged (atEnd.view ▸ steps.logged)

theorem AtEnd.removal_logged {db : GraphDatabase} (atEnd : AtEnd initial history db)
    (ids : List String) :
    (Command.call db (.removeNodesByIds ids)).logged = [.removeNodesByIds ids] := by
  simp [Command.call, Call.void, GraphDatabase.removeNodesByIds, atEnd.writable]

theorem AtEnd.cleanup {origin : GraphDatabase} (atEnd : AtEnd initial history origin)
    (ids : List String) (clearedPaths clearedNames : List (String × Nat)) :
    AtEnd initial (history ++ [.removeNodesByIds ids])
      (removeCleanup { origin with graph := (origin.removeLocked ids).graph } ids
        clearedPaths clearedNames) :=
  atEnd.steps (atEnd.consistent.steps_removal ids clearedPaths clearedNames) rfl

theorem AtEnd.unlocked {origin : GraphDatabase} (atEnd : AtEnd initial history origin)
    (ids : List String)
    (live : IdsLive { origin with graph := (origin.removeLocked ids).graph }) :
    AtEnd initial (history ++ [.removeNodesByIds ids])
      { origin with graph := (origin.removeLocked ids).graph } := by
  have cleaned := atEnd.cleanup ids [] []
  have absent : ∀ id ∈ ids, origin.indexMap.lookup id = none := by
    intro id member
    cases located : origin.indexMap.lookup id with
    | none => rfl
    | some i =>
      have vacated := ((atEnd.consistent.removeLocked_spec ids).1 i).1 ⟨id, member, located⟩
      have occupied := live id i located
      rw [vacated] at occupied
      cases occupied
  have lookups : ∀ id, (ids.foldl (fun m id => m.erase id) origin.indexMap).lookup id =
      origin.indexMap.lookup id := by
    intro id
    rw [SlotMap.lookup_eraseAll]
    split
    next member => rw [absent id member]
    next => rfl
  refine ⟨⟨?_, cleaned.consistent.anchored⟩, atEnd.writable, ?_⟩
  · intro id i
    rw [← lookups id]
    exact cleaned.consistent.ids id i
  · rw [← cleaned.view]
    refine View.ext (funext fun id => ?_) rfl
    change GraphDatabase.getNode _ id = GraphDatabase.getNode _ id
    unfold GraphDatabase.getNode removeCleanup
    simp only [lookups]

theorem AtEnd.drop {db : GraphDatabase} (atEnd : AtEnd initial history db) (base : Nat) :
    AtEnd (stateAt View.apply initial history base) (history.drop base) db where
  consistent := atEnd.consistent
  writable := atEnd.writable
  view := by rw [atEnd.view, foldl_drop]

theorem Writer.Follows.apply {command : Command} {db db' : GraphDatabase}
    (follows : (Writer.logged command).Follows initial history db)
    (ended : (command.call db).outcome.state = some db') :
    Writer.idle.Follows initial history db' := by
  obtain ⟨before, rfl, atEnd⟩ := follows
  obtain ⟨after, ended', steps, sameMode⟩ := (command.refines atEnd.consistent).state
  obtain rfl : db' = after := Option.some.inj (ended.symm.trans ended')
  exact atEnd.steps steps sameMode

theorem Writer.Follows.unlock {ids : List String} {db : GraphDatabase}
    (follows : (Writer.logged (.removeNodesByIds ids)).Follows initial history db) :
    (Writer.unlocked ids (db.removeLocked ids)).Follows initial history
      { db with graph := (db.removeLocked ids).graph } := by
  obtain ⟨before, rfl, atEnd⟩ := follows
  rw [atEnd.removal_logged]
  exact ⟨before, db, rfl, atEnd, rfl, rfl⟩

theorem Writer.Follows.cleanup {ids : List String} {removal : Removal} {db : GraphDatabase}
    (follows : (Writer.unlocked ids removal).Follows initial history db) :
    Writer.idle.Follows initial history
      (db.removeCleanup ids removal.clearedPaths removal.clearedNames) := by
  obtain ⟨before, origin, rfl, atEnd, rfl, rfl⟩ := follows
  exact atEnd.cleanup ids _ _

theorem Writer.Follows.folded {writer : Writer} {db : GraphDatabase}
    (follows : writer.Follows initial history db) :
    writer.folded.Follows initial history db := by
  cases writer <;> exact follows

theorem Writer.Follows.atEnd {writer : Writer} {db : GraphDatabase}
    (follows : writer.Follows initial history db) (released : writer.Released)
    (live : db.IdsLive) : AtEnd initial history db := by
  cases writer with
  | opening => exact follows
  | idle => exact follows
  | logged command => exact released.elim
  | unlocked ids removal =>
    obtain ⟨before, origin, rfl, atEnd, rfl, rfl⟩ := follows
    exact atEnd.unlocked ids live

/-! ### Steps -/

namespace Running

variable {process : Process}

theorem crash (running : Running codec initial history disk process)
    (lawful : codec.Lawful) : Stopped codec initial history disk := by
  obtain ⟨saved, retired, files, _⟩ := running.files
  exact ⟨running.logged, running.fits, saved, retired, files.reads lawful running.fits⟩

theorem memory (running : Running codec initial history disk process) (db : GraphDatabase)
    (writer : Writer) (follows : writer.Follows initial history db) :
    Running codec initial history disk ⟨db, writer, process.checkpoint⟩ :=
  ⟨running.logged, running.fits, running.files, follows⟩

theorem phase (running : Running codec initial history disk process)
    {checkpoint : Checkpoint} (idle : checkpoint = .idle ∨ checkpoint = .rotated) :
    Running codec initial history disk ⟨process.db, process.writer, checkpoint⟩ := by
  obtain ⟨saved, retired, files, _⟩ := running.files
  refine ⟨running.logged, running.fits, ⟨saved, retired, files, ?_⟩, running.follows⟩
  rcases idle with rfl | rfl <;> trivial

end Running

namespace Machine

variable {m m' : Machine}

private theorem Sound.quiet (sound : m.Sound codec initial) (process : Process) (disk : Disk)
    (acked : Nat) (bound : acked ≤ m.log.length) (up : m.durable = m.log.length)
    (running : Running codec initial m.log disk process) :
    Sound codec initial { m with disk, process := some process, acked } where
  acked_le := by
    change acked ≤ m.durable
    omega
  durable_le := sound.durable_le
  running := by
    intro other here
    cases here
    exact ⟨up, running⟩
  stopped := fun down => by cases down

private theorem Sound.down (sound : m.Sound codec initial) (disk : Disk)
    (stopped : Stopped codec initial (m.log.take m.durable) disk) :
    Sound codec initial { m with disk, process := none } where
  acked_le := sound.acked_le
  durable_le := sound.durable_le
  running := fun _ up => by cases up
  stopped := fun _ => stopped

theorem Fresh.sound {start : GraphDatabase} (fresh : m.Fresh start) :
    m.Sound codec (viewOf start) := by
  obtain ⟨emptyLog, emptyDurable, emptyAcked⟩ := fresh.history
  obtain ⟨saved, main, consistent, view⟩ := fresh.main
  have files : Recoverable (Intact codec) (viewOf start) [] m.disk 0 0 :=
    { snapshot := ⟨saved, main, consistent, view⟩
      prev := ⟨[], 0, by rw [Intact, fresh.prev]; rfl, .done 0, le_rfl⟩
      live := by rw [Intact, fresh.live]; rfl
      saved_le := le_rfl
      retired_le := le_rfl }
  refine
    { acked_le := by rw [emptyAcked]; exact Nat.zero_le _
      durable_le := by rw [emptyDurable]; exact Nat.zero_le _
      running := ?_
      stopped := fun down => by rw [fresh.process] at down; cases down }
  intro process up
  rw [fresh.process] at up
  cases up
  rw [emptyLog, emptyDurable]
  exact ⟨rfl, fun j edge here => by simp at here, fun op member => by simp at member,
    ⟨0, 0, files, trivial⟩, fresh.consistent, fresh.writable, rfl⟩

/-- **Every recoverable step keeps the invariant.** -/
theorem Sound.step (lawful : codec.Lawful) (sound : m.Sound codec initial) {event : Event}
    (admissible : event.Recoverable codec m) (step : Step codec m event m') :
    m'.Sound codec initial := by
  cases step with
  | @log db checkpoint command disk up unlocked written =>
    obtain ⟨durable, running⟩ := sound.running _ up
    obtain ⟨saved, retired, files, covers⟩ := running.files
    have atEnd : AtEnd initial m.log db := running.follows
    refine
      { acked_le := sound.acked_le.trans (Nat.le_add_right _ _)
        durable_le := by simp [durable]
        running := ?_
        stopped := fun down => by cases down }
    intro process here
    cases here
    refine ⟨by simp [durable], atEnd.wellLogged running.logged command, ?_,
      ⟨saved, retired, files.log written, covers.log unlocked _ disk⟩,
      m.log, rfl, atEnd⟩
    intro op member
    rcases List.mem_append.mp member with old | new
    · exact running.fits op old
    · exact admissible _ up op new
  | @apply db db' checkpoint command up _ ended =>
    obtain ⟨durable, running⟩ := sound.running _ up
    exact sound.quiet ⟨db', .idle, checkpoint⟩ m.disk _ le_rfl durable
      (running.memory _ .idle (running.follows.apply ended))
  | @unlock db checkpoint ids up =>
    obtain ⟨durable, running⟩ := sound.running _ up
    exact sound.quiet ⟨_, .unlocked ids (db.removeLocked ids), checkpoint⟩ m.disk _
      (sound.acked_le.trans sound.durable_le) durable
      (running.memory _ (.unlocked ids (db.removeLocked ids)) running.follows.unlock)
  | @cleanup db checkpoint ids removal up =>
    obtain ⟨durable, running⟩ := sound.running _ up
    exact sound.quiet ⟨_, .idle, checkpoint⟩ m.disk _ le_rfl durable
      (running.memory _ .idle running.follows.cleanup)
  | @rotate db writer up _ room =>
    obtain ⟨durable, running⟩ := sound.running _ up
    obtain ⟨saved, retired, files, _⟩ := running.files
    obtain ⟨retired', files'⟩ := files.rotate room
    exact sound.quiet _ _ _ (sound.acked_le.trans sound.durable_le) durable
      ⟨running.logged, running.fits, ⟨saved, retired', files', trivial⟩, running.follows⟩
  | @merge db writer live prev up _ hasLive hasPrev =>
    obtain ⟨durable, running⟩ := sound.running _ up
    obtain ⟨saved, retired, files, _⟩ := running.files
    obtain ⟨files', covers⟩ := files.merge hasLive hasPrev
    exact sound.quiet _ _ _ (sound.acked_le.trans sound.durable_le) durable
      ⟨running.logged, running.fits, ⟨saved, retired, files', covers⟩, running.follows⟩
  | @truncate db writer up =>
    obtain ⟨durable, running⟩ := sound.running _ up
    obtain ⟨saved, retired, files, covers⟩ := running.files
    exact sound.quiet _ _ _ (sound.acked_le.trans sound.durable_le) durable
      ⟨running.logged, running.fits, ⟨saved, _, files.truncate covers, trivial⟩,
        running.follows⟩
  | @encode db writer up released =>
    obtain ⟨durable, running⟩ := sound.running _ up
    obtain ⟨saved, retired, files, _⟩ := running.files
    have atEnd := running.follows.atEnd released (admissible _ up)
    refine sound.quiet _ _ _ (sound.acked_le.trans sound.durable_le) durable
      ⟨running.logged, running.fits, ⟨saved, retired, files, ?_⟩, running.follows⟩
    exact ⟨db, m.log.length, rfl, atEnd.consistent, by rw [atEnd.view, stateAt_length],
      files.saved_le, files.retired_le, le_rfl⟩
  | @publish db writer state up =>
    obtain ⟨durable, running⟩ := sound.running _ up
    obtain ⟨saved, retired, files, covers⟩ := running.files
    obtain ⟨saved', files', covered⟩ := files.publish covers
    exact sound.quiet _ _ _ (sound.acked_le.trans sound.durable_le) durable
      ⟨running.logged, running.fits, ⟨saved', retired, files', covered⟩, running.follows⟩
  | @discard db writer up =>
    obtain ⟨durable, running⟩ := sound.running _ up
    obtain ⟨saved, retired, files, covers⟩ := running.files
    exact sound.quiet _ _ _ (sound.acked_le.trans sound.durable_le) durable
      ⟨running.logged, running.fits, ⟨saved, retired, files.discard covers, trivial⟩,
        running.follows.folded⟩
  | @abort db writer checkpoint up _ _ =>
    obtain ⟨durable, running⟩ := sound.running _ up
    exact sound.quiet _ _ _ (sound.acked_le.trans sound.durable_le) durable
      (running.phase (Or.inl rfl))
  | @crash process up =>
    obtain ⟨durable, running⟩ := sound.running _ up
    refine sound.down m.disk ?_
    rw [durable, List.take_length]
    exact running.crash lawful
  | @tear db checkpoint command bytes written up unlocked framed _ =>
    obtain ⟨durable, running⟩ := sound.running _ up
    obtain ⟨saved, retired, files, _⟩ := running.files
    have atEnd : AtEnd initial m.log db := running.follows
    have fitsOps := admissible _ up
    obtain ⟨bound, files'⟩ := files.tear lawful running.fits fitsOps framed written
    have survived : (m.log ++ (command.call db).logged).take
        (m.durable + wholeFrames codec (bytes.take written)) =
          m.log ++ (command.call db).logged.take (wholeFrames codec (bytes.take written)) := by
      rw [durable, List.take_length_add_append]
    refine
      { acked_le := sound.acked_le.trans (Nat.le_add_right _ _)
        durable_le := by simp [durable, bound]
        running := fun _ up => by cases up
        stopped := fun _ => ?_ }
    refine ⟨(atEnd.wellLogged running.logged command).take _, ?_, saved, retired, ?_⟩
    · intro op member
      rcases List.mem_append.mp (List.mem_of_mem_take member) with old | new
      · exact running.fits op old
      · exact fitsOps op new
    · change Recoverable _ _ ((m.log ++ (command.call db).logged).take
        (m.durable + wholeFrames codec (bytes.take written))) _ _ _
      rw [survived]
      exact files'
  | @tearMerge db writer live prev written up _ hasLive hasPrev =>
    obtain ⟨durable, running⟩ := sound.running _ up
    obtain ⟨saved, retired, files, _⟩ := running.files
    refine sound.down _ ?_
    rw [durable, List.take_length]
    exact ⟨running.logged, running.fits, saved, retired,
      files.tearMerge lawful running.fits hasLive hasPrev written⟩
  | @repairPrev state down decoded =>
    have stopped := sound.stopped down
    obtain ⟨saved, retired, files⟩ := stopped.files
    have kept := sound.down _ ⟨stopped.logged, stopped.fits, saved, retired,
      files.repairPrev lawful stopped.fits decoded⟩
    rw [← down] at kept
    exact kept
  | @reopen disk db replayed down recovered =>
    have stopped := sound.stopped down
    obtain ⟨saved, retired, files⟩ := stopped.files
    obtain ⟨disk', after, count, found, consistent, writable, view, intact⟩ :=
      files.recover_exact stopped.logged
    obtain ⟨rfl, rfl, rfl⟩ : disk = disk' ∧ db = after ∧ replayed = count := by
      rw [recovered] at found
      simpa using found
    have bound := sound.durable_le
    have follows : AtEnd initial (m.log.take m.durable) db := ⟨consistent, writable, view⟩
    refine
      { acked_le := sound.acked_le
        durable_le := by simp [bound]
        running := ?_
        stopped := fun down => by cases down }
    intro process here
    cases here
    refine ⟨by simp [bound], stopped.logged, stopped.fits,
      ⟨saved, retired, intact, trivial⟩, ?_⟩
    change Writer.Follows _ _ _ (if replayed = 0 then .idle else .opening)
    split <;> exact follows

theorem RecoverableRun.sound (lawful : codec.Lawful) {start : GraphDatabase}
    (run : m.RecoverableRun codec start) : m.Sound codec (viewOf start) := by
  induction run with
  | start fresh => exact fresh.sound
  | step _ admissible step ih => exact ih.step lawful admissible step

end Machine

/-! ### A saved empty graph that removes ids -/

def emptyMachine : Machine where
  disk := { main := some (.encoded (GraphDatabase.buildState {})) }
  process := some ⟨{}, .idle, .idle⟩

theorem emptyMachine_fresh : emptyMachine.Fresh {} where
  consistent := consistent_empty
  writable := rfl
  process := rfl
  main := ⟨{}, rfl, consistent_empty, rfl⟩
  live := rfl
  prev := rfl
  history := ⟨rfl, rfl, rfl⟩

def removedMachine (id : String) (count : Nat) : Machine where
  disk :=
    { main := some (.encoded (GraphDatabase.buildState {}))
      live := some (FrameLog.frame (walFormat (removalCodec id)) (removalBytes id count)) }
  log := [.removeNodesByIds (List.replicate count id)]
  durable := 1
  acked := 1

private theorem removal_steps (id : String) (count : Nat) :
    ∃ logged unlocked cleaned : Machine,
      Machine.Step (removalCodec id) emptyMachine
        (.log (.removeNodesByIds (List.replicate count id))) logged ∧
      Machine.Step (removalCodec id) logged .unlock unlocked ∧
      Machine.Step (removalCodec id) unlocked .cleanup cleaned ∧
      Machine.Step (removalCodec id) cleaned .crash (removedMachine id count) := by
  have written : emptyMachine.disk.logOps (removalCodec id)
      (Command.call {} (.removeNodesByIds (List.replicate count id))).logged =
        some (removedMachine id count).disk := by
    change ((removalCodec id).frames [.removeNodesByIds (List.replicate count id)]).map _ = _
    unfold Codec.frames
    rw [removalCodec_frames]
    simp [removedMachine, Disk.append, emptyMachine]
  exact ⟨_, _, _, .log rfl (by simp) written, .unlock rfl, .cleanup rfl, .crash rfl⟩

namespace Machine

variable {m : Machine}

theorem RecoverableRun.fresh {start : GraphDatabase} (run : m.RecoverableRun codec start) :
    Consistent start ∧ start.readOnly = false := by
  induction run with
  | start fresh => exact ⟨fresh.consistent, fresh.writable⟩
  | step _ _ _ ih => exact ih

/-- **Crash recovery.** Cut a recoverable run anywhere: a load of the files it leaves
succeeds, and the loaded graph has the payloads and the edge identities that the
mutators reach by a prefix of the logged operations with every acknowledged one. -/
theorem load_after_crash (lawful : codec.Lawful) {start : GraphDatabase}
    (run : m.RecoverableRun codec start) :
    ∃ disk db p reference, loadFromDisk codec m.disk {} = (disk, .ok db ()) ∧
      m.acked ≤ p ∧ p ≤ m.log.length ∧
      replayOps (m.log.take p) start = .ok reference () ∧ viewOf db = viewOf reference := by
  have sound := run.sound lawful
  have stopped : Stopped codec (viewOf start) (m.log.take m.durable) m.disk := by
    cases process : m.process with
    | none => exact sound.stopped process
    | some running =>
      obtain ⟨durable, holds⟩ := sound.running running process
      rw [durable, List.take_length]
      exact holds.crash lawful
  obtain ⟨saved, retired, files⟩ := stopped.files
  obtain ⟨disk, db, replayed, recovered, _, writable, view, _⟩ :=
    files.recover_exact stopped.logged
  obtain ⟨consistent, writableStart⟩ := run.fresh
  obtain ⟨reference, reached, _, referenceView, _⟩ :=
    replayOps_spec (m.log.take m.durable) consistent writableStart
  have loads : ∃ disk', loadFromDisk codec m.disk {} = (disk', .ok db ()) := by
    unfold loadFromDisk
    rw [recovered]
    dsimp only
    split
    · exact ⟨_, rfl⟩
    · exact ⟨_, rfl⟩
  obtain ⟨disk', loaded⟩ := loads
  exact ⟨disk', db, m.durable, reference, loaded, sound.acked_le, sound.durable_le, reached,
    view.trans referenceView.symm⟩

end Machine

/-- A removal of one id fits, and is loaded back. -/
theorem load_after_crash_removal :
    (removalCodec "a:File:p:n:1").Lawful ∧
      (removedMachine "a:File:p:n:1" 1).RecoverableRun (removalCodec "a:File:p:n:1") {} ∧
      ∃ disk db p reference,
        loadFromDisk (removalCodec "a:File:p:n:1") (removedMachine "a:File:p:n:1" 1).disk {} =
            (disk, .ok db ()) ∧
          1 ≤ p ∧ p ≤ (removedMachine "a:File:p:n:1" 1).log.length ∧
          replayOps ((removedMachine "a:File:p:n:1" 1).log.take p) {} = .ok reference () ∧
            viewOf db = viewOf reference := by
  obtain ⟨logged, unlocked, cleaned, first, second, third, fourth⟩ :=
    removal_steps "a:File:p:n:1" 1
  have fits : (Event.log (.removeNodesByIds (List.replicate 1 "a:File:p:n:1"))).Recoverable
      (removalCodec "a:File:p:n:1") emptyMachine := by
    intro process up
    cases up
    exact removalCodec_fits _ _ (by decide)
  have atLog := Machine.RecoverableRun.step (.start emptyMachine_fresh) fits first
  have atUnlock := atLog.step (by trivial) second
  have atCleanup := atUnlock.step (by trivial) third
  have run := atCleanup.step (by trivial) fourth
  exact ⟨removalCodec_lawful _, run, Machine.load_after_crash (removalCodec_lawful _) run⟩

/-! ### What a load cannot read back -/

theorem load_refused {codec : Codec} {disk : Disk} {snapshot : Snapshot} {state : GraphState}
    {bytes : Bytes} {len : Nat} (main : disk.main = some snapshot)
    (decoded : snapshot.decodeState = some state)
    (version : state.pathFormatVersion = Graph.pathFormatVersion) (noPrev : disk.prev = none)
    (live : disk.live = some bytes)
    (scanned : FrameLog.scan (walFormat codec) bytes = ⟨[], 0, some len⟩) :
    loadFromDisk codec disk {} =
      (disk, .error (GraphDatabase.applyStateLoaded {} state) (oversizedFrame len)) := by
  obtain ⟨main_, live_, prev_⟩ := disk
  simp only at main noPrev live
  subst main noPrev live
  simp [loadFromDisk, recover, decoded, version, replayAndRepair, scanned, replayOps]

/-- **A logged removal above the frame cap** is acknowledged and cannot be loaded back:
after a crash the load fails. -/
theorem oversized_removal_unloadable :
    (removalCodec "lain:Function:src/main.rs:main:1").Lawful ∧ emptyMachine.Fresh {} ∧
      Machine.Run (removalCodec "lain:Function:src/main.rs:main:1") {}
        (removedMachine "lain:Function:src/main.rs:main:1" (2 ^ 21)) ∧
      (removedMachine "lain:Function:src/main.rs:main:1" (2 ^ 21)).acked = 1 ∧
      ∃ disk db, loadFromDisk (removalCodec "lain:Function:src/main.rs:main:1")
          (removedMachine "lain:Function:src/main.rs:main:1" (2 ^ 21)).disk {} =
        (disk, .error db (oversizedFrame 83886092)) := by
  obtain ⟨logged, unlocked, cleaned, first, second, third, fourth⟩ :=
    removal_steps "lain:Function:src/main.rs:main:1" (2 ^ 21)
  have atCleanup := (((Machine.Run.start emptyMachine_fresh).step first).step second).step third
  have length : (removalBytes "lain:Function:src/main.rs:main:1" (2 ^ 21)).length =
      83886092 := by
    rw [length_removalBytes]
    decide
  have refused := FrameLog.scan_oversized
    (walFormat (removalCodec "lain:Function:src/main.rs:main:1"))
    (show frameCap < (removalBytes "lain:Function:src/main.rs:main:1" (2 ^ 21)).length by
      rw [length]; decide)
    (by rw [length]; decide) []
  rw [List.append_nil, length] at refused
  exact ⟨removalCodec_lawful _, emptyMachine_fresh, atCleanup.step fourth, rfl, _, _,
    load_refused rfl rfl rfl rfl rfl refused⟩

end Lain.Graph
