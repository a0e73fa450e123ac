import Lain.Federation.Backend

/-!
# Durability of the backend

An opening restores the bin file and replays the logs over it, so an acknowledged
operation survives a crash when the bin file holds it or the logs still lead to it.
-/

namespace Lain.Federation

open Lain.Graph Foundation GraphDatabase

variable {codec : Codec} {initial : View}

/-! ### The invariant -/

namespace Backend

/-- What holds of the history and the bin file while a process runs. -/
structure Holds (codec : Codec) (initial : View) (b : Backend) : Prop where
  durable : b.machine.durable = b.machine.log.length
  fits : FrameLog.Fits (walFormat codec) b.machine.log
  acked_le : b.acked ≤ b.machine.log.length
  bin : ∃ state, b.bin = .encoded state ∧ SnapshotAt initial b.machine.log state b.binAt

structure Phases (codec : Codec) (initial : View) (b : Backend) (checkpoint : Checkpoint) :
    Prop where
  merging : checkpoint = .merging → b.mirror = none
  bare : checkpoint = .idle → b.mirror ≠ none → b.machine.disk.prev = none
  retired : PastRotation checkpoint ∨ b.mirror ≠ none →
    Retired codec initial b.machine.log b.machine.disk b.retiredAt
  mirrored : ∀ state, b.mirror = some state →
    SnapshotAt initial b.machine.log state b.mirrorAt ∧ b.retiredAt ≤ b.mirrorAt

structure Files (codec : Codec) (initial : View) (b : Backend) (checkpoint : Checkpoint) :
    Prop where
  contiguous : b.gapped = false → ∃ base retired,
    Contiguous (Intact codec) initial b.machine.log b.opened b.binAt base retired ∧
      (checkpoint = .merging → Checkpoint.merging.Covers codec
        (stateAt View.apply initial b.machine.log base) (b.machine.log.drop base) b.opened
        (b.binAt - base) retired)
  behind : b.gapped = true → b.acked ≤ b.binAt →
    Behind (Intact codec) b.machine.log b.opened b.binAt

structure Up (codec : Codec) (initial : View) (b : Backend) (process : Process) : Prop where
  follows : process.writer.Follows initial b.machine.log process.db
  holds : b.Holds codec initial
  phases : b.Phases codec initial process.checkpoint
  files : b.Files codec initial process.checkpoint

structure Down (codec : Codec) (initial : View) (b : Backend) : Prop where
  fits : FrameLog.Fits (walFormat codec) b.machine.log
  durable_le : b.machine.durable ≤ b.machine.log.length
  acked_le : b.acked ≤ b.machine.durable
  bin : ∃ state, b.bin = .encoded state ∧ SnapshotAt initial b.machine.log state b.binAt
  binAt_le : b.binAt ≤ b.machine.durable
  settled : b.mirror = none
  contiguous : b.gapped = false → ∃ base retired,
    Contiguous (Reads codec) initial (b.machine.log.take b.machine.durable) b.opened b.binAt
      base retired
  behind : b.gapped = true → b.acked ≤ b.binAt ∧
    Behind (Reads codec) b.machine.log b.opened b.binAt

/-- The invariant of the backend. -/
structure Sound (codec : Codec) (initial : View) (b : Backend) : Prop where
  up : ∀ process, b.machine.process = some process → b.Up codec initial process
  down : b.machine.process = none → b.Down codec initial

variable {b b' : Backend}

theorem Up.sound {process : Process} (running : b.machine.process = some process)
    (up : b.Up codec initial process) : b.Sound codec initial where
  up := by
    intro other here
    obtain rfl : process = other := Option.some.inj (running.symm.trans here)
    exact up
  down := fun stopped => by rw [running] at stopped; cases stopped

theorem Down.sound (stopped : b.machine.process = none) (down : b.Down codec initial) :
    b.Sound codec initial where
  up := fun process running => by rw [stopped] at running; cases running
  down := fun _ => down

theorem Fresh.sound {start : GraphDatabase} (fresh : b.Fresh start) :
    b.Sound codec (viewOf start) := by
  obtain ⟨emptyLog, emptyDurable, emptyAcked, atStart⟩ := fresh.history
  obtain ⟨noMirror, noGap⟩ := fresh.settled
  obtain ⟨saved, bin, consistent, view⟩ := fresh.bin
  have snapshot : SnapshotAt (viewOf start) b.machine.log saved.buildState b.binAt :=
    ⟨saved, rfl, consistent, by rw [atStart, view]; rfl, by rw [atStart]; exact Nat.zero_le _⟩
  refine Up.sound fresh.process
    { follows := ⟨fresh.consistent, fresh.writable, by rw [emptyLog]; rfl⟩
      holds :=
        { durable := by rw [emptyLog, emptyDurable]; rfl
          fits := by rw [emptyLog]; exact fun op member => by simp at member
          acked_le := by rw [emptyAcked]; exact Nat.zero_le _
          bin := ⟨_, bin, snapshot⟩ }
      phases :=
        { merging := fun merging => by cases merging
          bare := fun _ pending => absurd noMirror pending
          retired := fun past => by
            rcases past with past | pending
            · exact past.elim
            · exact absurd noMirror pending
          mirrored := fun state pending => by rw [noMirror] at pending; cases pending }
      files :=
        { contiguous := fun _ => ⟨0, 0, ?_, fun merging => by cases merging⟩
          behind := fun gap => by rw [noGap] at gap; cases gap } }
  rw [emptyLog] at snapshot ⊢
  exact
    { base_le := Nat.zero_le _
      binAt_le := by rw [atStart]; exact le_rfl
      logged := fun j edge here => by simp at here
      files :=
        { snapshot := ⟨saved, by rw [opened, bin], consistent, by rw [atStart, view]; rfl⟩
          prev := ⟨[], _, by rw [Intact, show b.opened.prev.getD [] = [] from fresh.prev]; rfl,
            .done _, Nat.zero_le _⟩
          live := by rw [Intact, show b.opened.live.getD [] = [] from fresh.live]; rfl
          saved_le := by rw [atStart]; exact le_rfl
          retired_le := Nat.zero_le _ } }

/-! ### Steps of the graph's machine -/

private theorem Up.memory {process : Process} (up : b.Up codec initial process)
    {db : GraphDatabase} {writer : Writer}
    (follows : writer.Follows initial b.machine.log db) (acked : Nat) :
    Up codec initial
      { b with
        machine :=
          { b.machine with process := some ⟨db, writer, process.checkpoint⟩, acked } }
      ⟨db, writer, process.checkpoint⟩ :=
  ⟨follows, ⟨up.holds.durable, up.holds.fits, up.holds.acked_le, up.holds.bin⟩,
    ⟨up.phases.merging, up.phases.bare, up.phases.retired, up.phases.mirrored⟩,
    ⟨up.files.contiguous, up.files.behind⟩⟩

private theorem Up.crash {process : Process} (up : b.Up codec initial process)
    (lawful : codec.Lawful) (covered : b.Covered) :
    (b.stop { b.machine with process := none }).Sound codec initial := by
  have durable := up.holds.durable
  obtain ⟨state, bin, snapshot⟩ := up.holds.bin
  obtain ⟨_, _, _, _, bound⟩ := snapshot
  refine Down.sound rfl
    { fits := up.holds.fits
      durable_le := durable.le
      acked_le := up.holds.acked_le.trans durable.ge
      bin := up.holds.bin
      binAt_le := bound.trans durable.ge
      settled := rfl
      contiguous := fun gap => ?_
      behind := fun gap =>
        ⟨covered gap, (up.files.behind gap (covered gap)).reads lawful up.holds.fits⟩ }
  obtain ⟨base, retired, files, _⟩ := up.files.contiguous gap
  refine ⟨base, retired, ?_⟩
  change Contiguous _ _ (b.machine.log.take b.machine.durable) _ _ _ _
  rw [durable, List.take_length]
  exact files.reads lawful up.holds.fits

/-- **Every step of the graph's machine keeps the invariant.** -/
theorem Sound.graph (lawful : codec.Lawful) (sound : b.Sound codec initial) {event : Event}
    {m : Machine} (durable : b.Durable codec (.graph event))
    (step : b.machine.Step codec event m) (lifts : b.Lifts event) :
    (b.advance m event).Sound codec initial := by
  cases step with
  | @log db checkpoint command disk running unlocked written =>
    have up := sound.up _ running
    have atEnd : AtEnd initial b.machine.log db := up.follows
    obtain ⟨state, bin, snapshot⟩ := up.holds.bin
    have binAt_le : b.binAt ≤ b.machine.log.length := snapshot.choose_spec.2.2.2
    obtain ⟨_, samePrev, _⟩ := Disk.logOps_spec written
    refine Up.sound rfl
      { follows := ⟨b.machine.log, rfl, atEnd⟩
        holds :=
          { durable := by simp [advance, up.holds.durable]
            fits := ?_
            acked_le := up.holds.acked_le.trans (by simp [advance])
            bin := ⟨state, bin, snapshot.extend _⟩ }
        phases :=
          { merging := fun merging => absurd merging unlocked
            bare := fun idle pending => samePrev.trans (up.phases.bare idle pending)
            retired := fun past => (up.phases.retired past).log atEnd command written
            mirrored := fun state pending =>
              ⟨(up.phases.mirrored state pending).1.extend _,
                (up.phases.mirrored state pending).2⟩ }
        files :=
          { contiguous := fun gap => ?_
            behind := fun gap covered => (up.files.behind gap covered).log binAt_le
              (logOps_main written _) } }
    · intro op member
      rcases List.mem_append.mp member with old | new
      · exact up.holds.fits op old
      · exact durable.1 _ running op new
    · obtain ⟨base, retired, files, _⟩ := up.files.contiguous gap
      exact ⟨base, retired, files.log atEnd command (logOps_main written _),
        fun merging => absurd merging unlocked⟩
  | @apply db db' checkpoint command running _ ended =>
    have up := sound.up _ running
    exact Up.sound rfl (up.memory (up.follows.apply ended) _)
  | @unlock db checkpoint ids running =>
    have up := sound.up _ running
    exact Up.sound rfl (up.memory up.follows.unlock _)
  | @cleanup db checkpoint ids removal running =>
    have up := sound.up _ running
    exact Up.sound rfl (up.memory up.follows.cleanup _)
  | @rotate db writer running _ room =>
    have up := sound.up _ running
    have noMirror : b.mirror = none := lifts
    have emptied : b.machine.disk.rotate.live.getD [] = [] := by rw [rotate_live room]; rfl
    refine Up.sound rfl
      { follows := up.follows
        holds := ⟨up.holds.durable, up.holds.fits, up.holds.acked_le, up.holds.bin⟩
        phases :=
          { merging := fun merging => by cases merging
            bare := fun idle => by cases idle
            retired := fun _ => Retired.start emptied
            mirrored := fun state pending => by
              rw [show b.mirror = some state from pending] at noMirror
              cases noMirror }
        files :=
          { contiguous := fun gap => ?_
            behind := fun gap covered => ?_ } }
    · obtain ⟨base, retired, files, _⟩ := up.files.contiguous gap
      obtain ⟨retired', moved⟩ := files.files.rotate room
      refine ⟨base, retired', ⟨files.base_le, files.binAt_le, files.logged, ?_⟩,
        fun merging => by cases merging⟩
      rw [show (b.opened).rotate = { b.machine.disk.rotate with main := some b.bin } from
        rotate_main _] at moved
      exact moved
    · have moved := (up.files.behind gap covered).rotate room
      rw [show (b.opened).rotate = { b.machine.disk.rotate with main := some b.bin } from
        rotate_main _] at moved
      exact moved
  | @merge db writer live prev running _ hasLive hasPrev =>
    have up := sound.up _ running
    have noMirror : b.mirror = none := lifts
    refine Up.sound rfl
      { follows := up.follows
        holds := ⟨up.holds.durable, up.holds.fits, up.holds.acked_le, up.holds.bin⟩
        phases :=
          { merging := fun _ => noMirror
            bare := fun idle => by cases idle
            retired := fun past => by
              rcases past with past | pending
              · exact past.elim
              · exact absurd noMirror pending
            mirrored := fun state pending => by
              rw [show b.mirror = some state from pending] at noMirror
              cases noMirror }
        files :=
          { contiguous := fun gap => ?_
            behind := fun gap covered =>
              (up.files.behind gap covered).merge hasLive hasPrev } }
    obtain ⟨base, retired, files, _⟩ := up.files.contiguous gap
    obtain ⟨moved, covers⟩ := files.files.merge hasLive hasPrev
    exact ⟨base, retired, ⟨files.base_le, files.binAt_le, files.logged, moved⟩,
      fun _ => covers⟩
  | @truncate db writer running =>
    have up := sound.up _ running
    have noMirror : b.mirror = none := up.phases.merging rfl
    refine Up.sound rfl
      { follows := up.follows
        holds := ⟨up.holds.durable, up.holds.fits, up.holds.acked_le, up.holds.bin⟩
        phases :=
          { merging := fun merging => by cases merging
            bare := fun idle => by cases idle
            retired := fun _ => Retired.start rfl
            mirrored := fun state pending => by
              rw [show b.mirror = some state from pending] at noMirror
              cases noMirror }
        files :=
          { contiguous := fun gap => ?_
            behind := fun gap covered => (up.files.behind gap covered).truncate } }
    obtain ⟨base, retired, files, covers⟩ := up.files.contiguous gap
    exact ⟨base, _, ⟨files.base_le, files.binAt_le, files.logged,
      files.files.truncate (covers rfl)⟩, fun merging => by cases merging⟩
  | @encode db writer running released =>
    have up := sound.up _ running
    have atEnd := up.follows.atEnd released (durable.1 _ running)
    have past := up.phases.retired (Or.inl trivial)
    have snapshot : SnapshotAt initial b.machine.log db.buildState b.machine.log.length :=
      ⟨db, rfl, atEnd.consistent, by rw [atEnd.view, stateAt_length], le_rfl⟩
    have files : b.Files codec initial (.encoded db.buildState) :=
      { contiguous := fun gap => by
          obtain ⟨base, retired, files, _⟩ := up.files.contiguous gap
          exact ⟨base, retired, files, fun merging => by cases merging⟩
        behind := up.files.behind }
    have mirrored : ∀ other : Writer, other.Follows initial b.machine.log db →
        Up codec initial
          { b with
            machine := { b.machine with process := some ⟨db, other, .encoded db.buildState⟩ }
            mirror := some db.buildState
            mirrorAt := b.machine.log.length }
          ⟨db, other, .encoded db.buildState⟩ := fun other follows =>
      { follows
        holds := ⟨up.holds.durable, up.holds.fits, up.holds.acked_le, up.holds.bin⟩
        phases :=
          { merging := fun merging => by cases merging
            bare := fun idle => by cases idle
            retired := fun _ => past
            mirrored := fun state pending => by
              obtain rfl : db.buildState = state := Option.some.inj pending
              exact ⟨snapshot, past.le⟩ }
        files := ⟨files.contiguous, files.behind⟩ }
    cases writer with
    | opening =>
      simp only [advance, running]
      exact Up.sound rfl
        { follows := up.follows
          holds := ⟨up.holds.durable, up.holds.fits, up.holds.acked_le, up.holds.bin⟩
          phases :=
            { merging := fun merging => by cases merging
              bare := fun idle => by cases idle
              retired := fun _ => past
              mirrored := up.phases.mirrored }
          files := ⟨files.contiguous, files.behind⟩ }
    | idle =>
      simp only [advance, running]
      exact Up.sound rfl (mirrored .idle up.follows)
    | unlocked ids removal =>
      simp only [advance, running]
      exact Up.sound rfl (mirrored (.unlocked ids removal) up.follows)
    | logged command => exact released.elim
  | @publish db writer state running =>
    have up := sound.up _ running
    have past := up.phases.retired (Or.inl trivial)
    refine Up.sound rfl
      { follows := up.follows
        holds := ⟨up.holds.durable, up.holds.fits, up.holds.acked_le, up.holds.bin⟩
        phases :=
          { merging := fun merging => by cases merging
            bare := fun idle => by cases idle
            retired := fun _ => ⟨past.le, past.live, past.logged⟩
            mirrored := up.phases.mirrored }
        files := ⟨fun gap => ?_, up.files.behind⟩ }
    obtain ⟨base, retired, files, _⟩ := up.files.contiguous gap
    exact ⟨base, retired, files, fun merging => by cases merging⟩
  | @discard db writer running =>
    have up := sound.up _ running
    have past := up.phases.retired (Or.inl trivial)
    obtain ⟨state, bin, snapshot⟩ := up.holds.bin
    have bare : Retired codec initial b.machine.log b.opened.discardPrev b.retiredAt :=
      ⟨past.le, past.live, past.logged⟩
    have follows := up.follows.folded
    refine Up.sound rfl
      { follows
        holds := ⟨up.holds.durable, up.holds.fits, up.holds.acked_le, up.holds.bin⟩
        phases :=
          { merging := fun merging => by cases merging
            bare := fun _ _ => rfl
            retired := fun _ => ⟨past.le, past.live, past.logged⟩
            mirrored := up.phases.mirrored }
        files :=
          { contiguous := fun gap => ?_
            behind := fun gap covered => ?_ } }
    · obtain ⟨_, covered⟩ := Bool.or_eq_false_iff.mp gap
      have covered : b.retiredAt ≤ b.binAt := by simpa using covered
      exact ⟨b.retiredAt, 0, Contiguous.of_bare snapshot (by rw [← bin]; rfl) rfl bare covered,
        fun merging => by cases merging⟩
    · rcases Bool.or_eq_true_iff.mp gap with before | now
      · exact (up.files.behind before covered).discard
      · exact Behind.of_bare bare (Nat.le_of_lt (of_decide_eq_true now)) rfl
  | @abort db writer checkpoint running _ _ =>
    have up := sound.up _ running
    refine Up.sound rfl
      { follows := up.follows
        holds := ⟨up.holds.durable, up.holds.fits, up.holds.acked_le, up.holds.bin⟩
        phases :=
          { merging := fun merging => by cases merging
            bare := fun _ pending => absurd rfl pending
            retired := fun past => by
              rcases past with past | pending
              · exact past.elim
              · exact absurd rfl pending
            mirrored := fun state pending => by cases pending }
        files := ⟨fun gap => ?_, up.files.behind⟩ }
    obtain ⟨base, retired, files, _⟩ := up.files.contiguous gap
    exact ⟨base, retired, files, fun merging => by cases merging⟩
  | @crash process running =>
    exact (sound.up _ running).crash lawful durable.2
  | @tear db checkpoint command bytes written running unlocked framed _ =>
    have up := sound.up _ running
    have atEnd : AtEnd initial b.machine.log db := up.follows
    have fitsOps := durable.1 _ running
    obtain ⟨state, bin, snapshot⟩ := up.holds.bin
    have binAt_le : b.binAt ≤ b.machine.log.length := snapshot.choose_spec.2.2.2
    have whole := up.holds.durable
    have bound := Intact.wholeFrames_le lawful framed fitsOps written
    refine Down.sound rfl
      { fits := ?_
        durable_le := by simp [advance, stop, whole, bound]
        acked_le := (up.holds.acked_le.trans whole.ge).trans (Nat.le_add_right _ _)
        bin := ⟨state, bin, snapshot.extend _⟩
        binAt_le := (binAt_le.trans whole.ge).trans (Nat.le_add_right _ _)
        settled := rfl
        contiguous := fun gap => ?_
        behind := fun gap => ⟨durable.2 gap,
          (up.files.behind gap (durable.2 gap)).tear binAt_le lawful up.holds.fits fitsOps
            framed written⟩ }
    · intro op member
      rcases List.mem_append.mp member with old | new
      · exact up.holds.fits op old
      · exact fitsOps op new
    · obtain ⟨base, retired, files, _⟩ := up.files.contiguous gap
      have torn := files.tear lawful up.holds.fits atEnd command fitsOps framed written
      rw [← whole] at torn
      exact ⟨base, retired, torn⟩
  | @tearMerge db writer live prev written running _ hasLive hasPrev =>
    have up := sound.up _ running
    have whole := up.holds.durable
    obtain ⟨state, bin, snapshot⟩ := up.holds.bin
    have binAt_le : b.binAt ≤ b.machine.log.length := snapshot.choose_spec.2.2.2
    refine Down.sound rfl
      { fits := up.holds.fits
        durable_le := whole.le
        acked_le := up.holds.acked_le.trans whole.ge
        bin := up.holds.bin
        binAt_le := binAt_le.trans whole.ge
        settled := rfl
        contiguous := fun gap => ?_
        behind := fun gap => ⟨durable.2 gap,
          (up.files.behind gap (durable.2 gap)).tearMerge lawful up.holds.fits hasLive hasPrev
            written⟩ }
    obtain ⟨base, retired, files, _⟩ := up.files.contiguous gap
    refine ⟨base, retired, ?_⟩
    change Contiguous _ _ (b.machine.log.take b.machine.durable) _ _ _ _
    rw [whole, List.take_length]
    exact ⟨files.base_le, files.binAt_le, files.logged, files.files.tearMerge lawful
      (fun op member => up.holds.fits op (List.mem_of_mem_drop member)) hasLive hasPrev
      written⟩
  | repairPrev => exact lifts.elim
  | reopen => exact lifts.elim

/-! ### Steps of the backend -/

theorem Down.reads (down : b.Down codec initial) :
    ∃ saved : GraphDatabase, ∃ prevOps liveOps,
      b.bin = .encoded saved.buildState ∧ Consistent saved ∧
      viewOf saved = stateAt View.apply initial b.machine.log b.binAt ∧
      Reads codec b.opened.prev prevOps ∧ Reads codec b.opened.live liveOps ∧
      (∀ op ∈ prevOps ++ liveOps, op ∈ b.machine.log) := by
  obtain ⟨state, bin, saved, rfl, consistent, view, _⟩ := down.bin
  cases gap : b.gapped with
  | false =>
    obtain ⟨base, retired, files⟩ := down.contiguous gap
    obtain ⟨prevOps, reached, prev, retraces, _⟩ := files.files.prev
    refine ⟨saved, prevOps, _, bin, consistent, view, prev, files.files.live, ?_⟩
    intro op member
    rcases List.mem_append.mp member with old | new
    · exact List.mem_of_mem_take (List.mem_of_mem_drop (retraces.mem_history op old))
    · exact List.mem_of_mem_take (List.mem_of_mem_drop (List.mem_of_mem_drop new))
  | true =>
    obtain ⟨_, prevOps, liveOps, prev, live, members⟩ := down.behind gap
    exact ⟨saved, prevOps, liveOps, bin, consistent, view, prev, live,
      fun op member => List.mem_of_mem_drop (members op member)⟩

/-- **An opening ends where the continued history ends**, and leaves the logs intact. -/
theorem Down.opens (down : b.Down codec initial) :
    ∃ disk db replayed, recover codec b.opened {} = (disk, .ok db replayed) ∧
      AtEnd initial (b.continued codec) db ∧
      (b.gapped = false → ∃ base retired,
        Contiguous (Intact codec) initial (b.continued codec) { disk with main := some b.bin }
          b.binAt base retired) ∧
      (b.gapped = true →
        Behind (Intact codec) (b.continued codec) { disk with main := some b.bin } b.binAt) := by
  cases gap : b.gapped with
  | false =>
    obtain ⟨base, retired, files⟩ := down.contiguous gap
    obtain ⟨disk, db, replayed, recovered, consistent, writable, view, intact⟩ :=
      files.files.recover_exact files.logged
    have continues : b.continued codec = b.machine.log.take b.machine.durable := by
      simp [continued, gap]
    refine ⟨disk, db, replayed, recovered, ⟨consistent, writable, ?_⟩, fun _ => ?_,
      fun h => by cases h⟩
    · rw [view, foldl_drop, continues]
    · rw [continues]
      obtain ⟨saved, main, consistent, view⟩ := files.files.snapshot
      exact ⟨base, retired, files.base_le, files.binAt_le, files.logged,
        { snapshot := ⟨saved, main, consistent, view⟩
          prev := intact.prev
          live := intact.live
          saved_le := intact.saved_le
          retired_le := intact.retired_le }⟩
  | true =>
    obtain ⟨state, bin, saved, rfl, consistent, view, bound⟩ := down.bin
    obtain ⟨_, prevOps, liveOps, prev, live, _⟩ := down.behind gap
    obtain ⟨disk, db, replayed, recovered, kept, writable, viewEnd, _, intactPrev,
      intactLive⟩ := recover_reads (congrArg some bin) consistent prev live
    have continues : b.continued codec =
        b.machine.log.take b.binAt ++ (prevOps ++ liveOps) := by
      have prevLogged : logged codec b.machine.disk.prev = prevOps := prev.scan_ops
      have liveLogged : logged codec b.machine.disk.live = liveOps := live.scan_ops
      simp [continued, gap, prevLogged, liveLogged]
    refine ⟨disk, db, replayed, recovered, ⟨kept, writable, ?_⟩, (fun h => by cases h),
      fun _ => ?_⟩
    · rw [viewEnd, view, continues]
      exact List.foldl_append.symm
    · refine ⟨prevOps, liveOps, intactPrev, intactLive, ?_⟩
      intro op member
      rw [continues, List.drop_append_of_le_length (by rw [List.length_take]; omega)]
      exact List.mem_append_right _ member

theorem Down.continues (down : b.Down codec initial) :
    b.binAt ≤ (b.continued codec).length ∧ b.acked ≤ (b.continued codec).length ∧
      stateAt View.apply initial (b.continued codec) b.binAt =
        stateAt View.apply initial b.machine.log b.binAt := by
  obtain ⟨state, bin, saved, rfl, consistent, view, bound⟩ := down.bin
  have durable_le := down.durable_le
  have binAt_le := down.binAt_le
  have acked_le := down.acked_le
  unfold continued
  split
  next gap =>
      have covered := (down.behind gap).1
      have length : (b.machine.log.take b.binAt).length = b.binAt := List.length_take_of_le bound
      refine ⟨by simp; omega, by simp; omega, ?_⟩
      rw [stateAt_append View.apply initial length.ge, stateAt_take View.apply initial le_rfl]
  next =>
      refine ⟨by simp; omega, by simp; omega, ?_⟩
      exact stateAt_take View.apply initial binAt_le

/-- **Every durable step keeps the invariant.** -/
theorem Sound.step (lawful : codec.Lawful) (sound : b.Sound codec initial)
    {event : BackendEvent} (durable : b.Durable codec event) (step : Step codec b event b') :
    b'.Sound codec initial := by
  cases step with
  | graph step lifts => exact sound.graph lawful durable step lifts
  | @renameBin db writer state running pending =>
    have up := sound.up _ running
    have past := up.phases.retired (Or.inr (by simp [pending]))
    have noPrev := up.phases.bare rfl (by simp [pending])
    obtain ⟨snapshot, covered⟩ := up.phases.mirrored state pending
    refine Up.sound running
      { follows := up.follows
        holds := ⟨up.holds.durable, up.holds.fits, up.holds.acked_le, state, rfl, snapshot⟩
        phases :=
          { merging := fun merging => by cases merging
            bare := fun _ waits => absurd rfl waits
            retired := fun waits => by
              rcases waits with past | waits
              · exact past.elim
              · exact absurd rfl waits
            mirrored := fun state waits => by cases waits }
        files :=
          { contiguous := fun _ => ⟨b.retiredAt, 0, ?_, fun merging => by cases merging⟩
            behind := fun gap => by cases gap } }
    exact Contiguous.of_bare snapshot rfl noPrev ⟨past.le, past.live, past.logged⟩ covered
  | @dropMirror db writer running =>
    have up := sound.up _ running
    exact Up.sound running
      { follows := up.follows
        holds := ⟨up.holds.durable, up.holds.fits, up.holds.acked_le, up.holds.bin⟩
        phases :=
          { merging := fun merging => by cases merging
            bare := fun _ waits => absurd rfl waits
            retired := fun waits => by
              rcases waits with past | waits
              · exact past.elim
              · exact absurd rfl waits
            mirrored := fun state waits => by cases waits }
        files := ⟨up.files.contiguous, up.files.behind⟩ }
  | @acknowledge db checkpoint count running later bound _ =>
    have up := sound.up _ running
    exact Up.sound running
      { follows := up.follows
        holds := ⟨up.holds.durable, up.holds.fits, bound, up.holds.bin⟩
        phases := ⟨up.phases.merging, up.phases.bare, up.phases.retired, up.phases.mirrored⟩
        files := ⟨up.files.contiguous,
          fun gap covered => up.files.behind gap (later.trans covered)⟩ }
  | @beginBulk process running =>
    have up := sound.up _ running
    exact Up.sound running ⟨up.follows,
      ⟨up.holds.durable, up.holds.fits, up.holds.acked_le, up.holds.bin⟩,
      ⟨up.phases.merging, up.phases.bare, up.phases.retired, up.phases.mirrored⟩,
      ⟨up.files.contiguous, up.files.behind⟩⟩
  | @endBulk process running =>
    have up := sound.up _ running
    exact Up.sound running ⟨up.follows,
      ⟨up.holds.durable, up.holds.fits, up.holds.acked_le, up.holds.bin⟩,
      ⟨up.phases.merging, up.phases.bare, up.phases.retired, up.phases.mirrored⟩,
      ⟨up.files.contiguous, up.files.behind⟩⟩
  | @tearPayload reason stopped =>
    have down := sound.down stopped
    exact Down.sound stopped ⟨down.fits, down.durable_le, down.acked_le, down.bin,
      down.binAt_le, down.settled, down.contiguous, down.behind⟩
  | @repairPrev state stopped decoded =>
    have down := sound.down stopped
    refine Down.sound stopped ⟨down.fits, down.durable_le, down.acked_le, down.bin,
      down.binAt_le, down.settled, fun gap => ?_, fun gap => ?_⟩
    · obtain ⟨base, retired, files⟩ := down.contiguous gap
      refine ⟨base, retired, files.base_le, files.binAt_le, files.logged, ?_⟩
      exact files.files.repairPrev lawful
        (fun op member => down.fits op (List.mem_of_mem_take (List.mem_of_mem_drop member)))
        decoded
    · obtain ⟨covered, prevOps, liveOps, prev, live, members⟩ := down.behind gap
      obtain ⟨_, bin, saved, rfl, consistent, _⟩ := down.bin
      obtain ⟨same, decodes, _, loaded, writable, _⟩ := loads_buildState consistent
      rw [bin] at decoded
      obtain rfl : state = same := Option.some.inj (decoded.symm.trans decodes)
      obtain ⟨file, db, n, replayed, intact, _⟩ := prev.replay loaded writable
      refine ⟨covered, prevOps, liveOps, ?_, live, members⟩
      have replayed : replayAndRepair codec b.machine.disk.prev
          (GraphDatabase.applyStateLoaded {} state) = (file, .ok db n) := replayed
      change Reads codec (replayAndRepair codec b.machine.disk.prev
        (GraphDatabase.applyStateLoaded {} state)).1 prevOps
      rw [replayed]
      exact intact.reads lawful fun op member =>
        down.fits op (List.mem_of_mem_drop (members op (List.mem_append_left _ member)))
  | @reopen disk db replayed stopped recovered =>
    have down := sound.down stopped
    obtain ⟨disk', db', replayed', found, atEnd, contiguous, behind⟩ := down.opens
    obtain ⟨rfl, rfl, rfl⟩ : disk = disk' ∧ db = db' ∧ replayed = replayed' := by
      rw [recovered] at found
      simpa using found
    obtain ⟨binAt_le, acked_le, samePosition⟩ := down.continues
    obtain ⟨state, bin, saved, rfl, consistent, view, _⟩ := down.bin
    refine Up.sound rfl
      { follows := ?_
        holds := ⟨rfl, ?_, acked_le, _, bin, saved, rfl, consistent,
          view.trans samePosition.symm, binAt_le⟩
        phases :=
          { merging := fun merging => by cases merging
            bare := fun _ waits => absurd down.settled waits
            retired := fun waits => by
              rcases waits with past | waits
              · exact past.elim
              · exact absurd down.settled waits
            mirrored := fun state waits => by
              rw [show b.mirror = none from down.settled] at waits
              cases waits }
        files :=
          { contiguous := fun gap => ?_
            behind := fun gap _ => behind gap } }
    · change Writer.Follows _ _ _ (if replayed = 0 then .idle else .opening)
      split <;> exact atEnd
    · obtain ⟨_, prevOps, liveOps, _, _, _, prev, live, members⟩ := down.reads
      have prevLogged : logged codec b.machine.disk.prev = prevOps := prev.scan_ops
      have liveLogged : logged codec b.machine.disk.live = liveOps := live.scan_ops
      intro op member
      have member : op ∈ b.continued codec := member
      unfold continued at member
      rw [prevLogged, liveLogged] at member
      split at member
      · rcases List.mem_append.mp member with old | new
        · exact down.fits op (List.mem_of_mem_take old)
        · exact down.fits op (members op new)
      · exact down.fits op (List.mem_of_mem_take member)
    · obtain ⟨base, retired, files⟩ := contiguous gap
      exact ⟨base, retired, files, fun merging => by cases merging⟩

theorem DurableRun.sound (lawful : codec.Lawful) {start : GraphDatabase}
    (run : b.DurableRun codec start) : b.Sound codec (viewOf start) := by
  induction run with
  | start fresh => exact fresh.sound
  | step _ durable step ih => exact ih.step lawful durable step

theorem DurableRun.fresh {start : GraphDatabase} (run : b.DurableRun codec start) :
    Consistent start ∧ start.readOnly = false := by
  induction run with
  | start fresh => exact ⟨fresh.consistent, fresh.writable⟩
  | step _ _ _ ih => exact ih

/-! ### The theorem, and the gap -/

theorem Down.restores (down : b.Down codec initial) :
    ∃ disk db tail, openBackend codec (some (.headed b.bin)) b.machine.disk =
        (disk, .ok db ()) ∧
      (∀ op ∈ tail, op ∈ b.machine.log.drop b.acked) ∧
      viewOf db = (b.machine.log.take b.acked ++ tail).foldl View.apply initial := by
  obtain ⟨disk, db, replayed, recovered, atEnd, _, _⟩ := down.opens
  obtain ⟨state, bin, saved, rfl, _⟩ := down.bin
  have valid : validatePersistedPayload b.bin = .ok () := by
    rw [bin]
    rfl
  have opens : ∃ disk', openBackend codec (some (.headed b.bin)) b.machine.disk =
      (disk', .ok db ()) := by
    unfold openBackend openDatabase loadFromDisk
    simp only [valid]
    rw [show ({ b.machine.disk with main := some b.bin } : Disk) = b.opened from rfl, recovered]
    dsimp only
    split
    · exact ⟨_, rfl⟩
    · exact ⟨_, rfl⟩
  obtain ⟨disk', opens⟩ := opens
  have acked_le := down.acked_le
  have durable_le := down.durable_le
  cases gap : b.gapped with
  | false =>
    refine ⟨disk', db, (b.machine.log.take b.machine.durable).drop b.acked, opens, ?_, ?_⟩
    · intro op member
      rw [List.drop_take] at member
      exact List.mem_of_mem_take member
    · have whole : b.machine.log.take b.acked ++
          (b.machine.log.take b.machine.durable).drop b.acked =
            b.machine.log.take b.machine.durable := by
        have split := List.take_append_drop b.acked (b.machine.log.take b.machine.durable)
        rwa [List.take_take, Nat.min_eq_left acked_le] at split
      rw [whole, atEnd.view]
      simp [continued, gap]
  | true =>
    obtain ⟨covered, prevOps, liveOps, prev, live, members⟩ := down.behind gap
    have prevLogged : logged codec b.machine.disk.prev = prevOps := prev.scan_ops
    have liveLogged : logged codec b.machine.disk.live = liveOps := live.scan_ops
    refine ⟨disk', db, (b.machine.log.take b.binAt).drop b.acked ++ (prevOps ++ liveOps),
      opens, ?_, ?_⟩
    · intro op member
      rcases List.mem_append.mp member with old | new
      · rw [List.drop_take] at old
        exact List.mem_of_mem_take old
      · have later := members op new
        rw [← Nat.add_sub_cancel' covered, ← List.drop_drop] at later
        exact List.mem_of_mem_drop later
    · have whole : b.machine.log.take b.acked ++ (b.machine.log.take b.binAt).drop b.acked =
          b.machine.log.take b.binAt := by
        have split := List.take_append_drop b.acked (b.machine.log.take b.binAt)
        rwa [List.take_take, Nat.min_eq_left covered] at split
      rw [← List.append_assoc, whole, atEnd.view]
      simp [continued, gap, prevLogged, liveLogged]

def resting (start : GraphDatabase) : Backend where
  machine :=
    { disk := { main := some (.encoded start.buildState) }
      process := some ⟨start, .idle, .idle⟩ }
  bin := .encoded start.buildState

theorem resting_fresh {start : GraphDatabase} (consistent : Consistent start)
    (writable : start.readOnly = false) : (resting start).Fresh start where
  consistent := consistent
  writable := writable
  process := rfl
  bin := ⟨start, rfl, consistent, rfl⟩
  live := rfl
  prev := rfl
  history := ⟨rfl, rfl, rfl, rfl⟩
  settled := ⟨rfl, rfl⟩

private theorem bulk_removal {start : GraphDatabase} (atStart : AtEnd initial [] start)
    {id : String} {bytes : Bytes} (framed : codec.frames [.removeNodesByIds [id]] = some bytes) :
    ∃ b₁ b₂ b₃ b₄ b₅ : Backend,
      Step codec (resting start) .beginBulk b₁ ∧
      Step codec b₁ (.graph (.log (.removeNodesByIds [id]))) b₂ ∧
      (resting start).machine.process = b₁.machine.process ∧
      Step codec b₂ (.graph .unlock) b₃ ∧
      Step codec b₃ (.graph .cleanup) b₄ ∧
      Step codec b₄ (.acknowledge 1) b₅ ∧
      b₅.machine.process = some ⟨removeCleanup { start with
        graph := (start.removeLocked [id]).graph } [id] (start.removeLocked [id]).clearedPaths
          (start.removeLocked [id]).clearedNames, .idle, .idle⟩ ∧
      b₅.machine.log = [.removeNodesByIds [id]] ∧ b₅.machine.disk.prev = none ∧
      b₅.bin = .encoded start.buildState ∧ b₅.mirror = none ∧ b₅.gapped = false ∧
      b₅.acked = 1 := by
  have logs := atStart.removal_logged [id]
  have written : (resting start).machine.disk.logOps codec
      (Command.call start (.removeNodesByIds [id])).logged =
        some ((resting start).machine.disk.append bytes) := by
    unfold Disk.logOps
    rw [logs, framed]
    rfl
  refine ⟨_, _, _, _, _, .beginBulk rfl, .graph (.log rfl (by simp) written) trivial, rfl,
    .graph (.unlock rfl) trivial, .graph (.cleanup rfl) trivial,
    .acknowledge rfl (Nat.zero_le _) ?_ (Or.inr Nat.one_pos), rfl, ?_, rfl, rfl, rfl, rfl, rfl⟩
  · change 1 ≤ ([] ++ (Command.call start (.removeNodesByIds [id])).logged).length
    rw [logs]
    exact le_rfl
  · change [] ++ (Command.call start (.removeNodesByIds [id])).logged = _
    rw [logs]
    rfl

/-- **Durability of the backend.** After a crash at any point of a durable run, opening
the backend succeeds, and the graph it holds is the one the mutators reach by all
acknowledged operations followed by operations that were logged after them. -/
theorem open_after_crash (lawful : codec.Lawful) {start : GraphDatabase}
    (run : b.DurableRun codec start) (stopped : b.machine.process = none) :
    ∃ disk db tail reference,
      openBackend codec (some (.headed b.bin)) b.machine.disk = (disk, .ok db ()) ∧
      (∀ op ∈ tail, op ∈ b.machine.log.drop b.acked) ∧
      replayOps (b.machine.log.take b.acked ++ tail) start = .ok reference () ∧
      viewOf db = viewOf reference := by
  obtain ⟨disk, db, tail, opens, logged, view⟩ := ((run.sound lawful).down stopped).restores
  obtain ⟨consistent, writable⟩ := run.fresh
  obtain ⟨reference, reached, _, referenceView, _⟩ :=
    replayOps_spec (b.machine.log.take b.acked ++ tail) consistent writable
  exact ⟨disk, db, tail, reference, opens, logged, reached, view.trans referenceView.symm⟩

def savedNode : GraphNode where
  id := "lain:Function:src/main.rs:main:1"
  nodeType := .function
  name := "main"
  path := "src/main.rs"
  lineStart := some 1

def savedGraph : GraphDatabase :=
  (GraphDatabase.putNode {} savedNode).getD {}

theorem savedGraph_spec : Consistent savedGraph ∧ savedGraph.readOnly = false ∧
    savedGraph.getNode savedNode.id = some savedNode := by
  obtain ⟨db, put, steps, sameMode⟩ := Steps.putNode consistent_empty savedNode
  have same : savedGraph = db := by simp [savedGraph, put]
  rw [same]
  refine ⟨steps.consistent, sameMode, ?_⟩
  change (viewOf db).nodes savedNode.id = some savedNode
  rw [steps.view]
  simp [View.apply, viewOf, GraphDatabase.getNode, hydrate]

theorem open_after_crash_bulk : (removalCodec savedNode.id).Lawful ∧
    ∃ b : Backend, b.DurableRun (removalCodec savedNode.id) savedGraph ∧
      b.machine.process = none ∧ b.acked = 1 ∧
      ∃ disk db tail reference,
        openBackend (removalCodec savedNode.id) (some (.headed b.bin)) b.machine.disk =
          (disk, .ok db ()) ∧
        (∀ op ∈ tail, op ∈ b.machine.log.drop b.acked) ∧
        replayOps (b.machine.log.take b.acked ++ tail) savedGraph = .ok reference () ∧
        viewOf db = viewOf reference := by
  obtain ⟨consistent, writable, _⟩ := savedGraph_spec
  have framed := removalCodec_frames savedNode.id 1
  obtain ⟨b₁, b₂, b₃, b₄, b₅, bulk, log, sameProcess, unlock, cleanup, acknowledge, running, _, _,
    _, _, noGap, acked⟩ :=
      bulk_removal (show AtEnd (viewOf savedGraph) [] savedGraph from
        ⟨consistent, writable, rfl⟩) framed
  have fits : b₁.Durable (removalCodec savedNode.id)
      (.graph (.log (.removeNodesByIds [savedNode.id]))) := by
    refine ⟨fun process up => ?_, trivial⟩
    rw [← sameProcess] at up
    obtain rfl := Option.some.inj up
    rw [show (Command.call savedGraph (.removeNodesByIds [savedNode.id])).logged =
      [.removeNodesByIds [savedNode.id]] from
        AtEnd.removal_logged (show AtEnd (viewOf savedGraph) [] savedGraph from
          ⟨consistent, writable, rfl⟩) _]
    exact removalCodec_fits savedNode.id 1 (by decide)
  have inBulk := (DurableRun.start (resting_fresh consistent writable)).step (by trivial) bulk
  have logged := inBulk.step fits log
  have unlocked := logged.step (by exact ⟨trivial, trivial⟩) unlock
  have cleaned := unlocked.step (by exact ⟨trivial, trivial⟩) cleanup
  have acknowledged := cleaned.step (by trivial) acknowledge
  have uncovered : b₅.Covered := fun gap => by rw [noGap] at gap; cases gap
  have crashed := acknowledged.step (by exact ⟨trivial, uncovered⟩)
    (.graph (.crash running) trivial)
  exact ⟨removalCodec_lawful _, _, crashed, rfl, acked,
    open_after_crash (removalCodec_lawful _) crashed rfl⟩

theorem open_bare {saved : GraphDatabase} (consistent : Consistent saved) {disk : Disk}
    (noPrev : disk.prev = none) (noLive : disk.live = none) :
    ∃ disk' db, openBackend codec (some (.headed (.encoded saved.buildState))) disk =
      (disk', .ok db ()) ∧ viewOf db = viewOf saved := by
  obtain ⟨main, live, prev⟩ := disk
  simp only at noPrev noLive
  subst noPrev noLive
  obtain ⟨state, decoded, version, _, _, view⟩ := loads_buildState consistent
  refine ⟨{ main := some (.encoded saved.buildState) },
    GraphDatabase.applyStateLoaded {} state, ?_, view⟩
  have valid : validatePersistedPayload (.encoded saved.buildState) = .ok () := rfl
  simp [openBackend, valid, openDatabase, loadFromDisk, recover, decoded, version,
    replayAndRepair]

theorem bulk_removal_lost {start : GraphDatabase} (consistent : Consistent start)
    (writable : start.readOnly = false) {id : String} {bytes : Bytes}
    (framed : codec.frames [.removeNodesByIds [id]] = some bytes) :
    ∃ b : Backend, b.Run codec start ∧ b.machine.process = none ∧
      b.machine.log = [.removeNodesByIds [id]] ∧ b.acked = 1 ∧
      ∃ disk db, openBackend codec (some (.headed b.bin)) b.machine.disk =
        (disk, .ok db ()) ∧ viewOf db = viewOf start := by
  obtain ⟨b₁, b₂, b₃, b₄, b₅, bulk, log, _, unlock, cleanup, acknowledge, running, logged,
    noPrev, bin, noMirror, _, acked⟩ :=
      bulk_removal (show AtEnd (viewOf start) [] start from ⟨consistent, writable, rfl⟩) framed
  have saved := (((((Run.start (resting_fresh consistent writable)).step bulk).step log).step
    unlock).step cleanup).step acknowledge
  have rotated := saved.step (.graph (.rotate running trivial (Or.inr noPrev)) noMirror)
  have encoded := rotated.step (.graph (.encode rfl trivial) trivial)
  obtain ⟨machine, bin₅, mirror, bulkDepth, acked₅, binAt, retiredAt, mirrorAt, gapped⟩ := b₅
  have published := encoded.step (.graph (.publish rfl) trivial)
  have discarded := published.step (.graph (.discard rfl) trivial)
  have crashed := discarded.step (.graph (.crash rfl) trivial)
  refine ⟨_, crashed, rfl, logged, acked, ?_⟩
  obtain rfl : bin₅ = .encoded start.buildState := bin
  exact open_bare consistent rfl (rotate_live (Or.inr noPrev))

/-- **An acknowledged removal is lost.** The graph the backend opens on after the crash
still holds the node whose removal it acknowledged. -/
theorem acknowledged_removal_lost : (removalCodec savedNode.id).Lawful ∧
    ∃ b : Backend, b.Run (removalCodec savedNode.id) savedGraph ∧
      b.machine.process = none ∧ b.machine.log = [.removeNodesByIds [savedNode.id]] ∧
      b.acked = 1 ∧
      ∃ disk db reference,
        openBackend (removalCodec savedNode.id) (some (.headed b.bin)) b.machine.disk =
          (disk, .ok db ()) ∧
        replayOps b.machine.log savedGraph = .ok reference () ∧
        reference.getNode savedNode.id = none ∧ db.getNode savedNode.id = some savedNode := by
  obtain ⟨consistent, writable, present⟩ := savedGraph_spec
  obtain ⟨b, run, stopped, log, acked, disk, db, opens, view⟩ :=
    bulk_removal_lost consistent writable (removalCodec_frames savedNode.id 1)
  obtain ⟨reference, reached, _, referenceView, _⟩ :=
    replayOps_spec b.machine.log consistent writable
  refine ⟨removalCodec_lawful _, b, run, stopped, log, acked, disk, db, reference, opens,
    reached, ?_, ?_⟩
  · change (viewOf reference).nodes savedNode.id = none
    rw [referenceView, log]
    simp [View.apply]
  · change (viewOf db).nodes savedNode.id = some savedNode
    rw [view]
    exact present

end Backend

end Lain.Federation
