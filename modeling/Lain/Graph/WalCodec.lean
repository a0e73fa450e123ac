import Lain.Graph.Recovery

/-!
# The codec of the log

A log is written by appends of whole batches and read back through a callback.
-/

namespace Lain.Graph

open Foundation

variable {codec : Codec} {σ : Type}

/-- The codec reads back what it wrote, and nothing from a strict prefix of it. -/
structure Codec.Exact (codec : Codec) : Prop where
  lawful : codec.Lawful
  exact : (walFormat codec).Exact

/-- Replay a log through a callback, then cut its torn tail off; a missing file replays
nothing. -/
def replayInner (codec : Codec) (apply : σ → GraphOp → Except String σ) (file : Option Bytes)
    (state : σ) : Option Bytes × Except String (σ × Nat) :=
  match file with
  | none => (none, .ok (state, 0))
  | some bytes =>
    let found := FrameLog.scan (walFormat codec) bytes
    match found.ops.foldlM apply state with
    | .error message => (some bytes, .error message)
    | .ok after =>
      match found.oversized with
      | some len => (some bytes, .error s!"WAL frame length {len} exceeds cap")
      | none => (some (bytes.take found.goodEnd), .ok (after, found.ops.length))

def always (apply : σ → GraphOp → σ) (state : σ) (op : GraphOp) : Except String σ :=
  .ok (apply state op)

theorem foldlM_always (apply : σ → GraphOp → σ) (ops : List GraphOp) (state : σ) :
    ops.foldlM (always apply) state = .ok (ops.foldl apply state) := by
  induction ops generalizing state with
  | nil => rfl
  | cons op rest ih => exact ih (apply state op)

/-- A replay of the log behind a tail yields exactly the operations, cuts the tail off,
and yields the same when it is run again. -/
def ReplaysExactly (codec : Codec) (ops : List GraphOp) (log tail : Bytes) : Prop :=
  ∀ {σ : Type} (apply : σ → GraphOp → σ) (state : σ),
    replayInner codec (always apply) (some (log ++ tail)) state =
        (some log, .ok (ops.foldl apply state, ops.length)) ∧
      replayInner codec (always apply) (some log) state =
        (some log, .ok (ops.foldl apply state, ops.length))

theorem replayInner_of_scan {ops : List GraphOp} {log tail : Bytes} {apply : σ → GraphOp → σ}
    {state : σ}
    (found : FrameLog.scan (walFormat codec) (log ++ tail) = ⟨ops, log.length, none⟩) :
    replayInner codec (always apply) (some (log ++ tail)) state =
      (some log, .ok (ops.foldl apply state, ops.length)) := by
  unfold replayInner
  simp only [found, foldlM_always, List.take_left]

private theorem foldl_collect (later seen : List GraphOp) :
    later.foldl (fun seen op => seen ++ [op]) seen = seen ++ later := by
  induction later generalizing seen with
  | nil => simp
  | cons op rest ih => simp [ih]

theorem scan_of_replayInner {ops : List GraphOp} {log tail : Bytes}
    (replayed : replayInner codec (always fun seen op => seen ++ [op]) (some (log ++ tail)) [] =
      (some log, .ok (ops, ops.length))) :
    (FrameLog.scan (walFormat codec) (log ++ tail)).ops = ops ∧
      (FrameLog.scan (walFormat codec) (log ++ tail)).oversized = none := by
  unfold replayInner at replayed
  simp only [foldlM_always, foldl_collect, List.nil_append] at replayed
  cases refused : (FrameLog.scan (walFormat codec) (log ++ tail)).oversized with
  | some len =>
    rw [refused] at replayed
    cases (Prod.mk.inj replayed).2
  | none =>
    rw [refused] at replayed
    simp only [Prod.mk.injEq, Except.ok.injEq] at replayed
    exact ⟨replayed.2.1, rfl⟩

/-- The log that appends of these batches leave on an empty disk. -/
def Appended (codec : Codec) (batches : List (List GraphOp)) (log : Bytes) : Prop :=
  ∃ disk : Disk, batches.foldlM (Disk.logOps codec) {} = some disk ∧ disk.live.getD [] = log

theorem Appended.frames {batches : List (List GraphOp)} {log : Bytes}
    (appended : Appended codec batches log) : codec.frames batches.flatten = some log := by
  obtain ⟨disk, run, rfl⟩ := appended
  have general : ∀ (batches : List (List GraphOp)) (start disk : Disk) (ops : List GraphOp),
      Intact codec start.live ops → batches.foldlM (Disk.logOps codec) start = some disk →
        Intact codec disk.live (ops ++ batches.flatten) := by
    intro batches
    induction batches with
    | nil =>
      intro start disk ops intact run
      cases run
      simpa using intact
    | cons batch rest ih =>
      intro start disk ops intact run
      rw [List.foldlM_cons] at run
      obtain ⟨middle, written, later⟩ := Option.bind_eq_some_iff.mp run
      have next := ih middle disk _ (intact.log written) later
      rwa [List.append_assoc] at next
  exact general batches {} disk [] rfl run

/-- **The log replays exactly when its lengths are admitted.** A log written by successful
appends, behind which a further frame was cut short, replays to exactly its operations if
and only if each of their payloads is within the cap and so is what the length field of the
torn frame says, unless the cut went through that field. -/
theorem replaysExactly_iff (exact : codec.Exact) {batches : List (List GraphOp)} {log : Bytes}
    (appended : Appended codec batches log) {further : GraphOp} {payload : Bytes}
    (encoded : codec.encodeOp further = some payload) {cut : Nat}
    (strict : cut < (FrameLog.frame (walFormat codec) payload).length) :
    ReplaysExactly codec batches.flatten log
        ((FrameLog.frame (walFormat codec) payload).take cut) ↔
      FrameLog.Fits (walFormat codec) batches.flatten ∧
        (cut < 4 ∨ payload.length % 2 ^ 32 ≤ frameCap) := by
  have framed := appended.frames
  have behind : ∀ tail : Bytes, FrameLog.Fits (walFormat codec) batches.flatten →
      FrameLog.scan (walFormat codec) (log ++ tail) =
        ⟨batches.flatten ++ (FrameLog.scan (walFormat codec) tail).ops,
          log.length + (FrameLog.scan (walFormat codec) tail).goodEnd,
          (FrameLog.scan (walFormat codec) tail).oversized⟩ := fun tail fits =>
    FrameLog.scan_frames_append (walFormat codec) exact.lawful framed fits tail
  constructor
  · intro replays
    have collected := (replays (fun seen op => seen ++ [op]) []).1
    rw [foldl_collect, List.nil_append] at collected
    obtain ⟨found, admitted⟩ := scan_of_replayInner collected
    have fits := FrameLog.fits_of_scan (walFormat codec) exact.exact exact.lawful framed _ found
    refine ⟨fits, ?_⟩
    by_contra unreadable
    rw [not_or, not_lt, not_le] at unreadable
    rw [behind _ fits, FrameLog.scan_cut_refused (walFormat codec) unreadable.1 unreadable.2]
      at admitted
    cases admitted
  · rintro ⟨fits, readable⟩
    have torn := FrameLog.scan_cut (walFormat codec) (exact.exact further payload encoded) strict
      readable
    intro σ apply state
    refine ⟨replayInner_of_scan ?_, ?_⟩
    · rw [behind _ fits, torn, List.append_nil, Nat.add_zero]
    · have whole := behind [] fits
      rw [FrameLog.scan_nil, List.append_nil, List.append_nil, Nat.add_zero] at whole
      have again : replayInner codec (always apply) (some (log ++ [])) state = _ :=
        replayInner_of_scan (by rw [List.append_nil]; exact whole)
      rwa [List.append_nil] at again

/-! ### The codec on markers and on a removal that is too long -/

def markerCodec : Codec where
  encodeOp
    | .commitIndexMap version =>
      if version < 2 ^ 64 then some (FrameLog.littleEndian 4 ++ lengthBytes version) else none
    | _ => none
  decodeOp payload :=
    let version := FrameLog.fromLittleEndian ((payload.drop 4).take 4) +
      2 ^ 32 * FrameLog.fromLittleEndian (payload.drop 8)
    if payload = FrameLog.littleEndian 4 ++ lengthBytes version then
      some (.commitIndexMap version)
    else none

theorem markerCodec_exact : markerCodec.Exact where
  lawful := by
    intro op payload encoded
    cases op with
    | commitIndexMap version =>
      simp only [markerCodec, Option.ite_none_right_eq_some, Option.some.injEq] at encoded
      obtain ⟨bound, rfl⟩ := encoded
      have low : ((FrameLog.littleEndian 4 ++ lengthBytes version).drop 4).take 4 =
          FrameLog.littleEndian version := rfl
      have high : (FrameLog.littleEndian 4 ++ lengthBytes version).drop 8 =
          FrameLog.littleEndian (version / 2 ^ 32) := rfl
      have whole : version % 2 ^ 32 + 2 ^ 32 * (version / 2 ^ 32 % 2 ^ 32) = version := by
        omega
      simp only [markerCodec, low, high, FrameLog.fromLittleEndian_littleEndian, whole, if_true]
    | upsertNode node => cases encoded
    | upsertEdge edge => cases encoded
    | removeNodesByIds ids => cases encoded
    | removeEdges endpoints => cases encoded
  exact := by
    intro op payload encoded k short
    change markerCodec.decodeOp (payload.take k) = none
    have length : payload.length = 12 := by
      cases op with
      | commitIndexMap version =>
        simp only [walFormat, markerCodec, Option.ite_none_right_eq_some,
          Option.some.injEq] at encoded
        rw [← encoded.2]
        rfl
      | upsertNode node => cases encoded
      | upsertEdge edge => cases encoded
      | removeNodesByIds ids => cases encoded
      | removeEdges endpoints => cases encoded
    refine if_neg fun same => ?_
    have lengths := congrArg List.length same
    simp only [List.length_take, List.length_append, lengthBytes,
      FrameLog.length_littleEndian] at lengths
    omega

theorem replaysExactly_markers :
    ∃ log, ReplaysExactly markerCodec [.commitIndexMap 1, .commitIndexMap 2] log
      ((FrameLog.frame (walFormat markerCodec)
        (FrameLog.littleEndian 4 ++ lengthBytes 3)).take 5) := by
  have fits : FrameLog.Fits (walFormat markerCodec) [[GraphOp.commitIndexMap 1],
      [.commitIndexMap 2]].flatten := by
    intro op member payload encoded
    have length : payload.length = 12 := by
      rcases List.mem_cons.mp member with rfl | later
      · cases encoded
        rfl
      · obtain rfl := List.mem_singleton.mp later
        cases encoded
        rfl
    rw [length]
    decide
  have appended : Appended markerCodec [[.commitIndexMap 1], [.commitIndexMap 2]] _ := ⟨_, rfl, rfl⟩
  have further : markerCodec.encodeOp (.commitIndexMap 3) = some _ := rfl
  exact ⟨_, (replaysExactly_iff markerCodec_exact appended further (by decide)).mpr
    ⟨fits, Or.inr (by decide)⟩⟩

theorem appended_removal (id : String) (count : Nat) :
    Appended (removalCodec id) [[.removeNodesByIds (List.replicate count id)]]
      (FrameLog.frame (walFormat (removalCodec id)) (removalBytes id count)) := by
  refine ⟨Disk.append {} (FrameLog.frame (walFormat (removalCodec id)) (removalBytes id count)),
    ?_, rfl⟩
  rw [List.foldlM_cons]
  unfold Disk.logOps Codec.frames
  rw [if_neg (by simp), removalCodec_frames]
  rfl

theorem removal_refused {id : String} {count : Nat}
    (long : frameCap < 12 + count * (8 + (utf8 id).length))
    (field : 12 + count * (8 + (utf8 id).length) < 2 ^ 32) :
    ¬ ReplaysExactly (removalCodec id) [.removeNodesByIds (List.replicate count id)]
      (FrameLog.frame (walFormat (removalCodec id)) (removalBytes id count)) [] := by
  intro replays
  have collected := (replays (fun seen op => seen ++ [op]) []).1
  rw [foldl_collect, List.nil_append] at collected
  have found := (scan_of_replayInner collected).2
  rw [← length_removalBytes] at long field
  rw [FrameLog.scan_oversized (walFormat (removalCodec id)) long field []] at found
  cases found

/-- A removal of many ids is appended, but its frame is refused when the log is replayed,
with nothing behind it. -/
theorem long_removal_refused :
    ∃ log, Appended (removalCodec "lain:Function:src/main.rs:main:1")
        [[.removeNodesByIds
          (List.replicate (2 ^ 21) "lain:Function:src/main.rs:main:1")]] log ∧
      ¬ ReplaysExactly (removalCodec "lain:Function:src/main.rs:main:1")
        [.removeNodesByIds (List.replicate (2 ^ 21) "lain:Function:src/main.rs:main:1")] log
        [] := by
  have size : (utf8 "lain:Function:src/main.rs:main:1").length = 32 := by decide
  refine ⟨_, appended_removal _ _, removal_refused ?_ ?_⟩
  · rw [size]
    decide
  · rw [size]
    decide

end Lain.Graph
