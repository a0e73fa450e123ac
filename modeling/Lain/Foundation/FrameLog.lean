import Mathlib.Data.List.Basic
import Mathlib.Tactic.Ring

/-!
# Framed logs

An append-only byte log of frames `[u32 length | payload | u32 checksum]`.
-/

namespace Lain.Foundation

/-- A byte string. -/
abbrev Bytes := List UInt8

namespace FrameLog

def littleEndian (n : Nat) : Bytes :=
  [UInt8.ofNat n, UInt8.ofNat (n / 2 ^ 8), UInt8.ofNat (n / 2 ^ 16), UInt8.ofNat (n / 2 ^ 24)]

def fromLittleEndian : Bytes → Nat
  | [a, b, c, d] => a.toNat + 2 ^ 8 * b.toNat + 2 ^ 16 * c.toNat + 2 ^ 24 * d.toNat
  | _ => 0

@[simp] theorem length_littleEndian (n : Nat) : (littleEndian n).length = 4 := rfl

theorem fromLittleEndian_littleEndian (n : Nat) :
    fromLittleEndian (littleEndian n) = n % 2 ^ 32 := by
  simp only [littleEndian, fromLittleEndian, UInt8.toNat_ofNat']
  omega

def readExact (n : Nat) (bytes : Bytes) : Option (Bytes × Bytes) :=
  if n ≤ bytes.length then some (bytes.take n, bytes.drop n) else none

theorem readExact_append (front rest : Bytes) :
    readExact front.length (front ++ rest) = some (front, rest) := by
  simp [readExact]

theorem readExact_short {n : Nat} {bytes : Bytes} (short : bytes.length < n) :
    readExact n bytes = none := by
  simp [readExact, short]

theorem readExact_length {n : Nat} {bytes front rest : Bytes}
    (read : readExact n bytes = some (front, rest)) :
    rest.length + n = bytes.length := by
  unfold readExact at read
  split at read
  next enough =>
      cases read
      simp only [List.length_drop]
      omega
  next => cases read

structure Format (Op : Type*) where
  encode : Op → Option Bytes
  decode : Bytes → Option Op
  checksum : Bytes → Nat
  cap : Nat
  checksum_lt : ∀ payload, checksum payload < 2 ^ 32
  cap_lt : cap < 2 ^ 32

/-- What a reader finds in a log: the good frames, where they end, and the length
field that made it refuse the rest, if one did. -/
structure Scan (Op : Type*) where
  ops : List Op
  goodEnd : Nat
  oversized : Option Nat

variable {Op : Type*} (format : Format Op)

def Format.Lawful : Prop :=
  ∀ op payload, format.encode op = some payload → format.decode payload = some op

/-- The frame of one payload. -/
def frame (payload : Bytes) : Bytes :=
  littleEndian payload.length ++ payload ++ littleEndian (format.checksum payload)

@[simp] theorem length_frame (payload : Bytes) :
    (frame format payload).length = payload.length + 8 := by
  simp [frame]
  omega

/-- The frames of a batch of operations, if each can be encoded. -/
def frames : List Op → Option Bytes
  | [] => some []
  | op :: rest =>
    match format.encode op, frames rest with
    | some payload, some later => some (frame format payload ++ later)
    | _, _ => none

inductive FrameRead (Op : Type*) where
  | torn
  | oversized (len : Nat)
  | frame (op : Op) (size : Nat) (rest : Bytes)

/-- Read one frame. -/
def readFrame (bytes : Bytes) : FrameRead Op :=
  match readExact 4 bytes with
  | none => .torn
  | some (lenBytes, afterLen) =>
    let len := fromLittleEndian lenBytes
    if format.cap < len then .oversized len
    else
      match readExact len afterLen with
      | none => .torn
      | some (payload, afterPayload) =>
        match readExact 4 afterPayload with
        | none => .torn
        | some (crcBytes, rest) =>
          if fromLittleEndian crcBytes ≠ format.checksum payload then .torn
          else
            match format.decode payload with
            | none => .torn
            | some op => .frame op (4 + len + 4) rest

theorem readFrame_length {bytes rest : Bytes} {op : Op} {size : Nat}
    (read : readFrame format bytes = .frame op size rest) :
    rest.length + size = bytes.length := by
  unfold readFrame at read
  split at read
  · cases read
  next lenBytes afterLen header =>
      dsimp only at read
      split at read
      · cases read
      · split at read
        · cases read
        next payload afterPayload body =>
            split at read
            · cases read
            next crcBytes left footer =>
                split at read
                · cases read
                · split at read
                  · cases read
                  · cases read
                    have first := readExact_length header
                    have second := readExact_length body
                    have third := readExact_length footer
                    omega

/-- Read frames until the log ends, is torn, or is refused. -/
def scan (bytes : Bytes) : Scan Op :=
  match _read : readFrame format bytes with
  | .torn => ⟨[], 0, none⟩
  | .oversized len => ⟨[], 0, some len⟩
  | .frame op size rest =>
    if 0 < size then
      let later := scan rest
      ⟨op :: later.ops, size + later.goodEnd, later.oversized⟩
    else ⟨[], 0, none⟩
termination_by bytes.length
decreasing_by
  have length := readFrame_length format _read
  omega

theorem scan_torn_of {bytes : Bytes} (torn : readFrame format bytes = .torn) :
    scan format bytes = ⟨[], 0, none⟩ := by
  rw [scan, torn]

@[simp] theorem scan_nil : scan format [] = ⟨[], 0, none⟩ :=
  scan_torn_of format rfl

private theorem lenField {payload : Bytes} (field : payload.length < 2 ^ 32) :
    fromLittleEndian (littleEndian payload.length) = payload.length := by
  rw [fromLittleEndian_littleEndian]
  exact Nat.mod_eq_of_lt field

private theorem readExact_header (len : Nat) (rest : Bytes) :
    readExact 4 (littleEndian len ++ rest) = some (littleEndian len, rest) :=
  readExact_append (littleEndian len) rest

theorem readFrame_frame {op : Op} {payload : Bytes} (decoded : format.decode payload = some op)
    (fits : payload.length ≤ format.cap) (rest : Bytes) :
    readFrame format (frame format payload ++ rest) =
      .frame op (4 + payload.length + 4) rest := by
  have crcField : fromLittleEndian (littleEndian (format.checksum payload)) =
      format.checksum payload := by
    rw [fromLittleEndian_littleEndian]
    exact Nat.mod_eq_of_lt (format.checksum_lt payload)
  unfold readFrame frame
  rw [List.append_assoc, List.append_assoc, readExact_header]
  simp only [lenField (lt_of_le_of_lt fits format.cap_lt)]
  rw [if_neg (by omega), readExact_append]
  simp only
  rw [readExact_header]
  simp [crcField, decoded]

theorem scan_frame {op : Op} {payload : Bytes} (decoded : format.decode payload = some op)
    (fits : payload.length ≤ format.cap) (rest : Bytes) :
    scan format (frame format payload ++ rest) =
      ⟨op :: (scan format rest).ops, (frame format payload).length + (scan format rest).goodEnd,
        (scan format rest).oversized⟩ := by
  rw [scan, readFrame_frame format decoded fits rest]
  simp only
  rw [if_pos (by omega), length_frame]
  congr 1
  omega

theorem scan_oversized {payload : Bytes} (long : format.cap < payload.length)
    (field : payload.length < 2 ^ 32) (rest : Bytes) :
    scan format (frame format payload ++ rest) = ⟨[], 0, some payload.length⟩ := by
  have refused : readFrame format (frame format payload ++ rest) =
      .oversized payload.length := by
    unfold readFrame frame
    rw [List.append_assoc, List.append_assoc, readExact_header]
    simp only [lenField field]
    rw [if_pos long]
  rw [scan, refused]

theorem scan_torn {payload : Bytes} (fits : payload.length ≤ format.cap) {k : Nat}
    (strict : k < (frame format payload).length) :
    scan format ((frame format payload).take k) = ⟨[], 0, none⟩ := by
  rw [length_frame] at strict
  refine scan_torn_of format ?_
  unfold readFrame
  by_cases noHeader : k < 4
  · rw [readExact_short (by rw [List.length_take]; omega)]
  · have split : (frame format payload).take k = littleEndian payload.length ++
        (payload ++ littleEndian (format.checksum payload)).take (k - 4) := by
      rw [frame, List.append_assoc, List.take_append, length_littleEndian,
        List.take_of_length_le (by simp; omega)]
    rw [split, readExact_header]
    simp only [lenField (lt_of_le_of_lt fits format.cap_lt)]
    rw [if_neg (by omega)]
    by_cases noPayload : k - 4 < payload.length
    · rw [readExact_short (by rw [List.length_take]; omega)]
    · have tail : (payload ++ littleEndian (format.checksum payload)).take (k - 4) =
          payload ++ (littleEndian (format.checksum payload)).take (k - 4 - payload.length) := by
        rw [List.take_append, List.take_of_length_le (by omega)]
      rw [tail, readExact_append]
      simp only
      rw [readExact_short (by rw [List.length_take, length_littleEndian]; omega)]

def Fits (ops : List Op) : Prop :=
  ∀ op ∈ ops, ∀ payload, format.encode op = some payload → payload.length ≤ format.cap

theorem scan_take_frames (lawful : format.Lawful) :
    ∀ {ops : List Op} {bytes : Bytes}, frames format ops = some bytes → Fits format ops →
      ∀ k, ∃ m ≤ ops.length, ∃ whole,
        frames format (ops.take m) = some whole ∧
          scan format (bytes.take k) = ⟨ops.take m, whole.length, none⟩ ∧
            (bytes.take k).take whole.length = whole ∧
              (bytes.length ≤ k → m = ops.length) := by
  intro ops
  induction ops with
  | nil =>
    intro bytes encoded _ k
    cases encoded
    exact ⟨0, le_rfl, [], rfl, by simp, rfl, fun _ => rfl⟩
  | cons op rest ih =>
    intro bytes encoded fits k
    unfold frames at encoded
    split at encoded
    next payload later first others =>
        cases encoded
        have admitted := fits op (by simp) payload first
        by_cases cut : k < (frame format payload).length
        · refine ⟨0, by simp, [], rfl, ?_, rfl, ?_⟩
          · rw [List.take_append_of_le_length (by omega), scan_torn format admitted cut]
            rfl
          · intro complete
            rw [List.length_append] at complete
            omega
        · obtain ⟨m, bound, whole, kept, read, cutBack, all⟩ :=
            ih others (fun op member => fits op (by simp [member]))
              (k - (frame format payload).length)
          have split : (frame format payload ++ later).take k =
              frame format payload ++ later.take (k - (frame format payload).length) := by
            rw [List.take_append, List.take_of_length_le (by omega)]
          refine ⟨m + 1, by simp; omega, frame format payload ++ whole, ?_, ?_, ?_, ?_⟩
          · rw [List.take_succ_cons]
            unfold frames
            rw [first, kept]
          · rw [split, scan_frame format (lawful op payload first) admitted, read]
            simp only [List.take_succ_cons, List.length_append]
          · rw [split, List.length_append, List.take_length_add_append, cutBack]
          · intro complete
            rw [List.length_append] at complete
            rw [List.length_cons, all (by omega)]
    next => cases encoded

theorem frames_eq_nil {ops : List Op} (empty : frames format ops = some []) : ops = [] := by
  cases ops with
  | nil => rfl
  | cons op rest =>
    unfold frames at empty
    split at empty
    next payload later _ _ =>
        have length := congrArg List.length (Option.some.inj empty)
        simp at length
    next => cases empty

theorem frames_append {ops later : List Op} {bytes moreBytes : Bytes}
    (first : frames format ops = some bytes) (second : frames format later = some moreBytes) :
    frames format (ops ++ later) = some (bytes ++ moreBytes) := by
  induction ops generalizing bytes with
  | nil =>
    cases first
    exact second
  | cons op rest ih =>
    unfold frames at first
    split at first
    next payload others encoded framed =>
        cases first
        rw [List.cons_append]
        unfold frames
        rw [encoded, ih framed, List.append_assoc]
    next => cases first

theorem scan_frames_append (lawful : format.Lawful) {ops : List Op} {bytes : Bytes}
    (encoded : frames format ops = some bytes) (fits : Fits format ops) (tail : Bytes) :
    scan format (bytes ++ tail) =
      ⟨ops ++ (scan format tail).ops, bytes.length + (scan format tail).goodEnd,
        (scan format tail).oversized⟩ := by
  induction ops generalizing bytes with
  | nil =>
    cases encoded
    simp
  | cons op rest ih =>
    unfold frames at encoded
    split at encoded
    next payload others first framed =>
        cases encoded
        rw [List.append_assoc, scan_frame format (lawful op payload first)
          (fits op (by simp) payload first),
          ih framed (fun op member => fits op (by simp [member]))]
        simp [List.length_append]
        omega
    next => cases encoded

/-! ### Payloads beyond the length field -/

def Format.Exact : Prop :=
  ∀ op payload, format.encode op = some payload →
    ∀ k < payload.length, format.decode (payload.take k) = none

theorem readFrame_wrapped {payload rest body : Bytes} (long : format.cap < payload.length)
    (wraps : payload.length % 2 ^ 32 ≤ format.cap)
    (undecoded : ∀ k < payload.length, format.decode (payload.take k) = none)
    (front : body <+: payload ++ rest) :
    readFrame format (littleEndian payload.length ++ body) = .torn := by
  unfold readFrame
  rw [readExact_header]
  simp only [fromLittleEndian_littleEndian]
  rw [if_neg (by omega)]
  have inside : payload.length % 2 ^ 32 < payload.length := by omega
  by_cases enough : payload.length % 2 ^ 32 ≤ body.length
  · have prefixRead : body.take (payload.length % 2 ^ 32) =
        payload.take (payload.length % 2 ^ 32) := by
      obtain ⟨more, whole⟩ := front
      have longer : (body ++ more).take (payload.length % 2 ^ 32) =
          body.take (payload.length % 2 ^ 32) := List.take_append_of_le_length enough
      rw [← longer, whole, List.take_append_of_le_length inside.le]
    simp only [readExact, if_pos enough, prefixRead]
    split
    · rfl
    · split
      · rfl
      · rw [undecoded _ inside]
  · rw [readExact_short (by omega)]

theorem fits_of_scan (exactly : format.Exact) (lawful : format.Lawful) {ops : List Op} :
    ∀ {bytes : Bytes}, frames format ops = some bytes → ∀ tail : Bytes,
      (scan format (bytes ++ tail)).ops = ops → Fits format ops := by
  induction ops with
  | nil => exact fun _ _ _ op member => absurd member List.not_mem_nil
  | cons op rest ih =>
    intro bytes encoded tail found
    unfold frames at encoded
    split at encoded
    next payload others first framed =>
        cases encoded
        rw [List.append_assoc] at found
        have admitted : payload.length ≤ format.cap := by
          by_contra long
          rw [not_le] at long
          have split : frame format payload ++ (others ++ tail) =
              littleEndian payload.length ++
                (payload ++ (littleEndian (format.checksum payload) ++ (others ++ tail))) := by
            simp only [frame, List.append_assoc]
          rw [split, scan] at found
          by_cases wraps : payload.length % 2 ^ 32 ≤ format.cap
          · rw [readFrame_wrapped format long wraps (exactly op payload first)
              (List.prefix_refl _)] at found
            cases found
          · have refused : readFrame format (littleEndian payload.length ++
                (payload ++ (littleEndian (format.checksum payload) ++ (others ++ tail)))) =
                .oversized (payload.length % 2 ^ 32) := by
              unfold readFrame
              rw [readExact_header]
              simp only [fromLittleEndian_littleEndian]
              rw [if_pos (by omega)]
            rw [refused] at found
            cases found
        rw [scan_frame format (lawful op payload first) admitted] at found
        have later := ih framed tail (List.cons.inj found).2
        intro other member
        rcases List.mem_cons.mp member with rfl | old
        · intro p same
          rw [first] at same
          cases same
          exact admitted
        · exact later other old
    next => cases encoded

private theorem take_frame {payload : Bytes} {k : Nat} (header : 4 ≤ k) :
    (frame format payload).take k = littleEndian payload.length ++
      (payload ++ littleEndian (format.checksum payload)).take (k - 4) := by
  rw [frame, List.append_assoc, List.take_append, length_littleEndian,
    List.take_of_length_le (by simp; omega)]

theorem scan_cut {payload : Bytes}
    (undecoded : ∀ k < payload.length, format.decode (payload.take k) = none) {k : Nat}
    (strict : k < (frame format payload).length)
    (readable : k < 4 ∨ payload.length % 2 ^ 32 ≤ format.cap) :
    scan format ((frame format payload).take k) = ⟨[], 0, none⟩ := by
  by_cases noHeader : k < 4
  · refine scan_torn_of format ?_
    unfold readFrame
    rw [readExact_short (by rw [List.length_take]; omega)]
  by_cases admitted : payload.length ≤ format.cap
  · exact scan_torn format admitted strict
  · rw [take_frame format (not_lt.mp noHeader)]
    exact scan_torn_of format (readFrame_wrapped format (not_le.mp admitted)
      (readable.resolve_left noHeader) undecoded (List.take_prefix _ _))

theorem scan_cut_refused {payload : Bytes} {k : Nat} (header : 4 ≤ k)
    (above : format.cap < payload.length % 2 ^ 32) :
    (scan format ((frame format payload).take k)).oversized =
      some (payload.length % 2 ^ 32) := by
  have refused : readFrame format ((frame format payload).take k) =
      .oversized (payload.length % 2 ^ 32) := by
    rw [take_frame format header]
    unfold readFrame
    rw [readExact_header]
    simp only [fromLittleEndian_littleEndian]
    rw [if_pos above]
  rw [scan, refused]

end FrameLog

end Lain.Foundation
