import Mathlib
import Lain.Foundation.Blanks
import Lain.Foundation.LineBuffer
import Lain.Foundation.LossyText
import Lain.Server.RevisionLog

/-!
# The framing of the owner's stream

The stream of the owner's diffs comes in chunks.
-/

namespace Lain.Server.StreamFraming

open Foundation
open ByteCursor (bytes)
open Blanks (trim trimEndMatches)

/-! ### The reader -/

structure Stream where
  sseData : List Char := []
  sent : List OverlayDiff := []
  deriving DecidableEq

def metadata : List String := [":", "event:", "id:", "retry:"]

section Reader

variable (decode : List Char → Option OverlayDiff)

def sendDiffPayload (s : Stream) (payload : List Char) : Stream :=
  if trim payload = [] then s
  else
    match decode (trim payload) with
    | some diff => { s with sent := s.sent ++ [diff] }
    | none => s

def flushSseData (s : Stream) : Stream :=
  if s.sseData = [] then s else { sendDiffPayload decode s s.sseData with sseData := [] }

def stripSpace (text : List Char) : List Char :=
  (([' '] : List Char).isPrefixOf? text).getD text

def pushData (sseData data : List Char) : List Char :=
  if sseData = [] then data else sseData ++ '\n' :: data

def withoutReturn (text : List Char) : List Char :=
  trimEndMatches (· == '\r') text

def processStreamLine (s : Stream) (line : List UInt8) : Stream :=
  let text := withoutReturn (LossyText.fromUtf8Lossy line)
  if text = [] then flushSseData decode s
  else
    match "data:".toList.isPrefixOf? text with
    | some data => { s with sseData := pushData s.sseData (stripSpace data) }
    | none =>
      if metadata.any fun field => field.toList.isPrefixOf text then s
      else sendDiffPayload decode (flushSseData decode s) text

/-- Read a stream to its end: what is left behind the last line feed is a line too, and the event
that is being read ends. -/
def streamDiffs (chunks : List (List UInt8)) : List OverlayDiff :=
  let last := chunks.foldl (LineBuffer.receive 10 (processStreamLine decode)) ({}, [])
  let s := if last.2 = [] then last.1 else processStreamLine decode last.1 last.2
  (flushSseData decode s).sent

end Reader

/-! ### The writer -/

inductive LineKind where
  | aside (field : String) (known : field ∈ metadata) (text : List Char)
  | data (space : Bool) (piece : List Char)
  | blank
  | plain (text : List Char)

namespace LineKind

def text : LineKind → List Char
  | .aside field _ text => field.toList ++ text
  | .data space piece => "data:".toList ++ ((if space then [' '] else []) ++ piece)
  | .blank => []
  | .plain text => text

def piece : LineKind → Option (List Char)
  | .data _ piece => some piece
  | _ => none

def Inside : LineKind → Prop
  | .aside _ _ _ => True
  | .data _ _ => True
  | .blank => False
  | .plain _ => False

def Idle : LineKind → Prop
  | .aside _ _ _ => True
  | .data _ _ => False
  | .blank => True
  | .plain _ => False

end LineKind

structure WireLine where
  kind : LineKind
  crlf : Bool

def WireLine.raw (line : WireLine) : List UInt8 :=
  bytes line.kind.text ++ if line.crlf then [13] else []

/-- The bytes of lines. -/
def render (lines : List WireLine) : List UInt8 :=
  lines.flatMap fun line => line.raw ++ [10]

def eventText (event : List WireLine) : List Char :=
  ['\n'].intercalate (event.filterMap fun line => line.kind.piece)

section Writer

variable (decode : List Char → Option OverlayDiff)

/-- **Lines carry diffs**: one on a line of its own, one in the pieces of an event. -/
inductive Carried : List WireLine → List OverlayDiff → Prop
  | done : Carried [] []
  | idle {line : WireLine} {lines : List WireLine} {diffs : List OverlayDiff}
      (nothing : line.kind.Idle) (later : Carried lines diffs) : Carried (line :: lines) diffs
  | plain {text : List Char} {crlf : Bool} {diff : OverlayDiff} {lines : List WireLine}
      {diffs : List OverlayDiff} (spelled : decode text = some diff)
      (later : Carried lines diffs) : Carried (⟨.plain text, crlf⟩ :: lines) (diff :: diffs)
  | event {event lines : List WireLine} {diff : OverlayDiff} {diffs : List OverlayDiff}
      (inside : ∀ line ∈ event, line.kind.Inside) (spelled : decode (eventText event) = some diff)
      (closed : ∀ line ∈ lines.head?, ¬line.kind.Inside) (later : Carried lines diffs) :
      Carried (event ++ lines) (diff :: diffs)

/-- The bytes of a stream: those of its lines, possibly without the last line feed. -/
def Written (lines : List WireLine) (text : List UInt8) : Prop :=
  text = render lines ∨ text ++ [10] = render lines

/-- **What is relied on of the decoder.** A text it accepts begins with a brace or a bracket, if
not with white space; a line feed around the text, and white space at its ends, do not matter;
nor do a carriage return in front of a line feed and a space behind one. -/
structure Lenient : Prop where
  opens : ∀ {text diff}, decode text = some diff →
    (trim text).head? = some '\x7b' ∨ (trim text).head? = some '['
  fed : ∀ {text diff}, decode text = some diff → decode ('\n' :: (text ++ ['\n'])) = some diff
  trimmed : ∀ {text diff}, decode text = some diff → decode (trim text) = some diff
  noReturn : ∀ {front rest diff}, decode (front ++ '\r' :: '\n' :: rest) = some diff →
    decode (front ++ '\n' :: rest) = some diff
  noSpace : ∀ {front rest diff}, decode (front ++ '\n' :: ' ' :: rest) = some diff →
    decode (front ++ '\n' :: rest) = some diff

end Writer

/-! ### One line -/

section Lines

variable {decode : List Char → Option OverlayDiff} {s : Stream} {diff : OverlayDiff}

theorem flushSseData_of_nil (none_ : s.sseData = []) : flushSseData decode s = s :=
  if_pos none_

theorem flushSseData_sseData (s : Stream) : (flushSseData decode s).sseData = [] := by
  unfold flushSseData
  split_ifs with none_
  · exact none_
  · rfl

theorem flushSseData_flushSseData (s : Stream) :
    flushSseData decode (flushSseData decode s) = flushSseData decode s :=
  flushSseData_of_nil (flushSseData_sseData s)

theorem Lenient.sendDiffPayload_eq (lenient : Lenient decode) {payload text : List Char}
    (same : trim payload = trim text) (spelled : decode text = some diff) (s : Stream) :
    sendDiffPayload decode s payload = { s with sent := s.sent ++ [diff] } := by
  have filled : trim text ≠ [] := by
    intro none_
    rcases lenient.opens spelled with head | head <;> rw [none_] at head <;> cases head
  unfold sendDiffPayload
  rw [same, if_neg filled, lenient.trimmed spelled]

theorem withoutReturn_append {front : List Char} (last : front.getLast? ≠ some '\r')
    (text : List Char) : withoutReturn (front ++ text) = front ++ withoutReturn text :=
  Blanks.trimEndMatches_append (fun _ ends => beq_eq_false_iff_ne.mpr fun same =>
    last (ends.trans (congrArg some same))) text

theorem exists_eq_withoutReturn_append (text : List Char) :
    ∃ tail, text = withoutReturn text ++ tail ∧ ∀ c ∈ tail, c = '\r' := by
  obtain ⟨tail, whole, goes⟩ := Blanks.exists_eq_trimEndMatches_append (· == '\r') text
  exact ⟨tail, whole, fun c member => beq_iff_eq.mp (goes c member)⟩

theorem trim_withoutReturn (text : List Char) : trim (withoutReturn text) = trim text := by
  obtain ⟨tail, whole, returns⟩ := exists_eq_withoutReturn_append text
  conv_rhs => rw [whole]
  exact (Blanks.trim_append_of_blank (fun c member => by rw [returns c member]; rfl) _).symm

theorem withoutReturn_raw (line : WireLine) :
    withoutReturn (LossyText.fromUtf8Lossy line.raw) = withoutReturn line.kind.text := by
  have spelled : line.raw = bytes (line.kind.text ++ if line.crlf then ['\r'] else []) := by
    unfold WireLine.raw
    rw [ByteCursor.bytes_append]
    split <;> rfl
  rw [spelled, LossyText.fromUtf8Lossy_bytes]
  refine Blanks.trimEndMatches_append_of_all (fun c member => ?_) _
  split at member
  · rw [List.mem_singleton.mp member]
    rfl
  · cases member

theorem processStreamLine_aside {line : WireLine} {field : String} {known : field ∈ metadata}
    {text : List Char} (is : line.kind = .aside field known text) (s : Stream) :
    processStreamLine decode s line.raw = s := by
  unfold processStreamLine
  simp only [withoutReturn_raw, is, LineKind.text]
  have listed := known
  unfold metadata at listed
  simp only [List.mem_cons, List.not_mem_nil, or_false] at listed
  rcases listed with rfl | rfl | rfl | rfl <;>
    rw [withoutReturn_append (by decide)] <;>
    simp [List.isPrefixOf?, metadata]

def received (space : Bool) (piece : List Char) : List Char :=
  stripSpace (withoutReturn ((if space then [' '] else []) ++ piece))

theorem processStreamLine_data {line : WireLine} {space : Bool} {piece : List Char}
    (is : line.kind = .data space piece) (s : Stream) :
    processStreamLine decode s line.raw =
      { s with sseData := pushData s.sseData (received space piece) } := by
  unfold processStreamLine
  simp only [withoutReturn_raw, is, LineKind.text]
  rw [withoutReturn_append (by decide),
    List.isPrefixOf?_eq_some_iff_append_eq.mpr rfl, if_neg (by simp)]
  rfl

theorem processStreamLine_blank {line : WireLine} (is : line.kind = .blank) (s : Stream) :
    processStreamLine decode s line.raw = flushSseData decode s := by
  unfold processStreamLine
  simp only [withoutReturn_raw, is]
  rfl

theorem head?_trim {c : Char} (dark : Blanks.isWhitespace c = false) (rest : List Char) :
    (trim (c :: rest)).head? = some c := by
  unfold Blanks.trim
  rw [List.dropWhile_cons_of_neg (by simp [dark])]
  have kept := @Blanks.trimEndMatches_append Blanks.isWhitespace [c]
    (fun d last => by rw [← Option.some_inj.mp last]; exact dark) rest
  unfold Blanks.trimEnd
  rw [← List.singleton_append, kept]
  rfl

theorem Lenient.not_begins (lenient : Lenient decode) {text : List Char}
    (spelled : decode text = some diff) {c : Char} (dark : Blanks.isWhitespace c = false)
    (other : c ≠ '\x7b' ∧ c ≠ '[') (rest : List Char) : withoutReturn text ≠ c :: rest := by
  intro begins
  have head : (trim text).head? = some c := by
    rw [← trim_withoutReturn, begins, head?_trim dark]
  rcases lenient.opens spelled with first | first
  · exact other.1 (Option.some_inj.mp (head.symm.trans first))
  · exact other.2 (Option.some_inj.mp (head.symm.trans first))

theorem Lenient.processStreamLine_plain (lenient : Lenient decode) {line : WireLine}
    {text : List Char} (is : line.kind = .plain text) (spelled : decode text = some diff)
    (s : Stream) :
    processStreamLine decode s line.raw =
      { flushSseData decode s with sent := (flushSseData decode s).sent ++ [diff] } := by
  have filled : withoutReturn text ≠ [] := by
    intro none_
    have ends := trim_withoutReturn text
    rw [none_] at ends
    rcases lenient.opens spelled with head | head <;> rw [← ends] at head <;> cases head
  have begins : ∀ field ∈ "data:" :: metadata, field.toList.isPrefixOf (withoutReturn text) = false := by
    intro field member
    rw [Bool.eq_false_iff, Ne, List.isPrefixOf_iff_prefix]
    rintro ⟨rest, whole⟩
    unfold metadata at member
    simp only [List.mem_cons, List.not_mem_nil, or_false] at member
    rcases member with rfl | rfl | rfl | rfl | rfl <;>
      exact lenient.not_begins spelled (by decide) (by decide) _ whole.symm
  have data : "data:".toList.isPrefixOf? (withoutReturn text) = none := by
    rw [Option.eq_none_iff_forall_ne_some]
    intro rest found
    have front := begins "data:" List.mem_cons_self
    rw [← List.isPrefixOf?_eq_some_iff_append_eq.mp found] at front
    simp at front
  have others : (metadata.any fun field => field.toList.isPrefixOf (withoutReturn text)) = false :=
    List.any_eq_false.mpr fun field member => by
      rw [begins field (List.mem_cons_of_mem _ member)]
      exact Bool.false_ne_true
  unfold processStreamLine
  simp only [withoutReturn_raw, is, LineKind.text]
  rw [if_neg filled, data]
  simp only [others, Bool.false_eq_true, if_false]
  exact lenient.sendDiffPayload_eq (trim_withoutReturn text) spelled _

end Lines

/-! ### One event -/

section Events

variable {decode : List Char → Option OverlayDiff} {diff : OverlayDiff} {event : List WireLine}

def LineKind.received : LineKind → Option (List Char)
  | .data space piece => some (StreamFraming.received space piece)
  | _ => none

theorem foldl_inside (inside : ∀ line ∈ event, line.kind.Inside) (s : Stream) :
    (event.map WireLine.raw).foldl (processStreamLine decode) s =
      { s with
        sseData := (event.filterMap fun line => line.kind.received).foldl pushData s.sseData } := by
  induction event generalizing s with
  | nil => rfl
  | cons line event ih =>
    have here := inside line List.mem_cons_self
    rw [List.map_cons, List.foldl_cons,
      ih fun later member => inside later (List.mem_cons_of_mem _ member)]
    cases is : line.kind with
    | aside field known text =>
      rw [processStreamLine_aside is, List.filterMap_cons_none (by rw [is]; rfl)]
    | data space piece =>
      rw [processStreamLine_data is, List.filterMap_cons_some (by rw [is]; rfl),
        List.foldl_cons]
    | blank => rw [is] at here; exact here.elim
    | plain text => rw [is] at here; exact here.elim

theorem foldl_pushData_of_ne {sseData : List Char} (filled : sseData ≠ [])
    (pieces : List (List Char)) :
    pieces.foldl pushData sseData = sseData ++ pieces.flatMap ('\n' :: ·) := by
  induction pieces generalizing sseData with
  | nil => exact (List.append_nil _).symm
  | cons piece pieces ih =>
    have pushed : pushData sseData piece = sseData ++ '\n' :: piece := if_neg filled
    rw [List.foldl_cons, pushed, ih (by simp), List.flatMap_cons, List.append_assoc]

theorem exists_append_foldl_pushData (pieces : List (List Char)) :
    ∃ feeds, (∀ c ∈ feeds, c = '\n') ∧
      feeds ++ pieces.foldl pushData [] = pieces.flatMap ('\n' :: ·) := by
  induction pieces with
  | nil => exact ⟨[], fun _ member => absurd member List.not_mem_nil, rfl⟩
  | cons piece pieces ih =>
    have pushed : pushData [] piece = piece := if_pos rfl
    rw [List.foldl_cons, pushed, List.flatMap_cons]
    by_cases filled : piece = []
    · obtain ⟨feeds, only, whole⟩ := ih
      refine ⟨'\n' :: feeds, ?_, ?_⟩
      · intro c member
        rcases List.mem_cons.mp member with here | member
        · exact here
        · exact only c member
      · rw [filled, List.cons_append, whole]
        rfl
    · exact ⟨['\n'], fun c member => List.mem_singleton.mp member, by
        rw [foldl_pushData_of_ne filled]; rfl⟩

theorem trim_foldl_pushData (pieces : List (List Char)) :
    trim (pieces.foldl pushData []) = trim (pieces.flatMap ('\n' :: ·) ++ ['\n']) := by
  obtain ⟨feeds, only, whole⟩ := exists_append_foldl_pushData pieces
  rw [Blanks.trim_append_of_blank (fun c member => by rw [List.mem_singleton.mp member]; rfl),
    ← whole, Blanks.trim_blank_append fun c member => by rw [only c member]; rfl]

theorem exists_eq_received (space : Bool) (piece : List Char) :
    ∃ lead tail, piece = lead ++ (received space piece ++ tail) ∧ (lead = [] ∨ lead = [' ']) ∧
      ∀ c ∈ tail, c = '\r' := by
  obtain ⟨tail, whole, returns⟩ := exists_eq_withoutReturn_append piece
  cases space with
  | true =>
    have kept : received true piece = withoutReturn piece := by
      unfold received
      rw [if_pos rfl, withoutReturn_append (by decide)]
      rfl
    exact ⟨[], tail, by rw [kept]; exact whole, .inl rfl, returns⟩
  | false =>
    have kept : received false piece = stripSpace (withoutReturn piece) := rfl
    unfold stripSpace at kept
    cases found : ([' '] : List Char).isPrefixOf? (withoutReturn piece) with
    | none =>
      rw [found, Option.getD_none] at kept
      exact ⟨[], tail, by rw [kept]; exact whole, .inl rfl, returns⟩
    | some rest =>
      rw [found, Option.getD_some] at kept
      refine ⟨[' '], tail, ?_, .inr rfl, returns⟩
      rw [kept, ← List.append_assoc, List.isPrefixOf?_eq_some_iff_append_eq.mp found]
      exact whole

theorem Lenient.noReturns (lenient : Lenient decode) {tail : List Char}
    (returns : ∀ c ∈ tail, c = '\r') (front rest : List Char)
    (spelled : decode (front ++ (tail ++ '\n' :: rest)) = some diff) :
    decode (front ++ '\n' :: rest) = some diff := by
  induction tail generalizing front with
  | nil => exact spelled
  | cons c tail ih =>
    have later : decode ((front ++ [c]) ++ '\n' :: rest) = some diff :=
      ih (fun d member => returns d (List.mem_cons_of_mem _ member)) _ (by
        rw [List.append_assoc]; exact spelled)
    rw [returns c List.mem_cons_self, List.append_assoc] at later
    exact lenient.noReturn later

theorem Lenient.received (lenient : Lenient decode) {space : Bool} {front piece rest : List Char}
    (spelled : decode (front ++ '\n' :: (piece ++ '\n' :: rest)) = some diff) :
    decode (front ++ '\n' :: (StreamFraming.received space piece ++ '\n' :: rest)) =
      some diff := by
  obtain ⟨lead, tail, whole, space_, returns⟩ := exists_eq_received space piece
  rw [whole] at spelled
  have ended := lenient.noReturns returns
    (front ++ '\n' :: (lead ++ StreamFraming.received space piece)) rest (by
      simpa only [List.append_assoc, List.cons_append] using spelled)
  rw [List.append_assoc, List.cons_append, List.append_assoc] at ended
  rcases space_ with rfl | rfl
  · exact ended
  · exact lenient.noSpace ended

theorem Lenient.foldl_received (lenient : Lenient decode) (front : List Char)
    (spelled : decode (front ++ ((event.filterMap fun line => line.kind.piece).flatMap
      ('\n' :: ·) ++ ['\n'])) = some diff) :
    decode (front ++ ((event.filterMap fun line => line.kind.received).flatMap
      ('\n' :: ·) ++ ['\n'])) = some diff := by
  induction event generalizing front with
  | nil => exact spelled
  | cons line event ih =>
    cases is : line.kind with
    | data space piece =>
      rw [List.filterMap_cons_some (by rw [is]; rfl)] at spelled ⊢
      rw [List.flatMap_cons, List.append_assoc, List.cons_append] at spelled ⊢
      have feeds : ∀ pieces : List (List Char), ∃ rest,
          pieces.flatMap ('\n' :: ·) ++ ['\n'] = '\n' :: rest := by
        intro pieces
        cases pieces with
        | nil => exact ⟨[], rfl⟩
        | cons first later => exact ⟨_, rfl⟩
      obtain ⟨rest, begins⟩ := feeds (event.filterMap fun line => line.kind.piece)
      rw [begins] at spelled
      have replaced : decode (front ++ '\n' ::
          (StreamFraming.received space piece ++ '\n' :: rest)) = some diff :=
        lenient.received spelled
      rw [← begins] at replaced
      have later := ih (front ++ '\n' :: StreamFraming.received space piece) (by
        simpa only [List.append_assoc, List.cons_append] using replaced)
      simpa only [List.append_assoc, List.cons_append] using later
    | aside field known text =>
      rw [List.filterMap_cons_none (by rw [is]; rfl)] at spelled ⊢
      exact ih front spelled
    | blank =>
      rw [List.filterMap_cons_none (by rw [is]; rfl)] at spelled ⊢
      exact ih front spelled
    | plain text =>
      rw [List.filterMap_cons_none (by rw [is]; rfl)] at spelled ⊢
      exact ih front spelled

theorem feed_intercalate {pieces : List (List Char)} (some_ : pieces ≠ []) :
    '\n' :: ['\n'].intercalate pieces = pieces.flatMap ('\n' :: ·) := by
  induction pieces with
  | nil => exact absurd rfl some_
  | cons piece pieces ih =>
    cases pieces with
    | nil => simp [List.intercalate]
    | cons second later =>
      rw [List.flatMap_cons, ← ih (List.cons_ne_nil _ _)]
      simp [List.intercalate, List.intersperse]

/-- **An event sends its diff** when it ends. -/
theorem Lenient.flushSseData_event (lenient : Lenient decode)
    (spelled : decode (eventText event) = some diff) (sent : List OverlayDiff) :
    flushSseData decode
        { sseData := (event.filterMap fun line => line.kind.received).foldl pushData [],
          sent := sent } = { sent := sent ++ [diff] } := by
  have some_ : (event.filterMap fun line => line.kind.piece) ≠ [] := by
    intro none_
    unfold eventText at spelled
    rw [none_] at spelled
    rcases lenient.opens spelled with head | head <;> cases head
  have fed := lenient.fed spelled
  unfold eventText at fed
  rw [← List.cons_append, feed_intercalate some_] at fed
  have replaced := lenient.foldl_received [] fed
  have same := trim_foldl_pushData (event.filterMap fun line => line.kind.received)
  unfold flushSseData
  split_ifs with none_
  · exfalso
    dsimp only at none_
    rw [none_] at same
    rcases lenient.opens replaced with head | head <;> rw [List.nil_append, ← same] at head <;>
      cases head
  · rw [lenient.sendDiffPayload_eq same replaced]

end Events

/-! ### The stream -/

section Runs

variable {decode : List Char → Option OverlayDiff} {lines : List WireLine}
  {diffs : List OverlayDiff}

theorem Lenient.flushSseData_first (lenient : Lenient decode) (carried : Carried decode lines diffs)
    (closed : ∀ line ∈ lines.head?, ¬line.kind.Inside) (s : Stream) :
    flushSseData decode ((lines.map WireLine.raw).foldl (processStreamLine decode) s) =
      flushSseData decode ((lines.map WireLine.raw).foldl (processStreamLine decode)
        (flushSseData decode s)) := by
  cases carried with
  | done => exact (flushSseData_flushSseData s).symm
  | @idle line lines diffs nothing later =>
    have outside := closed line rfl
    cases is : line.kind with
    | aside field known text => rw [is] at outside; exact absurd trivial outside
    | data space piece => rw [is] at nothing; exact nothing.elim
    | plain text => rw [is] at nothing; exact nothing.elim
    | blank =>
      rw [List.map_cons, List.foldl_cons, List.foldl_cons, processStreamLine_blank is,
        processStreamLine_blank is, flushSseData_flushSseData]
  | plain spelled later =>
    rw [List.map_cons, List.foldl_cons, List.foldl_cons,
      lenient.processStreamLine_plain rfl spelled, lenient.processStreamLine_plain rfl spelled,
      flushSseData_flushSseData]
  | @event event lines diff diffs inside spelled ended later =>
    cases event with
    | nil => rcases lenient.opens spelled with head | head <;> cases head
    | cons line event => exact absurd (inside line List.mem_cons_self) (closed line rfl)

/-- **The lines of a stream send the diffs they carry.** -/
theorem Lenient.sent_of_carried (lenient : Lenient decode) (carried : Carried decode lines diffs)
    (s : Stream) (none_ : s.sseData = []) :
    (flushSseData decode ((lines.map WireLine.raw).foldl (processStreamLine decode) s)).sent =
      s.sent ++ diffs := by
  induction carried generalizing s with
  | done => rw [List.append_nil]; exact congrArg Stream.sent (flushSseData_of_nil none_)
  | @idle line lines diffs nothing later ih =>
    have same : processStreamLine decode s line.raw = s := by
      cases is : line.kind with
      | aside field known text => exact processStreamLine_aside is s
      | data space piece => rw [is] at nothing; exact nothing.elim
      | plain text => rw [is] at nothing; exact nothing.elim
      | blank => rw [processStreamLine_blank is, flushSseData_of_nil none_]
    rw [List.map_cons, List.foldl_cons, same]
    exact ih s none_
  | @plain text crlf diff lines diffs spelled later ih =>
    have sent := ih { s with sent := s.sent ++ [diff] } none_
    rw [List.append_assoc, List.singleton_append] at sent
    rw [List.map_cons, List.foldl_cons, lenient.processStreamLine_plain rfl spelled,
      flushSseData_of_nil none_]
    exact sent
  | @event event lines diff diffs inside spelled closed later ih =>
    rw [List.map_append, List.foldl_append, foldl_inside inside, none_,
      lenient.flushSseData_first later closed, lenient.flushSseData_event spelled,
      ih _ rfl, List.append_assoc, List.singleton_append]

theorem streamDiffs_eq (chunks : List (List UInt8)) :
    streamDiffs decode chunks =
      (flushSseData decode (((LineBuffer.takeLines 10 chunks.flatten).1 ++
        [(LineBuffer.takeLines 10 chunks.flatten).2]).foldl (processStreamLine decode) {})).sent := by
  unfold streamDiffs
  rw [LineBuffer.foldl_receive, List.foldl_append, List.foldl_cons, List.foldl_nil]
  dsimp only
  split_ifs with none_
  · have ends (s : Stream) : processStreamLine decode s [] = flushSseData decode s := rfl
    rw [none_, ends, flushSseData_flushSseData]
  · rfl

theorem notMem_raw {line : WireLine} (oneLine : '\n' ∉ line.kind.text) : 10 ∉ line.raw := by
  unfold WireLine.raw
  rw [List.mem_append, not_or]
  constructor
  · intro member
    obtain ⟨c, listed, encoded⟩ := List.mem_flatMap.mp member
    rcases Nat.lt_or_ge c.toNat 128 with ascii | wide
    · rw [ByteCursor.utf8EncodeChar_ascii ascii, List.mem_singleton] at encoded
      have same : c.toNat = 10 := by
        rw [← ByteCursor.toNat_toUInt8 ascii, ← encoded]
        rfl
      exact oneLine (Char.toNat_inj.mp (same.trans (by rfl : 10 = '\n'.toNat)) ▸ listed)
    · exact absurd (ByteCursor.le_toNat_of_mem wide encoded) (by decide)
  · split
    · decide
    · exact List.not_mem_nil

theorem exists_takeLines_of_written (oneLine : ∀ line ∈ lines, '\n' ∉ line.kind.text)
    {text : List UInt8} (written : Written lines text) :
    ∃ rest, (LineBuffer.takeLines 10 text).1 ++ [(LineBuffer.takeLines 10 text).2] =
      lines.map WireLine.raw ++ rest ∧ (rest = [] ∨ rest = [[]]) := by
  have whole (lines : List WireLine) :
      render lines = (lines.map WireLine.raw).flatMap (· ++ [10]) := by
    rw [List.flatMap_map]
    rfl
  have free (some_ : List WireLine) (inside : ∀ line ∈ some_, line ∈ lines) :
      ∀ line ∈ some_.map WireLine.raw, 10 ∉ line := by
    intro line member
    obtain ⟨written, listed, rfl⟩ := List.mem_map.mp member
    exact notMem_raw (oneLine written (inside written listed))
  rcases written with closed | missing
  · refine ⟨[[]], ?_, .inr rfl⟩
    have taken := LineBuffer.takeLines_flatMap (free lines fun _ member => member) ([] : List UInt8)
    rw [List.append_nil, ← whole, ← closed] at taken
    rw [taken]
    exact congrArg (· ++ [[]]) (List.append_nil _)
  · refine ⟨[], ?_, .inl rfl⟩
    rcases List.eq_nil_or_concat lines with rfl | ⟨front, last, rfl⟩
    · cases List.append_ne_nil_of_right_ne_nil text (List.cons_ne_nil 10 []) missing
    · have split_ : text = (front.map WireLine.raw).flatMap (· ++ [10]) ++ last.raw := by
        unfold render at missing
        rw [List.concat_eq_append, List.flatMap_append, List.flatMap_singleton,
          ← List.append_assoc] at missing
        rw [List.append_cancel_right missing]
        exact congrArg (· ++ last.raw) (whole front)
      have taken := LineBuffer.takeLines_flatMap
        (free front fun _ member => by simp [member]) last.raw
      rw [LineBuffer.takeLines_of_notMem (notMem_raw (oneLine last (by simp))), ← split_,
        List.append_nil] at taken
      rw [taken, List.concat_eq_append, List.map_append, List.append_nil]
      rfl

/-- **The framing does not depend on the chunks.** Lines that carry diffs, with or without the last
line feed, are read as these diffs, in order and each once, however their bytes are cut. -/
theorem streamDiffs_of_carried (lenient : Lenient decode) (carried : Carried decode lines diffs)
    (oneLine : ∀ line ∈ lines, '\n' ∉ line.kind.text) (chunks : List (List UInt8))
    (written : Written lines chunks.flatten) : streamDiffs decode chunks = diffs := by
  obtain ⟨rest, taken, last⟩ := exists_takeLines_of_written oneLine written
  have sent := lenient.sent_of_carried carried {} rfl
  rw [streamDiffs_eq, taken, List.foldl_append]
  rcases last with rfl | rfl
  · exact sent
  · have ends (s : Stream) : processStreamLine decode s [] = flushSseData decode s := rfl
    rw [List.foldl_cons, List.foldl_nil, ends, flushSseData_flushSseData]
    exact sent

end Runs

/-! ### A stream of two diffs -/

def dense (text : List Char) : List Char :=
  text.filter (! Blanks.isWhitespace ·)

def emptyDiffText (revision : Char) : List Char :=
  "\x7b\"revision\":".toList ++ revision :: ",\"added\":[],\"removed\":[],\"updated\":[]\x7d".toList

/-- A decoder that knows two diffs. -/
def twoDiffs (text : List Char) : Option OverlayDiff :=
  if dense text = emptyDiffText '1' then some { revision := 1 }
  else if dense text = emptyDiffText '2' then some { revision := 2 }
  else none

theorem dense_append (front rest : List Char) : dense (front ++ rest) = dense front ++ dense rest :=
  List.filter_append _ _

theorem dense_of_blank {blanks : List Char}
    (blank : ∀ c ∈ blanks, Blanks.isWhitespace c = true) : dense blanks = [] :=
  List.filter_eq_nil_iff.mpr fun c member => by simp [blank c member]

theorem dense_trim (text : List Char) : dense (trim text) = dense text := by
  obtain ⟨blanks, whole, blank⟩ :=
    Blanks.exists_eq_trimEnd_append (text.dropWhile Blanks.isWhitespace)
  have front : dense (text.takeWhile Blanks.isWhitespace) = [] :=
    dense_of_blank fun c member => List.mem_takeWhile_imp member
  have behind : text.dropWhile Blanks.isWhitespace = trim text ++ blanks := whole
  conv_rhs => rw [← List.takeWhile_append_dropWhile (p := Blanks.isWhitespace) (l := text)]
  rw [dense_append, front, List.nil_append, behind, dense_append, dense_of_blank blank,
    List.append_nil]

theorem head?_trim_eq (text : List Char) : (trim text).head? = (dense text).head? := by
  rw [← dense_trim]
  cases begins : trim text with
  | nil => rfl
  | cons c rest =>
    have dark : Blanks.isWhitespace c = false := by
      have stays := List.head?_dropWhile_not Blanks.isWhitespace text
      obtain ⟨blanks, whole, -⟩ :=
        Blanks.exists_eq_trimEnd_append (text.dropWhile Blanks.isWhitespace)
      have front : text.dropWhile Blanks.isWhitespace = c :: (rest ++ blanks) := by
        rw [whole, ← List.cons_append, ← begins]
        rfl
      rw [front] at stays
      simpa using stays
    unfold dense
    rw [List.filter_cons_of_pos (by rw [dark]; rfl)]
    rfl

theorem lenient_twoDiffs : Lenient twoDiffs := by
  have same {text text' : List Char} (dense_ : dense text' = dense text) :
      twoDiffs text' = twoDiffs text := by
    unfold twoDiffs
    rw [dense_]
  refine ⟨?_, ?_, ?_, ?_, ?_⟩
  · intro text diff spelled
    left
    rw [head?_trim_eq]
    unfold twoDiffs at spelled
    split_ifs at spelled with one two
    · rw [one]; rfl
    · rw [two]; rfl
  · intro text diff spelled
    rw [← spelled]
    refine same ?_
    have feed : dense ['\n'] = [] := rfl
    rw [← List.singleton_append, dense_append, dense_append, feed, List.nil_append,
      List.append_nil]
  · intro text diff spelled
    rw [← spelled]
    exact same (dense_trim text)
  · intro front rest diff spelled
    rw [← spelled]
    refine same ?_
    rw [dense_append, dense_append]
    rfl
  · intro front rest diff spelled
    rw [← spelled]
    refine same ?_
    rw [dense_append, dense_append]
    rfl

def twoFramings : List WireLine :=
  [⟨.data true "\x7b\"revision\":1,".toList, true⟩,
    ⟨.aside ":" (by decide) " alive".toList, false⟩,
    ⟨.data false "\"added\":[],\"removed\":[],\"updated\":[]\x7d".toList, true⟩,
    ⟨.blank, true⟩, ⟨.plain (emptyDiffText '2'), false⟩]

theorem carried_twoFramings :
    Carried twoDiffs twoFramings [{ revision := 1 }, { revision := 2 }] :=
  show Carried twoDiffs (twoFramings.take 3 ++ twoFramings.drop 3) _ from
    .event (by
      intro line member
      simp only [twoFramings, List.take_succ_cons, List.take_zero, List.mem_cons,
        List.not_mem_nil, or_false] at member
      rcases member with rfl | rfl | rfl <;> trivial)
    (by decide +kernel) (fun line first inside => by cases first; exact inside)
    (.idle trivial (.plain (by decide +kernel) .done))

theorem streamDiffs_of_carried_two :
    streamDiffs twoDiffs [(render twoFramings).take 9, ((render twoFramings).drop 9).dropLast] =
      [{ revision := 1 }, { revision := 2 }] :=
  streamDiffs_of_carried lenient_twoDiffs carried_twoFramings (by decide +kernel) _
    (.inr (by decide +kernel))

end Lain.Server.StreamFraming
