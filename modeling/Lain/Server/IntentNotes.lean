import Mathlib
import Lain.Foundation.Blanks
import Lain.Foundation.Failing
import Lain.Foundation.Fields
import Lain.Foundation.LossyText

/-!
# Intent notes

An intent's exact status and scopes travel in a trailer of a post's note, the scopes
percent-encoded and joined by commas.
-/

namespace Lain.Server.Intent

open Foundation
open Foundation.ByteCursor (bytes At slice dropBytes takeBytes)
open Foundation.LossyText (fromUtf8Lossy)

def trailerPrefix : List Char := "LAIN-INTENT ".toList

/-- The phase of an intent. -/
inductive IntentStatus where
  | investigating | planning | editing | reviewing | done
  deriving DecidableEq

def IntentStatus.asStr : IntentStatus → String
  | investigating => "investigating"
  | planning => "planning"
  | editing => "editing"
  | reviewing => "reviewing"
  | done => "done"

/-- A phase from a wire form in any case; what is none is planning. -/
def IntentStatus.parse (s : List Char) : IntentStatus :=
  match String.ofList (s.map Char.toLower) with
  | "investigating" => investigating
  | "editing" => editing
  | "reviewing" => reviewing
  | "done" => done
  | _ => planning

/-! ### Percent encoding -/

def isPlain (b : UInt8) : Bool :=
  (97 ≤ b.toNat && b.toNat ≤ 122) || (65 ≤ b.toNat && b.toNat ≤ 90) ||
    (48 ≤ b.toNat && b.toNat ≤ 57) || b.toNat = 45 || b.toNat = 95 || b.toNat = 46

def hexUpper (n : Nat) : Char :=
  if n < 10 then Char.ofNat (48 + n) else Char.ofNat (55 + n)

def encodeByte (b : UInt8) : List Char :=
  if isPlain b then [Char.ofNat b.toNat]
  else ['%', hexUpper (b.toNat / 16), hexUpper (b.toNat % 16)]

/-- A text written with letters, digits, `-`, `_`, `.` and percent signs only. -/
def percentEncode (s : List Char) : List Char :=
  (bytes s).flatMap encodeByte

def hexDigit (c : Char) : Option Nat :=
  if 48 ≤ c.toNat ∧ c.toNat ≤ 57 then some (c.toNat - 48)
  else if 97 ≤ c.toNat ∧ c.toNat ≤ 102 then some (c.toNat - 87)
  else if 65 ≤ c.toNat ∧ c.toNat ≤ 70 then some (c.toNat - 55)
  else none

def byteOfDigits (digits : List Char) : Option UInt8 :=
  (digits.foldlM (fun value c => (hexDigit c).bind fun digit =>
    if value * 16 + digit < 256 then some (value * 16 + digit) else none) 0).map UInt8.ofNat

def fromStrRadix16 : List Char → Option UInt8
  | [] => none
  | ['+'] => none
  | '+' :: digits => byteOfDigits digits
  | digits => byteOfDigits digits

def percentDecodeFrom (s : List Char) (i : Nat) : Option (List UInt8) :=
  if inside : i < (bytes s).length then
    if (bytes s)[i] = 37 ∧ i + 2 < (bytes s).length then
      match slice s (i + 1) (i + 3) with
      | none => none
      | some digits =>
        match fromStrRadix16 digits with
        | some v => (percentDecodeFrom s (i + 3)).map (v :: ·)
        | none => (percentDecodeFrom s (i + 1)).map ((bytes s)[i] :: ·)
    else (percentDecodeFrom s (i + 1)).map ((bytes s)[i] :: ·)
  else some []
termination_by (bytes s).length - i

def percentDecode (s : List Char) : Option (List Char) :=
  (percentDecodeFrom s 0).map fromUtf8Lossy

/-! ### Notes -/

def trailer (status : IntentStatus) (scopes : List String) : List Char :=
  trailerPrefix ++ ("status=".toList ++ status.asStr.toList ++ " scopes=".toList ++
    [','].intercalate (scopes.map fun s => percentEncode s.toList))

/-- A note with its trailer. -/
def encodeNote (noteText : String) (status : IntentStatus) (scopes : List String) : String :=
  if noteText.isEmpty then String.ofList (trailer status scopes)
  else String.ofList (noteText.toList ++ '\n' :: trailer status scopes)

def lastTrailer (note : List Char) : Option (List Char × List Char) :=
  (Text.cutChars trailerPrefix.reverse note.reverse).map fun cut => (cut.2.reverse, cut.1.reverse)

/-- The pieces of a list of scopes that are not empty. -/
def pieces (v : List Char) : List (List Char) :=
  (Text.splitChars ',' v).filter (! ·.isEmpty)

def readPart (found : Option IntentStatus × List String) (part : List Char) :
    Option (Option IntentStatus × List String) :=
  match "status=".toList.isPrefixOf? part with
  | some v => some (some (IntentStatus.parse v), found.2)
  | none =>
    match "scopes=".toList.isPrefixOf? part with
    | some v =>
      ((pieces v).mapM percentDecode).map fun scopes => (found.1, scopes.map String.ofList)
    | none => some found

/-- The text, the phase and the scopes of a note. -/
def decodeNote (note : String) : Option (String × Option IntentStatus × List String) :=
  match lastTrailer note.toList with
  | none => some (note, none, [])
  | some (front, rest) =>
    ((Blanks.splitWhitespace rest).foldlM readPart (none, [])).map fun found =>
      (String.ofList (Blanks.trimEndMatches (· == '\n') front), found.1, found.2)

variable {s rest : List Char} {i : Nat}

/-! ### Reading a percent encoding back -/

theorem percentDecodeFrom_other {b : UInt8} (found : (bytes s)[i]? = some b) (other : b ≠ 37) :
    percentDecodeFrom s i = (percentDecodeFrom s (i + 1)).map (b :: ·) := by
  obtain ⟨inside, same⟩ := List.getElem?_eq_some_iff.mp found
  rw [percentDecodeFrom, dif_pos inside, if_neg fun percent => other (same ▸ percent.1), same]

theorem percentDecodeFrom_end (here : At s i []) : percentDecodeFrom s i = some [] := by
  have whole := here.add_length
  rw [percentDecodeFrom, dif_neg (by simp at whole; omega)]

theorem percentDecodeFrom_run {run : List UInt8} (others : ∀ b ∈ run, b ≠ 37)
    (found : ∀ k, k < run.length → (bytes s)[i + k]? = run[k]?) :
    percentDecodeFrom s i = (percentDecodeFrom s (i + run.length)).map (run ++ ·) := by
  induction run generalizing i with
  | nil => simp
  | cons b run ih =>
    have first : (bytes s)[i]? = some b := found 0 (Nat.succ_pos _)
    have later : ∀ k, k < run.length → (bytes s)[i + 1 + k]? = run[k]? := fun k inside => by
      have next := found (k + 1) (Nat.succ_lt_succ inside)
      rwa [List.getElem?_cons_succ, ← Nat.add_assoc, Nat.add_right_comm] at next
    rw [percentDecodeFrom_other first (others b List.mem_cons_self),
      ih (fun d member => others d (List.mem_cons_of_mem _ member)) later, Option.map_map,
      List.length_cons, Nat.add_assoc i, Nat.add_comm 1]
    rfl

theorem ne_percent_of_mem {c : Char} (other : c ≠ '%') {b : UInt8}
    (member : b ∈ String.utf8EncodeChar c) : b ≠ 37 := by
  rintro rfl
  by_cases wide : 128 ≤ c.toNat
  · exact absurd (ByteCursor.le_toNat_of_mem wide member) (by decide)
  · have narrow : c.toNat < 128 := not_le.mp wide
    rw [ByteCursor.utf8EncodeChar_ascii narrow, List.mem_singleton] at member
    have value := ByteCursor.toNat_toUInt8 narrow
    rw [← member] at value
    exact other (Char.ext (UInt32.toNat_inj.mp value.symm))

theorem percentDecodeFrom_cons {c : Char} (here : At s i (c :: rest)) (other : c ≠ '%') :
    percentDecodeFrom s i =
      (percentDecodeFrom s (i + c.utf8Size)).map (String.utf8EncodeChar c ++ ·) := by
  rw [← String.length_utf8EncodeChar]
  refine percentDecodeFrom_run (fun b => ne_percent_of_mem other) fun k inside => ?_
  rw [here.getElem?, ByteCursor.bytes_cons, List.getElem?_append_left inside]

def SplitsCharacter (after : List Char) : Prop :=
  2 ≤ (bytes after).length ∧ takeBytes after 2 = none

theorem percentDecodeFrom_percent (here : At s i ('%' :: rest)) :
    percentDecodeFrom s i =
      if 2 ≤ (bytes rest).length then
        (takeBytes rest 2).bind fun digits =>
          match fromStrRadix16 digits with
          | some v => (percentDecodeFrom s (i + 3)).map (v :: ·)
          | none => (percentDecodeFrom s (i + 1)).map (37 :: ·)
      else (percentDecodeFrom s (i + 1)).map (37 :: ·) := by
  have inside := here.lt_length
  have next : At s (i + 1) rest := here.next
  have whole := next.add_length
  have percent : (bytes s)[i] = 37 := (here.getElem_eq_iff (d := '%') (by decide) inside).mpr rfl
  have cut : slice s (i + 1) (i + 3) = takeBytes rest 2 := by
    unfold slice
    rw [if_pos (by omega), ByteCursor.dropBytes_eq_some.mpr next, Option.bind_some,
      Nat.add_sub_add_left]
  rw [percentDecodeFrom, dif_pos inside, percent, cut]
  by_cases room : 2 ≤ (bytes rest).length
  · rw [if_pos ⟨rfl, by omega⟩, if_pos room]
    cases takeBytes rest 2 <;> rfl
  · rw [if_neg (fun enough => room (by omega)), if_neg room]

theorem notMem_of_fromStrRadix16 {digits : List Char} {v : UInt8}
    (spelled : fromStrRadix16 digits = some v) : '%' ∉ digits := by
  have none_of (value : Nat) (l : List Char) (member : '%' ∈ l) :
      l.foldlM (fun value c => (hexDigit c).bind fun digit =>
        if value * 16 + digit < 256 then some (value * 16 + digit) else none) value =
        (none : Option Nat) := by
    induction l generalizing value with
    | nil => exact absurd member List.not_mem_nil
    | cons c l ih =>
      rw [List.foldlM_cons]
      rcases List.mem_cons.mp member with rfl | later
      · rfl
      · exact Option.bind_eq_none_iff.mpr fun n _ => ih n later
  intro member
  unfold fromStrRadix16 at spelled
  split at spelled
  · cases spelled
  · cases spelled
  · next digits _ =>
      rw [byteOfDigits, none_of 0 digits (by simpa using member)] at spelled
      cases spelled
  · rw [byteOfDigits, none_of 0 _ member] at spelled
    cases spelled

/-- A percent sign of a text stands before a split character. -/
def HasSplit (text : List Char) : Prop :=
  ∃ after, '%' :: after <:+ text ∧ SplitsCharacter after

theorem hasSplit_cons {c : Char} :
    HasSplit (c :: rest) ↔ c = '%' ∧ SplitsCharacter rest ∨ HasSplit rest := by
  unfold HasSplit
  constructor
  · rintro ⟨after, inside, splits⟩
    rcases List.suffix_cons_iff.mp inside with whole | later
    · obtain ⟨rfl, rfl⟩ := List.cons.inj whole
      exact .inl ⟨rfl, splits⟩
    · exact .inr ⟨after, later, splits⟩
  · rintro (⟨rfl, splits⟩ | ⟨after, inside, splits⟩)
    · exact ⟨rest, List.suffix_rfl, splits⟩
    · exact ⟨after, List.suffix_cons_iff.mpr (.inr inside), splits⟩

theorem hasSplit_append {front : List Char} (free : '%' ∉ front) :
    HasSplit (front ++ rest) ↔ HasSplit rest := by
  induction front with
  | nil => rfl
  | cons c front ih =>
    obtain ⟨other, free⟩ := not_or.mp (mt List.mem_cons.mpr free)
    rw [List.cons_append, hasSplit_cons, ih free]
    exact or_iff_right fun here => other here.1.symm

theorem percentDecodeFrom_eq_none_iff (here : At s i rest) :
    percentDecodeFrom s i = none ↔ HasSplit rest := by
  -- Induction on the characters left, since a spelled byte takes three of them at once.
  induction size : rest.length using Nat.strong_induction_on generalizing i rest with
  | _ n ih =>
    subst size
    cases rest with
    | nil =>
      rw [percentDecodeFrom_end here]
      refine iff_of_false (by simp) ?_
      rintro ⟨after, inside, -⟩
      exact absurd (List.suffix_nil.mp inside) (by simp)
    | cons c rest =>
      have later := ih rest.length (Nat.lt_succ_self _) here.next rfl
      rw [hasSplit_cons]
      by_cases percent : c = '%'
      · subst percent
        have next : percentDecodeFrom s (i + 1) = none ↔ HasSplit rest := later
        rw [percentDecodeFrom_percent here]
        by_cases room : 2 ≤ (bytes rest).length
        · rw [if_pos room]
          cases taken : takeBytes rest 2 with
          | none => exact iff_of_true rfl (.inl ⟨rfl, room, taken⟩)
          | some digits =>
            have whole : ¬('%' = '%' ∧ SplitsCharacter rest) := fun splits =>
              absurd (taken.symm.trans splits.2.2) (by simp)
            rw [Option.bind_some, or_iff_right whole]
            cases spelled : fromStrRadix16 digits with
            | none => rw [Option.map_eq_none_iff, next]
            | some v =>
              obtain ⟨back, rfl, width⟩ := ByteCursor.exists_append_of_takeBytes taken
              have there : At s (i + 1 + (bytes digits).length) back :=
                At.append here.next
              rw [width] at there
              rw [Option.map_eq_none_iff,
                hasSplit_append (notMem_of_fromStrRadix16 spelled)]
              refine ih back.length ?_ there rfl
              rw [List.length_cons, List.length_append]
              omega
        · rw [if_neg room, Option.map_eq_none_iff, next]
          exact (or_iff_right fun splits => room splits.2.1).symm
      · rw [percentDecodeFrom_cons here percent, Option.map_eq_none_iff, later]
        exact (or_iff_right fun splits => percent splits.1).symm

theorem percentDecode_eq_none_iff : percentDecode s = none ↔ HasSplit s := by
  unfold percentDecode
  rw [Option.map_eq_none_iff, percentDecodeFrom_eq_none_iff (ByteCursor.at_zero s)]

theorem fromStrRadix16_hexUpper (b : UInt8) :
    fromStrRadix16 [hexUpper (b.toNat / 16), hexUpper (b.toNat % 16)] = some b := by
  have all : ∀ n < 256,
      fromStrRadix16 [hexUpper (n / 16), hexUpper (n % 16)] = some (UInt8.ofNat n) := by
    decide +kernel
  rw [all b.toNat b.toNat_lt, UInt8.ofNat_toNat]

theorem toNat_of_isPlain {b : UInt8} (plain : isPlain b = true) :
    (Char.ofNat b.toNat).toNat = b.toNat ∧ b.toNat < 128 ∧ b ≠ 37 := by
  have all : ∀ n < 256, isPlain (UInt8.ofNat n) = true →
      (Char.ofNat n).toNat = n ∧ n < 128 ∧ UInt8.ofNat n ≠ 37 := by
    decide +kernel
  have this := all b.toNat b.toNat_lt
  rw [UInt8.ofNat_toNat] at this
  exact this plain

theorem hexUpper_lt (n : Nat) (small : n < 16) : (hexUpper n).toNat < 128 := by
  have all : ∀ n < 16, (hexUpper n).toNat < 128 := by decide
  exact all n small

theorem percentDecodeFrom_encodeByte {b : UInt8} (here : At s i (encodeByte b ++ rest)) :
    ∃ j, At s j rest ∧ percentDecodeFrom s i = (percentDecodeFrom s j).map (b :: ·) := by
  unfold encodeByte at here
  split_ifs at here with plain
  · obtain ⟨value, narrow, other⟩ := toNat_of_isPlain plain
    have ascii : (Char.ofNat b.toNat).toNat < 128 := by omega
    have found := here.ascii ascii
    have same : (Char.ofNat b.toNat).val.toUInt8 = b :=
      UInt8.toNat_inj.mp ((ByteCursor.toNat_toUInt8 ascii).trans value)
    rw [same] at found
    refine ⟨_, here.next, ?_⟩
    rw [ByteCursor.utf8Size_ascii ascii, percentDecodeFrom_other found other]
  · have high := hexUpper_lt (b.toNat / 16) (by have := b.toNat_lt; omega)
    have low := hexUpper_lt (b.toNat % 16) (by omega)
    have width : (bytes [hexUpper (b.toNat / 16), hexUpper (b.toNat % 16)]).length = 2 := by
      simp [ByteCursor.utf8EncodeChar_ascii high, ByteCursor.utf8EncodeChar_ascii low]
    have next : At s (i + 1) ([hexUpper (b.toNat / 16), hexUpper (b.toNat % 16)] ++ rest) :=
      here.next
    have there := next.append
    have taken := ByteCursor.takeBytes_append
      [hexUpper (b.toNat / 16), hexUpper (b.toNat % 16)] rest
    rw [width] at there taken
    have room : 2 ≤ (bytes ([hexUpper (b.toNat / 16), hexUpper (b.toNat % 16)] ++ rest)).length := by
      rw [ByteCursor.bytes_append, List.length_append, width]
      exact Nat.le_add_right _ _
    have whole : At s i ('%' :: ([hexUpper (b.toNat / 16), hexUpper (b.toNat % 16)] ++ rest)) := here
    refine ⟨_, there, ?_⟩
    rw [percentDecodeFrom_percent whole, if_pos room, taken, Option.bind_some,
      fromStrRadix16_hexUpper]

/-- **What was written is read back.** -/
theorem percentDecode_percentEncode (text : List Char) :
    percentDecode (percentEncode text) = some text := by
  have all (l : List UInt8) : ∀ {i}, At (percentEncode text) i (l.flatMap encodeByte) →
      percentDecodeFrom (percentEncode text) i = some l := by
    induction l with
    | nil => exact percentDecodeFrom_end
    | cons b l ih =>
      intro i here
      rw [List.flatMap_cons] at here
      obtain ⟨j, there, same⟩ := percentDecodeFrom_encodeByte here
      rw [same, ih there, Option.map_some]
  unfold percentDecode
  rw [all (bytes text) (ByteCursor.at_zero _), Option.map_some, LossyText.fromUtf8Lossy_bytes]

/-! ### Reading a trailer back -/

theorem of_mem_encodeByte {b : UInt8} {c : Char} (member : c ∈ encodeByte b) :
    Blanks.isWhitespace c = false ∧ c ≠ ',' := by
  have all : ∀ n < 256, (encodeByte (UInt8.ofNat n)).all
      (fun c => !Blanks.isWhitespace c && c != ',') = true := by
    decide +kernel
  have this := List.all_eq_true.mp (all b.toNat b.toNat_lt)
  rw [UInt8.ofNat_toNat] at this
  simpa using this c member

theorem of_mem_percentEncode {c : Char} (member : c ∈ percentEncode s) :
    Blanks.isWhitespace c = false ∧ c ≠ ',' := by
  obtain ⟨b, -, inside⟩ := List.mem_flatMap.mp member
  exact of_mem_encodeByte inside

theorem percentEncode_eq_nil_iff : percentEncode s = [] ↔ s = [] := by
  refine ⟨fun empty => ?_, fun empty => by rw [empty]; rfl⟩
  have back := percentDecode_percentEncode s
  rw [empty] at back
  have none : percentDecode [] = some [] := percentDecode_percentEncode []
  exact (Option.some_inj.mp (none.symm.trans back)).symm

def scopeList (scopes : List String) : List Char :=
  [','].intercalate (scopes.map fun s => percentEncode s.toList)

theorem pieces_scopeList (scopes : List String) :
    pieces (scopeList scopes) =
      (scopes.filter (! ·.isEmpty)).map fun s => percentEncode s.toList := by
  unfold pieces scopeList
  rw [Text.splitChars_eq]
  cases scopes with
  | nil => rfl
  | cons scope scopes =>
    rw [List.splitOn_intercalate]
    · rw [List.filter_map]
      congr 1
      refine List.filter_congr fun s _ => ?_
      have same : (percentEncode s.toList).isEmpty = s.isEmpty := by
        rw [Bool.eq_iff_iff, List.isEmpty_iff, percentEncode_eq_nil_iff, String.isEmpty_iff,
          String.toList_eq_nil_iff]
      rw [Function.comp_apply, same]
    · intro piece member comma
      obtain ⟨s, -, rfl⟩ := List.mem_map.mp member
      exact (of_mem_percentEncode comma).2 rfl
    · simp

theorem mapM_pieces_scopeList (scopes : List String) :
    (pieces (scopeList scopes)).mapM percentDecode =
      some ((scopes.filter (! ·.isEmpty)).map String.toList) := by
  rw [pieces_scopeList, mapM_eq_some_iff, List.forall₂_map_left_iff, List.forall₂_map_right_iff,
    List.forall₂_same]
  exact fun s _ => percentDecode_percentEncode s.toList

theorem parse_asStr (status : IntentStatus) : IntentStatus.parse status.asStr.toList = status := by
  cases status <;> decide

theorem of_mem_asStr {status : IntentStatus} {c : Char} (member : c ∈ status.asStr.toList) :
    Blanks.isWhitespace c = false ∧ c ≠ 'T' := by
  have all : status.asStr.toList.all (fun c => !Blanks.isWhitespace c && c != 'T') = true := by
    cases status <;> decide +kernel
  simpa using List.all_eq_true.mp all c member

theorem of_mem_scopeList {scopes : List String} {c : Char} (member : c ∈ scopeList scopes) :
    Blanks.isWhitespace c = false := by
  unfold scopeList at member
  induction scopes with
  | nil => exact absurd member List.not_mem_nil
  | cons s scopes ih =>
    cases scopes with
    | nil =>
      rw [List.map_singleton, List.intercalate_singleton] at member
      exact (of_mem_percentEncode member).1
    | cons t scopes =>
      rw [List.map_cons, List.map_cons, List.intercalate_cons_cons, List.append_assoc,
        List.mem_append, List.mem_append] at member
      rcases member with inside | comma | later
      · exact (of_mem_percentEncode inside).1
      · rw [List.mem_singleton.mp comma]
        decide
      · exact ih later

def statusPart (status : IntentStatus) : List Char :=
  "status=".toList ++ status.asStr.toList

def scopesPart (scopes : List String) : List Char :=
  "scopes=".toList ++ scopeList scopes

theorem free_statusPart {status : IntentStatus} {c : Char} (member : c ∈ statusPart status) :
    Blanks.isWhitespace c = false := by
  rcases List.mem_append.mp member with word | listed
  · have all : "status=".toList.all (! Blanks.isWhitespace ·) = true := by decide +kernel
    simpa using List.all_eq_true.mp all c word
  · exact (of_mem_asStr listed).1

theorem free_scopesPart {scopes : List String} {c : Char} (member : c ∈ scopesPart scopes) :
    Blanks.isWhitespace c = false := by
  rcases List.mem_append.mp member with word | listed
  · have all : "scopes=".toList.all (! Blanks.isWhitespace ·) = true := by decide +kernel
    simpa using List.all_eq_true.mp all c word
  · exact of_mem_scopeList listed

theorem trailer_eq (status : IntentStatus) (scopes : List String) :
    trailer status scopes =
      trailerPrefix ++ (statusPart status ++ ' ' :: scopesPart scopes) := by
  unfold trailer statusPart scopesPart scopeList
  simp [List.append_assoc]

theorem splitWhitespace_parts (status : IntentStatus) (scopes : List String) :
    Blanks.splitWhitespace (statusPart status ++ ' ' :: scopesPart scopes) =
      [statusPart status, scopesPart scopes] := by
  have first : statusPart status ≠ [] := List.append_ne_nil_of_left_ne_nil (by decide) _
  have second : scopesPart scopes ≠ [] := List.append_ne_nil_of_left_ne_nil (by decide) _
  rw [Blanks.splitWhitespace_append first (fun _ => free_statusPart) (by decide),
    Blanks.splitWhitespace_of_free second fun _ => free_scopesPart]

theorem cutChars_skip {c : Char} {pattern front : List Char} (free : c ∉ front)
    (after : List Char) :
    Text.cutChars (c :: pattern) (front ++ after) =
      (Text.cutChars (c :: pattern) after).map fun cut => (front ++ cut.1, cut.2) := by
  induction front with
  | nil => simp
  | cons x front ih =>
    obtain ⟨other, free⟩ := not_or.mp (mt List.mem_cons.mpr free)
    have unmatched : (c :: pattern).isPrefixOf? (x :: (front ++ after)) = none := by
      simp [List.isPrefixOf?, other]
    rw [List.cons_append, Text.cutChars, unmatched, ih free]
    simp only [Option.map_map]
    rfl

theorem lastTrailer_append (front : List Char) (status : IntentStatus) (scopes : List String) :
    lastTrailer (front ++ trailer status scopes) =
      some (front, statusPart status ++ ' ' :: scopesPart scopes) := by
  -- Read from the end: the first blank is before the scopes, and no prefix ends there.
  have noBlank {part : List Char} (free : ∀ c ∈ part, Blanks.isWhitespace c = false) :
      ' ' ∉ part.reverse := fun blank =>
    absurd (free ' ' (List.mem_reverse.mp blank)) (by decide)
  obtain ⟨word, spelled⟩ : ∃ word, trailerPrefix.reverse = ' ' :: 'T' :: word :=
    ⟨"NETNI-NIAL".toList, by decide⟩
  have last : ∃ c before, (statusPart status).reverse = c :: before ∧ c ≠ 'T' := by
    unfold statusPart
    cases status <;> exact ⟨_, _, rfl, by decide⟩
  obtain ⟨c, before, ends, other⟩ := last
  have unmatched : (' ' :: 'T' :: word).isPrefixOf? (' ' :: (c :: before ++
      (' ' :: 'T' :: word ++ front.reverse))) = none := by
    simp [List.isPrefixOf?, other.symm]
  have whole : (front ++ trailer status scopes).reverse =
      (scopesPart scopes).reverse ++ ' ' :: ((statusPart status).reverse ++
        (' ' :: 'T' :: word ++ front.reverse)) := by
    rw [trailer_eq, ← spelled]
    simp [List.append_assoc]
  unfold lastTrailer
  rw [whole, spelled, cutChars_skip (noBlank fun _ => free_scopesPart), ends, Text.cutChars,
    unmatched, ← ends, Text.cutChars_append_pattern (noBlank fun _ => free_statusPart)]
  simp

theorem isPrefixOf?_append (word after : List Char) :
    word.isPrefixOf? (word ++ after) = some after :=
  List.isPrefixOf?_eq_some_iff_append_eq.mpr rfl

theorem isPrefixOf?_scopesPart (scopes : List String) :
    "status=".toList.isPrefixOf? (scopesPart scopes) = none := by
  have words : "status=".toList = 's' :: 't' :: "atus=".toList ∧
      "scopes=".toList = 's' :: 'c' :: "opes=".toList := by decide
  unfold scopesPart
  rw [words.1, words.2]
  rfl

theorem foldlM_readPart (status : IntentStatus) (scopes : List String) :
    [statusPart status, scopesPart scopes].foldlM readPart (none, []) =
      some (some status, scopes.filter (! ·.isEmpty)) := by
  have first : readPart (none, []) (statusPart status) = some (some status, []) := by
    unfold readPart statusPart
    simp only [isPrefixOf?_append, parse_asStr]
  have second : readPart (some status, []) (scopesPart scopes) =
      some (some status, scopes.filter (! ·.isEmpty)) := by
    unfold readPart
    rw [isPrefixOf?_scopesPart]
    unfold scopesPart
    simp only [isPrefixOf?_append, mapM_pieces_scopeList, Option.map_some, List.map_map,
      Function.comp_def, String.ofList_toList, List.map_id']
  rw [List.foldlM_cons, first, Option.bind_eq_bind, Option.bind_some, List.foldlM_cons, second,
    Option.bind_eq_bind, Option.bind_some, List.foldlM_nil]
  rfl

/-! ### Notes that come back -/

theorem decodeNote_encodeNote {noteText : String} (status : IntentStatus) (scopes : List String)
    (closed : noteText.toList.getLast? ≠ some '\n') :
    decodeNote (encodeNote noteText status scopes) =
      some (noteText, some status, scopes.filter (! ·.isEmpty)) := by
  have front : ∃ front, (encodeNote noteText status scopes).toList =
      front ++ trailer status scopes ∧
        Blanks.trimEndMatches (· == '\n') front = noteText.toList := by
    unfold encodeNote
    split_ifs with empty
    · exact ⟨[], by simp, by rw [String.isEmpty_iff.mp empty]; rfl⟩
    · refine ⟨noteText.toList ++ ['\n'], by simp, ?_⟩
      rw [Blanks.trimEndMatches_concat (by rfl), Blanks.trimEndMatches_of_last]
      intro c last
      exact beq_eq_false_iff_ne.mpr fun same => closed (same ▸ last)
  obtain ⟨front, spelled, body⟩ := front
  unfold decodeNote
  rw [spelled, lastTrailer_append]
  simp only
  rw [splitWhitespace_parts, foldlM_readPart, Option.map_some, body, String.ofList_toList]

def partPieces (part : List Char) : List (List Char) :=
  match "scopes=".toList.isPrefixOf? part with
  | some v => pieces v
  | none => []

/-- The scopes that a note's trailer lists. -/
def scopePieces (note : String) : List (List Char) :=
  match lastTrailer note.toList with
  | none => []
  | some (_, rest) => (Blanks.splitWhitespace rest).flatMap partPieces

theorem partPieces_of_status {part v : List Char}
    (found : "status=".toList.isPrefixOf? part = some v) : partPieces part = [] := by
  have words : "status=".toList = 's' :: 't' :: "atus=".toList ∧
      "scopes=".toList = 's' :: 'c' :: "opes=".toList := by decide
  rw [List.isPrefixOf?_eq_some_iff_append_eq, words.1] at found
  unfold partPieces
  rw [← found, words.2]
  rfl

theorem readPart_eq_none_iff (found : Option IntentStatus × List String) (part : List Char) :
    readPart found part = none ↔ ∃ piece ∈ partPieces part, HasSplit piece := by
  unfold readPart
  cases status : "status=".toList.isPrefixOf? part with
  | some v => simp [partPieces_of_status status]
  | none =>
    unfold partPieces
    cases "scopes=".toList.isPrefixOf? part with
    | some v => simp [mapM_eq_none_iff, percentDecode_eq_none_iff]
    | none => simp

theorem decodeNote_eq_none_iff (note : String) :
    decodeNote note = none ↔ ∃ piece ∈ scopePieces note, HasSplit piece := by
  unfold decodeNote scopePieces
  cases lastTrailer note.toList with
  | none => simp
  | some cut =>
    simp only [Option.map_eq_none_iff]
    rw [foldlM_eq_none_iff readPart_eq_none_iff]
    simp only [List.mem_flatMap, ← exists_and_right, ← exists_and_left, and_assoc]
    rw [exists_comm]

/-- **A note comes back, and any note is read.** What is decoded from an encoded note is what was
encoded exactly when no scope is empty, and a note is read without a failure exactly when no scope
of its trailer has a percent sign before two bytes that end inside a character. -/
theorem comesBack_iff (noteText : String) (status : IntentStatus) (scopes : List String)
    (note : String) (closed : noteText.toList.getLast? ≠ some '\n') :
    (decodeNote (encodeNote noteText status scopes) = some (noteText, some status, scopes) ↔
        "" ∉ scopes) ∧
      (decodeNote note ≠ none ↔ ∀ piece ∈ scopePieces note, ¬HasSplit piece) := by
  constructor
  · rw [decodeNote_encodeNote status scopes closed]
    simp only [Option.some.injEq, Prod.mk.injEq, true_and]
    rw [List.filter_eq_self]
    refine ⟨fun all empty => absurd (all "" empty) (by simp), fun free s member => ?_⟩
    rw [Bool.not_eq_true', ← Bool.not_eq_true, String.isEmpty_iff]
    rintro rfl
    exact free member
  · rw [ne_eq, decodeNote_eq_none_iff]
    simp

theorem comesBack_iff_blank :
    decodeNote (encodeNote "fix" .reviewing ["a, b"]) =
      some ("fix", some .reviewing, ["a, b"]) :=
  (comesBack_iff "fix" .reviewing ["a, b"] "" (by decide)).1.mpr (by decide)

/-- An empty scope is lost, and a note of another program can stop the reader. -/
theorem comesBack_fails :
    decodeNote (encodeNote "" .editing [""]) ≠ some ("", some .editing, [""]) ∧
      decodeNote "LAIN-INTENT scopes=%aé" = none := by
  constructor
  · rw [decodeNote_encodeNote .editing [""] (by decide)]
    decide
  · have listed : ['%', 'a', 'é'] ∈ scopePieces "LAIN-INTENT scopes=%aé" := by decide +kernel
    rw [decodeNote_eq_none_iff]
    exact ⟨_, listed, ['a', 'é'], List.suffix_rfl, by decide +kernel, by decide +kernel⟩

end Lain.Server.Intent
