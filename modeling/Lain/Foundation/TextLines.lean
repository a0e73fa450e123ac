import Mathlib

/-!
# Text lines

A file of lines, as bytes, and how a buffered reader takes it apart: at line feeds, with
a carriage return before one dropped, up to the first line that is not UTF-8.
-/

namespace Lain.Foundation.TextLines

abbrev FileBytes := List UInt8

def utf8 (s : String) : FileBytes :=
  s.toList.flatMap String.utf8EncodeChar

/-- The text of some bytes, if they are UTF-8. -/
def textOf (bytes : FileBytes) : Option String :=
  String.fromUTF8? bytes.toByteArray

def pieces : FileBytes → List (FileBytes × Bool)
  | [] => []
  | b :: rest =>
    if b = 10 then ([], true) :: pieces rest
    else
      match pieces rest with
      | [] => [([b], false)]
      | (piece, ended) :: later => (b :: piece, ended) :: later

def trimReturn (piece : FileBytes × Bool) : FileBytes :=
  if piece.2 && piece.1.getLast? = some 13 then piece.1.dropLast else piece.1

def readLines (bytes : FileBytes) : List String :=
  (((pieces bytes).map fun piece => textOf (trimReturn piece)).takeWhile Option.isSome).reduceOption

@[simp] theorem utf8_append (s t : String) : utf8 (s ++ t) = utf8 s ++ utf8 t := by
  rw [utf8, utf8, utf8, String.toList_append, List.flatMap_append]

theorem textOf_utf8 (s : String) : textOf (utf8 s) = some s := by
  have bytes : (utf8 s).toByteArray = s.toByteArray := String.utf8Encode_toList
  unfold textOf String.fromUTF8?
  rw [bytes, dif_pos s.isValidUTF8]
  rfl

theorem mem_utf8 {s : String} {b : UInt8} (ascii : b.toNat < 128) (member : b ∈ utf8 s) :
    ∃ c ∈ s.toList, c.toNat = b.toNat := by
  obtain ⟨c, listed, encoded⟩ := List.mem_flatMap.mp member
  refine ⟨c, listed, ?_⟩
  unfold String.utf8EncodeChar at encoded
  have size : c.val.toNat < 0x110000 := by
    rcases c.valid with small | ⟨-, large⟩
    · exact lt_trans small (by decide)
    · exact large
  simp only at encoded
  split_ifs at encoded with one two three
  · rw [List.mem_singleton.mp encoded]
    change c.val.toNat = _
    rw [UInt8.toNat_ofNat']
    omega
  all_goals
    exfalso
    simp only [List.mem_cons, List.not_mem_nil, or_false] at encoded
    rcases encoded with rfl | rfl | rfl | rfl <;> 
      simp only [UInt8.toNat_ofNat'] at ascii <;> omega

theorem pieces_line {line : FileBytes} (whole : 10 ∉ line) (rest : FileBytes) :
    pieces (line ++ 10 :: rest) = (line, true) :: pieces rest := by
  induction line with
  | nil => rw [List.nil_append, pieces, if_pos rfl]
  | cons b line ih =>
    obtain ⟨other, whole⟩ := not_or.mp (mt List.mem_cons.mpr whole)
    rw [List.cons_append, pieces, if_neg (Ne.symm other), ih whole]

theorem pieces_of_notMem {bytes : FileBytes} (whole : 10 ∉ bytes) (some_ : bytes ≠ []) :
    pieces bytes = [(bytes, false)] := by
  induction bytes with
  | nil => exact absurd rfl some_
  | cons b bytes ih =>
    obtain ⟨other, whole⟩ := not_or.mp (mt List.mem_cons.mpr whole)
    rw [pieces, if_neg (Ne.symm other)]
    cases bytes with
    | nil => rfl
    | cons c rest => rw [ih whole (List.cons_ne_nil c rest)]

theorem notMem_utf8 {s : String} {c : Char} (free : c ∉ s.toList) (small : c.toNat < 128) :
    UInt8.ofNat c.toNat ∉ utf8 s := by
  intro member
  have byte : (UInt8.ofNat c.toNat).toNat = c.toNat := by
    rw [UInt8.toNat_ofNat']
    omega
  obtain ⟨d, listed, same⟩ := mem_utf8 (by rw [byte]; exact small) member
  exact free (Char.toNat_inj.mp (same.trans byte) ▸ listed)

def dropReturn (text : List Char) : List Char :=
  if text.getLast? = some '\r' then text.dropLast else text

theorem dropReturn_of_notMem {text : List Char} (free : '\r' ∉ text) : dropReturn text = text :=
  if_neg fun last => free (List.mem_of_getLast? last)

theorem trimReturn_utf8 (text : String) :
    trimReturn (utf8 text, true) = utf8 (String.ofList (dropReturn text.toList)) := by
  obtain ⟨chars, rfl⟩ : ∃ chars, text = String.ofList chars := ⟨text.toList, by simp⟩
  rw [String.toList_ofList]
  rcases List.eq_nil_or_concat chars with rfl | ⟨front, c, rfl⟩
  · rfl
  rw [List.concat_eq_append]
  have split_ : utf8 (String.ofList (front ++ [c])) =
      utf8 (String.ofList front) ++ String.utf8EncodeChar c := by
    simp [utf8]
  unfold trimReturn dropReturn
  dsimp only
  rw [split_, List.getLast?_concat]
  by_cases ends : c = '\r'
  · have byte : String.utf8EncodeChar c = [13] := by rw [ends]; rfl
    rw [byte, List.getLast?_concat, if_pos (by simp), if_pos (by rw [ends]), List.dropLast_concat,
      List.dropLast_concat]
  · have single : String.utf8EncodeChar c = utf8 (String.ofList [c]) := by simp [utf8]
    have other : (13 : UInt8) ∉ utf8 (String.ofList [c]) :=
      notMem_utf8 (c := '\r') (by simp [Ne.symm ends]) (by decide)
    have some_ : String.utf8EncodeChar c ≠ [] := by simp
    have kept : (utf8 (String.ofList front) ++ String.utf8EncodeChar c).getLast? ≠ some 13 := by
      rw [List.getLast?_append_of_ne_nil _ some_]
      exact fun last => other (single ▸ List.mem_of_getLast? last)
    have stays : (some c : Option Char) ≠ some '\r' := fun same => ends (Option.some_inj.mp same)
    rw [if_neg (by simpa using kept), if_neg stays]
    exact split_.symm

theorem readLines_textLine {text : String} (oneLine : '\n' ∉ text.toList) (rest : FileBytes) :
    readLines (utf8 text ++ 10 :: rest) =
      String.ofList (dropReturn text.toList) :: readLines rest := by
  unfold readLines
  rw [pieces_line (notMem_utf8 oneLine (by decide)), List.map_cons, trimReturn_utf8, textOf_utf8,
    List.takeWhile_cons_of_pos rfl, List.reduceOption_cons_of_some]

theorem readLines_of_notMem {text : String} (oneLine : '\n' ∉ text.toList) (some_ : text ≠ "") :
    readLines (utf8 text) = [text] := by
  have filled : utf8 text ≠ [] := by
    intro none_
    have read := textOf_utf8 text
    rw [none_] at read
    exact some_ (Option.some_inj.mp read).symm
  have kept : trimReturn (utf8 text, false) = utf8 text := rfl
  unfold readLines
  rw [pieces_of_notMem (notMem_utf8 oneLine (by decide)) filled, List.map_singleton, kept,
    textOf_utf8]
  rfl

theorem readLines_line {text : String} (oneLine : '\n' ∉ text.toList)
    (noReturn : '\r' ∉ text.toList) (rest : FileBytes) :
    readLines (utf8 text ++ 10 :: rest) = text :: readLines rest := by
  rw [readLines_textLine oneLine, dropReturn_of_notMem noReturn, String.ofList_toList]

/-! ### Lines of a text in memory -/

def textPieces : List Char → List (List Char × Bool)
  | [] => []
  | c :: rest =>
    if c = '\n' then ([], true) :: textPieces rest
    else
      match textPieces rest with
      | [] => [([c], false)]
      | (piece, ended) :: later => (c :: piece, ended) :: later

def lines (text : List Char) : List (List Char) :=
  (textPieces text).map fun piece =>
    if piece.2 && piece.1.getLast? = some '\r' then piece.1.dropLast else piece.1

theorem textPieces_of_notMem {text : List Char} (whole : '\n' ∉ text) (some_ : text ≠ []) :
    textPieces text = [(text, false)] := by
  induction text with
  | nil => exact absurd rfl some_
  | cons c text ih =>
    obtain ⟨other, whole⟩ := not_or.mp (mt List.mem_cons.mpr whole)
    rw [textPieces, if_neg (Ne.symm other)]
    cases text with
    | nil => rfl
    | cons d rest => rw [ih whole (List.cons_ne_nil d rest)]

theorem lines_of_notMem {text : List Char} (whole : '\n' ∉ text) (some_ : text ≠ []) :
    lines text = [text] := by
  unfold lines
  rw [textPieces_of_notMem whole some_]
  rfl

theorem lines_line {line : List Char} (whole : '\n' ∉ line) (rest : List Char) :
    lines (line ++ '\n' :: rest) = dropReturn line :: lines rest := by
  have pieces_ : textPieces (line ++ '\n' :: rest) = (line, true) :: textPieces rest := by
    induction line with
    | nil => rw [List.nil_append, textPieces, if_pos rfl]
    | cons c line ih =>
      obtain ⟨other, whole⟩ := not_or.mp (mt List.mem_cons.mpr whole)
      rw [List.cons_append, textPieces, if_neg (Ne.symm other), ih whole]
  unfold lines dropReturn
  rw [pieces_, List.map_cons]
  simp only [Bool.true_and, decide_eq_true_eq]

theorem textPieces_length_pos (c : Char) (rest : List Char) :
    0 < (textPieces (c :: rest)).length := by
  rw [textPieces]
  split
  · exact Nat.succ_pos _
  · split <;> exact Nat.succ_pos _

theorem count_lt_length_lines (front : List Char) (c : Char) (rest : List Char) :
    front.count '\n' < (lines (front ++ c :: rest)).length := by
  unfold lines
  rw [List.length_map]
  induction front with
  | nil => exact textPieces_length_pos c rest
  | cons d front ih =>
    rw [List.cons_append, textPieces]
    split_ifs with feed
    · rw [feed, List.count_cons_self, List.length_cons]
      exact Nat.succ_lt_succ ih
    · rw [List.count_cons_of_ne (Ne.symm (Ne.symm feed))]
      split
      · next none_ =>
          rw [none_] at ih
          exact absurd ih (Nat.not_lt_zero _)
      · next some_ =>
          rw [some_] at ih
          exact ih

end Lain.Foundation.TextLines
