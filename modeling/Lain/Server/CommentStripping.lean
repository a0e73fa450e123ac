import Mathlib
import Lain.Foundation.LossyText
import Lain.Foundation.TextFilter
import Lain.Foundation.TextLines

/-!
# Comment stripping

Comments are cut out of sources of two kinds, byte by byte: `//` and block comments, with `"` around
string literals, and `#` comments, with three quotes around block strings.
-/

namespace Lain.Server.CommentStripping

open Foundation
open Foundation.ByteCursor (bytes)
open Foundation.TextLines (textOf)

/-- Which comments are recognized. -/
inductive CommentSyntax where
  | cStyle | hashBlockString
  deriving DecidableEq

/-! ### The two walks -/

def blockComment : List UInt8 → List UInt8 × List UInt8
  | [] => ([], [])
  | [b] => (if b = 10 then [b] else [], [])
  | b :: c :: rest =>
    if b = 42 ∧ c = 47 then ([], rest)
    else
      let later := blockComment (c :: rest)
      (if b = 10 then b :: later.1 else later.1, later.2)

/-- A string literal behind its first quote, and what comes behind it. -/
def stringLiteral : List UInt8 → List UInt8 × List UInt8
  | [] => ([], [])
  | b :: rest =>
    if b = 34 then ([b], rest)
    else if b = 92 then
      match rest with
      | [] => ([b], [])
      | c :: rest => (b :: c :: (stringLiteral rest).1, (stringLiteral rest).2)
    else (b :: (stringLiteral rest).1, (stringLiteral rest).2)

theorem length_blockComment : ∀ bs : List UInt8, (blockComment bs).2.length ≤ bs.length
  | [] => Nat.le_refl _
  | [_] => Nat.zero_le _
  | b :: c :: rest => by
    rw [blockComment]
    split_ifs
    · exact (Nat.le_succ _).trans (Nat.le_succ _)
    · exact (length_blockComment (c :: rest)).trans (Nat.le_succ _)
    · exact (length_blockComment (c :: rest)).trans (Nat.le_succ _)

theorem length_stringLiteral : ∀ bs : List UInt8, (stringLiteral bs).2.length ≤ bs.length
  | [] => Nat.le_refl _
  | [b] => by
    rw [stringLiteral]
    split_ifs <;> exact Nat.zero_le _
  | b :: c :: rest => by
    rw [stringLiteral]
    split_ifs
    · exact Nat.le_succ _
    · exact (length_stringLiteral rest).trans ((Nat.le_succ _).trans (Nat.le_succ _))
    · exact (length_stringLiteral (c :: rest)).trans (Nat.le_succ _)

/-- Strip comments of the kind of C. -/
def stripCStyle : List UInt8 → List UInt8
  | [] => []
  | b :: rest =>
    if b = 47 ∧ rest.head? = some 47 then
      stripCStyle (rest.dropWhile fun c => decide (c ≠ 10))
    else if b = 47 ∧ rest.head? = some 42 then
      (blockComment rest.tail).1 ++ stripCStyle (blockComment rest.tail).2
    else if b = 34 then
      b :: (stringLiteral rest).1 ++ stripCStyle (stringLiteral rest).2
    else b :: stripCStyle rest
  termination_by bs => bs.length
  decreasing_by
  · exact Nat.lt_succ_of_le (List.length_dropWhile_le _ _)
  · exact Nat.lt_succ_of_le ((length_blockComment _).trans (by simp))
  · exact Nat.lt_succ_of_le (length_stringLiteral _)
  · exact Nat.lt_succ_self _

def isTripleQuote (bs : List UInt8) : Bool :=
  [34, 34, 34].isPrefixOf bs

def blockString : List UInt8 → List UInt8 × List UInt8
  | [] => ([], [])
  | b :: rest =>
    if isTripleQuote (b :: rest) then ([34, 34, 34], rest.drop 2)
    else (b :: (blockString rest).1, (blockString rest).2)

theorem length_blockString : ∀ bs : List UInt8, (blockString bs).2.length ≤ bs.length
  | [] => Nat.le_refl _
  | b :: rest => by
    rw [blockString]
    split_ifs
    · rw [List.length_drop, List.length_cons]
      omega
    · exact (length_blockString rest).trans (Nat.le_succ _)

/-- Strip comments that begin with `#`. -/
def stripHashBlock : List UInt8 → List UInt8
  | [] => []
  | b :: rest =>
    if b = 35 then stripHashBlock (rest.dropWhile fun c => decide (c ≠ 10))
    else if isTripleQuote (b :: rest) then
      [34, 34, 34] ++ (blockString (rest.drop 2)).1 ++
        stripHashBlock (blockString (rest.drop 2)).2
    else b :: stripHashBlock rest
  termination_by bs => bs.length
  decreasing_by
  · exact Nat.lt_succ_of_le (List.length_dropWhile_le _ _)
  · exact Nat.lt_succ_of_le ((length_blockString _).trans (by rw [List.length_drop]; omega))
  · exact Nat.lt_succ_self _

/-- Bytes as text; what is no text is replaced. -/
def intoString (bs : List UInt8) : List Char :=
  match textOf bs with
  | some s => s.toList
  | none => LossyText.fromUtf8Lossy bs

/-- A source without its comments. -/
def stripComments (src : List Char) : CommentSyntax → List Char
  | .cStyle => intoString (stripCStyle (bytes src))
  | .hashBlockString => intoString (stripHashBlock (bytes src))

/-! ### Marks -/

/-- The characters that matter. -/
inductive Mark where
  | slash | star | quote | apostrophe | backslash | lineFeed | hash
  deriving DecidableEq

def charMark (c : Char) : Option Mark :=
  if c = '/' then some .slash
  else if c = '*' then some .star
  else if c = '"' then some .quote
  else if c = '\'' then some .apostrophe
  else if c = '\\' then some .backslash
  else if c = '\n' then some .lineFeed
  else if c = '#' then some .hash
  else none

abbrev byteMark : UInt8 → Option Mark :=
  TextFilter.byteMark charMark

/-! ### Sources of the kind of C -/

inductive CState where
  | code | line | opening | block | closing
  | literal (single : Bool)
  | escaped (single : Bool)
  deriving DecidableEq

def commentAt : Mark → List Mark → Option CState
  | .slash, .slash :: _ => some .line
  | .slash, .star :: _ => some .opening
  | _, _ => none

def literalAt (singles : Bool) : Mark → CState
  | .quote => .literal false
  | .apostrophe => if singles then .literal true else .code
  | _ => .code

def closingQuote (single : Bool) : Mark :=
  if single then .apostrophe else .quote

def cStyle (singles : Bool) : TextFilter Mark CState where
  plain
    | .code => (true, .code)
    | .line => (false, .line)
    | .opening => (false, .block)
    | .block => (false, .block)
    | .closing => (false, .closing)
    | .literal single => (true, .literal single)
    | .escaped single => (true, .literal single)
  mark
    | .code, m, later =>
      match commentAt m later with
      | some comment => (false, comment)
      | none => (true, literalAt singles m)
    | .line, m, _ => if m = .lineFeed then (true, .code) else (false, .line)
    | .opening, _, _ => (false, .block)
    | .block, m, later =>
      if m = .lineFeed then (true, .block)
      else if m = .star ∧ later.head? = some .slash then (false, .closing)
      else (false, .block)
    | .closing, _, _ => (false, .code)
    | .literal single, m, _ =>
      if m = closingQuote single then (true, .code)
      else if m = .backslash then (true, .escaped single)
      else (true, .literal single)
    | .escaped single, _, _ => (true, .literal single)
  stable s := by cases s <;> rfl

/-! ### Sources with `#` comments -/

inductive HashState where
  | code | line | block | short | escaped
  | opening (quotes : Nat)
  | closing (quotes : Nat)
  | blockEscape (quotes : Nat)
  deriving DecidableEq

def hashStyle (shorts escapes : Bool) : TextFilter Mark HashState where
  plain
    | .code => (true, .code)
    | .line => (false, .line)
    | .block => (true, .block)
    | .short => (true, .short)
    | .escaped => (true, .short)
    | .opening _ => (true, .block)
    | .closing _ => (true, .code)
    | .blockEscape _ => (true, .block)
  mark
    | .code, m, later =>
      if m = .hash then (false, .line)
      else if m = .quote then
        if [Mark.quote, .quote].isPrefixOf later then (true, .opening 1)
        else (true, if shorts then .short else .code)
      else (true, .code)
    | .line, m, _ => if m = .lineFeed then (true, .code) else (false, .line)
    | .block, m, later =>
      if m = .quote ∧ [Mark.quote, .quote].isPrefixOf later then (true, .closing 1)
      else if escapes ∧ m = .backslash ∧ [Mark.quote, .quote, .quote].isPrefixOf later then
        (true, .blockEscape 2)
      else (true, .block)
    | .short, m, _ =>
      if m = .quote then (true, .code)
      else if escapes ∧ m = .backslash then (true, .escaped)
      else (true, .short)
    | .escaped, _, _ => (true, .short)
    | .opening n, _, _ => (true, if n = 0 then .block else .opening (n - 1))
    | .closing n, _, _ => (true, if n = 0 then .code else .closing (n - 1))
    | .blockEscape n, _, _ => (true, if n = 0 then .block else .blockEscape (n - 1))
  stable s := by cases s <;> rfl

def withoutComments (escapes : Bool) (src : List Char) : CommentSyntax → List Char
  | .cStyle => (cStyle true).run charMark .code src
  | .hashBlockString => (hashStyle true escapes).run charMark .code src

def BeginsComment (l : List Char) : Prop :=
  ∃ c d later, l = c :: d :: later ∧ charMark c = some .slash ∧
    (charMark d = some .slash ∨ charMark d = some .star)

def BeginsHash (l : List Char) : Prop :=
  ∃ c later, l = c :: later ∧ charMark c = some .hash

def SameComments (escapes : Bool) (src : List Char) : CommentSyntax → Prop
  | .cStyle =>
    TextFilter.AlignedAt BeginsComment (fun s => s = .code) (fun t => t = .code) (cStyle true)
      (cStyle false) charMark .code .code src
  | .hashBlockString =>
    TextFilter.AlignedAt BeginsHash (fun s => s = .code) (fun t => t = .code)
      (hashStyle true escapes) (hashStyle false false) charMark .code .code src

end Lain.Server.CommentStripping
