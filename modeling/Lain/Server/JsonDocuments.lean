import Mathlib
import Lain.Server.JsonTokens

/-!
# JSON documents

JSON documents as they are written, with the blanks between their parts and the spelling of their
strings, what their keys and lines are, and the tokens of their text.
-/

namespace Lain.Server.OpenapiLineIndex

/-! ### Strings -/

def codeValue (code : List Char) : Nat :=
  code.foldl (fun n c => 16 * n + (hexValue c).getD 0) 0

def IsCode (code : List Char) : Prop :=
  code.length = 4 ∧ ∀ c ∈ code, (hexValue c).isSome = true

inductive Piece where
  | plain (c : Char) (allowed : c ≠ '"' ∧ c ≠ '\\' ∧ 32 ≤ c.toNat)
  | escape (letter : Char) (allowed : letter ∈ ['"', '\\', '/', 'b', 'f', 'n', 'r', 't'])
  | unicode (code : List Char) (allowed : IsCode code ∧ (codeValue code).isValidChar)
  | surrogates (high low : List Char) (allowed : (IsCode high ∧ IsCode low) ∧
      (0xD800 ≤ codeValue high ∧ codeValue high < 0xDC00) ∧
      0xDC00 ≤ codeValue low ∧ codeValue low < 0xE000)

/-- How a piece is written. -/
def Piece.text : Piece → List Char
  | plain c _ => [c]
  | escape letter _ => ['\\', letter]
  | unicode code _ => '\\' :: 'u' :: code
  | surrogates high low _ => '\\' :: 'u' :: high ++ '\\' :: 'u' :: low

def Piece.char : Piece → Char
  | plain c _ => c
  | escape letter _ =>
    if letter = 'b' then Char.ofNat 8
    else if letter = 'f' then Char.ofNat 12
    else if letter = 'n' then '\n'
    else if letter = 'r' then '\r'
    else if letter = 't' then '\t'
    else letter
  | unicode code _ => Char.ofNat (codeValue code)
  | surrogates high low _ =>
    Char.ofNat (0x10000 + (codeValue high - 0xD800) * 0x400 + (codeValue low - 0xDC00))

abbrev Spelling := List Piece

/-- The text of a string between its quotes. -/
def Spelling.text (s : Spelling) : List Char :=
  s.flatMap Piece.text

def Spelling.decode (s : Spelling) : Key :=
  s.map Piece.char

/-! ### Documents -/

abbrev Blank := { b : List Char // ∀ c ∈ b, c ∈ [' ', '\t', '\n', '\r'] }

abbrev InlineBlank := { b : List Char // ∀ c ∈ b, c ∈ [' ', '\t', '\r'] }

abbrev Word := { w : List Char // ∀ c ∈ w, c.isAlphanum = true ∨ c ∈ ['+', '-', '.'] }

structure MemberBlanks where
  beforeKey : Blank
  beforeColon : InlineBlank
  afterColon : Blank
  behind : Blank

mutual

/-- A value. -/
inductive Value where
  | word (w : Word)
  | string (s : Spelling)
  | object (members : Members)
  | array (items : Items)

inductive Members where
  | nil (blank : Blank)
  | cons (key : Spelling) (blanks : MemberBlanks) (value : Value) (rest : Members)

inductive Items where
  | nil (blank : Blank)
  | cons (before : Blank) (value : Value) (behind : Blank) (rest : Items)

end

structure Document where
  before : Blank
  root : Members
  behind : Blank

mutual

/-- How a value is written. -/
def Value.text : Value → List Char
  | .word w => w.1
  | .string s => '"' :: s.text ++ ['"']
  | .object members => '\x7b' :: members.text [] ++ ['\x7d']
  | .array items => '[' :: items.text [] ++ [']']

/-- How members are written behind what separates them from the ones before. -/
def Members.text (separator : List Char) : Members → List Char
  | .nil blank => blank.1
  | .cons key blanks value rest =>
    separator ++ blanks.beforeKey.1 ++ ('"' :: key.text ++ ['"']) ++ blanks.beforeColon.1 ++
      ':' :: blanks.afterColon.1 ++ value.text ++ blanks.behind.1 ++ rest.text [',']

/-- How items are written behind what separates them from the ones before. -/
def Items.text (separator : List Char) : Items → List Char
  | .nil blank => blank.1
  | .cons before value behind rest =>
    separator ++ before.1 ++ value.text ++ behind.1 ++ rest.text [',']

end

/-- How a document is written. -/
def Document.text (doc : Document) : List Char :=
  doc.before.1 ++ (Value.object doc.root).text ++ doc.behind.1

def lineAfter (line : Nat) (text : List Char) : Nat :=
  line + text.count '\n'

mutual

/-- The keys in a value at a path that begins on a line, their paths and lines; `name` tells the
key that is spelled so. -/
def Value.keys (name : Spelling → Key) (path : KeyPath) (line : Nat) :
    Value → List (KeyPath × Nat)
  | .word _ => []
  | .string _ => []
  | .object members => members.keys name path line
  | .array items => items.keys name path 0 line

/-- The keys in members. -/
def Members.keys (name : Spelling → Key) (path : KeyPath) (line : Nat) :
    Members → List (KeyPath × Nat)
  | .nil _ => []
  | .cons key blanks value rest =>
    let atKey := lineAfter line blanks.beforeKey.1
    let atValue := lineAfter atKey blanks.afterColon.1
    (path ++ [name key], atKey) :: (value.keys name (path ++ [name key]) atValue ++
      rest.keys name path (lineAfter (lineAfter atValue value.text) blanks.behind.1))

/-- The keys in items from a position on. -/
def Items.keys (name : Spelling → Key) (path : KeyPath) (i line : Nat) :
    Items → List (KeyPath × Nat)
  | .nil _ => []
  | .cons before value behind rest =>
    let atValue := lineAfter line before.1
    value.keys name (path ++ [position i]) atValue ++
      rest.keys name path (i + 1) (lineAfter (lineAfter atValue value.text) behind.1)

end

/-- The keys of a document, their paths and lines. -/
def Document.keys (doc : Document) : List (KeyPath × Nat) :=
  doc.root.keys Spelling.decode [] (lineAfter 1 doc.before.1)

/-! ### The tokens of a document -/

def feeds (text : List Char) : List Token :=
  List.replicate (text.count '\n') .lineFeed

def InlineBlank.isNear (b : InlineBlank) : Bool :=
  b.1.all keyBlank

mutual

def Value.tokens : Value → List Token
  | .word _ => []
  | .string _ => []
  | .object members => .objectStart :: members.tokens [] ++ [.objectEnd]
  | .array items => .arrayStart :: items.tokens [] ++ [.arrayEnd]

def Members.tokens (separator : List Token) : Members → List Token
  | .nil blank => feeds blank.1
  | .cons key blanks value rest =>
    separator ++ feeds blanks.beforeKey.1 ++
      (if InlineBlank.isNear blanks.beforeColon then [.key key.text] else []) ++
      feeds blanks.afterColon.1 ++ value.tokens ++ feeds blanks.behind.1 ++ rest.tokens [.comma]

def Items.tokens (separator : List Token) : Items → List Token
  | .nil blank => feeds blank.1
  | .cons before value behind rest =>
    separator ++ feeds before.1 ++ value.tokens ++ feeds behind.1 ++ rest.tokens [.comma]

end

variable {rest : List Char}

theorem lex_blank {b : List Char} (blank : ∀ c ∈ b, c ∈ [' ', '\t', '\n', '\r'])
    (rest : List Char) : lex none (b ++ rest) = feeds b ++ lex none rest := by
  induction b with
  | nil => rfl
  | cons c b ih =>
    obtain ⟨now, later⟩ := List.forall_mem_cons.mp blank
    rw [List.cons_append, lex, if_neg (by rintro rfl; simp at now), ih later]
    simp only [List.mem_cons, List.not_mem_nil, or_false] at now
    rcases now with rfl | rfl | rfl | rfl
    · rfl
    · rfl
    · rw [feeds, feeds, List.count_cons_self, List.replicate_succ]
      rfl
    · rfl

theorem lex_word (w : Word) (rest : List Char) : lex none (w.1 ++ rest) = lex none rest := by
  obtain ⟨w, allowed⟩ := w
  dsimp only
  induction w with
  | nil => rfl
  | cons c w ih =>
    obtain ⟨now, later⟩ := List.forall_mem_cons.mp allowed
    have other : ∀ d : Char, d.isAlphanum = false → d ∉ ['+', '-', '.'] → c ≠ d := by
      rintro d plain sign rfl
      rcases now with letter | member
      · rw [letter] at plain
        cases plain
      · exact sign member
    rw [List.cons_append, lex, if_neg (other '"' (by decide) (by decide)), ih later]
    unfold outsideTokens
    rw [if_neg (other '\n' (by decide) (by decide)),
      if_neg (other '\x7b' (by decide) (by decide)),
      if_neg (other '\x7d' (by decide) (by decide)), if_neg (other '[' (by decide) (by decide)),
      if_neg (other ']' (by decide) (by decide)), if_neg (other ',' (by decide) (by decide)),
      List.nil_append]

theorem lex_code {code : List Char} (digits : ∀ c ∈ code, (hexValue c).isSome = true)
    (raw rest : List Char) :
    lex (some (raw, false)) (code ++ rest) = lex (some (raw ++ code, false)) rest := by
  induction code generalizing raw with
  | nil => rw [List.nil_append, List.append_nil]
  | cons c code ih =>
    obtain ⟨now, later⟩ := List.forall_mem_cons.mp digits
    have other : ∀ d : Char, hexValue d = none → c ≠ d := by
      rintro d nothing rfl
      rw [nothing] at now
      cases now
    rw [List.cons_append, lex, if_neg (other '\\' (by decide)), if_neg (other '"' (by decide)),
      ih later, List.append_assoc, List.singleton_append]

theorem lex_piece (piece : Piece) (raw rest : List Char) :
    lex (some (raw, false)) (piece.text ++ rest) =
      lex (some (raw ++ piece.text, false)) rest := by
  have number : ∀ (code raw rest : List Char), IsCode code →
      lex (some (raw, false)) ('\\' :: 'u' :: code ++ rest) =
        lex (some (raw ++ '\\' :: 'u' :: code, false)) rest := by
    intro code raw rest digits
    rw [List.cons_append, lex, if_pos rfl, List.cons_append, lex, lex_code digits.2,
      List.append_assoc, List.append_assoc]
    rfl
  cases piece with
  | plain c allowed =>
    rw [Piece.text, List.singleton_append, lex, if_neg allowed.2.1, if_neg allowed.1]
  | escape letter allowed =>
    change lex (some (raw, false)) ('\\' :: letter :: rest) = _
    rw [lex, if_pos rfl, lex, List.append_assoc]
    rfl
  | unicode code allowed => exact number code raw rest allowed.1
  | surrogates high low allowed =>
    rw [Piece.text, List.append_assoc, number high _ _ allowed.1.1, number low _ _ allowed.1.2,
      List.append_assoc]

theorem lex_string (s : Spelling) (rest : List Char) :
    lex none ('"' :: (s.text ++ '"' :: rest)) =
      (if colonNext rest then [.key s.text] else []) ++ lex none rest := by
  have inside : ∀ (s : Spelling) (raw : List Char),
      lex (some (raw, false)) (s.text ++ '"' :: rest) =
        (if colonNext rest then [.key (raw ++ s.text)] else []) ++ lex none rest := by
    intro s
    induction s with
    | nil =>
      intro raw
      change lex (some (raw, false)) ('"' :: rest) = _
      rw [lex, if_neg (by decide), if_pos rfl]
      change _ = (if _ then [Token.key (raw ++ [])] else []) ++ _
      rw [List.append_nil]
    | cons piece s ih =>
      intro raw
      have text : Spelling.text (piece :: s) = piece.text ++ Spelling.text s :=
        List.flatMap_cons
      rw [text, List.append_assoc, lex_piece, ih (raw ++ piece.text), List.append_assoc]
  rw [lex, if_pos rfl, inside, List.nil_append]

theorem colonNext_blank {b : List Char} (blank : ∀ c ∈ b, c ∈ [' ', '\t', '\n', '\r']) {x : Char}
    (stops : keyBlank x = false) (other : x ≠ ':') : colonNext (b ++ x :: rest) = false := by
  unfold colonNext
  induction b with
  | nil =>
    rw [List.nil_append, List.dropWhile_cons_of_neg (by rw [stops]; decide)]
    simpa using other
  | cons c b ih =>
    obtain ⟨now, later⟩ := List.forall_mem_cons.mp blank
    rw [List.cons_append, List.dropWhile_cons]
    simp only [List.mem_cons, List.not_mem_nil, or_false] at now
    rcases now with rfl | rfl | rfl | rfl
    · exact ih later
    · exact ih later
    · rfl
    · rfl

theorem colonNext_colon (b : InlineBlank) :
    colonNext (b.1 ++ ':' :: rest) = InlineBlank.isNear b := by
  obtain ⟨b, blank⟩ := b
  unfold colonNext InlineBlank.isNear
  dsimp only
  induction b with
  | nil => rfl
  | cons c b ih =>
    obtain ⟨now, later⟩ := List.forall_mem_cons.mp blank
    rw [List.cons_append, List.dropWhile_cons, List.all_cons]
    simp only [List.mem_cons, List.not_mem_nil, or_false] at now
    rcases now with rfl | rfl | rfl
    · exact ih later
    · exact ih later
    · rfl

theorem Members.colonNext_eq_false {b : List Char} (blank : ∀ c ∈ b, c ∈ [' ', '\t', '\n', '\r'])
    (ms : Members) : colonNext (b ++ (ms.text [','] ++ '\x7d' :: rest)) = false := by
  cases ms with
  | nil inner =>
    rw [Members.text, ← List.append_assoc]
    exact colonNext_blank (fun c member => (List.mem_append.mp member).elim (blank c) (inner.2 c))
      (by decide) (by decide)
  | cons key blanks value more =>
    rw [Members.text]
    simp only [List.append_assoc, List.singleton_append]
    exact colonNext_blank blank (by decide) (by decide)

theorem Items.colonNext_eq_false {b : List Char} (blank : ∀ c ∈ b, c ∈ [' ', '\t', '\n', '\r'])
    (items : Items) : colonNext (b ++ (items.text [','] ++ ']' :: rest)) = false := by
  cases items with
  | nil inner =>
    rw [Items.text, ← List.append_assoc]
    exact colonNext_blank (fun c member => (List.mem_append.mp member).elim (blank c) (inner.2 c))
      (by decide) (by decide)
  | cons before value behind more =>
    rw [Items.text]
    simp only [List.append_assoc, List.singleton_append]
    exact colonNext_blank blank (by decide) (by decide)

private theorem lex_colon (b : InlineBlank) (rest : List Char) :
    lex none (b.1 ++ ':' :: rest) = lex none rest := by
  have wider : ∀ c ∈ b.1, c ∈ [' ', '\t', '\n', '\r'] := fun c member => by
    have one := b.2 c member
    simp only [List.mem_cons, List.not_mem_nil, or_false] at one ⊢
    tauto
  have lineless : '\n' ∉ b.1 := fun member => absurd (b.2 _ member) (by decide)
  rw [lex_blank wider, feeds, List.count_eq_zero_of_not_mem lineless]
  rfl

private theorem lex_comma (rest : List Char) :
    lex none ([','] ++ rest) = [.comma] ++ lex none rest :=
  rfl

mutual

theorem Value.lex_text : ∀ (v : Value) {rest : List Char}, colonNext rest = false →
    lex none (v.text ++ rest) = v.tokens ++ lex none rest
  | .word w, rest, _ => lex_word w rest
  | .string s, rest, ends => by
    rw [Value.text, List.append_assoc, List.singleton_append, List.cons_append, lex_string, ends]
    rfl
  | .object members, rest, _ => by
    have inner := Members.lex_text members [] [] (fun _ => rfl) rest
    rw [Value.text, Value.tokens, List.cons_append, List.append_assoc, List.singleton_append,
      List.cons_append, List.append_assoc, List.singleton_append]
    change Token.objectStart :: lex none (members.text [] ++ '\x7d' :: rest) = _
    rw [inner]
    rfl
  | .array items, rest, _ => by
    have inner := Items.lex_text items [] [] (fun _ => rfl) rest
    rw [Value.text, Value.tokens, List.cons_append, List.append_assoc, List.singleton_append,
      List.cons_append, List.append_assoc, List.singleton_append]
    change Token.arrayStart :: lex none (items.text [] ++ ']' :: rest) = _
    rw [inner]
    rfl

theorem Members.lex_text : ∀ (ms : Members) (separator : List Char) (separatorTokens : List Token),
    (∀ rest, lex none (separator ++ rest) = separatorTokens ++ lex none rest) →
    ∀ rest, lex none (ms.text separator ++ '\x7d' :: rest) =
      ms.tokens separatorTokens ++ .objectEnd :: lex none rest
  | .nil blank, _, _, _, rest => lex_blank blank.2 _
  | .cons key blanks value more, separator, separatorTokens, same, rest => by
    have ends := @Members.colonNext_eq_false rest _ blanks.behind.2 more
    rw [Members.text, Members.tokens]
    simp only [List.append_assoc, List.cons_append, List.nil_append]
    rw [same, lex_blank blanks.beforeKey.2, lex_string, colonNext_colon, lex_colon,
      lex_blank blanks.afterColon.2, Value.lex_text value ends, lex_blank blanks.behind.2,
      Members.lex_text more [','] [.comma] lex_comma rest]

theorem Items.lex_text : ∀ (items : Items) (separator : List Char) (separatorTokens : List Token),
    (∀ rest, lex none (separator ++ rest) = separatorTokens ++ lex none rest) →
    ∀ rest, lex none (items.text separator ++ ']' :: rest) =
      items.tokens separatorTokens ++ .arrayEnd :: lex none rest
  | .nil blank, _, _, _, rest => lex_blank blank.2 _
  | .cons before value behind more, separator, separatorTokens, same, rest => by
    have ends := @Items.colonNext_eq_false rest _ behind.2 more
    rw [Items.text, Items.tokens]
    simp only [List.append_assoc]
    rw [same, lex_blank before.2, Value.lex_text value ends, lex_blank behind.2,
      Items.lex_text more [','] [.comma] lex_comma rest]

end

theorem tokens_text (doc : Document) :
    tokens doc.text =
      feeds doc.before.1 ++ (Value.object doc.root).tokens ++ feeds doc.behind.1 := by
  have ends : colonNext doc.behind.1 = false := by
    have behind := doc.behind.2
    unfold colonNext
    generalize doc.behind.1 = b at behind
    induction b with
    | nil => rfl
    | cons c b ih =>
      obtain ⟨now, later⟩ := List.forall_mem_cons.mp behind
      rw [List.dropWhile_cons]
      simp only [List.mem_cons, List.not_mem_nil, or_false] at now
      rcases now with rfl | rfl | rfl | rfl
      · exact ih later
      · exact ih later
      · rfl
      · rfl
  have last := lex_blank doc.behind.2 []
  rw [List.append_nil] at last
  unfold tokens Document.text
  rw [List.append_assoc, lex_blank doc.before.2, Value.lex_text _ ends, last, lex, List.append_nil,
    List.append_assoc]

end Lain.Server.OpenapiLineIndex
