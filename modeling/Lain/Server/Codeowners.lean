import Lain.Foundation.Blanks
import Lain.Foundation.SegmentGlobText

/-!
# Code owners

The rules of a `CODEOWNERS` file, as they are matched and as they are documented.
-/

namespace Lain.Server.Codeowners

open Foundation
open Foundation.ByteCursor (bytes)
open Foundation.SegmentGlob (Token Matches)

/-- A rule: a pattern and its owners. -/
structure Rule where
  pattern : List Char
  owners : List String
  deriving DecidableEq

/-! ### Matching -/

def trimSlashes (text : List Char) : List Char :=
  text.dropWhile fun c => c = '/'

/-- Match a pattern against a whole text; a star stands for anything but a slash. -/
def globMatch (pattern text : List UInt8) : Bool :=
  SegmentGlob.accepts '*'.val.toUInt8 '/'.val.toUInt8 pattern text

def globMatchBehind (pattern : List UInt8) : List UInt8 → Bool
  | [] => false
  | b :: rest =>
    if b = '/'.val.toUInt8 then globMatch pattern rest || globMatchBehind pattern rest
    else globMatchBehind pattern rest

def globMatchUnanchored (pattern text : List UInt8) : Bool :=
  globMatch pattern text || globMatchBehind pattern text

def matchesPattern (pattern path : List Char) : Bool :=
  let p := Blanks.trim pattern
  let path := trimSlashes path
  if p = [] then false
  else if p.getLast? = some '/' then
    let dir := trimSlashes p.dropLast
    decide (path = dir) || (dir ++ ['/']).isPrefixOf path || ('/' :: dir ++ ['/']).isPrefixOf path
  else if p.head? = some '/' then globMatch (bytes (trimSlashes p)) (bytes path)
  else globMatchUnanchored (bytes (trimSlashes p)) (bytes path)

/-- The owners of a path: those of the last rule that matches. -/
def codeownersFor (rules : List Rule) (path : List Char) : List String :=
  match rules.reverse.find? fun rule => matchesPattern rule.pattern path with
  | some rule => rule.owners
  | none => []

/-! ### The documented grammar -/

def documentedTokens : List Char → List (Token Char)
  | [] => []
  | c :: rest =>
    if c = '*' then
      match rest with
      | [] => [.star]
      | d :: rest => if d = '*' then .deep :: documentedTokens rest
          else .star :: documentedTokens (d :: rest)
    else .exact c :: documentedTokens rest

def AtBoundary (path tail : List Char) : Prop :=
  tail = path ∨ ∃ front, path = front ++ '/' :: tail

def Begins (pattern path tail : List Char) : Prop :=
  if pattern.head? = some '/' then tail = path else AtBoundary path tail

def Follows (itself : Bool) (pattern path : List Char) : Prop :=
  ∃ tail, Begins pattern path tail ∧
    if pattern.getLast? = some '/' then
      (∃ front rest, tail = front ++ rest ∧
        Matches '/' (documentedTokens (trimSlashes pattern)) front) ∨
      itself = true ∧ Matches '/' (documentedTokens (trimSlashes pattern).dropLast) tail
    else Matches '/' (documentedTokens (trimSlashes pattern)) tail

def Documented (itself : Bool) (pattern path : List Char) : Prop :=
  Blanks.trim pattern ≠ [] ∧ Follows itself (Blanks.trim pattern) (trimSlashes path)

/-- Owners are those of the last rule whose pattern matches a path, or none. -/
def OwnedBy (itself : Bool) (rules : List Rule) (path : List Char) (owners : List String) : Prop :=
  (∃ front rule later, rules = front ++ rule :: later ∧ Documented itself rule.pattern path ∧
    (∀ other ∈ later, ¬ Documented itself other.pattern path) ∧ owners = rule.owners) ∨
  (∀ rule ∈ rules, ¬ Documented itself rule.pattern path) ∧ owners = []

def PlainFor (itself : Bool) (pattern path : List Char) : Prop :=
  if pattern.getLast? = some '/' then
    let dir := trimSlashes pattern.dropLast
    (Follows itself pattern path → path = dir ∨ dir ++ ['/'] <+: path) ∧
      (itself = false → path = dir → dir = [])
  else Follows itself pattern path → ∃ tail, Begins pattern path tail ∧
    Matches '/' ((documentedTokens (trimSlashes pattern)).map Token.shallow) tail

/-- Every pattern is plain for a path, back from the last to the first that matches. -/
def Plain (itself : Bool) (patterns : List (List Char)) (path : List Char) : Prop :=
  ∀ front pattern later, patterns = front ++ pattern :: later →
    (∀ other ∈ later, ¬ Documented itself other path) →
      PlainFor itself (Blanks.trim pattern) (trimSlashes path)

end Lain.Server.Codeowners

/-!
## The grammar of code owners

The rules are matched as documented exactly where their patterns are plain.
-/

namespace Lain.Server.Codeowners

open Foundation
open Foundation.ByteCursor (bytes)
open Foundation.SegmentGlob (Token Matches tokensOf)

section Matching

variable {pattern text path : List Char}

theorem globMatch_iff (pattern text : List Char) :
    globMatch (bytes pattern) (bytes text) = true ↔ Matches '/' (tokensOf '*' pattern) text := by
  unfold globMatch
  rw [SegmentGlob.accepts_iff]
  exact SegmentGlob.matches_bytes (by decide) (by decide) pattern text

theorem globMatchBehind_append {pattern front rest : List UInt8}
    (within : '/'.val.toUInt8 ∉ front) :
    globMatchBehind pattern (front ++ rest) = globMatchBehind pattern rest := by
  induction front with
  | nil => rfl
  | cons b front ih =>
    obtain ⟨other, later⟩ := List.ne_and_not_mem_of_not_mem_cons within
    rw [List.cons_append, globMatchBehind, if_neg (Ne.symm other), ih later]

theorem globMatchBehind_iff (pattern : List UInt8) (text : List Char) :
    globMatchBehind pattern (bytes text) = true ↔
      ∃ front tail, text = front ++ '/' :: tail ∧ globMatch pattern (bytes tail) = true := by
  induction text with
  | nil =>
    refine iff_of_false Bool.false_ne_true ?_
    rintro ⟨front, tail, whole, -⟩
    cases (List.nil_eq_append_iff.mp whole).2
  | cons c text ih =>
    by_cases slash : c = '/'
    · subst slash
      rw [ByteCursor.bytes_cons, ByteCursor.utf8EncodeChar_ascii (by decide),
        List.singleton_append, globMatchBehind, if_pos rfl, Bool.or_eq_true, ih]
      constructor
      · rintro (here | ⟨front, tail, rfl, later⟩)
        · exact ⟨[], text, rfl, here⟩
        · exact ⟨'/' :: front, tail, rfl, later⟩
      · rintro ⟨front, tail, whole, matched⟩
        cases front with
        | nil =>
          obtain ⟨-, rfl⟩ := List.cons.inj whole
          exact .inl matched
        | cons d front => exact .inr ⟨front, tail, (List.cons.inj whole).2, matched⟩
    · have within : '/'.val.toUInt8 ∉ String.utf8EncodeChar c := fun member => by
        have inside := (SegmentGlob.mem_bytes_iff (by decide) [c]).mp
          (by simpa using member : '/'.val.toUInt8 ∈ bytes [c])
        exact slash (List.mem_singleton.mp inside).symm
      rw [ByteCursor.bytes_cons, globMatchBehind_append within, ih]
      constructor
      · rintro ⟨front, tail, rfl, matched⟩
        exact ⟨c :: front, tail, rfl, matched⟩
      · rintro ⟨front, tail, whole, matched⟩
        cases front with
        | nil => exact absurd (List.cons.inj whole).1 slash
        | cons d front => exact ⟨front, tail, (List.cons.inj whole).2, matched⟩

theorem globs_iff (pattern path : List Char) :
    (if pattern.head? = some '/' then globMatch (bytes (trimSlashes pattern)) (bytes path)
      else globMatchUnanchored (bytes (trimSlashes pattern)) (bytes path)) = true ↔
      ∃ tail, Begins pattern path tail ∧
        Matches '/' (tokensOf '*' (trimSlashes pattern)) tail := by
  unfold Begins
  split_ifs
  · rw [globMatch_iff]
    exact ⟨fun matched => ⟨path, rfl, matched⟩, fun ⟨_, same, matched⟩ => same ▸ matched⟩
  · unfold globMatchUnanchored AtBoundary
    rw [Bool.or_eq_true, globMatch_iff, globMatchBehind_iff]
    constructor
    · rintro (matched | ⟨front, tail, rfl, matched⟩)
      · exact ⟨path, .inl rfl, matched⟩
      · exact ⟨tail, .inr ⟨front, rfl⟩, (globMatch_iff _ _).mp matched⟩
    · rintro ⟨tail, rfl | ⟨front, rfl⟩, matched⟩
      · exact .inl matched
      · exact .inr ⟨front, tail, rfl, (globMatch_iff _ _).mpr matched⟩

end Matching

/-! ### Tokens -/

section Tokens

variable {pattern text : List Char}

theorem matches_star_congr {tokens tokens' : List (Token Char)}
    (same : ∀ text, Matches '/' tokens text ↔ Matches '/' tokens' text) (t : Token Char)
    (text : List Char) : Matches '/' (t :: tokens) text ↔ Matches '/' (t :: tokens') text := by
  constructor
  · rintro ⟨run, rest, rfl, span, inside⟩
    exact ⟨run, rest, rfl, span, (same rest).mp inside⟩
  · rintro ⟨run, rest, rfl, span, inside⟩
    exact ⟨run, rest, rfl, span, (same rest).mpr inside⟩

theorem matches_tokensOf (pattern text : List Char) :
    Matches '/' (tokensOf '*' pattern) text ↔
      Matches '/' ((documentedTokens pattern).map Token.shallow) text := by
  induction pattern using documentedTokens.induct generalizing text with
  | case1 => exact Iff.rfl
  | case2 => exact Iff.rfl
  | case3 rest ih =>
    rw [SegmentGlob.tokensOf_star, SegmentGlob.tokensOf_star, SegmentGlob.matches_star_star,
      documentedTokens, if_pos rfl, if_pos rfl]
    exact matches_star_congr ih _ text
  | case4 d rest other ih =>
    rw [SegmentGlob.tokensOf_star, documentedTokens, if_pos rfl, if_neg other]
    exact matches_star_congr ih _ text
  | case5 c rest other ih =>
    rw [SegmentGlob.tokensOf_cons other, documentedTokens.eq_def]
    dsimp only
    rw [if_neg other]
    exact matches_star_congr ih _ text

theorem star_spans : Token.star.Spans '/' ['*'] := by
  unfold Token.Spans
  decide

theorem matches_self (pattern : List Char) : Matches '/' (documentedTokens pattern) pattern := by
  induction pattern using documentedTokens.induct with
  | case1 => rfl
  | case2 => exact ⟨['*'], [], rfl, star_spans, rfl⟩
  | case3 rest ih =>
    rw [documentedTokens, if_pos rfl, if_pos rfl]
    exact ⟨['*', '*'], rest, rfl, trivial, ih⟩
  | case4 d rest other ih =>
    rw [documentedTokens, if_pos rfl, if_neg other]
    exact ⟨['*'], d :: rest, rfl, star_spans, ih⟩
  | case5 c rest other ih =>
    rw [documentedTokens.eq_def]
    dsimp only
    rw [if_neg other]
    exact ⟨[c], rest, rfl, rfl, ih⟩

theorem count_le_of_matches (matched : Matches '/' (documentedTokens pattern) text) :
    pattern.count '/' ≤ text.count '/' := by
  induction pattern using documentedTokens.induct generalizing text with
  | case1 => exact Nat.zero_le _
  | case2 => exact Nat.zero_le _
  | case3 rest ih =>
    rw [documentedTokens, if_pos rfl, if_pos rfl] at matched
    obtain ⟨run, later, rfl, -, matched⟩ := matched
    rw [List.count_append]
    exact (ih matched).trans (Nat.le_add_left _ _)
  | case4 d rest other ih =>
    rw [documentedTokens, if_pos rfl, if_neg other] at matched
    obtain ⟨run, later, rfl, -, matched⟩ := matched
    rw [List.count_append]
    exact (ih matched).trans (Nat.le_add_left _ _)
  | case5 c rest other ih =>
    rw [documentedTokens.eq_def] at matched
    dsimp only at matched
    rw [if_neg other] at matched
    obtain ⟨run, later, rfl, rfl, matched⟩ := matched
    rw [List.singleton_append, List.count_cons, List.count_cons]
    exact Nat.add_le_add_right (ih matched) _

end Tokens

/-! ### Patterns -/

section Patterns

variable {itself : Bool} {pattern path : List Char}

theorem head_trimSlashes (text : List Char) : (trimSlashes text).head? ≠ some '/' := by
  unfold trimSlashes
  induction text with
  | nil => exact Option.some_ne_none _ ∘ Eq.symm
  | cons c text ih =>
    rw [List.dropWhile_cons]
    split_ifs with slash
    · exact ih
    · exact fun same => slash (decide_eq_true (Option.some.inj same))

theorem trimSlashes_concat (text : List Char) :
    trimSlashes (text ++ ['/']) =
      if trimSlashes text = [] then [] else trimSlashes text ++ ['/'] := by
  unfold trimSlashes
  induction text with
  | nil => rfl
  | cons c text ih =>
    by_cases slash : c = '/'
    · subst slash
      exact ih
    · have stays : ∀ rest, List.dropWhile (fun c => decide (c = '/')) (c :: rest) = c :: rest :=
        fun rest => List.dropWhile_cons_of_neg (by simpa using slash)
      rw [List.cons_append, stays, stays, if_neg (List.cons_ne_nil _ _), List.cons_append]

theorem follows_directory {q : List Char} :
    Follows itself (q ++ ['/']) path ↔ ∃ tail, Begins (q ++ ['/']) path tail ∧
      ((∃ front rest, tail = front ++ rest ∧
        Matches '/' (documentedTokens (trimSlashes (q ++ ['/']))) front) ∨
      itself = true ∧ Matches '/' (documentedTokens (trimSlashes q)) tail) := by
  have dir : (trimSlashes (q ++ ['/'])).dropLast = trimSlashes q := by
    rw [trimSlashes_concat]
    split_ifs with empty
    · rw [empty]
      rfl
    · rw [List.dropLast_concat]
  unfold Follows
  rw [dir]
  simp only [List.getLast?_concat, if_true]

theorem begins_root (pattern path : List Char) : Begins pattern path path := by
  unfold Begins
  split_ifs
  · rfl
  · exact .inl rfl

theorem Begins.count_le {tail : List Char} (begins : Begins pattern path tail) :
    tail.count '/' ≤ path.count '/' := by
  unfold Begins at begins
  split_ifs at begins
  · rw [begins]
  · rcases begins with rfl | ⟨front, rfl⟩
    · exact Nat.le_refl _
    · rw [List.count_append, List.count_cons]
      omega

theorem follows_of_below {q : List Char} (below : trimSlashes q ++ ['/'] <+: path) :
    Follows itself (q ++ ['/']) path := by
  refine follows_directory.mpr ⟨path, begins_root _ _, .inl ?_⟩
  rw [trimSlashes_concat]
  split_ifs
  · exact ⟨[], path, rfl, rfl⟩
  · obtain ⟨rest, rfl⟩ := below
    exact ⟨_, rest, rfl, matches_self _⟩

theorem follows_directory_itself {q : List Char} :
    Follows itself (q ++ ['/']) (trimSlashes q) ↔ itself = true ∨ trimSlashes q = [] := by
  rw [follows_directory, trimSlashes_concat]
  constructor
  · rintro ⟨tail, begins, ⟨front, rest, rfl, matched⟩ | ⟨counts, -⟩⟩
    · by_contra other
      rw [if_neg (not_or.mp other).2] at matched
      have slashes := count_le_of_matches matched
      have fewer := begins.count_le
      rw [List.count_append, List.count_singleton_self] at slashes
      rw [List.count_append] at fewer
      omega
    · exact .inl counts
  · rintro (counts | root)
    · exact ⟨_, begins_root _ _, .inr ⟨counts, matches_self _⟩⟩
    · rw [if_pos root, root]
      exact ⟨[], begins_root _ _, .inl ⟨[], [], rfl, rfl⟩⟩

theorem directory_iff {q : List Char} (rooted : path.head? ≠ some '/') :
    ((decide (path = trimSlashes q) || (trimSlashes q ++ ['/']).isPrefixOf path ||
        ('/' :: trimSlashes q ++ ['/']).isPrefixOf path) = true ↔
      Follows itself (q ++ ['/']) path) ↔ PlainFor itself (q ++ ['/']) path := by
  have outside : ¬ '/' :: trimSlashes q ++ ['/'] <+: path := by
    rintro ⟨rest, rfl⟩
    exact rooted rfl
  unfold PlainFor
  rw [if_pos List.getLast?_concat, List.dropLast_concat, Bool.or_eq_true, Bool.or_eq_true,
    decide_eq_true_iff, List.isPrefixOf_iff_prefix, List.isPrefixOf_iff_prefix,
    or_iff_left outside]
  constructor
  · intro same
    refine ⟨same.mpr, fun apart here => ?_⟩
    have follows := same.mp (.inl here)
    rw [here, follows_directory_itself, apart] at follows
    exact follows.resolve_left Bool.false_ne_true
  · rintro ⟨spelled, apart⟩
    refine ⟨?_, spelled⟩
    rintro (rfl | below)
    · rw [follows_directory_itself]
      cases itself with
      | true => exact .inl rfl
      | false => exact .inr (apart rfl rfl)
    · exact follows_of_below below

theorem globs_follow_iff (file : pattern.getLast? ≠ some '/') :
    ((if pattern.head? = some '/' then globMatch (bytes (trimSlashes pattern)) (bytes path)
        else globMatchUnanchored (bytes (trimSlashes pattern)) (bytes path)) = true ↔
      Follows itself pattern path) ↔ PlainFor itself pattern path := by
  rw [globs_iff]
  simp only [matches_tokensOf]
  unfold PlainFor
  rw [if_neg file]
  constructor
  · exact Iff.mpr
  · intro plain
    refine ⟨?_, plain⟩
    rintro ⟨tail, begins, matched⟩
    refine ⟨tail, begins, ?_⟩
    rw [if_neg file]
    exact SegmentGlob.matches_of_shallow matched

/-- **A pattern is matched as documented** exactly where it is plain. -/
theorem matchesPattern_iff (itself : Bool) (pattern path : List Char) :
    (matchesPattern pattern path = true ↔ Documented itself pattern path) ↔
      PlainFor itself (Blanks.trim pattern) (trimSlashes path) := by
  unfold matchesPattern Documented
  dsimp only
  by_cases blank : Blanks.trim pattern = []
  · rw [if_pos blank, blank]
    refine iff_of_true (iff_of_false Bool.false_ne_true fun both => both.1 rfl) ?_
    rintro ⟨tail, begins, matched⟩
    exact ⟨tail, begins, matched⟩
  · rw [if_neg blank, and_iff_right blank]
    by_cases directory : (Blanks.trim pattern).getLast? = some '/'
    · obtain ⟨q, whole⟩ := List.getLast?_eq_some_iff.mp directory
      rw [if_pos directory, whole, List.dropLast_concat]
      exact directory_iff (head_trimSlashes path)
    · rw [if_neg directory]
      exact globs_follow_iff directory

end Patterns

/-! ### Rules -/

section Rules

variable {itself : Bool} {path : List Char}

theorem codeownersFor_concat (rules : List Rule) (rule : Rule) (path : List Char) :
    codeownersFor (rules ++ [rule]) path =
      if matchesPattern rule.pattern path = true then rule.owners else codeownersFor rules path := by
  unfold codeownersFor
  rw [List.reverse_append, List.reverse_singleton, List.singleton_append, List.find?_cons]
  cases matchesPattern rule.pattern path <;> rfl

theorem ownedBy_concat {rules : List Rule} {rule : Rule} {owners : List String} :
    OwnedBy itself (rules ++ [rule]) path owners ↔
      Documented itself rule.pattern path ∧ owners = rule.owners ∨
        ¬ Documented itself rule.pattern path ∧ OwnedBy itself rules path owners := by
  unfold OwnedBy
  constructor
  · rintro (⟨front, last, later, whole, here, others, rfl⟩ | ⟨others, rfl⟩)
    · rcases List.eq_nil_or_concat later with rfl | ⟨later, end_, rfl⟩
      · obtain ⟨-, same⟩ := List.append_inj' whole rfl
        obtain rfl := (List.cons.inj same).1
        exact .inl ⟨here, rfl⟩
      · rw [List.concat_eq_append] at whole others
        rw [← List.cons_append, ← List.append_assoc] at whole
        obtain ⟨rfl, same⟩ := List.append_inj' whole rfl
        obtain rfl := (List.cons.inj same).1
        exact .inr ⟨others rule (by simp), .inl ⟨front, last, later, rfl, here,
          fun other member => others other (by simp [member]), rfl⟩⟩
    · exact .inr ⟨others rule (by simp), .inr ⟨fun other member =>
        others other (by simp [member]), rfl⟩⟩
  · rintro (⟨here, rfl⟩ | ⟨absent, ⟨front, last, later, rfl, here, others, rfl⟩ | ⟨others, rfl⟩⟩)
    · exact .inl ⟨rules, rule, [], rfl, here, by simp, rfl⟩
    · refine .inl ⟨front, last, later ++ [rule], by simp, here, fun other member => ?_, rfl⟩
      rcases List.mem_append.mp member with early | end_
      · exact others other early
      · exact List.mem_singleton.mp end_ ▸ absent
    · refine .inr ⟨fun other member => ?_, rfl⟩
      rcases List.mem_append.mp member with early | end_
      · exact others other early
      · exact List.mem_singleton.mp end_ ▸ absent

theorem plain_concat {patterns : List (List Char)} {pattern : List Char} :
    Plain itself (patterns ++ [pattern]) path ↔
      PlainFor itself (Blanks.trim pattern) (trimSlashes path) ∧
        (¬ Documented itself pattern path → Plain itself patterns path) := by
  unfold Plain
  constructor
  · intro plain
    refine ⟨plain patterns pattern [] rfl (by simp), fun absent front early later whole others => ?_⟩
    refine plain front early (later ++ [pattern]) (by rw [whole]; simp) fun other member => ?_
    rcases List.mem_append.mp member with before | end_
    · exact others other before
    · exact List.mem_singleton.mp end_ ▸ absent
  · rintro ⟨last, earlier⟩ front early later whole others
    rcases List.eq_nil_or_concat later with rfl | ⟨later, end_, rfl⟩
    · obtain ⟨-, same⟩ := List.append_inj' whole rfl
      obtain rfl := (List.cons.inj same).1
      exact last
    · rw [List.concat_eq_append] at whole others
      rw [← List.cons_append, ← List.append_assoc] at whole
      obtain ⟨rfl, same⟩ := List.append_inj' whole rfl
      obtain rfl := (List.cons.inj same).1
      exact earlier (others pattern (by simp)) front early later rfl fun other member =>
        others other (by simp [member])

theorem owners_ne {rules : List Rule} {owners : List String} {name : String}
    (others : ∀ rule ∈ rules, rule.owners ≠ [name]) (owned : OwnedBy itself rules path owners) :
    owners ≠ [name] := by
  rcases owned with ⟨front, rule, later, rfl, -, -, rfl⟩ | ⟨-, rfl⟩
  · exact others rule (by simp)
  · exact (List.cons_ne_nil _ _).symm

theorem codeownersFor_ne {rules : List Rule} {name : String}
    (others : ∀ rule ∈ rules, rule.owners ≠ [name]) : codeownersFor rules path ≠ [name] := by
  unfold codeownersFor
  split
  next rule found => exact others rule (List.mem_reverse.mp (List.mem_of_find?_eq_some found))
  next => exact (List.cons_ne_nil _ _).symm

/-- **The owners of a path are those of the last rule that matches it as documented**, whoever the
owners of the rules are, exactly where the patterns are plain back to that rule. -/
theorem codeownersFor_iff (itself : Bool) (patterns : List (List Char)) (path : List Char) :
    (∀ rules : List Rule, rules.map Rule.pattern = patterns →
      OwnedBy itself rules path (codeownersFor rules path)) ↔ Plain itself patterns path := by
  induction patterns using List.reverseRecOn with
  | nil =>
    refine iff_of_true (fun rules none_ => ?_) fun front pattern later whole => ?_
    · obtain rfl := List.map_eq_nil_iff.mp none_
      exact .inr ⟨by simp, rfl⟩
    · cases (List.nil_eq_append_iff.mp whole).2
  | append_singleton patterns pattern ih =>
    rw [plain_concat, ← ih, ← matchesPattern_iff itself pattern path]
    constructor
    · intro owned
      have last : matchesPattern pattern path = true ↔ Documented itself pattern path := by
        -- one name for the last rule, another for all in front of it
        have others : ∀ rule ∈ patterns.map (fun p => (⟨p, ["b"]⟩ : Rule)),
            rule.owners ≠ ["a"] := by
          intro rule member
          obtain ⟨p, -, rfl⟩ := List.mem_map.mp member
          exact fun same => absurd (List.cons.inj same).1 (by decide)
        have apart := owned (patterns.map (fun p => ⟨p, ["b"]⟩) ++ [⟨pattern, ["a"]⟩]) (by
          rw [List.map_append, List.map_map]
          exact congrArg (· ++ [pattern]) (List.map_id patterns))
        rw [codeownersFor_concat, ownedBy_concat] at apart
        split_ifs at apart with matched
        · refine iff_of_true matched ?_
          rcases apart with ⟨here, -⟩ | ⟨-, owned⟩
          · exact here
          · exact absurd rfl (owners_ne others owned)
        · refine iff_of_false matched ?_
          rcases apart with ⟨-, same⟩ | ⟨absent, -⟩
          · exact absurd same (codeownersFor_ne others)
          · exact absent
      refine ⟨last, fun absent rules same => ?_⟩
      have whole := owned (rules ++ [⟨pattern, []⟩]) (by simp [same])
      rw [codeownersFor_concat, ownedBy_concat, if_neg (mt last.mp absent)] at whole
      exact (whole.resolve_left fun both => absent both.1).2
    · rintro ⟨last, earlier⟩ rules same
      obtain ⟨rules, rest, rfl, rfl, end_⟩ := List.map_eq_append_iff.mp same
      obtain ⟨rule, rfl, rfl⟩ := List.map_eq_singleton_iff.mp end_
      rw [codeownersFor_concat, ownedBy_concat]
      by_cases here : Documented itself rule.pattern path
      · rw [if_pos (last.mpr here)]
        exact .inl ⟨here, rfl⟩
      · rw [if_neg (mt last.mp here)]
        exact .inr ⟨here, earlier here rules rfl⟩

/-- Two stars do not match a slash, and a directory below another is not found. -/
theorem codeownersFor_fails :
    (codeownersFor [⟨['/', 's', '/', '*', '*'], ["@src"]⟩] "s/a/b".toList = [] ∧
      ∀ itself, ¬ OwnedBy itself [⟨['/', 's', '/', '*', '*'], ["@src"]⟩] "s/a/b".toList []) ∧
    codeownersFor [⟨"src/".toList, ["@src"]⟩] "app/src/x".toList = [] ∧
      ∀ itself, ¬ OwnedBy itself [⟨"src/".toList, ["@src"]⟩] "app/src/x".toList [] := by
  have trimmed : Blanks.trim ['/', 's', '/', '*', '*'] = ['/', 's', '/', '*', '*'] := by decide
  have deep : ∀ itself, Documented itself ['/', 's', '/', '*', '*'] "s/a/b".toList := by
    intro itself
    unfold Documented
    rw [trimmed]
    refine ⟨by decide, "s/a/b".toList, rfl, ?_⟩
    exact ⟨['s'], _, rfl, rfl, ['/'], _, rfl, rfl, "a/b".toList, [], rfl, trivial, rfl⟩
  have below : ∀ itself, Documented itself "src/".toList "app/src/x".toList := by
    intro itself
    refine ⟨by decide, "src/x".toList, .inr ⟨"app".toList, rfl⟩, .inl ⟨"src/".toList, ['x'], rfl, ?_⟩⟩
    exact matches_self "src/".toList
  have unowned : ∀ {itself : Bool} {rule : Rule} {path : List Char},
      Documented itself rule.pattern path → rule.owners ≠ [] → ¬ OwnedBy itself [rule] path [] := by
    intro itself rule path here named owned
    rcases (@ownedBy_concat itself path [] rule []).mp owned with ⟨-, same⟩ | ⟨absent, -⟩
    · exact named same.symm
    · exact absent here
  refine ⟨⟨?_, fun itself => unowned (deep itself) (by decide)⟩, by decide,
    fun itself => unowned (below itself) (by decide)⟩
  have unmatched : ¬ matchesPattern ['/', 's', '/', '*', '*'] "s/a/b".toList = true := by
    unfold matchesPattern
    dsimp only
    rw [trimmed, if_neg (by decide), if_neg (by decide), globs_iff]
    rintro ⟨tail, rfl, matched⟩
    obtain ⟨run, rest, whole, rfl, run', rest', rfl, rfl, matched⟩ := matched
    obtain rfl : rest' = "a/b".toList := (List.cons.inj (List.cons.inj whole).2).2.symm
    obtain ⟨run, rest, whole, within, run', rest', rfl, within', rfl⟩ := matched
    have slash : '/' ∈ run ++ (run' ++ []) := whole ▸ (by decide : '/' ∈ "a/b".toList)
    simp only [List.append_nil, List.mem_append] at slash
    exact slash.elim within within'
  exact (codeownersFor_concat [] _ _).trans (if_neg unmatched)

end Rules

end Lain.Server.Codeowners
