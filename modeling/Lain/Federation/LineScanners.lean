import Mathlib
import Lain.Foundation.ByteCursor
import Lain.Foundation.Text

/-!
# The line scanners

The anchor miner reads a line of text with cursors that count bytes: quoted literals, bare routes,
dotted identifiers and accesses of the environment.
-/

namespace Lain.Federation

open Foundation ByteCursor

/-! ### The scanners -/

abbrev Token := (Nat × Nat) × List Char

def isQuote (b : UInt8) : Bool := decide (b = 34) || decide (b = 39)

def scanLiteral (line : List Char) (q : UInt8) (i : Nat) (content : List Char) :
    Option (Nat × List Char × Bool) :=
  if inside : i < (bytes line).length then
    let b := (bytes line)[i]
    if escaped : b = 92 ∧ i + 1 < (bytes line).length then
      -- A backslash stands for whatever byte follows it.
      scanLiteral line q (i + 2) (content ++ [Char.ofNat ((bytes line)[i + 1]).toNat])
    else if b = q then some (i + 1, content, true)
    else if isQuote b then some (i, content, false)
    else
      match dropBytes line i with
      | none => none
      | some rest =>
        let ch := rest.head?.getD '?'
        scanLiteral line q (i + ch.utf8Size) (content ++ [ch])
  else some (i, content, false)
termination_by (bytes line).length - i
decreasing_by
  · omega
  · have := (rest.head?.getD '?').utf8Size_pos
    omega

theorem scanLiteral_le {line : List Char} {q : UInt8} {i j : Nat} {content text : List Char}
    {closed : Bool} (found : scanLiteral line q i content = some (j, text, closed)) : i ≤ j := by
  induction i, content using scanLiteral.induct line q with
  | case1 i content inside b escaped ih =>
    rw [scanLiteral, dif_pos inside, dif_pos escaped] at found
    exact (Nat.le_add_right i 2).trans (ih found)
  | case2 i content inside b escaped same =>
    rw [scanLiteral, dif_pos inside, dif_neg escaped, if_pos same] at found
    cases found
    exact Nat.le_add_right i 1
  | case3 i content inside b escaped same quote =>
    rw [scanLiteral, dif_pos inside, dif_neg escaped, if_neg same, if_pos quote] at found
    cases found
    exact le_refl _
  | case4 i content inside b escaped same quote failed =>
    rw [scanLiteral, dif_pos inside, dif_neg escaped, if_neg same, if_neg quote, failed] at found
    cases found
  | case5 i content inside b escaped same quote rest dropped ch ih =>
    rw [scanLiteral, dif_pos inside, dif_neg escaped, if_neg same, if_neg quote, dropped] at found
    exact (Nat.le_add_right i _).trans (ih found)
  | case6 i content outside =>
    rw [scanLiteral, dif_neg outside] at found
    cases found
    exact le_refl _

def quotedFrom (line : List Char) (i : Nat) : Option (List Token) :=
  if inside : i < (bytes line).length then
    let q := (bytes line)[i]
    if isQuote q then
      match scanned : scanLiteral line q (i + 1) [] with
      | none => none
      | some (j, content, terminated) =>
        have := scanLiteral_le scanned
        (quotedFrom line j).map fun later =>
          if terminated && !content.isEmpty then ((i, j), content) :: later else later
    else quotedFrom line (i + 1)
  else some []
termination_by (bytes line).length - i

def quotedStrings (line : List Char) : Option (List Token) := quotedFrom line 0

def isAsciiAlphabetic (b : UInt8) : Bool :=
  decide (65 ≤ b ∧ b ≤ 90) || decide (97 ≤ b ∧ b ≤ 122)

def isAsciiAlphanumeric (b : UInt8) : Bool :=
  isAsciiAlphabetic b || decide (48 ≤ b ∧ b ≤ 57)

/-- A byte that stands in a path: `_`, `.`, `/`, `-`, braces or `%`. -/
def isTokenChar (b : UInt8) : Bool :=
  isAsciiAlphanumeric b || decide (b ∈ ([95, 46, 47, 45, 123, 125, 37] : List UInt8))

/-- A byte of a route: `_`, `-`, `.`, `:`, `%`, braces, `*`, `+` or `/`. -/
def isRouteChar (b : UInt8) : Bool :=
  isAsciiAlphanumeric b ||
    decide (b ∈ ([95, 45, 46, 58, 37, 123, 125, 42, 43, 47] : List UInt8))

def trimRoute (token : List Char) : List Char :=
  (token.reverse.dropWhile fun c =>
    decide (c ∈ [',', ';', ')', ']', '}', Char.ofNat 34, Char.ofNat 39, ':'])).reverse

def minRouteLen : Nat := 4

def routeBegins (read : List UInt8) (i : Nat) : Bool :=
  let before := read[i - 1]?
  let after := read[i + 1]?
  decide (read[i]? = some 47) && (decide (i = 0) || !before.any isTokenChar) &&
    after.any fun b => decide (b ≠ 47) && decide (b ≠ 42)

def routesFrom (line : List Char) (i : Nat) : Option (List Token) :=
  if i < (bytes line).length then
    if routeBegins (bytes line) i then
      let j := i + 1 + (((bytes line).drop (i + 1)).takeWhile isRouteChar).length
      match slice line i j with
      | none => none
      | some text =>
        let token := trimRoute text
        (routesFrom line (max j (i + 1))).map fun later =>
          if decide ('/' ∈ token) && decide (minRouteLen ≤ (bytes token).length) then
            ((i, i + (bytes token).length), token) :: later
          else later
    else routesFrom line (i + 1)
  else some []
termination_by (bytes line).length - i

def unquotedRouteTokens (line : List Char) : Option (List Token) := routesFrom line 0

def beginsIdentifier (b : UInt8) : Bool := isAsciiAlphabetic b || decide (b = 95)

def identifierLength : List UInt8 → Nat
  | [] => 0
  | b :: rest =>
    if isAsciiAlphanumeric b || decide (b = 95) then 1 + identifierLength rest
    else if decide (b = 46) && rest.head?.any beginsIdentifier then 1 + identifierLength rest
    else 0

def identifiersFrom (line : List Char) (i : Nat) : Option (List Token) :=
  if inside : i < (bytes line).length then
    if beginsIdentifier (bytes line)[i] then
      let j := i + 1 + identifierLength ((bytes line).drop (i + 1))
      match slice line i j with
      | none => none
      | some token => (identifiersFrom line j).map fun later => ((i, j), token) :: later
    else identifiersFrom line (i + 1)
  else some []
termination_by (bytes line).length - i

def identifierTokens (line : List Char) : Option (List Token) := identifiersFrom line 0

/-! ### Accesses of the environment -/

/-- What the scanners take from Unicode. -/
structure CharClasses where
  isAlphanumeric : Char → Bool
  isWhitespace : Char → Bool

/-- The call shapes that access the environment. -/
structure AnchorShapes where
  envParenPrefixes : List (List Char)
  envBracketPrefixes : List (List Char)
  envIdentPrefixes : List (List Char)

def find (pattern text : List Char) : Option Nat :=
  (Text.cutChars pattern text).map fun cut => (bytes cut.1).length

def findNot (kind : Char → Bool) (text : List Char) : Option Nat :=
  if text.all kind then none else some (bytes (text.takeWhile kind)).length

namespace CharClasses

variable (classes : CharClasses)

def isNameChar (c : Char) : Bool := classes.isAlphanumeric c || decide (c = '_')

def trim (text : List Char) : List Char :=
  ((text.dropWhile classes.isWhitespace).reverse.dropWhile classes.isWhitespace).reverse

def innerLiteral (text : List Char) : Option (List Char) :=
  let t := classes.trim text
  let first := (bytes t)[0]?
  let last := (bytes t)[(bytes t).length - 1]?
  if 2 ≤ (bytes t).length ∧
      ((first = some 34 ∧ last = some 34) ∨ (first = some 39 ∧ last = some 39)) then
    slice t 1 ((bytes t).length - 1)
  else some t

def firstArgument (opener text : List Char) : Option (Option (List Char)) :=
  match opener.isPrefixOf? text with
  | none => some none
  | some rest =>
    match find [','] rest with
    | some stop => (slice rest 0 stop).bind fun argument =>
      (classes.innerLiteral argument).map some
    | none =>
      match [')'].isSuffixOf? rest with
      | some argument => (classes.innerLiteral argument).map some
      | none => some none

def qualifiedName (qualifier text : List Char) : Option (List Char) :=
  (qualifier.isPrefixOf? text).bind fun rest =>
    if rest.all classes.isNameChar then some rest else none

def orNext (first next : Option (Option (List Char))) : Option (Option (List Char)) :=
  first.bind fun
    | some name => some (some name)
    | none => next

def environSubscript (t : List Char) : Option (Option (List Char)) :=
  let opener := "os.environ[".toList
  if opener.isPrefixOf t && [']'].isSuffixOf t then
    (slice t (bytes opener).length ((bytes t).length - 1)).bind fun inner =>
      (classes.innerLiteral inner).map some
  else some none

def systemGetenv (t : List Char) : Option (Option (List Char)) :=
  match "System.getenv(".toList.isPrefixOf? t with
  | none => some none
  | some rest =>
    match find [')'] rest with
    | none => some none
    | some stop => (slice rest 0 stop).bind fun argument =>
      (classes.innerLiteral argument).map fun name =>
        if name.isEmpty then none else some name

def processSubscript (t : List Char) : Option (Option (List Char)) :=
  match "process.env[".toList.isPrefixOf? t with
  | none => some none
  | some rest =>
    match [']'].isSuffixOf? rest with
    | none => some none
    | some inner => (classes.innerLiteral inner).map some

def hostEnvName (text : List Char) : Option (Option (List Char)) :=
  let t := classes.trim text
  orNext (classes.environSubscript t) <|
    orNext (classes.firstArgument "os.environ.get(".toList t) <|
    orNext (classes.firstArgument "os.getenv(".toList t) <|
    orNext (classes.firstArgument "os.Getenv(".toList t) <|
    orNext (classes.systemGetenv t) <|
    orNext (classes.processSubscript t) <|
    orNext (some (classes.qualifiedName "process.env.".toList t)) <|
    orNext (some (classes.qualifiedName "settings.".toList t)) <|
    some (classes.qualifiedName "config.".toList t)

/-- The name of the variable that a call reads: what the grammar knows, the first literal, or the
identifier behind the last dot. -/
def envNameFromCall (call : List Char) : Option (Option (List Char)) :=
  orNext (classes.hostEnvName call) <|
    (quotedStrings call).map fun literals =>
      match literals.head? with
      | some literal => some literal.2
      | none =>
        let ident := (call.reverse.takeWhile fun c => decide (c ≠ '.')).reverse
        if !ident.isEmpty && ident.all classes.isNameChar then some ident else none

def enclosedFrom (line opener : List Char) (close : Char) (i : Nat) : Option (List Token) :=
  match _dropped : dropBytes line i with
  | none => none
  | some tail =>
    match find opener tail with
    | none => some []
    | some rel =>
      let start := i + rel
      let openEnd := start + (bytes opener).length
      match dropBytes line openEnd with
      | none => none
      | some after =>
        match find [close] after with
        | none => some []
        | some closeRel =>
          let stop := openEnd + closeRel + 1
          (slice line start stop).bind fun call =>
            (classes.envNameFromCall call).bind fun name =>
              (enclosedFrom line opener close (max stop (start + 1))).map fun later =>
                (name.map fun name => ((start, stop), name)).toList ++ later
termination_by (bytes line).length + 1 - i
decreasing_by
  have := (dropBytes_eq_some.mp _dropped).le_length
  omega

def dottedFrom (line opener : List Char) (i : Nat) : Option (List Token) :=
  match _dropped : dropBytes line i with
  | none => none
  | some tail =>
    match find opener tail with
    | none => some []
    | some rel =>
      let start := i + rel
      let idStart := start + (bytes opener).length
      match dropBytes line idStart with
      | none => none
      | some after =>
        let idEnd := ((findNot classes.isNameChar after).map fun n => idStart + n).getD
          (bytes line).length
        let found : Option (List Token) :=
          if idStart < idEnd then
            (slice line start idEnd).bind fun call =>
              (classes.envNameFromCall call).map fun name =>
                (name.map fun name => ((start, idEnd), name)).toList
          else some []
        found.bind fun found =>
          (dottedFrom line opener (max idEnd (start + 1))).map fun later => found ++ later
termination_by (bytes line).length + 1 - i
decreasing_by
  have := (dropBytes_eq_some.mp _dropped).le_length
  omega

/-- The shape of an environment variable: capitals, digits and underscores. -/
def isEnvShape (name : List Char) : Bool :=
  decide (4 ≤ (bytes name).length) && name.head?.any (fun c => decide ('A' ≤ c ∧ c ≤ 'Z')) &&
    (name.all fun c => decide ('A' ≤ c ∧ c ≤ 'Z') || c.isDigit || decide (c = '_')) &&
    decide ('_' ∈ name)

def extractEnvFromLine (line : List Char) (shapes : AnchorShapes) : Option (List Token) := do
  let parens ← shapes.envParenPrefixes.mapM fun opener => classes.enclosedFrom line opener ')' 0
  let brackets ← shapes.envBracketPrefixes.mapM fun opener =>
    classes.enclosedFrom line opener ']' 0
  let idents ← shapes.envIdentPrefixes.mapM fun opener => classes.dottedFrom line opener 0
  return (parens.flatten ++ brackets.flatten ++ idents.flatten).filter fun token =>
    isEnvShape token.2

end CharClasses

end Lain.Federation
