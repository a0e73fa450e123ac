import Lain.Contracts.Clients

/-!
# Normal form of a URL

A URL argument is read as its host and the template of its path: the query is cut off, the path is
split into segments, parameters and wildcards are rendered alike, and empty segments are dropped.
-/

namespace Lain.Contracts

open Foundation

/-! ### The query -/

/-- Drop everything from the first `?` or `#` of a literal. -/
def cutQueryOrFragment : List NormalizeUrlPart → List NormalizeUrlPart
  | [] => []
  | .hole h :: later => .hole h :: cutQueryOrFragment later
  | .literal s :: later =>
    let front := s.toList.takeWhile fun c => !(c = '?' || c = '#')
    if front.length = s.toList.length then .literal s :: cutQueryOrFragment later
    else if front.isEmpty then []
    else [.literal (String.ofList front)]

/-! ### Segments -/

/-- What stands between two texts at the ends of a string, if it is not empty. -/
def between (front tail s : String) : Option String :=
  if Text.startsWith s front ∧ Text.endsWith s tail ∧
      front.toList.length + tail.toList.length < s.toList.length then
    some (String.ofList ((s.toList.drop front.toList.length).take
      (s.toList.length - front.toList.length - tail.toList.length)))
  else none

def enclosed (front tail : Char) (seg : String) : Bool :=
  match between (String.singleton front) (String.singleton tail) seg with
  | some inner => !Text.contains inner front && !Text.contains inner tail
  | none => false

/-- A segment in the syntax of a parameter. -/
def isParameterSyntax (seg : String) : Bool :=
  match seg.toList with
  | ':' :: _ => true
  | '{' :: _ => enclosed '{' '}' seg
  | '<' :: _ => enclosed '<' '>' seg
  | '[' :: _ => enclosed '[' ']' seg
  | '$' :: rest => !rest.isEmpty && !rest.contains '$'
  | _ => false

section

variable (isAlphanumeric : Char → Bool)

/-- A segment in the syntax of a wildcard. -/
def isWildcard (seg : String) : Bool :=
  if seg = "*" then true
  else
    match Text.stripPrefix seg "*" with
    | some rest => decide (rest ≠ "") && rest.toList.all fun c => isAlphanumeric c || c = '_'
    | none =>
      match between "\x7b*" "\x7d" seg with
      | some inner => !Text.contains inner '{'
      | none =>
        match between "\x7b" ":path\x7d" seg with
        | some inner => !Text.contains inner '{' && !Text.contains inner ':'
        | none =>
          match between "<path:" ">" seg with
          | some inner => !Text.contains inner '<' && !Text.contains inner ':'
          | none => false

/-- One segment of a path. -/
inductive Segment where
  | empty
  | literal (text : String)
  | param
  | wildcard
  deriving DecidableEq

def NormalizeUrlPart.isHole : NormalizeUrlPart → Bool
  | .hole _ => true
  | .literal _ => false

def flushSegment (buf : List NormalizeUrlPart) : Segment :=
  if buf.any NormalizeUrlPart.isHole then .param
  else
    let text := String.join (buf.map NormalizeUrlPart.hostText)
    if text = "" then .empty
    else if isWildcard isAlphanumeric text then .wildcard
    else if isParameterSyntax text then .param
    else .literal text

def pushPiece (state : List Segment × List NormalizeUrlPart) (sub : String) :
    List Segment × List NormalizeUrlPart :=
  (state.1 ++ [flushSegment isAlphanumeric state.2], if sub = "" then [] else [.literal sub])

def pushPart (state : List Segment × List NormalizeUrlPart) :
    NormalizeUrlPart → List Segment × List NormalizeUrlPart
  | .literal s => (Text.split s '/').foldl (pushPiece isAlphanumeric) state
  | .hole h => (state.1, state.2 ++ [.hole h])

/-- The segments of a path. -/
def segmentize (parts : List NormalizeUrlPart) : List Segment :=
  let state := parts.foldl (pushPart isAlphanumeric) ([], [])
  state.1 ++ [flushSegment isAlphanumeric state.2]

end

/-- The segments without the empty ones; an empty path keeps one empty literal. -/
def clean (segments : List Segment) : List Segment :=
  let cleaned := segments.filter fun s => decide (s ≠ .empty)
  if cleaned.isEmpty then [.literal ""] else cleaned

/-! ### The template -/

/-- The text of a segment in a template. -/
def Segment.render : Segment → String
  | .empty => ""
  | .literal text => text
  | .param => "\x7b\x7d"
  | .wildcard => "\x7b**\x7d"

def Segment.isDynamic : Segment → Bool
  | .param => true
  | .wildcard => true
  | _ => false

/-- The template of the segments; it is unknown when all of them are dynamic. -/
def renderTemplate (segments : List Segment) : Option String :=
  if segments.isEmpty then some "/"
  else if segments.all Segment.isDynamic then none
  else some ("/" ++ "/".intercalate (segments.map Segment.render))

/-- The host and the template of a URL argument. -/
def normalize (isAlphanumeric : Char → Bool) (parts : List NormalizeUrlPart) : NormalizedUrl where
  host := (extractHost parts).1
  template := renderTemplate <| clean <| segmentize isAlphanumeric <|
    cutQueryOrFragment (extractHost parts).2

end Lain.Contracts
