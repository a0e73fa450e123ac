import Mathlib
import Lain.Contracts.Keys

/-!
# The text of a path

A path is written with a dot between its segments, and the reserved characters of a name are
escaped everywhere but at its first place.
-/

namespace Lain.Contracts

open Foundation

/-! ### Writing -/

def escapeChar (c : Char) : List Char :=
  if c = '.' ∨ c = '[' ∨ c = ']' ∨ c = '{' ∨ c = '}' ∨ c = '\\' then ['\\', c] else [c]

def escapeTail (cs : List Char) : List Char :=
  cs.flatMap escapeChar

/-- A name with its separators escaped; the first character is escaped only as a dollar. -/
def escapeName (s : String) : String :=
  match s.toList with
  | [] => ""
  | first :: rest =>
    String.ofList <|
      (if first = '$' ∧ s ≠ "$query" then ['\\', first] else [first]) ++ escapeTail rest

namespace JsonPath

def displayFrom : Bool → JsonPath → String
  | _, [] => ""
  | first, .name segment :: rest =>
    (if first then "" else ".") ++ escapeName segment ++ displayFrom false rest
  | _, .arrayItems :: rest => "[]" ++ displayFrom false rest
  | first, .mapValues :: rest =>
    (if first then "" else ".") ++ "\x7b\x7d" ++ displayFrom first rest

def display (path : JsonPath) : String :=
  displayFrom true path

end JsonPath

/-! ### What the reader makes of a name -/

namespace PathSegment

def isNamed : PathSegment → Bool
  | .name segment => decide (segment ≠ "")
  | _ => true

end PathSegment

namespace JsonPath

/-- No name of the path is empty. -/
def Named (path : JsonPath) : Prop :=
  ∀ segment ∈ path, segment.isNamed = true

instance namedDecidable (path : JsonPath) : Decidable path.Named :=
  inferInstanceAs (Decidable (∀ segment ∈ path, segment.isNamed = true))

def chars (first : Bool) (path : JsonPath) : List Char :=
  (displayFrom first path).toList

def Separates : List Char → Prop
  | [] => True
  | '.' :: _ => True
  | '[' :: ']' :: _ => True
  | _ => False

@[simp] theorem flushName_nil (segments : JsonPath) : flushName [] segments = segments := rfl

def charWeight (c : Char) : Nat :=
  if c = '\\' then 2 else 1

def weigh (cs : List Char) : Nat :=
  (cs.map charWeight).sum

def weight (path : JsonPath) : Nat :=
  (path.map fun segment =>
    match segment with
    | .name name => weigh name.toList
    | .arrayItems => 1
    | .mapValues => 1).sum

def pushed : List Char → Nat
  | [] => 0
  | ['\\'] => 0
  | '\\' :: escaped :: rest => charWeight escaped + pushed rest
  | '.' :: rest => pushed rest
  | '[' :: ']' :: rest => 1 + pushed rest
  | '{' :: '}' :: rest => 1 + pushed rest
  | ']' :: rest => pushed rest
  | '}' :: rest => pushed rest
  | c :: rest => charWeight c + pushed rest

theorem weight_append (front back : JsonPath) :
    weight (front ++ back) = weight front + weight back := by
  simp [weight]

end JsonPath

end Lain.Contracts
