import Mathlib
import Lain.Schema
import Lain.Foundation.Text

/-!
# Repository and global ids

A node of the federation goes by `repo:Kind:path:name:line`, with the colons
and percent signs of the path and the name encoded.
-/

namespace Lain

open Foundation Contracts

def NodeType.debug : NodeType → String
  | .file => "File"
  | .namespace => "Namespace"
  | .module => "Module"
  | .package => "Package"
  | .«class» => "Class"
  | .interface => "Interface"
  | .struct => "Struct"
  | .enum => "Enum"
  | .trait => "Trait"
  | .function => "Function"
  | .method => "Method"
  | .property => "Property"
  | .variable => "Variable"
  | .constant => "Constant"
  | .httpRoute => "HttpRoute"
  | .topic => "Topic"
  | .resource => "Resource"
  | .schema => "Schema"
  | .httpClientCall => "HttpClientCall"
  | .field => "Field"
  | .fieldRef => "FieldRef"
  | .synthetic => "Synthetic"
  | .table => "Table"

/-- Every node kind, in declaration order. -/
def NodeType.all : List NodeType :=
  [.file, .namespace, .module, .package, .«class», .interface, .struct, .enum, .trait,
    .function, .method, .property, .variable, .constant, .httpRoute, .topic, .resource,
    .schema, .httpClientCall, .field, .fieldRef, .synthetic, .table]

namespace Federation

def repoIdNew (s : String) : Option RepoId :=
  if s = "" ∨ Text.contains s ':' ∨ Text.contains s '/' then none else some s

/-- Encode the percent signs and colons of one segment. -/
def encodeSegment (s : String) : String :=
  String.ofList <| s.toList.flatMap fun c =>
    if c = '%' then ['%', '2', '5'] else if c = ':' then ['%', '3', 'A'] else [c]

def decodeChars : List Char → List Char
  | [] => []
  | '%' :: '2' :: '5' :: rest => '%' :: decodeChars rest
  | '%' :: '3' :: 'A' :: rest => ':' :: decodeChars rest
  | '%' :: '3' :: 'a' :: rest => ':' :: decodeChars rest
  | c :: rest => c :: decodeChars rest

/-- Decode one segment. -/
def decodeSegment (s : String) : String :=
  String.ofList (decodeChars s.toList)

/-- The id of a node across the federation. -/
abbrev GlobalId := String

namespace GlobalId

/-- The id of a node at its place. -/
def new (repo : RepoId) (kind : NodeType) (path name : String) (lineStart : Option Nat) :
    GlobalId :=
  s!"{repo}:{kind.debug}:{encodeSegment path}:{encodeSegment name}:{lineStart.getD 0}"

/-- Read an id: five segments, a known kind, and a line that fits 32 bits. -/
def parse (s : String) : Option GlobalId :=
  match Text.split s ':' with
  | [_, kind, _, _, line] =>
    if NodeType.all.any fun k => decide (k.debug = kind) then
      match Text.parseNat line with
      | some n => if n < 2 ^ 32 then some s else none
      | none => none
    else none
  | _ => none

/-- The repository of an id. -/
def repoId (id : GlobalId) : String :=
  (Text.split id ':').headD ""

/-- The file of an id, decoded. -/
def path (id : GlobalId) : Option String :=
  match Text.split id ':' with
  | [_, _, path, _, _] => some (decodeSegment path)
  | _ => none

/-- The symbol an id names, decoded. -/
def name (id : GlobalId) : Option String :=
  match Text.split id ':' with
  | [_, _, _, name, _] => some (decodeSegment name)
  | _ => none

/-- The line of an id; an id may carry more segments, the fifth counts. -/
def lineStart (id : GlobalId) : Option Nat :=
  ((Text.split id ':')[4]?.bind Text.parseNat).filter fun line => decide (line < 2 ^ 32)

theorem parse_eq_some {s : String} {id : GlobalId} (parsed : parse s = some id) : id = s := by
  unfold parse at parsed
  split at parsed
  · split at parsed
    · split at parsed
      · split at parsed <;> simp_all
      · cases parsed
    · cases parsed
  · cases parsed

end GlobalId

end Federation

end Lain
