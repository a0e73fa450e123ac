import Mathlib
import Lain.Foundation.Blanks
import Lain.Foundation.ByteCursor
import Lain.Foundation.SortedMap
import Lain.Foundation.Text
import Lain.Foundation.TextLines

/-!
# The line index of a specification

The index from the property paths of a specification to the lines of their keys: block YAML is read
line by line, by indentation, and JSON byte by byte.
-/

namespace Lain.Server.OpenapiLineIndex

open Foundation
open Foundation.ByteCursor (bytes slice dropBytes)
open Foundation.Blanks (trim trimEnd)
open Foundation.TextLines (lines)

/-- A property name. -/
abbrev Key := List Char

abbrev KeyPath := List Key

/-- The index: lines by path, and the lines of the text. -/
structure LineIndex where
  map : SortedMap KeyPath Nat
  source : List (List Char)

def position (n : Nat) : Key :=
  n.repr.toList

def wrap (n : Nat) : Nat :=
  n % 2 ^ 32

/-! ### YAML -/

/-- A property whose nested properties are indented more, and its path. -/
structure YamlFrame where
  keyIndent : Nat
  path : KeyPath

structure YamlState where
  map : SortedMap KeyPath Nat
  frames : List YamlFrame
  nextArrayIndex : SortedMap KeyPath Nat
  currentArrayIndex : SortedMap KeyPath Nat

/-- How many spaces a line begins with. -/
def leadingSpaces (raw : List Char) : Nat :=
  ((bytes raw).takeWhile fun b => decide (b = 32)).length

/-- A line of an array. -/
def startsWithDash (s : List Char) : Bool :=
  "- ".toList.isPrefixOf s || decide (s = "-".toList)

/-- A key without its quotes. -/
def unquoteYamlKey (key : List Char) : Option Key :=
  let bs := bytes key
  if 2 ≤ bs.length ∧
      (bs.head? = some 34 ∧ bs.getLast? = some 34 ∨ bs.head? = some 39 ∧ bs.getLast? = some 39) then
    slice key 1 (bs.length - 1)
  else some key

/-- The key of a line of a mapping; a line without one has none. -/
def yamlPropertyKey (body : List Char) : Option (Option Key) :=
  let s := ((['?'].isPrefixOf? body).getD body).dropWhile Blanks.isWhitespace
  match Text.cutChars [':'] s with
  | none => some none
  | some (key, _) => if key.isEmpty then some none else (unquoteYamlKey (trim key)).map some

def yamlText (raw : List Char) : Option (List Char) :=
  (dropBytes raw (leadingSpaces raw)).map trimEnd

def YamlState.enter (st : YamlState) (isArr : Bool) (keyIndent lineNo : Nat) (key : Key) :
    YamlState :=
  let frames := st.frames.dropWhile fun frame => decide (keyIndent ≤ frame.keyIndent)
  let parent := (frames.head?.map YamlFrame.path).getD []
  if isArr then
    let arrIdx := (st.nextArrayIndex.get? parent).getD 0
    let newPath := parent ++ [position arrIdx, key]
    { map := st.map.insert newPath lineNo
      frames := ⟨keyIndent, newPath⟩ :: frames
      nextArrayIndex := st.nextArrayIndex.insert parent (arrIdx + 1)
      currentArrayIndex := st.currentArrayIndex.insert parent arrIdx }
  else
    let newPath := match st.currentArrayIndex.get? parent with
      | some arrIdx => parent ++ [position arrIdx, key]
      | none => parent ++ [key]
    { st with
      map := st.map.insert newPath lineNo
      frames := ⟨keyIndent, newPath⟩ :: frames }

def yamlEntry (raw : List Char) : Option (Option (Bool × Nat × Key)) := do
  let lineIndent := leadingSpaces raw
  let stripped ← yamlText raw
  if stripped.isEmpty || ['#'].isPrefixOf stripped then return none
  let isArr := startsWithDash stripped
  let body ← if isArr then dropBytes stripped 2 else some stripped
  let keyIndent := if isArr then lineIndent + 2 else lineIndent
  return (← yamlPropertyKey body).map fun key => (isArr, keyIndent, key)

def yamlLine (st : YamlState) (line : List Char × Nat) : Option YamlState :=
  (yamlEntry line.1).map fun entry =>
    match entry with
    | none => st
    | some (isArr, keyIndent, key) => st.enter isArr keyIndent (wrap (wrap line.2 + 1)) key

/-- The index of a text in block YAML. -/
def buildYaml (content : List Char) : Option LineIndex := do
  let done ← (lines content).zipIdx.foldlM yamlLine ⟨∅, [], ∅, ∅⟩
  return { map := done.map, source := lines content }

/-! ### JSON -/

structure JsonWalk where
  map : SortedMap KeyPath Nat := ∅
  path : KeyPath := []
  containers : List Bool := []
  indices : List Nat := []
  lineNo : Nat := 1

structure JsonState extends JsonWalk where
  inString : Bool := false
  escape : Bool := false
  keyStart : Option Nat := none

def hexValue (c : Char) : Option Nat :=
  if '0' ≤ c ∧ c ≤ '9' then some (c.toNat - 48)
  else if 'a' ≤ c ∧ c ≤ 'f' then some (c.toNat - 87)
  else if 'A' ≤ c ∧ c ≤ 'F' then some (c.toNat - 55)
  else none

def fromStrRadix16 (code : List Char) : Option Nat :=
  let digits := match code with
    | '+' :: rest => rest
    | all => all
  if digits.isEmpty then none
  else digits.foldlM (fun n c => (hexValue c).map (16 * n + ·)) 0

def charFromU32 (n : Nat) : Option Char :=
  if n.isValidChar then some (Char.ofNat n) else none

/-- The text of a string between its quotes. -/
def unescapeJsonString : List Char → List Char
  | [] => []
  | '\\' :: rest =>
    match rest with
    | [] => ['\\']
    | 'n' :: rest => '\n' :: unescapeJsonString rest
    | 't' :: rest => '\t' :: unescapeJsonString rest
    | 'r' :: rest => '\r' :: unescapeJsonString rest
    | 'u' :: rest =>
      ((fromStrRadix16 (rest.take 4)).bind charFromU32).toList ++
        unescapeJsonString (rest.drop 4)
    | other :: rest => other :: unescapeJsonString rest
  | c :: rest => c :: unescapeJsonString rest
  termination_by s => s.length
  decreasing_by all_goals simp +arith

def isKeyBlank (b : UInt8) : Bool :=
  b = 32 || b = 9

def JsonWalk.pushKey (st : JsonWalk) (key : Key) : Option JsonWalk :=
  let inArray := st.containers.head?.getD false
  if !inArray then
    let path := st.path ++ [key]
    some { st with path, map := st.map.insert path st.lineNo }
  else
    let idx := st.indices.head?.getD 0
    match st.indices with
    | [] => none
    | _ :: outer =>
      let path := st.path ++ [position idx, key]
      some { st with path, indices := (idx + 1) :: outer, map := st.map.insert path st.lineNo }

def JsonWalk.outside (st : JsonWalk) (b : UInt8) : JsonWalk :=
  if b = 10 then { st with lineNo := wrap (st.lineNo + 1) }
  else if b = 123 then { st with containers := false :: st.containers }
  else if b = 91 then
    { st with
      containers := true :: st.containers
      indices := 0 :: st.indices
      path := st.path ++ [position 0] }
  else if b = 125 then { st with containers := st.containers.tail, path := st.path.dropLast }
  else if b = 93 then
    { st with
      containers := st.containers.tail
      indices := st.indices.tail
      path := st.path.dropLast }
  else if b = 44 then
    if st.containers.head?.getD false then
      let indices := match st.indices with
        | idx :: outer => (idx + 1) :: outer
        | [] => []
      { st with indices, path := st.path.dropLast ++ [position (indices.head?.getD 0)] }
    else { st with path := st.path.dropLast }
  else st

def buildJsonFrom (content : List Char) (i : Nat) (st : JsonState) : Option JsonState :=
  if inside : i < (bytes content).length then
    let b := (bytes content)[i]
    if st.inString then
      if st.escape then buildJsonFrom content (i + 1) { st with escape := false }
      else if b = 92 then buildJsonFrom content (i + 1) { st with escape := true }
      else if b = 34 then
        match st.keyStart.bind fun start => slice content start i with
        | none => none
        | some raw =>
          let j := i + 1 + (((bytes content).drop (i + 1)).takeWhile isKeyBlank).length
          if (bytes content)[j]? = some 58 then
            match st.pushKey (unescapeJsonString raw) with
            | none => none
            | some walk =>
              buildJsonFrom content (j + 1)
                { st with toJsonWalk := walk, inString := false }
          else buildJsonFrom content (i + 1) { st with inString := false }
      else buildJsonFrom content (i + 1) st
    else if b = 34 then
      buildJsonFrom content (i + 1) { st with inString := true, keyStart := some (i + 1) }
    else buildJsonFrom content (i + 1) { st with toJsonWalk := st.outside b }
  else some st
  termination_by (bytes content).length - i

/-- The index of a JSON text. -/
def buildJson (content : List Char) : Option LineIndex := do
  let done ← buildJsonFrom content 0 {}
  return { map := done.map, source := lines content }

/-- The index of a specification. -/
def build (content : List Char) : Option LineIndex :=
  if ['{'].isPrefixOf (content.dropWhile Blanks.isWhitespace) then buildJson content
  else buildYaml content

end Lain.Server.OpenapiLineIndex
