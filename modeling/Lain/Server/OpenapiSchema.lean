import Mathlib
import Lain.Contracts.Keys
import Lain.Foundation.SortedMap
import Lain.Foundation.TaskRuns
import Lain.Foundation.Yaml

/-!
# The fields of a schema

The schema sensor flattens the body of an OpenAPI schema to a field for every JSON path: it walks
properties, array items, additional properties and the branches of compositions, and follows
references to the components of the file.
-/

namespace Lain.Server

open Foundation TaskRuns Lain.Contracts

/-! ### Schemas -/

structure SpecFile where
  components : SortedMap String Yaml
  jsonText : Yaml → Option String

/-- What the `$ref` of a schema refers to. -/
inductive Reference where
  | none
  | external (ref : String)
  | unrecognized
  | component (name : String)
  deriving DecidableEq

/-- The component that a reference into the file names. -/
def referenceOf (ref : String) : Reference :=
  if !Text.startsWith ref "#" then .external ref
  else
    let stripped := (ref.toList.dropWhile fun c => decide (c = '#')).dropWhile fun c =>
      decide (c = '/')
    match Text.split (String.ofList stripped) '/' with
    | ["components", "schemas", name] => .component name
    | ["definitions", name] => .component name
    | _ => .unrecognized

/-- The reference of a schema. -/
def reference (schema : Yaml) : Reference :=
  match (schema.get "$ref").bind Yaml.asStr with
  | some ref => referenceOf ref
  | none => .none

/-- What a schema is once its reference is followed. -/
inductive ResolveResult where
  | ok (schema : Yaml) (chain via : List String)
  | skip (unresolved : List String)
  | cycle

/-- Follow the reference of a schema, unless it is on the chain of the components visited. -/
def resolveRef (spec : SpecFile) (schema : Yaml) (chain via : List String) : ResolveResult :=
  match reference schema with
  | .none => .ok schema chain via
  | .external ref => .skip [ref]
  | .unrecognized => .skip []
  | .component name =>
    if name ∈ chain then .cycle
    else
      match spec.components.get? name with
      | some target => .ok target (name :: chain) (via ++ [name])
      | none => .skip []

/-- The type a name stands for. -/
def primitiveType (value : Yaml) : TypeDesc :=
  match value.asStr with
  | some "string" => .string
  | some "integer" => .integer
  | some "number" => .number
  | some "boolean" => .boolean
  | some "object" => .object
  | some "array" => .array .unknown
  | _ => .unknown

/-- The type of a schema: the one it declares, beside `null`, or what its keywords tell. -/
def typeDescOf (schema : Yaml) : TypeDesc :=
  match schema.get "type" with
  | some declared =>
    match declared.asSequence with
    | some names =>
      match names.filter fun name => decide (name.asStr ≠ some "null") with
      | [name] => primitiveType name
      | _ => .unknown
    | none => primitiveType declared
  | none =>
    if (schema.get "properties").isSome then .object
    else if (schema.get "items").isSome then .array .unknown
    else if (schema.get "enum").isSome then .string
    else .unknown

/-- A schema that admits `null`, in one of three spellings. -/
def isNullable (schema : Yaml) : Bool :=
  ((schema.get "nullable").bind Yaml.asBool).getD false ||
    ((schema.get "x-nullable").bind Yaml.asBool).getD false ||
    (schema.items "type").any fun name => decide (name.asStr = some "null")

def wrapJson (json : String) : String :=
  if Text.startsWith json (String.singleton (Char.ofNat 34)) then json
  else String.singleton (Char.ofNat 34) ++ json ++ String.singleton (Char.ofNat 34)

/-- The values of an enumeration. -/
def enumValuesOf (spec : SpecFile) (schema : Yaml) : Option (List String) := do
  let values ← (← schema.get "enum").asSequence
  let texts ← values.mapM spec.jsonText
  return texts.map wrapJson

/-- What a schema tells of a field that is not required. -/
def fieldMetaFromSchema (spec : SpecFile) (schema : Yaml) : FieldMeta where
  ty := typeDescOf schema
  required := false
  nullable := isNullable schema
  enumValues := enumValuesOf spec schema

/-! ### The walk -/

/-- A flattened field, and the components whose references were followed to it. -/
structure FieldRecord where
  path : JsonPath
  fieldMeta : FieldMeta
  via : List String

structure Flattening where
  fields : List FieldRecord
  unresolvedRefs : List String
  seen : List JsonPath

inductive FlattenTask where
  | inner (schema : Yaml) (path : JsonPath) (chain via : List String)
  | property (schema : Yaml) (path : JsonPath) (required : Bool) (chain via : List String)
  | mapField (schema : Yaml) (path : JsonPath) (via : List String)

def FlattenTask.schema : FlattenTask → Yaml
  | .inner schema _ _ _ => schema
  | .property schema _ _ _ _ => schema
  | .mapField schema _ _ => schema

/-- The chain of components visited that a task has. -/
def FlattenTask.chain : FlattenTask → List String
  | .inner _ _ chain _ => chain
  | .property _ _ _ chain _ => chain
  | .mapField _ _ _ => []

/-- The path of a task. -/
def FlattenTask.path : FlattenTask → JsonPath
  | .inner _ path _ _ => path
  | .property _ path _ _ _ => path
  | .mapField _ path _ => path

def FlattenTask.via : FlattenTask → List String
  | .inner _ _ _ via => via
  | .property _ _ _ _ via => via
  | .mapField _ _ via => via

def propSegment (name : String) : PathSegment :=
  if Text.startsWith name "$" then .name ("\\" ++ name) else .name name

def requiredCombined (schema : Yaml) : List String :=
  ((schema.items "allOf").flatMap fun branch => branch.texts "required") ++
    schema.texts "required"

def looksLikeSchema (additional : Yaml) : Bool :=
  (additional.asMapping.getD []).any fun entry =>
    match entry.1.asStr with
    | some key => decide (key ∈ ["type", "$ref", "properties", "items", "allOf", "oneOf", "anyOf"])
    | none => false

def propertiesOf (schema : Yaml) : List (Yaml × Yaml) :=
  ((schema.get "properties").bind Yaml.asMapping).getD []

section Tasks

variable (resolved : Yaml) (path : JsonPath) (chain via : List String)

def branchTasks : List FlattenTask :=
  (resolved.items "allOf" ++ (resolved.items "oneOf" ++ resolved.items "anyOf")).map fun branch =>
    .inner branch path chain via

def propertyTasks : List FlattenTask :=
  (propertiesOf resolved).filterMap fun entry =>
    entry.1.asStr.map fun name =>
      .property entry.2 (path ++ [propSegment name]) (decide (name ∈ requiredCombined resolved))
        chain via

def itemTasks : List FlattenTask :=
  (resolved.get "items").toList.map fun items => .inner items (path ++ [.arrayItems]) chain via

def additionalTasks : List FlattenTask :=
  match resolved.get "additionalProperties" with
  | some additional =>
    if looksLikeSchema additional then
      [.mapField additional (path ++ [.mapValues]) via,
        .inner additional (path ++ [.mapValues]) chain via]
    else []
  | none => []

def innerTasks : List FlattenTask :=
  branchTasks resolved path chain via ++ (propertyTasks resolved path chain via ++
    (itemTasks resolved path chain via ++ additionalTasks resolved path chain via))

def belowTasks (ty : TypeDesc) : List FlattenTask :=
  match ty with
  | .array _ => itemTasks resolved path chain via
  | .object => [.inner resolved path chain via]
  | _ => []

end Tasks

/-- Add a field. -/
def emitField (state : Flattening) (path : JsonPath) (fieldMeta : FieldMeta) (via : List String) :
    Flattening :=
  { state with fields := state.fields ++ [⟨path, fieldMeta, via⟩] }

def mergeMeta (resolved : Yaml) (prior : FieldMeta) : FieldMeta :=
  { prior with
    ty := if prior.ty = typeDescOf resolved then prior.ty else .unknown
    nullable := prior.nullable || isNullable resolved }

def mergeField (path : JsonPath) (resolved : Yaml) : List FieldRecord → List FieldRecord
  | [] => []
  | prior :: fields =>
    if prior.path = path then
      { prior with fieldMeta := mergeMeta resolved prior.fieldMeta } :: fields
    else prior :: mergeField path resolved fields

def flattenStep (spec : SpecFile) (task : FlattenTask) (state : Flattening) :
    Flattening × List FlattenTask :=
  match task with
  | .inner schema path chain via =>
    match resolveRef spec schema chain via with
    | .ok resolved visited via => (state, innerTasks resolved path visited via)
    | .skip refs => ({ state with unresolvedRefs := state.unresolvedRefs ++ refs }, [])
    | .cycle => (state, [])
  | .property schema path required chain via =>
    match resolveRef spec schema chain via with
    | .skip refs => ({ state with unresolvedRefs := state.unresolvedRefs ++ refs }, [])
    | .cycle =>
      if path ∈ state.seen then (state, [])
      else
        (emitField { state with seen := path :: state.seen } path
          ⟨.object, required, false, none⟩ via, [])
    | .ok resolved _ via =>
      if path ∈ state.seen then
        ({ state with fields := mergeField path resolved state.fields }, [])
      else
        -- Below the field the walk goes on with the chain of the object, without the
        -- property's own reference.
        (emitField { state with seen := path :: state.seen } path
          { fieldMetaFromSchema spec resolved with required } via,
          belowTasks resolved path chain via (typeDescOf resolved))
  | .mapField schema path via =>
    (emitField state path (fieldMetaFromSchema spec schema) via, [])

def flattenRoot (schema : Yaml) : FlattenTask := .inner schema [] [] []

def noFields : Flattening := ⟨[], [], []⟩

/-- Flatten a schema, to a depth of calls. -/
def flattenSchema (spec : SpecFile) (depth : Nat) (schema : Yaml) : Option Flattening :=
  run (flattenStep spec) depth (flattenRoot schema) noFields

end Lain.Server
