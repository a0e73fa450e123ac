import Lain.Contracts.Model
import Lain.Foundation.Text
import Mathlib.Data.List.Lex
import Mathlib.Data.Prod.Lex
import Mathlib.Data.String.Basic

/-!
# Contract keys

The order of contract keys, which is the order of every table of endpoints,
and their text form.
-/

namespace Lain.Contracts

open Foundation

def HttpMethod.rank : HttpMethod → Nat
  | .get => 0
  | .post => 1
  | .put => 2
  | .patch => 3
  | .delete => 4
  | .head => 5
  | .options => 6
  | .any => 7

def MethodSpec.rank : MethodSpec → Nat
  | .known method => method.rank
  | .unknown => 8

def GraphqlOp.rank : GraphqlOp → Nat
  | .query => 0
  | .mutation => 1
  | .subscription => 2

def ContractKey.code : ContractKey → ℕ ×ₗ ℕ ×ₗ List String
  | .http method template => toLex (0, toLex (method.rank, [template]))
  | .topic broker name => toLex (1, toLex (0, [broker, name]))
  | .rpc .grpc service method => toLex (2, toLex (0, [service, method]))
  | .graphql op field => toLex (3, toLex (op.rank, [field]))
  | .webSocket route => toLex (4, toLex (0, [route]))
  | .table name => toLex (5, toLex (0, [name]))

theorem HttpMethod.rank_injective : Function.Injective HttpMethod.rank := by
  intro a b same
  cases a <;> cases b <;> first | rfl | cases same

theorem MethodSpec.rank_injective : Function.Injective MethodSpec.rank := by
  intro a b same
  cases a with
  | known method =>
    cases b with
    | known other => exact congrArg _ (HttpMethod.rank_injective same)
    | unknown => cases method <;> cases same
  | unknown =>
    cases b with
    | known other => cases other <;> cases same
    | unknown => rfl

theorem GraphqlOp.rank_injective : Function.Injective GraphqlOp.rank := by
  intro a b same
  cases a <;> cases b <;> first | rfl | cases same

theorem ContractKey.code_injective : Function.Injective ContractKey.code := by
  intro a b same
  have parts := Prod.ext_iff.mp (congrArg ofLex same)
  have ranks := (Prod.ext_iff.mp (congrArg ofLex parts.2)).1
  have texts := (Prod.ext_iff.mp (congrArg ofLex parts.2)).2
  cases a <;> cases b
  case http.http =>
    obtain ⟨rfl, _⟩ := List.cons.inj texts
    rw [MethodSpec.rank_injective ranks]
  case graphql.graphql =>
    obtain ⟨rfl, _⟩ := List.cons.inj texts
    rw [GraphqlOp.rank_injective ranks]
  all_goals simp_all [ContractKey.code]

instance : LinearOrder ContractKey :=
  LinearOrder.lift' ContractKey.code ContractKey.code_injective

/-- The unique identifier of an endpoint in a federation. -/
structure EndpointId where
  service : ServiceName
  key : ContractKey
  deriving DecidableEq

def EndpointId.code (id : EndpointId) : ServiceName ×ₗ ContractKey :=
  toLex (id.service, id.key)

theorem EndpointId.code_injective : Function.Injective EndpointId.code := by
  intro a b same
  have parts := Prod.ext_iff.mp (congrArg ofLex same)
  cases a
  cases b
  simp_all [EndpointId.code]

instance : LinearOrder EndpointId :=
  LinearOrder.lift' EndpointId.code EndpointId.code_injective

/-! ### The text form of a key -/

/-- The label of a verb. -/
def HttpMethod.label : HttpMethod → String
  | .get => "GET"
  | .post => "POST"
  | .put => "PUT"
  | .patch => "PATCH"
  | .delete => "DELETE"
  | .head => "HEAD"
  | .options => "OPTIONS"
  | .any => "ANY"

/-- The label of a verb that may be unknown. -/
def methodLabel : MethodSpec → String
  | .known method => method.label
  | .unknown => "UNKNOWN"

/-- The verb named by its upper-case label. -/
def HttpMethod.parse : String → Option HttpMethod
  | "GET" => some .get
  | "POST" => some .post
  | "PUT" => some .put
  | "PATCH" => some .patch
  | "DELETE" => some .delete
  | "HEAD" => some .head
  | "OPTIONS" => some .options
  | "ANY" => some .any
  | _ => none

/-- The verb named by its label, or the unknown one. -/
def parseMethodLabel (s : String) : Option MethodSpec :=
  if s = "UNKNOWN" then some .unknown else (HttpMethod.parse s).map .known

def GraphqlOp.display : GraphqlOp → String
  | .query => "query"
  | .mutation => "mutation"
  | .subscription => "subscription"

def ContractKey.display : ContractKey → String
  | .http method template => s!"http:{methodLabel method} {template}"
  | .topic broker name => s!"topic:{broker}/{name}"
  | .rpc _ service method => s!"rpc:{service}/{method}"
  | .graphql op field => s!"graphql:{op.display}:{field}"
  | .webSocket route => s!"websocket:{route}"
  | .table name => s!"table:{name}"

/-- The identifier of a key within its protocol. -/
def ContractKey.leaf : ContractKey → String
  | .http _ template => template
  | .topic _ name => name
  | .rpc _ _ method => method
  | .graphql _ field => field
  | .webSocket route => route
  | .table name => name

/-- The body of a topic key, with a slash or with exactly one colon. -/
def parseTopicBody (body : String) : Option ContractKey :=
  match Text.splitOnce body "/" with
  | some (broker, name) =>
    if broker = "" ∨ name = "" then none
    else if Text.contains broker ':' then none
    else some (.topic broker name)
  | none =>
    match Text.split body ':' with
    | [broker, name] => if broker = "" ∨ name = "" then none else some (.topic broker name)
    | _ => none

/-- The body of an RPC key, with a slash or with exactly two colons. -/
def parseRpcBody (body : String) : Option ContractKey :=
  match Text.splitOnce body "/" with
  | some (service, method) =>
    if service = "" ∨ method = "" then none
    else if Text.contains service ':' then none
    else some (.rpc .grpc service method)
  | none =>
    match Text.split body ':' with
    | [system, service, method] =>
      if system = "" ∨ service = "" ∨ method = "" then none
      else if system = "grpc" then some (.rpc .grpc service method)
      else none
    | _ => none

/-- The operation kind of a name. -/
def GraphqlOp.parse : String → Option GraphqlOp
  | "query" => some .query
  | "mutation" => some .mutation
  | "subscription" => some .subscription
  | _ => none

/-- A nonempty rest of a key. -/
def nonempty (s : String) : Option String :=
  if s = "" then none else some s

/-- Read the wire form of a key. -/
def ContractKey.fromStr (s : String) : Option ContractKey :=
  if let some rest := Text.stripPrefix s "http:" then
    (Text.splitOnce rest " ").bind fun cut =>
      (parseMethodLabel cut.1).map fun method => .http method cut.2
  else if let some rest := Text.stripPrefix s "topic:" then parseTopicBody rest
  else if let some rest := Text.stripPrefix s "rpc:" then parseRpcBody rest
  else if let some rest := Text.stripPrefix s "graphql:" then
    (Text.splitOnce rest ":").bind fun cut =>
      (GraphqlOp.parse cut.1).map fun op => .graphql op cut.2
  else if let some route := Text.stripPrefix s "websocket:" then
    (nonempty route).map .webSocket
  else if let some route := Text.stripPrefix s "ws:" then (nonempty route).map .webSocket
  else if let some name := Text.stripPrefix s "table:" then (nonempty name).map .table
  else none

def withKind (kinds : List String) (s : String) : String :=
  if kinds.any (Text.startsWith s) then s else s!"http:{s}"

/-- Read a key as bindings write it, where the kind of an HTTP key may be left out. -/
def parseContractKey (s : String) : Option ContractKey :=
  ContractKey.fromStr <| withKind
    ["http:", "topic:", "graphql:", "rpc:", "ws:", "websocket:", "table:"] s

/-- Read the key of a declared provider. -/
def declaredProviderKey (raw : String) : Option ContractKey :=
  ContractKey.fromStr <| withKind
    ["http:", "graphql:", "topic:", "rpc:", "ws:", "websocket:", "table:"] raw

/-! ### JSON paths -/

def PathSegment.code : PathSegment → ℕ ×ₗ String
  | .name segment => toLex (0, segment)
  | .arrayItems => toLex (1, "")
  | .mapValues => toLex (2, "")

theorem PathSegment.code_injective : Function.Injective PathSegment.code := by
  intro a b same
  have parts := Prod.ext_iff.mp (congrArg ofLex same)
  cases a <;> cases b <;> simp_all [PathSegment.code]

instance : LinearOrder PathSegment :=
  LinearOrder.lift' PathSegment.code PathSegment.code_injective

/-- End the name read so far; an empty one is dropped. -/
def flushName (current : List Char) (segments : JsonPath) : JsonPath :=
  if current.isEmpty then segments else segments ++ [.name (String.ofList current)]

def parsePath : List Char → List Char → JsonPath → Option JsonPath
  | [], current, segments => some (flushName current segments)
  | ['\\'], _, _ => none
  | '\\' :: escaped :: rest, current, segments => parsePath rest (current ++ [escaped]) segments
  | '.' :: rest, current, segments => parsePath rest [] (flushName current segments)
  | '[' :: ']' :: rest, current, segments =>
    parsePath rest [] (flushName current segments ++ [.arrayItems])
  | '{' :: '}' :: rest, current, segments =>
    parsePath rest [] (flushName current segments ++ [.mapValues])
  | ']' :: _, _, _ => none
  | '}' :: _, _, _ => none
  | c :: rest, current, segments => parsePath rest (current ++ [c]) segments

/-- Read the text form of a JSON path. -/
def JsonPath.fromStr (s : String) : Option JsonPath :=
  parsePath s.toList [] []

/-! ### Directions -/

def Direction.rank : Direction → Nat
  | .request => 0
  | .response => 1
  | .payload => 2

theorem Direction.rank_injective : Function.Injective Direction.rank := by
  intro a b same
  cases a <;> cases b <;> first | rfl | cases same

instance : LinearOrder Direction :=
  LinearOrder.lift' Direction.rank Direction.rank_injective

end Lain.Contracts
