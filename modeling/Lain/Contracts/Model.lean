import Mathlib.Data.List.Basic

/-!
# Contract facts

The per-repository facts a sensor hangs on a graph node, the keys the joiner
derives from them, and the wire labels of those keys.
-/

namespace Lain.Contracts

/-- An HTTP verb; `any` is a declaration that accepts all of them. -/
inductive HttpMethod where
  | get | post | put | patch | delete | head | options | any
  deriving DecidableEq

/-- The verb of a call site, unknown when the source does not spell it. -/
inductive MethodSpec where
  | known (method : HttpMethod)
  | unknown
  deriving DecidableEq

/-- Which body of a route a schema describes. -/
inductive Direction where
  | request | response | payload
  deriving DecidableEq

/-- How a function is invoked at run time. -/
inductive EntryKind where
  | httpHandler | scheduled | cli | main
  deriving DecidableEq

/-- A position in a source file. -/
structure SourceSite where
  path : String
  line : Nat
  deriving DecidableEq

/-- A repository name. -/
abbrev RepoId := String

/-- A service name of the federation configuration. -/
abbrev ServiceName := String

/-- A symbol named by repository, file, container and identifier. -/
structure SymbolKey where
  repo : RepoId
  path : String
  container : Option String
  name : String
  deriving DecidableEq

/-- The GraphQL operation kinds. -/
inductive GraphqlOp where
  | query | mutation | subscription
  deriving DecidableEq

/-- The RPC families; only gRPC exists. -/
inductive RpcSystem where
  | grpc
  deriving DecidableEq

/-- The key of an endpoint within its service. -/
inductive ContractKey where
  | http (method : MethodSpec) (template : String)
  | topic (broker name : String)
  | rpc (system : RpcSystem) (service method : String)
  | graphql (op : GraphqlOp) (field : String)
  | webSocket (route : String)
  | table (name : String)
  deriving DecidableEq

/-- Whether a provider was read from code or from an OpenAPI document. -/
inductive ProviderOrigin where
  | code | openApi
  deriving DecidableEq

/-- One declaration of an HTTP route. -/
structure ProviderFact where
  method : HttpMethod
  template : String
  handler : Option SymbolKey
  operationId : Option String
  origin : ProviderOrigin
  deriving DecidableEq

/-- The host of an outbound URL, as far as the source spells it. -/
inductive HostPart where
  | none
  | literal (host : String)
  | env (vars : List String)
  | expr (text : String)
  deriving DecidableEq

/-- An outbound URL; `template` is absent when the path is dynamic. -/
structure NormalizedUrl where
  host : HostPart
  template : Option String
  deriving DecidableEq

/-- Where a wrapped client was constructed. -/
structure ClientSite where
  path : String
  line : Nat
  deriving DecidableEq

/-- The client value a receiver expression was traced back to. -/
structure BaseOrigin where
  client : String
  module : String
  site : ClientSite
  deriving DecidableEq

/-- Whether a call goes through a library or through a receiver. -/
inductive CallVia where
  | library (name : String)
  | receiver (expr fnName : String) (base : Option BaseOrigin)
  deriving DecidableEq

/-- One outbound HTTP call site. -/
structure ConsumerFact where
  method : MethodSpec
  url : NormalizedUrl
  via : CallVia
  urlExpr : String
  readsComplete : Bool
  deriving DecidableEq

/-- Whether a topic reader subscribes or is scheduled. -/
inductive TopicConsumerKind where
  | subscription | scheduled
  deriving DecidableEq

/-- One topic subscription. -/
structure TopicConsumerFact where
  broker : String
  name : String
  kind : TopicConsumerKind
  deriving DecidableEq

/-- One segment of a JSON path. -/
inductive PathSegment where
  | name (segment : String)
  | arrayItems
  | mapValues
  deriving DecidableEq

/-- A path into a JSON payload. -/
abbrev JsonPath := List PathSegment

instance : LawfulBEq JsonPath := inferInstance

/-- Which sensor minted a field read. -/
inductive FieldReadOrigin where
  | fieldAccess | graphqlConsumer
  deriving DecidableEq

/-- One field read from a call's response. -/
structure FieldReadFact where
  chain : JsonPath
  exact : Bool
  origin : FieldReadOrigin
  deriving DecidableEq

/-- One database table; `service` is filled in by the joiner. -/
structure Table where
  service : String
  name : String
  deriving DecidableEq

/-- The tables one function reads or writes. -/
structure TableConsumerFact where
  tables : List String
  deriving DecidableEq

/-- The type of a schema field. -/
inductive TypeDesc where
  | string | integer | number | boolean | object
  | array (items : TypeDesc)
  | unknown
  deriving DecidableEq

/-- One flattened field of a schema. -/
structure FieldMeta where
  ty : TypeDesc
  required : Bool
  nullable : Bool
  enumValues : Option (List String)
  deriving DecidableEq

/-- One RPC method declared by a proto file. -/
structure RpcProviderFact where
  system : RpcSystem
  service : String
  method : String
  requestType : String
  responseType : String
  handler : Option SymbolKey
  deriving DecidableEq

/-- One generated-stub call site. -/
structure RpcConsumerFact where
  system : RpcSystem
  service : String
  method : String
  channelTarget : Option String
  channelHostPart : HostPart
  deriving DecidableEq

/-- The registration pattern that linked an RPC handler. -/
inductive RpcHandlerOrigin where
  | cppRegister | javaGrpcService | goRegister | pythonServicer
  deriving DecidableEq

/-- A link from a generated service to its handler function. -/
structure RpcHandlerFact where
  rpcService : ContractKey
  handlerFunction : SymbolKey
  origin : RpcHandlerOrigin
  deriving DecidableEq

/-- One GraphQL root field of a schema document. -/
structure GraphqlProviderFact where
  op : GraphqlOp
  field : String
  returnType : String
  deriving DecidableEq

/-- One top-level selection of a GraphQL operation. -/
structure GraphqlConsumerFact where
  op : GraphqlOp
  field : String
  deriving DecidableEq

/-- The framework marker that linked a resolver. -/
inductive GraphqlHandlerOrigin where
  | apollo | graphqlJava | gqlgen | strawberry | graphene
  deriving DecidableEq

/-- A link from a root field to its resolver. -/
structure GraphqlHandlerFact where
  graphqlField : ContractKey
  handlerFunction : SymbolKey
  origin : GraphqlHandlerOrigin
  deriving DecidableEq

/-- One WebSocket endpoint declaration. -/
structure WebSocketProviderFact where
  route : String
  handler : Option SymbolKey
  deriving DecidableEq

/-- One WebSocket connection site. -/
structure WebSocketConsumerFact where
  url : NormalizedUrl
  route : String
  deriving DecidableEq

/-- A link from a WebSocket route to its handler. -/
structure WebSocketHandlerFact where
  route : String
  handler : SymbolKey
  deriving DecidableEq

/-- What a sensor may say about the node it classified. -/
inductive ContractFact where
  | provider (fact : ProviderFact)
  | consumer (fact : ConsumerFact)
  | schema (direction : Direction)
  | field (fact : FieldMeta)
  | fieldRead (fact : FieldReadFact)
  | topicConsumer (fact : TopicConsumerFact)
  | table (fact : Table)
  | rpcProvider (fact : RpcProviderFact)
  | rpcConsumer (fact : RpcConsumerFact)
  | rpcHandler (fact : RpcHandlerFact)
  | graphqlProvider (fact : GraphqlProviderFact)
  | graphqlConsumer (fact : GraphqlConsumerFact)
  | graphqlHandler (fact : GraphqlHandlerFact)
  | webSocketProvider (fact : WebSocketProviderFact)
  | webSocketConsumer (fact : WebSocketConsumerFact)
  | webSocketHandler (fact : WebSocketHandlerFact)
  | tableConsumer (fact : TableConsumerFact)
  deriving DecidableEq

/-- The keys a consumer-side fact names; other facts name none. -/
def ContractFact.consumerKeys : ContractFact → List ContractKey
  | .consumer c =>
    match c.url.template with
    | some template => [.http c.method template]
    | none => []
  | .topicConsumer t => [.topic t.broker t.name]
  | .rpcConsumer r => [.rpc r.system r.service r.method]
  | .graphqlConsumer g => [.graphql g.op g.field]
  | .webSocketConsumer w => [.webSocket w.route]
  | .tableConsumer t => t.tables.map .table
  | _ => []

end Lain.Contracts
