import Lain.Joiner.ConsumerHttp

/-!
# Protocol consumers

Topics, RPC stubs, GraphQL operations, WebSockets and tables are joined by
equality of keys.
-/

namespace Lain.Joiner

open Foundation Contracts Federation

/-- What a resolver does with no or several candidates. -/
inductive AmbiguityPolicy where
  | noMatch
  | graphqlNoOp (routeOwner : Option ServiceName)
  | rpcStubUnknown
  deriving DecidableEq

def firstProviders (endpoints : EndpointTable) (candidateFilter : EndpointId → Bool) :
    List (EndpointId × GlobalId) :=
  endpoints.entries.filterMap fun entry =>
    if candidateFilter entry.1 then entry.2.head?.map fun p => (entry.1, p.id) else none

def sortEndpoints (bound : List EndpointId) : List EndpointId :=
  bound.insertionSort fun a b =>
    a.service < b.service ∨ a.service = b.service ∧ a.key.display ≤ b.key.display

def keyProvenance : EdgeProvenance := .static .regex

def keyEdge (callId : GlobalId) (ownService : ServiceName) (candidate : EndpointId × GlobalId) :
    BindsEdge where
  consumer := callId
  provider := candidate.2
  consumerService := ownService
  providerService := candidate.1.service
  targetEndpoint := candidate.1
  provenance := keyProvenance
  confidence := 1
  routeMatch := .exact

def bindAll (callId : GlobalId) (ownService : ServiceName)
    (candidates : List (EndpointId × GlobalId)) : Resolved where
  resolution :=
    { callId
      service := ownService
      target := some (.binds keyProvenance 1 .exact none)
      boundEndpoints := sortEndpoints (candidates.map Prod.fst)
      readsComplete := true }
  binds := candidates.map (keyEdge callId ownService)

def unresolved (callId : GlobalId) (ownService : ServiceName) (reason : UnresolvedReason)
    (targetService : Option ServiceName) : Resolved where
  resolution := unbound callId ownService true (.unresolved reason targetService)

/-- Join a call to the endpoints a filter admits, outside its own service. -/
def resolveByKey (callId : GlobalId) (endpoints : EndpointTable)
    (candidateFilter : EndpointId → Bool) (policy : AmbiguityPolicy)
    (ownService : ServiceName) : Resolved :=
  let admitted := firstProviders endpoints candidateFilter
  let own := admitted.filter fun c => decide (c.1.service = ownService)
  let candidates := admitted.filter fun c => decide (c.1.service ≠ ownService)
  if candidates.isEmpty && decide (own.length = 1) then
    -- The single provider of the own service is recorded without an edge.
    { resolution :=
        { callId
          service := ownService
          target := some .internal
          boundEndpoints := own.map Prod.fst
          readsComplete := true } }
  else
    match policy with
    | .noMatch =>
      if candidates.isEmpty then unresolved callId ownService .noMatch none
      else bindAll callId ownService candidates
    | .rpcStubUnknown =>
      if candidates.length = 1 then bindAll callId ownService candidates
      else unresolved callId ownService .rpcStubUnknown none
    | .graphqlNoOp routeOwner =>
      if candidates.length = 1 then bindAll callId ownService candidates
      else unresolved callId ownService .graphqlNoOp routeOwner

/-- Join a topic subscription. -/
def resolveTopicConsumer (callId : GlobalId) (consumer : TopicConsumerFact)
    (ownService : ServiceName) (endpoints : EndpointTable) : Resolved :=
  resolveByKey callId endpoints
    (fun id => decide (id.key = .topic consumer.broker consumer.name)) .noMatch ownService

def isGraphqlRoute (id : EndpointId) : Bool :=
  decide (id.key = .http (.known .post) "/graphql") || decide (id.key = .http .unknown "/graphql")

def graphqlRouteOwner (endpoints : EndpointTable) : Option ServiceName :=
  match endpoints.keys.filter isGraphqlRoute with
  | [id] => some id.service
  | _ => none

/-- Join a GraphQL selection. -/
def resolveGraphqlConsumer (callId : GlobalId) (consumer : GraphqlConsumerFact)
    (ownService : ServiceName) (endpoints : EndpointTable) : Resolved :=
  resolveByKey callId endpoints
    (fun id => decide (id.key = .graphql consumer.op consumer.field))
    (.graphqlNoOp (graphqlRouteOwner endpoints)) ownService

def servicesOfHost (config : ContractFederationConfig) (host : String) : List ServiceName :=
  ((config.services.filter fun s => s.hosts.any fun pattern =>
    hostMatchesPattern pattern host).map ServiceDecl.name).insertionSort (· ≤ ·)

def declaresEnv (config : ContractFederationConfig) (var : String) : Bool :=
  config.services.any fun s => s.env.contains var

def dialVars (config : ContractFederationConfig) (vars : List String) : List String :=
  match vars.filter (declaresEnv config) with
  | [only] => [only]
  | _ => vars

def channelServices (config : ContractFederationConfig) (channel : HostPart) :
    Except (UnresolvedReason × List String) (List ServiceName) :=
  match channel with
  | .literal host =>
    match servicesOfHost config host with
    | [] => .error (.rpcStubUnknown, [])
    | svcs => .ok svcs
  | .env [] => .error (.rpcStubUnknown, [])
  | .env vars =>
    let unmapped := (dialVars config vars).filter fun var => !declaresEnv config var
    if unmapped.isEmpty then
      let svcs := ((dialVars config vars).flatMap fun var =>
        (config.services.filter fun s => s.env.contains var).map ServiceDecl.name).foldl
          appendNew []
      .ok (svcs.insertionSort (· ≤ ·))
    else .error (.envUnmapped, unmapped)
  | .none | .expr _ => .error (.rpcStubUnknown, [])

def asciiLower (s : String) : String :=
  String.ofList (s.toList.map Char.toLower)

def packageQualified (service method : String) (key : ContractKey) : Bool :=
  match key with
  | .rpc _ provided providedMethod =>
    Text.endsWith (asciiLower provided) (asciiLower s!".{service}") &&
      decide (providedMethod = method)
  | _ => false

/-- Join a stub call: by its exact key, and else by the bare service name. -/
def resolveRpcConsumer (callId : GlobalId) (consumer : RpcConsumerFact)
    (ownService : ServiceName) (endpoints : EndpointTable)
    (config : ContractFederationConfig) : Resolved :=
  match channelServices config consumer.channelHostPart with
  | .error (reason, counted) =>
    { unresolved callId ownService reason none with unresolvedEnv := counted }
  | .ok services =>
    let exactly := resolveByKey callId endpoints
      (fun id => services.contains id.service &&
        decide (id.key = .rpc consumer.system consumer.service consumer.method))
      .rpcStubUnknown ownService
    if !exactly.resolution.boundEndpoints.isEmpty then exactly
    else
      resolveByKey callId endpoints
        (fun id => services.contains id.service &&
          packageQualified consumer.service consumer.method id.key)
        .rpcStubUnknown ownService

/-- Join a WebSocket connection; a literal host must belong to a service. -/
def resolveWebSocketConsumer (callId : GlobalId) (consumer : WebSocketConsumerFact)
    (ownService : ServiceName) (endpoints : EndpointTable)
    (config : ContractFederationConfig) : Resolved :=
  let join (allowed : List ServiceName) :=
    resolveByKey callId endpoints
      (fun id => decide (id.key = .webSocket consumer.route) &&
        (allowed.isEmpty || allowed.contains id.service))
      (.graphqlNoOp (some ownService)) ownService
  match consumer.url.host with
  | .literal host =>
    match servicesOfHost config host with
    | [] => unresolved callId ownService .noMatch none
    | allowed => join allowed
  | _ => join []

/-- Join a table reader: every table it reads must have an owner. -/
def resolveTableConsumer (callId : GlobalId) (consumer : TableConsumerFact)
    (ownService : ServiceName) (endpoints : EndpointTable) : Resolved :=
  let candidates := firstProviders endpoints fun id =>
    match id.key with
    | .table name => consumer.tables.contains name
    | _ => false
  let covered := (candidates.map fun c => c.1.key.leaf).dedup
  if candidates.isEmpty || decide (covered.length ≠ consumer.tables.dedup.length) then
    unresolved callId ownService .noMatch none
  else bindAll callId ownService candidates

/-- The topic name of a subscription whose topic is not a literal. -/
def topicDynamicSentinel : String := "<dynamic>"

/-- Join a fact of one of the protocols; other facts are left to the HTTP ladder. -/
def dispatch (callId : GlobalId) (ownService : ServiceName) (endpoints : EndpointTable)
    (config : ContractFederationConfig) : ContractFact → Option Resolved
  | .topicConsumer consumer =>
    if consumer.name = topicDynamicSentinel then
      some (unresolved callId ownService .dynamicTopic none)
    else some (resolveTopicConsumer callId consumer ownService endpoints)
  | .rpcConsumer consumer =>
    some (resolveRpcConsumer callId consumer ownService endpoints config)
  | .graphqlConsumer consumer =>
    some (resolveGraphqlConsumer callId consumer ownService endpoints)
  | .webSocketConsumer consumer =>
    some (resolveWebSocketConsumer callId consumer ownService endpoints config)
  | .tableConsumer consumer =>
    some (resolveTableConsumer callId consumer ownService endpoints)
  | _ => none

end Lain.Joiner
