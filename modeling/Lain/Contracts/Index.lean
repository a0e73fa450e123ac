import Lain.Contracts.Config
import Lain.Federation.RepoId
import Lain.Foundation.SortedMap

/-!
# The contract index

What a join produces: the desired `binds` edges and the index tools read,
with one resolution per consumer fact of each call site.
-/

namespace Lain.Contracts

open Foundation Federation

/-- Why a call could not be bound, or a sensor could not classify its input. -/
inductive UnresolvedReason where
  | noRouteInService | noMatch | unnormalized | wrapperUnconfigured
  | envUnmapped | envAmbiguous | rpcStubUnknown | graphqlNoOp
  | dynamicUrl | baseUnknown | dynamicTopic | externalRef | externalSchemaRef
  | dynamicSql | ormDynamicQuery
  deriving DecidableEq

/-- The way the joiner resolved a call. -/
inductive ConsumerTarget where
  | binds (provenance : EdgeProvenance) (confidence : ℚ) (routeMatch : RouteMatch)
      (strippedPrefix : Option String)
  | external (host : String)
  | internal
  | unresolved (reason : UnresolvedReason) (targetService : Option ServiceName)
  deriving DecidableEq

def ConsumerTarget.isBinds : ConsumerTarget → Bool
  | .binds .. => true
  | _ => false

/-- What the joiner decided for one consumer fact of a call. -/
structure ConsumerResolution where
  callId : GlobalId
  service : ServiceName
  target : Option ConsumerTarget
  boundEndpoints : List EndpointId := []
  readsComplete : Bool
  deriving DecidableEq

/-- One desired `binds` edge. -/
structure BindsEdge where
  consumer : GlobalId
  provider : GlobalId
  consumerService : ServiceName
  providerService : ServiceName
  targetEndpoint : EndpointId
  provenance : EdgeProvenance
  confidence : ℚ
  routeMatch : RouteMatch
  strippedPrefix : Option String := none
  deriving DecidableEq

/-- A provider of an endpoint. -/
structure EndpointProvider where
  nodeId : GlobalId
  origin : ProviderOrigin
  handler : Option SymbolKey
  operationId : Option String
  deriving DecidableEq

/-- The schema of one direction of an endpoint. -/
structure EndpointSchema where
  nodeId : GlobalId
  fields : SortedMap JsonPath FieldMeta
  deriving DecidableEq

/-- An endpoint with everything known about it. -/
structure Endpoint where
  id : EndpointId
  method : HttpMethod
  template : String
  providers : List EndpointProvider
  schemas : SortedMap Direction EndpointSchema
  deriving DecidableEq

/-- A declared service and its endpoints. -/
structure ServiceInfo where
  name : ServiceName
  repo : RepoId
  paths : List String
  hosts : List String
  env : List String
  basePath : Option String
  routePrefixes : List RoutePrefix
  endpointIds : List EndpointId
  deriving DecidableEq

/-- A field a read was joined to. -/
structure BoundField where
  field : GlobalId
  fieldPath : JsonPath
  endpoint : EndpointId
  confidence : ℚ
  deriving DecidableEq

/-- The resolution of one field read. -/
structure FieldRefResolution where
  fieldRefId : GlobalId
  service : ServiceName
  boundFields : List BoundField
  unknown : Bool
  call : String
  deriving DecidableEq

/-- Why a confirmed binding applies to nothing. -/
inductive StaleReason where
  | noConsumer | noEndpoint | illFormedKeys
  deriving DecidableEq

/-- The consumer a stale binding names. -/
structure ConfirmedBindingKey where
  site : Option String
  repo : RepoId
  path : String
  symbol : String
  key : String
  deriving DecidableEq

/-- The provider a stale binding names. -/
structure ConfirmedBindingProviderKey where
  service : ServiceName
  key : String
  deriving DecidableEq

/-- A confirmed binding that applies to nothing. -/
structure StaleBinding where
  consumer : ConfirmedBindingKey
  provider : ConfirmedBindingProviderKey
  reason : StaleReason
  deriving DecidableEq

/-- The index of a federation. -/
structure ContractIndex where
  services : SortedMap ServiceName ServiceInfo := ∅
  endpoints : SortedMap EndpointId Endpoint := ∅
  consumers : SortedMap GlobalId (List ConsumerResolution) := ∅
  fieldRefs : SortedMap GlobalId FieldRefResolution := ∅
  staleBindings : List StaleBinding := []
  external : SortedMap String Nat := ∅
  unnormalized : List GlobalId := []
  deriving DecidableEq

/-- The output of a join. -/
structure JoinOutput where
  binds : List BindsEdge
  index : ContractIndex
  unresolvedEnvVars : SortedMap String Nat := ∅
  ambiguousEnvVars : SortedMap String (List String) := ∅
  deriving DecidableEq

end Lain.Contracts
