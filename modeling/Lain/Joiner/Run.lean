import Lain.Joiner.ConsumerProtocol
import Lain.Joiner.FieldJoin

/-!
# The join

One pure function from the projected nodes and edges, the configuration, the
clients and the environment to the desired `binds` edges and the index.
-/

/-!
## Confirmed bindings

A binding of the configuration overrides the verdict of the tiers on every
call it names.
-/

namespace Lain.Joiner

open Foundation Contracts Federation

/-- Whether a consumer fact saw every read; only HTTP calls may not have. -/
def readsComplete : ContractFact → Bool
  | .consumer consumer => consumer.readsComplete
  | _ => true

def nodeKeys (node : GraphNode) : List (ContractKey × Bool) :=
  node.contract.flatMap fun fact => fact.consumerKeys.map fun key => (key, readsComplete fact)

structure CheckedBinding where
  consumer : ConfirmedBindingConsumer
  consumerKey : ContractKey
  endpoint : EndpointId
  provider : GlobalId
  source : String
  deriving DecidableEq

def checkBinding (endpoints : EndpointTable) (bindingIndex : Nat) (binding : ConfirmedBinding) :
    Except (Option StaleReason) CheckedBinding :=
  match parseContractKey binding.provider.key, parseContractKey binding.consumer.key with
  | some providerKey, some consumerKey =>
    if keysCompatible consumerKey providerKey then
      match (endpoints.get? ⟨binding.provider.service, providerKey⟩).bind List.head? with
      | some provider =>
        .ok
          { consumer := binding.consumer
            consumerKey
            endpoint := ⟨binding.provider.service, providerKey⟩
            provider := provider.id
            source := s!"repos.yaml#bindings[<{bindingIndex}>]" }
      | none => .error (some .noEndpoint)
    else .error (some .illFormedKeys)
  | _, _ => .error none

namespace CheckedBinding

def call? (binding : CheckedBinding) (node : GraphNode) : Option (GlobalId × Bool) :=
  match GlobalId.parse node.id with
  | none => none
  | some gid =>
    if binding.consumer.site.all (fun site => decide (site = gid)) = true ∧
        GlobalId.repoId gid = binding.consumer.repo ∧ node.path = binding.consumer.path ∧
        node.container.getD node.name = binding.consumer.symbol then
      ((nodeKeys node).find? fun k => decide (k.1 = binding.consumerKey)).map fun k =>
        (gid, k.2)
    else none

/-- The calls a binding confirms, in node order. -/
def calls (binding : CheckedBinding) (nodes : List GraphNode) : List (GlobalId × Bool) :=
  nodes.filterMap binding.call?

def ownService (binding : CheckedBinding) (assignments : SortedMap String ServiceName)
    (gid : GlobalId) : ServiceName :=
  (assignments.get? gid).getD binding.consumer.repo

/-- The edge of a confirmed call. -/
def edge (binding : CheckedBinding) (assignments : SortedMap String ServiceName)
    (gid : GlobalId) : BindsEdge where
  consumer := gid
  provider := binding.provider
  consumerService := binding.ownService assignments gid
  providerService := binding.endpoint.service
  targetEndpoint := binding.endpoint
  provenance := .confirmed binding.source
  confidence := 1
  routeMatch := .exact

/-- The resolution of a confirmed call. -/
def resolution (binding : CheckedBinding) (assignments : SortedMap String ServiceName)
    (call : GlobalId × Bool) : ConsumerResolution where
  callId := call.1
  service := binding.ownService assignments call.1
  target := some (.binds (.confirmed binding.source) 1 .exact none)
  boundEndpoints := [binding.endpoint]
  readsComplete := call.2

def overrides (binding : CheckedBinding) (existing : ConsumerResolution) : Bool :=
  existing.target.any ConsumerTarget.isBinds &&
    decide (existing.boundEndpoints.head?.map EndpointId.key = some binding.endpoint.key)

end CheckedBinding

/-- The stale record of a binding. -/
def staleBinding (binding : ConfirmedBinding) (reason : StaleReason) : StaleBinding where
  consumer :=
    { site := binding.consumer.site
      repo := (repoIdNew binding.consumer.repo).getD "unknown"
      path := binding.consumer.path
      symbol := binding.consumer.symbol
      key := binding.consumer.key }
  provider := ⟨binding.provider.service, binding.provider.key⟩
  reason

structure Verdicts where
  binds : List BindsEdge
  consumers : SortedMap GlobalId (List ConsumerResolution)
  stale : List StaleBinding := []

def Verdicts.confirm (binding : CheckedBinding) (assignments : SortedMap String ServiceName)
    (out : Verdicts) (call : GlobalId × Bool) : Verdicts where
  binds := out.binds ++ [binding.edge assignments call.1]
  consumers := out.consumers.alter call.1 fun old =>
    binding.resolution assignments call ::
      (old.getD []).filter fun existing => !binding.overrides existing
  stale := out.stale

/-- Record a binding that applies to nothing. -/
def Verdicts.report (out : Verdicts) (binding : ConfirmedBinding) (reason : StaleReason) :
    Verdicts :=
  { out with stale := out.stale ++ [staleBinding binding reason] }

/-- Apply one confirmed binding. -/
def applyConfirmedBinding (nodes : List GraphNode) (assignments : SortedMap String ServiceName)
    (endpoints : EndpointTable) (out : Verdicts) (entry : ConfirmedBinding × Nat) : Verdicts :=
  match checkBinding endpoints entry.2 entry.1 with
  | .ok checked =>
    match checked.calls nodes with
    | [] => out.report entry.1 .noConsumer
    | calls => calls.foldl (Verdicts.confirm checked assignments) out
  | .error (some reason) => out.report entry.1 reason
  | .error none => out

end Lain.Joiner

namespace Lain.Joiner

open Foundation Contracts Federation

structure JoinInput where
  nodes : List GraphNode
  edges : List GraphEdge := []
  config : ContractFederationConfig := {}
  registry : ClientRegistry := {}
  env : EnvBindingIndex := {}

/-! ### Order and duplicates of the output -/

def bindPair (b : BindsEdge) : String ×ₗ String :=
  toLex (b.consumer, b.provider)

def isConfirmed (b : BindsEdge) : Bool :=
  match b.provenance with
  | .confirmed _ => true
  | _ => false

def keepBind (last edge : BindsEdge) : BindsEdge :=
  if isConfirmed edge && !isConfirmed last then edge else last

def dedupFrom (last : BindsEdge) : List BindsEdge → List BindsEdge
  | [] => [last]
  | edge :: rest =>
    if bindPair last = bindPair edge then dedupFrom (keepBind last edge) rest
    else last :: dedupFrom edge rest

def dedupBinds : List BindsEdge → List BindsEdge
  | [] => []
  | first :: rest => dedupFrom first rest

def sortBinds (binds : List BindsEdge) : List BindsEdge :=
  dedupBinds (binds.insertionSort fun a b => bindPair a ≤ bindPair b)

def staleCode (stale : StaleBinding) :
    String ×ₗ String ×ₗ String ×ₗ String ×ₗ ℕ ×ₗ String :=
  toLex (stale.consumer.repo, toLex (stale.consumer.path, toLex (stale.consumer.symbol,
    toLex (stale.consumer.key, toLex (stale.consumer.site.isSome.toNat,
      stale.consumer.site.getD "")))))

/-! ### The endpoints of the index -/

def EndpointProviderRecord.toProvider (p : EndpointProviderRecord) : EndpointProvider :=
  match p.fact with
  | some (.provider pf) => ⟨p.id, pf.origin, pf.handler, pf.operationId⟩
  | _ => ⟨p.id, .code, none, none⟩

def endpointMethod : ContractKey → HttpMethod
  | .http (.known m) _ => m
  | _ => .any

/-- The schema of one direction of an endpoint; one without a schema node goes by its
first provider. -/
def endpointSchema (schemas : EndpointSchemas) (id : EndpointId)
    (providers : List EndpointProviderRecord) (dir : Direction) (fields : List ResponseField) :
    EndpointSchema where
  nodeId := ((schemas.schemaNode.get? id).bind fun nodes => nodes.get? dir).getD
    ((providers.head?.map EndpointProviderRecord.id).getD "unknown")
  fields := fields.foldl (fun out f => out.insert f.path f.fieldMeta) ∅

def toEndpoint (schemas : EndpointSchemas) (id : EndpointId)
    (providers : List EndpointProviderRecord) : Endpoint where
  id
  method := endpointMethod id.key
  template := id.key.leaf
  providers := providers.map EndpointProviderRecord.toProvider
  schemas := ((schemas.byEndpoint.get? id).getD ∅).mapEntries (endpointSchema schemas id providers)

def toServiceInfo (endpoints : EndpointTable) (s : ServiceDecl) : ServiceInfo where
  name := s.name
  repo := (repoIdNew s.repo).getD "unknown"
  paths := s.paths
  hosts := s.hosts
  env := s.env
  basePath := s.basePath
  routePrefixes := s.routePrefixes
  endpointIds := (endpoints.keys.filter fun id => decide (id.service = s.name)).insertionSort
    fun a b => endpointIdString a ≤ endpointIdString b

namespace JoinInput

variable (input : JoinInput)

def assignments : SortedMap String ServiceName :=
  assignServices input.nodes input.config

def endpoints : EndpointTable :=
  buildEndpoints input.nodes input.assignments input.config

def ownService (node : GraphNode) : ServiceName :=
  (input.assignments.get? node.id).getD (implicitService node)

def httpClientsMatch (consumer : ConsumerFact) : Bool :=
  (targetServiceFromHttpClient consumer input.config).isSome

def registryHasDef (consumer : ConsumerFact) : Bool :=
  match consumer.via with
  | .receiver expr _ _ => (input.registry.lookupName expr).isSome
  | .library _ => false

def resolveHttp (callId : GlobalId) (ownService : ServiceName) (consumer : ConsumerFact) :
    Option Resolved :=
  if isWrapperCandidate consumer && !input.registryHasDef consumer &&
      !input.httpClientsMatch consumer then
    if input.config.httpClients.isEmpty then none
    else
      some { resolution :=
        unbound callId ownService consumer.readsComplete (.unresolved .wrapperUnconfigured none) }
  else
    some (resolveConsumer callId consumer ownService input.config input.endpoints input.registry
      input.env)

def resolveFact (callId : GlobalId) (ownService : ServiceName) (fact : ContractFact) :
    Option Resolved :=
  match fact with
  | .consumer consumer => input.resolveHttp callId ownService consumer
  | other => dispatch callId ownService input.endpoints input.config other

/-- Resolve the facts of one node. -/
def resolveNode (node : GraphNode) : List Resolved :=
  match GlobalId.parse node.id with
  | none => []
  | some callId => node.contract.filterMap (input.resolveFact callId (input.ownService node))

/-- The verdicts of the tiers, in node order. -/
def resolved : List Resolved :=
  input.nodes.flatMap input.resolveNode

def tierVerdicts : Verdicts where
  binds := input.resolved.flatMap Resolved.binds
  consumers := .group (input.resolved.map fun r => (r.resolution.callId, r.resolution))

def verdicts : Verdicts :=
  input.config.bindings.zipIdx.foldl
    (applyConfirmedBinding input.nodes input.assignments input.endpoints) input.tierVerdicts

def schemas : EndpointSchemas :=
  collectEndpointSchemas input.nodes input.edges input.assignments input.config

def fieldRefs : SortedMap GlobalId FieldRefResolution × List BindsEdge :=
  resolveFieldRefs input.nodes input.edges input.verdicts.binds input.schemas

def isUnnormalized (r : ConsumerResolution) : Bool :=
  match r.target with
  | some (.unresolved .unnormalized _) | some (.unresolved .dynamicTopic _) => true
  | _ => false

/-- The index of the federation. -/
def index : ContractIndex where
  services := input.config.services.foldl
    (fun out s => out.insert s.name (toServiceInfo input.endpoints s)) ∅
  endpoints := input.endpoints.mapEntries (toEndpoint input.schemas)
  consumers := input.verdicts.consumers
  fieldRefs := input.fieldRefs.1
  staleBindings := input.verdicts.stale.insertionSort fun a b => staleCode a ≤ staleCode b
  external := .tally (input.resolved.flatMap Resolved.external)
  unnormalized :=
    ((input.resolved.filter fun r => isUnnormalized r.resolution).map fun r =>
      r.resolution.callId).insertionSort (· ≤ ·)

/-- Join the federation. -/
def run : JoinOutput where
  binds := sortBinds (input.verdicts.binds ++ input.fieldRefs.2)
  index := input.index
  unresolvedEnvVars := .tally (input.resolved.flatMap Resolved.unresolvedEnv)
  ambiguousEnvVars := (input.resolved.flatMap Resolved.ambiguousEnv).foldl
    (fun out entry => out.extend entry.1 entry.2) ∅

end JoinInput

end Lain.Joiner
