import Lain.Joiner.Endpoints
import Lain.Contracts.RouteMatch
import Lain.Contracts.Clients

/-!
# HTTP consumers

The ladder that finds the service an HTTP call dials and the endpoint of that
service it reaches.
-/

namespace Lain.Joiner

open Foundation Contracts Federation

/-- A resolution and what it adds to the accumulators of the join: edges, counted
external hosts, counted unresolved variables, and names under ambiguous hosts. -/
structure Resolved where
  resolution : ConsumerResolution
  binds : List BindsEdge := []
  external : List String := []
  unresolvedEnv : List String := []
  ambiguousEnv : List (String × List String) := []
  deriving DecidableEq

def unbound (callId : GlobalId) (ownService : ServiceName) (readsComplete : Bool)
    (target : ConsumerTarget) : ConsumerResolution where
  callId := callId
  service := ownService
  target := some target
  readsComplete := readsComplete

/-! ### Wrapper clients -/

/-- A pattern matches a call, where `{method}` stands for any text. -/
def patternMatches (pattern fnName : String) : Bool :=
  match Text.splitOnce pattern "{method}" with
  | some (head, tail) =>
    Text.startsWith fnName head && Text.endsWith fnName tail &&
      decide (head.utf8ByteSize + tail.utf8ByteSize ≤ fnName.utf8ByteSize)
  | none => decide (fnName = pattern)

/-- The service of a declared wrapper client. -/
def targetServiceFromHttpClient (consumer : ConsumerFact) (config : ContractFederationConfig) :
    Option ServiceName :=
  match consumer.via with
  | .receiver expr fnName _ =>
    (config.httpClients.find? fun e => patternMatches e.call s!"{expr}.{fnName}").map
      HttpClientDecl.service
  | .library _ => none

/-- The service the base of a registered client reaches. -/
def targetServiceViaRegistry (consumer : ConsumerFact) (registry : ClientRegistry)
    (config : ContractFederationConfig) : Option ServiceName :=
  match consumer.via with
  | .receiver expr _ _ =>
    registry.iter.findSome? fun entry =>
      if entry.1 ≠ expr ∨ entry.2.base = [] then none
      else
        let template := consumer.url.template.getD ""
        let pathPart := if template = "" then "/" else template
        serviceFromHost (composedHost [.literal pathPart] entry.2.base) config
  | .library _ => none

/-- A call through a receiver may be a wrapper. -/
def isWrapperCandidate (consumer : ConsumerFact) : Bool :=
  match consumer.via with
  | .receiver .. => true
  | .library _ => false

/-! ### The endpoints of one service -/

def keySpecificity : ContractKey → List Nat
  | .http _ template => templateSpecificity template
  | _ => templateSpecificity ""

/-- The endpoints of a service the call matches, in table order, each as its first
matching provider does. -/
def candidates (service : ServiceName) (method : MethodSpec) (template : String)
    (endpoints : EndpointTable) : List (ContractKey × MatchDetail) :=
  endpoints.entries.filterMap fun entry =>
    if entry.1.service = service then
      (entry.2.findSome? fun p => matchRoute method template p.method p.template).map
        fun detail => (entry.1.key, detail)
    else none

/-- The most specific endpoint of a service the call matches. -/
def bestProviderForIn (service : ServiceName) (method : MethodSpec) (template : String)
    (rule3 : Bool) (endpoints : EndpointTable) : Option (ContractKey × MatchDetail) :=
  let sorted := (candidates service method template endpoints).insertionSort
    fun a b => keySpecificity b.1 ≤ keySpecificity a.1
  if rule3 then sorted.head?
  else
    match sorted.find? fun c => decide (c.2.kind ≠ .prefixStripped) with
    | some direct => some direct
    | none => sorted.head?

def EndpointProviderRecord.operationId (p : EndpointProviderRecord) : Option String :=
  match p.fact with
  | some (.provider pf) => pf.operationId
  | _ => none

/-- The first endpoint of a service with a provider of an operation id, and that
provider. -/
def findEndpointByOperationId (service : ServiceName) (fnName : String)
    (endpoints : EndpointTable) : Option (ContractKey × GlobalId) :=
  endpoints.entries.findSome? fun entry =>
    if entry.1.service = service then
      (entry.2.find? fun p => decide (p.operationId = some fnName)).map fun p =>
        (entry.1.key, p.id)
    else none

/-- The first provider of an endpoint. -/
def providerNodeId (endpoints : EndpointTable) (service : ServiceName) (key : ContractKey) :
    GlobalId :=
  ((endpoints.get? ⟨service, key⟩).bind List.head?).elim "unknown" EndpointProviderRecord.id

/-- The provenance of a bind by route. -/
def provenanceForDetail (detail : MatchDetail) : EdgeProvenance :=
  if detail.kind = .prefixStripped then .heuristic "prefix_stripped" detail.confidence
  else if detail.confidence = 1 then .static .treeSitter
  else if detail.confidence = 6 / 10 then .heuristic "method_unknown" detail.confidence
  else .heuristic "static" detail.confidence

/-- The confidence of a bind by operation id. -/
def operationIdConfidence : ℚ := 9 / 10

def bindOne (callId : GlobalId) (consumer : ConsumerFact) (ownService targetService : ServiceName)
    (key : ContractKey) (provider : GlobalId) (provenance : EdgeProvenance) (confidence : ℚ)
    (routeMatch : RouteMatch) (strippedPrefix : Option String) : Resolved where
  resolution :=
    { callId
      service := ownService
      target := some (.binds provenance confidence routeMatch strippedPrefix)
      boundEndpoints := [⟨targetService, key⟩]
      readsComplete := consumer.readsComplete }
  binds :=
    [{ consumer := callId
       provider
       consumerService := ownService
       providerService := targetService
       targetEndpoint := ⟨targetService, key⟩
       provenance
       confidence
       routeMatch
       strippedPrefix }]

def matchByOperationId (callId : GlobalId) (consumer : ConsumerFact)
    (ownService targetService : ServiceName) (endpoints : EndpointTable) : Resolved :=
  let found :=
    match consumer.via with
    | .receiver _ fnName _ => findEndpointByOperationId targetService fnName endpoints
    | .library _ => none
  match found with
  | some (key, provider) =>
    bindOne callId consumer ownService targetService key provider
      (.heuristic "operation_id" operationIdConfidence) operationIdConfidence .exact none
  | none =>
    ⟨unbound callId ownService consumer.readsComplete
      (.unresolved .noRouteInService (some targetService)), [], [], [], []⟩

/-- Match a call against the endpoints of the service it dials. -/
def matchOneService (callId : GlobalId) (consumer : ConsumerFact)
    (ownService targetService : ServiceName) (endpoints : EndpointTable) : Resolved :=
  match consumer.url.template with
  | none =>
    ⟨unbound callId ownService consumer.readsComplete
      (.unresolved .noRouteInService (some targetService)), [], [], [], []⟩
  | some template =>
    match bestProviderForIn targetService consumer.method template true endpoints with
    | none => matchByOperationId callId consumer ownService targetService endpoints
    | some (key, detail) =>
      -- A route found by stripping a prefix only yields to an operation id.
      if detail.kind = .prefixStripped then
        matchByOperationId callId consumer ownService targetService endpoints
      else
        bindOne callId consumer ownService targetService key
          (providerNodeId endpoints targetService key) (provenanceForDetail detail)
          detail.confidence detail.kind detail.strippedPrefix

/-! ### The ladder -/

/-- Hosts that are not another party's. -/
def hostIsExternalExempt (host : String) : Bool :=
  ["localhost", "127.0.0.1", "0.0.0.0", "[::1]", "host.docker.internal"].contains host

def hostAlias (callId : GlobalId) (consumer : ConsumerFact) (config : ContractFederationConfig) :
    Option HostAliasDecl :=
  let callPath := (GlobalId.path callId).getD ""
  config.hostAliases.find? fun a =>
    match consumer.url.host with
    | .expr expr => decide (a.host = some expr) || decide (a.file = some callPath)
    | .none => decide (a.file = some callPath)
    | _ => false

def genericKeys (config : ContractFederationConfig) : List ContractKey :=
  config.allGenericKeys.filterMap parseContractKey

def strongHit (config : ContractFederationConfig) (method : MethodSpec) (template : String)
    (p : EndpointProviderRecord) : Bool :=
  !(genericKeys config).contains (.http (.known p.method) p.template) &&
    match matchRoute method template p.method p.template with
    | some detail => decide (detail.kind ≠ .prefixStripped)
    | none => false

def unboundHits (config : ContractFederationConfig) (ownService : ServiceName)
    (method : MethodSpec) (template : String) (endpoints : EndpointTable) : List ServiceName :=
  (((endpoints.entries.filter fun entry =>
    decide (entry.1.service ≠ ownService) && entry.2.any (strongHit config method template)).map
      fun entry => entry.1.service).insertionSort (· ≤ ·)).dedup

/-- The confidence of a bind of an unknown host to the only service it may mean. -/
def unboundHostConfidence : ℚ := 6 / 10

/-- The confidence of a bind to one of several services. -/
def ambiguousConfidence : ℚ := 3 / 10

/-- The detector and confidence of a bind of an unknown host. -/
def heuristicProvenanceFor (hitCount : Nat) : String × ℚ :=
  if 1 < hitCount then ("ambiguous", ambiguousConfidence)
  else ("unbound_host", unboundHostConfidence)

def unboundEdge (callId : GlobalId) (consumer : ConsumerFact) (ownService : ServiceName)
    (template : String) (endpoints : EndpointTable) (heuristic : String × ℚ)
    (svc : ServiceName) : Option BindsEdge :=
  (bestProviderForIn svc consumer.method template false endpoints).map fun best =>
    { consumer := callId
      provider := providerNodeId endpoints svc best.1
      consumerService := ownService
      providerService := svc
      targetEndpoint := ⟨svc, best.1⟩
      provenance := .heuristic heuristic.1 heuristic.2
      confidence := heuristic.2
      routeMatch := best.2.kind
      strippedPrefix := best.2.strippedPrefix }

def resolveUnbound (callId : GlobalId) (consumer : ConsumerFact) (ownService : ServiceName)
    (config : ContractFederationConfig) (endpoints : EndpointTable) (template : String)
    (envUnmappedPending : Bool) : Resolved :=
  let hits := unboundHits config ownService consumer.method template endpoints
  if hits.isEmpty then
    ⟨unbound callId ownService consumer.readsComplete
      (.unresolved (if envUnmappedPending then .envUnmapped else .noMatch) none), [], [], [], []⟩
  else
    let heuristic := heuristicProvenanceFor hits.length
    let binds := hits.filterMap
      (unboundEdge callId consumer ownService template endpoints heuristic)
    { resolution :=
        { callId
          service := ownService
          target :=
            if binds.isEmpty then none
            else
              some (.binds (.heuristic heuristic.1 heuristic.2) heuristic.2
                (if hits.length = 1 then .exact else .pattern) none)
          boundEndpoints := binds.map BindsEdge.targetEndpoint
          readsComplete := consumer.readsComplete }
      binds }

def sameOrigin (consumer : ConsumerFact) (ownService : ServiceName) (template : String)
    (endpoints : EndpointTable) : Option ContractKey :=
  if consumer.url.host = .none ∧ Text.startsWith template "/" = true then
    match bestProviderForIn ownService consumer.method template false endpoints with
    | some (key, detail) => if detail.confidence = 1 then some key else none
    | none => none
  else none

def resolveByConfig (callId : GlobalId) (consumer : ConsumerFact) (ownService : ServiceName)
    (config : ContractFederationConfig) (endpoints : EndpointTable)
    (envUnmappedPending : Bool) : Resolved :=
  let verdict target : Resolved :=
    ⟨unbound callId ownService consumer.readsComplete target, [], [], [], []⟩
  match (targetServiceFromEnv consumer config).or (targetServiceFromHosts consumer config) with
  | some svc => matchOneService callId consumer ownService svc endpoints
  | none =>
    let foreign :=
      match consumer.url.host with
      | .literal host => if hostIsExternalExempt host then none else some host
      | _ => none
    match foreign with
    | some host => { verdict (.external host) with external := [host] }
    | none =>
      match hostAlias callId consumer config, consumer.url.template with
      | some aliased, _ =>
        matchOneService callId consumer ownService aliased.service endpoints
      | none, none => verdict (.unresolved .unnormalized none)
      | none, some template =>
        match sameOrigin consumer ownService template endpoints with
        | some key =>
          { verdict .internal with
            resolution :=
              { unbound callId ownService consumer.readsComplete .internal with
                boundEndpoints := [⟨ownService, key⟩] } }
        | none =>
          resolveUnbound callId consumer ownService config endpoints template
            envUnmappedPending

/-- Resolve one HTTP consumer fact. -/
def resolveConsumer (callId : GlobalId) (consumer : ConsumerFact) (ownService : ServiceName)
    (config : ContractFederationConfig) (endpoints : EndpointTable) (registry : ClientRegistry)
    (env : EnvBindingIndex) : Resolved :=
  match (targetServiceViaRegistry consumer registry config).or
      (targetServiceFromHttpClient consumer config) with
  | some svc => matchOneService callId consumer ownService svc endpoints
  | none =>
    match resolveEnvConsumer consumer env config with
    | some (.service svc, counted) =>
      { matchOneService callId consumer ownService svc endpoints with
        unresolvedEnv := counted }
    | some (.ambiguous hosts, counted) =>
      let names :=
        match consumer.url.host with
        | .env names => names
        | _ => []
      { resolution :=
          unbound callId ownService consumer.readsComplete (.unresolved .envAmbiguous none)
        unresolvedEnv := counted
        ambiguousEnv := hosts.map fun h => (s!"ambiguous:{h}", names) }
    | some (.unmapped, counted) =>
      { resolveByConfig callId consumer ownService config endpoints true with
        unresolvedEnv := counted }
    | none => resolveByConfig callId consumer ownService config endpoints false

end Lain.Joiner
