import Lain.Contracts.Index

/-!
# Endpoints

The first two steps of the join: every node gets a service, and the provider
facts of the nodes and the declared providers are grouped into endpoints, each
with its records in the order they come.
-/

namespace Lain.Joiner

open Foundation Contracts Federation

/-- A provider of an endpoint, as the resolvers read it. -/
structure EndpointProviderRecord where
  id : GlobalId
  fact : Option ContractFact
  template : String
  method : HttpMethod
  deriving DecidableEq

/-- The endpoints of every service. -/
abbrev EndpointTable := SortedMap EndpointId (List EndpointProviderRecord)

/-! ### Services -/

/-- The repository of a node. -/
def repoOf (node : GraphNode) : Option String :=
  match node.repoId with
  | some repo => some repo
  | none => (GlobalId.parse node.id).map GlobalId.repoId

def matchedPrefix (s : ServiceDecl) (path : String) : Option Nat :=
  if s.paths.isEmpty then some 0
  else ((s.paths.filter fun p => Text.startsWith path p).map String.utf8ByteSize).max?

def preferService (repo path : String) (best : Option (ServiceDecl × Nat)) (s : ServiceDecl) :
    Option (ServiceDecl × Nat) :=
  if s.repo ≠ repo then best
  else
    match matchedPrefix s path with
    | none => best
    | some claimed =>
      match best with
      | some (_, bestLen) => if claimed ≤ bestLen then best else some (s, claimed)
      | none => some (s, claimed)

def assignService (config : ContractFederationConfig) (node : GraphNode) : Option ServiceName :=
  (repoOf node).map fun repo =>
    match config.services.foldl (preferService repo node.path) none with
    | some (s, _) => s.name
    | none => repo

/-- The service of every node. -/
def assignServices (nodes : List GraphNode) (config : ContractFederationConfig) :
    SortedMap String ServiceName :=
  nodes.foldl
    (fun out node =>
      match assignService config node with
      | some svc => out.insert node.id svc
      | none => out)
    ∅

/-- The service of a node no table knows. -/
def implicitService (node : GraphNode) : ServiceName :=
  (repoOf node).getD "unknown"

/-! ### Keys of providers -/

/-- The declaration of a service, or a bare one. -/
def resolveServiceDecl (svc : ServiceName) (config : ContractFederationConfig) : ServiceDecl :=
  (config.service? svc).getD { name := svc, repo := svc }

/-- The template of a route behind the base path and mounts of its service. -/
def endpointTemplateFor (provider : ProviderFact) (nodePath : String) (service : ServiceDecl) :
    String :=
  let mounts := (service.routePrefixes.filter fun rp => decide (rp.path = nodePath)).map
    RoutePrefix.front
  service.basePath.getD "" ++ String.join mounts ++ provider.template

/-- The broker a topic node names before a slash, or the default one. -/
def defaultBrokerFor (node : GraphNode) : String :=
  match Text.splitOnce node.name "/" with
  | some (broker, _) => if broker = "" then "kafka" else broker
  | none => "kafka"

/-- Whether the schema documents of a service provide operations. -/
def serviceProvidesGraphql (config : ContractFederationConfig) (svc : ServiceName) : Bool :=
  ((config.service? svc).map ServiceDecl.providesGraphql).getD true

def databaseOf (config : ContractFederationConfig) (table : String) : Option DatabaseDecl :=
  config.databases.find? fun d => d.tables.contains table

def routeKey (node : GraphNode) (method : HttpMethod) (fullTemplate : String) : ContractKey :=
  if node.nodeType = .topic then .topic (defaultBrokerFor node) fullTemplate
  else .http (.known method) fullTemplate

def providerRecords (assignments : SortedMap String ServiceName)
    (config : ContractFederationConfig) (node : GraphNode) :
    List (EndpointId × EndpointProviderRecord) :=
  match GlobalId.parse node.id, assignments.get? node.id, node.contract.head? with
  | some gid, some svc, some (.provider provider) =>
    let fullTemplate :=
      endpointTemplateFor provider node.path (resolveServiceDecl svc config)
    [(⟨svc, routeKey node provider.method fullTemplate⟩,
      ⟨gid, some (.provider provider), fullTemplate, provider.method⟩)]
  | some gid, some svc, some (.rpcProvider rpc) =>
    [(⟨svc, .rpc rpc.system rpc.service rpc.method⟩,
      ⟨gid, some (.rpcProvider rpc), rpc.method, .any⟩)]
  | some gid, some svc, some (.graphqlProvider provider) =>
    if serviceProvidesGraphql config svc then
      [(⟨svc, .graphql provider.op provider.field⟩,
        ⟨gid, some (.graphqlProvider provider), provider.field, .any⟩)]
    else []
  | some gid, some svc, some (.webSocketProvider ws) =>
    [(⟨svc, .webSocket ws.route⟩, ⟨gid, some (.webSocketProvider ws), ws.route, .any⟩)]
  | some gid, some svc, some (.table tbl) =>
    let owners :=
      match databaseOf config tbl.name with
      | some db => db.service :: db.sharedWith
      | none => [svc]
    owners.map fun owner =>
      (⟨owner, .table tbl.name⟩, ⟨gid, some (.table tbl), tbl.name, .any⟩)
  | _, _, _ => []

def declaredTemplate : ContractKey → Option (String × HttpMethod)
  | .http (.known m) template => some (template, m)
  | .http .unknown _ => none
  | .topic _ name => some (name, .any)
  | .rpc _ _ method => some (method, .any)
  | other => some (other.display, .any)

def declaredRecord (config : ContractFederationConfig) (i : Nat) (decl : ProviderDecl) :
    Option (EndpointId × EndpointProviderRecord) :=
  match declaredProviderKey decl.key with
  | none => none
  | some key =>
    match declaredTemplate key with
    | none => none
    | some (template, method) =>
      match repoIdNew (((config.service? decl.service).map ServiceDecl.repo).getD
          decl.service) with
      | none => none
      | some repo =>
        let id := GlobalId.new repo .httpRoute s!"{declaredProviderPathPrefix}{i}]"
          decl.key (some i)
        some (⟨decl.service, key⟩, ⟨id, none, template, method⟩)

def declaredRecords (config : ContractFederationConfig) :
    List (EndpointId × EndpointProviderRecord) :=
  config.provides.zipIdx.filterMap fun entry => declaredRecord config entry.2 entry.1

/-- The endpoint table: detected providers in node order, then declared ones. -/
def buildEndpoints (nodes : List GraphNode) (assignments : SortedMap String ServiceName)
    (config : ContractFederationConfig) : EndpointTable :=
  .group (nodes.flatMap (providerRecords assignments config) ++ declaredRecords config)

/-- The endpoint a provider node belongs to, as the schemas of a route are keyed. -/
def contractKeyForProvider (node : GraphNode) (svc : ServiceName)
    (config : ContractFederationConfig) : Option EndpointId :=
  match node.contract.head? with
  | some (.provider provider) =>
    some ⟨svc, routeKey node provider.method
      (endpointTemplateFor provider node.path (resolveServiceDecl svc config))⟩
  | some (.rpcProvider rpc) => some ⟨svc, .rpc rpc.system rpc.service rpc.method⟩
  | some (.graphqlProvider g) => some ⟨svc, .graphql g.op g.field⟩
  | some (.webSocketProvider ws) => some ⟨svc, .webSocket ws.route⟩
  | some (.table tbl) =>
    some ⟨((databaseOf config tbl.name).map DatabaseDecl.service).getD svc, .table tbl.name⟩
  | _ => none

/-- The sort key of an endpoint within its service. -/
def endpointIdString (id : EndpointId) : String :=
  id.service ++ "|" ++ id.key.display

end Lain.Joiner
