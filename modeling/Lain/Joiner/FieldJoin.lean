import Lain.Joiner.Endpoints
import Mathlib.Algebra.Order.Ring.Unbundled.Rat
import Mathlib.Data.List.MinMax

/-!
# The field join

The schemas of each endpoint, and the fields each read of a response is joined
to: by its whole path, or else by the paths that end in it.
-/

namespace Lain.Joiner

open Foundation Contracts Federation

/-- One flattened field of a schema. -/
structure ResponseField where
  nodeId : GlobalId
  path : JsonPath
  fieldMeta : FieldMeta
  deriving DecidableEq

/-- The fields of each endpoint by direction, and the schema node of each direction. -/
structure EndpointSchemas where
  byEndpoint : SortedMap EndpointId (SortedMap Direction (List ResponseField)) := ∅
  schemaNode : SortedMap EndpointId (SortedMap Direction GlobalId) := ∅

/-! ### Schemas -/

def fieldNodes (nodes : List GraphNode) : SortedMap String (JsonPath × FieldMeta) :=
  nodes.foldl
    (fun out node =>
      match node.contract.head? with
      | some (.field fact) => out.insert node.id ((JsonPath.fromStr node.name).getD [], fact)
      | _ => out)
    ∅

def fieldOfEdge (fields : SortedMap String (JsonPath × FieldMeta)) (edge : GraphEdge) :
    Option (String × ResponseField) :=
  if edge.edgeType = .hasField then
    match fields.get? edge.targetId, GlobalId.parse edge.targetId with
    | some (path, fact), some gid => some (edge.sourceId, ⟨gid, path, fact⟩)
    | _, _ => none
  else none

def fieldsBySchema (nodes : List GraphNode) (edges : List GraphEdge) :
    SortedMap String (List ResponseField) :=
  .group (edges.filterMap (fieldOfEdge (fieldNodes nodes)))

def schemaDirection : EdgeType → Option Direction
  | .requestSchema => some .request
  | .responseSchema => some .response
  | .payloadSchema => some .payload
  | _ => none

def schemasByRoute (edges : List GraphEdge) : SortedMap String (List (Direction × String)) :=
  .group (edges.filterMap fun edge =>
    (schemaDirection edge.edgeType).map fun dir => (edge.sourceId, (dir, edge.targetId)))

def addFields (fields : SortedMap String (List ResponseField))
    (bucket : SortedMap Direction (List ResponseField)) (leg : Direction × String) :
    SortedMap Direction (List ResponseField) :=
  match fields.get? leg.2 with
  | some found => bucket.extend leg.1 found
  | none => bucket

/-- The first schema node of each direction. -/
def addNode (nodes : SortedMap Direction GlobalId) (leg : Direction × String) :
    SortedMap Direction GlobalId :=
  match GlobalId.parse leg.2 with
  | some gid => nodes.insertNew leg.1 gid
  | none => nodes

def addRoute (nodes : List GraphNode) (fields : SortedMap String (List ResponseField))
    (assignments : SortedMap String ServiceName) (config : ContractFederationConfig)
    (out : EndpointSchemas) (route : String × List (Direction × String)) : EndpointSchemas :=
  match assignments.get? route.1, nodes.find? fun n => decide (n.id = route.1) with
  | some svc, some routeNode =>
    match contractKeyForProvider routeNode svc config with
    | some endpoint =>
      let nodeMap := route.2.foldl addNode ∅
      { byEndpoint := out.byEndpoint.alter endpoint fun bucket =>
          route.2.foldl (addFields fields) (bucket.getD ∅)
        schemaNode :=
          if nodeMap.entries.isEmpty then out.schemaNode
          else out.schemaNode.insert endpoint nodeMap }
    | none => out
  | _, _ => out

/-- The schema node a declaration means: of its repository, then the first in the file. -/
def pickSchemaNode (nodes : List GraphNode) (repo file : String) : Option GraphNode :=
  (nodes.filter fun n => decide (n.nodeType = .schema) &&
      (decide (n.path = file) || Text.endsWith n.path s!"/{file}")).argmin fun n =>
    (toLex ((if n.repoId = some repo then 0 else 1 : Nat),
      toLex (n.lineStart.getD (2 ^ 32 - 1), n.id)) : ℕ ×ₗ ℕ ×ₗ String)

def providesTopic (topic : String) (node : GraphNode) : Bool :=
  decide (node.nodeType = .topic) &&
    match node.contract.head? with
    | some (.provider p) => decide (p.template = topic)
    | _ => false

def pickTopicNode (nodes : List GraphNode) (assignments : SortedMap String ServiceName)
    (svc : ServiceName) (topic : String) : Option GraphNode :=
  ((nodes.filter fun n => providesTopic topic n &&
      decide (assignments.get? n.id = some svc)).argmin GraphNode.id).or
    ((nodes.filter (providesTopic topic)).argmin GraphNode.id)

def declaredSchema (nodes : List GraphNode) (fields : SortedMap String (List ResponseField))
    (assignments : SortedMap String ServiceName) (config : ContractFederationConfig)
    (decl : SchemaDecl) : Option (EndpointId × List ResponseField × GlobalId) := do
  let schemaNode ← pickSchemaNode nodes decl.repo decl.file
  let found ← fields.get? schemaNode.id
  let gid ← GlobalId.parse schemaNode.id
  let svc ← assignments.get? schemaNode.id
  if (config.service? svc).any (fun s => decide (s.repo = decl.repo)) then
    let topicNode ← pickTopicNode nodes assignments svc decl.topic
    let endpoint ← contractKeyForProvider topicNode svc config
    pure (endpoint, found, gid)
  else none

def addDeclared (nodes : List GraphNode) (fields : SortedMap String (List ResponseField))
    (assignments : SortedMap String ServiceName) (config : ContractFederationConfig)
    (out : EndpointSchemas) (decl : SchemaDecl) : EndpointSchemas :=
  match declaredSchema nodes fields assignments config decl with
  | some (endpoint, found, gid) =>
    { byEndpoint := out.byEndpoint.alter endpoint fun bucket =>
        (bucket.getD ∅).extend .payload found
      schemaNode := out.schemaNode.alter endpoint fun nodeMap =>
        (nodeMap.getD ∅).insert .payload gid }
  | none => out

/-- The schemas of every endpoint, from the edges and then from the configuration. -/
def collectEndpointSchemas (nodes : List GraphNode) (edges : List GraphEdge)
    (assignments : SortedMap String ServiceName) (config : ContractFederationConfig) :
    EndpointSchemas :=
  let fields := fieldsBySchema nodes edges
  config.schemas.foldl (addDeclared nodes fields assignments config)
    ((schemasByRoute edges).entries.foldl (addRoute nodes fields assignments config) {})

/-! ### Field reads -/

/-- The bind of a call to an endpoint, by which the binds of its reads are capped. -/
structure EndpointBindInfo where
  confidence : ℚ
  provenance : EdgeProvenance
  routeMatch : RouteMatch
  strippedPrefix : Option String
  consumerService : ServiceName
  providerService : ServiceName
  deriving DecidableEq

/-- The part of a bind its reads inherit. -/
def EndpointBindInfo.of (b : BindsEdge) : EndpointBindInfo where
  confidence := b.confidence
  provenance := b.provenance
  routeMatch := b.routeMatch
  strippedPrefix := b.strippedPrefix
  consumerService := b.consumerService
  providerService := b.providerService

def confidenceText (confidence : ℚ) : String :=
  s!"{(confidence * 10).floor / 10}.{(confidence * 10).floor % 10}"

def StaticSource.debug : StaticSource → String
  | .treeSitter => "TreeSitter"
  | .lsp => "Lsp"
  | .regex => "Regex"

def provenanceDebug : EdgeProvenance → String
  | .static source => "Static \x7b source: " ++ StaticSource.debug source ++ " \x7d"
  | .heuristic detector confidence =>
    "Heuristic \x7b detector: \"" ++ detector ++ "\", confidence: " ++
      confidenceText confidence ++ " \x7d"
  | .runtime traceId lastSeenUnix =>
    "Runtime \x7b trace_id: \"" ++ traceId ++ "\", last_seen_unix: " ++
      toString lastSeenUnix ++ " \x7d"
  | .confirmed source => "Confirmed \x7b source: \"" ++ source ++ "\" \x7d"

def EndpointBindInfo.rank (info : EndpointBindInfo) : ℚ ×ₗ String :=
  toLex (info.confidence, provenanceDebug info.provenance)

def EndpointBindInfo.weaker (info : EndpointBindInfo) : Option EndpointBindInfo → EndpointBindInfo
  | none => info
  | some entry => if info.rank < entry.rank then info else entry

def callEndpoints (binds : List BindsEdge) :
    SortedMap String (SortedMap EndpointId EndpointBindInfo) :=
  binds.foldl
    (fun out b => out.alter b.consumer fun endpoints =>
      (endpoints.getD ∅).alter b.targetEndpoint (EndpointBindInfo.of b).weaker)
    ∅

def readsFrom (edges : List GraphEdge) : SortedMap String String :=
  edges.foldl
    (fun out edge =>
      if edge.edgeType = .readsFrom then out.insert edge.sourceId edge.targetId else out)
    ∅

/-- The provenance of a read that names the whole path of a field. -/
def readProvenance (exactRead : Bool) : EdgeProvenance :=
  if exactRead then .static .treeSitter else .heuristic "field_suffix" (6 / 10)

/-- The confidence of a provenance. -/
def provConfidence : EdgeProvenance → ℚ
  | .static _ | .confirmed _ | .runtime _ _ => 1
  | .heuristic _ confidence => confidence

def isHeuristic : EdgeProvenance → Bool
  | .heuristic .. => true
  | _ => false

/-- Cap a read by the bind of its call: the lower confidence, and the heuristic side. -/
def capFieldBind (read : EdgeProvenance) (endpoint : EndpointBindInfo) : EdgeProvenance × ℚ :=
  let provenance :=
    if isHeuristic read && isHeuristic endpoint.provenance then
      if provConfidence read ≤ endpoint.confidence then read else endpoint.provenance
    else if isHeuristic endpoint.provenance then endpoint.provenance
    else read
  (provenance, min (provConfidence read) endpoint.confidence)

/-- A chain that is not empty ends a path. -/
def isSuffix (fieldPath readChain : JsonPath) : Bool :=
  !readChain.isEmpty && decide (readChain <:+ fieldPath)

def responseFields (schemas : EndpointSchemas) (endpoint : EndpointId) : List ResponseField :=
  match schemas.byEndpoint.get? endpoint with
  | some dirs => ((dirs.get? .response).or (dirs.get? .payload)).getD []
  | none => []

def matchFields (read : FieldReadFact) (fields : List ResponseField) :
    List ResponseField × EdgeProvenance :=
  match fields.find? fun f => decide (f.path = read.chain) with
  | some field => ([field], readProvenance read.exact)
  | none =>
    match fields.filter fun f => isSuffix f.path read.chain with
    | [field] => ([field], .heuristic "field_suffix" (6 / 10))
    | several => (several, .heuristic "ambiguous_field" (3 / 10))

def fieldBind (fieldRef : GlobalId) (endpoint : EndpointId) (epBind : EndpointBindInfo)
    (read : EdgeProvenance) (field : ResponseField) : BindsEdge where
  consumer := fieldRef
  provider := field.nodeId
  consumerService := epBind.consumerService
  providerService := epBind.providerService
  targetEndpoint := endpoint
  provenance := (capFieldBind read epBind).1
  confidence := (capFieldBind read epBind).2
  routeMatch := epBind.routeMatch
  strippedPrefix := epBind.strippedPrefix

/-- The record of a read joined to a field. -/
def boundField (endpoint : EndpointId) (epBind : EndpointBindInfo) (read : EdgeProvenance)
    (field : ResponseField) : BoundField where
  field := field.nodeId
  fieldPath := field.path
  endpoint
  confidence := (capFieldBind read epBind).2

def unknownRead (fieldRef : GlobalId) (call : String) : FieldRefResolution where
  fieldRefId := fieldRef
  service := "unknown"
  boundFields := []
  unknown := true
  call

def joinRead (schemas : EndpointSchemas) (fieldRef : GlobalId) (read : FieldReadFact)
    (call : String) (endpoints : SortedMap EndpointId EndpointBindInfo) :
    FieldRefResolution × List BindsEdge :=
  let bound := endpoints.entries.flatMap fun e =>
    let hit := matchFields read (responseFields schemas e.1)
    hit.1.map (boundField e.1 e.2 hit.2)
  let binds := endpoints.entries.flatMap fun e =>
    let hit := matchFields read (responseFields schemas e.1)
    hit.1.map (fieldBind fieldRef e.1 e.2 hit.2)
  -- An endpoint with a schema that lacks the chain makes the read unknown.
  let missed := endpoints.entries.any fun e =>
    let fields := responseFields schemas e.1
    !fields.isEmpty && (matchFields read fields).1.isEmpty
  ({ fieldRefId := fieldRef
     service := (endpoints.keys.head?.map EndpointId.service).getD "unknown"
     boundFields := bound
     unknown := bound.isEmpty && missed
     call },
   binds)

def fieldRead? (node : GraphNode) : Option (GlobalId × FieldReadFact) :=
  if node.nodeType = .fieldRef then
    match node.contract.head?, GlobalId.parse node.id with
    | some (.fieldRead read), some fid => some (fid, read)
    | _, _ => none
  else none

def resolveFieldRef (reads : SortedMap String String)
    (calls : SortedMap String (SortedMap EndpointId EndpointBindInfo))
    (schemas : EndpointSchemas) (entry : GlobalId × FieldReadFact) :
    FieldRefResolution × List BindsEdge :=
  match reads.get? entry.1 with
  | none => (unknownRead entry.1 "", [])
  | some call =>
    match calls.get? call with
    | none => (unknownRead entry.1 call, [])
    | some endpoints => joinRead schemas entry.1 entry.2 call endpoints

def fieldBindCode (b : BindsEdge) : String ×ₗ String ×ₗ EndpointId :=
  toLex (b.consumer, toLex (b.provider, b.targetEndpoint))

/-- Resolve every field read: the index of reads, and their edges in order. -/
def resolveFieldRefs (nodes : List GraphNode) (edges : List GraphEdge) (binds : List BindsEdge)
    (schemas : EndpointSchemas) : SortedMap GlobalId FieldRefResolution × List BindsEdge :=
  let resolve := resolveFieldRef (readsFrom edges) (callEndpoints binds) schemas
  let reads := nodes.filterMap fieldRead?
  (reads.foldl (fun out read => out.insert read.1 (resolve read).1) ∅,
   (reads.flatMap fun read => (resolve read).2).insertionSort fun a b =>
     fieldBindCode a ≤ fieldBindCode b)

end Lain.Joiner
