import Lain.Graph.Database

/-!
# Re-scan operations

Replacing the nodes of scanned files, sweeping out untracked files, replacing
one sensor's output, and the reset to an empty graph.
-/

/-!
## Sensor ownership

Which sensor owns a node, and therefore retracts it on a rescan.
-/

namespace Lain.Graph

open Contracts (ContractFact)

/-- The sensors whose previous output a rescan replaces. -/
inductive SensorOwner where
  | httpSensor | openApiSensor | httpClientSensor | fieldAccessSensor | entryPointSensor
  | eventSensor | sqlSensor | djangoOrmSensor | protoSensor | graphqlSensor
  | grpcProviderSensor | grpcConsumerSensor | grpcHandlerLinkSensor
  | graphqlProviderSensor | graphqlConsumerSensor | graphqlResolverLinkSensor
  | webSocketSensor
  deriving DecidableEq

/-- Name prefix of the synthetic topic readers. -/
def topicReadPrefix : String := "topic-read:"

/-- Name prefix of the synthetic SQL readers. -/
def sqlReadPrefix : String := "sql-read:"

/-- Name prefix of the synthetic ORM readers. -/
def ormReadPrefix : String := "orm-read:"

/-- Name prefix of the semantically resolved RPC calls. -/
def rustRpcPrefix : String := "rpc-call:rust:"

/-- Signature mark of the tables the Django ORM sensor mints. -/
def djangoTableMark : String := "orm:django"

def documentOwner (path : String) : SensorOwner :=
  if path.endsWith ".proto" then .grpcProviderSensor
  else if path.endsWith ".graphql" || path.endsWith ".gql" then .graphqlProviderSensor
  else if path.endsWith ".avsc" || path.endsWith ".schema.json" then .eventSensor
  else .openApiSensor

/-- The owner of a node under one of its facts, or under none. -/
def deriveOwner (node : GraphNode) (fact : Option ContractFact) : Option SensorOwner :=
  match node.nodeType, fact with
  | .httpRoute, some (.provider p) =>
    match p.origin with
    | .code => some .httpSensor
    | .openApi => some .openApiSensor
  | .schema, some (.schema _) => some (documentOwner node.path)
  | .field, some (.field _) => some (documentOwner node.path)
  | nodeType, fact =>
    if nodeType = .function ∧ node.name.startsWith topicReadPrefix then some .eventSensor
    else if nodeType = .table ∧ node.signature = some djangoTableMark then
      some .djangoOrmSensor
    else
      match nodeType, fact with
      | nodeType, some (.tableConsumer _) =>
        if node.name.startsWith ormReadPrefix then some .djangoOrmSensor
        else if nodeType = .table then some .sqlSensor
        else if node.name.startsWith sqlReadPrefix then some .sqlSensor
        else lastArms node nodeType fact
      | .table, _ => some .sqlSensor
      | _, some (.table _) => some .sqlSensor
      | nodeType, fact => lastArms node nodeType fact
where
  -- The arms below the SQL family.
  lastArms (node : GraphNode) (nodeType : NodeType) (fact : Option ContractFact) :
      Option SensorOwner :=
    match nodeType, fact with
    | _, some (.rpcProvider _) => some .grpcProviderSensor
    | _, some (.rpcHandler _) => some .grpcHandlerLinkSensor
    | nodeType, fact =>
      if nodeType = .function ∧ node.name.startsWith rustRpcPrefix then
        some .grpcConsumerSensor
      else
        match nodeType, fact with
        | _, some (.rpcConsumer _) => some .grpcConsumerSensor
        | _, some (.graphqlProvider _) => some .graphqlProviderSensor
        | _, some (.graphqlHandler _) => some .graphqlResolverLinkSensor
        | _, some (.graphqlConsumer _) => some .graphqlConsumerSensor
        | .fieldRef, some (.fieldRead r) =>
          match r.origin with
          | .graphqlConsumer => some .graphqlConsumerSensor
          | .fieldAccess => some .fieldAccessSensor
        | _, some (.webSocketProvider _) => some .webSocketSensor
        | _, some (.webSocketHandler _) => some .webSocketSensor
        | _, some (.webSocketConsumer _) => some .webSocketSensor
        | .module, none =>
          if node.path.endsWith ".proto" then some .protoSensor
          else if node.path.endsWith ".graphql" || node.path.endsWith ".gql" then
            some .graphqlSensor
          else none
        | .interface, none =>
          if node.path.endsWith ".graphql" || node.path.endsWith ".gql" then
            some .graphqlSensor
          else none
        | .httpClientCall, _ => some .httpClientSensor
        | .fieldRef, _ => some .fieldAccessSensor
        | .topic, _ => some .eventSensor
        | _, _ => none

def agreedOwner (node : GraphNode) : Option SensorOwner → List ContractFact → Option SensorOwner
  | owner, [] => owner
  | owner, fact :: rest =>
    match deriveOwner node (some fact), owner with
    | none, owner => agreedOwner node owner rest
    | some found, none => agreedOwner node (some found) rest
    | some found, some previous =>
      if previous = found then agreedOwner node (some previous) rest else none

/-- The sensor that owns a node, if any. -/
def sensorOwnerOf (node : GraphNode) : Option SensorOwner :=
  if node.contract.isEmpty then deriveOwner node none
  else agreedOwner node none node.contract

end Lain.Graph

namespace Lain.Graph

open Foundation

namespace GraphDatabase

structure Replacement where
  graph : StableGraph GraphNode GraphEdge
  indexMap : SlotMap String
  nameIndex : SlotIndex String
  removedIds : List String := []
  newEntries : List (String × List Nat) := []
  preservedIncoming : List GraphEdge := []

namespace Replacement

def incomingFromOutside (r : Replacement) (replacedPaths : List String) (idx : Nat) :
    List GraphEdge :=
  ((r.graph.arcs.filter fun a =>
      decide (a.target = idx) &&
        match r.graph.nodeWeight a.source with
        | some source => !replacedPaths.contains source.path
        | none => false).map Arc.weight).reverse

def dropOld (replacedPaths : List String) (dropNamespaces : Bool)
    (state : Replacement × List Nat) (idx : Nat) : Replacement × List Nat :=
  let (r, kept) := state
  match r.graph.nodeWeight idx with
  | none => (r, kept)
  | some n =>
    if n.nodeType = .namespace ∧ dropNamespaces = false then (r, kept ++ [idx])
    else
      ({ r with
          graph := r.graph.removeNode idx
          indexMap := r.indexMap.erase n.id
          nameIndex := r.nameIndex.drop n.name idx
          removedIds := r.removedIds ++ [n.id]
          preservedIncoming :=
            r.preservedIncoming ++ r.incomingFromOutside replacedPaths idx },
        kept)

def addFresh (state : Replacement × List Nat) (node : GraphNode) : Replacement × List Nat :=
  let (r, fresh) := state
  let existing := (r.indexMap.lookup node.id).bind fun idx =>
    (r.graph.nodeWeight idx).bind fun w => if w.id = node.id then some idx else none
  match existing with
  | some idx =>
    ({ r with graph := r.graph.setNode idx node },
      if fresh.contains idx then fresh else fresh ++ [idx])
  | none =>
    let idx := r.graph.nextIndex
    ({ r with
        graph := r.graph.addNode node
        indexMap := r.indexMap.insert node.id idx
        nameIndex := r.nameIndex.push node.name idx },
      fresh ++ [idx])

def firstOfId : List String → List GraphNode → List GraphNode
  | _, [] => []
  | seen, node :: rest =>
    if node.id ∈ seen then firstOfId seen rest
    else node :: firstOfId (node.id :: seen) rest

def replacePath (pathIndex : SlotIndex String) (replacedPaths : List String)
    (nodes : List GraphNode) (dropNamespaces : Bool) (r : Replacement) (path : String) :
    Replacement :=
  let (dropped, kept) :=
    (pathIndex.bucket path).foldl (dropOld replacedPaths dropNamespaces) (r, [])
  let incoming := nodes.filter fun node => decide (node.path = path)
  let (added, fresh) := (firstOfId [] incoming).foldl addFresh (dropped, kept)
  { added with newEntries := added.newEntries ++ [(path, fresh)] }

/-- Restore a preserved edge when both endpoints came back and no edge of its
type connects them. -/
def restore (indexMap : SlotMap String) (graph : StableGraph GraphNode GraphEdge)
    (edge : GraphEdge) : Option (StableGraph GraphNode GraphEdge) :=
  match indexMap.lookup edge.sourceId, indexMap.lookup edge.targetId with
  | some s, some t =>
    if (graph.edgesConnecting s t).any fun a => decide (a.weight.edgeType = edge.edgeType)
    then some graph
    else graph.addEdge s t edge
  | _, _ => some graph

end Replacement

/-- Replace every node under `paths` by the given nodes of those paths. -/
def replaceNodesInner (db : GraphDatabase) (paths : List String) (nodes : List GraphNode)
    (dropNamespaces : Bool) : Call Nat :=
  if db.readOnly then ⟨[], .error db readOnlyError⟩
  else
    let orderedPaths := paths.dedup.mergeSort fun a b => decide (a ≤ b)
    let r := orderedPaths.foldl
      (Replacement.replacePath db.pathIndex paths nodes dropNamespaces)
      { graph := db.graph, indexMap := db.indexMap, nameIndex := db.nameIndex }
    ⟨[],
      match r.preservedIncoming.foldlM (Replacement.restore r.indexMap) r.graph with
      | none => .panicked
      | some graph =>
        .ok
          { db with
            graph
            indexMap := r.indexMap
            nameIndex := r.nameIndex
            pathIndex := r.newEntries.foldl (fun m entry => m.swap entry.1 entry.2)
              db.pathIndex }
          r.removedIds.length⟩

/-- Replace the nodes of scanned files, keeping their namespaces. -/
def replaceNodesForPaths (db : GraphDatabase) (paths : List String)
    (nodes : List GraphNode) : Call Nat :=
  db.replaceNodesInner paths nodes false

def directoriesOf : List Char → List (List Char)
  | [] => []
  | '/' :: rest => rest.reverse :: directoriesOf rest
  | _ :: rest => directoriesOf rest

def liveDirs (tracked : List String) : List String :=
  tracked.flatMap fun file => (directoriesOf file.toList.reverse).map String.ofList

def pruneKeys (live : List String) : List String → GraphDatabase → Nat → Outcome Nat
  | [], db, removed => .ok db removed
  | key :: rest, db, removed =>
    match (db.replaceNodesInner [key] [] (!live.contains key)).outcome with
    | .ok after count => pruneKeys live rest after (removed + count)
    | .error after reason => .error after reason
    | .panicked => .panicked

/-- Drop every node whose file is no longer tracked. -/
def pruneOrphans (db : GraphDatabase) (tracked : List String) : Call Nat :=
  if db.readOnly then ⟨[], .error db readOnlyError⟩
  else
    let stale := (db.pathIndex.keys.filter fun key => !tracked.contains key).mergeSort
      fun a b => decide (a ≤ b)
    ⟨[], pruneKeys (liveDirs tracked) stale db 0⟩

def dropOwned (state : GraphDatabase × List String) (id : String) :
    GraphDatabase × List String :=
  let (db, removedIds) := state
  match db.indexMap.lookup id with
  | none => (db, removedIds)
  | some idx =>
    match db.graph.nodeWeight idx with
    | none => (db, removedIds)
    | some node =>
      ({ db with
          graph := db.graph.removeNode idx
          indexMap := db.indexMap.erase id
          nameIndex := db.nameIndex.drop node.name idx
          pathIndex := db.pathIndex.drop node.path idx },
        removedIds ++ [id])

def ownedIds (db : GraphDatabase) (owner : SensorOwner) : List String :=
  (db.graph.nodeReferences.filter fun entry =>
    decide (sensorOwnerOf entry.2 = some owner)).map fun entry => entry.2.id

def retractOwned (db : GraphDatabase) (owner : SensorOwner) : GraphDatabase × List String :=
  let (after, removedIds) := (db.ownedIds owner).foldl dropOwned (db, [])
  if owner = .entryPointSensor then
    ({ after with graph := after.graph.mapNodes fun n => { n with entry := none } }, removedIds)
  else (after, removedIds)

/-- Replace a sensor's previous output by new nodes and edges. -/
def replaceSensorOutput (db : GraphDatabase) (owner : SensorOwner) (nodes : List GraphNode)
    (edges : List GraphEdge) : Call Nat :=
  if db.readOnly then ⟨[], .error db readOnlyError⟩
  else
    let (retracted, removedIds) := db.retractOwned owner
    let loggedRemoval := if removedIds.isEmpty then [] else [GraphOp.removeNodesByIds removedIds]
    let nodeCall : Call Unit :=
      if nodes.isEmpty then ⟨[], .ok retracted ()⟩ else retracted.insertNodesBatch nodes
    match nodeCall.outcome with
    | .panicked => ⟨loggedRemoval ++ nodeCall.logged, .panicked⟩
    | .error after reason => ⟨loggedRemoval ++ nodeCall.logged, .error after reason⟩
    | .ok after _ =>
      let edgeCall : Call Nat :=
        if edges.isEmpty then ⟨[], .ok after 0⟩ else after.insertEdgesBatch edges
      ⟨loggedRemoval ++ nodeCall.logged ++ edgeCall.logged,
        match edgeCall.outcome with
        | .panicked => .panicked
        | .error final reason => .error final reason
        | .ok final _ => .ok final removedIds.length⟩

/-- Drop every node and edge and forget the indexed commit. The name index is
not among what the source clears. -/
def reset (db : GraphDatabase) : Call Unit :=
  if db.readOnly then ⟨[], .error db readOnlyError⟩
  else
    ⟨[],
      .ok
        { db with
          graph := .empty
          indexMap := ∅
          pathIndex := ∅
          pendingExternalEdges := []
          lastCommit := none
          callsPublishedFor := none }
        ()⟩

end GraphDatabase

end Lain.Graph
