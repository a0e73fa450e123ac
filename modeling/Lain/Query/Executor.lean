import Mathlib
import Lain.Foundation.Least
import Lain.Foundation.SortedMap
import Lain.Graph.Database
import Lain.Query.Spec

/-!
# The query executor

A working set of nodes goes through the operations of a query.
-/

namespace Lain

open Foundation Lain.Graph

inductive PetDirection where
  | outgoing | incoming
  deriving DecidableEq

namespace PetDirection

def backwards : PetDirection → PetDirection
  | .outgoing => .incoming
  | .incoming => .outgoing

def rank : PetDirection → Nat
  | .outgoing => 0
  | .incoming => 1

end PetDirection

namespace Graph.GraphDatabase

def near (direction : PetDirection) (a : Arc GraphEdge) : Nat :=
  match direction with
  | .outgoing => a.source
  | .incoming => a.target

def far (direction : PetDirection) (a : Arc GraphEdge) : Nat :=
  match direction with
  | .outgoing => a.target
  | .incoming => a.source

/-- The nodes next to a node, with the edges that lead there, newest first. -/
def getNeighbors (db : GraphDatabase) (nodeId : String) (direction : PetDirection) :
    List (GraphNode × GraphEdge) :=
  match db.indexMap.lookup nodeId with
  | none => []
  | some idx =>
    (db.graph.arcs.reverse.filter fun a => decide (near direction a = idx)).filterMap fun a =>
      (db.graph.nodeWeight (far direction a)).map fun neighbor => (neighbor, a.weight)

def nodeWeights (db : GraphDatabase) : List GraphNode :=
  db.graph.nodeReferences.map Prod.snd

end Graph.GraphDatabase

namespace Query

def optional {σ α : Type} (takes : σ → α → Bool) (selector : Option σ) (a : α) : Bool :=
  match selector with
  | none => true
  | some s => takes s a

def FindOp.selects (find : FindOp) (n : GraphNode) : Bool :=
  optional TypeSelector.takes find.typeSelector n.nodeType.debug &&
    optional NameSelector.takes find.name n.name &&
    optional LabelSelector.takes find.labelSelector n.queryLabel &&
    optional (fun path text : String => decide (path.toList <:+: text.toList)) find.path n.path

/-- The nodes that the selectors of a `find` take. -/
def queryNodes (db : GraphDatabase) (find : FindOp) : List GraphNode :=
  db.nodeWeights.filter find.selects

/-! ### Results -/

/-- A node as it is reported. -/
structure GraphNodeRef where
  id : String
  nodeType : String
  name : String
  label : Option String
  deriving DecidableEq

/-- An edge as it is reported. -/
structure GraphEdgeRef where
  id : String
  edgeType : String
  source : String
  target : String
  deriving DecidableEq

/-- A path as it is reported: its nodes, from the seed on, and an edge for each hop. -/
structure GraphPath where
  nodes : List GraphNodeRef
  edges : List GraphEdgeRef
  deriving DecidableEq

def nodeRef (n : GraphNode) : GraphNodeRef :=
  ⟨n.id, n.nodeType.debug, n.name, n.queryLabel⟩

/-- Report an edge. -/
def edgeRef (edge : GraphEdge) : GraphEdgeRef where
  id := edge.sourceId ++ "->" ++ edge.targetId ++ ":" ++ edge.edgeType.debug
  edgeType := edge.edgeType.debug
  source := edge.sourceId
  target := edge.targetId

/-- The refusal of node types that do not exist. -/
def checkNodeTypes (find : FindOp) : Except LainError Unit :=
  match find.typeSelector with
  | none => .ok ()
  | some selector =>
    if selector.unknownTypes = [] then .ok ()
    else .error (.invalidArgument
      ("unknown node type(s) " ++ toString (selector.unknownTypes.map String.quote) ++
        "; valid types: " ++ ", ".intercalate (NodeType.all.map NodeType.debug)))

def unknownEdges (selector : EdgeSelector) : LainError :=
  .invalidArgument ("unknown edge type(s) " ++ ", ".intercalate selector.unknownTypes ++
    ": valid edge types are " ++
    ", ".intercalate (sortByKey id (EdgeType.all.map EdgeType.debug)))

/-! ### One walk -/

section Walk

variable (db : GraphDatabase) (edges : EdgeSelector) (direction : PetDirection)

/-- A walk under way: the hop counts known, the nodes in the order of their discovery, and those
to go on from. -/
structure Walk where
  hops : String → Option Nat
  discovery : List String
  queue : List String

def matching (id : String) : List (GraphNode × GraphEdge) :=
  (db.getNeighbors id direction).filter fun step => edges.takes step.2.edgeType.debug

/-- Discover a node unless it has a hop count. -/
def Walk.visit (depth : Nat) (w : Walk) (step : GraphNode × GraphEdge) : Walk :=
  if (w.hops step.1.id).isSome then w
  else
    { hops := Function.update w.hops step.1.id (some (depth + 1))
      discovery := w.discovery ++ [step.1.id]
      queue := w.queue ++ [step.1.id] }

/-- Go on from the nodes in the queue, up to a depth. Every node in it has a hop count. -/
def Walk.run (max : Nat) : Nat → Walk → Walk
  | 0, w => w
  | fuel + 1, w =>
    match w.queue with
    | [] => w
    | current :: rest =>
      let depth := (w.hops current).getD 0
      if max < depth + 1 then Walk.run max fuel { w with queue := rest }
      else
        Walk.run max fuel
          ((matching db edges direction current).foldl (Walk.visit depth)
            { w with queue := rest })

def walkFrom (start : String) (max : Nat) : Walk :=
  Walk.run db edges direction max (db.nodeWeights.length + 1)
    { hops := Function.update (fun _ => none) start (some 0), discovery := [], queue := [start] }

def stepRank (step : GraphNode × GraphEdge) : String ×ₗ String :=
  toLex (step.1.id, step.2.edgeType.debug)

def predecessor (hops : String → Option Nat) (current : String) (depth : Nat) :
    Option (GraphNode × GraphEdge) :=
  least stepRank ((matching db edges direction.backwards current).filter fun step =>
    decide (hops step.1.id = some (depth - 1)))

def rebuild (hops : String → Option Nat) (start target : String) :
    Nat → String → List String → List GraphEdgeRef →
      Except LainError (List String × List GraphEdgeRef)
  | fuel, current, ids, refs =>
    if current = start then .ok (ids, refs)
    else
      match hops current with
      | none => .error (.graph s!"node {current} was not reached by this walk")
      | some depth =>
        match predecessor db edges direction hops current depth, fuel with
        | some (pred, edge), fuel + 1 =>
          rebuild hops start target fuel pred.id (pred.id :: ids) (edgeRef edge :: refs)
        | _, _ => .error (.graph
            s!"no matching predecessor at hop {depth - 1} on the walk to {target}")

def pathNode (id : String) : Except LainError GraphNodeRef :=
  match db.getNode id with
  | some node => .ok (nodeRef node)
  | none => .error (.graph s!"path node {id} vanished")

/-- The selected shortest path from a start to a node. -/
def shortestWalkPath (start target : String) (hops : String → Option Nat) :
    Except LainError GraphPath := do
  let (ids, refs) ← rebuild db edges direction hops start target ((hops target).getD 0) target
    [target] []
  let nodes ← ids.mapM (pathNode db)
  return { nodes, edges := refs }

end Walk

/-- A node reported by one walk. -/
structure TraversalCandidate where
  node : GraphNodeRef
  hops : Nat
  seedId : String
  direction : PetDirection
  path : GraphPath
  deriving DecidableEq

def TraversalCandidate.rank (c : TraversalCandidate) : Nat ×ₗ Nat ×ₗ String :=
  toLex (c.hops, toLex (c.direction.rank, c.seedId))

def candidate (db : GraphDatabase) (edges : EdgeSelector) (range : Nat × Nat)
    (direction : PetDirection) (start : String) (hops : String → Option Nat) (id : String) :
    Except LainError (Option TraversalCandidate) :=
  let depth := (hops id).getD 0
  if range.1 ≤ depth ∧ depth ≤ range.2 then do
    let path ← shortestWalkPath db edges direction start id hops
    return (db.getNode id).map fun node =>
      { node := nodeRef node, hops := depth, seedId := start, direction, path }
  else return none

/-- One walk from a start that never mixes directions. -/
def bfsTraverse (db : GraphDatabase) (start : String) (edges : EdgeSelector) (range : Nat × Nat)
    (direction : PetDirection) : Except LainError (List TraversalCandidate) :=
  if edges.unknownTypes ≠ [] then .error (unknownEdges edges)
  else do
    let w := walkFrom db edges direction start range.2
    let found ← w.discovery.mapM (candidate db edges range direction start w.hops)
    return found.reduceOption

/-! ### Operations -/

def Direction.walks : Direction → List PetDirection
  | .outgoing => [.outgoing]
  | .incoming => [.incoming]
  | .both => [.outgoing, .incoming]

def allowed (db : GraphDatabase) (target : FindOp) : List String :=
  ((queryNodes db target).map GraphNode.id).filter fun id =>
    optional (fun want id : String => decide (want = id)) target.id id

def Direction.walksFrom (direction : Direction) (startNodes : List GraphNodeRef) :
    List (PetDirection × GraphNodeRef) :=
  direction.walks.flatMap fun walk => startNodes.map fun start => (walk, start)

def bestCandidates (db : GraphDatabase) (startNodes : List GraphNodeRef) (connect : ConnectOp) :
    Except LainError (Tally String TraversalCandidate) := do
  let found ← (connect.direction.walksFrom startNodes).mapM fun walk =>
    bfsTraverse db walk.2.id connect.edge connect.depth.toRange walk.1
  return Tally.collect (fun c => c.node.id) TraversalCandidate.rank found.flatten

structure Connected where
  nodes : List GraphNodeRef
  paths : String → Option GraphPath

/-- Report the best candidates of some nodes. -/
def report (best : String → Option TraversalCandidate) (order : List String) : Connected where
  nodes := order.filterMap fun id => (best id).map TraversalCandidate.node
  paths id := if id ∈ order then (best id).map TraversalCandidate.path else none

/-- Follow edges from the working set. -/
def executeConnect (db : GraphDatabase) (startNodes : List GraphNodeRef) (connect : ConnectOp) :
    Except LainError Connected :=
  if startNodes = [] then .ok { nodes := [], paths := fun _ => none }
  else do
    let tally ← bestCandidates db startNodes connect
    match connect.target with
    | none => return report tally.best tally.order
    | some target =>
      checkNodeTypes target
      let ids := allowed db target
      return report tally.best (tally.order.filter fun id => decide (id ∈ ids))

/-- Select nodes of the graph. -/
def executeFind (db : GraphDatabase) (find : FindOp) : Except LainError (List GraphNodeRef) := do
  checkNodeTypes find
  let nodes := (queryNodes db find).filter fun n =>
    optional (fun want id : String => decide (id = want)) find.id n.id
  return nodes.map nodeRef

def FilterOp.keeps (filter : FilterOp) (n : GraphNodeRef) : Bool :=
  optional TypeSelector.takes filter.typeFilter n.nodeType &&
    optional LabelSelector.takes filter.labelFilter n.label &&
    optional NameSelector.takes filter.name n.name

/-- The nodes of one group. -/
structure QueryGroup where
  key : String
  nodes : List GraphNodeRef
  count : Nat
  deriving DecidableEq

/-- What a node is grouped under. -/
def GroupBy.key (groupBy : GroupBy) (n : GraphNodeRef) : String :=
  match groupBy with
  | .type => n.nodeType
  | .label => n.label.getD ""
  | .name => n.name

/-- The nodes in groups; the groups come in no order of their own. -/
def applyGroup (nodes : List GraphNodeRef) (groupBy : GroupBy) : List QueryGroup :=
  (nodes.map groupBy.key).dedup.map fun key =>
    let members := nodes.filter fun n => decide (groupBy.key n = key)
    { key, nodes := members, count := members.length }

def labelKey (n : GraphNodeRef) : WithBot String :=
  n.label

/-- Sort by one field, nodes of equal fields staying in their order. -/
def applySort (nodes : List GraphNodeRef) (sort : SortOp) : List GraphNodeRef :=
  match sort.field, sort.direction with
  | .name, .asc => sortByKey (fun n => n.name) nodes
  | .name, .desc => sortByKey (fun n => OrderDual.toDual n.name) nodes
  | .type, .asc => sortByKey (fun n => n.nodeType) nodes
  | .type, .desc => sortByKey (fun n => OrderDual.toDual n.nodeType) nodes
  | .label, .asc => sortByKey labelKey nodes
  | .label, .desc => sortByKey (fun n => OrderDual.toDual (labelKey n)) nodes

/-- Skip the offset, then keep the count. -/
def applyLimit (nodes : List GraphNodeRef) (limit : LimitOp) : List GraphNodeRef :=
  (nodes.drop limit.offset).take limit.count

/-! ### Queries -/

structure Pipeline where
  nodes : List GraphNodeRef := []
  paths : String → Option GraphPath := fun _ => none
  groups : Option (List QueryGroup) := none
  nodesVisited : Nat := 0

/-- What a query answers. -/
structure QueryResult where
  nodes : List GraphNodeRef
  edges : List GraphEdgeRef
  paths : List GraphPath
  count : Nat
  legacy : Bool
  nodesVisited : Nat
  truncated : Bool
  matchedBeforeLimit : Option Nat
  groups : Option (List QueryGroup)
  deriving DecidableEq

section Execute

variable (db : GraphDatabase) (similar : SemanticFilterOp → Except LainError (GraphNode → Bool))
  (defaultLimit : Nat)

/-- Keep the nodes that are close enough to a text; `similar` embeds the text and compares. -/
def applySemanticFilter (nodes : List GraphNodeRef) (sem : SemanticFilterOp) :
    Except LainError (List GraphNodeRef) :=
  if nodes = [] then .ok nodes
  else do
    let close ← similar sem
    return nodes.filter fun n =>
      match (db.nodeWeights.filter fun full => decide (full.id = n.id)).getLast? with
      | some full => close full
      | none => false

def applyOp (p : Pipeline) : GraphOp → Except LainError Pipeline
  | .find find => do
    let nodes ← executeFind db find
    return { p with
      nodes, paths := fun _ => none, nodesVisited := p.nodesVisited + nodes.length }
  | .connect connect => do
    let found ← executeConnect db p.nodes connect
    return { p with
      nodes := found.nodes, paths := found.paths
      nodesVisited := p.nodesVisited + found.nodes.length }
  | .filter filter => return { p with nodes := p.nodes.filter filter.keeps }
  | .semanticFilter sem => do
    let nodes ← applySemanticFilter db similar p.nodes sem
    return { p with nodes }
  | .group groupBy => return { p with groups := some (applyGroup p.nodes groupBy) }
  | .sort sort => return { p with nodes := applySort p.nodes sort }
  | .limit limit => return { p with nodes := applyLimit p.nodes limit }

def asksForALimit (ops : List GraphOp) : Bool :=
  ops.any fun op =>
    match op with
    | .limit _ => true
    | _ => false

def edgeUnion (paths : List GraphPath) : List GraphEdgeRef :=
  let keyed := (paths.flatMap GraphPath.edges).foldl
    (fun (m : SortedMap (String ×ₗ String ×ₗ String) GraphEdgeRef) edge =>
      m.alter (toLex (edge.source, toLex (edge.target, edge.edgeType))) fun old =>
        old.getD edge) ∅
  keyed.entries.map Prod.snd

def Pipeline.result (p : Pipeline) (ops : List GraphOp) : QueryResult :=
  let matched := p.nodes.length
  let truncated := !asksForALimit ops && decide (0 < defaultLimit) && decide (defaultLimit < matched)
  let nodes := if truncated then p.nodes.take defaultLimit else p.nodes
  let paths := nodes.filterMap fun n => p.paths n.id
  { nodes, paths, truncated
    edges := edgeUnion paths
    count := nodes.length
    legacy := false
    nodesVisited := p.nodesVisited
    matchedBeforeLimit := if truncated then some matched else none
    groups := p.groups }

def executeOps (ops : List GraphOp) : Except LainError QueryResult := do
  let p ← ops.foldlM (applyOp db similar) {}
  return p.result defaultLimit ops

/-- Run a prebuilt query. -/
def executeNamed (name : String) : Except LainError QueryResult :=
  match QuerySpec.prebuilt name with
  | none => .error (.notFound s!"Unknown named query: {name}")
  | some ops => do
    let result ← executeOps db similar defaultLimit ops
    return { result with legacy := true }

/-- Run a query. -/
def execute (spec : QuerySpec) : Except LainError QueryResult :=
  match spec.mode, spec.named with
  | .tool, none => .error (.invalidArgument
      ("mode \"tool\" runs a named query, but no `named` was given; set `named`, or use " ++
        "mode \"query\" to run the ops array"))
  | .query, some _ => .error (.invalidArgument
      ("mode \"query\" runs the ops array, but `named` was also given; drop one of them, or use " ++
        "mode \"auto\""))
  | .tool, some name | .auto, some name => executeNamed db similar defaultLimit name
  | .query, none | .auto, none => executeOps db similar defaultLimit spec.ops

end Execute

end Query

end Lain
