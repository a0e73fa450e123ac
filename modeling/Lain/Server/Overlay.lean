import Mathlib
import Lain.Foundation.DiGraph
import Lain.Foundation.SortedMap
import Lain.Server.RevisionLog

/-!
# The volatile overlay

The in-memory graph of uncommitted changes: a compact graph, a hand-maintained map
from ids to indices, a bloom filter in front of it, and the log of node changes.
-/

namespace Lain.Server

open Foundation

abbrev BloomFilter := BitVec 8192

/-- The rolling hash of a string, on 32 bits. -/
def hashStr (s : String) (seed : Nat) : Nat :=
  (s.toList.flatMap String.utf8EncodeChar).foldl
    (fun hash b => (hash * 31 + b.toNat) % 2 ^ 32) seed

/-- Set both bits of an id. -/
def updateBloom (filter : BloomFilter) (id : String) : BloomFilter :=
  filter ||| BitVec.twoPow 8192 (hashStr id 0 % 8192) ||| BitVec.twoPow 8192 (hashStr id 1 % 8192)

/-- Both bits of an id are set. -/
def checkBloom (filter : BloomFilter) (id : String) : Bool :=
  filter.getLsbD (hashStr id 0 % 8192) && filter.getLsbD (hashStr id 1 % 8192)

theorem checkBloom_updateBloom_self (filter : BloomFilter) (id : String) :
    checkBloom (updateBloom filter id) id = true := by
  have first : hashStr id 0 % 8192 < 8192 := Nat.mod_lt _ (by decide)
  have second : hashStr id 1 % 8192 < 8192 := Nat.mod_lt _ (by decide)
  simp [checkBloom, updateBloom, first, second]

theorem checkBloom_updateBloom {filter : BloomFilter} {id : String} (known : checkBloom filter id)
    (other : String) : checkBloom (updateBloom filter other) id = true := by
  obtain ⟨first, second⟩ := Bool.and_eq_true_iff.mp known
  simp [checkBloom, updateBloom, first, second]

abbrev NodeIndexMap := SortedMap String Nat

def keyOf (map : NodeIndexMap) (i : Nat) : Option String :=
  (map.entries.find? fun entry => decide (entry.2 = i)).map Prod.fst

def repoint (map : NodeIndexMap) (last i : Nat) : NodeIndexMap :=
  if i ≠ last then
    match keyOf map last with
    | some id => map.insert id i
    | none => map
  else map

/-- The state of one overlay. -/
structure VolatileOverlay where
  graph : DiGraph GraphNode EdgeType
  nodeIndexMap : NodeIndexMap
  bloomFilter : BloomFilter
  log : RevisionLog

namespace VolatileOverlay

/-- An overlay without nodes. -/
def new : VolatileOverlay where
  graph := .new
  nodeIndexMap := ∅
  bloomFilter := 0
  log := .new

/-- The highest revision of the log. -/
def currentRevision (o : VolatileOverlay) : Nat :=
  o.log.currentRevision

/-- The retained diffs after a revision. -/
def diffsSince (o : VolatileOverlay) (rev : Nat) : Except LookupResult (List OverlayDiff) :=
  o.log.diffsSince rev

def takeOut (graph : DiGraph GraphNode EdgeType) (map : NodeIndexMap) (i : Nat) :
    DiGraph GraphNode EdgeType × NodeIndexMap :=
  let lastIndex := graph.nodeCount - 1
  if i < graph.nodeCount then (graph.removeNode i, repoint map lastIndex i) else (graph, map)

/-- Insert a node; a node with its id is removed first. -/
def insertNode (o : VolatileOverlay) (node : GraphNode) : VolatileOverlay :=
  let cleared :=
    match o.nodeIndexMap.get? node.id with
    | some oldIdx => takeOut o.graph o.nodeIndexMap oldIdx
    | none => (o.graph, o.nodeIndexMap)
  { graph := cleared.1.addNode node
    nodeIndexMap := cleared.2.insert node.id cleared.1.nodeCount
    bloomFilter := updateBloom o.bloomFilter node.id
    log := o.log.enqueue { added := [node] } }

/-- The name under which updates insert. -/
def upsertNode (o : VolatileOverlay) (node : GraphNode) : VolatileOverlay :=
  o.insertNode node

/-- Remove a node by id; whether there was one. -/
def removeNode (o : VolatileOverlay) (id : String) : VolatileOverlay × Bool :=
  match o.nodeIndexMap.get? id with
  | some idx =>
    let map := o.nodeIndexMap.erase id
    if idx < o.graph.nodeCount then
      let cleared := takeOut o.graph map idx
      ({ o with
          graph := cleared.1
          nodeIndexMap := cleared.2
          log := o.log.enqueue { removed := [id] } }, true)
    else ({ o with nodeIndexMap := map }, false)
  | none => (o, false)

def idsForPath (o : VolatileOverlay) (path : String) : List String :=
  o.graph.nodes.zipIdx.filterMap fun entry =>
    if entry.1.path = path then keyOf o.nodeIndexMap entry.2 else none

/-- Remove every node of a path; how many were removed. -/
def removeNodesForPath (o : VolatileOverlay) (path : String) : VolatileOverlay × Nat :=
  (o.idsForPath path).foldl
    (fun s id =>
      let after := s.1.removeNode id
      (after.1, if after.2 then s.2 + 1 else s.2)) (o, 0)

def edgeIndices (o : VolatileOverlay) (edge : GraphEdge) : Except String (Nat × Nat) :=
  match o.nodeIndexMap.get? edge.sourceId with
  | none => .error s!"Source node not found: {edge.sourceId}"
  | some source =>
    match o.nodeIndexMap.get? edge.targetId with
    | none => .error s!"Target node not found: {edge.targetId}"
    | some target => .ok (source, target)

def addEdgeAt (o : VolatileOverlay) (source target : Nat) (edgeType : EdgeType) :
    Option VolatileOverlay :=
  if (o.graph.edges source).any fun a =>
      decide (a.target = target) && decide (a.weight = edgeType) then some o
  else
    (o.graph.addEdge source target edgeType).map fun graph =>
      { o with graph, log := o.log.enqueue {} }

/-- Insert an edge between two known ids. -/
def insertEdge (o : VolatileOverlay) (edge : GraphEdge) :
    Option (VolatileOverlay × Except String Unit) :=
  match o.edgeIndices edge with
  | .error reason => some (o, .error reason)
  | .ok (source, target) =>
    (o.addEdgeAt source target edge.edgeType).map fun after => (after, .ok ())

/-- A node by id, behind the filter. -/
def getNode (o : VolatileOverlay) (id : String) : Option GraphNode :=
  if !checkBloom o.bloomFilter id then none
  else (o.nodeIndexMap.get? id).bind o.graph.nodeWeight

/-- All nodes, in index order. -/
def getAllNodes (o : VolatileOverlay) : List GraphNode :=
  o.graph.nodes

/-- All edges with the nodes they connect. -/
def getAllEdges (o : VolatileOverlay) : List (GraphNode × GraphNode × EdgeType) :=
  o.graph.links

/-- The nodes with an edge to a node, with the types of the edges. -/
def getIncomingEdges (o : VolatileOverlay) (id : String) : List (GraphNode × EdgeType) :=
  match o.nodeIndexMap.get? id with
  | none => []
  | some idx =>
    o.graph.arcs.filterMap fun a =>
      if a.target = idx then (o.graph.nodeWeight a.source).map fun source => (source, a.weight)
      else none

/-- Forget the nodes; the log keeps its history. -/
def clear (o : VolatileOverlay) : VolatileOverlay where
  graph := .new
  nodeIndexMap := ∅
  bloomFilter := 0
  log := o.log

def mergeNode (o : VolatileOverlay) (node : GraphNode) : VolatileOverlay where
  graph := o.graph.addNode node
  nodeIndexMap := o.nodeIndexMap.insert node.id o.graph.nodeCount
  bloomFilter := updateBloom o.bloomFilter node.id
  log := o.log

def mergeEdge (o : VolatileOverlay) (link : GraphNode × GraphNode × EdgeType) :
    Option VolatileOverlay :=
  match o.nodeIndexMap.get? link.1.id, o.nodeIndexMap.get? link.2.1.id with
  | some source, some target =>
    (o.graph.addEdge source target link.2.2).map fun graph => { o with graph }
  | _, _ => some o

/-- Merge another overlay into this one. -/
def merge (o other : VolatileOverlay) : Option VolatileOverlay :=
  other.getAllEdges.foldlM mergeEdge (other.getAllNodes.foldl mergeNode o)

end VolatileOverlay

inductive OverlayOp where
  | insertNode (node : GraphNode)
  | upsertNode (node : GraphNode)
  | removeNode (id : String)
  | removeNodesForPath (path : String)
  | insertEdge (edge : GraphEdge)
  | merge (other : VolatileOverlay)
  | clear

/-- The state after an operation; there is none when the operation panics. -/
def VolatileOverlay.apply (o : VolatileOverlay) : OverlayOp → Option VolatileOverlay
  | .insertNode node => some (o.insertNode node)
  | .upsertNode node => some (o.upsertNode node)
  | .removeNode id => some (o.removeNode id).1
  | .removeNodesForPath path => some (o.removeNodesForPath path).1
  | .insertEdge edge => (o.insertEdge edge).map Prod.fst
  | .merge other => o.merge other
  | .clear => some o.clear

/-- The ids an operation names. -/
def OverlayOp.Names (op : OverlayOp) (o : VolatileOverlay) (id : String) : Prop :=
  match op with
  | insertNode node | upsertNode node => id = node.id
  | removeNode removed => id = removed
  | removeNodesForPath path => ∃ node ∈ o.getAllNodes, node.path = path ∧ node.id = id
  | insertEdge edge => id = edge.sourceId ∨ id = edge.targetId
  | merge other => ∃ node ∈ other.getAllNodes, node.id = id
  | clear => True

/-- **The invariant of an overlay**: the map and the graph agree on which id has which
index, an id is found exactly when it is in the map, and no two parallel edges have
the same type. -/
structure Consistent (o : VolatileOverlay) : Prop where
  lookup : ∀ id i, o.nodeIndexMap.get? id = some i ↔
    ∃ node, o.graph.nodeWeight i = some node ∧ node.id = id
  found : ∀ id, (o.getNode id).isSome = (o.nodeIndexMap.get? id).isSome
  parallel : o.graph.arcs.Nodup

structure Untouched (named : String → Prop) (o o' : VolatileOverlay) : Prop where
  nodes : ∀ node, ¬ named node.id → (node ∈ o'.getAllNodes ↔ node ∈ o.getAllNodes)
  edges : ∀ source target edgeType, ¬ named source.id → ¬ named target.id →
    ((source, target, edgeType) ∈ o'.getAllEdges ↔ (source, target, edgeType) ∈ o.getAllEdges)

inductive Reached : VolatileOverlay → Prop
  | new : Reached .new
  | step {o o' : VolatileOverlay} (op : OverlayOp) : Reached o →
      (∀ other, op = .merge other → Reached other) → o.apply op = some o' → Reached o'

def SharesNoId (o : VolatileOverlay) (op : OverlayOp) : Prop :=
  ∀ other, op = .merge other →
    ∀ mine ∈ o.getAllNodes, ∀ theirs ∈ other.getAllNodes, mine.id ≠ theirs.id

inductive BuiltApart : VolatileOverlay → Prop
  | new : BuiltApart .new
  | step {o o' : VolatileOverlay} (op : OverlayOp) : BuiltApart o →
      (∀ other, op = .merge other → BuiltApart other) → SharesNoId o op →
      o.apply op = some o' → BuiltApart o'

end Lain.Server
