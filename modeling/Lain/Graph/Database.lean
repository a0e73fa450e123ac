import Lain.Schema
import Lain.Foundation.StableGraph
import Lain.Foundation.SlotIndex

/-!
# The graph database

The in-memory store: a slot graph with three hand-maintained indexes, the
stash of edges whose target lives in another repository, and the mutators the
write-ahead log records.
-/

namespace Lain.Graph

open Foundation

/-- The errors the store reports. -/
inductive LainError where
  | graph (message : String)
  | nlp (message : String)
  | invalidArgument (message : String)
  | notFound (message : String)
  | database (message : String)
  | other (message : String)
  | invalidRepoId (message : String)
  | invalidGlobalId (message : String)
  | federationSchemaMismatch (found required : Nat)
  | federationPayloadCorrupt (reason : String)
  deriving DecidableEq

def LainError.display : LainError → String
  | .graph message => s!"Graph database error: {message}"
  | .nlp message => s!"NLP error: {message}"
  | .invalidArgument message => s!"Invalid argument: {message}"
  | .notFound message => s!"Not found: {message}"
  | .database message => s!"Database error: {message}"
  | .other message => s!"Other error: {message}"
  | .invalidRepoId message => s!"Invalid repo id: {message}"
  | .invalidGlobalId message => s!"Invalid global id: {message}"
  | .federationSchemaMismatch found required =>
    s!"federation graph was written by schema v{found}; " ++
      s!"this build expects schema v{required}. Run `lain reindex` to rebuild."
  | .federationPayloadCorrupt reason =>
    s!"federation graph payload is corrupt: {reason}. Run `lain reindex` to rebuild."

/-- The operations the write-ahead log records. -/
inductive GraphOp where
  | upsertNode (node : GraphNode)
  | upsertEdge (edge : GraphEdge)
  | removeNodesByIds (ids : List String)
  | removeEdges (endpoints : List (String × String × EdgeType))
  | commitIndexMap (version : Nat)
  deriving DecidableEq

/-- The state behind one `GraphDatabase` handle. -/
structure GraphDatabase where
  graph : StableGraph GraphNode GraphEdge := .empty
  indexMap : SlotMap String := ∅
  pathIndex : SlotIndex String := ∅
  nameIndex : SlotIndex String := ∅
  lastCommit : Option String := none
  pendingExternalEdges : List GraphEdge := []
  callsPublishedFor : Option String := none
  readOnly : Bool := false

/-- How a call ends. -/
inductive Outcome (α : Type) where
  | ok (db : GraphDatabase) (value : α)
  | error (db : GraphDatabase) (reason : LainError)
  | panicked

/-- The call ends without a panic, in a state with the property. -/
def Outcome.All {α : Type} (P : GraphDatabase → Prop) : Outcome α → Prop
  | .ok db _ => P db
  | .error db _ => P db
  | .panicked => False

instance {α : Type} (P : GraphDatabase → Prop) [DecidablePred P] :
    (outcome : Outcome α) → Decidable (outcome.All P)
  | .ok db _ => inferInstanceAs (Decidable (P db))
  | .error db _ => inferInstanceAs (Decidable (P db))
  | .panicked => .isFalse id

/-- A mutator call: the operations it logs before it takes effect, and its end. -/
structure Call (α : Type) where
  logged : List GraphOp
  outcome : Outcome α

namespace GraphDatabase

def readOnlyError : LainError := .other "graph is read-only"

def idAt (db : GraphDatabase) (i : Nat) : Option String :=
  (db.graph.nodeWeight i).map GraphNode.id

def pathAt (db : GraphDatabase) (i : Nat) : Option String :=
  (db.graph.nodeWeight i).map GraphNode.path

def nameAt (db : GraphDatabase) (i : Nat) : Option String :=
  (db.graph.nodeWeight i).map GraphNode.name

/-- Look a node up by id. -/
def getNode (db : GraphDatabase) (id : String) : Option GraphNode :=
  (db.indexMap.lookup id).bind db.graph.nodeWeight

/-- Whether the id index knows an id. -/
def hasNode (db : GraphDatabase) (id : String) : Bool :=
  (db.indexMap.lookup id).isSome

/-- The stored edges, oldest first. -/
def edges (db : GraphDatabase) : List GraphEdge :=
  db.graph.edgeWeights

def putNode (db : GraphDatabase) (node : GraphNode) : Option GraphDatabase :=
  match db.indexMap.lookup node.id with
  | some idx =>
    match db.graph.nodeWeight idx with
    | none => none
    | some existing =>
      if node.isHydrated || !existing.isHydrated then
        some { db with graph := db.graph.setNode idx node }
      else some db
  | none =>
    let idx := db.graph.nextIndex
    some
      { db with
        graph := db.graph.addNode node
        indexMap := db.indexMap.insert node.id idx
        pathIndex := db.pathIndex.push node.path idx
        nameIndex := db.nameIndex.push node.name idx }

def settle {α : Type} (value : α) : Option GraphDatabase → Outcome α
  | some db => .ok db value
  | none => .panicked

/-- Insert or refresh one node. -/
def upsertNode (db : GraphDatabase) (node : GraphNode) : Call Unit :=
  if db.readOnly then ⟨[], .error db readOnlyError⟩
  else ⟨[.upsertNode node], settle () (db.putNode node)⟩

/-- Insert or refresh a batch of nodes under one lock and one log write. -/
def insertNodesBatch (db : GraphDatabase) (newNodes : List GraphNode) : Call Unit :=
  if db.readOnly then ⟨[], .error db readOnlyError⟩
  else ⟨newNodes.map .upsertNode, settle () (newNodes.foldlM putNode db)⟩

structure Removal where
  graph : StableGraph GraphNode GraphEdge
  clearedPaths : List (String × Nat) := []
  clearedNames : List (String × Nat) := []
  removed : Nat := 0

/-- Remove the node of one id from the graph, noting what to unindex. -/
def Removal.remove (indexMap : SlotMap String) (r : Removal) (id : String) : Removal :=
  match indexMap.lookup id with
  | none => r
  | some idx =>
    match r.graph.nodeWeight idx with
    | none => r
    | some node =>
      { graph := r.graph.removeNode idx
        clearedPaths := r.clearedPaths ++ [(node.path, idx)]
        clearedNames := r.clearedNames ++ [(node.name, idx)]
        removed := r.removed + 1 }

def removeLocked (db : GraphDatabase) (ids : List String) : Removal :=
  ids.foldl (Removal.remove db.indexMap) { graph := db.graph }

def removeCleanup (db : GraphDatabase) (ids : List String)
    (clearedPaths clearedNames : List (String × Nat)) : GraphDatabase :=
  { db with
    indexMap := ids.foldl (fun m id => m.erase id) db.indexMap
    pathIndex := clearedPaths.foldl (fun m entry => m.drop entry.1 entry.2) db.pathIndex
    nameIndex := clearedNames.foldl (fun m entry => m.drop entry.1 entry.2) db.nameIndex }

/-- Remove nodes by id, with their incident edges. -/
def removeNodesByIds (db : GraphDatabase) (ids : List String) : Call Nat :=
  if db.readOnly then ⟨[], .error db readOnlyError⟩
  else
    let r := db.removeLocked ids
    ⟨[.removeNodesByIds ids],
      .ok (removeCleanup { db with graph := r.graph } ids r.clearedPaths r.clearedNames)
        r.removed⟩

def retract (db : GraphDatabase) (endpoints : List (String × String × EdgeType)) :
    GraphDatabase :=
  { db with graph := db.graph.retainEdges fun a => !endpoints.contains a.weight.triple }

/-- Remove every edge that shares its triple with one of the given edges. -/
def removeEdges (db : GraphDatabase) (edges : List GraphEdge) : Call Nat :=
  if db.readOnly then ⟨[], .error db readOnlyError⟩
  else
    let endpoints := edges.map GraphEdge.triple
    let after := db.retract endpoints
    ⟨[.removeEdges endpoints], .ok after (db.graph.arcs.length - after.graph.arcs.length)⟩

def edgeExists (db : GraphDatabase) (source target : Nat) (edge : GraphEdge) : Bool :=
  (db.graph.edgesConnecting source target).any fun a => sameEdgeIdentity a.weight edge

def addEdge (db : GraphDatabase) (source target : Nat) (edge : GraphEdge) :
    Option GraphDatabase :=
  (db.graph.addEdge source target edge).map fun graph => { db with graph }

def sourceNotFound (id : String) : LainError :=
  .notFound s!"Source node {id} not found"

def targetNotFound (id : String) : LainError :=
  .notFound s!"Target node {id} not found"

def endpoints (db : GraphDatabase) (edge : GraphEdge) : Except LainError (Nat × Nat) :=
  match db.indexMap.lookup edge.sourceId with
  | none => .error (sourceNotFound edge.sourceId)
  | some source =>
    match db.indexMap.lookup edge.targetId with
    | none => .error (targetNotFound edge.targetId)
    | some target => .ok (source, target)

/-- Append an edge whose endpoints must both exist. -/
def insertEdge (db : GraphDatabase) (edge : GraphEdge) : Call Unit :=
  if db.readOnly then ⟨[], .error db readOnlyError⟩
  else
    match db.endpoints edge with
    | .error reason => ⟨[], .error db reason⟩
    | .ok (source, target) =>
      ⟨[.upsertEdge edge], settle () (db.addEdge source target edge)⟩

/-- Insert an edge unless one of the same identity is stored. -/
def upsertEdge (db : GraphDatabase) (edge : GraphEdge) : Call Unit :=
  match db.endpoints edge with
  | .ok (source, target) =>
    if db.edgeExists source target edge then ⟨[], .ok db ()⟩ else db.insertEdge edge
  | .error _ => db.insertEdge edge

def takeEdge (state : GraphDatabase × Nat) (edge : GraphEdge) :
    Option (GraphDatabase × Nat) :=
  let (db, dropped) := state
  match db.indexMap.lookup edge.sourceId, db.indexMap.lookup edge.targetId with
  | some source, some target =>
    if db.edgeExists source target edge then some (db, dropped)
    else (db.addEdge source target edge).map fun after => (after, dropped)
  | some _, none =>
    some ({ db with pendingExternalEdges := db.pendingExternalEdges ++ [edge] }, dropped)
  | none, _ => some (db, dropped + 1)

/-- Insert a batch of edges, stashing those whose target is foreign. -/
def insertEdgesBatch (db : GraphDatabase) (newEdges : List GraphEdge) : Call Nat :=
  if db.readOnly then ⟨[], .error db readOnlyError⟩
  else
    let logged :=
      (newEdges.filter fun e => db.hasNode e.sourceId && db.hasNode e.targetId).map .upsertEdge
    ⟨logged,
      match newEdges.foldlM takeEdge (db, 0) with
      | some (after, dropped) => .ok after dropped
      | none => .panicked⟩

/-- Drain the stash of edges whose target lives in another repository. -/
def takePendingExternalEdges (db : GraphDatabase) : List GraphEdge × GraphDatabase :=
  (db.pendingExternalEdges, { db with pendingExternalEdges := [] })

/-- Resolve the endpoints of a batch in order; the first missing one is the error. -/
def resolve (db : GraphDatabase) :
    List GraphEdge → Except LainError (List ((Nat × Nat) × GraphEdge))
  | [] => .ok []
  | edge :: rest =>
    match db.endpoints edge with
    | .error reason => .error reason
    | .ok slots =>
      match db.resolve rest with
      | .error reason => .error reason
      | .ok later => .ok ((slots, edge) :: later)

def newInBatch (db : GraphDatabase) :
    List EdgeKey → List ((Nat × Nat) × GraphEdge) → List ((Nat × Nat) × GraphEdge)
  | _, [] => []
  | seen, ((source, target), edge) :: rest =>
    if edgeIdentityKey edge ∈ seen then db.newInBatch seen rest
    else if db.edgeExists source target edge then
      db.newInBatch (edgeIdentityKey edge :: seen) rest
    else ((source, target), edge) :: db.newInBatch (edgeIdentityKey edge :: seen) rest

def addAll (db : GraphDatabase) (batch : List ((Nat × Nat) × GraphEdge)) :
    Option GraphDatabase :=
  batch.foldlM (fun state entry => state.addEdge entry.1.1 entry.1.2 entry.2) db

/-- Insert a batch of edges whose endpoints must all exist; the batch is
validated before anything changes. -/
def upsertEdgesBatchStrict (db : GraphDatabase) (batch : List GraphEdge) : Call Unit :=
  if db.readOnly then ⟨[], .error db readOnlyError⟩
  else if batch.isEmpty then ⟨[], .ok db ()⟩
  else
    match db.resolve batch with
    | .error reason => ⟨[], .error db reason⟩
    | .ok resolved =>
      let toInsert := db.newInBatch [] resolved
      ⟨toInsert.map fun entry => .upsertEdge entry.2, settle () (db.addAll toInsert)⟩

end GraphDatabase

end Lain.Graph
