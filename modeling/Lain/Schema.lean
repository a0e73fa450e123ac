import Lain.Contracts.Model
import Mathlib.Data.Rat.Defs

/-!
# Graph schema

Node and edge types of the code graph, the node and edge records the store
keeps, and the identity under which two edges are the same edge.
-/

namespace Lain

open Contracts (ContractFact EntryKind SourceSite)

/-- What a graph node stands for. -/
inductive NodeType where
  | file | namespace | module | package | «class» | interface | struct | enum
  | trait | function | method | property | variable | constant
  | httpRoute | topic | resource | schema
  | httpClientCall | field | fieldRef
  | synthetic
  | table
  deriving DecidableEq

/-- What a graph edge says about its endpoints. -/
inductive EdgeType where
  | contains | calls | uses | implements | imports | coChangedWith | pattern
  | callsHttp | produces | consumes | deployedTo
  | crossRepoSameSymbol | dynamicDispatch | busTopic | routeMatches | runtimeCall
  | sendsHttp | requestSchema | responseSchema | payloadSchema
  | hasField | readsField | readsFrom | binds
  | readsTable | writesTable | callsGraphql
  deriving DecidableEq

/-- The static analysis an edge came from. -/
inductive StaticSource where
  | treeSitter | lsp | regex
  deriving DecidableEq

/-- How an edge was produced. -/
inductive EdgeProvenance where
  | static (source : StaticSource)
  | heuristic (detector : String) (confidence : ℚ)
  | runtime (traceId : String) (lastSeenUnix : Int)
  | confirmed (source : String)
  deriving DecidableEq

/-- How the joiner matched a binding. -/
inductive RouteMatch where
  | exact | pattern | prefixStripped
  deriving DecidableEq

/-- The join metadata of a `binds` edge. -/
structure EdgeDetail where
  routeMatch : Option RouteMatch
  strippedPrefix : Option String
  deriving DecidableEq

/-- A node of the knowledge graph. -/
structure GraphNode where
  id : String
  nodeType : NodeType
  name : String
  path : String
  lineStart : Option Nat := none
  lineEnd : Option Nat := none
  signature : Option String := none
  embedding : Option String := none
  isDeprecated : Bool := false
  label : Option String := none
  container : Option String := none
  lastLspSync : Option Int := none
  isHydrated : Bool := true
  repoId : Option String := none
  contract : List ContractFact := []
  entry : Option EntryKind := none
  deriving DecidableEq

/-- An edge of the knowledge graph. -/
structure GraphEdge where
  edgeType : EdgeType
  sourceId : String
  targetId : String
  weight : Option ℚ := none
  crossRepo : Bool := false
  provenance : Option EdgeProvenance := some (.static .treeSitter)
  site : Option SourceSite := none
  detail : Option EdgeDetail := none
  deriving DecidableEq

/-- The label of a node as the query language shows it; the flag wins over the field. -/
def GraphNode.queryLabel (node : GraphNode) : Option String :=
  if node.isDeprecated then some "deprecated" else node.label

/-- Whether `site` is part of the identity of edges of this type. -/
def siteIsIdentity : EdgeType → Bool
  | .produces | .consumes => true
  | _ => false

/-- Two records describe the same edge, endpoints aside. -/
def sameEdgeIdentity (existing incoming : GraphEdge) : Bool :=
  if existing.edgeType ≠ incoming.edgeType then false
  else if siteIsIdentity incoming.edgeType then existing.site = incoming.site
  else true

structure EdgeKey where
  edgeType : EdgeType
  sourceId : String
  targetId : String
  site : Option SourceSite
  deriving DecidableEq

/-- The identity of an edge as a key. -/
def edgeIdentityKey (edge : GraphEdge) : EdgeKey where
  edgeType := edge.edgeType
  sourceId := edge.sourceId
  targetId := edge.targetId
  site := if siteIsIdentity edge.edgeType then edge.site else none

theorem edgeIdentityKey_eq_iff (existing incoming : GraphEdge) :
    edgeIdentityKey existing = edgeIdentityKey incoming ↔
      existing.sourceId = incoming.sourceId ∧ existing.targetId = incoming.targetId ∧
        sameEdgeIdentity existing incoming = true := by
  unfold edgeIdentityKey sameEdgeIdentity
  by_cases sameType : existing.edgeType = incoming.edgeType
  · by_cases perSite : siteIsIdentity incoming.edgeType = true
    · simp [sameType, perSite]
    · simp [sameType, perSite]
  · simp [sameType]

def GraphEdge.triple (edge : GraphEdge) : String × String × EdgeType :=
  (edge.sourceId, edge.targetId, edge.edgeType)

def EdgeKey.triple (key : EdgeKey) : String × String × EdgeType :=
  (key.sourceId, key.targetId, key.edgeType)

@[simp] theorem triple_edgeIdentityKey (edge : GraphEdge) :
    (edgeIdentityKey edge).triple = edge.triple := rfl

end Lain
