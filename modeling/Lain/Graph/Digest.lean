import Mathlib
import Lain.Foundation.StableSort
import Lain.Schema

/-!
# The canonical digest

The bytes fed to the hasher that pins what the analyzer made of a repository: every node in the
order of the ids, with the fields of a pass cleared, then every edge in the order of type, source
and target.
-/

namespace Lain

def EdgeType.debug : EdgeType → String
  | .contains => "Contains"
  | .calls => "Calls"
  | .uses => "Uses"
  | .implements => "Implements"
  | .imports => "Imports"
  | .coChangedWith => "CoChangedWith"
  | .pattern => "Pattern"
  | .callsHttp => "CallsHttp"
  | .produces => "Produces"
  | .consumes => "Consumes"
  | .deployedTo => "DeployedTo"
  | .crossRepoSameSymbol => "CrossRepoSameSymbol"
  | .dynamicDispatch => "DynamicDispatch"
  | .busTopic => "BusTopic"
  | .routeMatches => "RouteMatches"
  | .runtimeCall => "RuntimeCall"
  | .sendsHttp => "SendsHttp"
  | .requestSchema => "RequestSchema"
  | .responseSchema => "ResponseSchema"
  | .payloadSchema => "PayloadSchema"
  | .hasField => "HasField"
  | .readsField => "ReadsField"
  | .readsFrom => "ReadsFrom"
  | .binds => "Binds"
  | .readsTable => "ReadsTable"
  | .writesTable => "WritesTable"
  | .callsGraphql => "CallsGraphql"

namespace Graph

open Foundation

variable {Rest : Type*}

structure StoredNode (Rest : Type*) extends GraphNode where
  lastGitSync : Option Int := none
  rest : Rest

def StoredNode.cleared (node : StoredNode Rest) : StoredNode Rest :=
  { node with lastLspSync := none, lastGitSync := none, isHydrated := false, embedding := none }

structure GraphContent (Rest : Type*) where
  nodes : List (StoredNode Rest)
  edges : List GraphEdge
  distinct : (nodes.map fun node => node.id).Nodup

/-- What edges are sorted by. -/
def edgeSortKey (edge : GraphEdge) : String ×ₗ String ×ₗ String :=
  toLex (edge.edgeType.debug, toLex (edge.sourceId, edge.targetId))

def GraphContent.digestStream (encodeNode : StoredNode Rest → List UInt8)
    (encodeEdge : GraphEdge → List UInt8) (g : GraphContent Rest) : List UInt8 :=
  (sortByKey (fun node : StoredNode Rest => node.id) g.nodes).flatMap
      (fun node => encodeNode node.cleared) ++
    (sortByKey edgeSortKey g.edges).flatMap encodeEdge

structure SameContent (a b : GraphContent Rest) : Prop where
  nodes : ∀ node, node ∈ a.nodes.map StoredNode.cleared ↔ node ∈ b.nodes.map StoredNode.cleared
  edges : ∀ edge, edge ∈ a.edges ↔ edge ∈ b.edges

def SameOrder (a b : GraphContent Rest) : Prop :=
  ∀ key, (a.edges.filter fun edge => decide (edgeSortKey edge = key)) =
    b.edges.filter fun edge => decide (edgeSortKey edge = key)

namespace SameContent

variable {a b : GraphContent Rest}

theorem nodup_cleared (g : GraphContent Rest) : (g.nodes.map StoredNode.cleared).Nodup := by
  refine List.Nodup.of_map (fun node => node.id) ?_
  rw [List.map_map]
  exact g.distinct

theorem sorted_nodes (same : SameContent a b) :
    (sortByKey (fun node : StoredNode Rest => node.id) a.nodes).map StoredNode.cleared =
      (sortByKey (fun node : StoredNode Rest => node.id) b.nodes).map StoredNode.cleared := by
  have perm : (a.nodes.map StoredNode.cleared).Perm (b.nodes.map StoredNode.cleared) :=
    (List.perm_ext_iff_of_nodup (nodup_cleared a) (nodup_cleared b)).mpr same.nodes
  have strict : ∀ g : GraphContent Rest,
      ((sortByKey (fun node : StoredNode Rest => node.id) g.nodes).map
        StoredNode.cleared).Pairwise fun n m => n.id < m.id := by
    intro g
    have ids : ((sortByKey (fun node : StoredNode Rest => node.id) g.nodes).map
        fun node => node.id).Nodup := ((perm_sortByKey _ g.nodes).map _).nodup_iff.mpr g.distinct
    refine List.pairwise_map.mpr ?_
    exact ((sorted_sortByKey _ g.nodes).and (List.pairwise_map.mp ids)).imp
      fun ordered => lt_of_le_of_ne ordered.1 ordered.2
  have moved : ∀ g : GraphContent Rest,
      ((sortByKey (fun node : StoredNode Rest => node.id) g.nodes).map StoredNode.cleared).Perm
        (g.nodes.map StoredNode.cleared) := fun g => (perm_sortByKey _ g.nodes).map _
  exact ((moved a).trans (perm.trans (moved b).symm)).eq_of_pairwise
    (fun n m _ _ before after => absurd before after.asymm) (strict a) (strict b)

/-- **The digest and the order of the edges.** Graphs of the same content feed the hasher the same
bytes exactly when they store the edges of each type between the same two nodes in the same
order. -/
theorem digestStream_eq_iff (same : SameContent a b)
    (encodeNode : StoredNode Rest → List UInt8) {encodeEdge : GraphEdge → List UInt8}
    (code : SelfDelimiting encodeEdge a.edges) :
    a.digestStream encodeNode encodeEdge = b.digestStream encodeNode encodeEdge ↔
      SameOrder a b := by
  have nodes : (sortByKey (fun node : StoredNode Rest => node.id) a.nodes).flatMap
        (fun node => encodeNode node.cleared) =
      (sortByKey (fun node : StoredNode Rest => node.id) b.nodes).flatMap
        fun node => encodeNode node.cleared := by
    have sorted := congrArg (List.flatMap encodeNode) same.sorted_nodes
    rw [List.flatMap_map, List.flatMap_map] at sorted
    exact sorted
  unfold GraphContent.digestStream SameOrder
  rw [nodes, List.append_cancel_left_eq, ← sortByKey_eq_iff]
  constructor
  · refine code.flatMap_injective (fun edge member => ?_) fun edge member => ?_
    · exact (perm_sortByKey _ _).mem_iff.mp member
    · exact (same.edges edge).mpr ((perm_sortByKey _ _).mem_iff.mp member)
  · exact fun sorted => congrArg (List.flatMap encodeEdge) sorted

end SameContent

/-! ### Bytes of plain records -/

def bytes64 (n : Nat) : List UInt8 :=
  (List.range 8).map fun i => UInt8.ofNat (n / 256 ^ i)

def bytes32 (n : Nat) : List UInt8 :=
  (List.range 4).map fun i => UInt8.ofNat (n / 256 ^ i)

def bytesText (text : String) : List UInt8 :=
  bytes64 text.utf8ByteSize ++ text.toUTF8.data.toList

def producesBytes (edge : GraphEdge) : List UInt8 :=
  bytes32 8 ++ bytesText edge.sourceId ++ bytesText edge.targetId ++ [0, 0, 1] ++ bytes32 0 ++
    bytes32 0 ++
    (match edge.site with
      | none => [0]
      | some site => 1 :: (bytesText site.path ++ bytes32 site.line)) ++ [0]

def functionBytes (node : StoredNode Unit) : List UInt8 :=
  bytesText node.id ++ bytes32 9 ++ bytesText node.name ++ bytesText node.path ++
    List.replicate 20 0 ++ bytes64 0 ++ [0]

def plainFunction (id : String) : StoredNode Unit where
  id
  nodeType := .function
  name := id
  path := "bus.rs"
  rest := ()

def publication (line : Nat) : GraphEdge where
  edgeType := .produces
  sourceId := "a"
  targetId := "b"
  site := some ⟨"bus.rs", line⟩

def ascending : GraphContent Unit where
  nodes := [plainFunction "a", plainFunction "b"]
  edges := [publication 3, publication 7]
  distinct := by decide

def reordered : GraphContent Unit where
  nodes := [plainFunction "b", plainFunction "a"]
  edges := [publication 3, publication 7]
  distinct := by decide

def descending : GraphContent Unit where
  nodes := [plainFunction "a", plainFunction "b"]
  edges := [publication 7, publication 3]
  distinct := by decide

/-- The two conditions agree for graphs whose nodes are stored in another order. -/
theorem digestStream_eq_iff_reordered :
    ascending.digestStream functionBytes producesBytes =
        reordered.digestStream functionBytes producesBytes ↔ SameOrder ascending reordered :=
  SameContent.digestStream_eq_iff
    ⟨fun node => by simp [ascending, or_comm], fun _ => Iff.rfl⟩ functionBytes
    ⟨by decide, by decide⟩

/-- Two publications stored in the other order feed the hasher other bytes. -/
theorem digestStream_ne_descending :
    SameContent ascending descending ∧
      ascending.digestStream functionBytes producesBytes ≠
        descending.digestStream functionBytes producesBytes := by
  refine ⟨⟨fun _ => Iff.rfl, fun edge => by simp [ascending, descending, or_comm]⟩, ?_⟩
  decide +kernel

end Graph

end Lain
