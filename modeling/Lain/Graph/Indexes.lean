import Lain.Graph.Replace

/-!
# Index agreement

The id, path and name indexes are the exact inverses of the keys of the live
slots, provided an id determines the path and name of its node.
-/

namespace Lain.Graph

open Foundation

structure Naming where
  pathOf : String → String
  nameOf : String → String

/-- A node that has the path and name of its id. -/
def Naming.Canonical (naming : Naming) (node : GraphNode) : Prop :=
  node.path = naming.pathOf node.id ∧ node.name = naming.nameOf node.id

def slotKey (graph : StableGraph GraphNode GraphEdge) (key : GraphNode → String) (i : Nat) :
    Option String :=
  (graph.nodeWeight i).map key

theorem slotKey_eq_some {graph : StableGraph GraphNode GraphEdge} {key : GraphNode → String}
    {i : Nat} {k : String} :
    slotKey graph key i = some k ↔ ∃ n, graph.nodeWeight i = some n ∧ key n = k := by
  simp [slotKey]

structure Aligned (naming : Naming) (graph : StableGraph GraphNode GraphEdge)
    (indexMap : SlotMap String) (nameIndex : SlotIndex String) : Prop where
  canonical : ∀ i n, graph.nodeWeight i = some n → naming.Canonical n
  ids : indexMap.Locates (slotKey graph GraphNode.id)
  names : nameIndex.Indexes (slotKey graph GraphNode.name)

namespace Aligned

variable {naming : Naming} {graph : StableGraph GraphNode GraphEdge}
  {indexMap : SlotMap String} {nameIndex : SlotIndex String}

theorem slotKey_addNode (graph : StableGraph GraphNode GraphEdge) (key : GraphNode → String)
    (n : GraphNode) :
    slotKey graph key graph.nextIndex = none ∧
      slotKey (graph.addNode n) key graph.nextIndex = some (key n) ∧
        ∀ j, j ≠ graph.nextIndex → slotKey (graph.addNode n) key j = slotKey graph key j := by
  refine ⟨?_, ?_, ?_⟩
  · simp [slotKey, graph.nodeWeight_nextIndex]
  · simp [slotKey, graph.nodeWeight_addNode]
  · intro j other
    simp [slotKey, graph.nodeWeight_addNode, other]

theorem slotKey_removeNode (graph : StableGraph GraphNode GraphEdge)
    (key : GraphNode → String) (i : Nat) :
    slotKey (graph.removeNode i) key i = none ∧
      ∀ j, j ≠ i → slotKey (graph.removeNode i) key j = slotKey graph key j := by
  refine ⟨?_, ?_⟩
  · simp [slotKey, graph.nodeWeight_removeNode]
  · intro j other
    simp [slotKey, graph.nodeWeight_removeNode, other]

theorem slotKey_setNode (key : GraphNode → String) {i : Nat} {old n : GraphNode}
    (live : graph.nodeWeight i = some old) (same : key n = key old) (j : Nat) :
    slotKey (graph.setNode i n) key j = slotKey graph key j := by
  unfold slotKey
  rw [graph.nodeWeight_setNode]
  by_cases here : j = i
  · subst here
    simp [live, same]
  · simp [here]

theorem canonical_agree {m n : GraphNode} (left : naming.Canonical m)
    (right : naming.Canonical n) (same : m.id = n.id) :
    m.path = n.path ∧ m.name = n.name := by
  constructor
  · rw [left.1, right.1, same]
  · rw [left.2, right.2, same]

theorem live_of_lookup (aligned : Aligned naming graph indexMap nameIndex) {id : String}
    {i : Nat} (located : indexMap.lookup id = some i) :
    ∃ n, graph.nodeWeight i = some n ∧ n.id = id :=
  slotKey_eq_some.mp ((aligned.ids id i).mp located)

theorem add (aligned : Aligned naming graph indexMap nameIndex) {n : GraphNode}
    (canonical : naming.Canonical n) (fresh : indexMap.lookup n.id = none) :
    Aligned naming (graph.addNode n) (indexMap.insert n.id graph.nextIndex)
      (nameIndex.push n.name graph.nextIndex) where
  canonical := by
    intro i m weight
    rw [graph.nodeWeight_addNode] at weight
    by_cases here : i = graph.nextIndex
    · rw [if_pos here] at weight
      cases weight
      exact canonical
    · rw [if_neg here] at weight
      exact aligned.canonical i m weight
  ids := by
    obtain ⟨vacant, filled, others⟩ := slotKey_addNode graph GraphNode.id n
    exact aligned.ids.insert vacant fresh filled others
  names := by
    obtain ⟨vacant, filled, others⟩ := slotKey_addNode graph GraphNode.name n
    exact aligned.names.push vacant filled others

theorem refresh (aligned : Aligned naming graph indexMap nameIndex) {n old : GraphNode}
    {i : Nat} (canonical : naming.Canonical n) (live : graph.nodeWeight i = some old)
    (sameId : n.id = old.id) : Aligned naming (graph.setNode i n) indexMap nameIndex where
  canonical := by
    intro j m weight
    rw [graph.nodeWeight_setNode] at weight
    split at weight
    · cases weight
      exact canonical
    · exact aligned.canonical j m weight
  ids := aligned.ids.congr (slotKey_setNode GraphNode.id live sameId)
  names :=
    aligned.names.congr (slotKey_setNode GraphNode.name live
      (canonical_agree canonical (aligned.canonical i old live) sameId).2)

theorem remove (aligned : Aligned naming graph indexMap nameIndex) {n : GraphNode} {i : Nat}
    (live : graph.nodeWeight i = some n) :
    Aligned naming (graph.removeNode i) (indexMap.erase n.id) (nameIndex.drop n.name i) where
  canonical := by
    intro j m weight
    rw [graph.nodeWeight_removeNode] at weight
    split at weight
    · cases weight
    · exact aligned.canonical j m weight
  ids := by
    obtain ⟨vacated, others⟩ := slotKey_removeNode graph GraphNode.id i
    exact aligned.ids.erase (by simp [slotKey, live]) vacated others
  names := by
    obtain ⟨vacated, others⟩ := slotKey_removeNode graph GraphNode.name i
    exact aligned.names.drop (by simp [slotKey, live]) vacated others

theorem congr (aligned : Aligned naming graph indexMap nameIndex)
    {graph' : StableGraph GraphNode GraphEdge}
    (same : ∀ i, graph'.nodeWeight i = graph.nodeWeight i) :
    Aligned naming graph' indexMap nameIndex where
  canonical := fun i n weight => aligned.canonical i n (same i ▸ weight)
  ids := aligned.ids.congr fun i => by simp [slotKey, same]
  names := aligned.names.congr fun i => by simp [slotKey, same]

end Aligned

structure Indexed (naming : Naming) (db : GraphDatabase) : Prop where
  aligned : Aligned naming db.graph db.indexMap db.nameIndex
  paths : db.pathIndex.Indexes (slotKey db.graph GraphNode.path)

namespace Indexed

variable {naming : Naming} {db : GraphDatabase}

theorem empty (naming : Naming) : Indexed naming {} where
  aligned :=
    { canonical := by simp
      ids := SlotMap.Locates.empty (by simp [slotKey])
      names := SlotIndex.Indexes.empty (by simp [slotKey]) }
  paths := SlotIndex.Indexes.empty (by simp [slotKey])

theorem congr (indexed : Indexed naming db) {db' : GraphDatabase}
    (sameNodes : ∀ i, db'.graph.nodeWeight i = db.graph.nodeWeight i)
    (sameIds : db'.indexMap = db.indexMap) (samePaths : db'.pathIndex = db.pathIndex)
    (sameNames : db'.nameIndex = db.nameIndex) : Indexed naming db' where
  aligned := by
    rw [sameIds, sameNames]
    exact indexed.aligned.congr sameNodes
  paths := by
    rw [samePaths]
    exact indexed.paths.congr fun i => by simp [slotKey, sameNodes]

open GraphDatabase

theorem putNode (indexed : Indexed naming db) {node : GraphNode}
    (canonical : naming.Canonical node) :
    ∃ db', db.putNode node = some db' ∧ Indexed naming db' := by
  unfold GraphDatabase.putNode
  cases located : db.indexMap.lookup node.id with
  | none =>
    refine ⟨_, rfl, indexed.aligned.add canonical located, ?_⟩
    obtain ⟨vacant, filled, others⟩ :=
      Aligned.slotKey_addNode db.graph GraphNode.path node
    exact indexed.paths.push vacant filled others
  | some idx =>
    obtain ⟨existing, live, sameId⟩ := indexed.aligned.live_of_lookup located
    simp only [live]
    split
    · refine ⟨_, rfl, indexed.aligned.refresh canonical live sameId.symm, ?_⟩
      have samePath := (Aligned.canonical_agree canonical
        (indexed.aligned.canonical idx existing live) sameId.symm).1
      exact indexed.paths.congr (Aligned.slotKey_setNode GraphNode.path live samePath)
    · exact ⟨db, rfl, indexed⟩

theorem putNodes {nodes : List GraphNode} (canonical : ∀ n ∈ nodes, naming.Canonical n) :
    ∀ {db : GraphDatabase}, Indexed naming db →
      ∃ db', nodes.foldlM GraphDatabase.putNode db = some db' ∧ Indexed naming db' := by
  induction nodes with
  | nil => exact fun indexed => ⟨_, rfl, indexed⟩
  | cons node rest ih =>
    intro db indexed
    obtain ⟨middle, step, kept⟩ := indexed.putNode (canonical node (by simp))
    obtain ⟨final, run, finally_⟩ :=
      ih (fun n member => canonical n (by simp [member])) kept
    exact ⟨final, by simp [List.foldlM_cons, step, run], finally_⟩

theorem removeOne (indexed : Indexed naming db) {n : GraphNode} {i : Nat}
    (live : db.graph.nodeWeight i = some n) :
    Indexed naming
      { db with
        graph := db.graph.removeNode i
        indexMap := db.indexMap.erase n.id
        nameIndex := db.nameIndex.drop n.name i
        pathIndex := db.pathIndex.drop n.path i } where
  aligned := indexed.aligned.remove live
  paths := by
    obtain ⟨vacated, others⟩ :=
      Aligned.slotKey_removeNode db.graph GraphNode.path i
    exact indexed.paths.drop (by simp [slotKey, live]) vacated others

theorem addEdge (indexed : Indexed naming db) {edge : GraphEdge} {s t : Nat}
    (source : db.indexMap.lookup edge.sourceId = some s)
    (target : db.indexMap.lookup edge.targetId = some t) :
    ∃ db', db.addEdge s t edge = some db' ∧ Indexed naming db' ∧
      db'.indexMap = db.indexMap := by
  obtain ⟨m, sourceLive, _⟩ := indexed.aligned.live_of_lookup source
  obtain ⟨n, targetLive, _⟩ := indexed.aligned.live_of_lookup target
  obtain ⟨graph, added⟩ :=
    StableGraph.addEdge_isSome edge sourceLive targetLive
  refine ⟨{ db with graph }, by simp [GraphDatabase.addEdge, added], ?_, rfl⟩
  exact indexed.congr (StableGraph.addEdge_eq_some added).1 rfl rfl rfl

end Indexed

end Lain.Graph
