import Lain.Graph.RefineMutators
import Lain.Graph.IndexReplace

/-!
# Snapshots

What a checkpoint writes and what a load makes of it.
-/

namespace Lain.Graph

open Foundation

/-- The path format this build reads and writes. -/
def pathFormatVersion : Nat := 5

/-- The persisted part of a database. -/
structure GraphState where
  graph : StableGraph GraphNode GraphEdge
  indexMap : SlotMap String
  lastCommit : Option String
  pathFormatVersion : Nat
  callsPublishedFor : Option (Option String)

/-- A snapshot file: one whole encoded state, or bytes that do not decode, with the
decoder's complaint. -/
inductive Snapshot where
  | encoded (state : GraphState)
  | unreadable (reason : String)

/-- What decoding a snapshot file yields. -/
def Snapshot.decodeState : Snapshot → Option GraphState
  | .encoded state => some { state with graph := state.graph.relink }
  | .unreadable _ => none

/-- The state a checkpoint encodes, sampled under the graph's read lock. -/
def GraphDatabase.buildState (db : GraphDatabase) : GraphState where
  graph := db.graph
  indexMap := db.indexMap
  lastCommit := db.lastCommit
  pathFormatVersion := Graph.pathFormatVersion
  callsPublishedFor := some db.callsPublishedFor

namespace GraphState

def strays (state : GraphState) : List (Nat × GraphNode) :=
  state.graph.nodeReferences.filter fun entry =>
    decide (state.indexMap.lookup entry.2.id ≠ some entry.1)

def moveEdge (stray : Nat) (graph : StableGraph GraphNode GraphEdge) (moved : Arc GraphEdge) :
    StableGraph GraphNode GraphEdge :=
  if moved.source = stray ∨ moved.target = stray then graph
  else if (graph.edgesConnecting moved.source moved.target).any fun a =>
      decide (a.weight.edgeType = moved.weight.edgeType)
  then graph
  else (graph.addEdge moved.source moved.target moved.weight).getD graph

def healStray (state : GraphState) (stray : Nat × GraphNode) : GraphState :=
  let id := stray.2.id
  let keep := (state.indexMap.lookup id).bind fun k =>
    (state.graph.nodeWeight k).bind fun n => if n.id = id then some k else none
  match keep with
  | none => { state with indexMap := state.indexMap.insert id stray.1 }
  | some keep =>
    let outgoing := (state.graph.arcs.filter fun a => decide (a.source = stray.1)).reverse.map
      fun a => { a with source := keep }
    let incoming := (state.graph.arcs.filter fun a => decide (a.target = stray.1)).reverse.map
      fun a => { a with target := keep }
    let graph := (outgoing ++ incoming).foldl (moveEdge stray.1) state.graph
    { state with graph := graph.removeNode stray.1 }

/-- Fold every node the id index does not point at into the node it does. -/
def healDuplicateIds (state : GraphState) : GraphState :=
  state.strays.foldl healStray state

end GraphState

def fileNodes (graph : StableGraph GraphNode GraphEdge) (key : GraphNode → String) :
    SlotIndex String :=
  graph.nodeReferences.foldl (fun m entry => m.push (key entry.2) entry.1) ∅

/-- Swap a decoded state into a database. -/
def GraphDatabase.applyStateLoaded (db : GraphDatabase) (state : GraphState) :
    GraphDatabase :=
  let healed := state.healDuplicateIds
  { db with
    graph := healed.graph
    indexMap := healed.indexMap
    pathIndex := fileNodes healed.graph GraphNode.path
    nameIndex := fileNodes healed.graph GraphNode.name
    callsPublishedFor := healed.callsPublishedFor.getD healed.lastCommit
    lastCommit := healed.lastCommit }

theorem GraphState.heal_of_located {state : GraphState}
    (located : ∀ i n, state.graph.nodeWeight i = some n →
      state.indexMap.lookup n.id = some i) : state.healDuplicateIds = state := by
  have none_ : state.strays = [] := by
    unfold strays
    refine List.filter_eq_nil_iff.mpr fun entry member => ?_
    have live := StableGraph.mem_nodeReferences.mp (show (entry.1, entry.2) ∈ _ from member)
    simp [located _ _ live]
  simp [healDuplicateIds, none_]

theorem GraphState.heal_of_locates {state : GraphState}
    (locates : state.indexMap.Locates (slotKey state.graph GraphNode.id)) :
    state.healDuplicateIds = state :=
  heal_of_located fun _ _ live => (locates _ _).mpr (slotKey_eq_some.mpr ⟨_, live, rfl⟩)

theorem fileNodes_indexes (graph : StableGraph GraphNode GraphEdge)
    (key : GraphNode → String) : (fileNodes graph key).Indexes (slotKey graph key) := by
  have filed : ∀ entries : List (Nat × GraphNode), (entries.map Prod.fst).Nodup →
      (entries.foldl (fun (m : SlotIndex String) entry => m.push (key entry.2) entry.1) ∅).Indexes
        fun i => (entries.find? fun entry => decide (entry.1 = i)).map fun entry => key entry.2 := by
    intro entries
    induction entries using List.reverseRecOn with
    | nil => exact fun _ => SlotIndex.Indexes.empty (by simp)
    | append_singleton entries entry ih =>
      intro nodup
      rw [List.map_append, List.map_singleton, List.nodup_append] at nodup
      obtain ⟨before, _, apart⟩ := nodup
      have fresh : entries.find? (fun other => decide (other.1 = entry.1)) = none := by
        refine List.find?_eq_none.mpr fun other member => ?_
        have other_ := apart other.1 (List.mem_map_of_mem member) entry.1 (by simp)
        simpa using other_
      rw [List.foldl_append, List.foldl_cons, List.foldl_nil]
      refine (ih before).push (by simp [fresh]) ?_ ?_
      · simp [List.find?_append, fresh]
      · intro j other
        have apart' : ¬ entry.1 = j := fun h => other h.symm
        simp [List.find?_append, apart']
  refine (filed _ graph.nodeReferences_nodup).congr fun i => ?_
  unfold slotKey
  cases found : graph.nodeReferences.find? fun entry => decide (entry.1 = i) with
  | none =>
    cases weight : graph.nodeWeight i with
    | none => rfl
    | some n =>
      have absent := List.find?_eq_none.mp found (i, n)
        (StableGraph.mem_nodeReferences.mpr weight)
      simp at absent
  | some entry =>
    have member := List.mem_of_find?_eq_some found
    have here : entry.1 = i := by simpa using List.find?_some found
    have live := StableGraph.mem_nodeReferences.mp
      (show (entry.1, entry.2) ∈ graph.nodeReferences from member)
    rw [← here, live]
    rfl

namespace GraphDatabase

theorem loaded_graph {saved : GraphDatabase} (db : GraphDatabase)
    (locates : saved.indexMap.Locates (slotKey saved.graph GraphNode.id)) :
    (db.applyStateLoaded { saved.buildState with graph := saved.graph.relink }).graph =
        saved.graph.relink ∧
      (db.applyStateLoaded { saved.buildState with graph := saved.graph.relink }).indexMap =
        saved.indexMap := by
  have healed : ({ saved.buildState with
      graph := saved.graph.relink } : GraphState).healDuplicateIds =
        { saved.buildState with graph := saved.graph.relink } :=
    GraphState.heal_of_locates locates
  unfold applyStateLoaded
  rw [healed]
  exact ⟨rfl, rfl⟩

/-- **Loading a snapshot** of a consistent database yields a consistent database
with the same view. -/
theorem loaded_consistent {saved : GraphDatabase} (db : GraphDatabase)
    (consistent : Consistent saved) :
    Consistent (db.applyStateLoaded { saved.buildState with graph := saved.graph.relink }) ∧
      viewOf (db.applyStateLoaded { saved.buildState with graph := saved.graph.relink }) =
        viewOf saved := by
  obtain ⟨sameGraph, sameIds⟩ := loaded_graph db consistent.ids
  refine ⟨⟨?_, ?_⟩, ?_⟩
  · rw [sameGraph, sameIds]
    exact consistent.ids
  · rw [sameGraph]
    exact consistent.anchored
  · unfold viewOf
    have sameNodes : (db.applyStateLoaded
        { saved.buildState with graph := saved.graph.relink }).getNode = saved.getNode := by
      funext id
      unfold getNode
      rw [sameGraph, sameIds]
      rfl
    rw [sameNodes, sameGraph]
    rfl

theorem loaded_indexed {naming : Naming} {saved : GraphDatabase} (db : GraphDatabase)
    (canonical : ∀ i n, saved.graph.nodeWeight i = some n → naming.Canonical n)
    (locates : saved.indexMap.Locates (slotKey saved.graph GraphNode.id)) :
    Indexed naming
      (db.applyStateLoaded { saved.buildState with graph := saved.graph.relink }) := by
  obtain ⟨sameGraph, sameIds⟩ := loaded_graph db locates
  refine ⟨⟨?_, ?_, fileNodes_indexes _ _⟩, fileNodes_indexes _ _⟩
  · rw [sameGraph]
    exact canonical
  · rw [sameGraph, sameIds]
    exact locates

end GraphDatabase

end Lain.Graph
