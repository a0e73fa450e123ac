import Mathlib
import Lain.Server.OverlayRuns

/-!
# Interleavings of the overlay

Inserting an edge takes two steps: the indices of its ids are read under the lock of
the map, and the edge is added under the lock of the graph.
-/

namespace Lain.Server

open Foundation

structure PendingEdge where
  edge : GraphEdge
  source : Nat
  target : Nat
  deriving DecidableEq

structure OverlayWorld where
  overlay : VolatileOverlay
  pending : List PendingEdge

inductive OverlayEvent where
  | insertNode (node : GraphNode)
  | removeNode (id : String)
  | clear
  | readIndices (edge : GraphEdge)
  | addEdge (p : PendingEdge)

namespace OverlayWorld

def new : OverlayWorld where
  overlay := .new
  pending := []

def Enabled (w : OverlayWorld) : OverlayEvent → Prop
  | .addEdge p => p ∈ w.pending
  | _ => True

/-- Read the indices of an edge; the call ends with an error when an id is unknown. -/
def read (w : OverlayWorld) (edge : GraphEdge) : OverlayWorld :=
  match w.overlay.edgeIndices edge with
  | .ok (source, target) => { w with pending := ⟨edge, source, target⟩ :: w.pending }
  | .error _ => w

def next (w : OverlayWorld) : OverlayEvent → Option OverlayWorld
  | .insertNode node => some { w with overlay := w.overlay.insertNode node }
  | .removeNode id => some { w with overlay := (w.overlay.removeNode id).1 }
  | .clear => some { w with overlay := w.overlay.clear }
  | .readIndices edge => some (w.read edge)
  | .addEdge p =>
    (w.overlay.addEdgeAt p.source p.target p.edge.edgeType).map fun overlay =>
      { overlay, pending := w.pending.erase p }

def idAt (w : OverlayWorld) (i : Nat) : Option String :=
  (w.overlay.graph.nodeWeight i).map GraphNode.id

def removedIndices (w : OverlayWorld) (id : String) : List Nat :=
  match w.overlay.nodeIndexMap.get? id with
  | some i => [i, w.overlay.graph.nodeCount - 1]
  | none => []

def replacedIndices (w : OverlayWorld) (id : String) : List Nat :=
  match w.overlay.nodeIndexMap.get? id with
  | some i => if i = w.overlay.graph.nodeCount - 1 then [] else [i, w.overlay.graph.nodeCount - 1]
  | none => []

def vacates (w : OverlayWorld) : OverlayEvent → List Nat
  | .insertNode node => w.replacedIndices node.id
  | .removeNode id => w.removedIndices id
  | .clear => List.range w.overlay.graph.nodeCount
  | .readIndices _ | .addEdge _ => []

/-- A step takes no node from an index that an insertion under way has read. -/
def Spares (w : OverlayWorld) (event : OverlayEvent) : Prop :=
  ∀ p ∈ w.pending, p.source ∉ w.vacates event ∧ p.target ∉ w.vacates event

def Connects (w : OverlayWorld) (p : PendingEdge) : Prop :=
  ⟨p.source, p.target, p.edge.edgeType⟩ ∈ w.overlay.graph.arcs ∧
    w.idAt p.source = some p.edge.sourceId ∧ w.idAt p.target = some p.edge.targetId

/-- Every insertion under way that goes on now does not panic, and its edge connects the
nodes it names. -/
def EdgesConnect (w : OverlayWorld) : Prop :=
  ∀ p ∈ w.pending, ∃ w', w.next (.addEdge p) = some w' ∧ w'.Connects p

end OverlayWorld

inductive Interleaved : OverlayWorld → Prop
  | new : Interleaved .new
  | step {w w' : OverlayWorld} (event : OverlayEvent) : Interleaved w → w.Enabled event →
      w.next event = some w' → Interleaved w'

inductive InterleavedSparing : OverlayWorld → Prop
  | new : InterleavedSparing .new
  | step {w w' : OverlayWorld} (event : OverlayEvent) : InterleavedSparing w →
      w.Enabled event → w.Spares event → w.next event = some w' → InterleavedSparing w'

variable {w : OverlayWorld}

/-! ### What stays at an index -/

def idOf (nodes : List GraphNode) (i : Nat) : Option String :=
  nodes[i]?.map GraphNode.id

theorem located_iff_idOf {nodes : List GraphNode} {id : String} {i : Nat} :
    Located nodes id i ↔ idOf nodes i = some id := by
  unfold Located idOf
  rw [Option.map_eq_some_iff]

section Slots

variable {map : NodeIndexMap} {nodes : List GraphNode} (indexes : Indexes map nodes) {i r : Nat}
  {id : String} (here : idOf nodes i = some id)

include indexes in
theorem idOf_inj {j : Nat} (first : idOf nodes i = some id) (second : idOf nodes j = some id) :
    i = j :=
  indexes.located_unique (located_iff_idOf.mpr first) (located_iff_idOf.mpr second)

include here in
theorem lt_of_idOf : i < nodes.length := by
  obtain ⟨node, found, -⟩ := Option.map_eq_some_iff.mp here
  exact (List.getElem?_eq_some_iff.mp found).1

include indexes here

theorem idOf_swapRemove (inside : r < nodes.length) :
    idOf (swapRemove nodes r) i = some id ↔ i ∉ [r, nodes.length - 1] := by
  have live := lt_of_idOf here
  have length := length_swapRemove inside
  rw [List.mem_cons, List.mem_singleton, not_or]
  constructor
  · intro kept
    have below := lt_of_idOf kept
    refine ⟨?_, by omega⟩
    rintro rfl
    rw [idOf, getElem?_swapRemove inside (by omega), if_pos rfl] at kept
    have last := idOf_inj indexes here kept
    omega
  · rintro ⟨apart, before⟩
    rw [idOf, getElem?_swapRemove inside (by omega), if_neg apart]
    exact here

theorem idOf_replace {node : GraphNode} (there : idOf nodes r = some node.id) :
    idOf (swapRemove nodes r ++ [node]) i = some id ↔
      i ∉ if r = nodes.length - 1 then [] else [r, nodes.length - 1] := by
  have inside := lt_of_idOf there
  have live := lt_of_idOf here
  have length := length_swapRemove inside
  by_cases last : i = nodes.length - 1
  · have place : (swapRemove nodes r ++ [node])[i]? = some node := by
      rw [show i = (swapRemove nodes r).length by omega]
      exact List.getElem?_concat_length
    rw [idOf, place]
    split_ifs with same
    · have equal := there
      rw [same, ← last, here] at equal
      exact ⟨fun _ => List.not_mem_nil, fun _ => equal.symm⟩
    · refine ⟨fun equal => ?_, fun apart => absurd (by simp [last]) apart⟩
      have twin := idOf_inj indexes here (there.trans equal)
      omega
  · have before : i < (swapRemove nodes r).length := by omega
    rw [idOf, List.getElem?_append_left before]
    change idOf (swapRemove nodes r) i = some id ↔ _
    rw [idOf_swapRemove indexes here inside]
    split_ifs with same
    · simp [last, same]
    · exact Iff.rfl

end Slots

variable {w : OverlayWorld}

theorem idAt_next (consistent : Consistent w.overlay) {i : Nat} {id : String}
    (here : w.idAt i = some id) {event : OverlayEvent} {w' : OverlayWorld}
    (step : w.next event = some w') : w'.idAt i = some id ↔ i ∉ w.vacates event := by
  have indexes := consistent.indexes
  cases event with
  | insertNode node =>
    obtain rfl := Option.some.inj step
    change idOf ((clearedFor w.overlay node).1.nodes ++ [node]) i = _ ↔ i ∉ w.replacedIndices _
    unfold clearedFor OverlayWorld.replacedIndices
    cases known : w.overlay.nodeIndexMap.get? node.id with
    | none =>
      change idOf (w.overlay.graph.nodes ++ [node]) i = _ ↔ i ∉ []
      rw [idOf, List.getElem?_append_left (lt_of_idOf here)]
      exact ⟨fun _ => List.not_mem_nil, fun _ => here⟩
    | some r =>
      have located := (indexes node.id r).mp known
      have there := located_iff_idOf.mp located
      obtain ⟨old, found, -⟩ := located
      change idOf ((VolatileOverlay.takeOut w.overlay.graph w.overlay.nodeIndexMap r).1.nodes ++
        [node]) i = _ ↔ _
      rw [takeOut_eq found, DiGraph.nodes_removeNode (inside_of_getElem? found)]
      exact idOf_replace indexes here there
  | removeNode removed =>
    obtain rfl := Option.some.inj step
    change idOf (w.overlay.removeNode removed).1.graph.nodes i = _ ↔ i ∉ w.removedIndices removed
    unfold VolatileOverlay.removeNode OverlayWorld.removedIndices
    cases known : w.overlay.nodeIndexMap.get? removed with
    | none => exact ⟨fun _ => List.not_mem_nil, fun _ => here⟩
    | some r =>
      obtain ⟨old, found, -⟩ := (indexes removed r).mp known
      have inside := inside_of_getElem? found
      simp only [if_pos (show r < w.overlay.graph.nodeCount from inside)]
      rw [takeOut_eq found, DiGraph.nodes_removeNode inside]
      exact idOf_swapRemove indexes here inside
  | clear =>
    obtain rfl := Option.some.inj step
    refine ⟨fun absurdity => ?_, fun apart => absurd (lt_of_idOf here) ?_⟩
    · change Option.map _ ([] : List GraphNode)[i]? = _ at absurdity
      simp at absurdity
    · exact fun live => apart (List.mem_range.mpr live)
  | readIndices edge =>
    obtain rfl := Option.some.inj step
    have same : (w.read edge).overlay = w.overlay := by
      unfold OverlayWorld.read
      split <;> rfl
    rw [OverlayWorld.idAt, same]
    exact ⟨fun _ => List.not_mem_nil, fun _ => here⟩
  | addEdge p =>
    obtain ⟨overlay, added, rfl⟩ := Option.map_eq_some_iff.mp step
    rw [OverlayWorld.idAt, DiGraph.nodeWeight, (edgeAdded added).nodes]
    exact ⟨fun _ => List.not_mem_nil, fun _ => here⟩

/-! ### Runs -/

structure Holding (w : OverlayWorld) : Prop where
  consistent : Consistent w.overlay
  ids : ∀ p ∈ w.pending,
    w.idAt p.source = some p.edge.sourceId ∧ w.idAt p.target = some p.edge.targetId

namespace Holding

theorem connects (holding : Holding w) {p : PendingEdge} (member : p ∈ w.pending) :
    ∃ w', w.next (.addEdge p) = some w' ∧ Consistent w'.overlay ∧ w'.Connects p := by
  obtain ⟨source, target⟩ := holding.ids p member
  obtain ⟨o', run⟩ := addEdgeAt_isSome (o := w.overlay) (lt_of_idOf source) (lt_of_idOf target)
    p.edge.edgeType
  have added := edgeAdded run
  have kept : ∀ {i : Nat} {id : String}, w.idAt i = some id →
      OverlayWorld.idAt ⟨o', w.pending.erase p⟩ i = some id := by
    intro i id here
    rw [OverlayWorld.idAt, DiGraph.nodeWeight, added.nodes]
    exact here
  refine ⟨⟨o', w.pending.erase p⟩, ?_, added.consistent holding.consistent, added.arc, kept source,
    kept target⟩
  change (w.overlay.addEdgeAt _ _ _).map _ = _
  rw [run]
  rfl

theorem next (holding : Holding w) {event : OverlayEvent} {w' : OverlayWorld}
    (enabled : w.Enabled event) (spares : w.Spares event) (step : w.next event = some w') :
    Holding w' := by
  have kept : ∀ p ∈ w.pending, w'.idAt p.source = some p.edge.sourceId ∧
      w'.idAt p.target = some p.edge.targetId := fun p member =>
    ⟨(idAt_next holding.consistent (holding.ids p member).1 step).mpr (spares p member).1,
      (idAt_next holding.consistent (holding.ids p member).2 step).mpr (spares p member).2⟩
  cases event with
  | insertNode node =>
    obtain rfl := Option.some.inj step
    exact ⟨consistent_insertNode holding.consistent node, kept⟩
  | removeNode id =>
    obtain rfl := Option.some.inj step
    exact ⟨(removeNode_without holding.consistent id).consistent, kept⟩
  | clear =>
    obtain rfl := Option.some.inj step
    exact ⟨⟨Consistent.new.lookup, Consistent.new.found, Consistent.new.parallel⟩, kept⟩
  | readIndices edge =>
    obtain rfl := Option.some.inj step
    unfold OverlayWorld.read
    cases found : w.overlay.edgeIndices edge with
    | error reason => exact holding
    | ok ends =>
      obtain ⟨source, target⟩ := edgeIndices_eq_ok found
      refine ⟨holding.consistent, List.forall_mem_cons.mpr ⟨⟨?_, ?_⟩, holding.ids⟩⟩
      · exact located_iff_idOf.mp ((holding.consistent.indexes _ _).mp source)
      · exact located_iff_idOf.mp ((holding.consistent.indexes _ _).mp target)
  | addEdge p =>
    obtain ⟨w'', run, consistent, -⟩ := holding.connects enabled
    obtain rfl := Option.some.inj (run.symm.trans step)
    obtain ⟨overlay, -, rfl⟩ := Option.map_eq_some_iff.mp step
    exact ⟨consistent, fun q member => kept q (List.mem_of_mem_erase member)⟩

end Holding

theorem InterleavedSparing.holding (run : InterleavedSparing w) : Holding w := by
  induction run with
  | new => exact ⟨Consistent.new, fun _ absurdity => absurd absurdity List.not_mem_nil⟩
  | step event before enabled spares step ih => exact ih.next enabled spares step

/-- **Overlay edges connect the nodes they name** in every interleaving whose steps take
no node from an index that an insertion has read. -/
theorem interleavedSparing_edgesConnect : ∀ w, InterleavedSparing w → w.EdgesConnect := by
  intro w run p member
  obtain ⟨w', step, -, connects⟩ := run.holding.connects member
  exact ⟨w', step, connects⟩

def sampleEdge : GraphEdge where
  edgeType := .calls
  sourceId := "a"
  targetId := "b"

def pairWorld : OverlayWorld where
  overlay := (VolatileOverlay.new.insertNode (sampleNode "a")).insertNode (sampleNode "b")
  pending := []

theorem edgesConnect_read_pairWorld : (pairWorld.read sampleEdge).EdgesConnect :=
  interleavedSparing_edgesConnect _
    (.step (.readIndices sampleEdge)
      (.step (.insertNode (sampleNode "b"))
        (.step (.insertNode (sampleNode "a")) .new trivial
          (fun _ absurdity => absurd absurdity List.not_mem_nil) rfl)
        trivial (fun _ absurdity => absurd absurdity List.not_mem_nil) rfl)
      trivial (fun _ absurdity => absurd absurdity List.not_mem_nil) rfl)

def staleWorld : OverlayWorld :=
  let read := OverlayWorld.read
    { pairWorld with overlay := pairWorld.overlay.insertNode (sampleNode "c") } sampleEdge
  { read with overlay := (read.overlay.removeNode "a").1 }

/-- The edge is added between other nodes than it names. -/
theorem not_interleaved_edgesConnect : ¬ ∀ w, Interleaved w → w.EdgesConnect := by
  intro all
  have run : Interleaved staleWorld :=
    .step (.removeNode "a")
      (.step (.readIndices sampleEdge)
        (.step (.insertNode (sampleNode "c"))
          (.step (.insertNode (sampleNode "b"))
            (.step (.insertNode (sampleNode "a")) .new trivial rfl) trivial rfl) trivial rfl)
        trivial rfl) trivial rfl
  have pending : (⟨sampleEdge, 0, 1⟩ : PendingEdge) ∈ staleWorld.pending := by
    decide +kernel
  obtain ⟨w', step, -, source, -⟩ := all staleWorld run _ pending
  have moved : (staleWorld.next (.addEdge ⟨sampleEdge, 0, 1⟩)).map (fun w => w.idAt 0) =
      some (some "c") := by
    decide +kernel
  rw [step] at moved
  have other : w'.idAt 0 = some "c" := Option.some.inj moved
  exact absurd (other.symm.trans source) (by decide)

end Lain.Server
