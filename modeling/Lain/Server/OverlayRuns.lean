import Mathlib
import Lain.Server.OverlayInvariant

/-!
# Runs of the overlay

Edges are added between two known ids, and a merge of an overlay that shares no id
puts the two graphs side by side.
-/

namespace Lain.Server

open Foundation

variable {o : VolatileOverlay}

/-! ### Edges -/

section InsertEdge

theorem edgeIndices_eq_ok {edge : GraphEdge} {i j : Nat} (found : o.edgeIndices edge = .ok (i, j)) :
    o.nodeIndexMap.get? edge.sourceId = some i ∧ o.nodeIndexMap.get? edge.targetId = some j := by
  unfold VolatileOverlay.edgeIndices at found
  cases source : o.nodeIndexMap.get? edge.sourceId with
  | none => simp [source] at found
  | some i' =>
    cases target : o.nodeIndexMap.get? edge.targetId with
    | none => simp [source, target] at found
    | some j' =>
      simp only [source, target, Except.ok.injEq, Prod.mk.injEq] at found
      exact ⟨congrArg some found.1, congrArg some found.2⟩

theorem insertEdge_of_error {edge : GraphEdge} {reason : String}
    (missing : o.edgeIndices edge = .error reason) :
    o.insertEdge edge = some (o, .error reason) := by
  unfold VolatileOverlay.insertEdge
  rw [missing]

theorem insertEdge_of_ok {edge : GraphEdge} {i j : Nat} (found : o.edgeIndices edge = .ok (i, j)) :
    o.insertEdge edge = (o.addEdgeAt i j edge.edgeType).map fun after => (after, .ok ()) := by
  unfold VolatileOverlay.insertEdge
  rw [found]

theorem addEdgeAt_isSome {i j : Nat} (source : i < o.graph.nodes.length)
    (target : j < o.graph.nodes.length) (edgeType : EdgeType) :
    ∃ o', o.addEdgeAt i j edgeType = some o' := by
  unfold VolatileOverlay.addEdgeAt
  split_ifs
  · exact ⟨o, rfl⟩
  · obtain ⟨graph, added⟩ := Option.isSome_iff_exists.mp
      ((DiGraph.addEdge_isSome edgeType).mpr ⟨source, target⟩)
    exact ⟨_, by rw [added]; rfl⟩

structure EdgeAdded (i j : Nat) (edgeType : EdgeType) (o o' : VolatileOverlay) : Prop where
  nodes : o'.graph.nodes = o.graph.nodes
  map : o'.nodeIndexMap = o.nodeIndexMap
  filter : o'.bloomFilter = o.bloomFilter
  parallel : o.graph.arcs.Nodup → o'.graph.arcs.Nodup
  arc : ⟨i, j, edgeType⟩ ∈ o'.graph.arcs
  arcs : ∀ a, a ∈ o'.graph.arcs ↔ a ∈ o.graph.arcs ∨ a = ⟨i, j, edgeType⟩

theorem edgeAdded {i j : Nat} {edgeType : EdgeType} {o' : VolatileOverlay}
    (added : o.addEdgeAt i j edgeType = some o') : EdgeAdded i j edgeType o o' := by
  unfold VolatileOverlay.addEdgeAt at added
  split_ifs at added with present
  · obtain rfl := Option.some.inj added
    obtain ⟨⟨s, t, w⟩, member, same⟩ := List.any_eq_true.mp present
    obtain ⟨known, source⟩ := List.mem_filter.mp member
    simp only [Bool.and_eq_true, decide_eq_true_eq] at same source
    obtain ⟨rfl, rfl⟩ := same
    subst source
    exact ⟨rfl, rfl, rfl, fun distinct => distinct, known, fun a =>
      ⟨Or.inl, fun either => either.elim (fun old => old) fun here => here ▸ known⟩⟩
  · obtain ⟨graph, new, rfl⟩ := Option.map_eq_some_iff.mp added
    obtain ⟨nodes, arcs, -, -⟩ := DiGraph.addEdge_eq_some new
    have fresh : ⟨i, j, edgeType⟩ ∉ o.graph.arcs := by
      intro known
      refine present (List.any_eq_true.mpr ⟨_, List.mem_filter.mpr ⟨known, ?_⟩, ?_⟩)
      · exact decide_eq_true rfl
      · simp
    refine ⟨nodes, rfl, rfl, fun distinct => ?_, ?_, fun a => ?_⟩
    · change graph.arcs.Nodup
      rw [arcs, ← List.concat_eq_append]
      exact distinct.concat fresh
    · change _ ∈ graph.arcs
      rw [arcs]
      exact List.mem_append_right _ (List.mem_singleton_self _)
    · change a ∈ graph.arcs ↔ _
      rw [arcs, List.mem_append, List.mem_singleton]

theorem EdgeAdded.consistent {i j : Nat} {edgeType : EdgeType} {o' : VolatileOverlay}
    (added : EdgeAdded i j edgeType o o') (consistent : Consistent o) : Consistent o' := by
  refine Consistent.of_bloomed ?_ (fun node member => ?_) (added.parallel consistent.parallel)
  · rw [added.map, added.nodes]
    exact consistent.indexes
  · rw [added.filter]
    refine consistent.bloomed ?_
    rwa [VolatileOverlay.getAllNodes, added.nodes] at member

theorem EdgeAdded.untouched {edge : GraphEdge} {i j : Nat} {o' : VolatileOverlay}
    (added : EdgeAdded i j edge.edgeType o o') (consistent : Consistent o)
    (source : o.nodeIndexMap.get? edge.sourceId = some i) :
    Untouched (fun id => id = edge.sourceId ∨ id = edge.targetId) o o' where
  nodes n _ := by
    rw [VolatileOverlay.getAllNodes, VolatileOverlay.getAllNodes, added.nodes]
  edges s _ _ other _ := by
    have same : ∀ k, o'.graph.nodeWeight k = o.graph.nodeWeight k := fun k => by
      rw [DiGraph.nodeWeight, DiGraph.nodeWeight, added.nodes]
    rw [VolatileOverlay.getAllEdges, VolatileOverlay.getAllEdges, DiGraph.mem_links,
      DiGraph.mem_links]
    constructor
    · rintro ⟨a, member, found, found', weight⟩
      rw [same] at found found'
      rcases (added.arcs a).mp member with old | rfl
      · exact ⟨a, old, found, found', weight⟩
      · obtain ⟨node, here, named⟩ := (consistent.indexes edge.sourceId i).mp source
        obtain rfl : node = s := Option.some.inj (here.symm.trans found)
        exact absurd (Or.inl named) other
    · rintro ⟨a, member, found, found', weight⟩
      exact ⟨a, (added.arcs a).mpr (Or.inl member), (same _).trans found, (same _).trans found',
        weight⟩

end InsertEdge

/-! ### Merges -/

theorem consistent_mergeNode (consistent : Consistent o) {node : GraphNode}
    (fresh : ∀ mine ∈ o.getAllNodes, mine.id ≠ node.id) : Consistent (o.mergeNode node) := by
  have unknown := consistent.indexes.absent_iff.mpr fresh
  refine Consistent.of_bloomed (consistent.indexes.but unknown).concat (fun n member => ?_)
    consistent.parallel
  rcases List.mem_append.mp member with old | new
  · exact checkBloom_updateBloom (consistent.bloomed old) node.id
  · rw [List.mem_singleton.mp new]
    exact checkBloom_updateBloom_self o.bloomFilter node.id

theorem foldl_mergeNode (nodes : List GraphNode) : ∀ {o : VolatileOverlay}, Consistent o →
    (nodes.map GraphNode.id).Nodup →
    (∀ mine ∈ o.getAllNodes, ∀ theirs ∈ nodes, mine.id ≠ theirs.id) →
    Consistent (nodes.foldl VolatileOverlay.mergeNode o) ∧
      (nodes.foldl VolatileOverlay.mergeNode o).getAllNodes = o.getAllNodes ++ nodes ∧
      (nodes.foldl VolatileOverlay.mergeNode o).getAllEdges = o.getAllEdges := by
  induction nodes with
  | nil =>
    intro o consistent _ _
    exact ⟨consistent, (List.append_nil _).symm, rfl⟩
  | cons node rest ih =>
    intro o consistent distinct apart
    obtain ⟨first, distinct⟩ := List.nodup_cons.mp distinct
    have one := consistent_mergeNode consistent fun mine member =>
      apart mine member node List.mem_cons_self
    obtain ⟨final, nodes, edges⟩ := ih one distinct fun mine member theirs listed => by
      rcases List.mem_append.mp member with old | new
      · exact apart mine old theirs (List.mem_cons_of_mem _ listed)
      · rw [List.mem_singleton.mp new]
        exact fun same => first (same ▸ List.mem_map_of_mem listed)
    refine ⟨final, nodes.trans ?_, edges.trans ?_⟩
    · exact List.append_assoc _ _ _
    · exact DiGraph.links_addNode o.graph node

theorem mergeEdge_spec (consistent : Consistent o) {s t : GraphNode} (w : EdgeType)
    (source : s ∈ o.getAllNodes) (target : t ∈ o.getAllNodes) :
    ∃ o', o.mergeEdge (s, t, w) = some o' ∧ o'.graph.nodes = o.graph.nodes ∧
      o'.nodeIndexMap = o.nodeIndexMap ∧ o'.bloomFilter = o.bloomFilter ∧ o'.log = o.log ∧
      o'.getAllEdges = o.getAllEdges ++ [(s, t, w)] := by
  obtain ⟨i, here, located⟩ := located_of_mem source
  obtain ⟨j, there, located'⟩ := located_of_mem target
  obtain ⟨graph, added⟩ := Option.isSome_iff_exists.mp ((DiGraph.addEdge_isSome w).mpr
    ⟨inside_of_getElem? here, inside_of_getElem? there⟩)
  refine ⟨{ o with graph }, ?_, (DiGraph.addEdge_eq_some added).1, rfl, rfl, rfl, ?_⟩
  · unfold VolatileOverlay.mergeEdge
    rw [(consistent.indexes s.id i).mpr located, (consistent.indexes t.id j).mpr located']
    change (o.graph.addEdge i j w).map _ = _
    rw [added]
    rfl
  · have linked : o.graph.link ⟨i, j, w⟩ = some (s, t, w) :=
      DiGraph.link_eq_some.mpr ⟨here, there, rfl⟩
    change graph.links = o.graph.links ++ _
    rw [DiGraph.links_addEdge added, linked]
    rfl

theorem nodup_links_iff {graph : DiGraph GraphNode EdgeType} {map : NodeIndexMap}
    (indexes : Indexes map graph.nodes) : graph.links.Nodup ↔ graph.arcs.Nodup := by
  have located : ∀ {i j : Nat} {n : GraphNode}, graph.nodeWeight i = some n →
      graph.nodeWeight j = some n → i = j := fun {i j n} first second =>
    indexes.located_unique ⟨n, first, rfl⟩ ⟨n, second, rfl⟩
  rw [DiGraph.links, List.Nodup, List.pairwise_filterMap]
  constructor
  · intro distinct
    refine distinct.imp_of_mem fun {a b} first _ apart same => ?_
    obtain ⟨source, target⟩ := graph.arcs_live a first
    have linked := DiGraph.link_eq_some.mpr ⟨List.getElem?_eq_getElem source,
      List.getElem?_eq_getElem target, rfl⟩
    exact apart _ linked _ (same ▸ linked) rfl
  · refine List.Pairwise.imp fun {a b} apart l first l' second same => apart ?_
    subst same
    obtain ⟨n, m, w⟩ := l
    obtain ⟨source, target, weight⟩ := DiGraph.link_eq_some.mp first
    obtain ⟨source', target', weight'⟩ := DiGraph.link_eq_some.mp second
    obtain ⟨i, j, w'⟩ := a
    obtain ⟨i', j', w''⟩ := b
    obtain rfl : i = i' := located source source'
    obtain rfl : j = j' := located target target'
    rw [show w' = w from weight, show w'' = w from weight']

theorem foldlM_mergeEdge (edges : List (GraphNode × GraphNode × EdgeType)) :
    ∀ {o : VolatileOverlay}, Consistent o →
      (∀ e ∈ edges, e.1 ∈ o.getAllNodes ∧ e.2.1 ∈ o.getAllNodes) →
      (o.getAllEdges ++ edges).Nodup →
      ∃ o', edges.foldlM VolatileOverlay.mergeEdge o = some o' ∧ Consistent o' ∧
        o'.getAllNodes = o.getAllNodes ∧ o'.getAllEdges = o.getAllEdges ++ edges ∧
        o'.log = o.log := by
  induction edges with
  | nil => exact fun consistent _ _ => ⟨_, rfl, consistent, rfl, (List.append_nil _).symm, rfl⟩
  | cons edge rest ih =>
    intro o consistent ends distinct
    obtain ⟨s, t, w⟩ := edge
    obtain ⟨⟨source, target⟩, later⟩ := List.forall_mem_cons.mp ends
    obtain ⟨o₁, one, nodes, map, filter, log, added⟩ := mergeEdge_spec consistent w source target
    have split : o₁.getAllEdges ++ rest = o.getAllEdges ++ (s, t, w) :: rest := by
      rw [added, List.append_assoc, List.singleton_append]
    have distinct₁ : (o₁.getAllEdges ++ rest).Nodup := split ▸ distinct
    have indexes : Indexes o₁.nodeIndexMap o₁.graph.nodes := by
      rw [map, nodes]
      exact consistent.indexes
    have consistent₁ : Consistent o₁ := by
      refine Consistent.of_bloomed indexes (fun node member => ?_)
        ((nodup_links_iff indexes).mp (List.nodup_append.mp distinct₁).1)
      rw [filter]
      rw [VolatileOverlay.getAllNodes, nodes] at member
      exact consistent.bloomed member
    obtain ⟨o₂, run, consistent₂, nodes₂, edges₂, log₂⟩ := ih consistent₁ (fun e member => by
      rw [VolatileOverlay.getAllNodes, nodes]
      exact later e member) distinct₁
    refine ⟨o₂, ?_, consistent₂, nodes₂.trans nodes, edges₂.trans split, log₂.trans log⟩
    rw [List.foldlM_cons, one]
    exact run

/-- **A merge of overlays that share no id** puts them side by side. -/
theorem merge_spec {other : VolatileOverlay} (consistent : Consistent o)
    (theirs : Consistent other) (apart : ∀ mine ∈ o.getAllNodes, ∀ their ∈ other.getAllNodes,
      mine.id ≠ their.id) :
    ∃ o', o.merge other = some o' ∧ Consistent o' ∧
      o'.getAllNodes = o.getAllNodes ++ other.getAllNodes ∧
      o'.getAllEdges = o.getAllEdges ++ other.getAllEdges ∧ o'.log = o.log := by
  obtain ⟨copied, nodes, edges⟩ :=
    foldl_mergeNode other.getAllNodes consistent theirs.indexes.nodup apart
  have log : ∀ (ns : List GraphNode) (o : VolatileOverlay),
      (ns.foldl VolatileOverlay.mergeNode o).log = o.log := by
    intro ns
    induction ns with
    | nil => exact fun _ => rfl
    | cons n rest ih => exact fun o => ih _
  have distinct : ((other.getAllNodes.foldl VolatileOverlay.mergeNode o).getAllEdges ++
      other.getAllEdges).Nodup := by
    rw [edges, List.nodup_append]
    refine ⟨(nodup_links_iff consistent.indexes).mpr consistent.parallel,
      (nodup_links_iff theirs.indexes).mpr theirs.parallel, ?_⟩
    rintro ⟨s, t, w⟩ mine e listed rfl
    exact apart s (Consistent.mem_of_mem_links mine).1 s (Consistent.mem_of_mem_links listed).1 rfl
  obtain ⟨o', run, final, nodes', edges', log'⟩ := foldlM_mergeEdge other.getAllEdges copied
    (fun e member => by
      obtain ⟨source, target⟩ := Consistent.mem_of_mem_links (show (e.1, e.2.1, e.2.2) ∈ _ from
        member)
      rw [nodes]
      exact ⟨List.mem_append_right _ source, List.mem_append_right _ target⟩) distinct
  exact ⟨o', run, final, nodes'.trans nodes, edges'.trans (congrArg (· ++ _) edges),
    log'.trans (log _ o)⟩

/-! ### Runs -/

theorem Consistent.apply (consistent : Consistent o) {op : OverlayOp}
    (merged : ∀ other, op = .merge other → Consistent other) (apart : SharesNoId o op) :
    ∃ o', o.apply op = some o' ∧ Consistent o' ∧ Untouched (op.Names o) o o' := by
  cases op with
  | insertNode node =>
    exact ⟨_, rfl, consistent_insertNode consistent node, untouched_insertNode consistent node⟩
  | upsertNode node =>
    exact ⟨_, rfl, consistent_insertNode consistent node, untouched_insertNode consistent node⟩
  | removeNode id =>
    have without := removeNode_without consistent id
    exact ⟨_, rfl, without.consistent, without.untouched⟩
  | removeNodesForPath path =>
    obtain ⟨final, -, untouched⟩ := removeNodesForPath_spec consistent path
    exact ⟨_, rfl, final, untouched⟩
  | insertEdge edge =>
    cases found : o.edgeIndices edge with
    | error reason =>
      refine ⟨o, ?_, consistent, ⟨fun _ _ => Iff.rfl, fun _ _ _ _ _ => Iff.rfl⟩⟩
      change (o.insertEdge edge).map Prod.fst = _
      rw [insertEdge_of_error found]
      rfl
    | ok ends =>
      obtain ⟨i, j⟩ := ends
      obtain ⟨source, target⟩ := edgeIndices_eq_ok found
      obtain ⟨s, here, -⟩ := (consistent.indexes edge.sourceId i).mp source
      obtain ⟨t, there, -⟩ := (consistent.indexes edge.targetId j).mp target
      obtain ⟨o', run⟩ := addEdgeAt_isSome (inside_of_getElem? here)
        (inside_of_getElem? there) edge.edgeType
      have added := edgeAdded run
      refine ⟨o', ?_, added.consistent consistent, added.untouched consistent source⟩
      change (o.insertEdge edge).map Prod.fst = _
      rw [insertEdge_of_ok found, run]
      rfl
  | merge other =>
    obtain ⟨o', run, final, nodes, edges, -⟩ :=
      merge_spec consistent (merged other rfl) (apart other rfl)
    refine ⟨o', run, final, fun n free => ?_, fun s t w free _ => ?_⟩
    · rw [nodes, List.mem_append]
      exact ⟨fun either => either.resolve_right fun listed => free ⟨n, listed, rfl⟩, Or.inl⟩
    · rw [edges, List.mem_append]
      exact ⟨fun either => either.resolve_right fun listed =>
        free ⟨s, (Consistent.mem_of_mem_links listed).1, rfl⟩, Or.inl⟩
  | clear =>
    refine ⟨_, rfl, ?_, fun _ free => absurd trivial free, fun _ _ _ free => absurd trivial free⟩
    exact ⟨Consistent.new.lookup, Consistent.new.found, Consistent.new.parallel⟩

structure Sound (o : VolatileOverlay) : Prop where
  consistent : Consistent o
  frame : ∀ op, (∀ other, op = .merge other → BuiltApart other) → SharesNoId o op →
    ∃ o', o.apply op = some o' ∧ Untouched (op.Names o) o o'

theorem BuiltApart.consistent (built : BuiltApart o) : Consistent o := by
  induction built with
  | new => exact Consistent.new
  | step op before merged apart run ih theirs =>
    obtain ⟨o', run', consistent, -⟩ := ih.apply theirs apart
    exact Option.some.inj (run'.symm.trans run) ▸ consistent

/-- **Overlays built with merges that share no id are sound.** -/
theorem builtApart_sound : ∀ o, BuiltApart o → Sound o := by
  intro o built
  refine ⟨built.consistent, fun op merged apart => ?_⟩
  obtain ⟨o', run, -, untouched⟩ :=
    built.consistent.apply (fun other same => (merged other same).consistent) apart
  exact ⟨o', run, untouched⟩

def sampleNode (id : String) : GraphNode where
  id := id
  nodeType := .function
  name := id
  path := "a.rs"

def sampleOverlay : VolatileOverlay :=
  VolatileOverlay.new.insertNode (sampleNode "a")

theorem sound_sampleOverlay : Sound sampleOverlay :=
  builtApart_sound sampleOverlay
    (.step (.insertNode (sampleNode "a")) .new (by simp) (by simp [SharesNoId]) rfl)

/-- A merge of the same id leaves an orphan in the place before. -/
theorem not_reached_consistent : ¬ ∀ o, Reached o → Consistent o := by
  intro all
  have one : Reached sampleOverlay := .step (.insertNode (sampleNode "a")) .new (by simp) rfl
  have orphan : (sampleOverlay.merge sampleOverlay).map (fun o =>
      (o.nodeIndexMap.get? "a", o.graph.nodes)) =
        some (some 1, [sampleNode "a", sampleNode "a"]) := by
    decide +kernel
  obtain ⟨o, merged, state⟩ := Option.map_eq_some_iff.mp orphan
  obtain ⟨last, nodes⟩ := Prod.mk.inj state
  have consistent := all o (.step (.merge sampleOverlay) one
    (fun other same => by injection same with same; exact same ▸ one) merged)
  have first := (consistent.indexes "a" 0).mpr ⟨sampleNode "a", by rw [nodes]; rfl, rfl⟩
  rw [last] at first
  simp at first

end Lain.Server
