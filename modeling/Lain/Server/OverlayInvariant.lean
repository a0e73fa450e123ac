import Mathlib
import Lain.Server.Overlay

/-!
# The invariant of the overlay

Every operation keeps the map a bijection between ids and indices, as long as merges
join overlays that share no id.
-/

namespace Lain.Server

open Foundation

/-! ### Ids and indices -/

def Located (nodes : List GraphNode) (id : String) (i : Nat) : Prop :=
  ∃ node, nodes[i]? = some node ∧ node.id = id

def Indexes (map : NodeIndexMap) (nodes : List GraphNode) : Prop :=
  ∀ id i, map.get? id = some i ↔ Located nodes id i

structure IndexesBut (id : String) (map : NodeIndexMap) (nodes : List GraphNode) : Prop where
  others : ∀ k i, k ≠ id → (map.get? k = some i ↔ Located nodes k i)
  absent : ∀ i, ¬ Located nodes id i

def Separates (map : NodeIndexMap) : Prop :=
  ∀ k k' i, map.get? k = some i → map.get? k' = some i → k = k'

theorem located_of_mem {nodes : List GraphNode} {node : GraphNode} (member : node ∈ nodes) :
    ∃ i, nodes[i]? = some node ∧ Located nodes node.id i := by
  obtain ⟨i, found⟩ := List.mem_iff_getElem?.mp member
  exact ⟨i, found, node, found, rfl⟩

theorem located_concat {nodes : List GraphNode} {node : GraphNode} {id : String} {i : Nat} :
    Located (nodes ++ [node]) id i ↔ Located nodes id i ∨ i = nodes.length ∧ node.id = id := by
  unfold Located
  rcases lt_trichotomy i nodes.length with before | rfl | after
  · rw [List.getElem?_append_left before]
    exact ⟨Or.inl, fun either => either.resolve_right fun last => before.ne last.1⟩
  · rw [List.getElem?_concat_length, List.getElem?_eq_none le_rfl]
    simp
  · rw [List.getElem?_eq_none (by simpa using after), List.getElem?_eq_none after.le]
    simp [after.ne']

namespace Indexes

variable {map : NodeIndexMap} {nodes : List GraphNode}

theorem separates (indexes : Indexes map nodes) : Separates map := by
  intro k k' i first second
  obtain ⟨node, found, rfl⟩ := (indexes k i).mp first
  obtain ⟨node', found', rfl⟩ := (indexes k' i).mp second
  rw [Option.some.inj (found.symm.trans found')]

theorem located_unique (indexes : Indexes map nodes) {id : String} {i j : Nat}
    (first : Located nodes id i) (second : Located nodes id j) : i = j :=
  Option.some.inj (((indexes id i).mpr first).symm.trans ((indexes id j).mpr second))

theorem node_unique (indexes : Indexes map nodes) {a b : GraphNode} (first : a ∈ nodes)
    (second : b ∈ nodes) (same : a.id = b.id) : a = b := by
  obtain ⟨i, here, located⟩ := located_of_mem first
  obtain ⟨j, there, located'⟩ := located_of_mem second
  obtain rfl := indexes.located_unique (same ▸ located) located'
  exact Option.some.inj (here.symm.trans there)

theorem nodup (indexes : Indexes map nodes) : (nodes.map GraphNode.id).Nodup := by
  rw [List.nodup_iff_injective_get]
  intro i j same
  have located : ∀ k : Fin (nodes.map GraphNode.id).length,
      Located nodes ((nodes.map GraphNode.id).get k) k.val := fun k => by
    have live : k.val < nodes.length := by simpa using k.isLt
    exact ⟨nodes[k.val], List.getElem?_eq_getElem live, by simp⟩
  exact Fin.ext (indexes.located_unique (located i) (same ▸ located j))

theorem absent_iff (indexes : Indexes map nodes) {id : String} :
    map.get? id = none ↔ ∀ node ∈ nodes, node.id ≠ id := by
  constructor
  · rintro unknown node member rfl
    obtain ⟨i, -, located⟩ := located_of_mem member
    have known := (indexes node.id i).mpr located
    rw [unknown] at known
    simp at known
  · intro free
    by_contra known
    obtain ⟨i, found⟩ := Option.ne_none_iff_exists'.mp known
    obtain ⟨node, here, same⟩ := (indexes id i).mp found
    exact free node (List.mem_of_getElem? here) same

theorem but (indexes : Indexes map nodes) {id : String} (unknown : map.get? id = none) :
    IndexesBut id map nodes where
  others k i _ := indexes k i
  absent i located := by
    rw [← indexes id i, unknown] at located
    simp at located

end Indexes

namespace IndexesBut

variable {map : NodeIndexMap} {nodes : List GraphNode} {id : String}

theorem indexes (known : IndexesBut id map nodes) (unknown : map.get? id = none) :
    Indexes map nodes := by
  intro k i
  by_cases same : k = id
  · rw [same, unknown]
    exact ⟨fun absurdity => by simp at absurdity, fun located => absurd located (known.absent i)⟩
  · exact known.others k i same

theorem concat {node : GraphNode} (known : IndexesBut node.id map nodes) :
    Indexes (map.insert node.id nodes.length) (nodes ++ [node]) := by
  intro k i
  rw [SortedMap.get?_insert, located_concat]
  split_ifs with same
  · subst same
    constructor
    · intro here
      exact Or.inr ⟨(Option.some.inj here).symm, rfl⟩
    · rintro (located | ⟨here, -⟩)
      · exact absurd located (known.absent i)
      · rw [here]
  · rw [known.others k i same]
    exact ⟨Or.inl, fun either => either.resolve_right fun last => same last.2.symm⟩

end IndexesBut

/-! ### Removal -/

theorem keyOf_eq_some {map : NodeIndexMap} {i : Nat} {id : String} (found : keyOf map i = some id) :
    map.get? id = some i := by
  obtain ⟨entry, here, rfl⟩ := Option.map_eq_some_iff.mp found
  have index := List.find?_some here
  rw [decide_eq_true_eq] at index
  rw [← index]
  exact SortedMap.mem_entries.mp (List.mem_of_find?_eq_some here)

theorem keyOf_eq_none {map : NodeIndexMap} {i : Nat} (missing : keyOf map i = none) (id : String) :
    map.get? id ≠ some i := by
  intro known
  have free := List.find?_eq_none.mp (Option.map_eq_none_iff.mp missing) _
    (SortedMap.mem_entries.mpr known)
  simp at free

theorem get?_repoint {map : NodeIndexMap} (separates : Separates map) (last i : Nat) (id : String) :
    (repoint map last i).get? id = (map.get? id).map (moved last i) := by
  unfold repoint
  split_ifs with away
  · cases key : keyOf map last with
    | none =>
      change map.get? id = _
      cases known : map.get? id with
      | none => rfl
      | some j =>
        have other : j ≠ last := fun same => keyOf_eq_none key id (same ▸ known)
        rw [Option.map_some, moved, if_neg other]
    | some k =>
      have found := keyOf_eq_some key
      change (map.insert k i).get? id = _
      rw [SortedMap.get?_insert]
      split_ifs with same
      · rw [same, found, Option.map_some, moved, if_pos rfl]
      · cases known : map.get? id with
        | none => rfl
        | some j =>
          have other : j ≠ last := fun here => same (separates _ _ last (here ▸ known) found)
          rw [Option.map_some, moved, if_neg other]
  · rw [not_ne_iff] at away
    have still : moved last i = fun j => j := by
      funext j
      unfold moved
      split_ifs with here
      · rw [away, here]
      · rfl
    rw [still]
    exact Option.map_id'.symm

section TakeOut

variable {graph : DiGraph GraphNode EdgeType} {known map : NodeIndexMap} {i : Nat}
  {node : GraphNode} (here : graph.nodes[i]? = some node)

include here

theorem inside_of_getElem? : i < graph.nodes.length :=
  (List.getElem?_eq_some_iff.mp here).1

theorem takeOut_eq : VolatileOverlay.takeOut graph map i =
    (graph.removeNode i, repoint map (graph.nodes.length - 1) i) := by
  unfold VolatileOverlay.takeOut
  exact if_pos (inside_of_getElem? here)

theorem indexesBut_takeOut (indexes : Indexes known graph.nodes) (separates : Separates map)
    (same : ∀ k, k ≠ node.id → map.get? k = known.get? k) :
    IndexesBut node.id (VolatileOverlay.takeOut graph map i).2
      (VolatileOverlay.takeOut graph map i).1.nodes := by
  have inside := inside_of_getElem? here
  rw [takeOut_eq here]
  constructor
  · intro k j other
    change (repoint map _ i).get? k = some j ↔ Located (graph.removeNode i).nodes k j
    rw [get?_repoint separates, same k other, Option.map_eq_some_iff,
      DiGraph.nodes_removeNode inside]
    constructor
    · rintro ⟨j', located, place⟩
      obtain ⟨n, found, rfl⟩ := (indexes k j').mp located
      have apart : j' ≠ i := by
        rintro rfl
        rw [here] at found
        exact other (congrArg GraphNode.id (Option.some.inj found)).symm
      exact ⟨n, (getElem?_swapRemove_iff inside).mpr ⟨j', apart, found, place⟩, rfl⟩
    · rintro ⟨n, found, rfl⟩
      obtain ⟨j', -, found, place⟩ := (getElem?_swapRemove_iff inside).mp found
      exact ⟨j', (indexes n.id j').mpr ⟨n, found, rfl⟩, place⟩
  · rintro j ⟨n, found, twin⟩
    change (graph.removeNode i).nodes[j]? = some n at found
    rw [DiGraph.nodes_removeNode inside] at found
    obtain ⟨j', apart, found, -⟩ := (getElem?_swapRemove_iff inside).mp found
    exact apart (indexes.located_unique ⟨n, found, twin⟩ ⟨node, here, rfl⟩)

theorem mem_nodes_removeNode (indexes : Indexes known graph.nodes) {n : GraphNode} :
    n ∈ (graph.removeNode i).nodes ↔ n ∈ graph.nodes ∧ n.id ≠ node.id := by
  have inside := inside_of_getElem? here
  rw [DiGraph.nodes_removeNode inside, mem_swapRemove inside]
  constructor
  · rintro ⟨j, apart, found⟩
    refine ⟨List.mem_of_getElem? found, fun twin => apart ?_⟩
    exact indexes.located_unique ⟨n, found, twin⟩ ⟨node, here, rfl⟩
  · rintro ⟨member, other⟩
    obtain ⟨j, found⟩ := List.mem_iff_getElem?.mp member
    refine ⟨j, fun same => other ?_, found⟩
    rw [same, here] at found
    rw [Option.some.inj found]

theorem mem_links_removeNode (indexes : Indexes known graph.nodes) {s t : GraphNode}
    {w : EdgeType} : (s, t, w) ∈ (graph.removeNode i).links ↔
      (s, t, w) ∈ graph.links ∧ s.id ≠ node.id ∧ t.id ≠ node.id := by
  have inside := inside_of_getElem? here
  have apart_iff : ∀ {j : Nat} {n : GraphNode}, graph.nodeWeight j = some n →
      (j ≠ i ↔ n.id ≠ node.id) := by
    intro j n found
    constructor
    · exact fun apart twin => apart (indexes.located_unique ⟨n, found, twin⟩ ⟨node, here, rfl⟩)
    · rintro other rfl
      exact other (congrArg GraphNode.id (Option.some.inj (found.symm.trans here)))
  rw [DiGraph.mem_links_removeNode inside, DiGraph.mem_links]
  constructor
  · rintro ⟨a, member, ⟨source, target⟩, found, found', weight⟩
    exact ⟨⟨a, member, found, found', weight⟩, (apart_iff found).mp source,
      (apart_iff found').mp target⟩
  · rintro ⟨⟨a, member, found, found', weight⟩, source, target⟩
    exact ⟨a, member, ⟨(apart_iff found).mpr source, (apart_iff found').mpr target⟩, found, found',
      weight⟩

end TakeOut

/-! ### The invariant -/

namespace Consistent

variable {o : VolatileOverlay}

theorem indexes (consistent : Consistent o) : Indexes o.nodeIndexMap o.graph.nodes :=
  consistent.lookup

theorem bloomed (consistent : Consistent o) {node : GraphNode} (member : node ∈ o.getAllNodes) :
    checkBloom o.bloomFilter node.id = true := by
  obtain ⟨i, -, located⟩ := located_of_mem member
  have known := consistent.found node.id
  rw [(consistent.indexes node.id i).mpr located] at known
  by_contra missing
  rw [Bool.not_eq_true] at missing
  simp [VolatileOverlay.getNode, missing] at known

theorem of_bloomed (indexes : Indexes o.nodeIndexMap o.graph.nodes)
    (bloomed : ∀ node ∈ o.getAllNodes, checkBloom o.bloomFilter node.id = true)
    (parallel : o.graph.arcs.Nodup) : Consistent o where
  lookup := indexes
  found id := by
    cases known : o.nodeIndexMap.get? id with
    | none =>
      unfold VolatileOverlay.getNode
      rw [known]
      split_ifs <;> rfl
    | some i =>
      obtain ⟨node, here, rfl⟩ := (indexes id i).mp known
      unfold VolatileOverlay.getNode
      rw [bloomed node (List.mem_of_getElem? here), known]
      change (o.graph.nodes[i]?).isSome = true
      rw [here]
      rfl
  parallel := parallel

theorem getNode_eq_some (consistent : Consistent o) {id : String} {node : GraphNode} :
    o.getNode id = some node ↔ node ∈ o.getAllNodes ∧ node.id = id := by
  constructor
  · intro found
    unfold VolatileOverlay.getNode at found
    split_ifs at found
    obtain ⟨i, known, here⟩ := Option.bind_eq_some_iff.mp found
    obtain ⟨n, there, same⟩ := (consistent.indexes id i).mp known
    obtain rfl : n = node := Option.some.inj (there.symm.trans here)
    exact ⟨List.mem_of_getElem? there, same⟩
  · rintro ⟨member, rfl⟩
    obtain ⟨i, here, located⟩ := located_of_mem member
    unfold VolatileOverlay.getNode
    rw [consistent.bloomed member, (consistent.indexes node.id i).mpr located]
    exact here

theorem new : Consistent .new := by
  refine of_bloomed (fun id i => ?_) (fun node member => absurd member List.not_mem_nil) .nil
  constructor
  · intro absurdity
    exact absurd absurdity (by simp [VolatileOverlay.new])
  · rintro ⟨node, found, -⟩
    simp [VolatileOverlay.new] at found

theorem mem_of_mem_links {graph : DiGraph GraphNode EdgeType} {s t : GraphNode} {w : EdgeType}
    (member : (s, t, w) ∈ graph.links) : s ∈ graph.nodes ∧ t ∈ graph.nodes := by
  obtain ⟨a, -, source, target, -⟩ := DiGraph.mem_links.mp member
  exact ⟨List.mem_of_getElem? source, List.mem_of_getElem? target⟩

end Consistent

/-! ### Nodes -/

structure ClearedOf (id : String) (graph graph' : DiGraph GraphNode EdgeType)
    (map' : NodeIndexMap) : Prop where
  indexes : IndexesBut id map' graph'.nodes
  nodes : ∀ n, n ∈ graph'.nodes ↔ n ∈ graph.nodes ∧ n.id ≠ id
  edges : ∀ s t w, (s, t, w) ∈ graph'.links ↔ (s, t, w) ∈ graph.links ∧ s.id ≠ id ∧ t.id ≠ id
  parallel : graph.arcs.Nodup → graph'.arcs.Nodup

variable {o : VolatileOverlay}

theorem clearedOf_absent (consistent : Consistent o) {id : String}
    (unknown : o.nodeIndexMap.get? id = none) : ClearedOf id o.graph o.graph o.nodeIndexMap := by
  have free := consistent.indexes.absent_iff.mp unknown
  refine ⟨consistent.indexes.but unknown, fun n => ?_, fun s t w => ?_, fun distinct => distinct⟩
  · exact ⟨fun member => ⟨member, free n member⟩, And.left⟩
  · refine ⟨fun member => ?_, And.left⟩
    obtain ⟨source, target⟩ := Consistent.mem_of_mem_links member
    exact ⟨member, free s source, free t target⟩

theorem clearedOf_takeOut (consistent : Consistent o) {id : String} {i : Nat}
    (known : o.nodeIndexMap.get? id = some i) {map : NodeIndexMap} (separates : Separates map)
    (same : ∀ k, k ≠ id → map.get? k = o.nodeIndexMap.get? k) :
    ClearedOf id o.graph (VolatileOverlay.takeOut o.graph map i).1
      (VolatileOverlay.takeOut o.graph map i).2 := by
  have indexes := consistent.indexes
  obtain ⟨node, here, rfl⟩ := (indexes id i).mp known
  have cleared := indexesBut_takeOut here indexes separates same
  rw [takeOut_eq here] at cleared ⊢
  refine ⟨cleared, fun n => mem_nodes_removeNode here indexes,
    fun s t w => mem_links_removeNode here indexes, fun distinct => ?_⟩
  exact DiGraph.nodup_arcs_removeNode (inside_of_getElem? here) distinct

section InsertNode

variable (consistent : Consistent o) (node : GraphNode)

def clearedFor (o : VolatileOverlay) (node : GraphNode) :
    DiGraph GraphNode EdgeType × NodeIndexMap :=
  match o.nodeIndexMap.get? node.id with
  | some oldIdx => VolatileOverlay.takeOut o.graph o.nodeIndexMap oldIdx
  | none => (o.graph, o.nodeIndexMap)

include consistent

theorem clearedOf_clearedFor :
    ClearedOf node.id o.graph (clearedFor o node).1 (clearedFor o node).2 := by
  unfold clearedFor
  cases known : o.nodeIndexMap.get? node.id with
  | none => exact clearedOf_absent consistent known
  | some i =>
    exact clearedOf_takeOut consistent known consistent.indexes.separates fun _ _ => rfl

theorem mem_insertNode {n : GraphNode} : n ∈ (o.insertNode node).getAllNodes ↔
    n ∈ o.getAllNodes ∧ n.id ≠ node.id ∨ n = node := by
  change n ∈ (clearedFor o node).1.nodes ++ [node] ↔ _
  rw [List.mem_append, List.mem_singleton, (clearedOf_clearedFor consistent node).nodes]
  rfl

theorem mem_edges_insertNode {s t : GraphNode} {w : EdgeType} :
    (s, t, w) ∈ (o.insertNode node).getAllEdges ↔
      (s, t, w) ∈ o.getAllEdges ∧ s.id ≠ node.id ∧ t.id ≠ node.id := by
  change (s, t, w) ∈ ((clearedFor o node).1.addNode node).links ↔ _
  rw [DiGraph.links_addNode]
  exact (clearedOf_clearedFor consistent node).edges s t w

theorem consistent_insertNode : Consistent (o.insertNode node) := by
  have cleared := clearedOf_clearedFor consistent node
  refine Consistent.of_bloomed cleared.indexes.concat (fun n member => ?_)
    (cleared.parallel consistent.parallel)
  rcases (mem_insertNode consistent node).mp member with ⟨old, -⟩ | rfl
  · exact checkBloom_updateBloom (consistent.bloomed old) node.id
  · exact checkBloom_updateBloom_self o.bloomFilter n.id

theorem untouched_insertNode : Untouched (· = node.id) o (o.insertNode node) where
  nodes n other := by
    rw [mem_insertNode consistent node]
    constructor
    · rintro (⟨member, -⟩ | rfl)
      · exact member
      · exact absurd rfl other
    · exact fun member => Or.inl ⟨member, other⟩
  edges s t w source target := by
    rw [mem_edges_insertNode consistent node]
    exact ⟨And.left, fun member => ⟨member, source, target⟩⟩

end InsertNode

section RemoveNode

theorem Separates.erase {map : NodeIndexMap} (separates : Separates map) (id : String) :
    Separates (map.erase id) := by
  intro k k' i first second
  rw [SortedMap.get?_erase] at first second
  split_ifs at first second
  exact separates k k' i first second

/-- What is left without an id. -/
structure Without (id : String) (o o' : VolatileOverlay) : Prop where
  consistent : Consistent o'
  nodes : ∀ n, n ∈ o'.getAllNodes ↔ n ∈ o.getAllNodes ∧ n.id ≠ id
  edges : ∀ s t w, (s, t, w) ∈ o'.getAllEdges ↔
    (s, t, w) ∈ o.getAllEdges ∧ s.id ≠ id ∧ t.id ≠ id

theorem removeNode_without (consistent : Consistent o) (id : String) :
    Without id o (o.removeNode id).1 := by
  unfold VolatileOverlay.removeNode
  cases known : o.nodeIndexMap.get? id with
  | none =>
    have cleared := clearedOf_absent consistent known
    exact ⟨consistent, cleared.nodes, cleared.edges⟩
  | some i =>
    obtain ⟨node, here, -⟩ := (consistent.indexes id i).mp known
    have separates := consistent.indexes.separates.erase id
    have cleared := clearedOf_takeOut consistent known separates fun k other => by
      rw [SortedMap.get?_erase, if_neg other]
    have inside : i < o.graph.nodeCount := inside_of_getElem? here
    simp only [if_pos inside]
    refine ⟨Consistent.of_bloomed (cleared.indexes.indexes ?_) (fun n member => ?_)
      (cleared.parallel consistent.parallel), cleared.nodes, cleared.edges⟩
    · rw [takeOut_eq here, get?_repoint separates, SortedMap.get?_erase, if_pos rfl]
      rfl
    · exact consistent.bloomed ((cleared.nodes n).mp member).1

theorem Without.untouched {id : String} {o' : VolatileOverlay} (without : Without id o o') :
    Untouched (· = id) o o' where
  nodes n other := by
    rw [without.nodes]
    exact ⟨And.left, fun member => ⟨member, other⟩⟩
  edges s t w source target := by
    rw [without.edges]
    exact ⟨And.left, fun member => ⟨member, source, target⟩⟩

theorem foldl_removeNode (ids : List String) : ∀ {o : VolatileOverlay} (count : Nat),
    Consistent o →
    let final := (ids.foldl (fun (s : VolatileOverlay × Nat) id =>
      ((s.1.removeNode id).1, if (s.1.removeNode id).2 then s.2 + 1 else s.2)) (o, count)).1
    Consistent final ∧
      (∀ n, n ∈ final.getAllNodes ↔ n ∈ o.getAllNodes ∧ n.id ∉ ids) ∧
      ∀ s t w, (s, t, w) ∈ final.getAllEdges ↔
        (s, t, w) ∈ o.getAllEdges ∧ s.id ∉ ids ∧ t.id ∉ ids := by
  induction ids with
  | nil =>
    intro o count consistent
    exact ⟨consistent, fun n => by simp, fun s t w => by simp⟩
  | cons id rest ih =>
    intro o count consistent
    have without := removeNode_without consistent id
    obtain ⟨final, nodes, edges⟩ := ih
      (if (o.removeNode id).2 then count + 1 else count) without.consistent
    refine ⟨final, fun n => (nodes n).trans ?_, fun s t w => (edges s t w).trans ?_⟩
    · rw [without.nodes, List.mem_cons, not_or, and_assoc]
    · rw [without.edges, List.mem_cons, List.mem_cons, not_or, not_or]
      tauto

theorem keyOf_iff (consistent : Consistent o) {i : Nat} {id : String} :
    keyOf o.nodeIndexMap i = some id ↔ o.nodeIndexMap.get? id = some i := by
  refine ⟨keyOf_eq_some, fun known => ?_⟩
  cases key : keyOf o.nodeIndexMap i with
  | none => exact absurd known (keyOf_eq_none key id)
  | some k => rw [consistent.indexes.separates k id i (keyOf_eq_some key) known]

theorem mem_idsForPath (consistent : Consistent o) {path id : String} :
    id ∈ o.idsForPath path ↔ ∃ node ∈ o.getAllNodes, node.path = path ∧ node.id = id := by
  unfold VolatileOverlay.idsForPath
  rw [List.mem_filterMap]
  constructor
  · rintro ⟨⟨node, i⟩, member, listed⟩
    have here : o.graph.nodes[i]? = some node := List.mk_mem_zipIdx_iff_getElem?.mp member
    split_ifs at listed with onPath
    obtain ⟨n, there, same⟩ := (consistent.indexes id i).mp ((keyOf_iff consistent).mp listed)
    obtain rfl : n = node := Option.some.inj (there.symm.trans here)
    exact ⟨n, List.mem_of_getElem? here, onPath, same⟩
  · rintro ⟨node, member, onPath, rfl⟩
    obtain ⟨i, here, located⟩ := located_of_mem member
    refine ⟨(node, i), List.mk_mem_zipIdx_iff_getElem?.mpr here, ?_⟩
    rw [if_pos onPath]
    exact (keyOf_iff consistent).mpr ((consistent.indexes node.id i).mpr located)

theorem removeNodesForPath_spec (consistent : Consistent o) (path : String) :
    Consistent (o.removeNodesForPath path).1 ∧
      (∀ n, n ∈ (o.removeNodesForPath path).1.getAllNodes ↔
        n ∈ o.getAllNodes ∧ n.path ≠ path) ∧
      Untouched (fun id => ∃ node ∈ o.getAllNodes, node.path = path ∧ node.id = id) o
        (o.removeNodesForPath path).1 := by
  obtain ⟨final, nodes, edges⟩ := foldl_removeNode (o.idsForPath path) 0 consistent
  refine ⟨final, fun n => (nodes n).trans (and_congr_right fun member => ?_),
    fun n other => (nodes n).trans ?_, fun s t w source target => (edges s t w).trans ?_⟩
  · rw [mem_idsForPath consistent]
    constructor
    · exact fun free onPath => free ⟨n, member, onPath, rfl⟩
    · rintro other ⟨twin, listed, onPath, same⟩
      exact other (consistent.indexes.node_unique listed member same ▸ onPath)
  · rw [mem_idsForPath consistent]
    exact ⟨And.left, fun member => ⟨member, other⟩⟩
  · rw [mem_idsForPath consistent, mem_idsForPath consistent]
    exact ⟨And.left, fun member => ⟨member, source, target⟩⟩

end RemoveNode

end Lain.Server
