import Lain.Graph.Indexes
import Lain.Graph.View

/-!
# Mutators refine their logged operations

A consistent database has an exact id index and edges that name the nodes at
their ends.
-/

namespace Lain.Graph

open Foundation GraphDatabase

structure Consistent (db : GraphDatabase) : Prop where
  ids : db.indexMap.Locates (slotKey db.graph GraphNode.id)
  anchored : ∀ a ∈ db.graph.arcs,
    slotKey db.graph GraphNode.id a.source = some a.weight.sourceId ∧
      slotKey db.graph GraphNode.id a.target = some a.weight.targetId

def viewOf (db : GraphDatabase) : View where
  nodes := db.getNode
  edges := {key | ∃ a ∈ db.graph.arcs, edgeIdentityKey a.weight = key}

theorem consistent_empty : Consistent {} where
  ids := SlotMap.Locates.empty (by simp [slotKey])
  anchored := by simp [StableGraph.empty]

namespace Consistent

variable {db : GraphDatabase}

theorem live_of_lookup (consistent : Consistent db) {id : String} {i : Nat}
    (located : db.indexMap.lookup id = some i) :
    ∃ n, db.graph.nodeWeight i = some n ∧ n.id = id :=
  slotKey_eq_some.mp ((consistent.ids id i).mp located)

theorem lookup_of_live (consistent : Consistent db) {n : GraphNode} {i : Nat}
    (live : db.graph.nodeWeight i = some n) : db.indexMap.lookup n.id = some i :=
  (consistent.ids n.id i).mpr (slotKey_eq_some.mpr ⟨n, live, rfl⟩)

theorem getNode_of_lookup (consistent : Consistent db) {id : String} {i : Nat}
    (located : db.indexMap.lookup id = some i) :
    ∃ n, db.getNode id = some n ∧ db.graph.nodeWeight i = some n ∧ n.id = id := by
  obtain ⟨n, live, named⟩ := consistent.live_of_lookup located
  exact ⟨n, by simp [getNode, located, live], live, named⟩

theorem hasNode_eq (consistent : Consistent db) (id : String) :
    db.hasNode id = (db.getNode id).isSome := by
  unfold hasNode
  cases located : db.indexMap.lookup id with
  | none => simp [getNode, located]
  | some i =>
    obtain ⟨n, found, _⟩ := consistent.getNode_of_lookup located
    simp [found]

theorem anchors_of_mem (consistent : Consistent db) {key : EdgeKey}
    (member : key ∈ (viewOf db).edges) : (viewOf db).Anchors key := by
  obtain ⟨a, stored, rfl⟩ := member
  obtain ⟨source, target⟩ := consistent.anchored a stored
  have sourceLocated := (consistent.ids _ _).mpr source
  have targetLocated := (consistent.ids _ _).mpr target
  obtain ⟨m, sourceFound, _⟩ := consistent.getNode_of_lookup sourceLocated
  obtain ⟨n, targetFound, _⟩ := consistent.getNode_of_lookup targetLocated
  refine ⟨?_, ?_⟩
  · change (db.getNode a.weight.sourceId).isSome = true
    simp [sourceFound]
  · change (db.getNode a.weight.targetId).isSome = true
    simp [targetFound]

theorem edgeExists_iff (consistent : Consistent db) {edge : GraphEdge} {s t : Nat}
    (source : db.indexMap.lookup edge.sourceId = some s)
    (target : db.indexMap.lookup edge.targetId = some t) :
    db.edgeExists s t edge = true ↔ edgeIdentityKey edge ∈ (viewOf db).edges := by
  unfold edgeExists
  rw [List.any_eq_true]
  constructor
  · rintro ⟨a, connecting, same⟩
    obtain ⟨stored, rfl, rfl⟩ := StableGraph.mem_edgesConnecting.mp connecting
    obtain ⟨sourceId, targetId⟩ := consistent.anchored a stored
    have sameSource : a.weight.sourceId = edge.sourceId :=
      Option.some.inj (sourceId.symm.trans ((consistent.ids _ _).mp source))
    have sameTarget : a.weight.targetId = edge.targetId :=
      Option.some.inj (targetId.symm.trans ((consistent.ids _ _).mp target))
    exact ⟨a, stored, (edgeIdentityKey_eq_iff _ _).mpr ⟨sameSource, sameTarget, same⟩⟩
  · rintro ⟨a, stored, sameKey⟩
    obtain ⟨sameSource, sameTarget, same⟩ := (edgeIdentityKey_eq_iff _ _).mp sameKey
    obtain ⟨sourceId, targetId⟩ := consistent.anchored a stored
    rw [sameSource] at sourceId
    rw [sameTarget] at targetId
    have sourceSlot := consistent.ids.slot_unique sourceId ((consistent.ids _ _).mp source)
    have targetSlot := consistent.ids.slot_unique targetId ((consistent.ids _ _).mp target)
    exact ⟨a, StableGraph.mem_edgesConnecting.mpr ⟨stored, sourceSlot, targetSlot⟩, same⟩

end Consistent

/-- From one database to another by a list of logged operations. -/
structure Steps (db : GraphDatabase) (ops : List GraphOp) (db' : GraphDatabase) : Prop where
  consistent : Consistent db'
  view : viewOf db' = ops.foldl View.apply (viewOf db)
  logged : View.WellLogged (viewOf db) ops

namespace Steps

variable {db db' : GraphDatabase}

theorem refl (consistent : Consistent db) : Steps db [] db :=
  ⟨consistent, rfl, fun j edge here => by simp at here⟩

theorem wellLogged_append {init : View} {ops later : List GraphOp}
    (first : View.WellLogged init ops)
    (second : View.WellLogged (ops.foldl View.apply init) later) :
    View.WellLogged init (ops ++ later) := by
  intro j edge here
  by_cases early : j < ops.length
  · rw [List.getElem?_append_left early] at here
    rw [stateAt_append View.apply init (by omega)]
    exact first j edge here
  · rw [List.getElem?_append_right (by omega)] at here
    have anchored := second (j - ops.length) edge here
    unfold stateAt at anchored ⊢
    rw [List.take_append, List.take_of_length_le (by omega), List.foldl_append]
    exact anchored

theorem trans {middle : GraphDatabase} {ops later : List GraphOp}
    (first : Steps db ops middle) (second : Steps middle later db') :
    Steps db (ops ++ later) db' where
  consistent := second.consistent
  view := by rw [second.view, first.view, List.foldl_append]
  logged := wellLogged_append first.logged (first.view ▸ second.logged)

theorem silent (consistent : Consistent db) (sameGraph : db'.graph = db.graph)
    (sameIds : db'.indexMap = db.indexMap) : Steps db [] db' where
  consistent := by
    refine ⟨?_, ?_⟩
    · rw [sameGraph, sameIds]
      exact consistent.ids
    · rw [sameGraph]
      exact consistent.anchored
  view := by
    unfold viewOf
    have sameNodes : db'.getNode = db.getNode := by
      funext id
      simp [getNode, sameGraph, sameIds]
    rw [sameGraph, sameNodes]
    rfl
  logged := fun j edge here => by simp at here

private theorem wellLogged_single {init : View} {op : GraphOp}
    (noEdge : ∀ edge, op ≠ .upsertEdge edge) : View.WellLogged init [op] := by
  intro j edge here
  cases j with
  | zero =>
    simp only [List.getElem?_cons_zero, Option.some.injEq] at here
    exact absurd here (noEdge edge)
  | succ j => simp at here

/-- **Upserting a node** refreshes or adds its payload and nothing else. -/
theorem putNode (consistent : Consistent db) (node : GraphNode) :
    ∃ db', db.putNode node = some db' ∧ Steps db [.upsertNode node] db' ∧
      db'.readOnly = db.readOnly := by
  have logged : View.WellLogged (viewOf db) [GraphOp.upsertNode node] :=
    wellLogged_single (fun _ => by simp)
  unfold GraphDatabase.putNode
  cases located : db.indexMap.lookup node.id with
  | none =>
    obtain ⟨vacant, filled, others⟩ :=
      Aligned.slotKey_addNode db.graph GraphNode.id node
    have ids := consistent.ids.insert vacant located filled others
    refine ⟨_, rfl, ⟨⟨ids, ?_⟩, ?_, logged⟩, rfl⟩
    · intro a stored
      rw [StableGraph.arcs_addNode] at stored
      obtain ⟨source, target⟩ := consistent.anchored a stored
      have apart : ∀ i k, slotKey db.graph GraphNode.id i = some k →
          i ≠ db.graph.nextIndex := by
        intro i k held here
        rw [here, vacant] at held
        cases held
      simp only
      rw [others _ (apart _ _ source), others _ (apart _ _ target)]
      exact ⟨source, target⟩
    · refine View.ext (funext fun id => ?_) ?_
      · change getNode _ id = _
        by_cases same : id = node.id
        · subst same
          simp [viewOf, View.apply, getNode, located, hydrate, AList.lookup_insert,
            StableGraph.nodeWeight_addNode]
        · have held : ∀ i, db.indexMap.lookup id = some i → i ≠ db.graph.nextIndex := by
            intro i found here
            have key := (consistent.ids id i).mp found
            rw [here, vacant] at key
            cases key
          cases found : db.indexMap.lookup id with
          | none =>
            simp [viewOf, View.apply, getNode, same, AList.lookup_insert_ne same, found]
          | some i =>
            simp [viewOf, View.apply, getNode, same, AList.lookup_insert_ne same, found,
              StableGraph.nodeWeight_addNode, held i found]
      · simp [viewOf, View.apply]
  | some idx =>
    obtain ⟨existing, found, live, named⟩ := consistent.getNode_of_lookup located
    simp only [live]
    have payload : (viewOf db).nodes node.id = some existing := found
    by_cases replace : (node.isHydrated || !existing.isHydrated) = true
    · rw [if_pos replace]
      have merged : hydrate (some existing) node = node := if_pos replace
      have unmoved := Aligned.slotKey_setNode GraphNode.id live named.symm
      refine ⟨_, rfl, ⟨⟨consistent.ids.congr unmoved, ?_⟩, ?_, logged⟩, rfl⟩
      · intro a stored
        rw [StableGraph.arcs_setNode] at stored
        simp only [unmoved]
        exact consistent.anchored a stored
      · refine View.ext (funext fun id => ?_) ?_
        · change getNode _ id = _
          by_cases same : id = node.id
          · subst same
            simp [View.apply, payload, getNode, located, merged,
              StableGraph.nodeWeight_setNode, live]
          · have held : ∀ i, db.indexMap.lookup id = some i → i ≠ idx := by
              intro i other here
              subst here
              have key := (consistent.ids id i).mp other
              rw [(consistent.ids node.id i).mp located] at key
              exact same (Option.some.inj key).symm
            cases other : db.indexMap.lookup id with
            | none => simp [viewOf, View.apply, getNode, same, other]
            | some i =>
              simp [viewOf, View.apply, getNode, same, other,
                StableGraph.nodeWeight_setNode, held i other]
        · simp [viewOf, View.apply]
    · rw [if_neg replace]
      have merged : hydrate (some existing) node = existing := if_neg replace
      refine ⟨db, rfl, ⟨consistent, ?_, logged⟩, rfl⟩
      refine View.ext (funext fun id => ?_) rfl
      by_cases same : id = node.id
      · subst same
        simp [View.apply, payload, merged]
      · simp [View.apply, same]

theorem putNodes (nodes : List GraphNode) :
    ∀ {db : GraphDatabase}, Consistent db →
      ∃ db', nodes.foldlM GraphDatabase.putNode db = some db' ∧
        Steps db (nodes.map .upsertNode) db' ∧ db'.readOnly = db.readOnly := by
  induction nodes with
  | nil => exact fun consistent => ⟨_, rfl, refl consistent, rfl⟩
  | cons node rest ih =>
    intro db consistent
    obtain ⟨middle, step, first, sameMode⟩ := putNode consistent node
    obtain ⟨final, run, later, sameMode'⟩ := ih first.consistent
    exact ⟨final, by simp [List.foldlM_cons, step, run], first.trans later,
      sameMode'.trans sameMode⟩

/-- **Appending an edge** between its endpoints adds its identity and nothing else. -/
theorem addEdge (consistent : Consistent db) {edge : GraphEdge} {s t : Nat}
    (source : db.indexMap.lookup edge.sourceId = some s)
    (target : db.indexMap.lookup edge.targetId = some t) :
    ∃ db', db.addEdge s t edge = some db' ∧ Steps db [.upsertEdge edge] db' ∧
      db'.indexMap = db.indexMap ∧ db'.readOnly = db.readOnly ∧
        db'.edges = db.edges ++ [edge] := by
  obtain ⟨m, sourceFound, sourceLive, sourceNamed⟩ := consistent.getNode_of_lookup source
  obtain ⟨n, targetFound, targetLive, targetNamed⟩ := consistent.getNode_of_lookup target
  obtain ⟨graph, added⟩ := StableGraph.addEdge_isSome edge sourceLive targetLive
  obtain ⟨sameNodes, arcs⟩ := StableGraph.addEdge_eq_some added
  have anchors : (viewOf db).Anchors (edgeIdentityKey edge) := by
    refine ⟨?_, ?_⟩
    · change (db.getNode edge.sourceId).isSome = true
      simp [sourceFound]
    · change (db.getNode edge.targetId).isSome = true
      simp [targetFound]
  have sameKeys : ∀ i, slotKey graph GraphNode.id i = slotKey db.graph GraphNode.id i := by
    intro i
    simp [slotKey, sameNodes]
  refine ⟨{ db with graph }, by simp [GraphDatabase.addEdge, added],
    ⟨⟨consistent.ids.congr sameKeys, ?_⟩, ?_, ?_⟩, rfl, rfl, ?_⟩
  · intro a stored
    simp only [sameKeys]
    rw [arcs] at stored
    rcases List.mem_append.mp stored with old | new
    · exact consistent.anchored a old
    · obtain rfl := List.mem_singleton.mp new
      exact ⟨(consistent.ids _ _).mp source, (consistent.ids _ _).mp target⟩
  · refine View.ext (funext fun id => ?_) (Set.ext fun key => ?_)
    · change getNode _ id = db.getNode id
      have sameWeights : graph.nodeWeight = db.graph.nodeWeight := funext sameNodes
      simp [getNode, sameWeights]
    · change (∃ a ∈ graph.arcs, edgeIdentityKey a.weight = key) ↔
        (∃ a ∈ db.graph.arcs, edgeIdentityKey a.weight = key) ∨
          key = edgeIdentityKey edge ∧ (viewOf db).Anchors key
      rw [arcs]
      constructor
      · rintro ⟨a, stored, same⟩
        rcases List.mem_append.mp stored with old | new
        · exact Or.inl ⟨a, old, same⟩
        · obtain rfl := List.mem_singleton.mp new
          exact Or.inr ⟨same.symm, same ▸ anchors⟩
      · rintro (⟨a, old, same⟩ | ⟨rfl, _⟩)
        · exact ⟨a, List.mem_append_left _ old, same⟩
        · exact ⟨⟨s, t, edge⟩, List.mem_append_right _ (by simp), rfl⟩
  · intro j other here
    cases j with
    | zero =>
      simp only [List.getElem?_cons_zero, Option.some.injEq, GraphOp.upsertEdge.injEq] at here
      subst here
      exact anchors
    | succ j => simp at here
  · simp [edges, StableGraph.edgeWeights, arcs]

theorem storedEdge (consistent : Consistent db) {edge : GraphEdge}
    (stored : edgeIdentityKey edge ∈ (viewOf db).edges) :
    Steps db [.upsertEdge edge] db where
  consistent := consistent
  view := by
    refine View.ext rfl (Set.ext fun key => ?_)
    change key ∈ (viewOf db).edges ↔
      key ∈ (viewOf db).edges ∨ key = edgeIdentityKey edge ∧ (viewOf db).Anchors key
    constructor
    · exact Or.inl
    · rintro (old | ⟨rfl, _⟩)
      · exact old
      · exact stored
  logged := by
    intro j other here
    cases j with
    | zero =>
      simp only [List.getElem?_cons_zero, Option.some.injEq, GraphOp.upsertEdge.injEq] at here
      subst here
      exact consistent.anchors_of_mem stored
    | succ j => simp at here

end Steps

end Lain.Graph
