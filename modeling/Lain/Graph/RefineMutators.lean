import Lain.Graph.Refine
import Lain.Graph.IndexMutators

/-!
# The logged mutators refine their log

One theorem for each mutator the log records: from a consistent database it
does not panic, and it ends where its logged operations lead.
-/

namespace Lain.Graph

open Foundation GraphDatabase

variable {db : GraphDatabase}

def Refines {α : Type} (db : GraphDatabase) (call : Call α) : Prop :=
  call.outcome.All fun db' => Steps db call.logged db' ∧ db'.readOnly = db.readOnly

namespace Consistent

theorem refines_error {α : Type} (consistent : Consistent db) (reason : LainError) :
    Refines db (⟨[], .error db reason⟩ : Call α) :=
  ⟨Steps.refl consistent, rfl⟩

theorem upsertNode (consistent : Consistent db) (node : GraphNode) :
    Refines db (db.upsertNode node) := by
  unfold GraphDatabase.upsertNode
  split
  · exact consistent.refines_error _
  · obtain ⟨db', put, steps, sameMode⟩ := Steps.putNode consistent node
    unfold Refines
    simp only [put]
    exact ⟨steps, sameMode⟩

theorem insertNodesBatch (consistent : Consistent db) (nodes : List GraphNode) :
    Refines db (db.insertNodesBatch nodes) := by
  unfold GraphDatabase.insertNodesBatch
  split
  · exact consistent.refines_error _
  · obtain ⟨db', put, steps, sameMode⟩ := Steps.putNodes nodes consistent
    unfold Refines
    simp only [put]
    exact ⟨steps, sameMode⟩

/-! ### Removing nodes -/

def Removed (db : GraphDatabase) (ids : List String) (i : Nat) : Prop :=
  ∃ id ∈ ids, db.indexMap.lookup id = some i

theorem removed_iff (consistent : Consistent db) {ids : List String} {i : Nat} {k : String}
    (held : slotKey db.graph GraphNode.id i = some k) : Removed db ids i ↔ k ∈ ids := by
  constructor
  · rintro ⟨id, member, located⟩
    have key := (consistent.ids id i).mp located
    rw [held] at key
    cases key
    exact member
  · intro member
    exact ⟨k, member, (consistent.ids k i).mpr held⟩

private theorem removed_append (ids : List String) (id : String) (i : Nat) :
    Removed db (ids ++ [id]) i ↔ Removed db ids i ∨ db.indexMap.lookup id = some i := by
  unfold Removed
  constructor
  · rintro ⟨other, member, located⟩
    rcases List.mem_append.mp member with old | new
    · exact Or.inl ⟨other, old, located⟩
    · obtain rfl := List.mem_singleton.mp new
      exact Or.inr located
  · rintro (⟨other, member, located⟩ | located)
    · exact ⟨other, List.mem_append_left _ member, located⟩
    · exact ⟨id, List.mem_append_right _ (by simp), located⟩

theorem removeLocked_spec (consistent : Consistent db) (ids : List String) :
    (∀ i, (Removed db ids i → (db.removeLocked ids).graph.nodeWeight i = none) ∧
      (¬ Removed db ids i →
        (db.removeLocked ids).graph.nodeWeight i = db.graph.nodeWeight i)) ∧
    ∀ a, a ∈ (db.removeLocked ids).graph.arcs ↔
      a ∈ db.graph.arcs ∧ ¬ Removed db ids a.source ∧ ¬ Removed db ids a.target := by
  induction ids using List.reverseRecOn with
  | nil => simp [removeLocked, Removed]
  | append_singleton ids id ih =>
    obtain ⟨nodes, arcs⟩ := ih
    have unfolded : db.removeLocked (ids ++ [id]) =
        (db.removeLocked ids).remove db.indexMap id := by
      simp [removeLocked, List.foldl_append]
    rw [unfolded]
    generalize db.removeLocked ids = r at nodes arcs
    unfold Removal.remove
    cases located : db.indexMap.lookup id with
    | none =>
      have same : ∀ i, Removed db (ids ++ [id]) i ↔ Removed db ids i := by
        intro i
        simp [removed_append, located]
      simp only [same]
      exact ⟨nodes, arcs⟩
    | some idx =>
      have also : ∀ i, Removed db (ids ++ [id]) i ↔ Removed db ids i ∨ i = idx := by
        intro i
        rw [removed_append, located]
        constructor
        · rintro (old | same)
          · exact Or.inl old
          · exact Or.inr (Option.some.inj same).symm
        · rintro (old | rfl)
          · exact Or.inl old
          · exact Or.inr rfl
      dsimp only
      cases weight : r.graph.nodeWeight idx with
      | none =>
        -- The slot was vacated before: one id is listed twice.
        have before : Removed db ids idx := by
          by_contra fresh
          obtain ⟨n, live, _⟩ := consistent.live_of_lookup located
          rw [(nodes idx).2 fresh, live] at weight
          cases weight
        have same : ∀ i, Removed db (ids ++ [id]) i ↔ Removed db ids i := by
          intro i
          rw [also]
          constructor
          · rintro (old | rfl)
            · exact old
            · exact before
          · exact Or.inl
        simp only [same]
        exact ⟨nodes, arcs⟩
      | some node =>
        refine ⟨fun i => ?_, fun a => ?_⟩
        · rw [also, StableGraph.nodeWeight_removeNode]
          by_cases here : i = idx
          · simp [here]
          · simp only [here, or_false, if_false]
            exact nodes i
        · rw [StableGraph.mem_arcs_removeNode, arcs, also, also]
          tauto

theorem steps_removal (consistent : Consistent db) (ids : List String)
    (clearedPaths clearedNames : List (String × Nat)) :
    Steps db [.removeNodesByIds ids]
      (removeCleanup { db with graph := (db.removeLocked ids).graph } ids
        clearedPaths clearedNames) := by
  obtain ⟨nodes, arcs⟩ := consistent.removeLocked_spec ids
  have lookups := SlotMap.lookup_eraseAll ids db.indexMap
  have keys : ∀ i k, slotKey (db.removeLocked ids).graph GraphNode.id i = some k ↔
      slotKey db.graph GraphNode.id i = some k ∧ k ∉ ids := by
    intro i k
    by_cases removed : Removed db ids i
    · have vacated := (nodes i).1 removed
      simp only [slotKey, vacated, Option.map_none, reduceCtorEq, false_iff, not_and, not_not]
      exact fun held => (consistent.removed_iff held).mp removed
    · have kept := (nodes i).2 removed
      unfold slotKey
      rw [kept]
      exact ⟨fun held => ⟨held, fun member => removed ((consistent.removed_iff held).mpr member)⟩,
        fun held => held.1⟩
  refine ⟨⟨?_, ?_⟩, ?_, ?_⟩
  · intro k i
    change (ids.foldl (fun m id => m.erase id) db.indexMap).lookup k = some i ↔
      slotKey (db.removeLocked ids).graph GraphNode.id i = some k
    rw [lookups, keys, ← consistent.ids k i]
    by_cases member : k ∈ ids <;> simp [member]
  · intro a stored
    obtain ⟨old, sourceKept, targetKept⟩ := (arcs a).mp stored
    obtain ⟨source, target⟩ := consistent.anchored a old
    exact ⟨(keys _ _).mpr ⟨source, fun member =>
        sourceKept ((consistent.removed_iff source).mpr member)⟩,
      (keys _ _).mpr ⟨target, fun member =>
        targetKept ((consistent.removed_iff target).mpr member)⟩⟩
  · refine View.ext (funext fun id => ?_) (Set.ext fun key => ?_)
    · change ((ids.foldl (fun m id => m.erase id) db.indexMap).lookup id).bind
          (db.removeLocked ids).graph.nodeWeight = if id ∈ ids then none else db.getNode id
      rw [lookups]
      by_cases member : id ∈ ids
      · simp [member]
      · rw [if_neg member, if_neg member]
        unfold getNode
        cases located : db.indexMap.lookup id with
        | none => rfl
        | some i =>
          have held := (consistent.ids id i).mp located
          have kept := fun removed => member ((consistent.removed_iff held).mp removed)
          exact (nodes i).2 kept
    · change (∃ a ∈ (db.removeLocked ids).graph.arcs, edgeIdentityKey a.weight = key) ↔
        (∃ a ∈ db.graph.arcs, edgeIdentityKey a.weight = key) ∧
          key.sourceId ∉ ids ∧ key.targetId ∉ ids
      constructor
      · rintro ⟨a, stored, rfl⟩
        obtain ⟨old, sourceKept, targetKept⟩ := (arcs a).mp stored
        obtain ⟨source, target⟩ := consistent.anchored a old
        exact ⟨⟨a, old, rfl⟩,
          fun member => sourceKept ((consistent.removed_iff source).mpr member),
          fun member => targetKept ((consistent.removed_iff target).mpr member)⟩
      · rintro ⟨⟨a, old, rfl⟩, source, target⟩
        obtain ⟨sourceHeld, targetHeld⟩ := consistent.anchored a old
        exact ⟨a, (arcs a).mpr ⟨old,
          fun removed => source ((consistent.removed_iff sourceHeld).mp removed),
          fun removed => target ((consistent.removed_iff targetHeld).mp removed)⟩, rfl⟩
  · intro j edge here
    cases j <;> simp at here

theorem removeNodesByIds (consistent : Consistent db) (ids : List String) :
    Refines db (db.removeNodesByIds ids) := by
  unfold GraphDatabase.removeNodesByIds
  split
  · exact consistent.refines_error _
  · exact ⟨consistent.steps_removal ids _ _, rfl⟩

/-! ### Edges -/

theorem steps_retract (consistent : Consistent db)
    (endpoints : List (String × String × EdgeType)) :
    Steps db [.removeEdges endpoints] (db.retract endpoints) := by
  refine ⟨⟨consistent.ids, ?_⟩, ?_, ?_⟩
  · intro a stored
    exact consistent.anchored a (List.mem_filter.mp stored).1
  · refine View.ext rfl (Set.ext fun key => ?_)
    change (∃ a ∈ (db.retract endpoints).graph.arcs, edgeIdentityKey a.weight = key) ↔
      (∃ a ∈ db.graph.arcs, edgeIdentityKey a.weight = key) ∧ key.triple ∉ endpoints
    constructor
    · rintro ⟨a, stored, rfl⟩
      obtain ⟨old, kept⟩ := List.mem_filter.mp stored
      exact ⟨⟨a, old, rfl⟩, by simpa using kept⟩
    · rintro ⟨⟨a, old, rfl⟩, kept⟩
      exact ⟨a, List.mem_filter.mpr ⟨old, by simpa using kept⟩, rfl⟩
  · intro j edge here
    cases j <;> simp at here

theorem removeEdges (consistent : Consistent db) (edges : List GraphEdge) :
    Refines db (db.removeEdges edges) := by
  unfold GraphDatabase.removeEdges
  split
  · exact consistent.refines_error _
  · exact ⟨consistent.steps_retract _, rfl⟩

theorem insertEdge (consistent : Consistent db) (edge : GraphEdge) :
    Refines db (db.insertEdge edge) := by
  unfold GraphDatabase.insertEdge
  split
  · exact consistent.refines_error _
  · unfold GraphDatabase.endpoints
    cases source : db.indexMap.lookup edge.sourceId with
    | none => exact consistent.refines_error _
    | some s =>
      cases target : db.indexMap.lookup edge.targetId with
      | none => exact consistent.refines_error _
      | some t =>
        obtain ⟨db', added, steps, _, sameMode, _⟩ := Steps.addEdge consistent source target
        unfold Refines
        simp only [added]
        exact ⟨steps, sameMode⟩

theorem upsertEdge (consistent : Consistent db) (edge : GraphEdge) :
    Refines db (db.upsertEdge edge) := by
  unfold GraphDatabase.upsertEdge
  split
  · split
    · exact ⟨Steps.refl consistent, rfl⟩
    · exact consistent.insertEdge edge
  · exact consistent.insertEdge edge

private theorem takeEdge (consistent : Consistent db) (dropped : Nat) (edge : GraphEdge) :
    ∃ state, takeEdge (db, dropped) edge = some state ∧
      Steps db (([edge].filter fun e => db.hasNode e.sourceId && db.hasNode e.targetId).map
        .upsertEdge) state.1 ∧
      state.1.indexMap = db.indexMap ∧ state.1.readOnly = db.readOnly := by
  unfold GraphDatabase.takeEdge
  cases source : db.indexMap.lookup edge.sourceId with
  | none =>
    refine ⟨(db, dropped + 1), by simp [source], ?_, rfl, rfl⟩
    simpa [hasNode, source] using Steps.refl consistent
  | some s =>
    cases target : db.indexMap.lookup edge.targetId with
    | none =>
      refine ⟨({ db with pendingExternalEdges := db.pendingExternalEdges ++ [edge] },
        dropped), by simp [source, target], ?_, rfl, rfl⟩
      simp only [hasNode, source, target, Option.isSome_some, Option.isSome_none,
        Bool.and_false, Bool.false_eq_true, not_false_eq_true, List.filter_cons_of_neg,
        List.filter_nil, List.map_nil]
      exact Steps.silent consistent rfl rfl
    | some t =>
      have local_ : ([edge].filter fun e =>
          db.hasNode e.sourceId && db.hasNode e.targetId) = [edge] := by
        simp [hasNode, source, target]
      rw [local_]
      by_cases stored : db.edgeExists s t edge = true
      · refine ⟨(db, dropped), by simp [source, target, stored], ?_, rfl, rfl⟩
        exact Steps.storedEdge consistent
          ((consistent.edgeExists_iff source target).mp stored)
      · obtain ⟨db', added, steps, sameIds, sameMode, _⟩ :=
          Steps.addEdge consistent source target
        exact ⟨(db', dropped), by simp [source, target, stored, added], steps, sameIds,
          sameMode⟩

private theorem takeEdges (edges : List GraphEdge) :
    ∀ state : GraphDatabase × Nat, Consistent state.1 →
      ∃ final, edges.foldlM GraphDatabase.takeEdge state = some final ∧
        Steps state.1 ((edges.filter fun e =>
          state.1.hasNode e.sourceId && state.1.hasNode e.targetId).map .upsertEdge) final.1 ∧
        final.1.readOnly = state.1.readOnly := by
  induction edges with
  | nil => exact fun _ consistent => ⟨_, rfl, Steps.refl consistent, rfl⟩
  | cons edge rest ih =>
    intro state consistent
    obtain ⟨middle, step, first, sameIds, sameMode⟩ := consistent.takeEdge state.2 edge
    obtain ⟨final, run, later, sameMode'⟩ := ih middle first.consistent
    refine ⟨final, by simp [List.foldlM_cons, step, run], ?_, sameMode'.trans sameMode⟩
    have sameFilter : (rest.filter fun e =>
          middle.1.hasNode e.sourceId && middle.1.hasNode e.targetId) =
        rest.filter fun e => state.1.hasNode e.sourceId && state.1.hasNode e.targetId := by
      simp only [hasNode, sameIds]
    rw [sameFilter] at later
    have whole := first.trans later
    rw [← List.map_append, ← List.filter_append] at whole
    exact whole

theorem insertEdgesBatch (consistent : Consistent db) (edges : List GraphEdge) :
    Refines db (db.insertEdgesBatch edges) := by
  unfold GraphDatabase.insertEdgesBatch
  split
  · exact consistent.refines_error _
  · obtain ⟨final, run, steps, sameMode⟩ := takeEdges edges (db, 0) consistent
    unfold Refines
    simp only [run]
    exact ⟨steps, sameMode⟩

theorem endpoints_eq_ok {edge : GraphEdge} {slots : Nat × Nat}
    (resolved : db.endpoints edge = .ok slots) :
    db.indexMap.lookup edge.sourceId = some slots.1 ∧
      db.indexMap.lookup edge.targetId = some slots.2 := by
  unfold GraphDatabase.endpoints at resolved
  split at resolved
  · cases resolved
  next s source =>
      split at resolved
      · cases resolved
      next t target =>
          cases resolved
          exact ⟨source, target⟩

theorem steps_addAll (batch : List ((Nat × Nat) × GraphEdge)) :
    ∀ {db : GraphDatabase}, Consistent db →
      (∀ entry ∈ batch, db.endpoints entry.2 = .ok entry.1) →
        ∃ final, db.addAll batch = some final ∧
          Steps db (batch.map fun entry => .upsertEdge entry.2) final ∧
          final.readOnly = db.readOnly ∧ final.edges = db.edges ++ batch.map Prod.snd := by
  induction batch with
  | nil => exact fun consistent _ => ⟨_, rfl, Steps.refl consistent, rfl, by simp⟩
  | cons entry rest ih =>
    intro db consistent resolved
    obtain ⟨source, target⟩ := endpoints_eq_ok (resolved entry (by simp))
    obtain ⟨middle, added, first, sameIds, sameMode, newEdges⟩ :=
      Steps.addEdge consistent source target
    obtain ⟨final, run, later, sameMode', finalEdges⟩ := ih first.consistent (by
      intro other member
      have old := resolved other (by simp [member])
      unfold GraphDatabase.endpoints at old ⊢
      rw [sameIds]
      exact old)
    refine ⟨final, ?_, first.trans later, sameMode'.trans sameMode, ?_⟩
    · unfold GraphDatabase.addAll at run ⊢
      rw [List.foldlM_cons, added]
      exact run
    · rw [finalEdges, newEdges]
      simp

theorem upsertEdgesBatchStrict (consistent : Consistent db) (batch : List GraphEdge) :
    Refines db (db.upsertEdgesBatchStrict batch) := by
  unfold GraphDatabase.upsertEdgesBatchStrict
  split
  · exact consistent.refines_error _
  · split
    · exact ⟨Steps.refl consistent, rfl⟩
    · split
      · exact consistent.refines_error _
      next resolved done =>
          obtain ⟨_, each⟩ := Indexed.resolve_spec db batch done
          obtain ⟨final, run, steps, sameMode, _⟩ :=
            steps_addAll (db.newInBatch [] resolved) consistent (fun entry member =>
              each entry (Indexed.newInBatch_subset db resolved [] entry member))
          unfold Refines
          simp only [run]
          exact ⟨steps, sameMode⟩

end Consistent

end Lain.Graph
