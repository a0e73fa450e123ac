import Lain.Graph.RefineMutators

/-!
# What the mutators of edges leave

The federation reads a graph as the payload of every id and the list of stored
edges.
-/

namespace Lain.Graph

open Foundation GraphDatabase

def freshEdges : List EdgeKey → List GraphEdge → List GraphEdge
  | _, [] => []
  | known, edge :: rest =>
    if edgeIdentityKey edge ∈ known then freshEdges known rest
    else edge :: freshEdges (edgeIdentityKey edge :: known) rest

theorem freshEdges_subset {known : List EdgeKey} {batch : List GraphEdge} :
    ∀ e ∈ freshEdges known batch, e ∈ batch := by
  induction batch generalizing known with
  | nil => exact fun e member => member
  | cons edge rest ih =>
    intro e member
    rw [freshEdges] at member
    split at member
    · exact List.mem_cons_of_mem _ (ih e member)
    · rcases List.mem_cons.mp member with rfl | later
      · exact List.mem_cons_self
      · exact List.mem_cons_of_mem _ (ih e later)

theorem mem_freshEdges_keys {known : List EdgeKey} {batch : List GraphEdge} {key : EdgeKey} :
    key ∈ (freshEdges known batch).map edgeIdentityKey ↔
      key ∈ batch.map edgeIdentityKey ∧ key ∉ known := by
  induction batch generalizing known with
  | nil => simp [freshEdges]
  | cons edge rest ih =>
    rw [freshEdges]
    split
    next here =>
        rw [ih, List.map_cons, List.mem_cons]
        constructor
        · exact fun ⟨member, unknown⟩ => ⟨Or.inr member, unknown⟩
        · rintro ⟨rfl | member, unknown⟩
          · exact absurd here unknown
          · exact ⟨member, unknown⟩
    next fresh =>
        rw [List.map_cons, List.mem_cons, ih, List.map_cons, List.mem_cons, List.mem_cons,
          not_or]
        constructor
        · rintro (rfl | ⟨member, _, unknown⟩)
          · exact ⟨Or.inl rfl, fresh⟩
          · exact ⟨Or.inr member, unknown⟩
        · rintro ⟨rfl | member, unknown⟩
          · exact Or.inl rfl
          · by_cases same : key = edgeIdentityKey edge
            · exact Or.inl same
            · exact Or.inr ⟨member, same, unknown⟩

theorem freshEdges_eq_self {known : List EdgeKey} {batch : List GraphEdge}
    (once : (batch.map edgeIdentityKey).Nodup)
    (unknown : ∀ e ∈ batch, edgeIdentityKey e ∉ known) : freshEdges known batch = batch := by
  induction batch generalizing known with
  | nil => rfl
  | cons edge rest ih =>
    rw [List.map_cons, List.nodup_cons] at once
    rw [freshEdges, if_neg (unknown edge List.mem_cons_self), ih once.2]
    intro e member
    rw [List.mem_cons, not_or]
    refine ⟨fun same => once.1 ?_, unknown e (List.mem_cons_of_mem _ member)⟩
    rw [← same]
    exact List.mem_map_of_mem member

def GraphDatabase.storedKeys (db : GraphDatabase) : List EdgeKey :=
  db.edges.map edgeIdentityKey

structure EdgesBecome (db : GraphDatabase) (edges : List GraphEdge) (db' : GraphDatabase) :
    Prop where
  consistent : Consistent db'
  mode : db'.readOnly = db.readOnly
  nodes : ∀ id, db'.getNode id = db.getNode id
  edges : db'.edges = edges

namespace Consistent

variable {db : GraphDatabase}

theorem mem_storedKeys (key : EdgeKey) : key ∈ db.storedKeys ↔ key ∈ (viewOf db).edges := by
  unfold storedKeys GraphDatabase.edges StableGraph.edgeWeights
  rw [List.map_map, List.mem_map]
  rfl

private theorem view_nodes_upserts (batch : List GraphEdge) (v : View) :
    ((batch.map GraphOp.upsertEdge).foldl View.apply v).nodes = v.nodes := by
  induction batch generalizing v with
  | nil => rfl
  | cons edge rest ih =>
    rw [List.map_cons, List.foldl_cons, ih]
    rfl

theorem retract_edges (consistent : Consistent db)
    (endpoints : List (String × String × EdgeType)) :
    EdgesBecome db (db.edges.filter fun e => !endpoints.contains e.triple)
      (db.retract endpoints) where
  consistent := (consistent.steps_retract endpoints).consistent
  mode := rfl
  nodes := fun _ => rfl
  edges := by
    unfold GraphDatabase.edges StableGraph.edgeWeights retract
    rw [StableGraph.arcs_retainEdges, List.filter_map]
    rfl

private theorem map_newInBatch (consistent : Consistent db)
    (resolved : List ((Nat × Nat) × GraphEdge)) :
    ∀ seen known : List EdgeKey,
      (∀ entry ∈ resolved, db.endpoints entry.2 = .ok entry.1) →
      (∀ key, key ∈ known ↔ key ∈ seen ∨ key ∈ db.storedKeys) →
        (db.newInBatch seen resolved).map Prod.snd =
          freshEdges known (resolved.map Prod.snd) := by
  induction resolved with
  | nil => exact fun _ _ _ _ => rfl
  | cons entry rest ih =>
    intro seen known each same
    obtain ⟨⟨s, t⟩, edge⟩ := entry
    obtain ⟨source, target⟩ := endpoints_eq_ok (each _ List.mem_cons_self)
    have later : ∀ entry ∈ rest, db.endpoints entry.2 = .ok entry.1 := fun entry member =>
      each entry (List.mem_cons_of_mem _ member)
    have exists_iff := consistent.edgeExists_iff source target
    rw [← mem_storedKeys] at exists_iff
    rw [newInBatch, List.map_cons, freshEdges]
    by_cases repeated : edgeIdentityKey edge ∈ seen
    · rw [if_pos repeated, if_pos ((same _).mpr (Or.inl repeated))]
      exact ih seen known later same
    · rw [if_neg repeated]
      by_cases stored : edgeIdentityKey edge ∈ db.storedKeys
      · rw [if_pos (exists_iff.mpr stored), if_pos ((same _).mpr (Or.inr stored))]
        refine ih _ known later fun key => ?_
        rw [same, List.mem_cons]
        constructor
        · exact fun h => h.imp_left Or.inr
        · rintro ((rfl | old) | old)
          · exact Or.inr stored
          · exact Or.inl old
          · exact Or.inr old
      · have unknown : edgeIdentityKey edge ∉ known := fun h =>
          ((same _).mp h).elim repeated stored
        rw [if_neg fun h => stored (exists_iff.mp h), if_neg unknown, List.map_cons]
        refine congrArg _ (ih _ _ later fun key => ?_)
        rw [List.mem_cons, List.mem_cons, same, or_assoc]

/-- **A strict batch** appends the edges that are new, or fails and changes nothing. -/
theorem upsertEdgesBatchStrict_spec (consistent : Consistent db) (batch : List GraphEdge) :
    (∃ db', (db.upsertEdgesBatchStrict batch).outcome = .ok db' () ∧
      EdgesBecome db (db.edges ++ freshEdges db.storedKeys batch) db') ∨
    ∃ reason, (db.upsertEdgesBatchStrict batch).outcome = .error db reason := by
  unfold GraphDatabase.upsertEdgesBatchStrict
  split
  · exact Or.inr ⟨_, rfl⟩
  · split
    next empty =>
        rw [List.isEmpty_iff.mp empty]
        exact Or.inl ⟨db, rfl, consistent, rfl, fun _ => rfl, (List.append_nil _).symm⟩
    · cases done : db.resolve batch with
      | error reason => exact Or.inr ⟨reason, rfl⟩
      | ok resolved =>
        obtain ⟨whole, each⟩ := Indexed.resolve_spec db batch done
        obtain ⟨final, run, steps, sameMode, finalEdges⟩ :=
          steps_addAll (db.newInBatch [] resolved) consistent fun entry member =>
            each entry (Indexed.newInBatch_subset db resolved [] entry member)
        have fresh := consistent.map_newInBatch resolved [] db.storedKeys each (by simp)
        rw [whole] at fresh
        refine Or.inl ⟨final, by simp [run, settle], steps.consistent, sameMode,
          fun id => ?_, ?_⟩
        · have logged : (db.newInBatch [] resolved).map (fun entry => GraphOp.upsertEdge entry.2) =
              ((db.newInBatch [] resolved).map Prod.snd).map .upsertEdge := by
            rw [List.map_map]
            rfl
          have view := congrArg View.nodes steps.view
          rw [logged, view_nodes_upserts] at view
          exact congrFun view id
        · rw [finalEdges, fresh]

end Consistent

end Lain.Graph
