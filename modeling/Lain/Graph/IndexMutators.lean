import Lain.Graph.Indexes

/-!
# Mutators keep the indexes

Every mutator of the store, started where the indexes agree with the nodes and
given canonical nodes, ends without a panic in a state where they agree again.
-/

namespace Lain.Graph

open Foundation GraphDatabase

variable {naming : Naming} {db : GraphDatabase}

def Naming.CanonicalOp (naming : Naming) : GraphOp → Prop
  | .upsertNode node => naming.Canonical node
  | _ => True

namespace Indexed

theorem upsertNode (indexed : Indexed naming db) {node : GraphNode}
    (canonical : naming.Canonical node) :
    (db.upsertNode node).outcome.All (Indexed naming) := by
  unfold GraphDatabase.upsertNode
  split
  · exact indexed
  · obtain ⟨db', put, kept⟩ := indexed.putNode canonical
    simp only [put]
    exact kept

theorem insertNodesBatch (indexed : Indexed naming db) {nodes : List GraphNode}
    (canonical : ∀ n ∈ nodes, naming.Canonical n) :
    (db.insertNodesBatch nodes).outcome.All (Indexed naming) := by
  unfold GraphDatabase.insertNodesBatch
  split
  · exact indexed
  · obtain ⟨db', put, kept⟩ := putNodes canonical indexed
    simp only [put]
    exact kept

private def cleaned (db : GraphDatabase) (ids : List String) : GraphDatabase :=
  let r := db.removeLocked ids
  removeCleanup { db with graph := r.graph } ids r.clearedPaths r.clearedNames

private theorem removeLocked_weight (ids : List String) (i : Nat) (n : GraphNode)
    (live : (db.removeLocked ids).graph.nodeWeight i = some n) :
    db.graph.nodeWeight i = some n := by
  induction ids using List.reverseRecOn with
  | nil => exact live
  | append_singleton ids id ih =>
    apply ih
    unfold removeLocked at live ⊢
    rw [List.foldl_append, List.foldl_cons, List.foldl_nil] at live
    generalize ids.foldl (Removal.remove db.indexMap) { graph := db.graph } = r at live ⊢
    unfold Removal.remove at live
    split at live
    · exact live
    · split at live
      · exact live
      · rw [StableGraph.nodeWeight_removeNode] at live
        split at live
        · cases live
        · exact live

private theorem cleaned_append (ids : List String) (id : String) :
    cleaned db (ids ++ [id]) =
      match db.indexMap.lookup id with
      | none => { cleaned db ids with indexMap := (cleaned db ids).indexMap.erase id }
      | some idx =>
        match (db.removeLocked ids).graph.nodeWeight idx with
        | none => { cleaned db ids with indexMap := (cleaned db ids).indexMap.erase id }
        | some node =>
          { cleaned db ids with
            graph := (cleaned db ids).graph.removeNode idx
            indexMap := (cleaned db ids).indexMap.erase id
            nameIndex := (cleaned db ids).nameIndex.drop node.name idx
            pathIndex := (cleaned db ids).pathIndex.drop node.path idx } := by
  unfold cleaned removeLocked removeCleanup
  simp only [List.foldl_append, List.foldl_cons, List.foldl_nil]
  generalize ids.foldl (Removal.remove db.indexMap) { graph := db.graph } = r
  unfold Removal.remove
  cases db.indexMap.lookup id with
  | none => rfl
  | some idx =>
    cases weight : r.graph.nodeWeight idx with
    | none => simp [weight]
    | some node => simp [weight, List.foldl_append]

private theorem cleaned_indexMap (ids : List String) (id : String) :
    (cleaned db ids).indexMap.lookup id =
      if id ∈ ids then none else db.indexMap.lookup id :=
  SlotMap.lookup_eraseAll ids db.indexMap id

private theorem cleaned_indexed (indexed : Indexed naming db) (ids : List String) :
    Indexed naming (cleaned db ids) := by
  induction ids using List.reverseRecOn with
  | nil => exact indexed
  | append_singleton ids id ih =>
    -- An id the cleaned map does not know is held by no slot, so erasing it is harmless.
    have forget : (cleaned db ids).indexMap.lookup id = none →
        Indexed naming
          { cleaned db ids with indexMap := (cleaned db ids).indexMap.erase id } := by
      intro absent
      refine ⟨⟨ih.aligned.canonical, ?_, ih.aligned.names⟩, ih.paths⟩
      intro k i
      by_cases same : k = id
      · subst same
        rw [AList.lookup_erase]
        have unheld := ih.aligned.ids.unheld absent i
        simp [unheld]
      · rw [AList.lookup_erase_ne same]
        exact ih.aligned.ids k i
    rw [cleaned_append]
    cases located : db.indexMap.lookup id with
    | none =>
      refine forget ?_
      rw [cleaned_indexMap, located]
      simp
    | some idx =>
      dsimp only
      cases weight : (db.removeLocked ids).graph.nodeWeight idx with
      | none =>
        refine forget ?_
        cases kept : (cleaned db ids).indexMap.lookup id with
        | none => rfl
        | some j =>
          have old : db.indexMap.lookup id = some j := by
            rw [cleaned_indexMap] at kept
            split at kept
            · cases kept
            · exact kept
          obtain rfl : idx = j := Option.some.inj (located.symm.trans old)
          obtain ⟨n, live, _⟩ := ih.aligned.live_of_lookup kept
          have gone : (cleaned db ids).graph.nodeWeight idx = none := weight
          rw [gone] at live
          cases live
      | some node =>
        have live : (cleaned db ids).graph.nodeWeight idx = some node := weight
        have sameId : node.id = id := by
          obtain ⟨n, original, named⟩ := indexed.aligned.live_of_lookup located
          rw [removeLocked_weight ids idx node weight] at original
          cases original
          exact named
        have removed := ih.removeOne live
        rw [sameId] at removed
        exact removed

theorem removeNodesByIds (indexed : Indexed naming db) (ids : List String) :
    (db.removeNodesByIds ids).outcome.All (Indexed naming) := by
  unfold GraphDatabase.removeNodesByIds
  split
  · exact indexed
  · exact cleaned_indexed indexed ids

theorem removeEdges (indexed : Indexed naming db) (edges : List GraphEdge) :
    (db.removeEdges edges).outcome.All (Indexed naming) := by
  unfold GraphDatabase.removeEdges
  split
  · exact indexed
  · exact indexed.congr (fun _ => rfl) rfl rfl rfl

theorem insertEdge (indexed : Indexed naming db) (edge : GraphEdge) :
    (db.insertEdge edge).outcome.All (Indexed naming) := by
  unfold GraphDatabase.insertEdge
  split
  · exact indexed
  · unfold GraphDatabase.endpoints
    cases source : db.indexMap.lookup edge.sourceId with
    | none => exact indexed
    | some s =>
      cases target : db.indexMap.lookup edge.targetId with
      | none => exact indexed
      | some t =>
        obtain ⟨db', added, kept, _⟩ := indexed.addEdge source target
        simp only [added]
        exact kept

theorem upsertEdge (indexed : Indexed naming db) (edge : GraphEdge) :
    (db.upsertEdge edge).outcome.All (Indexed naming) := by
  unfold GraphDatabase.upsertEdge
  split
  · split
    · exact indexed
    · exact indexed.insertEdge edge
  · exact indexed.insertEdge edge

private theorem takeEdge (indexed : Indexed naming db) (dropped : Nat) (edge : GraphEdge) :
    ∃ state, takeEdge (db, dropped) edge = some state ∧ Indexed naming state.1 := by
  unfold GraphDatabase.takeEdge
  cases source : db.indexMap.lookup edge.sourceId with
  | none => exact ⟨(db, dropped + 1), by simp [source], indexed⟩
  | some s =>
    cases target : db.indexMap.lookup edge.targetId with
    | none =>
      refine ⟨({ db with pendingExternalEdges := db.pendingExternalEdges ++ [edge] },
        dropped), by simp [source, target], ?_⟩
      exact indexed.congr (fun _ => rfl) rfl rfl rfl
    | some t =>
      by_cases exists_ : db.edgeExists s t edge = true
      · exact ⟨(db, dropped), by simp [source, target, exists_], indexed⟩
      · obtain ⟨db', added, kept, _⟩ := indexed.addEdge source target
        exact ⟨(db', dropped), by simp [source, target, exists_, added], kept⟩

private theorem takeEdges (edges : List GraphEdge) :
    ∀ state : GraphDatabase × Nat, Indexed naming state.1 →
      ∃ final, edges.foldlM GraphDatabase.takeEdge state = some final ∧
        Indexed naming final.1 := by
  induction edges with
  | nil => exact fun _ indexed => ⟨_, rfl, indexed⟩
  | cons edge rest ih =>
    intro state indexed
    obtain ⟨middle, step, kept⟩ := indexed.takeEdge state.2 edge
    obtain ⟨final, run, finally_⟩ := ih middle kept
    exact ⟨final, by simp [List.foldlM_cons, step, run], finally_⟩

theorem insertEdgesBatch (indexed : Indexed naming db) (edges : List GraphEdge) :
    (db.insertEdgesBatch edges).outcome.All (Indexed naming) := by
  unfold GraphDatabase.insertEdgesBatch
  split
  · exact indexed
  · obtain ⟨final, run, kept⟩ := takeEdges edges (db, 0) indexed
    simp only [run]
    exact kept

private theorem addAll (batch : List ((Nat × Nat) × GraphEdge)) :
    ∀ {db : GraphDatabase}, Indexed naming db →
      (∀ entry ∈ batch, db.endpoints entry.2 = .ok entry.1) →
        ∃ final, db.addAll batch = some final ∧ Indexed naming final := by
  induction batch with
  | nil => exact fun indexed _ => ⟨_, rfl, indexed⟩
  | cons entry rest ih =>
    intro db indexed resolved
    have slots := resolved entry (by simp)
    unfold GraphDatabase.endpoints at slots
    cases source : db.indexMap.lookup entry.2.sourceId with
    | none => simp [source] at slots
    | some s =>
      cases target : db.indexMap.lookup entry.2.targetId with
      | none => simp [source, target] at slots
      | some t =>
        simp only [source, target, Except.ok.injEq] at slots
        obtain ⟨middle, added, kept, sameIds⟩ := indexed.addEdge source target
        obtain ⟨final, run, finally_⟩ := ih kept (by
          intro other member
          have old := resolved other (by simp [member])
          unfold GraphDatabase.endpoints at old ⊢
          rw [sameIds]
          exact old)
        refine ⟨final, ?_, finally_⟩
        unfold GraphDatabase.addAll at run ⊢
        rw [List.foldlM_cons, ← slots, added]
        exact run

theorem newInBatch_subset (db : GraphDatabase) (batch : List ((Nat × Nat) × GraphEdge)) :
    ∀ seen, ∀ entry ∈ db.newInBatch seen batch, entry ∈ batch := by
  induction batch with
  | nil => intro seen entry member; exact member
  | cons head rest ih =>
    obtain ⟨⟨s, t⟩, edge⟩ := head
    intro seen entry member
    unfold newInBatch at member
    split at member
    · exact List.mem_cons_of_mem _ (ih _ entry member)
    · split at member
      · exact List.mem_cons_of_mem _ (ih _ entry member)
      · rcases List.mem_cons.mp member with rfl | later
        · simp
        · exact List.mem_cons_of_mem _ (ih _ entry later)

theorem resolve_spec (db : GraphDatabase) (batch : List GraphEdge) :
    ∀ {resolved}, db.resolve batch = .ok resolved →
      resolved.map Prod.snd = batch ∧
        ∀ entry ∈ resolved, db.endpoints entry.2 = .ok entry.1 := by
  induction batch with
  | nil =>
    intro resolved done
    cases done
    simp
  | cons edge rest ih =>
    intro resolved done
    unfold resolve at done
    split at done
    · cases done
    next slots found =>
        split at done
        · cases done
        next later tail =>
            cases done
            obtain ⟨edges, each⟩ := ih tail
            refine ⟨by simp [edges], ?_⟩
            intro entry member
            rcases List.mem_cons.mp member with rfl | old
            · exact found
            · exact each entry old

theorem upsertEdgesBatchStrict (indexed : Indexed naming db) (batch : List GraphEdge) :
    (db.upsertEdgesBatchStrict batch).outcome.All (Indexed naming) := by
  unfold GraphDatabase.upsertEdgesBatchStrict
  split
  · exact indexed
  · split
    · exact indexed
    · split
      · exact indexed
      next resolved done =>
          obtain ⟨_, each⟩ := resolve_spec db batch done
          obtain ⟨final, run, kept⟩ := addAll (db.newInBatch [] resolved) indexed
            (fun entry member => each entry (newInBatch_subset db resolved [] entry member))
          simp only [run]
          exact kept

theorem reset_iff (writable : db.readOnly = false) :
    db.reset.outcome.All (Indexed naming) ↔ ∀ name, db.nameIndex.bucket name = [] := by
  unfold GraphDatabase.reset
  rw [if_neg (by simp [writable])]
  constructor
  · intro kept name
    refine List.eq_nil_iff_forall_not_mem.mpr fun i member => ?_
    have held := ((kept.aligned.names name).2 i).mp member
    simp [slotKey] at held
  · intro cleared
    refine ⟨⟨by simp, SlotMap.Locates.empty (by simp [slotKey]), ?_⟩,
      SlotIndex.Indexes.empty (by simp [slotKey])⟩
    intro name
    have vacant : SlotIndex.bucket db.nameIndex name = [] := cleared name
    simp [slotKey, vacant]

end Indexed

end Lain.Graph
