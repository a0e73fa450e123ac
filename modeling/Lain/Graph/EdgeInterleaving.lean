import Mathlib
import Lain.Graph.Interleaving

/-!
# Edge insertions beside other writers

`upsertEdge` looks for an edge of the same identity under the read lock, releases it, and inserts
under the write lock without looking again; `replaceSensorOutput` takes the write lock three
times.
-/

namespace Lain.Graph

open Foundation GraphDatabase

inductive SensorRest where
  | nodes (nodes : List GraphNode) (edges : List GraphEdge)
  | edges (edges : List GraphEdge)

def SensorRest.fresh : SensorRest → List GraphNode
  | .nodes fresh _ => fresh
  | .edges _ => []

structure EdgeWorld extends World where
  /-- The edges of upserts that have passed their check. -/
  inserts : List GraphEdge := []
  sensors : List SensorRest := []

/-- The locked sections, and the index accesses of removals. -/
inductive EdgeWorld.Event where
  | nodes (event : World.Event)
  | checkEdge (edge : GraphEdge)
  | insertEdge (upsert : Nat)
  | insertEdgesBatch (edges : List GraphEdge)
  | upsertEdgesBatchStrict (batch : List GraphEdge)
  | removeEdges (edges : List GraphEdge)
  | replaceNodesForPaths (paths : List String) (nodes : List GraphNode)
  | retractOwned (owner : SensorOwner) (nodes : List GraphNode) (edges : List GraphEdge)
  | continueSensor (sensor : Nat)

namespace EdgeWorld

def withDb (w : EdgeWorld) (db : GraphDatabase) : EdgeWorld :=
  { w with db }

def checkEdge (w : EdgeWorld) (edge : GraphEdge) : EdgeWorld :=
  match w.db.endpoints edge with
  | .ok (source, target) =>
    if w.db.edgeExists source target edge then w
    else { w with inserts := w.inserts ++ [edge] }
  | .error _ => { w with inserts := w.inserts ++ [edge] }

/-- Take a step; a call that panics takes none. -/
def step (w : EdgeWorld) : Event → Option EdgeWorld
  | .nodes event => (w.toWorld.step event).map fun world => { w with toWorld := world }
  | .checkEdge edge => some (w.checkEdge edge)
  | .insertEdge upsert =>
    match w.inserts[upsert]? with
    | none => none
    | some edge =>
      (w.db.insertEdge edge).outcome.after.map fun db =>
        { w.withDb db with inserts := w.inserts.eraseIdx upsert }
  | .insertEdgesBatch edges => (w.db.insertEdgesBatch edges).outcome.after.map w.withDb
  | .upsertEdgesBatchStrict batch =>
    (w.db.upsertEdgesBatchStrict batch).outcome.after.map w.withDb
  | .removeEdges edges => (w.db.removeEdges edges).outcome.after.map w.withDb
  | .replaceNodesForPaths paths nodes =>
    (w.db.replaceNodesForPaths paths nodes).outcome.after.map w.withDb
  | .retractOwned owner nodes edges =>
    if w.db.readOnly then some w
    else
      some
        { w.withDb (w.db.retractOwned owner).1 with
          sensors := w.sensors ++ [.nodes nodes edges] }
  | .continueSensor sensor =>
    match w.sensors[sensor]? with
    | none => none
    | some (.nodes nodes edges) =>
      (if nodes.isEmpty then some w.db
        else (w.db.insertNodesBatch nodes).outcome.after).map fun db =>
        { w.withDb db with sensors := w.sensors.set sensor (.edges edges) }
    | some (.edges edges) =>
      (if edges.isEmpty then some w.db
        else (w.db.insertEdgesBatch edges).outcome.after).map fun db =>
        { w.withDb db with sensors := w.sensors.eraseIdx sensor }

end EdgeWorld

/-- No two stored edges have one identity. -/
def GraphDatabase.EdgesUnique (db : GraphDatabase) : Prop :=
  (db.edges.map edgeIdentityKey).Nodup

instance edgesUniqueDecidable (db : GraphDatabase) : Decidable db.EdgesUnique :=
  inferInstanceAs (Decidable (List.Nodup _))

/-- An insertion of a node that leaves every id with one slot: the id is not to be forgotten,
and no id leads to the slot it takes. -/
structure Placed (cleanups : List Cleanup) (indexMap : SlotMap String)
    (graph : StableGraph GraphNode GraphEdge) (node : GraphNode) : Prop where
  id : ∀ c ∈ cleanups, node.id ∉ c.ids
  slot : indexMap.lookup node.id = none →
    ∀ entry ∈ indexMap.entries, entry.2 ≠ graph.nextIndex

instance placedDecidable (cleanups : List Cleanup) (indexMap : SlotMap String)
    (graph : StableGraph GraphNode GraphEdge) (node : GraphNode) :
    Decidable (Placed cleanups indexMap graph node) :=
  decidable_of_iff (_ ∧ _)
    ⟨fun placed => ⟨placed.1, placed.2⟩, fun placed => ⟨placed.id, placed.slot⟩⟩

def PlacedAll (cleanups : List Cleanup) : GraphDatabase → List GraphNode → Prop
  | _, [] => True
  | db, node :: rest =>
    Placed cleanups db.indexMap db.graph node ∧
      match db.putNode node with
      | none => True
      | some db' => PlacedAll cleanups db' rest

instance placedAllDecidable (cleanups : List Cleanup) :
    (db : GraphDatabase) → (nodes : List GraphNode) → Decidable (PlacedAll cleanups db nodes)
  | _, [] => .isTrue trivial
  | db, node :: rest =>
    @instDecidableAnd _ _ (placedDecidable cleanups db.indexMap db.graph node)
      (match db.putNode node with
      | none => .isTrue trivial
      | some db' => placedAllDecidable cleanups db' rest)

def PlacedFresh (cleanups : List Cleanup) : Replacement × List Nat → List GraphNode → Prop
  | _, [] => True
  | state, node :: rest =>
    Placed cleanups state.1.indexMap state.1.graph node ∧
      PlacedFresh cleanups (Replacement.addFresh state node) rest

instance placedFreshDecidable (cleanups : List Cleanup) :
    (state : Replacement × List Nat) → (nodes : List GraphNode) →
      Decidable (PlacedFresh cleanups state nodes)
  | _, [] => .isTrue trivial
  | state, node :: rest =>
    @instDecidableAnd _ _ (placedDecidable cleanups state.1.indexMap state.1.graph node)
      (placedFreshDecidable cleanups (Replacement.addFresh state node) rest)

def PlacedPaths (cleanups : List Cleanup) (pathIndex : SlotIndex String)
    (replacedPaths : List String) (nodes : List GraphNode) :
    Replacement → List String → Prop
  | _, [] => True
  | r, path :: rest =>
    PlacedFresh cleanups
        ((pathIndex.bucket path).foldl (Replacement.dropOld replacedPaths false) (r, []))
        (Replacement.firstOfId [] (nodes.filter fun node => decide (node.path = path))) ∧
      PlacedPaths cleanups pathIndex replacedPaths nodes
        (Replacement.replacePath pathIndex replacedPaths nodes false r path) rest

instance placedPathsDecidable (cleanups : List Cleanup) (pathIndex : SlotIndex String)
    (replacedPaths : List String) (nodes : List GraphNode) :
    (r : Replacement) → (paths : List String) →
      Decidable (PlacedPaths cleanups pathIndex replacedPaths nodes r paths)
  | _, [] => .isTrue trivial
  | r, path :: rest =>
    @instDecidableAnd _ _ (placedFreshDecidable cleanups _ _)
      (placedPathsDecidable cleanups pathIndex replacedPaths nodes
        (Replacement.replacePath pathIndex replacedPaths nodes false r path) rest)

namespace EdgeWorld

/-- A step that inserts no edge that has appeared since it was checked, and places its nodes. -/
def Event.Settled (w : EdgeWorld) : Event → Prop
  | .nodes event => PlacedAll w.cleanups w.db event.nodes
  | .insertEdge upsert =>
    ∀ edge ∈ w.inserts[upsert]?, edgeIdentityKey edge ∉ w.db.edges.map edgeIdentityKey
  | .replaceNodesForPaths paths fresh =>
    PlacedPaths w.cleanups w.db.pathIndex paths fresh
      { graph := w.db.graph, indexMap := w.db.indexMap, nameIndex := w.db.nameIndex }
      (paths.dedup.mergeSort fun a b => decide (a ≤ b))
  | .continueSensor sensor =>
    ∀ rest ∈ w.sensors[sensor]?, PlacedAll w.cleanups w.db rest.fresh
  | _ => True

instance settledDecidable (w : EdgeWorld) : (event : Event) → Decidable (event.Settled w)
  | .nodes event => placedAllDecidable w.cleanups w.db event.nodes
  | .insertEdge upsert =>
    inferInstanceAs (Decidable (∀ edge ∈ w.inserts[upsert]?,
      edgeIdentityKey edge ∉ w.db.edges.map edgeIdentityKey))
  | .replaceNodesForPaths _ _ => placedPathsDecidable _ _ _ _ _ _
  | .continueSensor sensor =>
    inferInstanceAs (Decidable (∀ rest ∈ w.sensors[sensor]?,
      PlacedAll w.cleanups w.db rest.fresh))
  | .checkEdge _ => .isTrue trivial
  | .insertEdgesBatch _ => .isTrue trivial
  | .upsertEdgesBatchStrict _ => .isTrue trivial
  | .removeEdges _ => .isTrue trivial
  | .retractOwned _ _ _ => .isTrue trivial

end EdgeWorld

structure IdsLead (cleanups : List Cleanup) (indexMap : SlotMap String)
    (graph : StableGraph GraphNode GraphEdge) : Prop where
  located : ∀ id i, slotKey graph GraphNode.id i = some id → indexMap.lookup id = some i
  unforgotten : ∀ id i, slotKey graph GraphNode.id i = some id → ∀ c ∈ cleanups, id ∉ c.ids
  led : ∀ id i, indexMap.lookup id = some i →
    slotKey graph GraphNode.id i = some id ∨
      slotKey graph GraphNode.id i = none ∧ ∃ c ∈ cleanups, id ∈ c.ids

structure ArcsNamed (graph : StableGraph GraphNode GraphEdge) : Prop where
  anchored : ∀ a ∈ graph.arcs,
    slotKey graph GraphNode.id a.source = some a.weight.sourceId ∧
      slotKey graph GraphNode.id a.target = some a.weight.targetId
  unique : (graph.edgeWeights.map edgeIdentityKey).Nodup

namespace ArcsNamed

variable {graph graph' : StableGraph GraphNode GraphEdge}

theorem shrink (named : ArcsNamed graph) (fewer : graph'.arcs.Sublist graph.arcs)
    (left : ∀ i n, graph'.nodeWeight i = some n → graph.nodeWeight i = some n) :
    ArcsNamed graph' where
  anchored := by
    intro a member
    obtain ⟨source, target⟩ := named.anchored a (fewer.subset member)
    obtain ⟨m, sourceLive⟩ := StableGraph.arc_source_live member
    obtain ⟨n, targetLive⟩ := StableGraph.arc_target_live member
    refine ⟨?_, ?_⟩
    · simpa [slotKey, sourceLive, left _ _ sourceLive] using source
    · simpa [slotKey, targetLive, left _ _ targetLive] using target
  unique := ((fewer.map Arc.weight).map edgeIdentityKey).nodup named.unique

theorem congr (named : ArcsNamed graph) (same : graph'.arcs = graph.arcs)
    (ids : ∀ i n, graph.nodeWeight i = some n →
      slotKey graph' GraphNode.id i = slotKey graph GraphNode.id i) :
    ArcsNamed graph' where
  anchored := by
    intro a member
    rw [same] at member
    obtain ⟨m, sourceLive⟩ := StableGraph.arc_source_live member
    obtain ⟨n, targetLive⟩ := StableGraph.arc_target_live member
    rw [ids _ m sourceLive, ids _ n targetLive]
    exact named.anchored a member
  unique := by
    unfold StableGraph.edgeWeights
    rw [same]
    exact named.unique

end ArcsNamed

namespace IdsLead

variable {cleanups : List Cleanup} {indexMap : SlotMap String}
  {graph graph' : StableGraph GraphNode GraphEdge}

theorem congr (ids : IdsLead cleanups indexMap graph)
    (same : ∀ i, slotKey graph' GraphNode.id i = slotKey graph GraphNode.id i) :
    IdsLead cleanups indexMap graph' where
  located := fun id i held => ids.located id i (same i ▸ held)
  unforgotten := fun id i held => ids.unforgotten id i (same i ▸ held)
  led := fun id i located => (same i).symm ▸ ids.led id i located

theorem key_of_live (ids : IdsLead cleanups indexMap graph) {id : String} {i : Nat}
    {n : GraphNode} (located : indexMap.lookup id = some i)
    (live : graph.nodeWeight i = some n) : n.id = id := by
  rcases ids.led id i located with held | ⟨gone, _⟩
  · simpa [slotKey, live] using held
  · simp [slotKey, live] at gone

theorem add (ids : IdsLead cleanups indexMap graph) {node : GraphNode}
    (placed : Placed cleanups indexMap graph node) (fresh : indexMap.lookup node.id = none) :
    IdsLead cleanups (indexMap.insert node.id graph.nextIndex) (graph.addNode node) := by
  obtain ⟨vacant, filled, others⟩ := Aligned.slotKey_addNode graph GraphNode.id node
  refine ⟨?_, ?_, ?_⟩
  · intro id i held
    by_cases here : i = graph.nextIndex
    · subst here
      obtain rfl : node.id = id := Option.some.inj (filled.symm.trans held)
      exact AList.lookup_insert _
    · have old := ids.located id i (others i here ▸ held)
      have apart : id ≠ node.id := by
        rintro rfl
        rw [fresh] at old
        cases old
      exact (AList.lookup_insert_ne apart).trans old
  · intro id i held c member
    by_cases here : i = graph.nextIndex
    · subst here
      obtain rfl : node.id = id := Option.some.inj (filled.symm.trans held)
      exact placed.id c member
    · exact ids.unforgotten id i (others i here ▸ held) c member
  · intro id i found
    by_cases same : id = node.id
    · subst same
      obtain rfl := Option.some.inj ((AList.lookup_insert _).symm.trans found)
      exact .inl filled
    · have old := (AList.lookup_insert_ne same).symm.trans found
      have apart : i ≠ graph.nextIndex :=
        placed.slot fresh ⟨id, i⟩ (AList.mem_lookup_iff.mp old)
      rw [others i apart]
      exact ids.led id i old

theorem held_of_known (ids : IdsLead cleanups indexMap graph) {node : GraphNode}
    (placed : Placed cleanups indexMap graph node) {i : Nat}
    (known : indexMap.lookup node.id = some i) :
    ∃ existing, graph.nodeWeight i = some existing ∧ existing.id = node.id := by
  rcases ids.led node.id i known with held | ⟨_, c, member, forgotten⟩
  · exact slotKey_eq_some.mp held
  · exact absurd forgotten (placed.id c member)

theorem drop (ids : IdsLead cleanups indexMap graph) {i : Nat} {n : GraphNode}
    (live : graph.nodeWeight i = some n) :
    IdsLead cleanups (indexMap.erase n.id) (graph.removeNode i) := by
  obtain ⟨vacated, others⟩ := Aligned.slotKey_removeNode graph GraphNode.id i
  have here : slotKey graph GraphNode.id i = some n.id := slotKey_eq_some.mpr ⟨n, live, rfl⟩
  have apart : ∀ j id, slotKey (graph.removeNode i) GraphNode.id j = some id → j ≠ i := by
    rintro j id held rfl
    rw [vacated] at held
    cases held
  refine ⟨?_, ?_, ?_⟩
  · intro id j held
    have old := others j (apart j id held) ▸ held
    have other : id ≠ n.id := by
      rintro rfl
      have same := (ids.located _ _ old).symm.trans (ids.located _ _ here)
      exact apart j n.id held (Option.some.inj same)
    exact (AList.lookup_erase_ne other).trans (ids.located id j old)
  · exact fun id j held => ids.unforgotten id j (others j (apart j id held) ▸ held)
  · intro id j found
    have other : id ≠ n.id := by
      rintro rfl
      rw [AList.lookup_erase] at found
      cases found
    rw [AList.lookup_erase_ne other] at found
    by_cases same : j = i
    · subst same
      exact absurd (ids.key_of_live found live).symm other
    · rw [others j same]
      exact ids.led id j found

theorem remove {db : GraphDatabase} (ids : IdsLead cleanups db.indexMap db.graph)
    {removed : List String} {r : Removal} (vacates : Vacates db removed r)
    (paths names : Unfiling String) :
    IdsLead (cleanups ++ [⟨removed, paths, names⟩]) db.indexMap r.graph := by
  have held : ∀ i id, slotKey r.graph GraphNode.id i = some id →
      slotKey db.graph GraphNode.id i = some id ∧ ¬ Leads db removed i := by
    intro i id here
    obtain ⟨n, weight, named⟩ := slotKey_eq_some.mp here
    have other : ¬ Leads db removed i := by
      intro led
      rw [vacates.gone i led] at weight
      cases weight
    exact ⟨slotKey_eq_some.mpr ⟨n, (vacates.left i other).symm.trans weight, named⟩, other⟩
  refine ⟨fun id i here => ids.located id i (held i id here).1, ?_, ?_⟩
  · intro id i here c member
    obtain ⟨old, other⟩ := held i id here
    rcases List.mem_append.mp member with earlier | new
    · exact ids.unforgotten id i old c earlier
    · obtain rfl := List.mem_singleton.mp new
      exact fun listed => other ⟨id, listed, ids.located id i old⟩
  · intro id i found
    by_cases led : Leads db removed i
    · have gone : slotKey r.graph GraphNode.id i = none := by
        simp [slotKey, vacates.gone i led]
      refine .inr ⟨gone, ?_⟩
      rcases ids.led id i found with old | ⟨_, c, member, forgotten⟩
      · obtain ⟨other, listed, leads⟩ := led
        obtain ⟨n, weight, named⟩ := slotKey_eq_some.mp old
        obtain rfl : other = id := (ids.key_of_live leads weight).symm.trans named
        exact ⟨_, List.mem_append_right _ (List.mem_singleton_self _), listed⟩
      · exact ⟨c, List.mem_append_left _ member, forgotten⟩
    · have same : slotKey r.graph GraphNode.id i = slotKey db.graph GraphNode.id i := by
        simp [slotKey, vacates.left i led]
      rw [same]
      rcases ids.led id i found with old | ⟨gone, c, member, forgotten⟩
      · exact Or.inl old
      · exact Or.inr ⟨gone, c, List.mem_append_left _ member, forgotten⟩

theorem clean {db db' : GraphDatabase} {before after : List Cleanup} {c c' : Cleanup}
    (ids : IdsLead (before ++ c :: after) db.indexMap db.graph)
    (moved : c.next db = some (db', c')) :
    IdsLead (before ++ c' :: after) db'.indexMap db'.graph := by
  have mine : c ∈ before ++ c :: after := by simp
  obtain ⟨sameGraph, effect⟩ := Cleanup.next_ids moved
  have fewer : ∀ id ∈ c'.ids, id ∈ c.ids := by
    intro id listed
    rcases effect with ⟨_, shape, _⟩ | ⟨same, _⟩
    · exact shape ▸ List.mem_cons_of_mem _ listed
    · exact same ▸ listed
  rw [sameGraph]
  refine ⟨?_, ?_, ?_⟩
  · intro id i held
    have old := ids.located id i held
    rcases effect with ⟨gone, shape, erased⟩ | ⟨_, same⟩
    · have apart : id ≠ gone := by
        rintro rfl
        exact ids.unforgotten id i held c mine (by simp [shape])
      rw [erased, AList.lookup_erase_ne apart]
      exact old
    · exact same ▸ old
  · intro id i held d member
    rcases mem_replaced (b := c) member with rfl | there
    · exact fun listed => ids.unforgotten id i held c mine (fewer id listed)
    · exact ids.unforgotten id i held d there
  · intro id i found
    have old : db.indexMap.lookup id = some i ∧ (id ∈ c.ids → id ∈ c'.ids) := by
      rcases effect with ⟨gone, shape, erased⟩ | ⟨same, unchanged⟩
      · have apart : id ≠ gone := by
          rintro rfl
          rw [erased, AList.lookup_erase] at found
          cases found
        rw [erased, AList.lookup_erase_ne apart] at found
        exact ⟨found, fun listed => (List.mem_cons.mp (shape ▸ listed)).resolve_left apart⟩
      · exact ⟨unchanged ▸ found, fun listed => same.symm ▸ listed⟩
    refine (ids.led id i old.1).imp_right fun ⟨vacant, d, member, forgotten⟩ => ?_
    rcases mem_replaced (b := c') member with rfl | there
    · exact ⟨vacant, c', by simp, old.2 forgotten⟩
    · exact ⟨vacant, d, there, forgotten⟩

end IdsLead

private theorem arcs_removeNode_sublist (graph : StableGraph GraphNode GraphEdge) (i : Nat) :
    (graph.removeNode i).arcs.Sublist graph.arcs := by
  unfold StableGraph.removeNode
  split
  · exact List.filter_sublist
  · exact List.Sublist.refl _

section Edges

variable {cleanups : List Cleanup} {indexMap : SlotMap String}
  {graph graph' : StableGraph GraphNode GraphEdge} {db db' : GraphDatabase}

theorem ArcsNamed.unstored (named : ArcsNamed graph) (ids : IdsLead cleanups indexMap graph)
    {edge : GraphEdge} {s t : Nat} (source : indexMap.lookup edge.sourceId = some s)
    (target : indexMap.lookup edge.targetId = some t)
    (apart : ∀ a ∈ graph.edgesConnecting s t, sameEdgeIdentity a.weight edge = false) :
    edgeIdentityKey edge ∉ graph.edgeWeights.map edgeIdentityKey := by
  intro stored
  obtain ⟨weight, member, sameKey⟩ := List.mem_map.mp stored
  obtain ⟨a, arc, rfl⟩ := List.mem_map.mp member
  obtain ⟨sourceId, targetId, same⟩ := (edgeIdentityKey_eq_iff _ _).mp sameKey
  obtain ⟨fromSource, toTarget⟩ := named.anchored a arc
  have sourceSlot := ids.located _ _ (sourceId ▸ fromSource)
  have targetSlot := ids.located _ _ (targetId ▸ toTarget)
  have connects : a ∈ graph.edgesConnecting s t :=
    StableGraph.mem_edgesConnecting.mpr ⟨arc, Option.some.inj (sourceSlot.symm.trans source),
      Option.some.inj (targetSlot.symm.trans target)⟩
  rw [apart a connects] at same
  cases same

theorem ArcsNamed.addEdge (named : ArcsNamed graph) (ids : IdsLead cleanups indexMap graph)
    {edge : GraphEdge} {s t : Nat} (source : indexMap.lookup edge.sourceId = some s)
    (target : indexMap.lookup edge.targetId = some t)
    (new : edgeIdentityKey edge ∉ graph.edgeWeights.map edgeIdentityKey)
    (added : graph.addEdge s t edge = some graph') :
    ArcsNamed graph' ∧ IdsLead cleanups indexMap graph' ∧
      graph'.edgeWeights = graph.edgeWeights ++ [edge] := by
  obtain ⟨sameNodes, arcs⟩ := StableGraph.addEdge_eq_some added
  have sameKeys : ∀ i, slotKey graph' GraphNode.id i = slotKey graph GraphNode.id i :=
    fun i => by simp [slotKey, sameNodes i]
  have weights : graph'.edgeWeights = graph.edgeWeights ++ [edge] := by
    simp [StableGraph.edgeWeights, arcs]
  have mine : (⟨s, t, edge⟩ : Arc GraphEdge) ∈ graph'.arcs := by simp [arcs]
  obtain ⟨m, sourceLive⟩ := StableGraph.arc_source_live mine
  obtain ⟨n, targetLive⟩ := StableGraph.arc_target_live mine
  refine ⟨⟨?_, ?_⟩, ids.congr sameKeys, weights⟩
  · intro a member
    rw [sameKeys, sameKeys]
    rw [arcs] at member
    rcases List.mem_append.mp member with old | here
    · exact named.anchored a old
    · obtain rfl := List.mem_singleton.mp here
      have sourceId := ids.key_of_live source ((sameNodes s).symm.trans sourceLive)
      have targetId := ids.key_of_live target ((sameNodes t).symm.trans targetLive)
      exact ⟨slotKey_eq_some.mpr ⟨m, (sameNodes s).symm.trans sourceLive, sourceId⟩,
        slotKey_eq_some.mpr ⟨n, (sameNodes t).symm.trans targetLive, targetId⟩⟩
  · rw [weights, List.map_append]
    exact named.unique.append (List.nodup_singleton _) (List.disjoint_singleton.mpr new)

structure Anchored (cleanups : List Cleanup) (db : GraphDatabase) : Prop where
  ids : IdsLead cleanups db.indexMap db.graph
  arcs : ArcsNamed db.graph

namespace Anchored

theorem of_consistent (consistent : Consistent db) (unique : db.EdgesUnique) :
    Anchored [] db where
  ids :=
    { located := fun id i held => (consistent.ids id i).mpr held
      unforgotten := fun id i _ c member => by cases member
      led := fun id i located => .inl ((consistent.ids id i).mp located) }
  arcs := ⟨consistent.anchored, unique⟩

theorem addEdge (anchored : Anchored cleanups db) {edge : GraphEdge} {s t : Nat}
    (slots : db.endpoints edge = .ok (s, t))
    (new : edgeIdentityKey edge ∉ db.edges.map edgeIdentityKey)
    (added : db.addEdge s t edge = some db') :
    Anchored cleanups db' ∧ db'.indexMap = db.indexMap ∧ db'.edges = db.edges ++ [edge] := by
  obtain ⟨graph, stored, rfl⟩ := Option.map_eq_some_iff.mp added
  obtain ⟨source, target⟩ := Consistent.endpoints_eq_ok slots
  obtain ⟨arcs, ids, weights⟩ := anchored.arcs.addEdge anchored.ids source target new stored
  exact ⟨⟨ids, arcs⟩, rfl, weights⟩

theorem putNode (anchored : Anchored cleanups db) {node : GraphNode}
    (placed : Placed cleanups db.indexMap db.graph node) (put : db.putNode node = some db') :
    Anchored cleanups db' := by
  unfold GraphDatabase.putNode at put
  split at put
  next i known =>
      obtain ⟨existing, live, sameId⟩ := anchored.ids.held_of_known placed known
      simp only [live] at put
      split at put
      · cases put
        have same := Aligned.slotKey_setNode GraphNode.id live sameId.symm
        exact ⟨anchored.ids.congr same,
          anchored.arcs.congr (StableGraph.arcs_setNode _ _ _) fun j _ _ => same j⟩
      · cases put
        exact anchored
  next fresh =>
      cases put
      obtain ⟨vacant, _, others⟩ := Aligned.slotKey_addNode db.graph GraphNode.id node
      refine ⟨anchored.ids.add placed fresh,
        anchored.arcs.congr (StableGraph.arcs_addNode _ _) fun j n live => others j ?_⟩
      rintro rfl
      simp [slotKey, live] at vacant

theorem putNodes (nodes : List GraphNode) :
    ∀ {db : GraphDatabase}, Anchored cleanups db → PlacedAll cleanups db nodes →
      nodes.foldlM GraphDatabase.putNode db = some db' → Anchored cleanups db' := by
  induction nodes with
  | nil =>
    intro db anchored _ done
    cases done
    exact anchored
  | cons node rest ih =>
    intro db anchored placed done
    rw [List.foldlM_cons] at done
    obtain ⟨middle, put, later⟩ := Option.bind_eq_some_iff.mp done
    have placedLater := placed.2
    simp only [put] at placedLater
    exact ih (anchored.putNode placed.1 put) placedLater later

theorem takeEdge (anchored : Anchored cleanups db) {dropped : Nat} {edge : GraphEdge}
    {after : GraphDatabase × Nat}
    (taken : GraphDatabase.takeEdge (db, dropped) edge = some after) :
    Anchored cleanups after.1 := by
  unfold GraphDatabase.takeEdge at taken
  simp only at taken
  split at taken
  next s t source target =>
      split at taken
      · cases taken
        exact anchored
      next absent =>
          obtain ⟨stored, added, rfl⟩ := Option.map_eq_some_iff.mp taken
          have slots : db.endpoints edge = .ok (s, t) := by
            simp [GraphDatabase.endpoints, source, target]
          refine (anchored.addEdge slots ?_ added).1
          refine anchored.arcs.unstored anchored.ids source target fun a connects => ?_
          by_contra same
          exact absent (List.any_eq_true.mpr ⟨a, connects, by simpa using same⟩)
  · cases taken
    exact ⟨anchored.ids, anchored.arcs⟩
  · cases taken
    exact anchored

theorem takeEdges (edges : List GraphEdge) :
    ∀ {state after : GraphDatabase × Nat}, Anchored cleanups state.1 →
      edges.foldlM GraphDatabase.takeEdge state = some after → Anchored cleanups after.1 := by
  induction edges with
  | nil =>
    intro state after anchored done
    cases done
    exact anchored
  | cons edge rest ih =>
    intro state after anchored done
    rw [List.foldlM_cons] at done
    obtain ⟨middle, taken, later⟩ := Option.bind_eq_some_iff.mp done
    exact ih (anchored.takeEdge taken) later

theorem newInBatch (anchored : Anchored cleanups db)
    (batch : List ((Nat × Nat) × GraphEdge))
    (resolved : ∀ entry ∈ batch, db.endpoints entry.2 = .ok entry.1) (seen : List EdgeKey) :
    ((db.newInBatch seen batch).map fun entry => edgeIdentityKey entry.2).Nodup ∧
      ∀ entry ∈ db.newInBatch seen batch, db.endpoints entry.2 = .ok entry.1 ∧
        edgeIdentityKey entry.2 ∉ seen ∧
          edgeIdentityKey entry.2 ∉ db.edges.map edgeIdentityKey := by
  induction batch generalizing seen with
  | nil => simp [GraphDatabase.newInBatch]
  | cons head rest ih =>
    obtain ⟨⟨s, t⟩, edge⟩ := head
    have later := ih fun entry member => resolved entry (by simp [member])
    have slots := resolved _ List.mem_cons_self
    unfold GraphDatabase.newInBatch
    split
    · exact later seen
    next fresh =>
        obtain ⟨nodup, each⟩ := later (edgeIdentityKey edge :: seen)
        have unseen : ∀ entry ∈ db.newInBatch (edgeIdentityKey edge :: seen) rest,
            edgeIdentityKey entry.2 ≠ edgeIdentityKey edge ∧ edgeIdentityKey entry.2 ∉ seen :=
          fun entry member => not_or.mp (fun there => (each entry member).2.1
            (List.mem_cons.mpr there))
        have restEach := fun entry member =>
          And.intro (each entry member).1
            (And.intro (unseen entry member).2 (each entry member).2.2)
        split
        · exact ⟨nodup, restEach⟩
        next absent =>
            refine ⟨?_, ?_⟩
            · rw [List.map_cons, List.nodup_cons]
              refine ⟨fun listed => ?_, nodup⟩
              obtain ⟨entry, member, same⟩ := List.mem_map.mp listed
              exact (unseen entry member).1 same
            · intro entry member
              rcases List.mem_cons.mp member with rfl | member
              · obtain ⟨source, target⟩ := Consistent.endpoints_eq_ok slots
                refine ⟨slots, fresh, anchored.arcs.unstored anchored.ids source target
                  fun a connects => ?_⟩
                by_contra same
                exact absent (List.any_eq_true.mpr ⟨a, connects, by simpa using same⟩)
              · exact restEach entry member

theorem addAll (batch : List ((Nat × Nat) × GraphEdge)) :
    ∀ {db : GraphDatabase}, Anchored cleanups db →
      (batch.map fun entry => edgeIdentityKey entry.2).Nodup →
        (∀ entry ∈ batch, db.endpoints entry.2 = .ok entry.1 ∧
          edgeIdentityKey entry.2 ∉ db.edges.map edgeIdentityKey) →
          db.addAll batch = some db' → Anchored cleanups db' := by
  induction batch with
  | nil =>
    intro db anchored _ _ done
    cases done
    exact anchored
  | cons entry rest ih =>
    intro db anchored nodup fresh done
    unfold GraphDatabase.addAll at done
    rw [List.foldlM_cons] at done
    obtain ⟨middle, added, later⟩ := Option.bind_eq_some_iff.mp done
    obtain ⟨slots, new⟩ := fresh entry List.mem_cons_self
    obtain ⟨kept, sameIds, edges⟩ := anchored.addEdge slots new added
    rw [List.map_cons, List.nodup_cons] at nodup
    refine ih kept nodup.2 (fun other member => ?_) later
    obtain ⟨otherSlots, otherNew⟩ := fresh other (List.mem_cons_of_mem _ member)
    refine ⟨?_, ?_⟩
    · unfold GraphDatabase.endpoints at otherSlots ⊢
      rw [sameIds]
      exact otherSlots
    · rw [edges, List.map_append, List.mem_append, not_or]
      refine ⟨otherNew, fun same => nodup.1 ?_⟩
      rw [List.map_singleton, List.mem_singleton] at same
      rw [← same]
      exact List.mem_map_of_mem (f := fun entry => edgeIdentityKey entry.2) member

theorem drop (anchored : Anchored cleanups db) {i : Nat} {n : GraphNode}
    (live : db.graph.nodeWeight i = some n) (sameGraph : db'.graph = db.graph.removeNode i)
    (sameIds : db'.indexMap = db.indexMap.erase n.id) : Anchored cleanups db' where
  ids := by
    rw [sameGraph, sameIds]
    exact anchored.ids.drop live
  arcs := by
    rw [sameGraph]
    refine anchored.arcs.shrink (arcs_removeNode_sublist _ _) fun j m weight => ?_
    rw [StableGraph.nodeWeight_removeNode] at weight
    exact (Option.ite_none_left_eq_some.mp weight).2

private def soFar (r : Replacement) : GraphDatabase :=
  { graph := r.graph, indexMap := r.indexMap }

private theorem dropOld {replaced : List String} {dropNamespaces : Bool} {idx : Nat}
    {state : Replacement × List Nat} (anchored : Anchored cleanups (soFar state.1)) :
    Anchored cleanups (soFar (Replacement.dropOld replaced dropNamespaces state idx).1) := by
  unfold Replacement.dropOld
  simp only
  split
  · exact anchored
  next n live =>
      split
      · exact anchored
      · exact anchored.drop live rfl rfl

private theorem addFresh {node : GraphNode} {state : Replacement × List Nat}
    (anchored : Anchored cleanups (soFar state.1))
    (placed : Placed cleanups state.1.indexMap state.1.graph node) :
    Anchored cleanups (soFar (Replacement.addFresh state node).1) := by
  unfold Replacement.addFresh
  simp only
  split
  next idx found =>
      obtain ⟨i, known, here⟩ := Option.bind_eq_some_iff.mp found
      obtain ⟨w, live, match_⟩ := Option.bind_eq_some_iff.mp here
      obtain ⟨sameId, same⟩ := Option.ite_none_right_eq_some.mp match_
      obtain rfl := Option.some.inj same
      have keys := Aligned.slotKey_setNode (n := node) GraphNode.id live sameId.symm
      exact ⟨anchored.ids.congr keys,
        anchored.arcs.congr (StableGraph.arcs_setNode _ _ _) fun j _ _ => keys j⟩
  next missing =>
      have fresh : state.1.indexMap.lookup node.id = none := by
        cases known : state.1.indexMap.lookup node.id with
        | none => rfl
        | some i =>
          obtain ⟨existing, live, sameId⟩ := anchored.ids.held_of_known placed known
          have weight : state.1.graph.nodeWeight i = some existing := live
          simp [known, weight, sameId] at missing
      obtain ⟨vacant, _, others⟩ := Aligned.slotKey_addNode state.1.graph GraphNode.id node
      refine ⟨anchored.ids.add placed fresh,
        anchored.arcs.congr (StableGraph.arcs_addNode _ _) fun j n live => others j ?_⟩
      rintro rfl
      have weight : state.1.graph.nodeWeight state.1.graph.nextIndex = some n := live
      simp [slotKey, weight] at vacant

private theorem addFreshAll (nodes : List GraphNode) :
    ∀ {state : Replacement × List Nat}, Anchored cleanups (soFar state.1) →
      PlacedFresh cleanups state nodes →
        Anchored cleanups (soFar (nodes.foldl Replacement.addFresh state).1) := by
  induction nodes with
  | nil => exact fun anchored _ => anchored
  | cons node rest ih => exact fun anchored placed => ih (anchored.addFresh placed.1) placed.2

private theorem dropOldAll {replaced : List String} {dropNamespaces : Bool} (slots : List Nat) :
    ∀ {state : Replacement × List Nat}, Anchored cleanups (soFar state.1) →
      Anchored cleanups
        (soFar (slots.foldl (Replacement.dropOld replaced dropNamespaces) state).1) := by
  induction slots with
  | nil => exact fun anchored => anchored
  | cons idx rest ih => exact fun anchored => ih anchored.dropOld

private theorem replacePaths {pathIndex : SlotIndex String} {replaced : List String}
    {nodes : List GraphNode} (paths : List String) :
    ∀ {r : Replacement}, Anchored cleanups (soFar r) →
      PlacedPaths cleanups pathIndex replaced nodes r paths →
        Anchored cleanups
          (soFar (paths.foldl (Replacement.replacePath pathIndex replaced nodes false) r)) := by
  induction paths with
  | nil => exact fun anchored _ => anchored
  | cons path rest ih =>
    intro r anchored placed
    have start : Anchored cleanups (soFar (r, ([] : List Nat)).1) := anchored
    exact ih ((dropOldAll _ start).addFreshAll _ placed.1) placed.2

private theorem restoreAll {graph' : StableGraph GraphNode GraphEdge} (preserved : List GraphEdge) :
    ∀ {graph : StableGraph GraphNode GraphEdge}, IdsLead cleanups indexMap graph →
      ArcsNamed graph → preserved.foldlM (Replacement.restore indexMap) graph = some graph' →
        IdsLead cleanups indexMap graph' ∧ ArcsNamed graph' := by
  induction preserved with
  | nil =>
    intro graph ids arcs done
    cases done
    exact ⟨ids, arcs⟩
  | cons edge rest ih =>
    intro graph ids arcs done
    rw [List.foldlM_cons] at done
    obtain ⟨middle, restored, later⟩ := Option.bind_eq_some_iff.mp done
    suffices kept : IdsLead cleanups indexMap middle ∧ ArcsNamed middle from
      ih kept.1 kept.2 later
    unfold Replacement.restore at restored
    split at restored
    next s t source target =>
        split at restored
        · cases restored
          exact ⟨ids, arcs⟩
        next absent =>
            -- An edge of the same identity has the same type, which the restore looks for.
            have new := arcs.unstored ids source target fun a connects => by
              by_contra same
              refine absent (List.any_eq_true.mpr ⟨a, connects, ?_⟩)
              simp only [sameEdgeIdentity] at same
              split at same
              · cases same rfl
              next sameType => simpa using sameType
            obtain ⟨named, led, _⟩ := arcs.addEdge ids source target new restored
            exact ⟨led, named⟩
    · cases restored
      exact ⟨ids, arcs⟩

theorem replaceNodesForPaths (anchored : Anchored cleanups db) {paths : List String}
    {nodes : List GraphNode}
    (placed : PlacedPaths cleanups db.pathIndex paths nodes
      { graph := db.graph, indexMap := db.indexMap, nameIndex := db.nameIndex }
      (paths.dedup.mergeSort fun a b => decide (a ≤ b)))
    (done : (db.replaceNodesForPaths paths nodes).outcome.after = some db') :
    Anchored cleanups db' := by
  unfold GraphDatabase.replaceNodesForPaths replaceNodesInner at done
  split at done
  · cases done
    exact anchored
  · simp only at done
    split at done
    · cases done
    next graph restored =>
        cases done
        have start : Anchored cleanups (soFar ⟨db.graph, db.indexMap, db.nameIndex, [], [], []⟩) :=
          ⟨anchored.ids, anchored.arcs⟩
        have replaced := replacePaths _ start placed
        obtain ⟨ids, arcs⟩ := restoreAll _ replaced.ids replaced.arcs restored
        exact ⟨ids, arcs⟩

theorem dropOwnedAll (owned : List String) :
    ∀ {state : GraphDatabase × List String}, Anchored cleanups state.1 →
      Anchored cleanups (owned.foldl dropOwned state).1 := by
  induction owned with
  | nil => exact fun anchored => anchored
  | cons id rest ih =>
    intro state anchored
    refine ih ?_
    unfold dropOwned
    simp only
    split
    · exact anchored
    next idx located =>
        split
        · exact anchored
        next node live =>
            have named := anchored.ids.key_of_live located live
            exact anchored.drop live rfl (by rw [named])

theorem retractOwned (anchored : Anchored cleanups db) (owner : SensorOwner) :
    Anchored cleanups (db.retractOwned owner).1 := by
  have start : Anchored cleanups (db, ([] : List String)).1 := anchored
  have dropped := dropOwnedAll (db.ownedIds owner) start
  unfold GraphDatabase.retractOwned
  simp only
  split
  · have keys : ∀ i, slotKey (((db.ownedIds owner).foldl dropOwned (db, [])).1.graph.mapNodes
        fun n => { n with entry := none }) GraphNode.id i =
        slotKey ((db.ownedIds owner).foldl dropOwned (db, [])).1.graph GraphNode.id i := by
      intro i
      simp only [slotKey, StableGraph.nodeWeight_mapNodes, Option.map_map]
      rfl
    exact ⟨dropped.ids.congr keys, dropped.arcs.congr rfl fun i _ _ => keys i⟩
  · exact dropped

end Anchored

private theorem removeLocked_arcs (db : GraphDatabase) (ids : List String) :
    (db.removeLocked ids).graph.arcs.Sublist db.graph.arcs := by
  induction ids using List.reverseRecOn with
  | nil => exact List.Sublist.refl _
  | append_singleton ids id ih =>
    have step : db.removeLocked (ids ++ [id]) =
        (db.removeLocked ids).remove db.indexMap id := by
      simp [removeLocked]
    rw [step]
    unfold Removal.remove
    split
    · exact ih
    · split
      · exact ih
      · exact (arcs_removeNode_sublist _ _).trans ih

namespace Anchored

theorem world {w w' : World} (anchored : Anchored w.cleanups w.db) {event : World.Event}
    (placed : PlacedAll w.cleanups w.db event.nodes) (moved : w.step event = some w') :
    Anchored w'.cleanups w'.db := by
  cases event with
  | removeNodesByIds ids =>
    simp only [World.step] at moved
    split at moved
    · cases moved
      exact anchored
    · cases moved
      have vacates := removeLocked_vacates w.db ids
      refine ⟨anchored.ids.remove vacates _ _,
        anchored.arcs.shrink (removeLocked_arcs w.db ids) fun i n weight => ?_⟩
      have other : ¬ Leads w.db ids i := by
        intro led
        rw [vacates.gone i led] at weight
        cases weight
      exact (vacates.left i other).symm.trans weight
  | upsertNode node =>
    simp only [World.step, GraphDatabase.upsertNode] at moved
    split at moved
    · cases moved
      exact anchored
    · cases put : w.db.putNode node with
      | none => simp [put, settle, Outcome.after] at moved
      | some db =>
        simp only [put, settle, Outcome.after, Option.map_some, Option.some.injEq] at moved
        subst moved
        exact anchored.putNode placed.1 put
  | insertNodesBatch nodes =>
    simp only [World.step, GraphDatabase.insertNodesBatch] at moved
    split at moved
    · cases moved
      exact anchored
    · cases put : nodes.foldlM GraphDatabase.putNode w.db with
      | none => simp [put, settle, Outcome.after] at moved
      | some db =>
        simp only [put, settle, Outcome.after, Option.map_some, Option.some.injEq] at moved
        subst moved
        exact putNodes nodes anchored placed put
  | clean removal =>
    simp only [World.step] at moved
    split at moved
    · cases moved
    next c here =>
        split at moved
        · cases moved
        next db c' access =>
            cases moved
            obtain ⟨bound, rfl⟩ := List.getElem?_eq_some_iff.mp here
            obtain ⟨before, after, same, _, set⟩ := @List.exists_of_set _ _ c' _ bound
            rw [set]
            rw [same] at anchored
            exact ⟨anchored.ids.clean access,
              (Cleanup.next_ids access).1 ▸ anchored.arcs⟩

theorem insertEdge (anchored : Anchored cleanups db) {edge : GraphEdge}
    (new : edgeIdentityKey edge ∉ db.edges.map edgeIdentityKey)
    (done : (db.insertEdge edge).outcome.after = some db') : Anchored cleanups db' := by
  unfold GraphDatabase.insertEdge at done
  split at done
  · cases done
    exact anchored
  · split at done
    · cases done
      exact anchored
    next s t slots =>
        cases added : db.addEdge s t edge with
        | none => simp [added, settle, Outcome.after] at done
        | some stored =>
          simp only [added, settle, Outcome.after, Option.some.injEq] at done
          subst done
          exact (anchored.addEdge slots new added).1

theorem insertEdgesBatch (anchored : Anchored cleanups db) {edges : List GraphEdge}
    (done : (db.insertEdgesBatch edges).outcome.after = some db') : Anchored cleanups db' := by
  unfold GraphDatabase.insertEdgesBatch at done
  split at done
  · cases done
    exact anchored
  · simp only at done
    split at done
    next after dropped taken =>
        cases done
        exact takeEdges edges anchored taken
    · cases done

theorem insertNodesBatch (anchored : Anchored cleanups db) {nodes : List GraphNode}
    (placed : PlacedAll cleanups db nodes)
    (done : (db.insertNodesBatch nodes).outcome.after = some db') : Anchored cleanups db' := by
  unfold GraphDatabase.insertNodesBatch at done
  split at done
  · cases done
    exact anchored
  · cases put : nodes.foldlM GraphDatabase.putNode db with
    | none => simp [put, settle, Outcome.after] at done
    | some stored =>
      simp only [put, settle, Outcome.after, Option.some.injEq] at done
      subst done
      exact putNodes nodes anchored placed put

theorem upsertEdgesBatchStrict (anchored : Anchored cleanups db) {batch : List GraphEdge}
    (done : (db.upsertEdgesBatchStrict batch).outcome.after = some db') :
    Anchored cleanups db' := by
  unfold GraphDatabase.upsertEdgesBatchStrict at done
  split at done
  · cases done
    exact anchored
  · split at done
    · cases done
      exact anchored
    · split at done
      · cases done
        exact anchored
      next resolved slots =>
          cases added : db.addAll (db.newInBatch [] resolved) with
          | none => simp [added, settle, Outcome.after] at done
          | some stored =>
            simp only [added, settle, Outcome.after, Option.some.injEq] at done
            subst done
            obtain ⟨nodup, fresh⟩ := anchored.newInBatch resolved
              (Indexed.resolve_spec db batch slots).2 []
            exact addAll _ anchored nodup
              (fun entry member => ⟨(fresh entry member).1, (fresh entry member).2.2⟩) added

theorem removeEdges (anchored : Anchored cleanups db) {edges : List GraphEdge}
    (done : (db.removeEdges edges).outcome.after = some db') : Anchored cleanups db' := by
  unfold GraphDatabase.removeEdges at done
  split at done
  · cases done
    exact anchored
  · cases done
    exact ⟨anchored.ids.congr fun _ => rfl,
      anchored.arcs.shrink List.filter_sublist fun _ _ weight => weight⟩

end Anchored

end Edges

namespace EdgeWorld

variable {w w' : EdgeWorld}

/-- **A settled step keeps one edge of every identity, between the nodes it names.** -/
theorem anchored_step (anchored : Anchored w.cleanups w.db) {event : Event}
    (settled : event.Settled w) (moved : w.step event = some w') :
    Anchored w'.cleanups w'.db := by
  cases event with
  | nodes event =>
    obtain ⟨world, stepped, rfl⟩ := Option.map_eq_some_iff.mp moved
    exact anchored.world settled stepped
  | checkEdge edge =>
    simp only [step, checkEdge, Option.some.injEq] at moved
    subst moved
    split
    · split <;> exact anchored
    · exact anchored
  | insertEdge upsert =>
    simp only [step] at moved
    split at moved
    · cases moved
    next edge pending =>
        obtain ⟨db, done, rfl⟩ := Option.map_eq_some_iff.mp moved
        exact anchored.insertEdge (settled edge pending) done
  | insertEdgesBatch edges =>
    obtain ⟨db, done, rfl⟩ := Option.map_eq_some_iff.mp moved
    exact anchored.insertEdgesBatch done
  | upsertEdgesBatchStrict batch =>
    obtain ⟨db, done, rfl⟩ := Option.map_eq_some_iff.mp moved
    exact anchored.upsertEdgesBatchStrict done
  | removeEdges edges =>
    obtain ⟨db, done, rfl⟩ := Option.map_eq_some_iff.mp moved
    exact anchored.removeEdges done
  | replaceNodesForPaths paths fresh =>
    obtain ⟨db, done, rfl⟩ := Option.map_eq_some_iff.mp moved
    exact anchored.replaceNodesForPaths settled done
  | retractOwned owner fresh edges =>
    simp only [step] at moved
    split at moved
    · cases moved
      exact anchored
    · cases moved
      exact anchored.retractOwned owner
  | continueSensor sensor =>
    simp only [step] at moved
    split at moved
    · cases moved
    next fresh edges pending =>
        obtain ⟨db, done, rfl⟩ := Option.map_eq_some_iff.mp moved
        split at done
        · cases done
          exact anchored
        · have placed : PlacedAll w.cleanups w.db fresh := settled _ pending
          exact anchored.insertNodesBatch placed done
    next edges pending =>
        obtain ⟨db, done, rfl⟩ := Option.map_eq_some_iff.mp moved
        split at done
        · cases done
          exact anchored
        · exact anchored.insertEdgesBatch done

/-- **Along every run of settled steps, one edge of every identity is stored.** -/
theorem edges_unique {db : GraphDatabase} (consistent : Consistent db)
    (unique : db.EdgesUnique) {events : List Event}
    (run : Runs step (fun w event => event.Settled w) { db } events w) : w.db.EdgesUnique := by
  have anchored : Anchored w.cleanups w.db :=
    run.invariant (I := fun _ w => Anchored w.cleanups w.db)
      (Anchored.of_consistent consistent unique)
      fun anchored settled moved => anchored_step anchored settled moved
  exact anchored.arcs.unique

def callEdge : GraphEdge where
  edgeType := .calls
  sourceId := "main"
  targetId := "other"

theorem edges_unique_serial :
    ∃ w, Runs step (fun w event => event.Settled w) { db := {} }
        [.nodes (.insertNodesBatch [namedNode "main", namedNode "other"]), .checkEdge callEdge,
          .insertEdge 0, .checkEdge callEdge, .nodes (.removeNodesByIds ["other"]),
          .nodes (.clean 0), .nodes (.upsertNode (namedNode "other"))] w ∧
      w.db.edges = [] ∧ w.db.EdgesUnique := by
  have run : Runs step (fun w event => event.Settled w) { db := {} }
      [.nodes (.insertNodesBatch [namedNode "main", namedNode "other"]), .checkEdge callEdge,
        .insertEdge 0, .checkEdge callEdge, .nodes (.removeNodesByIds ["other"]),
        .nodes (.clean 0), .nodes (.upsertNode (namedNode "other"))] _ :=
    runs_of_execute rfl
  exact ⟨_, run, by decide, edges_unique consistent_empty (by decide) run⟩

/-- Two upserts of one edge that both look before either inserts. -/
theorem edges_doubled :
    ¬ ∀ db : GraphDatabase, Consistent db → db.EdgesUnique → ∀ events w,
      Runs step (fun _ _ => True) { db } events w → w.db.EdgesUnique := by
  intro unique
  have twice := unique {} consistent_empty (by decide)
    [.nodes (.insertNodesBatch [namedNode "main", namedNode "other"]), .checkEdge callEdge,
      .checkEdge callEdge, .insertEdge 0, .insertEdge 0] _ (runs_of_execute rfl)
  revert twice
  decide

end EdgeWorld

end Lain.Graph
