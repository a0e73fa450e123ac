import Lain.Graph.IndexMutators
import Mathlib.Data.List.Dedup
import Mathlib.Data.List.Sort

/-!
# Re-scans keep the indexes

The per-path loop of `replaceNodesInner` touches only slots of its own path, so
the entries it collects stay right until they are swapped into the path index
at the end.
-/

namespace Lain.Graph

open Foundation GraphDatabase

variable {naming : Naming} {db : GraphDatabase}

abbrev pathKey (graph : StableGraph GraphNode GraphEdge) : Nat → Option String :=
  slotKey graph GraphNode.path

def OnlyPath (p : String) (before after : StableGraph GraphNode GraphEdge) : Prop :=
  ∀ q, q ≠ p → ∀ i, pathKey after i = some q ↔ pathKey before i = some q

theorem OnlyPath.refl (p : String) (graph : StableGraph GraphNode GraphEdge) :
    OnlyPath p graph graph := fun _ _ _ => Iff.rfl

theorem OnlyPath.trans {p : String} {a b c : StableGraph GraphNode GraphEdge}
    (first : OnlyPath p a b) (second : OnlyPath p b c) : OnlyPath p a c :=
  fun q other i => (second q other i).trans (first q other i)

/-- A list holds exactly the slots of one path, each once. -/
def Lists (graph : StableGraph GraphNode GraphEdge) (p : String) (slots : List Nat) : Prop :=
  slots.Nodup ∧ ∀ i, i ∈ slots ↔ pathKey graph i = some p

namespace Replacement

open GraphDatabase.Replacement

abbrev Aligned (naming : Naming) (r : Replacement) : Prop :=
  Graph.Aligned naming r.graph r.indexMap r.nameIndex

private theorem dropOld_spec (replaced : List String) (dropNamespaces : Bool) {p : String}
    (todo : List Nat) :
    ∀ {r : Replacement} (kept : List Nat), Aligned naming r → Lists r.graph p (kept ++ todo) →
      ∃ r' kept', todo.foldl (dropOld replaced dropNamespaces) (r, kept) = (r', kept') ∧
        Aligned naming r' ∧ Lists r'.graph p kept' ∧ OnlyPath p r.graph r'.graph ∧
          r'.newEntries = r.newEntries := by
  induction todo with
  | nil =>
    intro r kept aligned lists
    exact ⟨r, kept, rfl, aligned, by simpa using lists, OnlyPath.refl p _, rfl⟩
  | cons idx rest ih =>
    intro r kept aligned lists
    rw [List.foldl_cons]
    obtain ⟨n, live, path⟩ := slotKey_eq_some.mp ((lists.2 idx).mp (by simp))
    by_cases keep : n.nodeType = .namespace ∧ dropNamespaces = false
    · have step : dropOld replaced dropNamespaces (r, kept) idx = (r, kept ++ [idx]) := by
        simp [dropOld, live, keep]
      rw [step]
      exact ih (kept ++ [idx]) aligned (by simpa using lists)
    · have step : ∃ preserved, dropOld replaced dropNamespaces (r, kept) idx =
          ({ r with
            graph := r.graph.removeNode idx
            indexMap := r.indexMap.erase n.id
            nameIndex := r.nameIndex.drop n.name idx
            removedIds := r.removedIds ++ [n.id]
            preservedIncoming := preserved }, kept) := by
        refine ⟨r.preservedIncoming ++ r.incomingFromOutside replaced idx, ?_⟩
        simp only [dropOld, live, if_neg keep]
      obtain ⟨preserved, stepped⟩ := step
      rw [stepped]
      obtain ⟨vacated, others⟩ :=
        Graph.Aligned.slotKey_removeNode r.graph GraphNode.path idx
      have frame : OnlyPath p r.graph (r.graph.removeNode idx) := by
        intro q other i
        by_cases here : i = idx
        · subst here
          have wrong : pathKey r.graph i ≠ some q := by
            rw [pathKey, slotKey, live, Option.map_some, path]
            exact fun h => other (Option.some.inj h).symm
          simp [vacated, wrong]
        · rw [pathKey, others i here]
      have listed : Lists (r.graph.removeNode idx) p (kept ++ rest) := by
        have nodup := lists.1
        have apart : idx ∉ kept ++ rest := by
          have moved := List.nodup_middle.mp nodup
          exact (List.nodup_cons.mp moved).1
        refine ⟨(List.nodup_cons.mp (List.nodup_middle.mp nodup)).2, ?_⟩
        intro i
        by_cases here : i = idx
        · subst here
          rw [pathKey, vacated]
          simp only [reduceCtorEq, iff_false]
          exact apart
        · rw [pathKey, others i here, ← lists.2 i]
          simp [here]
      obtain ⟨r', kept', run, aligned', lists', frame', entries⟩ :=
        ih (r := { r with
            graph := r.graph.removeNode idx
            indexMap := r.indexMap.erase n.id
            nameIndex := r.nameIndex.drop n.name idx
            removedIds := r.removedIds ++ [n.id]
            preservedIncoming := preserved }) kept (aligned.remove live) listed
      exact ⟨r', kept', run, aligned', lists', frame.trans frame', entries⟩

private theorem addFresh_step {p : String} {r : Replacement} {fresh : List Nat}
    {node : GraphNode} (aligned : Aligned naming r) (lists : Lists r.graph p fresh)
    (canonical : naming.Canonical node) (path : node.path = p) :
    ∃ r' fresh', addFresh (r, fresh) node = (r', fresh') ∧ Aligned naming r' ∧
      Lists r'.graph p fresh' ∧ OnlyPath p r.graph r'.graph ∧
        r'.newEntries = r.newEntries := by
  cases located : r.indexMap.lookup node.id with
  | some idx =>
    obtain ⟨old, live, sameId⟩ := aligned.live_of_lookup located
    have samePath := (Graph.Aligned.canonical_agree canonical
      (aligned.canonical idx old live) sameId.symm).1
    have unmoved := Graph.Aligned.slotKey_setNode GraphNode.path (n := node) live samePath
    have listed : idx ∈ fresh :=
      (lists.2 idx).mpr (slotKey_eq_some.mpr ⟨old, live, samePath.symm.trans path⟩)
    refine ⟨{ r with graph := r.graph.setNode idx node }, fresh, ?_,
      aligned.refresh canonical live sameId.symm, ⟨lists.1, ?_⟩, ?_, rfl⟩
    · simp [addFresh, located, live, sameId, listed]
    · intro i
      rw [lists.2 i, pathKey, pathKey, unmoved i]
    · intro q _ i
      rw [pathKey, pathKey, unmoved i]
  | none =>
    obtain ⟨vacant, filled, others⟩ :=
      Graph.Aligned.slotKey_addNode r.graph GraphNode.path node
    refine ⟨{ r with
        graph := r.graph.addNode node
        indexMap := r.indexMap.insert node.id r.graph.nextIndex
        nameIndex := r.nameIndex.push node.name r.graph.nextIndex },
      fresh ++ [r.graph.nextIndex], by simp [addFresh, located],
      aligned.add canonical located, ⟨?_, ?_⟩, ?_, rfl⟩
    · refine List.Nodup.append lists.1 (List.nodup_singleton _) ?_
      refine List.disjoint_singleton.mpr fun member => ?_
      have held := (lists.2 _).mp member
      rw [pathKey, vacant] at held
      cases held
    · intro i
      rw [List.mem_append, List.mem_singleton, lists.2 i]
      by_cases here : i = r.graph.nextIndex
      · subst here
        simp [pathKey, filled, path]
      · simp [pathKey, here, others i here]
    · intro q other i
      by_cases here : i = r.graph.nextIndex
      · subst here
        have wrong : ¬ p = q := fun h => other h.symm
        simp [pathKey, filled, vacant, path, wrong]
      · rw [pathKey, others i here]

private theorem addFresh_spec {p : String} (nodes : List GraphNode)
    (each : ∀ n ∈ nodes, naming.Canonical n ∧ n.path = p) :
    ∀ {r : Replacement} {fresh : List Nat}, Aligned naming r → Lists r.graph p fresh →
      ∃ r' fresh', nodes.foldl addFresh (r, fresh) = (r', fresh') ∧ Aligned naming r' ∧
        Lists r'.graph p fresh' ∧ OnlyPath p r.graph r'.graph ∧
          r'.newEntries = r.newEntries := by
  induction nodes with
  | nil =>
    intro r fresh aligned lists
    exact ⟨r, fresh, rfl, aligned, lists, OnlyPath.refl p _, rfl⟩
  | cons node rest ih =>
    intro r fresh aligned lists
    obtain ⟨canonical, path⟩ := each node (by simp)
    obtain ⟨r₁, fresh₁, step, aligned₁, lists₁, frame₁, entries₁⟩ :=
      addFresh_step aligned lists canonical path
    obtain ⟨r', fresh', run, aligned', lists', frame', entries'⟩ :=
      ih (fun n member => each n (by simp [member])) aligned₁ lists₁
    refine ⟨r', fresh', ?_, aligned', lists', frame₁.trans frame', entries'.trans entries₁⟩
    rw [List.foldl_cons, step, run]

theorem firstOfId_subset (nodes : List GraphNode) :
    ∀ seen, ∀ n ∈ firstOfId seen nodes, n ∈ nodes := by
  induction nodes with
  | nil => intro seen n member; exact member
  | cons head rest ih =>
    intro seen n member
    unfold firstOfId at member
    split at member
    · exact List.mem_cons_of_mem _ (ih _ n member)
    · rcases List.mem_cons.mp member with rfl | later
      · simp
      · exact List.mem_cons_of_mem _ (ih _ n later)

private theorem replacePath_spec (pathIndex : SlotIndex String) (replaced : List String)
    {nodes : List GraphNode} (canonical : ∀ n ∈ nodes, naming.Canonical n)
    (dropNamespaces : Bool) (p : String) {r : Replacement} (aligned : Aligned naming r)
    (lists : Lists r.graph p (pathIndex.bucket p)) :
    ∃ r' fresh, replacePath pathIndex replaced nodes dropNamespaces r p = r' ∧
      Aligned naming r' ∧ Lists r'.graph p fresh ∧ OnlyPath p r.graph r'.graph ∧
        r'.newEntries = r.newEntries ++ [(p, fresh)] := by
  obtain ⟨dropped, kept, drops, aligned₁, lists₁, frame₁, entries₁⟩ :=
    dropOld_spec replaced dropNamespaces (pathIndex.bucket p) [] aligned lists
  have each : ∀ n ∈ firstOfId [] (nodes.filter fun node => decide (node.path = p)),
      naming.Canonical n ∧ n.path = p := by
    intro n member
    obtain ⟨given, path⟩ := List.mem_filter.mp (firstOfId_subset _ _ n member)
    exact ⟨canonical n given, of_decide_eq_true path⟩
  obtain ⟨added, fresh, adds, aligned₂, lists₂, frame₂, entries₂⟩ :=
    addFresh_spec _ each aligned₁ lists₁
  refine ⟨_, fresh, rfl, ?_, ?_, ?_, ?_⟩
  all_goals simp only [replacePath, drops, adds]
  · exact aligned₂
  · exact lists₂
  · exact frame₁.trans frame₂
  · rw [entries₂, entries₁]

private theorem replacePaths_spec (pathIndex : SlotIndex String) (replaced : List String)
    {nodes : List GraphNode} (canonical : ∀ n ∈ nodes, naming.Canonical n)
    (dropNamespaces : Bool) (paths : List String) :
    ∀ {r : Replacement}, paths.Nodup → Aligned naming r →
      (∀ p ∈ paths, Lists r.graph p (pathIndex.bucket p)) →
      ∃ r' entries,
        paths.foldl (replacePath pathIndex replaced nodes dropNamespaces) r = r' ∧
        Aligned naming r' ∧ r'.newEntries = r.newEntries ++ entries ∧
        entries.map Prod.fst = paths ∧
        (∀ entry ∈ entries, Lists r'.graph entry.1 entry.2) ∧
        ∀ q, q ∉ paths → ∀ i, pathKey r'.graph i = some q ↔ pathKey r.graph i = some q := by
  induction paths with
  | nil =>
    intro r _ aligned _
    exact ⟨r, [], rfl, aligned, by simp, rfl, by simp, fun _ _ _ => Iff.rfl⟩
  | cons p rest ih =>
    intro r nodup aligned lists
    obtain ⟨fresh_, restNodup⟩ := List.nodup_cons.mp nodup
    obtain ⟨r₁, fresh, step, aligned₁, lists₁, frame₁, entries₁⟩ :=
      replacePath_spec pathIndex replaced canonical dropNamespaces p aligned
        (lists p (by simp))
    have restLists : ∀ q ∈ rest, Lists r₁.graph q (pathIndex.bucket q) := by
      intro q member
      have other : q ≠ p := fun h => fresh_ (h ▸ member)
      refine ⟨(lists q (by simp [member])).1, fun i => ?_⟩
      rw [frame₁ q other i]
      exact (lists q (by simp [member])).2 i
    obtain ⟨r', entries, run, aligned', noted, keys, exact_, frame'⟩ :=
      ih restNodup aligned₁ restLists
    refine ⟨r', (p, fresh) :: entries, ?_, aligned', ?_, ?_, ?_, ?_⟩
    · rw [List.foldl_cons, step, run]
    · rw [noted, entries₁]
      simp
    · simp [keys]
    · intro entry member
      rcases List.mem_cons.mp member with rfl | later
      · refine ⟨lists₁.1, fun i => ?_⟩
        rw [frame' p fresh_ i]
        exact lists₁.2 i
      · exact exact_ entry later
    · intro q absent i
      rw [List.mem_cons, not_or] at absent
      exact (frame' q absent.2 i).trans (frame₁ q absent.1 i)

private theorem restore_spec (preserved : List GraphEdge) {indexMap : SlotMap String}
    {nameIndex : SlotIndex String} :
    ∀ {graph : StableGraph GraphNode GraphEdge},
      Graph.Aligned naming graph indexMap nameIndex →
      ∃ graph', preserved.foldlM (restore indexMap) graph = some graph' ∧
        ∀ i, graph'.nodeWeight i = graph.nodeWeight i := by
  induction preserved with
  | nil => exact fun _ => ⟨_, rfl, fun _ => rfl⟩
  | cons edge rest ih =>
    intro graph aligned
    have step : ∃ middle, restore indexMap graph edge = some middle ∧
        ∀ i, middle.nodeWeight i = graph.nodeWeight i := by
      unfold restore
      split
      next s t source target =>
          split
          · exact ⟨graph, rfl, fun _ => rfl⟩
          · obtain ⟨m, sourceLive, _⟩ := aligned.live_of_lookup source
            obtain ⟨n, targetLive, _⟩ := aligned.live_of_lookup target
            obtain ⟨middle, added⟩ :=
              StableGraph.addEdge_isSome edge sourceLive targetLive
            exact ⟨middle, added, (StableGraph.addEdge_eq_some added).1⟩
      next => exact ⟨graph, rfl, fun _ => rfl⟩
    obtain ⟨middle, stepped, same⟩ := step
    obtain ⟨final, run, same'⟩ := ih (aligned.congr same)
    refine ⟨final, by simp [List.foldlM_cons, stepped, run], fun i => ?_⟩
    rw [same' i, same i]

end Replacement

namespace Indexed

open Replacement

theorem replaceNodesInner (indexed : Indexed naming db) (paths : List String)
    {nodes : List GraphNode} (canonical : ∀ n ∈ nodes, naming.Canonical n)
    (dropNamespaces : Bool) :
    (db.replaceNodesInner paths nodes dropNamespaces).outcome.All (Indexed naming) := by
  unfold GraphDatabase.replaceNodesInner
  split
  · exact indexed
  · have nodup : (paths.dedup.mergeSort fun a b => decide (a ≤ b)).Nodup :=
      (List.mergeSort_perm _ _).nodup_iff.mpr (List.nodup_dedup paths)
    obtain ⟨r, entries, run, aligned, noted, keys, exact_, frame⟩ :=
      replacePaths_spec db.pathIndex paths canonical dropNamespaces _
        (r := { graph := db.graph, indexMap := db.indexMap, nameIndex := db.nameIndex })
        nodup indexed.aligned (fun p _ => indexed.paths p)
    obtain ⟨graph, restored, same⟩ := restore_spec r.preservedIncoming aligned
    simp only [run, restored]
    refine ⟨aligned.congr same, ?_⟩
    obtain ⟨swapped, kept⟩ :=
      SlotIndex.bucket_swaps entries db.pathIndex (keys ▸ nodup)
    rw [noted]
    intro q
    have sameKey : ∀ i, slotKey graph GraphNode.path i = pathKey r.graph i := by
      intro i
      simp [slotKey, same]
    by_cases replaced : q ∈ entries.map Prod.fst
    · obtain ⟨entry, member, rfl⟩ := List.mem_map.mp replaced
      have bucket := swapped entry member
      simp only [List.nil_append, bucket, sameKey]
      exact exact_ entry member
    · have bucket := kept q replaced
      simp only [List.nil_append, bucket, sameKey]
      refine ⟨(indexed.paths q).1, fun i => ?_⟩
      rw [frame q (keys ▸ replaced) i]
      exact (indexed.paths q).2 i

theorem replaceNodesForPaths (indexed : Indexed naming db) (paths : List String)
    {nodes : List GraphNode} (canonical : ∀ n ∈ nodes, naming.Canonical n) :
    (db.replaceNodesForPaths paths nodes).outcome.All (Indexed naming) :=
  indexed.replaceNodesInner paths canonical false

private theorem pruneKeys (live : List String) (keys : List String) :
    ∀ {db : GraphDatabase} (removed : Nat), Indexed naming db →
      (pruneKeys live keys db removed).All (Indexed naming) := by
  induction keys with
  | nil => exact fun _ indexed => indexed
  | cons key rest ih =>
    intro db removed indexed
    have none_ : ∀ n ∈ ([] : List GraphNode), naming.Canonical n := by simp
    have step := indexed.replaceNodesInner [key] none_ (!live.contains key)
    unfold GraphDatabase.pruneKeys
    split
    next after count ended =>
        rw [ended] at step
        exact ih _ step
    next after reason ended =>
        rw [ended] at step
        exact step
    next ended =>
        rw [ended] at step
        exact step

theorem pruneOrphans (indexed : Indexed naming db) (tracked : List String) :
    (db.pruneOrphans tracked).outcome.All (Indexed naming) := by
  unfold GraphDatabase.pruneOrphans
  split
  · exact indexed
  · exact pruneKeys _ _ 0 indexed

private theorem dropOwned (ids : List String) :
    ∀ state : GraphDatabase × List String, Indexed naming state.1 →
      Indexed naming (ids.foldl GraphDatabase.dropOwned state).1 := by
  induction ids with
  | nil => exact fun _ indexed => indexed
  | cons id rest ih =>
    intro state indexed
    obtain ⟨db, removedIds⟩ := state
    rw [List.foldl_cons]
    refine ih _ ?_
    unfold GraphDatabase.dropOwned
    cases located : db.indexMap.lookup id with
    | none =>
      simp only [located]
      exact indexed
    | some idx =>
      obtain ⟨node, live, named⟩ := indexed.aligned.live_of_lookup located
      have removed := indexed.removeOne live
      rw [named] at removed
      simp only [located, live]
      exact removed

private theorem mapNodes (indexed : Indexed naming db) (f : GraphNode → GraphNode)
    (sameId : ∀ n, (f n).id = n.id) (samePath : ∀ n, (f n).path = n.path)
    (sameName : ∀ n, (f n).name = n.name) :
    Indexed naming { db with graph := db.graph.mapNodes f } := by
  have sameKey : ∀ key : GraphNode → String, (∀ n, key (f n) = key n) → ∀ i,
      slotKey (db.graph.mapNodes f) key i = slotKey db.graph key i := by
    intro key same i
    unfold slotKey
    rw [StableGraph.nodeWeight_mapNodes, Option.map_map]
    exact congrArg (fun g => Option.map g (db.graph.nodeWeight i)) (funext same)
  refine ⟨⟨?_, indexed.aligned.ids.congr (sameKey _ sameId),
    indexed.aligned.names.congr (sameKey _ sameName)⟩,
    indexed.paths.congr (sameKey _ samePath)⟩
  intro i n weight
  rw [StableGraph.nodeWeight_mapNodes, Option.map_eq_some_iff] at weight
  obtain ⟨old, live, rfl⟩ := weight
  have canonical := indexed.aligned.canonical i old live
  unfold Naming.Canonical
  rw [samePath, sameName, sameId]
  exact canonical

private theorem retractOwned (indexed : Indexed naming db) (owner : SensorOwner) :
    Indexed naming (db.retractOwned owner).1 := by
  have dropped := dropOwned (db.ownedIds owner) (db, []) indexed
  unfold GraphDatabase.retractOwned
  dsimp only
  split
  · exact dropped.mapNodes _ (fun _ => rfl) (fun _ => rfl) (fun _ => rfl)
  · exact dropped

theorem replaceSensorOutput (indexed : Indexed naming db) (owner : SensorOwner)
    {nodes : List GraphNode} (canonical : ∀ n ∈ nodes, naming.Canonical n)
    (edges : List GraphEdge) :
    (db.replaceSensorOutput owner nodes edges).outcome.All (Indexed naming) := by
  have retracted := indexed.retractOwned owner
  unfold GraphDatabase.replaceSensorOutput
  split
  · exact indexed
  · generalize db.retractOwned owner = state at retracted
    obtain ⟨base, removedIds⟩ := state
    dsimp only
    have nodesKept : (if nodes.isEmpty then (⟨[], .ok base ()⟩ : Call Unit)
        else base.insertNodesBatch nodes).outcome.All (Indexed naming) := by
      split
      · exact retracted
      · exact retracted.insertNodesBatch canonical
    split
    next ended =>
        rw [ended] at nodesKept
        exact nodesKept
    next after reason ended =>
        rw [ended] at nodesKept
        exact nodesKept
    next after value ended =>
        rw [ended] at nodesKept
        have afterKept : Indexed naming after := nodesKept
        have edgesKept : (if edges.isEmpty then (⟨[], .ok after 0⟩ : Call Nat)
            else after.insertEdgesBatch edges).outcome.All (Indexed naming) := by
          split
          · exact afterKept
          · exact afterKept.insertEdgesBatch edges
        dsimp only
        split
        next finished =>
            rw [finished] at edgesKept
            exact edgesKept
        next final reason finished =>
            rw [finished] at edgesKept
            exact edgesKept
        next final count finished =>
            rw [finished] at edgesKept
            exact edgesKept

end Indexed

end Lain.Graph
