import Mathlib
import Lain.Server.OverlayRuns

/-!
# The history of the overlay

What a client does with the diffs it asks for, and that it arrives at the owner's
nodes.
-/

namespace Lain.Server

open Foundation

def nodeSet (o : VolatileOverlay) : Set GraphNode :=
  {n | n ∈ o.getAllNodes}

def subscribeApply (o : VolatileOverlay) (diff : OverlayDiff) : VolatileOverlay :=
  diff.updated.foldl VolatileOverlay.upsertNode
    (diff.removed.foldl (fun o id => (o.removeNode id).1)
      (diff.added.foldl VolatileOverlay.insertNode o))

def upsertInto (nodes : Set GraphNode) (node : GraphNode) : Set GraphNode :=
  {n | n ∈ nodes ∧ n.id ≠ node.id ∨ n = node}

def removeFrom (nodes : Set GraphNode) (id : String) : Set GraphNode :=
  {n | n ∈ nodes ∧ n.id ≠ id}

def replay (nodes : Set GraphNode) (diff : OverlayDiff) : Set GraphNode :=
  diff.updated.foldl upsertInto (diff.removed.foldl removeFrom (diff.added.foldl upsertInto nodes))

/-- **Overlay history replays**: what a client that looked at an earlier state is told now
leads from the nodes it saw to the current ones, in the abstract and on an overlay of
its own. -/
structure HistoryReplays (earlier now : VolatileOverlay) : Prop where
  consecutive : ∀ diffs, now.diffsSince earlier.currentRevision = .ok diffs →
    RevisionLog.Consecutive earlier.currentRevision diffs ∧
      earlier.currentRevision + diffs.length = now.currentRevision
  replays : ∀ diffs, now.diffsSince earlier.currentRevision = .ok diffs →
    diffs.foldl replay (nodeSet earlier) = nodeSet now
  client : ∀ diffs, now.diffsSince earlier.currentRevision = .ok diffs →
    ∀ client, Consistent client → nodeSet client = nodeSet earlier →
      nodeSet (diffs.foldl subscribeApply client) = nodeSet now
  seen : now.currentRevision = earlier.currentRevision → nodeSet now = nodeSet earlier

/-- The states after some operations. -/
inductive Later (earlier : VolatileOverlay) : VolatileOverlay → Prop
  | refl : Later earlier earlier
  | step {o o' : VolatileOverlay} (op : OverlayOp) : Later earlier o →
      (∀ other, op = .merge other → Reached other) → o.apply op = some o' → Later earlier o'

def Filed (o : VolatileOverlay) (op : OverlayOp) : Prop :=
  (op = .clear → o.getAllNodes = []) ∧ ∀ other, op = .merge other → other.getAllNodes = []

/-- The states after operations that file what they change. -/
inductive LaterFiled (earlier : VolatileOverlay) : VolatileOverlay → Prop
  | refl : LaterFiled earlier earlier
  | step {o o' : VolatileOverlay} (op : OverlayOp) : LaterFiled earlier o → Filed o op →
      o.apply op = some o' → LaterFiled earlier o'

/-! ### Clients -/

variable {o : VolatileOverlay}

theorem nodeSet_insertNode (consistent : Consistent o) (node : GraphNode) :
    nodeSet (o.insertNode node) = upsertInto (nodeSet o) node :=
  Set.ext fun _ => mem_insertNode consistent node

theorem nodeSet_removeNode (consistent : Consistent o) (id : String) :
    nodeSet (o.removeNode id).1 = removeFrom (nodeSet o) id :=
  Set.ext (removeNode_without consistent id).nodes

theorem foldl_insertNode (nodes : List GraphNode) : ∀ {o : VolatileOverlay}, Consistent o →
    Consistent (nodes.foldl VolatileOverlay.insertNode o) ∧
      nodeSet (nodes.foldl VolatileOverlay.insertNode o) = nodes.foldl upsertInto (nodeSet o) := by
  induction nodes with
  | nil => exact fun consistent => ⟨consistent, rfl⟩
  | cons node rest ih =>
    intro o consistent
    obtain ⟨final, same⟩ := ih (consistent_insertNode consistent node)
    refine ⟨final, same.trans ?_⟩
    rw [nodeSet_insertNode consistent]
    rfl

theorem foldl_removeFrom (ids : List String) : ∀ {o : VolatileOverlay}, Consistent o →
    Consistent (ids.foldl (fun o id => (o.removeNode id).1) o) ∧
      nodeSet (ids.foldl (fun o id => (o.removeNode id).1) o) =
        ids.foldl removeFrom (nodeSet o) := by
  induction ids with
  | nil => exact fun consistent => ⟨consistent, rfl⟩
  | cons id rest ih =>
    intro o consistent
    obtain ⟨final, same⟩ := ih (removeNode_without consistent id).consistent
    refine ⟨final, same.trans ?_⟩
    rw [nodeSet_removeNode consistent]
    rfl

theorem subscribeApply_spec (consistent : Consistent o) (diff : OverlayDiff) :
    Consistent (subscribeApply o diff) ∧
      nodeSet (subscribeApply o diff) = replay (nodeSet o) diff := by
  obtain ⟨added, first⟩ := foldl_insertNode diff.added consistent
  obtain ⟨removed, second⟩ := foldl_removeFrom diff.removed added
  obtain ⟨updated, third⟩ := foldl_insertNode diff.updated removed
  refine ⟨updated, third.trans ?_⟩
  rw [second, first]
  rfl

theorem foldl_subscribeApply (diffs : List OverlayDiff) : ∀ {o : VolatileOverlay},
    Consistent o → nodeSet (diffs.foldl subscribeApply o) = diffs.foldl replay (nodeSet o) := by
  induction diffs with
  | nil => exact fun _ => rfl
  | cons diff rest ih =>
    intro o consistent
    obtain ⟨after, same⟩ := subscribeApply_spec consistent diff
    rw [List.foldl_cons, ih after, same, List.foldl_cons]

/-! ### What the mutators file -/

structure Advances (o o' : VolatileOverlay) (new : List OverlayDiff) : Prop where
  consistent : Consistent o'
  retains : ∀ history, o.log.Retains history → o'.log.Retains (history ++ new)
  nodes : nodeSet o' = new.foldl replay (nodeSet o)

namespace Advances

variable {o' o'' : VolatileOverlay} {new newer : List OverlayDiff}

theorem refl (consistent : Consistent o) : Advances o o [] :=
  ⟨consistent, fun history retains => by rwa [List.append_nil], rfl⟩

theorem trans (first : Advances o o' new) (second : Advances o' o'' newer) :
    Advances o o'' (new ++ newer) where
  consistent := second.consistent
  retains history retains := by
    rw [← List.append_assoc]
    exact second.retains _ (first.retains history retains)
  nodes := by rw [second.nodes, first.nodes, List.foldl_append]

theorem one {diff : OverlayDiff} (consistent : Consistent o') (log : o'.log = o.log.enqueue diff)
    (nodes : nodeSet o' = replay (nodeSet o) diff) : Advances o o' [o.log.filed diff] where
  consistent := consistent
  retains _ retains := log ▸ retains.enqueue diff
  nodes := nodes

theorem none (consistent : Consistent o') (log : o'.log = o.log)
    (nodes : nodeSet o' = nodeSet o) : Advances o o' [] where
  consistent := consistent
  retains history retains := by
    rw [List.append_nil, log]
    exact retains
  nodes := nodes

end Advances

theorem advances_insertNode (consistent : Consistent o) (node : GraphNode) :
    Advances o (o.insertNode node) [o.log.filed { added := [node] }] :=
  .one (consistent_insertNode consistent node) rfl (nodeSet_insertNode consistent node)

theorem advances_removeNode (consistent : Consistent o) (id : String) :
    ∃ new, Advances o (o.removeNode id).1 new := by
  have after := (removeNode_without consistent id).consistent
  have nodes := nodeSet_removeNode consistent id
  cases known : o.nodeIndexMap.get? id with
  | none =>
    have same : (o.removeNode id).1 = o := by
      unfold VolatileOverlay.removeNode
      rw [known]
    exact ⟨[], same.symm ▸ .refl consistent⟩
  | some i =>
    obtain ⟨node, here, -⟩ := (consistent.indexes id i).mp known
    have inside : i < o.graph.nodeCount := inside_of_getElem? here
    have log : (o.removeNode id).1.log = o.log.enqueue { removed := [id] } := by
      unfold VolatileOverlay.removeNode
      rw [known]
      simp only [if_pos inside]
    exact ⟨_, .one after log nodes⟩

theorem advances_removeNodesForPath (ids : List String) : ∀ {o : VolatileOverlay} (count : Nat),
    Consistent o → ∃ new, Advances o (ids.foldl (fun (s : VolatileOverlay × Nat) id =>
      ((s.1.removeNode id).1, if (s.1.removeNode id).2 then s.2 + 1 else s.2)) (o, count)).1 new :=
  by
  induction ids with
  | nil => exact fun _ consistent => ⟨[], .refl consistent⟩
  | cons id rest ih =>
    intro o count consistent
    obtain ⟨new, first⟩ := advances_removeNode consistent id
    obtain ⟨newer, second⟩ := ih (if (o.removeNode id).2 then count + 1 else count)
      first.consistent
    exact ⟨_, first.trans second⟩

theorem advances_insertEdge (consistent : Consistent o) {edge : GraphEdge} {o' : VolatileOverlay}
    (run : o.apply (.insertEdge edge) = some o') : ∃ new, Advances o o' new := by
  change (o.insertEdge edge).map Prod.fst = some o' at run
  cases found : o.edgeIndices edge with
  | error reason =>
    rw [insertEdge_of_error found] at run
    obtain rfl := Option.some.inj run
    exact ⟨[], .refl consistent⟩
  | ok ends =>
    obtain ⟨i, j⟩ := ends
    rw [insertEdge_of_ok found] at run
    simp only [Option.map_map, Option.map_eq_some_iff] at run
    obtain ⟨after, run, rfl⟩ := run
    have added := edgeAdded run
    have final := added.consistent consistent
    have nodes : nodeSet after = nodeSet o := by
      rw [nodeSet, nodeSet, VolatileOverlay.getAllNodes, added.nodes]
      rfl
    unfold VolatileOverlay.addEdgeAt at run
    split_ifs at run with present
    · obtain rfl := Option.some.inj run
      exact ⟨[], .refl consistent⟩
    · obtain ⟨graph, -, rfl⟩ := Option.map_eq_some_iff.mp run
      exact ⟨_, .one final rfl nodes⟩

theorem advances_apply (consistent : Consistent o) {op : OverlayOp} {o' : VolatileOverlay}
    (filed : Filed o op) (run : o.apply op = some o') : ∃ new, Advances o o' new := by
  cases op with
  | insertNode node | upsertNode node =>
    obtain rfl := Option.some.inj run
    exact ⟨_, advances_insertNode consistent node⟩
  | removeNode id =>
    obtain rfl := Option.some.inj run
    exact advances_removeNode consistent id
  | removeNodesForPath path =>
    obtain rfl := Option.some.inj run
    exact advances_removeNodesForPath (o.idsForPath path) 0 consistent
  | insertEdge edge => exact advances_insertEdge consistent run
  | merge other =>
    have empty : other.getAllNodes = [] := filed.2 other rfl
    have edges : other.getAllEdges = [] := by
      refine List.eq_nil_iff_forall_not_mem.mpr fun e member => ?_
      obtain ⟨s, t, w⟩ := e
      have listed : s ∈ other.getAllNodes := (Consistent.mem_of_mem_links member).1
      rw [empty] at listed
      exact absurd listed List.not_mem_nil
    change o.merge other = some o' at run
    rw [VolatileOverlay.merge, empty, edges] at run
    obtain rfl := Option.some.inj run
    exact ⟨[], .refl consistent⟩
  | clear =>
    obtain rfl := Option.some.inj run
    refine ⟨[], .none ?_ rfl (Set.ext fun n => ?_)⟩
    · exact ⟨Consistent.new.lookup, Consistent.new.found, Consistent.new.parallel⟩
    · change n ∈ [] ↔ n ∈ o.getAllNodes
      rw [filed.1 rfl]

theorem LaterFiled.advances {o' : VolatileOverlay} (later : LaterFiled o o')
    (consistent : Consistent o) : ∃ new, Advances o o' new := by
  induction later with
  | refl => exact ⟨[], .refl consistent⟩
  | step op _ filed run ih =>
    obtain ⟨new, first⟩ := ih
    obtain ⟨newer, second⟩ := advances_apply first.consistent filed run
    exact ⟨_, first.trans second⟩

theorem BuiltApart.retains (built : BuiltApart o) : ∃ history, o.log.Retains history := by
  induction built with
  | new => exact ⟨[], RevisionLog.retains_withCapacity 256⟩
  | @step o o' op before merged apart run ih _ =>
    obtain ⟨history, retains⟩ := ih
    have consistent := before.consistent
    have grows : ∀ {new}, Advances o o' new → ∃ history, o'.log.Retains history :=
      fun advances => ⟨_, advances.retains history retains⟩
    cases op with
    | merge other =>
      obtain ⟨o'', run', -, -, -, log⟩ := merge_spec consistent (merged other rfl).consistent
        (apart other rfl)
      obtain rfl := Option.some.inj (run'.symm.trans run)
      exact ⟨history, log ▸ retains⟩
    | clear =>
      obtain rfl := Option.some.inj run
      exact ⟨history, retains⟩
    | insertNode | upsertNode | removeNode | removeNodesForPath | insertEdge =>
      obtain ⟨new, advances⟩ := advances_apply consistent
        ⟨fun same => by injection same, fun _ same => by injection same⟩ run
      exact grows advances

theorem Advances.historyReplays {o' : VolatileOverlay} {new history : List OverlayDiff}
    (advances : Advances o o' new) (retains : o.log.Retains history) : HistoryReplays o o' := by
  have later := advances.retains history retains
  have revision : o.currentRevision = history.length := retains.next
  have current : o'.currentRevision = history.length + new.length := by
    rw [← List.length_append]
    exact later.next
  have answer : ∀ diffs, o'.diffsSince o.currentRevision = .ok diffs → diffs = new := by
    intro diffs answered
    rw [revision, VolatileOverlay.diffsSince, later.diffsSince] at answered
    split_ifs at answered
    rw [← Except.ok.inj answered, List.drop_append, List.drop_length, Nat.sub_self, List.drop_zero,
      List.nil_append]
  constructor
  · intro diffs answered
    obtain rfl := answer diffs answered
    have numbered := (RevisionLog.consecutive_append.mp later.numbered).2
    rw [Nat.zero_add] at numbered
    rw [revision, current]
    exact ⟨numbered, rfl⟩
  · intro diffs answered
    obtain rfl := answer diffs answered
    exact advances.nodes.symm
  · intro diffs answered client consistent same
    obtain rfl := answer diffs answered
    rw [foldl_subscribeApply _ consistent, same]
    exact advances.nodes.symm
  · intro same
    rw [current, revision] at same
    obtain rfl : new = [] := List.eq_nil_of_length_eq_zero (by omega)
    exact advances.nodes

/-- **The history of an overlay replays** from every state since which no clear and no
merge has changed a node. -/
theorem laterFiled_historyReplays : ∀ earlier now, BuiltApart earlier → LaterFiled earlier now →
    HistoryReplays earlier now := by
  intro earlier now built later
  obtain ⟨history, retains⟩ := built.retains
  obtain ⟨new, advances⟩ := later.advances built.consistent
  exact advances.historyReplays retains

theorem historyReplays_sampleOverlay : HistoryReplays sampleOverlay (sampleOverlay.removeNode "a").1 :=
  laterFiled_historyReplays sampleOverlay _
    (.step (.insertNode (sampleNode "a")) .new (by simp) (by simp [SharesNoId]) rfl)
    (.step (.removeNode "a") .refl ⟨by simp, by simp⟩ rfl)

/-- A clear changes the nodes and not the revision. -/
theorem not_later_historyReplays :
    ¬ ∀ earlier now, Reached earlier → Later earlier now → HistoryReplays earlier now := by
  intro all
  have cleared := all sampleOverlay sampleOverlay.clear
    (.step (.insertNode (sampleNode "a")) .new (by simp) rfl)
    (.step .clear .refl (by simp) rfl)
  have seen := cleared.seen rfl
  have member : sampleNode "a" ∈ nodeSet sampleOverlay :=
    (mem_insertNode Consistent.new _).mpr (Or.inr rfl)
  rw [← seen] at member
  exact absurd member List.not_mem_nil

end Lain.Server
