import Mathlib
import Lain.Foundation.Runs
import Lain.Foundation.Writes
import Lain.Server.OverlayHistory

/-!
# The sidecar of an overlay

A sidecar keeps a copy of the overlay of its owner.
-/

namespace Lain.Server

open Foundation

inductive OwnerOp where
  | insert (node : GraphNode)
  | update (node : GraphNode)
  | remove (id : String)
  deriving DecidableEq

/-- The owner's overlay after a mutation. -/
def OwnerOp.mutate (o : VolatileOverlay) : OwnerOp → VolatileOverlay
  | .insert node => o.insertNode node
  | .update node => o.upsertNode node
  | .remove id => (o.removeNode id).1

def OwnerOp.diff : OwnerOp → OverlayDiff
  | .insert node => { added := [node] }
  | .update node => { updated := [node] }
  | .remove id => { removed := [id] }

namespace OverlayDiff

def put (node : GraphNode) : Write String GraphNode :=
  ⟨node.id, some node⟩

/-- Leave nothing under an id. -/
def drop (id : String) : Write String GraphNode :=
  ⟨id, none⟩

def writes (diff : OverlayDiff) : List (Write String GraphNode) :=
  diff.added.map put ++ diff.removed.map drop ++ diff.updated.map put

end OverlayDiff

inductive SidecarPhase where
  | idle
  | merging (snapshot rest : List GraphNode)
  | hydrated (snapshot : Option (List GraphNode))
  | streaming (fetched : Bool)
  deriving DecidableEq

/-- An owner and its sidecar. -/
structure Sidecar where
  owner : VolatileOverlay := .new
  cache : VolatileOverlay := .new
  phase : SidecarPhase := .idle
  wire : List OverlayDiff := []
  channel : List OverlayDiff := []
  lagged : Bool := false

/-- The atomic steps. -/
inductive SidecarStep where
  /-- The owner mutates its overlay and publishes the diff. -/
  | mutate (op : OwnerOp)
  /-- `hydrate_snapshot` has the snapshot. -/
  | fetch
  /-- `hydrate_snapshot` fails. -/
  | fetchFails
  /-- The next node of the snapshot is inserted, or there is none left. -/
  | merge
  /-- The stream is open. -/
  | openStream
  /-- The stream cannot be opened. -/
  | openFails
  /-- A diff arrives and is put into the channel. -/
  | deliver
  /-- The connection breaks. -/
  | disconnect
  /-- `subscribe_apply` applies a diff. -/
  | applyDiff
  deriving DecidableEq

namespace Sidecar

def subscribeChannelCapacity : Nat := 1024

def send (s : Sidecar) (diff : OverlayDiff) : Sidecar :=
  if s.channel.length < subscribeChannelCapacity then
    { s with channel := s.channel ++ [diff] }
  else { s with channel := s.channel.tail ++ [diff], lagged := true }

/-- Publish a diff; it reaches the sidecar only through an open stream. -/
def publish (s : Sidecar) (diff : OverlayDiff) : Sidecar :=
  match s.phase with
  | .streaming _ => { s with wire := s.wire ++ [diff] }
  | _ => s

/-- Take one step. -/
def step (s : Sidecar) : SidecarStep → Option Sidecar
  | .mutate op => some ({ s with owner := op.mutate s.owner }.publish op.diff)
  | .fetch =>
    match s.phase with
    | .idle => some { s with phase := .merging s.owner.getAllNodes s.owner.getAllNodes }
    | _ => none
  | .fetchFails =>
    match s.phase with
    | .idle => some { s with phase := .hydrated none }
    | _ => none
  | .merge =>
    match s.phase with
    | .merging snapshot (node :: rest) =>
      some { s with cache := s.cache.insertNode node, phase := .merging snapshot rest }
    | .merging snapshot [] => some { s with phase := .hydrated (some snapshot) }
    | _ => none
  | .openStream =>
    match s.phase with
    | .hydrated snapshot => some { s with phase := .streaming snapshot.isSome, wire := [] }
    | _ => none
  | .openFails =>
    match s.phase with
    | .hydrated _ => some { s with phase := .idle }
    | _ => none
  | .deliver =>
    match s.phase, s.wire with
    | .streaming _, diff :: rest => some ({ s with wire := rest }.send diff)
    | _, _ => none
  | .disconnect =>
    match s.phase with
    | .streaming _ => some { s with phase := .idle, wire := [] }
    | _ => none
  | .applyDiff =>
    match s.channel with
    | diff :: rest => some { s with cache := subscribeApply s.cache diff, channel := rest }
    | [] => none

/-- The stream is open after a snapshot, no diff is on its way and none was dropped. -/
def Quiet (s : Sidecar) : Prop :=
  s.phase = .streaming true ∧ s.wire = [] ∧ s.channel = [] ∧ s.lagged = false

instance (s : Sidecar) : Decidable s.Quiet :=
  inferInstanceAs (Decidable (_ ∧ _ ∧ _ ∧ _))

/-- **The sidecar has converged**: when all is quiet it holds the nodes of its owner. -/
def Converged (s : Sidecar) : Prop :=
  s.Quiet → nodeSet s.cache = nodeSet s.owner

/-! ### The condition -/

def queued (s : Sidecar) : List (Write String GraphNode) :=
  s.channel.flatMap OverlayDiff.writes

def settled (s : Sidecar) : String → Option GraphNode :=
  Write.applyAll s.cache.getNode s.queued

def ids (s : Sidecar) : List String :=
  s.cache.getAllNodes.map GraphNode.id ++ s.queued.map Write.key

def nextNode (s : Sidecar) : Option GraphNode :=
  match s.phase with
  | .merging _ (node :: _) => some node
  | _ => none

def merged (s : Sidecar) : Option (List GraphNode) :=
  match s.phase with
  | .hydrated snapshot => snapshot
  | _ => none

/-- A step is harmless unless it leaves something behind that no later step corrects: a fetch
while the cache holds, or is about to hold, a node the owner has dropped; a node of the snapshot
that a diff in the channel will change again; the opening of the stream after the owner has moved
on from the snapshot. -/
def Harmless (s : Sidecar) : SidecarStep → Prop
  | .fetch => ∀ id ∈ s.ids, s.owner.getNode id = none → s.settled id = none
  | .merge => ∀ node ∈ s.nextNode, (Write.last s.queued node.id).getD (some node) = some node
  | .openStream => ∀ snapshot ∈ s.merged,
      snapshot ⊆ s.owner.getAllNodes ∧ s.owner.getAllNodes ⊆ snapshot
  | _ => True

instance (s : Sidecar) : (step : SidecarStep) → Decidable (s.Harmless step)
  | .fetch => inferInstanceAs (Decidable (∀ id ∈ s.ids, _ → _))
  | .merge => inferInstanceAs (Decidable (∀ node ∈ s.nextNode, _ = _))
  | .openStream => inferInstanceAs (Decidable (∀ snapshot ∈ s.merged, _ ∧ _))
  | .mutate _ | .fetchFails | .openFails | .deliver | .disconnect | .applyDiff =>
    inferInstanceAs (Decidable True)

end Sidecar

variable {o : VolatileOverlay}

theorem getNode_insertNode (consistent : Consistent o) (node : GraphNode) :
    (o.insertNode node).getNode = Write.apply o.getNode ⟨node.id, some node⟩ := by
  funext id
  unfold Write.apply
  refine Option.ext fun n => ?_
  rw [(consistent_insertNode consistent node).getNode_eq_some, mem_insertNode consistent]
  by_cases named : id = node.id
  · subst named
    rw [Function.update_self, Option.some.injEq]
    constructor
    · rintro ⟨⟨-, other⟩ | rfl, same⟩
      · exact absurd same other
      · rfl
    · rintro rfl
      exact ⟨Or.inr rfl, rfl⟩
  · rw [Function.update_of_ne named, consistent.getNode_eq_some]
    constructor
    · rintro ⟨⟨member, -⟩ | rfl, same⟩
      · exact ⟨member, same⟩
      · exact absurd same.symm named
    · rintro ⟨member, rfl⟩
      exact ⟨Or.inl ⟨member, named⟩, rfl⟩

theorem getNode_removeNode (consistent : Consistent o) (id : String) :
    (o.removeNode id).1.getNode = Write.apply o.getNode ⟨id, none⟩ := by
  have without := removeNode_without consistent id
  funext k
  unfold Write.apply
  refine Option.ext fun n => ?_
  rw [without.consistent.getNode_eq_some, without.nodes]
  by_cases named : k = id
  · subst named
    rw [Function.update_self]
    constructor
    · rintro ⟨⟨-, other⟩, same⟩
      exact absurd same other
    · exact fun none => absurd none (by simp)
  · rw [Function.update_of_ne named, consistent.getNode_eq_some]
    constructor
    · rintro ⟨⟨member, -⟩, same⟩
      exact ⟨member, same⟩
    · rintro ⟨member, rfl⟩
      exact ⟨⟨member, named⟩, rfl⟩

theorem nodeSet_eq_of_getNode {o' : VolatileOverlay} (consistent : Consistent o)
    (theirs : Consistent o') (same : o.getNode = o'.getNode) : nodeSet o = nodeSet o' := by
  refine Set.ext fun n => ?_
  have here : n ∈ o.getAllNodes ↔ o.getNode n.id = some n := by
    rw [consistent.getNode_eq_some, and_iff_left rfl]
  have there : n ∈ o'.getAllNodes ↔ o'.getNode n.id = some n := by
    rw [theirs.getNode_eq_some, and_iff_left rfl]
  exact here.trans (same ▸ there.symm)

theorem foldl_insertNode_getNode (nodes : List GraphNode) : ∀ {o : VolatileOverlay},
    Consistent o → Consistent (nodes.foldl VolatileOverlay.insertNode o) ∧
      (nodes.foldl VolatileOverlay.insertNode o).getNode =
        Write.applyAll o.getNode (nodes.map OverlayDiff.put) := by
  induction nodes with
  | nil => exact fun consistent => ⟨consistent, rfl⟩
  | cons node rest ih =>
    intro o consistent
    obtain ⟨final, same⟩ := ih (consistent_insertNode consistent node)
    refine ⟨final, same.trans ?_⟩
    rw [getNode_insertNode consistent]
    rfl

theorem foldl_removeNode_getNode (ids : List String) : ∀ {o : VolatileOverlay},
    Consistent o → Consistent (ids.foldl (fun o id => (o.removeNode id).1) o) ∧
      (ids.foldl (fun o id => (o.removeNode id).1) o).getNode =
        Write.applyAll o.getNode (ids.map OverlayDiff.drop) := by
  induction ids with
  | nil => exact fun consistent => ⟨consistent, rfl⟩
  | cons id rest ih =>
    intro o consistent
    obtain ⟨final, same⟩ := ih (removeNode_without consistent id).consistent
    refine ⟨final, same.trans ?_⟩
    rw [getNode_removeNode consistent]
    rfl

theorem getNode_subscribeApply (consistent : Consistent o) (diff : OverlayDiff) :
    Consistent (subscribeApply o diff) ∧
      (subscribeApply o diff).getNode = Write.applyAll o.getNode diff.writes := by
  obtain ⟨added, first⟩ := foldl_insertNode_getNode diff.added consistent
  obtain ⟨removed, second⟩ := foldl_removeNode_getNode diff.removed added
  obtain ⟨updated, third⟩ := foldl_insertNode_getNode diff.updated removed
  refine ⟨updated, third.trans ?_⟩
  rw [second, first, OverlayDiff.writes, Write.applyAll_append, Write.applyAll_append]

theorem getNode_mutate (consistent : Consistent o) (op : OwnerOp) :
    Consistent (op.mutate o) ∧
      (op.mutate o).getNode = Write.applyAll o.getNode op.diff.writes := by
  cases op with
  | insert node => exact getNode_subscribeApply consistent { added := [node] }
  | update node => exact getNode_subscribeApply consistent { updated := [node] }
  | remove id => exact getNode_subscribeApply consistent { removed := [id] }

/-! ### The invariant -/

namespace Sidecar

def Finds (values : String → Option GraphNode) (nodes : List GraphNode) (id : String) : Prop :=
  ∀ n, values id = some n ↔ n ∈ nodes ∧ n.id = id

def OnTrack (settled : String → Option GraphNode) (wire : List OverlayDiff)
    (owner : VolatileOverlay) : SidecarPhase → Prop
  | .merging snapshot rest =>
    rest ⊆ snapshot ∧ (∀ n ∈ snapshot, ∀ m ∈ snapshot, n.id = m.id → n = m) ∧
      ∀ id, id ∉ rest.map GraphNode.id → Finds settled snapshot id
  | .hydrated (some snapshot) => ∀ id, Finds settled snapshot id
  | .streaming true =>
    Write.applyAll settled (wire.flatMap OverlayDiff.writes) = owner.getNode
  | _ => True

/-- Both overlays are sound, and unless a diff was dropped the cache is on track. -/
structure Sound (s : Sidecar) : Prop where
  owner : Consistent s.owner
  cache : Consistent s.cache
  onTrack : s.lagged = false → OnTrack s.settled s.wire s.owner s.phase

variable {s s' : Sidecar}

theorem sound_new : Sound {} where
  owner := Consistent.new
  cache := Consistent.new
  onTrack _ := True.intro

theorem settled_of_not_mem_ids (sound : Sound s) {id : String} (unnamed : id ∉ s.ids) :
    s.settled id = none := by
  unfold ids at unnamed
  rw [List.mem_append, not_or] at unnamed
  unfold settled
  rw [Write.applyAll_eq, Write.last_eq_none.mpr fun w member named =>
    unnamed.2 (List.mem_map.mpr ⟨w, member, named⟩)]
  refine Option.eq_none_iff_forall_ne_some.mpr fun n found => ?_
  obtain ⟨member, named⟩ := sound.cache.getNode_eq_some.mp found
  exact unnamed.1 (List.mem_map.mpr ⟨n, member, named⟩)

theorem Sound.mutate (sound : Sound s) (op : OwnerOp) :
    Sound ({ s with owner := op.mutate s.owner }.publish op.diff) := by
  obtain ⟨consistent, written⟩ := getNode_mutate sound.owner op
  obtain ⟨owner, cache, phase, wire, channel, lagged⟩ := s
  cases phase with
  | idle | merging => exact ⟨consistent, sound.cache, sound.onTrack⟩
  | hydrated snapshot =>
    cases snapshot <;> exact ⟨consistent, sound.cache, sound.onTrack⟩
  | streaming fetched =>
    refine ⟨consistent, sound.cache, fun clean => ?_⟩
    have before := sound.onTrack clean
    cases fetched with
    | false => exact True.intro
    | true =>
      change Write.applyAll _ (wire.flatMap OverlayDiff.writes) = owner.getNode at before
      change Write.applyAll _ ((wire ++ [op.diff]).flatMap OverlayDiff.writes) = _
      rw [List.flatMap_append, Write.applyAll_append, List.flatMap_singleton]
      exact (congrArg (Write.applyAll · op.diff.writes) before).trans written.symm

theorem Sound.fetch (sound : Sound s) (harmless : s.Harmless .fetch) :
    Sound { s with phase := .merging s.owner.getAllNodes s.owner.getAllNodes } := by
  refine ⟨sound.owner, sound.cache, fun _ => ⟨List.Subset.refl _, fun n here m there => ?_, ?_⟩⟩
  · exact sound.owner.indexes.node_unique here there
  · intro id absent n
    have dropped : s.owner.getNode id = none := by
      refine Option.eq_none_iff_forall_ne_some.mpr fun m found => absent ?_
      obtain ⟨member, named⟩ := sound.owner.getNode_eq_some.mp found
      exact List.mem_map.mpr ⟨m, member, named⟩
    have gone : s.settled id = none := by
      by_cases named : id ∈ s.ids
      · exact harmless id named dropped
      · exact settled_of_not_mem_ids sound named
    change s.settled id = some n ↔ _
    rw [gone]
    refine ⟨fun found => absurd found (by simp), ?_⟩
    rintro ⟨member, named⟩
    exact absurd (List.mem_map.mpr ⟨n, member, named⟩) absent

theorem Sound.insertNode (sound : Sound s) {snapshot rest : List GraphNode} {node : GraphNode}
    (phase : s.phase = .merging snapshot (node :: rest)) (harmless : s.Harmless .merge) :
    Sound { s with cache := s.cache.insertNode node, phase := .merging snapshot rest } := by
  refine ⟨sound.owner, consistent_insertNode sound.cache node, fun clean => ?_⟩
  have before := sound.onTrack clean
  rw [phase] at before
  obtain ⟨inside, separate, found⟩ := before
  obtain ⟨member, later⟩ := List.cons_subset.mp inside
  have agrees := harmless node (by simp [nextNode, phase])
  refine ⟨later, separate, fun id absent n => ?_⟩
  change Write.applyAll (s.cache.insertNode node).getNode s.queued id = some n ↔ _
  rw [getNode_insertNode sound.cache]
  by_cases named : id = node.id
  · subst named
    rw [Write.applyAll_of_agrees agrees (Write.apply_self _ _), Option.some.injEq]
    constructor
    · rintro rfl
      exact ⟨member, rfl⟩
    · exact fun listed => separate node member n listed.1 listed.2.symm
  · rw [Write.applyAll_apply_of_ne named]
    refine found id (fun listed => ?_) n
    rw [List.map_cons, List.mem_cons] at listed
    exact listed.elim named absent

theorem Sound.openStream (sound : Sound s) {snapshot : Option (List GraphNode)}
    (phase : s.phase = .hydrated snapshot) (harmless : s.Harmless .openStream) :
    Sound { s with phase := .streaming snapshot.isSome, wire := [] } := by
  refine ⟨sound.owner, sound.cache, fun clean => ?_⟩
  have before := sound.onTrack clean
  rw [phase] at before
  cases snapshot with
  | none => exact True.intro
  | some nodes =>
    obtain ⟨kept, all⟩ := harmless nodes (by simp [merged, phase])
    change s.settled = s.owner.getNode
    funext id
    refine Option.ext fun n => ?_
    rw [before id n, sound.owner.getNode_eq_some]
    exact and_congr_left fun _ => ⟨fun member => kept member, fun member => all member⟩

theorem Sound.deliver (sound : Sound s) {diff : OverlayDiff} {rest : List OverlayDiff}
    {fetched : Bool} (phase : s.phase = .streaming fetched) (wire : s.wire = diff :: rest) :
    Sound ({ s with wire := rest }.send diff) := by
  unfold send
  split_ifs
  · refine ⟨sound.owner, sound.cache, fun clean => ?_⟩
    have before := sound.onTrack clean
    change OnTrack (settled { s with channel := s.channel ++ [diff] }) rest s.owner s.phase
    rw [phase] at before ⊢
    cases fetched with
    | false => exact True.intro
    | true =>
      refine Eq.trans ?_ before
      unfold settled queued
      rw [wire, List.flatMap_append, List.flatMap_singleton, List.flatMap_cons,
        Write.applyAll_append, Write.applyAll_append]
  · exact ⟨sound.owner, sound.cache, fun clean => absurd clean (by simp)⟩

theorem Sound.applyDiff (sound : Sound s) {diff : OverlayDiff} {rest : List OverlayDiff}
    (channel : s.channel = diff :: rest) :
    Sound { s with cache := subscribeApply s.cache diff, channel := rest } := by
  obtain ⟨consistent, written⟩ := getNode_subscribeApply sound.cache diff
  refine ⟨sound.owner, consistent, fun clean => ?_⟩
  have same : settled { s with cache := subscribeApply s.cache diff, channel := rest } =
      s.settled := by
    unfold settled queued
    rw [channel, List.flatMap_cons, Write.applyAll_append, ← written]
  change OnTrack (settled { s with cache := _, channel := _ }) s.wire s.owner s.phase
  rw [same]
  exact sound.onTrack clean

theorem Sound.step (sound : Sound s) {event : SidecarStep} (harmless : s.Harmless event)
    (moved : s.step event = some s') : Sound s' := by
  have reset : ∀ {phase wire}, OnTrack s.settled wire s.owner phase →
      Sound { s with phase, wire } := fun track => ⟨sound.owner, sound.cache, fun _ => track⟩
  cases event with
  | mutate op =>
    cases moved
    exact sound.mutate op
  | fetch =>
    simp only [Sidecar.step] at moved
    split at moved <;> cases moved
    exact sound.fetch harmless
  | fetchFails =>
    simp only [Sidecar.step] at moved
    split at moved <;> cases moved
    exact reset True.intro
  | merge =>
    simp only [Sidecar.step] at moved
    split at moved <;> cases moved
    next phase => exact sound.insertNode phase harmless
    next phase =>
      refine ⟨sound.owner, sound.cache, fun clean id => ?_⟩
      have before := sound.onTrack clean
      rw [phase] at before
      exact before.2.2 id List.not_mem_nil
  | openStream =>
    simp only [Sidecar.step] at moved
    split at moved <;> cases moved
    next phase => exact sound.openStream phase harmless
  | openFails =>
    simp only [Sidecar.step] at moved
    split at moved <;> cases moved
    exact reset True.intro
  | deliver =>
    simp only [Sidecar.step] at moved
    split at moved <;> cases moved
    next phase wire => exact sound.deliver phase wire
  | disconnect =>
    simp only [Sidecar.step] at moved
    split at moved <;> cases moved
    exact reset True.intro
  | applyDiff =>
    simp only [Sidecar.step] at moved
    split at moved <;> cases moved
    next channel => exact sound.applyDiff channel

theorem Sound.converged (sound : Sound s) : s.Converged := by
  rintro ⟨phase, wire, channel, clean⟩
  have track := sound.onTrack clean
  rw [phase, wire] at track
  refine nodeSet_eq_of_getNode sound.cache sound.owner ?_
  change s.settled = s.owner.getNode at track
  rw [← track, settled, queued, channel]
  rfl

/-- **A sidecar converges to its owner** as long as none of its steps leaves behind what no later
step corrects. -/
theorem converged_of_harmless {events : List SidecarStep}
    (run : Runs step Harmless {} events s) : s.Converged := by
  refine Sound.converged (Runs.invariant (I := fun _ s => Sound s) sound_new ?_ run)
  intro _ _ _ _ sound harmless moved
  exact sound.step harmless moved

theorem converged_of_harmless_twoNodes :
    ∃ s, Runs step Harmless {}
      [.mutate (.insert (sampleNode "a")), .fetch, .merge, .merge, .openStream,
        .mutate (.insert (sampleNode "b")), .mutate (.remove "a"), .deliver, .applyDiff,
        .deliver, .applyDiff] s ∧
      s.Quiet ∧ s.owner.getAllNodes = [sampleNode "b"] ∧ s.Converged := by
  have ran : (execute step Harmless {}
      [.mutate (.insert (sampleNode "a")), .fetch, .merge, .merge, .openStream,
        .mutate (.insert (sampleNode "b")), .mutate (.remove "a"), .deliver, .applyDiff,
        .deliver, .applyDiff]).map (fun s => (decide s.Quiet, s.owner.getAllNodes)) =
        some (true, [sampleNode "b"]) := by
    decide +kernel
  obtain ⟨s, done, facts⟩ := Option.map_eq_some_iff.mp ran
  obtain ⟨quiet, owned⟩ := Prod.mk.inj facts
  have run := runs_of_execute done
  exact ⟨s, run, of_decide_eq_true quiet, owned, converged_of_harmless run⟩

/-- A node that the owner removes while the sidecar is not connected stays in the cache. -/
theorem converged_fails : ¬ ∀ (events : List SidecarStep) (s : Sidecar),
    Runs step (fun _ _ => True) {} events s → s.Converged := by
  intro all
  have ran : (execute step (fun _ _ => True) {}
      [.mutate (.insert (sampleNode "a")), .fetch, .merge, .merge, .openStream, .disconnect,
        .mutate (.remove "a"), .fetch, .merge, .openStream]).map
      (fun s => (decide s.Quiet, s.owner.getAllNodes, s.cache.getAllNodes)) =
        some (true, [], [sampleNode "a"]) := by
    decide +kernel
  obtain ⟨s, done, facts⟩ := Option.map_eq_some_iff.mp ran
  obtain ⟨quiet, nodes⟩ := Prod.mk.inj facts
  obtain ⟨owned, cached⟩ := Prod.mk.inj nodes
  have same := all _ s (runs_of_execute done) (of_decide_eq_true quiet)
  have member : sampleNode "a" ∈ nodeSet s.owner := by
    rw [← same]
    change _ ∈ s.cache.getAllNodes
    rw [cached]
    exact List.mem_singleton_self _
  change _ ∈ s.owner.getAllNodes at member
  rw [owned] at member
  exact absurd member List.not_mem_nil

end Sidecar

end Lain.Server
