import Mathlib
import Lain.Graph.Persist

/-!
# Nodes that share an id

A loaded state may hold several nodes of one id.
-/

namespace Lain.Graph

open Foundation

namespace GraphState

/-! ### What is asked of the healing -/

def Points (state : GraphState) (id : String) (i : Nat) : Prop :=
  state.indexMap.lookup id = some i ∧ slotKey state.graph GraphNode.id i = some id

/-- **A node is kept**: the index points at it, or at no node of its id, and it is the first of
them. -/
def Kept (state : GraphState) (i : Nat) : Prop :=
  ∃ id, slotKey state.graph GraphNode.id i = some id ∧
    (state.Points id i ∨
      (∀ j, ¬state.Points id j) ∧ ∀ j, slotKey state.graph GraphNode.id j = some id → i ≤ j)

def Parallel (state : GraphState) (a b : Arc GraphEdge) : Prop :=
  slotKey state.graph GraphNode.id a.source = slotKey state.graph GraphNode.id b.source ∧
    slotKey state.graph GraphNode.id a.target = slotKey state.graph GraphNode.id b.target

def Links (state : GraphState) (source target : String) (key : EdgeKey) : Prop :=
  ∃ a ∈ state.graph.arcs, slotKey state.graph GraphNode.id a.source = some source ∧
    slotKey state.graph GraphNode.id a.target = some target ∧ edgeIdentityKey a.weight = key

/-- **A state is healed to another**: ids are unique, the index is exact, and the edges are the same
up to their identity. -/
structure HealedTo (state healed : GraphState) : Prop where
  unique : ∀ i j id, slotKey healed.graph GraphNode.id i = some id →
    slotKey healed.graph GraphNode.id j = some id → i = j
  locates : healed.indexMap.Locates (slotKey healed.graph GraphNode.id)
  links : ∀ source target key, healed.Links source target key ↔ state.Links source target key

def Held (state : GraphState) (a : Arc GraphEdge) : Prop :=
  state.Kept a.source ∧ state.Kept a.target

def Looped (state : GraphState) (a : Arc GraphEdge) : Prop :=
  a.source = a.target ∧ ¬state.Kept a.source

def Alike (state : GraphState) (a b : Arc GraphEdge) : Prop :=
  state.Parallel a b ∧ a.weight.edgeType = b.weight.edgeType

def Same (state : GraphState) (a b : Arc GraphEdge) : Prop :=
  state.Parallel a b ∧ edgeIdentityKey a.weight = edgeIdentityKey b.weight

/-- **An edge survives**: an edge of its identity is held, or none of its type is held, all of its
type have its identity, and not all of them are loops. -/
def Survives (state : GraphState) (a : Arc GraphEdge) : Prop :=
  (∃ b ∈ state.graph.arcs, state.Held b ∧ state.Same a b) ∨
    (∀ b ∈ state.graph.arcs, state.Alike a b → ¬state.Held b ∧ state.Same a b) ∧
      ∃ b ∈ state.graph.arcs, state.Alike a b ∧ ¬state.Looped b

/-- **A state can be healed**: every id of the index is the id of a node, and every edge survives. -/
structure Healable (state : GraphState) : Prop where
  named : ∀ id i, state.indexMap.lookup id = some i →
    ∃ j, slotKey state.graph GraphNode.id j = some id
  survives : ∀ a ∈ state.graph.arcs, state.Survives a

end GraphState

/-! ### Moving edges -/

def Together (a b : Arc GraphEdge) : Prop :=
  a.source = b.source ∧ a.target = b.target ∧ a.weight.edgeType = b.weight.edgeType

/-- **What moving edges does to a graph.** Nothing is lost, only edges to move that avoid the stray
node are added, each of them has one of its type in its place then, and an edge that was added is
alone in its place. -/
structure Moves (stray : Nat) (moved : List (Arc GraphEdge))
    (graph after : StableGraph GraphNode GraphEdge) : Prop where
  nodes : ∀ j, after.nodeWeight j = graph.nodeWeight j
  keeps : ∀ a ∈ graph.arcs, a ∈ after.arcs
  origin : ∀ a ∈ after.arcs, a ∈ graph.arcs ∨ a ∈ moved ∧ a.source ≠ stray ∧ a.target ≠ stray
  covers : ∀ m ∈ moved, m.source ≠ stray → m.target ≠ stray → ∃ a ∈ after.arcs, Together m a
  alone : ∀ a ∈ after.arcs, ∀ b ∈ after.arcs, a ∉ graph.arcs → Together a b → b = a

variable {stray : Nat} {graph after : StableGraph GraphNode GraphEdge}
  {moved : List (Arc GraphEdge)}

theorem Moves.skip (moves : Moves stray moved graph after) {m : Arc GraphEdge}
    (covered : m.source ≠ stray → m.target ≠ stray → ∃ a ∈ after.arcs, Together m a) :
    Moves stray (moved ++ [m]) graph after where
  nodes := moves.nodes
  keeps := moves.keeps
  origin := by
    intro a member
    rcases moves.origin a member with old | ⟨listed, apart⟩
    · exact .inl old
    · exact .inr ⟨List.mem_append_left _ listed, apart⟩
  covers := by
    intro m' listed source target
    rcases List.mem_append.mp listed with before | last
    · exact moves.covers m' before source target
    · obtain rfl := List.mem_singleton.mp last
      exact covered source target
  alone := moves.alone

theorem Moves.add (moves : Moves stray moved graph after) {m : Arc GraphEdge}
    {last : StableGraph GraphNode GraphEdge} (source : m.source ≠ stray) (target : m.target ≠ stray)
    (none_ : ∀ a ∈ after.arcs, ¬Together m a)
    (same : ∀ j, last.nodeWeight j = after.nodeWeight j) (added : last.arcs = after.arcs ++ [m]) :
    Moves stray (moved ++ [m]) graph last where
  nodes j := (same j).trans (moves.nodes j)
  keeps a member := by
    rw [added]
    exact List.mem_append_left _ (moves.keeps a member)
  origin := by
    intro a member
    rw [added] at member
    rcases List.mem_append.mp member with before | here
    · rcases moves.origin a before with old | ⟨listed, apart⟩
      · exact .inl old
      · exact .inr ⟨List.mem_append_left _ listed, apart⟩
    · obtain rfl := List.mem_singleton.mp here
      exact .inr ⟨List.mem_append_right _ (List.mem_singleton_self _), source, target⟩
  covers := by
    intro m' listed source' target'
    rw [added]
    rcases List.mem_append.mp listed with before | here
    · obtain ⟨a, member, together⟩ := moves.covers m' before source' target'
      exact ⟨a, List.mem_append_left _ member, together⟩
    · obtain rfl := List.mem_singleton.mp here
      exact ⟨m', List.mem_append_right _ (List.mem_singleton_self _), rfl, rfl, rfl⟩
  alone := by
    intro a inA b inB new together
    rw [added] at inA inB
    rcases List.mem_append.mp inA with oldA | newA <;>
      rcases List.mem_append.mp inB with oldB | newB
    · exact moves.alone a oldA b oldB new together
    · obtain rfl := List.mem_singleton.mp newB
      exact absurd ⟨together.1.symm, together.2.1.symm, together.2.2.symm⟩ (none_ a oldA)
    · obtain rfl := List.mem_singleton.mp newA
      exact absurd together (none_ b oldB)
    · rw [List.mem_singleton.mp newA, List.mem_singleton.mp newB]

/-- **Moving edges one after the other.** -/
theorem moves_foldl (stray : Nat) (graph : StableGraph GraphNode GraphEdge)
    {moved : List (Arc GraphEdge)}
    (live : ∀ m ∈ moved, (∃ n, graph.nodeWeight m.source = some n) ∧
      ∃ n, graph.nodeWeight m.target = some n) :
    Moves stray moved graph (moved.foldl (GraphState.moveEdge stray) graph) := by
  induction moved using List.reverseRecOn with
  | nil =>
    exact ⟨fun _ => rfl, fun _ member => member, fun _ member => .inl member,
      fun _ member => absurd member List.not_mem_nil,
      fun a inA b inB new _ => absurd inA new⟩
  | append_singleton moved m ih =>
    have moves := ih fun m member => live m (List.mem_append_left _ member)
    rw [List.foldl_append, List.foldl_cons, List.foldl_nil, GraphState.moveEdge]
    split_ifs with incident already
    · exact moves.skip fun source target => absurd incident (not_or.mpr ⟨source, target⟩)
    · refine moves.skip fun _ _ => ?_
      obtain ⟨a, member, type⟩ := List.any_eq_true.mp already
      obtain ⟨there, source, target⟩ := StableGraph.mem_edgesConnecting.mp member
      exact ⟨a, there, source.symm, target.symm, (of_decide_eq_true type).symm⟩
    · obtain ⟨⟨n, source⟩, n', target⟩ :=
        live m (List.mem_append_right _ (List.mem_singleton_self _))
      obtain ⟨last, added⟩ := StableGraph.addEdge_isSome m.weight
        ((moves.nodes _).trans source) ((moves.nodes _).trans target)
      obtain ⟨same, arcs⟩ := StableGraph.addEdge_eq_some added
      obtain ⟨sourceApart, targetApart⟩ := not_or.mp incident
      rw [added, Option.getD_some]
      refine moves.add sourceApart targetApart ?_ same arcs
      intro a member together
      exact already (List.any_eq_true.mpr ⟨a, StableGraph.mem_edgesConnecting.mpr
        ⟨member, together.1.symm, together.2.1.symm⟩, decide_eq_true together.2.2.symm⟩)

namespace GraphState

/-! ### Kept nodes -/

variable {state s : GraphState} {i j : Nat} {id : String}

theorem Kept.eq (left : state.Kept i) (right : state.Kept j)
    (leftId : slotKey state.graph GraphNode.id i = some id)
    (rightId : slotKey state.graph GraphNode.id j = some id) : i = j := by
  obtain ⟨idL, hereL, chosenL⟩ := left
  obtain ⟨idR, hereR, chosenR⟩ := right
  obtain rfl := Option.some_inj.mp (hereL.symm.trans leftId)
  obtain rfl := Option.some_inj.mp (hereR.symm.trans rightId)
  rcases chosenL with points | ⟨nowhere, first⟩ <;> rcases chosenR with points' | ⟨nowhere', first'⟩
  · exact Option.some_inj.mp (points.1.symm.trans points'.1)
  · exact absurd points (nowhere' i)
  · exact absurd points' (nowhere j)
  · exact le_antisymm (first j hereR) (first' i hereL)

theorem exists_kept (here : slotKey state.graph GraphNode.id i = some id) :
    ∃ k, state.Kept k ∧ slotKey state.graph GraphNode.id k = some id := by
  by_cases points : ∃ k, state.Points id k
  · obtain ⟨k, points⟩ := points
    exact ⟨k, ⟨id, points.2, .inl points⟩, points.2⟩
  · classical
    have some_ : ∃ k, slotKey state.graph GraphNode.id k = some id := ⟨i, here⟩
    exact ⟨Nat.find some_, ⟨id, Nat.find_spec some_, .inr ⟨not_exists.mp points,
      fun j there => Nat.find_min' some_ there⟩⟩, Nat.find_spec some_⟩

theorem mem_strays {n : GraphNode} :
    (i, n) ∈ state.strays ↔
      state.graph.nodeWeight i = some n ∧ state.indexMap.lookup n.id ≠ some i := by
  unfold strays
  rw [List.mem_filter, StableGraph.mem_nodeReferences, decide_eq_true_iff]

theorem kept_of_located (located : state.indexMap.lookup id = some i)
    (here : slotKey state.graph GraphNode.id i = some id) : state.Kept i :=
  ⟨id, here, .inl ⟨located, here⟩⟩

theorem keep_eq_some {k : Nat} :
    ((s.indexMap.lookup id).bind fun k => (s.graph.nodeWeight k).bind fun n =>
      if n.id = id then some k else none) = some k ↔ s.Points id k := by
  unfold Points
  rw [Option.bind_eq_some_iff]
  constructor
  · rintro ⟨k', located, found⟩
    obtain ⟨n, live, named⟩ := Option.bind_eq_some_iff.mp found
    split_ifs at named with same
    cases named
    exact ⟨located, slotKey_eq_some.mpr ⟨n, live, same⟩⟩
  · rintro ⟨located, here⟩
    obtain ⟨n, live, same⟩ := slotKey_eq_some.mp here
    exact ⟨k, located, Option.bind_eq_some_iff.mpr ⟨n, live, if_pos same⟩⟩

/-! ### One stray after the other -/

/-- **What holds after some strays.** Those that are not kept are gone and the index points at those
that are; edges between live nodes are there still, an edge comes from one between nodes of the same
ids that is no loop unless it was there before, every edge that is no loop has one of its type, and
an edge that was not there before is alone in its place. -/
structure Progress (state : GraphState) (done : List Nat) (s : GraphState) : Prop where
  gone : ∀ i ∈ done, ¬state.Kept i → s.graph.nodeWeight i = none
  stays : ∀ i, (i ∈ done → state.Kept i) → s.graph.nodeWeight i = state.graph.nodeWeight i
  found : ∀ i ∈ done, state.Kept i → ∀ id, slotKey state.graph GraphNode.id i = some id →
    s.indexMap.lookup id = some i
  index : ∀ id, (∀ i ∈ done, state.Kept i → slotKey state.graph GraphNode.id i ≠ some id) →
    s.indexMap.lookup id = state.indexMap.lookup id
  retained : ∀ a ∈ state.graph.arcs, (a.source ∈ done → state.Kept a.source) →
    (a.target ∈ done → state.Kept a.target) → a ∈ s.graph.arcs
  origin : ∀ a ∈ s.graph.arcs, ∃ b ∈ state.graph.arcs, state.Parallel a b ∧
    a.weight = b.weight ∧ (a ∉ state.graph.arcs → ¬state.Looped b)
  covered : ∀ b ∈ state.graph.arcs, ¬state.Looped b →
    ∃ a ∈ s.graph.arcs, state.Alike b a ∧ ¬state.Looped a
  alone : ∀ a ∈ s.graph.arcs, ∀ b ∈ s.graph.arcs, a ∉ state.graph.arcs → Together a b → b = a

theorem progress_nil (state : GraphState) : Progress state [] state where
  gone := by simp
  stays := fun _ _ => rfl
  found := by simp
  index := fun _ _ => rfl
  retained := fun _ member _ _ => member
  origin := fun a member => ⟨a, member, ⟨rfl, rfl⟩, rfl, fun new => absurd member new⟩
  covered := fun b member apart => ⟨b, member, ⟨⟨rfl, rfl⟩, rfl⟩, apart⟩
  alone := fun _ inA _ _ new _ => absurd inA new

variable {done : List Nat} {n : GraphNode}

theorem Progress.of_live (progress : Progress state done s)
    (live : s.graph.nodeWeight i = some n) :
    state.graph.nodeWeight i = some n ∧ (i ∈ done → state.Kept i) := by
  have kept : i ∈ done → state.Kept i := by
    intro member
    by_contra dropped
    rw [progress.gone i member dropped] at live
    cases live
  exact ⟨(progress.stays i kept).symm.trans live, kept⟩

structure Next (state : GraphState) (done : List Nat) (i : Nat) (n : GraphNode) : Prop where
  live : state.graph.nodeWeight i = some n
  astray : state.indexMap.lookup n.id ≠ some i
  fresh : i ∉ done
  before : ∀ j < i, ∀ m, state.graph.nodeWeight j = some m →
    state.indexMap.lookup m.id ≠ some j → j ∈ done

theorem Progress.keep_none (progress : Progress state done s) (next : Next state done i n)
    (kept : state.Kept i) (k : Nat) : ¬s.Points n.id k := by
  rintro ⟨located, here⟩
  have named : slotKey state.graph GraphNode.id i = some n.id :=
    slotKey_eq_some.mpr ⟨n, next.live, rfl⟩
  have same : s.indexMap.lookup n.id = state.indexMap.lookup n.id :=
    progress.index n.id fun j member keptJ namedJ =>
      next.fresh (kept.eq keptJ named namedJ ▸ member)
  obtain ⟨m, live, id_⟩ := slotKey_eq_some.mp here
  have points : state.Points n.id k :=
    ⟨same ▸ located, slotKey_eq_some.mpr ⟨m, (progress.of_live live).1, id_⟩⟩
  obtain ⟨id', named', chosen⟩ := kept
  obtain rfl := Option.some_inj.mp (named'.symm.trans named)
  rcases chosen with pointed | ⟨nowhere, -⟩
  · exact next.astray pointed.1
  · exact nowhere k points

theorem Progress.keep_some (progress : Progress state done s) (next : Next state done i n)
    (dropped : ¬state.Kept i) :
    ∃ k, s.Points n.id k ∧ state.Kept k ∧ slotKey state.graph GraphNode.id k = some n.id ∧
      k ≠ i := by
  have named : slotKey state.graph GraphNode.id i = some n.id :=
    slotKey_eq_some.mpr ⟨n, next.live, rfl⟩
  obtain ⟨k, kept, here⟩ := exists_kept named
  have apart : k ≠ i := fun same => dropped (same ▸ kept)
  have live : slotKey s.graph GraphNode.id k = some n.id := by
    unfold slotKey at here ⊢
    rw [progress.stays k fun _ => kept]
    exact here
  refine ⟨k, ⟨?_, live⟩, kept, here, apart⟩
  by_cases there : k ∈ done
  · exact progress.found k there kept n.id here
  · rw [progress.index n.id fun j member keptJ namedJ =>
      there (kept.eq keptJ here namedJ ▸ member)]
    obtain ⟨m, weight, id_⟩ := slotKey_eq_some.mp here
    obtain ⟨id', named', chosen⟩ := kept
    obtain rfl := Option.some_inj.mp (named'.symm.trans here)
    rcases chosen with points | ⟨nowhere, first⟩
    · exact points.1
    · by_contra astray
      exact there (next.before k (lt_of_le_of_ne (first i named) apart) m weight (id_ ▸ astray))

theorem Progress.index_stray (progress : Progress state done s) (next : Next state done i n)
    (kept : state.Kept i) :
    Progress state (done ++ [i]) { s with indexMap := s.indexMap.insert n.id i } := by
  have named : slotKey state.graph GraphNode.id i = some n.id :=
    slotKey_eq_some.mpr ⟨n, next.live, rfl⟩
  have only {j : Nat} (member : j ∈ done ++ [i]) : j ∈ done ∨ j = i :=
    (List.mem_append.mp member).imp id List.mem_singleton.mp
  refine ⟨?_, ?_, ?_, ?_, ?_, progress.origin, progress.covered, progress.alone⟩
  · intro j member dropped
    rcases only member with before | rfl
    · exact progress.gone j before dropped
    · exact absurd kept dropped
  · exact fun j stays => progress.stays j fun member => stays (List.mem_append_left _ member)
  · intro j member keptJ id_ namedJ
    by_cases same : id_ = n.id
    · rw [same, kept.eq keptJ named (same ▸ namedJ)]
      exact AList.lookup_insert _
    · rcases only member with before | rfl
      · rw [← progress.found j before keptJ id_ namedJ]
        exact AList.lookup_insert_ne same
      · exact absurd (Option.some_inj.mp (namedJ.symm.trans named)) same
  · intro id_ others
    have same : id_ ≠ n.id := fun same =>
      others i (List.mem_append_right _ (List.mem_singleton_self i)) kept (same ▸ named)
    rw [← progress.index id_ fun j member => others j (List.mem_append_left _ member)]
    exact AList.lookup_insert_ne same
  · exact fun a member source target => progress.retained a member
      (fun inside => source (List.mem_append_left _ inside))
      (fun inside => target (List.mem_append_left _ inside))

def movedEdges (graph : StableGraph GraphNode GraphEdge) (i k : Nat) : List (Arc GraphEdge) :=
  (graph.arcs.filter fun a => decide (a.source = i)).reverse.map (fun a => { a with source := k }) ++
    (graph.arcs.filter fun a => decide (a.target = i)).reverse.map fun a => { a with target := k }

theorem mem_movedEdges {graph : StableGraph GraphNode GraphEdge} {k : Nat} {m : Arc GraphEdge} :
    m ∈ movedEdges graph i k ↔
      ∃ a ∈ graph.arcs, a.source = i ∧ m = { a with source := k } ∨
        a.target = i ∧ m = { a with target := k } := by
  unfold movedEdges
  simp only [List.mem_append, List.mem_map, List.mem_reverse, List.mem_filter,
    decide_eq_true_iff]
  constructor
  · rintro (⟨a, ⟨member, here⟩, rfl⟩ | ⟨a, ⟨member, here⟩, rfl⟩)
    · exact ⟨a, member, .inl ⟨here, rfl⟩⟩
    · exact ⟨a, member, .inr ⟨here, rfl⟩⟩
  · rintro ⟨a, member, ⟨here, rfl⟩ | ⟨here, rfl⟩⟩
    · exact .inl ⟨a, ⟨member, here⟩, rfl⟩
    · exact .inr ⟨a, ⟨member, here⟩, rfl⟩

theorem Progress.fold_stray (progress : Progress state done s) (next : Next state done i n)
    (dropped : ¬state.Kept i) {k : Nat} (kept : state.Kept k)
    (named : slotKey state.graph GraphNode.id k = some n.id) (apart : k ≠ i)
    {after : StableGraph GraphNode GraphEdge}
    (moves : Moves i (movedEdges s.graph i k) s.graph after) :
    Progress state (done ++ [i]) { s with graph := after.removeNode i } := by
  have same : slotKey state.graph GraphNode.id k = slotKey state.graph GraphNode.id i :=
    named.trans (slotKey_eq_some.mpr ⟨n, next.live, rfl⟩).symm
  have before {j : Nat} (member : j ∈ done ++ [i]) (other : j ≠ i) : j ∈ done :=
    (List.mem_append.mp member).resolve_right fun last => other (List.mem_singleton.mp last)
  have last : i ∈ done ++ [i] := List.mem_append_right _ (List.mem_singleton_self i)
  have weight (j : Nat) (other : j ≠ i) :
      (after.removeNode i).nodeWeight j = s.graph.nodeWeight j := by
    rw [StableGraph.nodeWeight_removeNode, if_neg other, moves.nodes]
  refine ⟨?_, ?_, ?_, ?_, ?_, ?_, ?_, ?_⟩
  · intro j member droppedJ
    by_cases here : j = i
    · dsimp only
      rw [StableGraph.nodeWeight_removeNode, if_pos here]
    · exact (weight j here).trans (progress.gone j (before member here) droppedJ)
  · intro j stays
    have other : j ≠ i := fun here => dropped (here ▸ stays (here ▸ last))
    exact (weight j other).trans
      (progress.stays j fun member => stays (List.mem_append_left _ member))
  · intro j member keptJ
    exact progress.found j (before member fun here => dropped (here ▸ keptJ)) keptJ
  · exact fun id_ others => progress.index id_ fun j member =>
      others j (List.mem_append_left _ member)
  · intro a member source target
    have sourceApart : a.source ≠ i := fun here => dropped (here ▸ source (here ▸ last))
    have targetApart : a.target ≠ i := fun here => dropped (here ▸ target (here ▸ last))
    refine (StableGraph.mem_arcs_removeNode _ _ _).mpr ⟨moves.keeps a ?_, sourceApart, targetApart⟩
    exact progress.retained a member (fun inside => source (List.mem_append_left _ inside))
      fun inside => target (List.mem_append_left _ inside)
  · intro a member
    obtain ⟨there, sourceApart, targetApart⟩ := (StableGraph.mem_arcs_removeNode _ _ _).mp member
    rcases moves.origin a there with old | ⟨listed, -, -⟩
    · exact progress.origin a old
    · obtain ⟨b, inB, shape⟩ := mem_movedEdges.mp listed
      have straight : b.source ≠ b.target := by
        rcases shape with ⟨here, rfl⟩ | ⟨here, rfl⟩
        · exact fun loop => targetApart (loop.symm.trans here)
        · exact fun loop => sourceApart (loop.trans here)
      have parallel : state.Parallel a b := by
        rcases shape with ⟨here, rfl⟩ | ⟨here, rfl⟩
        · exact ⟨same.trans (congrArg _ here.symm), rfl⟩
        · exact ⟨rfl, same.trans (congrArg _ here.symm)⟩
      have weighs : a.weight = b.weight := by
        rcases shape with ⟨-, rfl⟩ | ⟨-, rfl⟩ <;> rfl
      by_cases original : b ∈ state.graph.arcs
      · exact ⟨b, original, parallel, weighs, fun _ looped => straight looped.1⟩
      · obtain ⟨c, inC, parallel', weighs', loopless⟩ := progress.origin b inB
        exact ⟨c, inC, ⟨parallel.1.trans parallel'.1, parallel.2.trans parallel'.2⟩,
          weighs.trans weighs', fun _ => loopless original⟩
  · intro b inB loopless
    obtain ⟨a, inA, alike, looplessA⟩ := progress.covered b inB loopless
    by_cases source : a.source = i
    · have target : a.target ≠ i := fun here =>
        looplessA ⟨source.trans here.symm, source ▸ dropped⟩
      obtain ⟨c, inC, together⟩ := moves.covers { a with source := k }
        (mem_movedEdges.mpr ⟨a, inA, .inl ⟨source, rfl⟩⟩) apart target
      refine ⟨c, (StableGraph.mem_arcs_removeNode _ _ _).mpr ⟨inC, ?_, ?_⟩, ⟨⟨?_, ?_⟩, ?_⟩, ?_⟩
      · exact together.1 ▸ apart
      · exact together.2.1 ▸ target
      · rw [alike.1.1, source, ← same]
        exact congrArg _ together.1
      · exact alike.1.2.trans (congrArg _ together.2.1)
      · exact alike.2.trans together.2.2
      · exact fun looped => looped.2 (together.1 ▸ kept)
    · by_cases target : a.target = i
      · obtain ⟨c, inC, together⟩ := moves.covers { a with target := k }
          (mem_movedEdges.mpr ⟨a, inA, .inr ⟨target, rfl⟩⟩) source apart
        refine ⟨c, (StableGraph.mem_arcs_removeNode _ _ _).mpr ⟨inC, ?_, ?_⟩, ⟨⟨?_, ?_⟩, ?_⟩, ?_⟩
        · exact together.1 ▸ source
        · exact together.2.1 ▸ apart
        · exact alike.1.1.trans (congrArg _ together.1)
        · rw [alike.1.2, target, ← same]
          exact congrArg _ together.2.1
        · exact alike.2.trans together.2.2
        · exact fun looped => looped.2 (looped.1 ▸ together.2.1 ▸ kept)
      · exact ⟨a, (StableGraph.mem_arcs_removeNode _ _ _).mpr
          ⟨moves.keeps a inA, source, target⟩, alike, looplessA⟩
  · intro a inA b inB new together
    have thereA := ((StableGraph.mem_arcs_removeNode _ _ _).mp inA).1
    have thereB := ((StableGraph.mem_arcs_removeNode _ _ _).mp inB).1
    by_cases oldA : a ∈ s.graph.arcs
    · by_cases oldB : b ∈ s.graph.arcs
      · exact progress.alone a oldA b oldB new together
      · exact (moves.alone b thereB a thereA oldB
          ⟨together.1.symm, together.2.1.symm, together.2.2.symm⟩).symm
    · exact moves.alone a thereA b thereB oldA together

/-- **One stray is healed.** -/
theorem Progress.healStray (progress : Progress state done s) (next : Next state done i n) :
    Progress state (done ++ [i]) (s.healStray (i, n)) := by
  unfold GraphState.healStray
  dsimp only
  by_cases kept : state.Kept i
  · have nothing : ((s.indexMap.lookup n.id).bind fun k => (s.graph.nodeWeight k).bind fun m =>
        if m.id = n.id then some k else none) = none :=
      Option.eq_none_iff_forall_ne_some.mpr fun k found =>
        progress.keep_none next kept k (keep_eq_some.mp found)
    rw [nothing]
    exact progress.index_stray next kept
  · obtain ⟨k, points, keptK, named, apart⟩ := progress.keep_some next kept
    rw [keep_eq_some.mpr points]
    refine progress.fold_stray next kept keptK named apart (moves_foldl i s.graph ?_)
    intro m listed
    obtain ⟨node, live, -⟩ := slotKey_eq_some.mp points.2
    obtain ⟨a, inA, ⟨-, rfl⟩ | ⟨-, rfl⟩⟩ := mem_movedEdges.mp listed
    · exact ⟨⟨node, live⟩, (StableGraph.arc_target_live inA :)⟩
    · exact ⟨(StableGraph.arc_source_live inA :), ⟨node, live⟩⟩

/-- **All strays are healed**, in slot order. -/
theorem progress_healDuplicateIds (state : GraphState) :
    Progress state (state.strays.map Prod.fst) state.healDuplicateIds := by
  have sorted : (state.strays.map Prod.fst).Pairwise (· < ·) :=
    state.graph.nodeReferences_pairwise.sublist (List.filter_sublist.map _)
  suffices run : ∀ done rest, state.strays = done ++ rest →
      Progress state (done.map Prod.fst) (done.foldl GraphState.healStray state) by
    exact run state.strays [] (List.append_nil _).symm
  intro done
  induction done using List.reverseRecOn with
  | nil => exact fun _ _ => progress_nil state
  | append_singleton done stray ih =>
    intro rest split_
    obtain ⟨i, n⟩ := stray
    rw [List.append_assoc] at split_
    have listed : (i, n) ∈ state.strays := by rw [split_]; simp
    rw [split_, List.map_append, List.map_append, List.pairwise_append] at sorted
    have next : Next state (done.map Prod.fst) i n := by
      refine ⟨(mem_strays.mp listed).1, (mem_strays.mp listed).2, ?_, ?_⟩
      · exact fun inside => lt_irrefl i (sorted.2.2 i inside i (by simp))
      · intro j below m live astray
        have there := mem_strays.mpr ⟨live, astray⟩
        rw [split_, List.mem_append, List.mem_append, List.mem_singleton] at there
        rcases there with before | same | later
        · exact List.mem_map.mpr ⟨(j, m), before, rfl⟩
        · cases same
          exact absurd below (lt_irrefl _)
        · have chain := sorted.2.1
          rw [List.map_singleton, List.singleton_append] at chain
          have above := List.rel_of_pairwise_cons chain (List.mem_map.mpr ⟨(j, m), later, rfl⟩)
          exact absurd below (lt_asymm above)
    have before := (ih ([(i, n)] ++ rest) split_).healStray next
    rw [List.foldl_append, List.map_append]
    exact before

/-! ### The healed state -/

theorem nodeWeight_healed (state : GraphState) {m : GraphNode} :
    state.healDuplicateIds.graph.nodeWeight i = some m ↔
      state.graph.nodeWeight i = some m ∧ state.Kept i := by
  have progress := progress_healDuplicateIds state
  constructor
  · intro live
    obtain ⟨before, kept⟩ := progress.of_live live
    refine ⟨before, ?_⟩
    by_cases located : state.indexMap.lookup m.id = some i
    · exact kept_of_located located (slotKey_eq_some.mpr ⟨m, before, rfl⟩)
    · exact kept (List.mem_map.mpr ⟨(i, m), mem_strays.mpr ⟨before, located⟩, rfl⟩)
  · rintro ⟨before, kept⟩
    exact (progress.stays i fun _ => kept).trans before

theorem slotKey_healed (state : GraphState) :
    slotKey state.healDuplicateIds.graph GraphNode.id i = some id ↔
      slotKey state.graph GraphNode.id i = some id ∧ state.Kept i := by
  rw [slotKey_eq_some, slotKey_eq_some]
  constructor
  · rintro ⟨m, live, same⟩
    obtain ⟨before, kept⟩ := (nodeWeight_healed state).mp live
    exact ⟨⟨m, before, same⟩, kept⟩
  · rintro ⟨⟨m, before, same⟩, kept⟩
    exact ⟨m, (nodeWeight_healed state).mpr ⟨before, kept⟩, same⟩

theorem lookup_healed (state : GraphState) (kept : state.Kept i)
    (here : slotKey state.graph GraphNode.id i = some id) :
    state.healDuplicateIds.indexMap.lookup id = some i := by
  have progress := progress_healDuplicateIds state
  by_cases listed : i ∈ state.strays.map Prod.fst
  · exact progress.found i listed kept id here
  · rw [progress.index id fun j inside keptJ there => listed (kept.eq keptJ here there ▸ inside)]
    obtain ⟨m, live, rfl⟩ := slotKey_eq_some.mp here
    by_contra astray
    exact listed (List.mem_map.mpr ⟨(i, m), mem_strays.mpr ⟨live, astray⟩, rfl⟩)

theorem lookup_healed_of_unnamed (state : GraphState)
    (unnamed : ∀ j, slotKey state.graph GraphNode.id j ≠ some id) :
    state.healDuplicateIds.indexMap.lookup id = state.indexMap.lookup id :=
  (progress_healDuplicateIds state).index id fun j _ _ => unnamed j

theorem locates_healed (state : GraphState) :
    state.healDuplicateIds.indexMap.Locates
        (slotKey state.healDuplicateIds.graph GraphNode.id) ↔
      ∀ id i, state.indexMap.lookup id = some i →
        ∃ j, slotKey state.graph GraphNode.id j = some id := by
  constructor
  · intro locates id i located
    by_contra unnamed
    rw [not_exists] at unnamed
    rw [← lookup_healed_of_unnamed state unnamed] at located
    exact unnamed i ((slotKey_healed state).mp ((locates id i).mp located)).1
  · intro named id i
    rw [slotKey_healed]
    constructor
    · intro located
      by_cases unnamed : ∀ j, slotKey state.graph GraphNode.id j ≠ some id
      · rw [lookup_healed_of_unnamed state unnamed] at located
        obtain ⟨j, here⟩ := named id i located
        exact absurd here (unnamed j)
      · push Not at unnamed
        obtain ⟨j, here⟩ := unnamed
        obtain ⟨k, kept, there⟩ := exists_kept here
        rw [lookup_healed state kept there] at located
        cases located
        exact ⟨there, kept⟩
    · rintro ⟨here, kept⟩
      exact lookup_healed state kept here

theorem unique_healed (state : GraphState) (i j : Nat) (id : String)
    (left : slotKey state.healDuplicateIds.graph GraphNode.id i = some id)
    (right : slotKey state.healDuplicateIds.graph GraphNode.id j = some id) : i = j :=
  ((slotKey_healed state).mp left).2.eq ((slotKey_healed state).mp right).2
    ((slotKey_healed state).mp left).1 ((slotKey_healed state).mp right).1

theorem held_of_healed {a : Arc GraphEdge} (member : a ∈ state.healDuplicateIds.graph.arcs) :
    state.Held a := by
  obtain ⟨m, source⟩ := StableGraph.arc_source_live member
  obtain ⟨m', target⟩ := StableGraph.arc_target_live member
  exact ⟨((nodeWeight_healed state).mp source).2, ((nodeWeight_healed state).mp target).2⟩

theorem mem_healed_of_held {a : Arc GraphEdge} (member : a ∈ state.graph.arcs)
    (held : state.Held a) : a ∈ state.healDuplicateIds.graph.arcs :=
  (progress_healDuplicateIds state).retained a member (fun _ => held.1) fun _ => held.2

theorem together_of_alike {a b : Arc GraphEdge} (inA : a ∈ state.healDuplicateIds.graph.arcs)
    (inB : b ∈ state.healDuplicateIds.graph.arcs) (alike : state.Alike a b) : Together a b := by
  have heldA := held_of_healed inA
  have heldB := held_of_healed inB
  obtain ⟨id, source, -⟩ := heldA.1
  obtain ⟨id', target, -⟩ := heldA.2
  exact ⟨heldA.1.eq heldB.1 source (alike.1.1.symm.trans source),
    heldA.2.eq heldB.2 target (alike.1.2.symm.trans target), alike.2⟩

theorem Same.alike {a b : Arc GraphEdge} (same : state.Same a b) : state.Alike a b :=
  ⟨same.1, congrArg EdgeKey.edgeType same.2⟩

theorem survives_of_all (all : ∀ a ∈ state.graph.arcs,
      ∃ b ∈ state.healDuplicateIds.graph.arcs, state.Same a b) {a : Arc GraphEdge}
    (member : a ∈ state.graph.arcs) : state.Survives a := by
  have progress := progress_healDuplicateIds state
  obtain ⟨b, inB, same⟩ := all a member
  by_cases old : b ∈ state.graph.arcs
  · exact .inl ⟨b, old, held_of_healed inB, same⟩
  · have lone (c : Arc GraphEdge) (inC : c ∈ state.healDuplicateIds.graph.arcs)
        (alike : state.Alike b c) : c = b :=
      progress.alone b inB c inC old (together_of_alike inB inC alike)
    refine .inr ⟨?_, ?_⟩
    · intro c inC alike
      have alike' : state.Alike b c :=
        ⟨⟨same.1.1.symm.trans alike.1.1, same.1.2.symm.trans alike.1.2⟩,
          same.alike.2.symm.trans alike.2⟩
      refine ⟨fun held => old (lone c (mem_healed_of_held inC held) alike' ▸ inC), ?_⟩
      obtain ⟨d, inD, same'⟩ := all c inC
      have here := lone d inD ⟨⟨alike'.1.1.trans same'.1.1, alike'.1.2.trans same'.1.2⟩,
        alike'.2.trans same'.alike.2⟩
      exact ⟨alike.1, same.2.trans (here ▸ same'.2.symm)⟩
    · obtain ⟨c, inC, parallel, weighs, loopless⟩ := progress.origin b inB
      exact ⟨c, inC, ⟨⟨same.1.1.trans parallel.1, same.1.2.trans parallel.2⟩,
        same.alike.2.trans (congrArg GraphEdge.edgeType weighs)⟩, loopless old⟩

theorem exists_same_of_survives {a : Arc GraphEdge} (survives : state.Survives a) :
    ∃ b ∈ state.healDuplicateIds.graph.arcs, state.Same a b := by
  have progress := progress_healDuplicateIds state
  rcases survives with ⟨b, inB, held, same⟩ | ⟨agree, b, inB, alike, loopless⟩
  · exact ⟨b, mem_healed_of_held inB held, same⟩
  · obtain ⟨c, inC, alike', -⟩ := progress.covered b inB loopless
    obtain ⟨d, inD, parallel, weighs, -⟩ := progress.origin c inC
    have same := (agree d inD ⟨⟨alike.1.1.trans (alike'.1.1.trans parallel.1),
      alike.1.2.trans (alike'.1.2.trans parallel.2)⟩, alike.2.trans (alike'.2.trans
        (congrArg GraphEdge.edgeType weighs))⟩).2
    exact ⟨c, inC, ⟨same.1.1.trans parallel.1.symm, same.1.2.trans parallel.2.symm⟩,
      same.2.trans (congrArg edgeIdentityKey weighs.symm)⟩

theorem links_of_healed {source target : String} {key : EdgeKey}
    (links : state.healDuplicateIds.Links source target key) : state.Links source target key := by
  obtain ⟨a, member, here, there, identity⟩ := links
  obtain ⟨b, inB, parallel, weighs, -⟩ := (progress_healDuplicateIds state).origin a member
  exact ⟨b, inB, parallel.1.symm.trans ((slotKey_healed state).mp here).1,
    parallel.2.symm.trans ((slotKey_healed state).mp there).1, weighs ▸ identity⟩

/-- **Every link is kept** exactly if every edge survives. -/
theorem links_healed_iff (state : GraphState) :
    (∀ source target key, state.healDuplicateIds.Links source target key ↔
      state.Links source target key) ↔ ∀ a ∈ state.graph.arcs, state.Survives a := by
  constructor
  · intro links a member
    refine survives_of_all (fun a inA => ?_) member
    obtain ⟨m, here⟩ := StableGraph.arc_source_live inA
    obtain ⟨m', there⟩ := StableGraph.arc_target_live inA
    have source : slotKey state.graph GraphNode.id a.source = some m.id :=
      slotKey_eq_some.mpr ⟨m, here, rfl⟩
    have target : slotKey state.graph GraphNode.id a.target = some m'.id :=
      slotKey_eq_some.mpr ⟨m', there, rfl⟩
    obtain ⟨b, inB, source', target', identity⟩ :=
      (links m.id m'.id (edgeIdentityKey a.weight)).mpr ⟨a, inA, source, target, rfl⟩
    exact ⟨b, inB, ⟨source.trans ((slotKey_healed state).mp source').1.symm,
      target.trans ((slotKey_healed state).mp target').1.symm⟩, identity.symm⟩
  · intro survives source target key
    refine ⟨links_of_healed, ?_⟩
    rintro ⟨a, member, here, there, identity⟩
    obtain ⟨b, inB, same⟩ := exists_same_of_survives (survives a member)
    have held := held_of_healed inB
    exact ⟨b, inB, (slotKey_healed state).mpr ⟨same.1.1.symm.trans here, held.1⟩,
      (slotKey_healed state).mpr ⟨same.1.2.symm.trans there, held.2⟩, same.2.symm.trans identity⟩

/-- **Healing duplicate ids** makes ids unique and the index exact and keeps the edges exactly if
every id of the index is the id of a node and every edge survives. -/
theorem healDuplicateIds_iff (state : GraphState) :
    state.HealedTo state.healDuplicateIds ↔ state.Healable := by
  constructor
  · intro healed
    exact ⟨(locates_healed state).mp healed.locates, (links_healed_iff state).mp healed.links⟩
  · intro healable
    exact ⟨unique_healed state, (locates_healed state).mpr healable.named,
      (links_healed_iff state).mpr healable.survives⟩

/-! ### A topic with two publishing sites -/

def leg (line : Nat) : GraphEdge :=
  { edgeType := .produces, sourceId := "src", targetId := "orders",
    site := some ⟨"src/lib.rs", line⟩ }

def twoSites : GraphState where
  graph :=
    let directory : GraphNode :=
      { id := "src", nodeType := .namespace, name := "src", path := "src" }
    let topic : GraphNode :=
      { id := "orders", nodeType := .topic, name := "orders", path := "orders" }
    let nodes := ((StableGraph.empty.addNode directory).addNode directory).addNode topic
    ((nodes.addEdge 1 2 (leg 3)).bind fun graph => graph.addEdge 1 2 (leg 8)).getD nodes
  indexMap := ((∅ : SlotMap String).insert "src" 0).insert "orders" 2
  lastCommit := none
  pathFormatVersion := Graph.pathFormatVersion
  callsPublishedFor := none

/-- One of the two legs is lost. -/
theorem healDuplicateIds_fails : ¬twoSites.HealedTo twoSites.healDuplicateIds := by
  intro healed
  have first : twoSites.Links "src" "orders" (edgeIdentityKey (leg 3)) :=
    ⟨⟨1, 2, leg 3⟩, List.mem_of_mem_head? rfl, by decide +kernel, by decide +kernel, rfl⟩
  obtain ⟨a, member, -, -, identity⟩ := (healed.links _ _ _).mpr first
  have others : ∀ a ∈ twoSites.healDuplicateIds.graph.arcs,
      edgeIdentityKey a.weight ≠ edgeIdentityKey (leg 3) := by decide +kernel
  exact others a member identity

end GraphState

end Lain.Graph
