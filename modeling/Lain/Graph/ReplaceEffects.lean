import Mathlib
import Lain.Graph.Refine

/-!
# What a re-scan does to nodes and edges

The effects of the three phases of a re-scan: dropping the old nodes of a path
with all their edges while the edges into them are noted, adding the fresh
nodes, and restoring the noted edges at the end.
-/

namespace Lain.Graph

open Foundation GraphDatabase GraphDatabase.Replacement

namespace Replacement

abbrev Located (r : GraphDatabase.Replacement) : Prop :=
  r.indexMap.Locates (slotKey r.graph GraphNode.id)

variable {r : GraphDatabase.Replacement}

def droppable (graph : StableGraph GraphNode GraphEdge) (slots : List Nat) : List Nat :=
  slots.filter fun i => match graph.nodeWeight i with
    | some n => decide (n.nodeType ≠ .namespace)
    | none => false

/-- The graph after the nodes of some slots and their edges were dropped. -/
structure Dropped (before after : StableGraph GraphNode GraphEdge) (slots : List Nat) : Prop where
  nodes : ∀ i, after.nodeWeight i = if i ∈ slots then none else before.nodeWeight i
  arcs : after.arcs = before.arcs.filter fun a => decide (a.source ∉ slots ∧ a.target ∉ slots)

theorem Dropped.none (graph : StableGraph GraphNode GraphEdge) : Dropped graph graph [] where
  nodes := by simp
  arcs := by simp

theorem arcs_removeNode {graph : StableGraph GraphNode GraphEdge} {i : Nat} {n : GraphNode}
    (live : graph.nodeWeight i = some n) :
    (graph.removeNode i).arcs =
      graph.arcs.filter fun a => decide (a.source ≠ i ∧ a.target ≠ i) := by
  unfold StableGraph.removeNode
  rw [dif_pos (by simp [live])]

theorem Dropped.cons {graph after : StableGraph GraphNode GraphEdge} {i : Nat} {n : GraphNode}
    {slots : List Nat} (live : graph.nodeWeight i = some n)
    (dropped : Dropped (graph.removeNode i) after slots) : Dropped graph after (i :: slots) where
  nodes := by
    intro j
    rw [dropped.nodes, StableGraph.nodeWeight_removeNode]
    by_cases here : j = i <;> by_cases member : j ∈ slots <;> simp [here, member]
  arcs := by
    rw [dropped.arcs, arcs_removeNode live, List.filter_filter]
    refine List.filter_congr fun a _ => ?_
    rw [Bool.eq_iff_iff]
    simp only [Bool.and_eq_true, decide_eq_true_eq, List.mem_cons, not_or]
    tauto

private theorem incoming_removeNode {replaced : List String} {i t : Nat} {n : GraphNode}
    (live : r.graph.nodeWeight i = some n) (inside : n.path ∈ replaced) (apart : t ≠ i)
    {r' : GraphDatabase.Replacement} (graph : r'.graph = r.graph.removeNode i) :
    r'.incomingFromOutside replaced t = r.incomingFromOutside replaced t := by
  unfold GraphDatabase.Replacement.incomingFromOutside
  rw [graph, arcs_removeNode live, List.filter_filter]
  congr 2
  refine List.filter_congr fun a _ => ?_
  rw [StableGraph.nodeWeight_removeNode]
  by_cases fromIt : a.source = i
  · simp [fromIt, live, inside]
  · by_cases here : a.target = t
    · simp [fromIt, here, apart]
    · simp [here]

theorem dropOld_effect (replaced : List String) (slots : List Nat) :
    ∀ (r : GraphDatabase.Replacement) (kept : List Nat), Located r → slots.Nodup →
      (∀ i ∈ slots, ∃ n, r.graph.nodeWeight i = some n ∧ n.path ∈ replaced) →
      ∃ r' kept', slots.foldl (dropOld replaced false) (r, kept) = (r', kept') ∧ Located r' ∧
        Dropped r.graph r'.graph (droppable r.graph slots) ∧
        r'.preservedIncoming = r.preservedIncoming ++
          (droppable r.graph slots).flatMap (r.incomingFromOutside replaced) := by
  induction slots with
  | nil => exact fun r kept located _ _ => ⟨r, kept, rfl, located, Dropped.none _, by simp [droppable]⟩
  | cons i rest ih =>
    intro r kept located nodup live
    obtain ⟨apart, restNodup⟩ := List.nodup_cons.mp nodup
    obtain ⟨n, weight, inside⟩ := live i List.mem_cons_self
    have restLive : ∀ j ∈ rest, ∃ n, r.graph.nodeWeight j = some n ∧ n.path ∈ replaced :=
      fun j member => live j (List.mem_cons_of_mem _ member)
    by_cases keep : n.nodeType = .namespace
    · have step : dropOld replaced false (r, kept) i = (r, kept ++ [i]) := by
        simp [dropOld, weight, keep]
      have same : droppable r.graph (i :: rest) = droppable r.graph rest := by
        unfold droppable
        rw [List.filter_cons_of_neg (by simp [weight, keep])]
      rw [List.foldl_cons, step, same]
      exact ih r (kept ++ [i]) located restNodup restLive
    · obtain ⟨r₁, step, graph₁, ids₁, noted₁⟩ : ∃ r₁,
          dropOld replaced false (r, kept) i = (r₁, kept) ∧
          r₁.graph = r.graph.removeNode i ∧ r₁.indexMap = r.indexMap.erase n.id ∧
          r₁.preservedIncoming =
            r.preservedIncoming ++ r.incomingFromOutside replaced i := by
        refine ⟨{ r with
            graph := r.graph.removeNode i
            indexMap := r.indexMap.erase n.id
            nameIndex := r.nameIndex.drop n.name i
            removedIds := r.removedIds ++ [n.id]
            preservedIncoming :=
              r.preservedIncoming ++ r.incomingFromOutside replaced i }, ?_, rfl, rfl, rfl⟩
        simp [dropOld, weight, keep]
      have located₁ : Located r₁ := by
        unfold Located
        rw [graph₁, ids₁]
        obtain ⟨vacated, others⟩ := Graph.Aligned.slotKey_removeNode r.graph GraphNode.id i
        exact located.erase (by simp [slotKey, weight]) vacated others
      have unchanged : ∀ j ∈ rest, r₁.graph.nodeWeight j = r.graph.nodeWeight j := by
        intro j member
        have other : j ≠ i := fun same => apart (same ▸ member)
        rw [graph₁, StableGraph.nodeWeight_removeNode, if_neg other]
      obtain ⟨r', kept', run, located', dropped, noted⟩ :=
        ih r₁ kept located₁ restNodup fun j member => by
          rw [unchanged j member]
          exact restLive j member
      have sameRest : droppable r₁.graph rest = droppable r.graph rest :=
        List.filter_congr fun j member => by rw [unchanged j member]
      have same : droppable r.graph (i :: rest) = i :: droppable r.graph rest := by
        unfold droppable
        rw [List.filter_cons_of_pos (by simp [weight, keep])]
      rw [graph₁] at dropped
      rw [graph₁] at sameRest
      rw [sameRest] at dropped
      refine ⟨r', kept', by rw [List.foldl_cons, step, run], located', ?_, ?_⟩
      · rw [same]
        exact dropped.cons weight
      · rw [noted, noted₁, graph₁, sameRest, same, List.flatMap_cons, List.append_assoc]
        congr 2
        refine List.flatMap_congr fun t member => ?_
        have inRest : t ∈ rest := (List.mem_filter.mp member).1
        exact incoming_removeNode weight inside (fun here => apart (here ▸ inRest)) graph₁

structure Freshened (fresh : List GraphNode) (r r' : GraphDatabase.Replacement) : Prop where
  nodes : ∀ i n, r.graph.nodeWeight i = some n →
    r'.graph.nodeWeight i = some ((fresh.find? fun m => decide (m.id = n.id)).getD n)
  ids : ∀ id, (r'.indexMap.lookup id).isSome = true ↔
    (r.indexMap.lookup id).isSome = true ∨ ∃ n ∈ fresh, n.id = id
  arcs : r'.graph.arcs = r.graph.arcs
  preserved : r'.preservedIncoming = r.preservedIncoming

private theorem Freshened.cons {node : GraphNode} {rest : List GraphNode}
    {r r₁ r' : GraphDatabase.Replacement} (others : ∀ m ∈ rest, m.id ≠ node.id)
    (one : Freshened [node] r r₁) (more : Freshened rest r₁ r') :
    Freshened (node :: rest) r r' where
  nodes := by
    intro i n live
    have middle := one.nodes i n live
    rw [more.nodes i _ middle]
    by_cases here : node.id = n.id
    · have absent : (rest.find? fun m => decide (m.id = node.id)) = none := by
        refine List.find?_eq_none.mpr fun m member => ?_
        simpa using others m member
      rw [List.find?_cons_of_pos (by simpa using here), List.find?_cons_of_pos (by simpa using here),
        Option.getD_some, absent]
      rfl
    · rw [List.find?_cons_of_neg (by simpa using here),
        List.find?_cons_of_neg (by simpa using here)]
      rfl
  ids := by
    intro id
    rw [more.ids, one.ids]
    simp [or_assoc]
  arcs := more.arcs.trans one.arcs
  preserved := more.preserved.trans one.preserved

private theorem addFresh_one {r : GraphDatabase.Replacement} (fresh : List Nat)
    (located : Located r) (node : GraphNode) :
    ∃ r' fresh', addFresh (r, fresh) node = (r', fresh') ∧ Located r' ∧
      Freshened [node] r r' := by
  have single : ∀ n : GraphNode, (([node].find? fun m => decide (m.id = n.id)).getD n) =
      if node.id = n.id then node else n := by
    intro n
    by_cases here : node.id = n.id <;> simp [here]
  cases found : r.indexMap.lookup node.id with
  | some idx =>
    obtain ⟨old, live, sameId⟩ := slotKey_eq_some.mp ((located _ _).mp found)
    refine ⟨{ r with graph := r.graph.setNode idx node },
      if fresh.contains idx then fresh else fresh ++ [idx], ?_, ?_, ?_⟩
    · simp [addFresh, found, live, sameId]
    · exact located.congr (Graph.Aligned.slotKey_setNode GraphNode.id live sameId.symm)
    · refine { nodes := fun i n weight => ?_, ids := fun id => ?_,
               arcs := StableGraph.arcs_setNode _ _ _, preserved := rfl }
      · rw [single, StableGraph.nodeWeight_setNode]
        by_cases here : i = idx
        · subst here
          obtain rfl := Option.some.inj (live.symm.trans weight)
          simp [live, sameId]
        · have apart : node.id ≠ n.id := fun same => here
            (located.slot_unique (slotKey_eq_some.mpr ⟨n, weight, same.symm⟩)
              (slotKey_eq_some.mpr ⟨old, live, sameId⟩))
          simp [here, apart, weight]
      · simp only [List.mem_singleton, exists_eq_left]
        constructor
        · exact Or.inl
        · rintro (known | rfl)
          · exact known
          · rw [found]
            rfl
  | none =>
    obtain ⟨vacant, filled, others⟩ :=
      Graph.Aligned.slotKey_addNode r.graph GraphNode.id node
    refine ⟨{ r with
        graph := r.graph.addNode node
        indexMap := r.indexMap.insert node.id r.graph.nextIndex
        nameIndex := r.nameIndex.push node.name r.graph.nextIndex },
      fresh ++ [r.graph.nextIndex], by simp [addFresh, found],
      located.insert vacant found filled others, ?_⟩
    refine { nodes := fun i n weight => ?_, ids := fun id => ?_,
             arcs := StableGraph.arcs_addNode _ _, preserved := rfl }
    · have apart : node.id ≠ n.id := fun same =>
        located.unheld found i (slotKey_eq_some.mpr ⟨n, weight, same.symm⟩)
      have other : i ≠ r.graph.nextIndex := by
        rintro rfl
        rw [StableGraph.nodeWeight_nextIndex] at weight
        cases weight
      rw [single, StableGraph.nodeWeight_addNode, if_neg other, if_neg apart, weight]
    · simp only [List.mem_singleton, exists_eq_left]
      by_cases here : id = node.id
      · subst here
        simp
      · have apart : ¬ node.id = id := fun same => here same.symm
        simp [AList.lookup_insert_ne here, apart]

/-- **Adding the fresh nodes of a path**, each of its own id. -/
theorem addFresh_effect (nodes : List GraphNode) :
    ∀ (r : GraphDatabase.Replacement) (fresh : List Nat), Located r →
      (nodes.map GraphNode.id).Nodup →
      ∃ r' fresh', nodes.foldl addFresh (r, fresh) = (r', fresh') ∧ Located r' ∧
        Freshened nodes r r' := by
  induction nodes with
  | nil =>
    intro r fresh located _
    exact ⟨r, fresh, rfl, located, by simp, by simp, rfl, rfl⟩
  | cons node rest ih =>
    intro r fresh located nodup
    rw [List.map_cons, List.nodup_cons] at nodup
    obtain ⟨r₁, fresh₁, step, located₁, one⟩ := addFresh_one fresh located node
    obtain ⟨r', fresh', run, located', more⟩ := ih r₁ fresh₁ located₁ nodup.2
    refine ⟨r', fresh', by rw [List.foldl_cons, step, run], located', one.cons ?_ more⟩
    exact fun m member same => nodup.1 (same ▸ List.mem_map_of_mem member)

theorem firstOfId_spec (nodes : List GraphNode) : ∀ seen : List String,
    ((firstOfId seen nodes).map GraphNode.id).Nodup ∧
      (∀ n ∈ firstOfId seen nodes, n.id ∉ seen) ∧
      ∀ id, id ∉ seen → ((firstOfId seen nodes).find? fun n => decide (n.id = id)) =
        nodes.find? fun n => decide (n.id = id) := by
  induction nodes with
  | nil => simp [firstOfId]
  | cons node rest ih =>
    intro seen
    unfold firstOfId
    by_cases again : node.id ∈ seen
    · rw [if_pos again]
      obtain ⟨nodup, fresh, search⟩ := ih seen
      refine ⟨nodup, fresh, fun id unseen => ?_⟩
      have apart : node.id ≠ id := fun same => unseen (same ▸ again)
      rw [search id unseen, List.find?_cons_of_neg (by simpa using apart)]
    · rw [if_neg again]
      obtain ⟨nodup, fresh, search⟩ := ih (node.id :: seen)
      refine ⟨?_, ?_, fun id unseen => ?_⟩
      · rw [List.map_cons, List.nodup_cons]
        refine ⟨fun member => ?_, nodup⟩
        obtain ⟨m, inRest, same⟩ := List.mem_map.mp member
        exact fresh m inRest (same ▸ List.mem_cons_self)
      · intro n member
        rcases List.mem_cons.mp member with rfl | inRest
        · exact again
        · exact fun inSeen => fresh n inRest (List.mem_cons_of_mem _ inSeen)
      · by_cases here : node.id = id
        · simp [here]
        · rw [List.find?_cons_of_neg (by simpa using here),
            List.find?_cons_of_neg (by simpa using here)]
          refine search id fun member => ?_
          rcases List.mem_cons.mp member with rfl | inSeen
          · exact here rfl
          · exact unseen inSeen

/-! ### Restoring the noted edges -/

def Joins (indexMap : SlotMap String) (s t : Nat) (edge : GraphEdge) : Bool :=
  decide (indexMap.lookup edge.sourceId = some s) &&
    decide (indexMap.lookup edge.targetId = some t)

/-- An edge of a type would be restored between two slots. -/
def Fits (indexMap : SlotMap String) (s t : Nat) (type : EdgeType) (edge : GraphEdge) : Bool :=
  Joins indexMap s t edge && decide (edge.edgeType = type)

def Connects (s t : Nat) (type : EdgeType) (a : Arc GraphEdge) : Bool :=
  decide (a.source = s) && decide (a.target = t) && decide (a.weight.edgeType = type)

structure Restored (indexMap : SlotMap String) (preserved : List GraphEdge)
    (before after : StableGraph GraphNode GraphEdge) : Prop where
  nodes : ∀ i, after.nodeWeight i = before.nodeWeight i
  arcs : ∃ added, after.arcs = before.arcs ++ added ∧
    ∀ a ∈ added, a.weight ∈ preserved ∧ Joins indexMap a.source a.target a.weight = true
  /-- Of the edges of one type between two slots that had none, the first is restored. -/
  first : ∀ s t type, (∀ a ∈ before.arcs, Connects s t type a = false) →
    (after.arcs.filter (Connects s t type)).map Arc.weight =
      (preserved.find? (Fits indexMap s t type)).toList
  /-- Two slots that had an edge of a type keep exactly those. -/
  others : ∀ s t type, (∃ a ∈ before.arcs, Connects s t type a = true) →
    after.arcs.filter (Connects s t type) = before.arcs.filter (Connects s t type)

theorem Restored.none (indexMap : SlotMap String) (graph : StableGraph GraphNode GraphEdge) :
    Restored indexMap [] graph graph where
  nodes := fun _ => rfl
  arcs := ⟨[], by simp, by simp⟩
  first := by
    intro s t type absent
    rw [List.filter_eq_nil_iff.mpr fun a member => by simp [absent a member]]
    rfl
  others := fun _ _ _ _ => rfl

private theorem Restored.cons {indexMap : SlotMap String} {edge : GraphEdge}
    {rest : List GraphEdge} {before middle after : StableGraph GraphNode GraphEdge}
    (one : Restored indexMap [edge] before middle) (more : Restored indexMap rest middle after) :
    Restored indexMap (edge :: rest) before after where
  nodes := fun i => (more.nodes i).trans (one.nodes i)
  arcs := by
    obtain ⟨added, grown, from_⟩ := one.arcs
    obtain ⟨added', grown', from'⟩ := more.arcs
    refine ⟨added ++ added', by rw [grown', grown, List.append_assoc], fun a member => ?_⟩
    rcases List.mem_append.mp member with early | late
    · obtain ⟨source, joins⟩ := from_ a early
      exact ⟨by rw [List.mem_singleton.mp source]; exact List.mem_cons_self, joins⟩
    · obtain ⟨source, joins⟩ := from' a late
      exact ⟨List.mem_cons_of_mem _ source, joins⟩
  first := by
    intro s t type absent
    have once := one.first s t type absent
    by_cases fits : Fits indexMap s t type edge = true
    · rw [List.find?_cons_of_pos fits] at once ⊢
      have present : ∃ a ∈ middle.arcs, Connects s t type a = true := by
        obtain ⟨a, member⟩ := List.exists_mem_of_ne_nil (middle.arcs.filter (Connects s t type))
          fun none => by rw [none] at once; cases once
        exact ⟨a, List.mem_filter.mp member⟩
      rw [more.others s t type present, once]
    · rw [List.find?_cons_of_neg fits] at once ⊢
      have none : middle.arcs.filter (Connects s t type) = [] := by
        rw [← List.map_eq_nil_iff (f := Arc.weight)]
        exact once
      refine more.first s t type fun a member => ?_
      exact Bool.eq_false_iff.mpr (List.filter_eq_nil_iff.mp none a member)
  others := by
    intro s t type present
    have same := one.others s t type present
    rw [← same]
    refine more.others s t type ?_
    obtain ⟨a, member, connects⟩ := present
    have kept : a ∈ middle.arcs.filter (Connects s t type) :=
      same ▸ List.mem_filter.mpr ⟨member, connects⟩
    exact ⟨a, List.mem_filter.mp kept⟩

private theorem Restored.alone {indexMap : SlotMap String} {edge : GraphEdge}
    {graph : StableGraph GraphNode GraphEdge}
    (idle : ∀ s t, Joins indexMap s t edge = true →
      ∃ a ∈ graph.arcs, Connects s t edge.edgeType a = true) :
    Restored indexMap [edge] graph graph where
  nodes := fun _ => rfl
  arcs := ⟨[], by simp, by simp⟩
  first := by
    intro s t type absent
    have none : graph.arcs.filter (Connects s t type) = [] :=
      List.filter_eq_nil_iff.mpr fun a member => by simp [absent a member]
    have unfit : ¬ Fits indexMap s t type edge = true := by
      intro fits
      rw [Fits, Bool.and_eq_true, decide_eq_true_eq] at fits
      obtain ⟨a, member, connects⟩ := idle s t fits.1
      rw [fits.2, absent a member] at connects
      cases connects
    rw [none, List.find?_cons_of_neg unfit]
    rfl
  others := fun _ _ _ _ => rfl

private theorem restore_one {indexMap : SlotMap String}
    {graph : StableGraph GraphNode GraphEdge}
    (located : indexMap.Locates (slotKey graph GraphNode.id)) (edge : GraphEdge) :
    ∃ graph', restore indexMap graph edge = some graph' ∧
      Restored indexMap [edge] graph graph' := by
  unfold restore
  split
  next s t source target =>
    have joins : ∀ s' t', Joins indexMap s' t' edge = true ↔ s' = s ∧ t' = t := by
      intro s' t'
      rw [Joins, source, target, Bool.and_eq_true, decide_eq_true_eq, decide_eq_true_eq,
        Option.some.injEq, Option.some.injEq]
      exact ⟨fun same => ⟨same.1.symm, same.2.symm⟩, fun same => ⟨same.1.symm, same.2.symm⟩⟩
    split
    next already =>
      refine ⟨graph, rfl, Restored.alone fun s' t' join => ?_⟩
      obtain ⟨rfl, rfl⟩ := (joins s' t').mp join
      obtain ⟨a, between, sameType⟩ := List.any_eq_true.mp already
      obtain ⟨member, ofSource, ofTarget⟩ := StableGraph.mem_edgesConnecting.mp between
      exact ⟨a, member, by simp [Connects, ofSource, ofTarget, of_decide_eq_true sameType]⟩
    next missing =>
      obtain ⟨m, sourceLive, _⟩ := slotKey_eq_some.mp ((located _ _).mp source)
      obtain ⟨n, targetLive, _⟩ := slotKey_eq_some.mp ((located _ _).mp target)
      obtain ⟨graph', added⟩ := StableGraph.addEdge_isSome edge sourceLive targetLive
      obtain ⟨nodes, arcs⟩ := StableGraph.addEdge_eq_some added
      have unconnected : ∀ a ∈ graph.arcs, Connects s t edge.edgeType a = false := by
        intro a member
        by_contra connects
        rw [Bool.not_eq_false, Connects, Bool.and_eq_true, Bool.and_eq_true, decide_eq_true_eq,
          decide_eq_true_eq, decide_eq_true_eq] at connects
        obtain ⟨⟨ofSource, ofTarget⟩, sameType⟩ := connects
        exact missing (List.any_eq_true.mpr ⟨a, StableGraph.mem_edgesConnecting.mpr
          ⟨member, ofSource, ofTarget⟩, decide_eq_true sameType⟩)
      have new : ∀ s' t' type,
          Connects s' t' type ⟨s, t, edge⟩ = Fits indexMap s' t' type edge := by
        intro s' t' type
        rw [Bool.eq_iff_iff, Fits, Bool.and_eq_true, joins, Connects, Bool.and_eq_true,
          Bool.and_eq_true, decide_eq_true_eq, decide_eq_true_eq, decide_eq_true_eq]
        exact and_congr_left' ⟨fun same => ⟨same.1.symm, same.2.symm⟩,
          fun same => ⟨same.1.symm, same.2.symm⟩⟩
      refine ⟨graph', added, { nodes := nodes, arcs := ⟨[⟨s, t, edge⟩], arcs, ?_⟩,
                               first := ?_, others := ?_ }⟩
      · intro a member
        rw [List.mem_singleton.mp member]
        exact ⟨List.mem_cons_self, (joins s t).mpr ⟨rfl, rfl⟩⟩
      · intro s' t' type absent
        have none : graph.arcs.filter (Connects s' t' type) = [] :=
          List.filter_eq_nil_iff.mpr fun a member => by simp [absent a member]
        rw [arcs, List.filter_append, none, List.nil_append]
        by_cases fits : Fits indexMap s' t' type edge = true
        · rw [List.find?_cons_of_pos fits, List.filter_cons_of_pos ((new s' t' type).trans fits)]
          rfl
        · rw [List.find?_cons_of_neg fits,
            List.filter_cons_of_neg (by rw [new s' t' type]; exact fits)]
          rfl
      · intro s' t' type present
        have unfit : ¬ Connects s' t' type ⟨s, t, edge⟩ = true := by
          rw [new, Fits, Bool.and_eq_true, joins, decide_eq_true_eq]
          rintro ⟨⟨rfl, rfl⟩, rfl⟩
          obtain ⟨a, member, connects⟩ := present
          rw [unconnected a member] at connects
          cases connects
        rw [arcs, List.filter_append, List.filter_cons_of_neg unfit]
        simp
  next unlocated =>
    refine ⟨graph, rfl, Restored.alone fun s t join => ?_⟩
    rw [Joins, Bool.and_eq_true, decide_eq_true_eq, decide_eq_true_eq] at join
    exact absurd join.2 (unlocated s t join.1)

theorem restore_effect {indexMap : SlotMap String} (preserved : List GraphEdge) :
    ∀ graph : StableGraph GraphNode GraphEdge,
      indexMap.Locates (slotKey graph GraphNode.id) →
      ∃ graph', preserved.foldlM (restore indexMap) graph = some graph' ∧
        Restored indexMap preserved graph graph' := by
  induction preserved with
  | nil => exact fun graph _ => ⟨graph, rfl, Restored.none indexMap graph⟩
  | cons edge rest ih =>
    intro graph located
    obtain ⟨middle, step, one⟩ := restore_one located edge
    obtain ⟨after, run, more⟩ := ih middle (located.congr fun i => by simp [slotKey, one.nodes])
    exact ⟨after, by simp [List.foldlM_cons, step, run], one.cons more⟩

end Replacement

end Lain.Graph
