import Mathlib
import Lain.Foundation.StableGraph

/-!
# Compact graphs

A directed graph whose node indices are the positions of a list.
-/

namespace Lain.Foundation

variable {N E : Type*}

/-! ### Removal by the last element -/

def swapRemove (l : List N) (i : Nat) : List N :=
  match l.getLast? with
  | none => []
  | some last => (l.set i last).dropLast

theorem swapRemove_concat (init : List N) (last : N) (i : Nat) :
    swapRemove (init ++ [last]) i = init.set i last := by
  rw [swapRemove, List.getLast?_concat]
  change ((init ++ [last]).set i last).dropLast = _
  rw [List.set_append]
  split_ifs with inside
  · exact List.dropLast_concat
  · obtain ⟨j, rfl⟩ := Nat.exists_eq_add_of_le (Nat.not_lt.mp inside)
    rw [List.set_eq_of_length_le (l := init) (Nat.le_add_right _ _)]
    cases j with
    | zero => simp
    | succ j => simp

theorem swapRemove_perm {l : List N} {i : Nat} (inside : i < l.length) :
    (swapRemove l i).Perm (l.eraseIdx i) := by
  rcases l.eq_nil_or_concat with rfl | ⟨init, last, rfl⟩
  · simp at inside
  · rw [List.concat_eq_append] at inside ⊢
    rw [swapRemove_concat]
    rw [List.length_append, List.length_singleton] at inside
    rcases Nat.lt_succ_iff_lt_or_eq.mp inside with before | here
    · rw [List.eraseIdx_append_of_lt_length before]
      exact (List.set_perm_cons_eraseIdx before last).trans (List.perm_append_singleton _ _).symm
    · rw [here, List.set_eq_of_length_le le_rfl, List.eraseIdx_append_of_length_le le_rfl]
      simp

def moved (last i j : Nat) : Nat :=
  if j = last then i else j

theorem length_swapRemove {l : List N} {i : Nat} (inside : i < l.length) :
    (swapRemove l i).length + 1 = l.length := by
  rw [(swapRemove_perm inside).length_eq, List.length_eraseIdx_of_lt inside]
  omega

theorem getElem?_swapRemove {l : List N} {i j : Nat} (inside : i < l.length)
    (below : j + 1 < l.length) :
    (swapRemove l i)[j]? = l[if j = i then l.length - 1 else j]? := by
  rcases l.eq_nil_or_concat with rfl | ⟨init, last, rfl⟩
  · simp at inside
  · rw [List.concat_eq_append] at inside below ⊢
    rw [List.length_append, List.length_singleton] at inside below ⊢
    rw [swapRemove_concat, List.getElem?_set, Nat.add_sub_cancel]
    have within : j < init.length := Nat.lt_of_succ_lt_succ below
    by_cases here : j = i
    · rw [here, if_pos rfl, if_pos rfl, if_pos (here ▸ within), List.getElem?_concat_length]
    · rw [if_neg (Ne.symm here), if_neg here, List.getElem?_append_left within]

theorem getElem?_swapRemove_moved {l : List N} {i j : Nat} (inside : i < l.length)
    (live : j < l.length) (apart : j ≠ i) :
    (swapRemove l i)[moved (l.length - 1) i j]? = l[j]? := by
  unfold moved
  split_ifs with last
  · rw [getElem?_swapRemove inside (by omega), if_pos rfl, last]
  · rw [getElem?_swapRemove inside (by omega), if_neg apart]

theorem moved_lt {l : List N} {i j : Nat} (inside : i < l.length) (live : j < l.length)
    (apart : j ≠ i) : moved (l.length - 1) i j < (swapRemove l i).length := by
  have length := length_swapRemove inside
  unfold moved
  split_ifs <;> omega

theorem getElem?_swapRemove_iff {l : List N} {i j : Nat} {n : N} (inside : i < l.length) :
    (swapRemove l i)[j]? = some n ↔ ∃ k ≠ i, l[k]? = some n ∧ moved (l.length - 1) i k = j := by
  have length := length_swapRemove inside
  constructor
  · intro found
    obtain ⟨live, -⟩ := List.getElem?_eq_some_iff.mp found
    rw [getElem?_swapRemove inside (by omega)] at found
    refine ⟨if j = i then l.length - 1 else j, ?_, found, ?_⟩
    · split_ifs with here <;> omega
    · unfold moved
      split_ifs with here last <;> omega
  · rintro ⟨k, apart, found, rfl⟩
    obtain ⟨live, -⟩ := List.getElem?_eq_some_iff.mp found
    rw [getElem?_swapRemove_moved inside live apart, found]

theorem mem_swapRemove {l : List N} {i : Nat} {n : N} (inside : i < l.length) :
    n ∈ swapRemove l i ↔ ∃ k ≠ i, l[k]? = some n := by
  rw [List.mem_iff_getElem?]
  constructor
  · rintro ⟨j, found⟩
    obtain ⟨k, apart, found, -⟩ := (getElem?_swapRemove_iff inside).mp found
    exact ⟨k, apart, found⟩
  · rintro ⟨k, apart, found⟩
    exact ⟨_, (getElem?_swapRemove_iff inside).mpr ⟨k, apart, found, rfl⟩⟩

theorem moved_injective {last i j k : Nat} (first : j ≠ i) (second : k ≠ i)
    (same : moved last i j = moved last i k) : j = k := by
  unfold moved at same
  split_ifs at same <;> omega

/-! ### Graphs -/

structure DiGraph (N E : Type*) where
  nodes : List N
  arcs : List (Arc E)
  arcs_live : ∀ a ∈ arcs, a.source < nodes.length ∧ a.target < nodes.length

namespace DiGraph

/-- The graph without nodes. -/
def new : DiGraph N E where
  nodes := []
  arcs := []
  arcs_live _ member := absurd member List.not_mem_nil

/-- How many nodes there are; the next node takes this index. -/
def nodeCount (g : DiGraph N E) : Nat :=
  g.nodes.length

def nodeWeight (g : DiGraph N E) (i : Nat) : Option N :=
  g.nodes[i]?

/-- Add a node at the end. -/
def addNode (g : DiGraph N E) (n : N) : DiGraph N E where
  nodes := g.nodes ++ [n]
  arcs := g.arcs
  arcs_live a member := by
    obtain ⟨source, target⟩ := g.arcs_live a member
    rw [List.length_append]
    exact ⟨Nat.lt_add_right _ source, Nat.lt_add_right _ target⟩

def Apart (i : Nat) (a : Arc E) : Prop :=
  a.source ≠ i ∧ a.target ≠ i

instance decidableApart (i : Nat) : DecidablePred (Apart (E := E) i) := fun a =>
  inferInstanceAs (Decidable (a.source ≠ i ∧ a.target ≠ i))

def renumber (last i : Nat) (a : Arc E) : Arc E where
  source := moved last i a.source
  target := moved last i a.target
  weight := a.weight

/-- Remove the node at an index and its arcs, if there is one; the last node takes its
index. -/
def removeNode (g : DiGraph N E) (i : Nat) : DiGraph N E :=
  if inside : i < g.nodes.length then
    { nodes := swapRemove g.nodes i
      arcs := (g.arcs.filter fun a => decide (Apart i a)).map (renumber (g.nodes.length - 1) i)
      arcs_live := by
        intro a member
        obtain ⟨b, kept, rfl⟩ := List.mem_map.mp member
        obtain ⟨known, apart⟩ := List.mem_filter.mp kept
        obtain ⟨source, target⟩ := g.arcs_live b known
        obtain ⟨first, second⟩ := of_decide_eq_true apart
        exact ⟨moved_lt inside source first, moved_lt inside target second⟩ }
  else g

def addEdge (g : DiGraph N E) (source target : Nat) (weight : E) : Option (DiGraph N E) :=
  if live : source < g.nodes.length ∧ target < g.nodes.length then
    some
      { nodes := g.nodes
        arcs := g.arcs ++ [⟨source, target, weight⟩]
        arcs_live := by
          intro a member
          rcases List.mem_append.mp member with old | added
          · exact g.arcs_live a old
          · rw [List.mem_singleton.mp added]
            exact live }
  else none

/-- The arcs that leave an index. -/
def edges (g : DiGraph N E) (source : Nat) : List (Arc E) :=
  g.arcs.filter fun a => decide (a.source = source)

def link (g : DiGraph N E) (a : Arc E) : Option (N × N × E) :=
  (g.nodeWeight a.source).bind fun source =>
    (g.nodeWeight a.target).map fun target => (source, target, a.weight)

def links (g : DiGraph N E) : List (N × N × E) :=
  g.arcs.filterMap g.link

variable {g : DiGraph N E}

@[simp] theorem nodes_new : (new : DiGraph N E).nodes = [] := rfl

@[simp] theorem arcs_new : (new : DiGraph N E).arcs = [] := rfl

@[simp] theorem nodes_addNode (g : DiGraph N E) (n : N) : (g.addNode n).nodes = g.nodes ++ [n] :=
  rfl

@[simp] theorem arcs_addNode (g : DiGraph N E) (n : N) : (g.addNode n).arcs = g.arcs := rfl

theorem nodeWeight_addNode_of_lt {i : Nat} (n : N) (live : i < g.nodeCount) :
    (g.addNode n).nodeWeight i = g.nodeWeight i :=
  List.getElem?_append_left live

theorem link_eq_some {a : Arc E} {s t : N} {w : E} :
    g.link a = some (s, t, w) ↔
      g.nodeWeight a.source = some s ∧ g.nodeWeight a.target = some t ∧ a.weight = w := by
  simp only [link, Option.bind_eq_some_iff, Option.map_eq_some_iff, Prod.mk.injEq]
  constructor
  · rintro ⟨s', source, t', target, rfl, rfl, weight⟩
    exact ⟨source, target, weight⟩
  · rintro ⟨source, target, weight⟩
    exact ⟨s, source, t, target, rfl, rfl, weight⟩

theorem link_of_live {a : Arc E} {g' : DiGraph N E}
    (source : g'.nodeWeight a.source = g.nodeWeight a.source)
    (target : g'.nodeWeight a.target = g.nodeWeight a.target) : g'.link a = g.link a := by
  unfold link
  rw [source, target]

@[simp] theorem links_addNode (g : DiGraph N E) (n : N) : (g.addNode n).links = g.links := by
  refine List.filterMap_congr fun a member => ?_
  obtain ⟨source, target⟩ := g.arcs_live a member
  exact link_of_live (nodeWeight_addNode_of_lt n source) (nodeWeight_addNode_of_lt n target)

section RemoveNode

variable {i : Nat} (inside : i < g.nodes.length)

include inside

theorem nodes_removeNode : (g.removeNode i).nodes = swapRemove g.nodes i := by
  rw [removeNode, dif_pos inside]

theorem arcs_removeNode : (g.removeNode i).arcs =
    (g.arcs.filter fun a => decide (Apart i a)).map (renumber (g.nodes.length - 1) i) := by
  rw [removeNode, dif_pos inside]

theorem nodeWeight_removeNode_moved {j : Nat} (live : j < g.nodes.length) (apart : j ≠ i) :
    (g.removeNode i).nodeWeight (moved (g.nodes.length - 1) i j) = g.nodeWeight j := by
  unfold nodeWeight
  rw [nodes_removeNode inside]
  exact getElem?_swapRemove_moved inside live apart

theorem links_removeNode :
    (g.removeNode i).links = (g.arcs.filter fun a => decide (Apart i a)).filterMap g.link := by
  rw [links, arcs_removeNode inside, List.filterMap_map]
  refine List.filterMap_congr fun a member => ?_
  obtain ⟨known, apart⟩ := List.mem_filter.mp member
  obtain ⟨first, second⟩ := of_decide_eq_true apart
  obtain ⟨source, target⟩ := g.arcs_live a known
  change (g.removeNode i).link (renumber _ i a) = g.link a
  unfold link
  rw [show (renumber (g.nodes.length - 1) i a).source = moved (g.nodes.length - 1) i a.source from
    rfl, show (renumber (g.nodes.length - 1) i a).target = moved (g.nodes.length - 1) i a.target
    from rfl, nodeWeight_removeNode_moved inside source first,
    nodeWeight_removeNode_moved inside target second]
  rfl

theorem mem_links_removeNode {s t : N} {w : E} :
    (s, t, w) ∈ (g.removeNode i).links ↔ ∃ a ∈ g.arcs, Apart i a ∧
      g.nodeWeight a.source = some s ∧ g.nodeWeight a.target = some t ∧ a.weight = w := by
  rw [links_removeNode inside, List.mem_filterMap]
  constructor
  · rintro ⟨a, member, linked⟩
    obtain ⟨known, apart⟩ := List.mem_filter.mp member
    exact ⟨a, known, of_decide_eq_true apart, link_eq_some.mp linked⟩
  · rintro ⟨a, known, apart, linked⟩
    exact ⟨a, List.mem_filter.mpr ⟨known, decide_eq_true apart⟩, link_eq_some.mpr linked⟩

theorem nodup_arcs_removeNode (distinct : g.arcs.Nodup) : (g.removeNode i).arcs.Nodup := by
  rw [arcs_removeNode inside]
  refine (distinct.filter _).map_on fun a first b second same => ?_
  obtain ⟨source, target⟩ := of_decide_eq_true (List.mem_filter.mp first).2
  obtain ⟨source', target'⟩ := of_decide_eq_true (List.mem_filter.mp second).2
  obtain ⟨s, t, w⟩ := a
  obtain ⟨s', t', w'⟩ := b
  simp only [renumber, Arc.mk.injEq] at same
  obtain ⟨sources, targets, rfl⟩ := same
  obtain rfl : s = s' := moved_injective source source' sources
  obtain rfl : t = t' := moved_injective target target' targets
  rfl

end RemoveNode

theorem addEdge_eq_some {source target : Nat} {weight : E} {g' : DiGraph N E}
    (added : g.addEdge source target weight = some g') :
    g'.nodes = g.nodes ∧ g'.arcs = g.arcs ++ [⟨source, target, weight⟩] ∧
      source < g.nodes.length ∧ target < g.nodes.length := by
  unfold addEdge at added
  split_ifs at added with live
  obtain rfl := Option.some.inj added
  exact ⟨rfl, rfl, live⟩

theorem addEdge_isSome {source target : Nat} (weight : E) :
    (g.addEdge source target weight).isSome = true ↔
      source < g.nodes.length ∧ target < g.nodes.length := by
  unfold addEdge
  split_ifs with live
  · simp [live]
  · simp [live]

theorem mem_links {s t : N} {w : E} :
    (s, t, w) ∈ g.links ↔ ∃ a ∈ g.arcs, g.nodeWeight a.source = some s ∧
      g.nodeWeight a.target = some t ∧ a.weight = w := by
  rw [links, List.mem_filterMap]
  exact exists_congr fun a => and_congr_right fun _ => link_eq_some

theorem links_addEdge {source target : Nat} {weight : E} {g' : DiGraph N E}
    (added : g.addEdge source target weight = some g') :
    g'.links = g.links ++ (g.link ⟨source, target, weight⟩).toList := by
  obtain ⟨nodes, arcs, -, -⟩ := addEdge_eq_some added
  have same : g'.link = g.link := by
    funext a
    exact link_of_live (by rw [nodeWeight, nodeWeight, nodes])
      (by rw [nodeWeight, nodeWeight, nodes])
  rw [links, links, arcs, same, List.filterMap_append]
  refine congrArg _ ?_
  cases found : g.link ⟨source, target, weight⟩ with
  | none => simp [found]
  | some l => simp [found]

end DiGraph

end Lain.Foundation
