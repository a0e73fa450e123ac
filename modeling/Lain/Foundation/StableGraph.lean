import Mathlib.Data.List.Basic
import Mathlib.Data.List.Nodup
import Mathlib.Data.List.Range
import Mathlib.Logic.Basic

/-!
# Slot graphs

A directed graph whose node indices stay valid while other nodes come and go:
removing a node vacates its slot, and the most recently vacated slot is the
next one to be filled.
-/

namespace Lain.Foundation

structure Arc (E : Type*) where
  source : Nat
  target : Nat
  weight : E

structure StableGraph (N E : Type*) where
  slots : List (Option N)
  free : List Nat
  arcs : List (Arc E)
  free_nodup : free.Nodup
  mem_free : ∀ i, i ∈ free ↔ slots[i]? = some none
  arcs_live : ∀ a ∈ arcs,
    (slots[a.source]?).join.isSome = true ∧ (slots[a.target]?).join.isSome = true

namespace StableGraph

variable {N E : Type*}

def nodeWeight (g : StableGraph N E) (i : Nat) : Option N :=
  (g.slots[i]?).join

def edgeWeights (g : StableGraph N E) : List E :=
  g.arcs.map Arc.weight

theorem nodeWeight_eq_some {g : StableGraph N E} {i : Nat} {n : N} :
    g.nodeWeight i = some n ↔ g.slots[i]? = some (some n) := by
  unfold nodeWeight
  cases g.slots[i]? with
  | none => simp
  | some slot => simp

theorem arc_source_live {g : StableGraph N E} {a : Arc E} (member : a ∈ g.arcs) :
    ∃ n, g.nodeWeight a.source = some n :=
  Option.isSome_iff_exists.mp (g.arcs_live a member).1

theorem arc_target_live {g : StableGraph N E} {a : Arc E} (member : a ∈ g.arcs) :
    ∃ n, g.nodeWeight a.target = some n :=
  Option.isSome_iff_exists.mp (g.arcs_live a member).2

private theorem slotLive_iff {slots : List (Option N)} {i : Nat} :
    (slots[i]?).join.isSome = true ↔ ∃ n, slots[i]? = some (some n) := by
  cases slots[i]? with
  | none => simp
  | some slot => simp [Option.isSome_iff_exists]

private theorem slotLive_append {slots : List (Option N)} {i : Nat} (n : N)
    (live : (slots[i]?).join.isSome = true) :
    ((slots ++ [some n])[i]?).join.isSome = true := by
  obtain ⟨old, slot⟩ := slotLive_iff.mp live
  have bound := (List.getElem?_eq_some_iff.mp slot).1
  rwa [List.getElem?_append_left bound]

private theorem slotLive_set {slots : List (Option N)} {i : Nat} (j : Nat) (n : N)
    (live : (slots[i]?).join.isSome = true) :
    ((slots.set j (some n))[i]?).join.isSome = true := by
  obtain ⟨old, slot⟩ := slotLive_iff.mp live
  have bound := (List.getElem?_eq_some_iff.mp slot).1
  rw [List.getElem?_set]
  by_cases same : j = i
  · simp [same, bound]
  · rwa [if_neg same]

/-- The graph without nodes. -/
def empty : StableGraph N E where
  slots := []
  free := []
  arcs := []
  free_nodup := List.nodup_nil
  mem_free := by simp
  arcs_live := by simp

@[simp] theorem nodeWeight_empty (i : Nat) :
    (empty : StableGraph N E).nodeWeight i = none := by
  simp [nodeWeight, empty]

@[simp] theorem edgeWeights_empty : (empty : StableGraph N E).edgeWeights = [] := rfl

def nextIndex (g : StableGraph N E) : Nat :=
  g.free.head?.getD g.slots.length

theorem nodeWeight_nextIndex (g : StableGraph N E) :
    g.nodeWeight g.nextIndex = none := by
  unfold nextIndex nodeWeight
  cases vacant : g.free with
  | nil => simp
  | cons i rest =>
    have hole := (g.mem_free i).mp (by simp [vacant])
    simp [hole]

/-- Add a node in the most recently vacated slot, or in a new one. -/
def addNode (g : StableGraph N E) (n : N) : StableGraph N E :=
  match vacant : g.free with
  | [] =>
    { slots := g.slots ++ [some n]
      free := []
      arcs := g.arcs
      free_nodup := List.nodup_nil
      mem_free := by
        intro i
        have noHole := g.mem_free i
        rw [vacant] at noHole
        by_cases old : i < g.slots.length
        · rw [List.getElem?_append_left old]
          exact noHole
        · rw [List.getElem?_append_right (by omega)]
          by_cases fresh : i - g.slots.length = 0
          · simp [fresh]
          · have beyond : ([some n] : List (Option N))[i - g.slots.length]? = none :=
              List.getElem?_eq_none (by simp; omega)
            simp [beyond]
      arcs_live := fun a member =>
        ⟨slotLive_append n (g.arcs_live a member).1,
          slotLive_append n (g.arcs_live a member).2⟩ }
  | j :: rest =>
    { slots := g.slots.set j (some n)
      free := rest
      arcs := g.arcs
      free_nodup := (List.nodup_cons.mp (vacant ▸ g.free_nodup)).2
      mem_free := by
        intro i
        have hole := g.mem_free i
        have taken : j ∉ rest := (List.nodup_cons.mp (vacant ▸ g.free_nodup)).1
        rw [vacant] at hole
        rw [List.getElem?_set]
        by_cases same : j = i
        · subst same
          by_cases bound : j < g.slots.length <;> simp [bound, taken]
        · have other : i ≠ j := fun h => same h.symm
          rw [if_neg same, ← hole]
          simp [other]
      arcs_live := fun a member =>
        ⟨slotLive_set j n (g.arcs_live a member).1,
          slotLive_set j n (g.arcs_live a member).2⟩ }

theorem nodeWeight_addNode (g : StableGraph N E) (n : N) (i : Nat) :
    (g.addNode n).nodeWeight i = if i = g.nextIndex then some n else g.nodeWeight i := by
  unfold addNode nextIndex nodeWeight
  split
  next vacant =>
      simp only [vacant, List.head?_nil, Option.getD_none]
      by_cases old : i < g.slots.length
      · rw [List.getElem?_append_left old, if_neg (by omega)]
      · rw [List.getElem?_append_right (by omega)]
        by_cases fresh : i = g.slots.length
        · subst fresh
          simp
        · rw [if_neg fresh, List.getElem?_eq_none (by simp; omega),
            List.getElem?_eq_none (by omega)]
  next j rest vacant =>
      have hole : g.slots[j]? = some none := (g.mem_free j).mp (by simp [vacant])
      have bound : j < g.slots.length := (List.getElem?_eq_some_iff.mp hole).1
      simp only [vacant, List.head?_cons, Option.getD_some]
      rw [List.getElem?_set]
      by_cases same : j = i
      · subst same
        simp [bound]
      · rw [if_neg same, if_neg (fun h => same h.symm)]

@[simp] theorem arcs_addNode (g : StableGraph N E) (n : N) :
    (g.addNode n).arcs = g.arcs := by
  unfold addNode
  split <;> rfl

@[simp] theorem edgeWeights_addNode (g : StableGraph N E) (n : N) :
    (g.addNode n).edgeWeights = g.edgeWeights := by
  simp [edgeWeights]

def setNode (g : StableGraph N E) (j : Nat) (n : N) : StableGraph N E :=
  if live : (g.nodeWeight j).isSome = true then
    { slots := g.slots.set j (some n)
      free := g.free
      arcs := g.arcs
      free_nodup := g.free_nodup
      mem_free := by
        intro i
        rw [g.mem_free i, List.getElem?_set]
        by_cases same : j = i
        · subst same
          obtain ⟨old, slot⟩ := slotLive_iff.mp live
          have bound := (List.getElem?_eq_some_iff.mp slot).1
          rw [if_pos rfl, if_pos bound, slot]
          simp
        · rw [if_neg same]
      arcs_live := fun a member =>
        ⟨slotLive_set j n (g.arcs_live a member).1,
          slotLive_set j n (g.arcs_live a member).2⟩ }
  else g

theorem nodeWeight_setNode (g : StableGraph N E) (j : Nat) (n : N) (i : Nat) :
    (g.setNode j n).nodeWeight i =
      if i = j ∧ (g.nodeWeight j).isSome = true then some n else g.nodeWeight i := by
  unfold setNode
  split
  next live =>
      obtain ⟨old, weight⟩ := Option.isSome_iff_exists.mp live
      have bound := (List.getElem?_eq_some_iff.mp (nodeWeight_eq_some.mp weight)).1
      unfold nodeWeight
      simp only
      rw [List.getElem?_set]
      by_cases same : j = i
      · subst same
        rw [if_pos rfl, if_pos bound, if_pos ⟨rfl, live⟩]
        rfl
      · rw [if_neg same, if_neg (fun h => same h.1.symm)]
  next vacant => rw [if_neg (fun h => vacant h.2)]

@[simp] theorem arcs_setNode (g : StableGraph N E) (j : Nat) (n : N) :
    (g.setNode j n).arcs = g.arcs := by
  unfold setNode
  split <;> rfl

@[simp] theorem edgeWeights_setNode (g : StableGraph N E) (j : Nat) (n : N) :
    (g.setNode j n).edgeWeights = g.edgeWeights := by
  simp [edgeWeights]

/-- Vacate a live slot together with its incident arcs. -/
def removeNode (g : StableGraph N E) (j : Nat) : StableGraph N E :=
  if live : (g.nodeWeight j).isSome = true then
    { slots := g.slots.set j none
      free := j :: g.free
      arcs := g.arcs.filter fun a => decide (a.source ≠ j ∧ a.target ≠ j)
      free_nodup := by
        refine List.nodup_cons.mpr ⟨?_, g.free_nodup⟩
        intro vacant
        obtain ⟨old, weight⟩ := Option.isSome_iff_exists.mp live
        rw [g.mem_free j, nodeWeight_eq_some.mp weight] at vacant
        simp at vacant
      mem_free := by
        intro i
        rw [List.mem_cons, g.mem_free i, List.getElem?_set]
        obtain ⟨old, weight⟩ := Option.isSome_iff_exists.mp live
        have bound := (List.getElem?_eq_some_iff.mp (nodeWeight_eq_some.mp weight)).1
        by_cases same : j = i
        · subst same
          simp [bound]
        · have other : i ≠ j := fun h => same h.symm
          simp [same, other]
      arcs_live := by
        intro a member
        obtain ⟨old, apart⟩ := List.mem_filter.mp member
        have ⟨source, target⟩ := of_decide_eq_true apart
        have live := g.arcs_live a old
        rw [List.getElem?_set, List.getElem?_set, if_neg (fun h => source h.symm),
          if_neg (fun h => target h.symm)]
        exact live }
  else g

theorem nodeWeight_removeNode (g : StableGraph N E) (j i : Nat) :
    (g.removeNode j).nodeWeight i = if i = j then none else g.nodeWeight i := by
  unfold removeNode
  split
  next live =>
      obtain ⟨old, weight⟩ := Option.isSome_iff_exists.mp live
      have bound := (List.getElem?_eq_some_iff.mp (nodeWeight_eq_some.mp weight)).1
      unfold nodeWeight
      simp only
      rw [List.getElem?_set]
      by_cases same : j = i
      · subst same
        simp [bound]
      · rw [if_neg same, if_neg (fun h => same h.symm)]
  next vacant =>
      by_cases same : i = j
      · subst same
        simpa using vacant
      · rw [if_neg same]

theorem mem_arcs_removeNode (g : StableGraph N E) (j : Nat) (a : Arc E) :
    a ∈ (g.removeNode j).arcs ↔ a ∈ g.arcs ∧ a.source ≠ j ∧ a.target ≠ j := by
  unfold removeNode
  split
  next live => simp [List.mem_filter]
  next vacant =>
      constructor
      · intro member
        refine ⟨member, ?_, ?_⟩
        · intro same
          exact vacant (same ▸ (g.arcs_live a member).1)
        · intro same
          exact vacant (same ▸ (g.arcs_live a member).2)
      · exact fun h => h.1

def mapNodes (g : StableGraph N E) (f : N → N) : StableGraph N E where
  slots := g.slots.map (Option.map f)
  free := g.free
  arcs := g.arcs
  free_nodup := g.free_nodup
  mem_free := by
    intro i
    rw [g.mem_free i, List.getElem?_map]
    cases g.slots[i]? with
    | none => simp
    | some slot => cases slot <;> simp
  arcs_live := by
    intro a member
    have keep : ∀ i : Nat, (g.slots[i]?).join.isSome = true →
        ((g.slots.map (Option.map f))[i]?).join.isSome = true := by
      intro i live
      obtain ⟨n, slot⟩ := slotLive_iff.mp live
      simp [slot]
    exact ⟨keep _ (g.arcs_live a member).1, keep _ (g.arcs_live a member).2⟩

@[simp] theorem nodeWeight_mapNodes (g : StableGraph N E) (f : N → N) (i : Nat) :
    (g.mapNodes f).nodeWeight i = (g.nodeWeight i).map f := by
  unfold nodeWeight mapNodes
  rw [List.getElem?_map]
  cases slot : g.slots[i]? with
  | none => rfl
  | some content => cases content <;> rfl

@[simp] theorem arcs_mapNodes (g : StableGraph N E) (f : N → N) :
    (g.mapNodes f).arcs = g.arcs := rfl

def addEdge (g : StableGraph N E) (source target : Nat) (weight : E) :
    Option (StableGraph N E) :=
  if live : (g.nodeWeight source).isSome = true ∧ (g.nodeWeight target).isSome = true then
    some
      { g with
        arcs := g.arcs ++ [⟨source, target, weight⟩]
        arcs_live := by
          intro a member
          rcases List.mem_append.mp member with old | new
          · exact g.arcs_live a old
          · obtain rfl := List.mem_singleton.mp new
            exact live }
  else none

theorem addEdge_eq_some {g g' : StableGraph N E} {source target : Nat} {weight : E}
    (added : g.addEdge source target weight = some g') :
    (∀ i, g'.nodeWeight i = g.nodeWeight i) ∧
      g'.arcs = g.arcs ++ [⟨source, target, weight⟩] := by
  unfold addEdge at added
  split at added
  · cases added
    exact ⟨fun _ => rfl, rfl⟩
  · cases added

theorem addEdge_isSome {g : StableGraph N E} {source target : Nat} (weight : E)
    {m n : N} (sourceLive : g.nodeWeight source = some m)
    (targetLive : g.nodeWeight target = some n) :
    ∃ g', g.addEdge source target weight = some g' := by
  unfold addEdge
  rw [dif_pos (by simp [sourceLive, targetLive])]
  exact ⟨_, rfl⟩

def retainEdges (g : StableGraph N E) (keep : Arc E → Bool) : StableGraph N E :=
  { g with
    arcs := g.arcs.filter keep
    arcs_live := fun a member => g.arcs_live a (List.mem_filter.mp member).1 }

@[simp] theorem nodeWeight_retainEdges (g : StableGraph N E) (keep : Arc E → Bool)
    (i : Nat) : (g.retainEdges keep).nodeWeight i = g.nodeWeight i := rfl

@[simp] theorem arcs_retainEdges (g : StableGraph N E) (keep : Arc E → Bool) :
    (g.retainEdges keep).arcs = g.arcs.filter keep := rfl

def edgesConnecting (g : StableGraph N E) (source target : Nat) : List (Arc E) :=
  g.arcs.filter fun a => decide (a.source = source ∧ a.target = target)

theorem mem_edgesConnecting {g : StableGraph N E} {source target : Nat} {a : Arc E} :
    a ∈ g.edgesConnecting source target ↔
      a ∈ g.arcs ∧ a.source = source ∧ a.target = target := by
  simp [edgesConnecting]

def nodeReferences (g : StableGraph N E) : List (Nat × N) :=
  g.slots.zipIdx.filterMap fun entry => entry.1.map fun n => (entry.2, n)

theorem mem_nodeReferences {g : StableGraph N E} {i : Nat} {n : N} :
    (i, n) ∈ g.nodeReferences ↔ g.nodeWeight i = some n := by
  unfold nodeReferences
  rw [List.mem_filterMap, nodeWeight_eq_some]
  constructor
  · rintro ⟨⟨slot, j⟩, member, same⟩
    cases slot with
    | none => simp at same
    | some content =>
      simp only [Option.map_some, Option.some.injEq, Prod.mk.injEq] at same
      obtain ⟨rfl, rfl⟩ := same
      exact List.mk_mem_zipIdx_iff_getElem?.mp member
  · intro slot
    exact ⟨(some n, i), List.mk_mem_zipIdx_iff_getElem?.mpr slot, rfl⟩

theorem nodeReferences_pairwise (g : StableGraph N E) :
    (g.nodeReferences.map Prod.fst).Pairwise (· < ·) := by
  have sublist : ∀ (l : List (Option N)) (k : Nat),
      ((l.zipIdx k).filterMap fun entry : Option N × Nat =>
        entry.1.map fun n => (entry.2, n)).map Prod.fst |>.Sublist (List.range' k l.length) := by
    intro l
    induction l with
    | nil => intro k; simp
    | cons slot rest ih =>
      intro k
      rw [List.zipIdx_cons, List.length_cons, List.range'_succ]
      cases slot with
      | none => exact (ih (k + 1)).cons k
      | some n => exact (ih (k + 1)).cons_cons k
  exact List.Pairwise.sublist (sublist g.slots 0) List.pairwise_lt_range'

theorem nodeReferences_nodup (g : StableGraph N E) :
    (g.nodeReferences.map Prod.fst).Nodup :=
  g.nodeReferences_pairwise.imp ne_of_lt

def relink (g : StableGraph N E) : StableGraph N E where
  slots := g.slots
  free := ((List.range g.slots.length).filter fun i => (g.nodeWeight i).isNone).reverse
  arcs := g.arcs
  free_nodup := List.nodup_reverse.mpr (List.nodup_range.filter _)
  mem_free := by
    intro i
    rw [List.mem_reverse, List.mem_filter, List.mem_range]
    unfold nodeWeight
    constructor
    · rintro ⟨bound, hole⟩
      rw [List.getElem?_eq_getElem bound] at hole ⊢
      simpa using hole
    · intro hole
      exact ⟨(List.getElem?_eq_some_iff.mp hole).1, by simp [hole]⟩
  arcs_live := g.arcs_live

@[simp] theorem nodeWeight_relink (g : StableGraph N E) (i : Nat) :
    g.relink.nodeWeight i = g.nodeWeight i := rfl

@[simp] theorem arcs_relink (g : StableGraph N E) : g.relink.arcs = g.arcs := rfl

end StableGraph

end Lain.Foundation
