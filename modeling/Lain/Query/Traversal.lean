import Mathlib
import Lain.Foundation.Bfs
import Lain.Query.Executor

/-!
# Traversals and paths

Two searches of the graph: the nodes within a range of distances from a node, over edges of one
type, and a shortest path between two nodes over any edges.
-/

namespace Lain

open Foundation Lain.Graph

namespace Graph.GraphDatabase

def edgesDirected (db : GraphDatabase) (direction : PetDirection) (slot : Nat) :
    List (Arc GraphEdge) :=
  db.graph.arcs.reverse.filter fun a => decide (near direction a = slot)

/-! ### The nodes within a range -/

structure Traversal where
  visited : List Nat
  queue : List (Nat × Nat)
  result : List GraphNode := []

namespace Traversal

variable (db : GraphDatabase) (edgeType : EdgeType) (direction : PetDirection) (depth : Nat × Nat)

def follow (currentDepth : Nat) (t : Traversal) (graphEdge : Arc GraphEdge) : Traversal :=
  if graphEdge.weight.edgeType ≠ edgeType then t
  else
    let next := far direction graphEdge
    if next ∈ t.visited then t
    else
      let visited := t.visited ++ [next]
      match db.graph.nodeWeight next with
      | none => { t with visited }
      | some node =>
        { visited
          queue := t.queue ++ [(next, currentDepth + 1)]
          result := if depth.1 ≤ currentDepth + 1 then t.result ++ [node] else t.result }

/-- Follow the edges of a node, unless it lies at the end depth. -/
def advance (current currentDepth : Nat) (t : Traversal) : Traversal :=
  if depth.2 ≤ currentDepth then t
  else
    (db.edgesDirected direction current).foldl (follow db edgeType direction depth currentDepth) t

/-- Go on until the queue is empty; there is no result when the fuel is used up before. -/
def run : Nat → Traversal → Option (List GraphNode)
  | 0, _ => none
  | fuel + 1, t =>
    match t.queue with
    | [] => some t.result
    | (current, currentDepth) :: rest =>
      run fuel (advance db edgeType direction depth current currentDepth
        { t with queue := rest })

end Traversal

/-- The nodes that edges of a type lead to, over at least and at most so many of them. -/
def traverse (db : GraphDatabase) (start : String) (edgeType : EdgeType) (depth : Nat × Nat)
    (direction : PetDirection) : Option (List GraphNode) :=
  match db.indexMap.lookup start with
  | none => some []
  | some startIdx =>
    if depth.2 < depth.1 then some []
    else
      Traversal.run db edgeType direction depth (db.graph.slots.length + 2)
        { visited := [startIdx], queue := [(startIdx, 0)] }

/-! ### A shortest path -/

structure PathSearch where
  parents : Nat → Option (Option Nat)
  queue : List Nat

namespace PathSearch

def follow (current : Nat) (s : PathSearch) (graphEdge : Arc GraphEdge) : PathSearch :=
  let next := graphEdge.target
  match s.parents next with
  | some _ => s
  | none =>
    { parents := Function.update s.parents next (some (some current))
      queue := s.queue ++ [next] }

/-- Go on until the target is taken from the queue or the queue is empty; there is no result when
the fuel is used up before. -/
def run (db : GraphDatabase) (toIdx : Nat) : Nat → PathSearch → Option (Nat → Option (Option Nat))
  | 0, _ => none
  | fuel + 1, s =>
    match s.queue with
    | [] => some s.parents
    | current :: rest =>
      if current = toIdx then some s.parents
      else
        run db toIdx fuel ((db.edgesDirected .outgoing current).foldl (follow current)
          { s with queue := rest })

def back (parents : Nat → Option (Option Nat)) : Nat → Nat → Option (List Nat)
  | 0, _ => none
  | fuel + 1, idx =>
    match parents idx with
    | none => none
    | some none => some [idx]
    | some (some parent) => (back parents fuel parent).map (idx :: ·)

end PathSearch

/-- The nodes on a path between two nodes, or none when there is no path. -/
def findPath (db : GraphDatabase) (start target : String) : Option (List GraphNode) :=
  match db.indexMap.lookup start, db.indexMap.lookup target with
  | some fromIdx, some toIdx =>
    (PathSearch.run db toIdx (db.graph.slots.length + 2)
      { parents := Function.update (fun _ => none) fromIdx (some none)
        queue := [fromIdx] }).bind fun parents =>
      if (parents toIdx).isSome then
        (PathSearch.back parents (db.graph.slots.length + 2) toIdx).map fun indices =>
          indices.reverse.filterMap db.graph.nodeWeight
      else some []
  | _, _ => some []

/-! ### The search of the slots -/

variable (db : GraphDatabase) (takes : EdgeType → Bool) (direction : PetDirection)

def Joined (u v : Nat) : Prop :=
  ∃ a ∈ db.graph.arcs, takes a.weight.edgeType = true ∧ near direction a = u ∧ far direction a = v

def slotRules (max : Nat) : Bfs.Rules Nat GraphEdge Nat where
  next u := ((db.edgesDirected direction u).filter fun a => takes a.weight.edgeType).map fun a =>
    (a.weight, far direction a)
  entry _ u _ := u
  parent := id
  depth := max
  parent_entry _ _ _ := rfl

variable {db takes direction}

theorem mem_edgesDirected {slot : Nat} {a : Arc GraphEdge} :
    a ∈ db.edgesDirected direction slot ↔ a ∈ db.graph.arcs ∧ near direction a = slot := by
  unfold edgesDirected
  rw [List.mem_filter, List.mem_reverse, decide_eq_true_eq]

theorem mem_next_slotRules {max u : Nat} {step : GraphEdge × Nat} :
    step ∈ (db.slotRules takes direction max).next u ↔
      ∃ a ∈ db.graph.arcs, takes a.weight.edgeType = true ∧ near direction a = u ∧
        (a.weight, far direction a) = step := by
  unfold slotRules
  simp only [List.mem_map, List.mem_filter, mem_edgesDirected]
  constructor
  · rintro ⟨a, ⟨⟨stored, leaves⟩, taken⟩, same⟩
    exact ⟨a, stored, taken, leaves, same⟩
  · rintro ⟨a, stored, taken, leaves, same⟩
    exact ⟨a, ⟨⟨stored, leaves⟩, taken⟩, same⟩

theorem adj_slotRules (max : Nat) :
    (db.slotRules takes direction max).Adj = db.Joined takes direction := by
  funext u v
  refine propext ⟨?_, ?_⟩
  · rintro ⟨l, step⟩
    obtain ⟨a, stored, taken, leaves, same⟩ := mem_next_slotRules.mp step
    exact ⟨a, stored, taken, leaves, (Prod.mk.inj same).2⟩
  · rintro ⟨a, stored, taken, leaves, arrives⟩
    exact ⟨a.weight, mem_next_slotRules.mpr ⟨a, stored, taken, leaves, by rw [arrives]⟩⟩

theorem live_near {a : Arc GraphEdge} (stored : a ∈ db.graph.arcs) :
    ∃ node, db.graph.nodeWeight (near direction a) = some node := by
  cases direction with
  | outgoing => exact StableGraph.arc_source_live stored
  | incoming => exact StableGraph.arc_target_live stored

variable (direction) in
theorem live_far {a : Arc GraphEdge} (stored : a ∈ db.graph.arcs) :
    ∃ node, db.graph.nodeWeight (far direction a) = some node := by
  cases direction with
  | outgoing => exact StableGraph.arc_target_live stored
  | incoming => exact StableGraph.arc_source_live stored

theorem mem_slots {max u : Nat} {step : GraphEdge × Nat} (i : Nat)
    (known : step ∈ (db.slotRules takes direction max).next u) :
    step.2 ∈ i :: List.range db.graph.slots.length := by
  obtain ⟨a, stored, -, -, rfl⟩ := mem_next_slotRules.mp known
  obtain ⟨node, live⟩ := live_far direction stored
  obtain ⟨bound, -⟩ := List.getElem?_eq_some_iff.mp (StableGraph.nodeWeight_eq_some.mp live)
  exact List.mem_cons_of_mem _ (List.mem_range.mpr bound)

theorem inv_start (max i : Nat) :
    Bfs.Inv (db.slotRules takes direction max) (· = i) [] 0 ([i].foldl Bfs.Search.seed {}) := by
  have inv : Bfs.Inv (db.slotRules takes direction max) (· ∈ [i]) [] 0
      ([i].foldl Bfs.Search.seed {}) := (Bfs.seeded_foldl [i]).inv
  rwa [show (· ∈ [i]) = (· = i) from funext fun v => propext List.mem_singleton] at inv

/-! ### Traversals are exact -/

abbrev typeRules (db : GraphDatabase) (edgeType : EdgeType) (direction : PetDirection)
    (max : Nat) : Bfs.Rules Nat GraphEdge Nat :=
  db.slotRules (fun e => decide (e = edgeType)) direction max

namespace Traversal

variable {edgeType : EdgeType} {depth : Nat × Nat} {start : Nat} {popped : List (Nat × Nat)}
  {level : Nat} {t : Traversal} {s : Bfs.Search Nat Nat}

structure Mirrors (db : GraphDatabase) (least start : Nat) (popped : List (Nat × Nat))
    (t : Traversal) (s : Bfs.Search Nat Nat) : Prop where
  visited : t.visited = s.visited
  queue : t.queue = s.queue
  sorted : (popped ++ s.queue).Pairwise fun a b => a.2 ≤ b.2
  found : ∃ found, popped ++ s.queue = (start, 0) :: found ∧ (∀ e ∈ found, 0 < e.2) ∧
    List.Forall₂ (fun e node => db.graph.nodeWeight e.1 = some node)
      (found.filter fun e => decide (least ≤ e.2)) t.result

theorem Mirrors.follow {u : Nat} {a : Arc GraphEdge}
    (mirrors : Mirrors db depth.1 start popped t s)
    (inv : Bfs.Inv (db.typeRules edgeType direction depth.2) (· = start)
      popped level s) (stored : a ∈ db.graph.arcs) (takes : a.weight.edgeType = edgeType) :
    Mirrors db depth.1 start popped (t.follow db edgeType direction depth level a)
      (s.discover (db.typeRules edgeType direction depth.2) u level
        (a.weight, far direction a)) := by
  obtain ⟨node, live⟩ := live_far direction stored
  unfold Traversal.follow Bfs.Search.discover
  rw [if_neg (not_not.mpr takes), mirrors.visited]
  by_cases old : far direction a ∈ s.visited
  · rw [if_pos old, if_pos old]
    exact mirrors
  · rw [if_neg old, if_neg old, live]
    have all : popped ++ (s.queue ++ [(far direction a, level + 1)]) =
        popped ++ s.queue ++ [(far direction a, level + 1)] := (List.append_assoc _ _ _).symm
    obtain ⟨found, entries, positive, nodes⟩ := mirrors.found
    refine ⟨rfl, ?_, ?_, found ++ [(far direction a, level + 1)], ?_, ?_, ?_⟩
    · rw [mirrors.queue]
    · rw [all]
      refine List.pairwise_append.mpr ⟨mirrors.sorted, List.pairwise_singleton _ _, ?_⟩
      intro e member last known
      rw [List.mem_singleton.mp known]
      rcases List.mem_append.mp member with behind | ahead
      · exact Nat.le_succ_of_le (inv.behind e behind)
      · exact (inv.ahead e ahead).2
    · rw [all, entries]
      rfl
    · intro e member
      rcases List.mem_append.mp member with before | last
      · exact positive e before
      · rw [List.mem_singleton.mp last]
        exact Nat.succ_pos level
    · rw [List.filter_append]
      by_cases enough : depth.1 ≤ level + 1
      · dsimp only
        rw [if_pos enough, List.filter_singleton, decide_eq_true enough]
        exact List.rel_append nodes (.cons live .nil)
      · dsimp only
        rw [if_neg enough, List.filter_singleton, decide_eq_false enough]
        simpa using nodes

theorem Mirrors.followAll {u : Nat} (here : (u, level) ∈ popped) (below : level < depth.2)
    (arcs : List (Arc GraphEdge)) (all : ∀ a ∈ arcs, a ∈ db.edgesDirected direction u) :
    ∀ {t : Traversal} {s : Bfs.Search Nat Nat}, Mirrors db depth.1 start popped t s →
      Bfs.Inv (db.typeRules edgeType direction depth.2) (· = start)
        popped level s →
      Mirrors db depth.1 start popped
        (arcs.foldl (Traversal.follow db edgeType direction depth level) t)
        ((((arcs.filter fun a => decide (a.weight.edgeType = edgeType)).map fun a =>
          (a.weight, far direction a))).foldl
            (Bfs.Search.discover (db.typeRules edgeType direction depth.2)
              u level) s) := by
  induction arcs with
  | nil => exact fun mirrors _ => mirrors
  | cons a rest ih =>
    intro t s mirrors inv
    obtain ⟨listed, later⟩ := List.forall_mem_cons.mp all
    obtain ⟨stored, leaves⟩ := mem_edgesDirected.mp listed
    rw [List.foldl_cons]
    by_cases takes : a.weight.edgeType = edgeType
    · rw [List.filter_cons, if_pos (decide_eq_true takes), List.map_cons, List.foldl_cons]
      refine ih later (mirrors.follow inv stored takes) (inv.discover here below ?_)
      exact mem_next_slotRules.mpr ⟨a, stored, decide_eq_true takes, leaves, rfl⟩
    · rw [List.filter_cons, if_neg (by simpa using takes)]
      have skipped : t.follow db edgeType direction depth level a = t := if_pos takes
      rw [skipped]
      exact ih later mirrors inv

theorem Mirrors.advance {u : Nat} (here : (u, level) ∈ popped)
    (mirrors : Mirrors db depth.1 start popped t s)
    (inv : Bfs.Inv (db.typeRules edgeType direction depth.2) (· = start) popped level s) :
    Mirrors db depth.1 start popped (t.advance db edgeType direction depth u level)
      (s.advance (db.typeRules edgeType direction depth.2) u level) := by
  unfold Traversal.advance Bfs.Search.advance
  by_cases deep : depth.2 ≤ level
  · have deep' : (db.typeRules edgeType direction depth.2).depth ≤ level := deep
    rw [if_pos deep, if_pos deep']
    exact mirrors
  · have below : ¬ (db.typeRules edgeType direction depth.2).depth ≤ level := deep
    rw [if_neg deep, if_neg below]
    exact Mirrors.followAll here (Nat.not_le.mp deep) _ (fun a member => member) mirrors inv

theorem Mirrors.run (fuel : Nat) :
    ∀ {popped : List (Nat × Nat)} {level : Nat} {t : Traversal} {s : Bfs.Search Nat Nat},
      Mirrors db depth.1 start popped t s →
      Bfs.Inv (db.typeRules edgeType direction depth.2) (· = start)
        popped level s →
      (s.run (db.typeRules edgeType direction depth.2) fuel).queue = [] →
      ∃ t', Traversal.run db edgeType direction depth (fuel + 1) t = some t'.result ∧
        Mirrors db depth.1 start
          (popped ++ (s.pops (db.typeRules edgeType direction depth.2)
            fuel).map Prod.fst) t'
          (s.run (db.typeRules edgeType direction depth.2) fuel) := by
  induction fuel with
  | zero =>
    intro popped level t s mirrors _ done
    rw [Bfs.Search.run] at done
    rw [Bfs.Search.pops, Bfs.Search.run, List.map_nil, List.append_nil]
    refine ⟨t, ?_, mirrors⟩
    rw [Traversal.run, mirrors.queue, done]
  | succ fuel ih =>
    intro popped level t s mirrors inv done
    cases queue : s.queue with
    | nil =>
      refine ⟨t, ?_, ?_⟩
      · rw [Traversal.run, mirrors.queue, queue]
      · rw [Bfs.Search.pops, Bfs.Search.run, queue]
        simpa using mirrors
    | cons head rest =>
      obtain ⟨u, d⟩ := head
      have front : t.queue = (u, d) :: rest := mirrors.queue.trans queue
      have all : popped ++ [(u, d)] ++ rest = popped ++ s.queue := by rw [queue]; simp
      have taken : Mirrors db depth.1 start (popped ++ [(u, d)]) { t with queue := rest }
          { s with queue := rest } := by
        refine ⟨mirrors.visited, rfl, ?_, ?_⟩
        · exact (congrArg (List.Pairwise _) all).mpr mirrors.sorted
        · obtain ⟨found, entries, positive, nodes⟩ := mirrors.found
          exact ⟨found, all.trans entries, positive, nodes⟩
      have popping := inv.pop queue
      have here : (u, d) ∈ popped ++ [(u, d)] := by simp
      rw [Bfs.Search.run, queue] at done
      rw [Traversal.run, Bfs.Search.pops, Bfs.Search.run, queue, front, List.map_cons,
        List.append_cons]
      exact ih (taken.advance here popping) (popping.advance here).1 done

end Traversal

/-- What a traversal is to return: the nodes of the slots whose distance from the start lies in the
range, each slot once and the nearer ones first. -/
structure IsTraversal (db : GraphDatabase) (start : String) (edgeType : EdgeType)
    (depth : Nat × Nat) (direction : PetDirection) (found : List (Nat × Nat))
    (nodes : List GraphNode) : Prop where
  nodes : List.Forall₂ (fun e node => db.graph.nodeWeight e.1 = some node) found nodes
  once : (found.map Prod.fst).Nodup
  nearer : found.Pairwise fun a b => a.2 ≤ b.2
  mem_iff : ∀ v d, (v, d) ∈ found ↔ (max 1 depth.1 ≤ d ∧ d ≤ depth.2) ∧
    ∃ i, db.indexMap.lookup start = some i ∧
      Bfs.AtDistance (db.Joined (fun e => decide (e = edgeType)) direction) (· = i) d v

/-- **A traversal is exact**, and ends. -/
theorem isTraversal_traverse (db : GraphDatabase) (start : String) (edgeType : EdgeType)
    (depth : Nat × Nat) (direction : PetDirection) :
    ∃ found nodes, db.traverse start edgeType depth direction = some nodes ∧
      db.IsTraversal start edgeType depth direction found nodes := by
  unfold traverse
  cases located : db.indexMap.lookup start with
  | none => exact ⟨[], [], rfl, .nil, List.nodup_nil, .nil, by simp [located]⟩
  | some i =>
    by_cases empty : depth.2 < depth.1
    · refine ⟨[], [], if_pos empty, .nil, List.nodup_nil, .nil, fun v d => ?_⟩
      refine iff_of_false List.not_mem_nil ?_
      rintro ⟨⟨low, high⟩, -⟩
      omega
    · have inv : Bfs.Inv (db.typeRules edgeType direction depth.2) (· = i) [] 0
          ([i].foldl Bfs.Search.seed {}) := db.inv_start depth.2 i
      have first : Traversal.Mirrors db depth.1 i [] ⟨[i], [(i, 0)], []⟩
          ([i].foldl Bfs.Search.seed {}) := by
        refine ⟨rfl, rfl, ?_, [], rfl, by simp, .nil⟩
        exact List.pairwise_singleton _ _
      have run := inv.run (db.graph.slots.length + 1) (by simp)
      have done := run.queue_eq_nil (i :: List.range db.graph.slots.length)
        (fun v seed => seed ▸ List.mem_cons_self) (fun u step known => mem_slots i known)
        (by simp)
      obtain ⟨t, ended, mirrors⟩ := first.run (db.graph.slots.length + 1) inv done
      obtain ⟨found, entries, positive, nodes⟩ := mirrors.found
      obtain ⟨level, final⟩ := run.inv
      have sorted := mirrors.sorted
      have distinct := final.nodup
      rw [done, List.append_nil] at entries
      rw [done, List.append_nil, entries, List.pairwise_cons] at sorted
      rw [final.visited, done, List.append_nil, entries, List.map_cons,
        List.nodup_cons] at distinct
      refine ⟨found.filter fun e => decide (depth.1 ≤ e.2), t.result, ?_, nodes, ?_,
        sorted.2.filter _, fun v d => ?_⟩
      · exact (if_neg empty).trans ended
      · exact distinct.2.sublist (List.filter_sublist.map Prod.fst)
      · have further : (v, d) ∈ found ↔ 0 < d ∧ (v, d) ∈ (i, 0) :: found := by
          rw [List.mem_cons]
          constructor
          · exact fun member => ⟨positive _ member, Or.inr member⟩
          · rintro ⟨far, start | member⟩
            · exact absurd far (by rw [(Prod.mk.inj start).2]; exact lt_irrefl 0)
            · exact member
        rw [List.mem_filter, decide_eq_true_eq, further, ← entries, run.mem_iff done,
          adj_slotRules]
        simp only [located, Option.some.injEq, exists_eq_left', max_le_iff]
        exact ⟨fun ⟨⟨far, high, distance⟩, low⟩ => ⟨⟨⟨far, low⟩, high⟩, distance⟩,
          fun ⟨⟨⟨far, low⟩, high⟩, distance⟩ => ⟨⟨far, high, distance⟩, low⟩⟩

/-! ### Paths are shortest -/

abbrev pathRules (db : GraphDatabase) : Bfs.Rules Nat GraphEdge Nat :=
  db.slotRules (fun _ => true) .outgoing (db.graph.slots.length + 1)

namespace PathSearch

variable {i toIdx level : Nat} {popped : List (Nat × Nat)} {t : PathSearch}
  {s : Bfs.Search Nat Nat}

def Parents (parents : Nat → Option (Option Nat)) (s : Bfs.Search Nat Nat) : Prop :=
  ∀ v, parents v = if v ∈ s.visited then some (s.pred v) else none

structure Mirrors (t : PathSearch) (s : Bfs.Search Nat Nat) : Prop where
  queue : t.queue = s.queue.map Prod.fst
  parents : Parents t.parents s

theorem Mirrors.follow (mirrors : Mirrors t s) (u d : Nat) (a : Arc GraphEdge) :
    Mirrors (t.follow u a) (s.discover db.pathRules u d (a.weight, a.target)) := by
  have known := mirrors.parents a.target
  unfold PathSearch.follow Bfs.Search.discover
  by_cases old : a.target ∈ s.visited
  · rw [if_pos old] at known
    rw [if_pos old]
    dsimp only
    rw [known]
    exact mirrors
  · rw [if_neg old] at known
    rw [if_neg old]
    dsimp only
    rw [known]
    refine ⟨by simp [mirrors.queue], fun v => ?_⟩
    change Function.update t.parents a.target (some (some u)) v =
      if v ∈ s.visited ++ [a.target] then
        some (Function.update s.pred a.target (some u) v) else none
    by_cases same : v = a.target
    · subst same
      rw [Function.update_self, Function.update_self, if_pos (by simp)]
    · rw [Function.update_of_ne same, Function.update_of_ne same, mirrors.parents]
      simp [same]

theorem Mirrors.followAll (u d : Nat) (arcs : List (Arc GraphEdge)) :
    ∀ {t : PathSearch} {s : Bfs.Search Nat Nat}, Mirrors t s →
      Mirrors (arcs.foldl (PathSearch.follow u) t)
        ((arcs.map fun a => (a.weight, a.target)).foldl
          (Bfs.Search.discover db.pathRules u d) s) := by
  induction arcs with
  | nil => exact fun mirrors => mirrors
  | cons a rest ih => exact fun mirrors => ih (mirrors.follow u d a)

theorem next_pathRules (u : Nat) :
    db.pathRules.next u = (db.edgesDirected .outgoing u).map fun a => (a.weight, a.target) := by
  change List.map _ (List.filter _ _) = _
  rw [List.filter_true]
  rfl

theorem length_visited_le (inv : Bfs.Inv db.pathRules (· = i) popped level s) :
    s.visited.length ≤ db.graph.slots.length + 1 := by
  have inside : s.visited ⊆ i :: List.range db.graph.slots.length := by
    intro v known
    obtain ⟨d, member⟩ := inv.mem_visited.mp known
    cases d with
    | zero => exact (show v = i from inv.reaches 0 v member) ▸ List.mem_cons_self
    | succ d =>
      obtain ⟨u, -, l, step⟩ := inv.reaches (d + 1) v member
      exact mem_slots i step
  have few := (inv.nodup.subperm inside).length_le
  simpa using few

structure Sought (db : GraphDatabase) (i toIdx : Nat) (parents : Nat → Option (Option Nat))
    (popped : List (Nat × Nat)) (level : Nat) (s : Bfs.Search Nat Nat) : Prop where
  inv : Bfs.Inv db.pathRules (· = i) popped level s
  parents : Parents parents s
  distance : ∀ d, (toIdx, d) ∈ popped ++ s.queue →
    Bfs.AtDistance (db.Joined (fun _ => true) .outgoing) (· = i) d toIdx
  reached : ∀ n, Bfs.Reaches (db.Joined (fun _ => true) .outgoing) (· = i) n toIdx →
    toIdx ∈ s.visited

variable (toIdx) in
theorem Mirrors.run (fuel : Nat) :
    ∀ {popped : List (Nat × Nat)} {level : Nat} {t : PathSearch} {s : Bfs.Search Nat Nat},
      Mirrors t s → Bfs.Inv db.pathRules (· = i) popped level s →
      (∀ e ∈ popped, Bfs.ClosedAt db.pathRules popped s e.1 e.2) →
      db.graph.slots.length + 1 < popped.length + fuel →
      ∃ parents popped' level' s', PathSearch.run db toIdx fuel t = some parents ∧
        Sought db i toIdx parents popped' level' s' := by
  induction fuel with
  | zero =>
    intro popped level t s mirrors inv closed enough
    have few := length_visited_le inv
    rw [inv.visited, List.length_map, List.length_append] at few
    omega
  | succ fuel ih =>
    intro popped level t s mirrors inv closed enough
    cases queue : s.queue with
    | nil =>
      have run := inv.run 0 closed
      rw [Bfs.Search.pops, Bfs.Search.run, List.map_nil, List.append_nil] at run
      refine ⟨t.parents, popped, level, s, ?_, inv, mirrors.parents, fun d member => ?_,
        fun n reached => ?_⟩
      · rw [PathSearch.run, mirrors.queue, queue]
        rfl
      · rw [queue, List.append_nil] at member
        have distance := ((run.mem_iff queue).mp member).2
        rwa [adj_slotRules] at distance
      · rw [← adj_slotRules (db.graph.slots.length + 1)] at reached
        obtain ⟨d, member⟩ := run.exhausts queue (fun e listed =>
          (inv.distance_lt (List.mem_append_left _ listed)).trans_le (length_visited_le inv))
          n toIdx reached
        exact inv.mem_visited.mpr ⟨d, List.mem_append_left _ member⟩
    | cons head rest =>
      obtain ⟨u, d⟩ := head
      have front : t.queue = u :: rest.map Prod.fst := by rw [mirrors.queue, queue]; rfl
      rw [PathSearch.run, front]
      by_cases here : u = toIdx
      · subst here
        have known : (u, d) ∈ popped ++ s.queue := by simp [queue]
        refine ⟨t.parents, popped, level, s, if_pos rfl, inv, mirrors.parents,
          fun e member => ?_, fun n _ => inv.mem_visited.mpr ⟨d, known⟩⟩
        -- going on to the end of the queue shows that no shorter walk was missed
        have run := inv.run (db.graph.slots.length + 1) closed
        have done := run.queue_eq_nil (i :: List.range db.graph.slots.length)
          (fun v seed => seed ▸ List.mem_cons_self) (fun w step known => mem_slots i known)
          (by simp)
        have later := run.later.member _ member
        rw [done, List.append_nil] at later
        have distance := ((run.mem_iff done).mp later).2
        rwa [adj_slotRules] at distance
      · have below : ¬ db.pathRules.depth ≤ d := Nat.not_le.mpr
          ((inv.distance_lt (v := u) (by simp [queue])).trans_le (length_visited_le inv))
        have stepped := inv.run 1 closed
        simp only [Bfs.Search.pops, Bfs.Search.run, queue, List.map_cons, List.map_nil,
          Bfs.Search.advance, if_neg below, next_pathRules] at stepped
        obtain ⟨level', inv'⟩ := stepped.inv
        have taken : Mirrors { t with queue := rest.map Prod.fst } { s with queue := rest } :=
          ⟨rfl, mirrors.parents⟩
        simp only [if_neg here]
        refine ih (taken.followAll u d (db.edgesDirected .outgoing u)) inv' stepped.closed ?_
        rw [List.length_append, List.length_singleton]
        omega

theorem back_of_chain {parents : Nat → Option (Option Nat)} (same : Parents parents s)
    {steps : List (GraphEdge × Nat)} {v : Nat} (chain : Bfs.Chain db.pathRules s i steps v) :
    ∀ fuel, steps.length < fuel →
      back parents fuel v = some (i :: steps.map Prod.snd).reverse := by
  induction chain with
  | seed known free =>
    intro fuel enough
    obtain ⟨fuel, rfl⟩ := Nat.exists_eq_succ_of_ne_zero (Nat.ne_zero_of_lt enough)
    rw [back, same, if_pos known, free]
    rfl
  | @step steps u v l before known _ entry ih =>
    intro fuel enough
    obtain ⟨fuel, rfl⟩ := Nat.exists_eq_succ_of_ne_zero (Nat.ne_zero_of_lt enough)
    rw [List.length_append, List.length_singleton] at enough
    rw [back, same, if_pos known, entry]
    change (back parents fuel u).map (v :: ·) = _
    rw [ih fuel (Nat.lt_of_succ_lt_succ enough)]
    simp

end PathSearch

def Located (db : GraphDatabase) (id : String) (slot : Nat) : Prop :=
  db.indexMap.lookup id = some slot ∧ ∃ node, db.graph.nodeWeight slot = some node

def Connected (db : GraphDatabase) (start target : String) (n : Nat) : Prop :=
  ∃ i j, db.Located start i ∧ db.Located target j ∧
    Bfs.Reaches (db.Joined (fun _ => true) .outgoing) (· = i) n j

/-- Slots that lead from one node to another, each joined to the next by an edge. -/
structure IsWalk (db : GraphDatabase) (start target : String) (slots : List Nat) : Prop where
  joined : slots.IsChain (db.Joined (fun _ => true) .outgoing)
  first : ∃ i, db.Located start i ∧ slots.head? = some i
  last : ∃ j, db.Located target j ∧ slots.getLast? = some j

theorem isChain_of_trail {i : Nat} {steps : List (GraphEdge × Nat)}
    (trail : Bfs.Trail db.pathRules i steps) :
    (i :: steps.map Prod.snd).IsChain (db.Joined (fun _ => true) .outgoing) := by
  induction steps generalizing i with
  | nil => exact .singleton i
  | cons step rest ih =>
    rw [List.map_cons, List.isChain_cons_cons]
    refine ⟨?_, ih trail.2⟩
    rw [← adj_slotRules (db.graph.slots.length + 1)]
    exact ⟨step.1, trail.1⟩

theorem live_of_isChain {i : Nat} {slots : List Nat}
    (joined : (i :: slots).IsChain (db.Joined takes direction)) :
    ∀ v ∈ slots, ∃ node, db.graph.nodeWeight v = some node := by
  induction slots generalizing i with
  | nil => simp
  | cons v rest ih =>
    rw [List.isChain_cons_cons] at joined
    refine List.forall_mem_cons.mpr ⟨?_, ih joined.2⟩
    obtain ⟨a, stored, -, -, rfl⟩ := joined.1
    exact live_far direction stored

theorem live_of_joined {u v : Nat} (joined : db.Joined takes direction u v) :
    ∃ node, db.graph.nodeWeight u = some node := by
  obtain ⟨a, stored, -, rfl, -⟩ := joined
  exact live_near stored

theorem forall₂_nodeWeight {slots : List Nat}
    (live : ∀ v ∈ slots, ∃ node, db.graph.nodeWeight v = some node) :
    List.Forall₂ (fun slot node => db.graph.nodeWeight slot = some node) slots
      (slots.filterMap db.graph.nodeWeight) := by
  induction slots with
  | nil => exact .nil
  | cons v rest ih =>
    obtain ⟨⟨node, here⟩, later⟩ := List.forall_mem_cons.mp live
    rw [List.filterMap_cons_some here]
    exact .cons here (ih later)

/-- What the search for a path is to return: the nodes of a walk from the start to the target with
as few edges as any, or nothing when there is no walk. -/
structure IsShortestPath (db : GraphDatabase) (start target : String) (path : List GraphNode) :
    Prop where
  empty_iff : path = [] ↔ ∀ n, ¬ db.Connected start target n
  walk : path ≠ [] → ∃ slots, db.IsWalk start target slots ∧
    List.Forall₂ (fun slot node => db.graph.nodeWeight slot = some node) slots path ∧
    ∀ n, db.Connected start target n → path.length ≤ n + 1

/-- **A path is shortest**, and the search for it ends. -/
theorem isShortestPath_findPath (db : GraphDatabase) (start target : String) :
    ∃ path, db.findPath start target = some path ∧ db.IsShortestPath start target path := by
  unfold findPath
  cases from_ : db.indexMap.lookup start with
  | none =>
    refine ⟨[], rfl, iff_of_true rfl ?_, fun other => absurd rfl other⟩
    rintro n ⟨i, -, located, -⟩
    exact absurd (from_.symm.trans located.1) (by simp)
  | some i =>
    cases to_ : db.indexMap.lookup target with
    | none =>
      refine ⟨[], rfl, iff_of_true rfl ?_, fun other => absurd rfl other⟩
      rintro n ⟨-, j, -, located, -⟩
      exact absurd (to_.symm.trans located.1) (by simp)
    | some j =>
      have ends : ∀ {n}, db.Connected start target n →
          (∃ node, db.graph.nodeWeight i = some node) ∧
            Bfs.Reaches (db.Joined (fun _ => true) .outgoing) (· = i) n j := by
        rintro n ⟨i', j', ⟨here, live⟩, ⟨there, -⟩, reaches⟩
        obtain rfl := Option.some.inj (from_.symm.trans here)
        obtain rfl := Option.some.inj (to_.symm.trans there)
        exact ⟨live, reaches⟩
      have first : PathSearch.Mirrors ⟨Function.update (fun _ => none) i (some none), [i]⟩
          ([i].foldl Bfs.Search.seed {} : Bfs.Search Nat Nat) := by
        refine ⟨rfl, fun v => ?_⟩
        change Function.update (fun _ => none) i (some none) v =
          if v ∈ [i] then some none else none
        rw [Function.update_apply]
        simp only [List.mem_singleton]
      obtain ⟨parents, popped, level, s, ended, sought⟩ := first.run j
        (db.graph.slots.length + 2) (db.inv_start _ i) (by simp) (by simp)
      simp only [ended, Option.bind_some]
      rw [sought.parents j]
      by_cases known : j ∈ s.visited
      · obtain ⟨d, member⟩ := sought.inv.mem_visited.mp known
        have distance := sought.distance d member
        obtain ⟨seed, steps, same, chain, length⟩ := sought.inv.chain d j member
        rw [show seed = i from same] at chain
        have few : steps.length < db.graph.slots.length + 2 := by
          rw [length]
          exact Nat.lt_succ_of_lt
            ((sought.inv.distance_lt member).trans_le (PathSearch.length_visited_le sought.inv))
        have joined := isChain_of_trail chain.trail
        have last : (i :: steps.map Prod.snd).getLast? = some j := by
          rw [← chain.lastOf_eq, List.getLast?_cons, Bfs.lastOf, List.getLast?_map]
        rw [if_pos known, PathSearch.back_of_chain sought.parents chain _ few]
        refine ⟨(i :: steps.map Prod.snd).filterMap db.graph.nodeWeight,
          by rw [Option.isSome_some, if_pos rfl, Option.map_some, List.reverse_reverse], ?_⟩
        cases live : db.graph.nodeWeight i with
        | some node =>
          have nodes : List.Forall₂ (fun slot node => db.graph.nodeWeight slot = some node)
              (i :: steps.map Prod.snd)
              ((i :: steps.map Prod.snd).filterMap db.graph.nodeWeight) := forall₂_nodeWeight
            (List.forall_mem_cons.mpr ⟨⟨node, live⟩, live_of_isChain joined⟩)
          have far : ∃ node, db.graph.nodeWeight j = some node := by
            rcases List.mem_cons.mp (List.mem_of_getLast? last) with rfl | later
            · exact ⟨node, live⟩
            · exact live_of_isChain joined j later
          have filled : (i :: steps.map Prod.snd).filterMap db.graph.nodeWeight ≠ [] := by
            rw [List.filterMap_cons_some live]
            exact List.cons_ne_nil _ _
          have source : db.Located start i := ⟨from_, node, live⟩
          have arrives : db.Located target j := ⟨to_, far⟩
          refine ⟨iff_of_false filled fun none => none d ⟨i, j, source, arrives, distance.1⟩,
            fun _ => ⟨_, ⟨joined, ⟨i, source, rfl⟩, j, arrives, last⟩, nodes,
              fun n connected => ?_⟩⟩
          rw [← nodes.length_eq, List.length_cons, List.length_map, length]
          exact Nat.succ_le_succ (not_lt.mp fun shorter =>
            distance.2 n shorter (ends connected).2)
        | none =>
          -- the slot of the start holds no node, so no edge leaves it
          have alone : steps = [] := by
            cases steps with
            | nil => rfl
            | cons step rest =>
              obtain ⟨node, held⟩ := live_of_joined (List.isChain_cons_cons.mp joined).1
              rw [live] at held
              cases held
          have empty : (i :: steps.map Prod.snd).filterMap db.graph.nodeWeight = [] := by
            rw [alone, List.map_nil, List.filterMap_cons_none live, List.filterMap_nil]
          refine ⟨iff_of_true empty fun n connected => ?_, fun other => absurd empty other⟩
          obtain ⟨node, held⟩ := (ends connected).1
          rw [live] at held
          cases held
      · rw [if_neg known]
        refine ⟨[], rfl, iff_of_true rfl fun n connected => ?_, fun other => absurd rfl other⟩
        exact known (sought.reached n (ends connected).2)

/-- **Searches of the graph are exact**: traversals return the nodes in their range, and paths are
shortest. -/
theorem searches_exact (db : GraphDatabase) :
    (∀ start edgeType depth direction, ∃ found nodes,
      db.traverse start edgeType depth direction = some nodes ∧
        db.IsTraversal start edgeType depth direction found nodes) ∧
      ∀ start target, ∃ path, db.findPath start target = some path ∧
        db.IsShortestPath start target path :=
  ⟨db.isTraversal_traverse, db.isShortestPath_findPath⟩

end Graph.GraphDatabase

end Lain
