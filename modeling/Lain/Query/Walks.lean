import Mathlib
import Lain.Foundation.Bfs
import Lain.Foundation.Failing
import Lain.Graph.Refine
import Lain.Query.Executor

/-!
# The walks of a query

A walk finds the nodes within its depth, each at its shortest distance, and from the distances a
path of that many hops is rebuilt.
-/

namespace Lain.Query

open Foundation Lain.Graph GraphDatabase

/-! ### Edges and paths -/

def nearId (direction : PetDirection) (edge : GraphEdge) : String :=
  match direction with
  | .outgoing => edge.sourceId
  | .incoming => edge.targetId

def farId (direction : PetDirection) (edge : GraphEdge) : String :=
  match direction with
  | .outgoing => edge.targetId
  | .incoming => edge.sourceId

section

variable (db : GraphDatabase) (edges : EdgeSelector) (direction : PetDirection)

structure Follows (u v : String) (edge : GraphEdge) : Prop where
  stored : edge ∈ db.edges
  takes : edges.takes edge.edgeType.debug = true
  near : nearId direction edge = u
  far : farId direction edge = v

def Adjacent (u v : String) : Prop :=
  ∃ edge, Follows db edges direction u v edge

/-- Each reported edge is a matching one between the ids it stands between. -/
def Chain : List String → List GraphEdgeRef → Prop
  | [_], [] => True
  | u :: v :: rest, ref :: refs =>
    (∃ edge, Follows db edges direction u v edge ∧ edgeRef edge = ref) ∧ Chain (v :: rest) refs
  | _, _ => False

def IsRef (r : GraphNodeRef) : Prop :=
  ∃ node, db.getNode r.id = some node ∧ r = nodeRef node

structure Leads (path : GraphPath) (seed n : String) (hops : Nat) : Prop where
  nodes : ∀ r ∈ path.nodes, IsRef db r
  chain : Chain db edges direction (path.nodes.map GraphNodeRef.id) path.edges
  first : (path.nodes.map GraphNodeRef.id).head? = some seed
  last : (path.nodes.map GraphNodeRef.id).getLast? = some n
  length : path.edges.length = hops

def Distance (seed : String) : Nat → String → Prop :=
  Bfs.AtDistance (Adjacent db edges direction) (· = seed)

end

variable {db : GraphDatabase} {edges : EdgeSelector} {direction : PetDirection}

theorem follows_backwards {u v : String} {edge : GraphEdge} :
    Follows db edges direction.backwards v u edge ↔ Follows db edges direction u v edge := by
  cases direction <;>
    exact ⟨fun ⟨stored, takes, near, far⟩ => ⟨stored, takes, far, near⟩,
      fun ⟨stored, takes, near, far⟩ => ⟨stored, takes, far, near⟩⟩

section Consistent

variable (consistent : Consistent db)

include consistent

variable (direction) in
theorem slotKey_near {a : Arc GraphEdge} (arc : a ∈ db.graph.arcs) :
    slotKey db.graph GraphNode.id (near direction a) = some (nearId direction a.weight) := by
  cases direction with
  | outgoing => exact (consistent.anchored a arc).1
  | incoming => exact (consistent.anchored a arc).2

variable (direction) in
theorem slotKey_far {a : Arc GraphEdge} (arc : a ∈ db.graph.arcs) :
    slotKey db.graph GraphNode.id (far direction a) = some (farId direction a.weight) := by
  cases direction with
  | outgoing => exact (consistent.anchored a arc).2
  | incoming => exact (consistent.anchored a arc).1

theorem mem_matching {u : String} {node : GraphNode} {edge : GraphEdge} :
    (node, edge) ∈ matching db edges direction u ↔
      db.getNode node.id = some node ∧ Follows db edges direction u node.id edge := by
  unfold matching getNeighbors
  rw [List.mem_filter]
  constructor
  · rintro ⟨member, takes⟩
    cases located : db.indexMap.lookup u with
    | none => simp [located] at member
    | some idx =>
      rw [located] at member
      obtain ⟨a, listed, found⟩ := List.mem_filterMap.mp member
      obtain ⟨arc, here⟩ := List.mem_filter.mp listed
      obtain ⟨n, live, pair⟩ := Option.map_eq_some_iff.mp found
      obtain ⟨rfl, rfl⟩ := Prod.mk.inj pair
      have arc := List.mem_reverse.mp arc
      have nearby := slotKey_near direction consistent arc
      rw [of_decide_eq_true here, (consistent.ids u idx).mp located] at nearby
      have beyond := slotKey_far direction consistent arc
      rw [slotKey_eq_some.mpr ⟨n, live, rfl⟩] at beyond
      refine ⟨?_, List.mem_map_of_mem arc, takes, (Option.some.inj nearby).symm,
        (Option.some.inj beyond).symm⟩
      unfold getNode
      rw [consistent.lookup_of_live live]
      exact live
  · rintro ⟨stored, follows⟩
    obtain ⟨a, arc, rfl⟩ := List.mem_map.mp follows.stored
    refine ⟨?_, follows.takes⟩
    have located := (consistent.ids _ _).mpr (slotKey_near direction consistent arc)
    have beyond := (consistent.ids _ _).mpr (slotKey_far direction consistent arc)
    rw [follows.near] at located
    rw [follows.far] at beyond
    rw [located]
    refine List.mem_filterMap.mpr ⟨a, List.mem_filter.mpr ⟨List.mem_reverse.mpr arc, by simp⟩, ?_⟩
    unfold getNode at stored
    rw [beyond] at stored
    rw [show db.graph.nodeWeight (far direction a) = some node from stored]
    rfl

theorem isSome_getNode_far {u v : String} {edge : GraphEdge}
    (follows : Follows db edges direction u v edge) : (db.getNode v).isSome = true := by
  obtain ⟨a, arc, rfl⟩ := List.mem_map.mp follows.stored
  have beyond := (consistent.ids _ _).mpr (slotKey_far direction consistent arc)
  rw [follows.far] at beyond
  obtain ⟨n, found, -⟩ := consistent.getNode_of_lookup beyond
  rw [found]
  rfl

theorem id_of_getNode {id : String} {node : GraphNode} (found : db.getNode id = some node) :
    node.id = id := by
  unfold getNode at found
  obtain ⟨i, located, live⟩ := Option.bind_eq_some_iff.mp found
  obtain ⟨n, here, named⟩ := consistent.live_of_lookup located
  obtain rfl := Option.some.inj (here.symm.trans live)
  exact named

theorem adjacent_iff {u v : String} : Adjacent db edges direction u v ↔
    ∃ node edge, (node, edge) ∈ matching db edges direction u ∧ node.id = v := by
  constructor
  · rintro ⟨edge, follows⟩
    obtain ⟨node, found⟩ := Option.isSome_iff_exists.mp (isSome_getNode_far consistent follows)
    have named := id_of_getNode consistent found
    subst named
    exact ⟨node, edge, (mem_matching consistent).mpr ⟨found, follows⟩, rfl⟩
  · rintro ⟨node, edge, member, rfl⟩
    exact ⟨edge, ((mem_matching consistent).mp member).2⟩

end Consistent

/-! ### The search -/

section Search

variable (db edges direction) in
def walkRules (max : Nat) : Bfs.Rules String GraphEdge String where
  next u := (matching db edges direction u).map fun step => (step.2, step.1.id)
  entry _ u _ := u
  parent := id
  depth := max
  parent_entry _ _ _ := rfl

variable {max : Nat} {start : String} {popped : List (String × Nat)} {w : Walk}
  {s : Bfs.Search String String}

theorem adj_walkRules (consistent : Consistent db) :
    (walkRules db edges direction max).Adj = Adjacent db edges direction := by
  funext u v
  refine propext (Iff.trans ?_ (adjacent_iff consistent).symm)
  unfold Bfs.Rules.Adj walkRules
  simp only [List.mem_map, Prod.mk.injEq, Prod.exists]
  constructor
  · rintro ⟨l, node, edge, member, rfl, rfl⟩
    exact ⟨node, edge, member, rfl⟩
  · rintro ⟨node, edge, member, rfl⟩
    exact ⟨edge, node, edge, member, rfl, rfl⟩

structure Mirrors (start : String) (popped : List (String × Nat)) (w : Walk)
    (s : Bfs.Search String String) : Prop where
  queue : w.queue = s.queue.map Prod.fst
  visited : s.visited = start :: w.discovery
  hops : ∀ v d, w.hops v = some d ↔ (v, d) ∈ popped ++ s.queue
  seen : ∀ v, v ∈ s.visited ↔ (w.hops v).isSome = true

theorem Mirrors.visit (mirrors : Mirrors start popped w s) (u : String) (depth : Nat)
    (step : GraphNode × GraphEdge) :
    Mirrors start popped (w.visit depth step)
      (s.discover (walkRules db edges direction max) u depth (step.2, step.1.id)) := by
  unfold Walk.visit Bfs.Search.discover
  by_cases known : (w.hops step.1.id).isSome = true
  · rw [if_pos known, if_pos ((mirrors.seen _).mpr known)]
    exact mirrors
  · rw [if_neg known, if_neg fun old => known ((mirrors.seen _).mp old)]
    rw [Bool.not_eq_true, Option.isSome_eq_false_iff, Option.isNone_iff_eq_none] at known
    refine ⟨?_, ?_, fun v d => ?_, fun v => ?_⟩
    · simp [mirrors.queue]
    · simp [mirrors.visited]
    · change Function.update w.hops step.1.id (some (depth + 1)) v = some d ↔
        (v, d) ∈ popped ++ (s.queue ++ [(step.1.id, depth + 1)])
      rw [← List.append_assoc, List.mem_append, ← mirrors.hops, List.mem_singleton, Prod.mk.injEq]
      by_cases same : v = step.1.id
      · subst same
        rw [Function.update_self, Option.some.injEq, known]
        simp [eq_comm]
      · rw [Function.update_of_ne same]
        simp [same]
    · change v ∈ s.visited ++ [step.1.id] ↔
        (Function.update w.hops step.1.id (some (depth + 1)) v).isSome = true
      rw [List.mem_append, mirrors.seen, List.mem_singleton]
      by_cases same : v = step.1.id
      · subst same
        simp
      · rw [Function.update_of_ne same]
        simp [same]

theorem Mirrors.visitAll (u : String) (depth : Nat) (steps : List (GraphNode × GraphEdge)) :
    ∀ {w : Walk} {s : Bfs.Search String String}, Mirrors start popped w s →
      Mirrors start popped (steps.foldl (Walk.visit depth) w)
        ((steps.map fun step => (step.2, step.1.id)).foldl
          (Bfs.Search.discover (walkRules db edges direction max) u depth) s) := by
  induction steps with
  | nil => exact fun mirrors => mirrors
  | cons step rest ih => exact fun mirrors => ih (mirrors.visit u depth step)

variable (db edges direction max) in
theorem Mirrors.run (fuel : Nat) :
    ∀ {popped : List (String × Nat)} {w : Walk} {s : Bfs.Search String String},
      Mirrors start popped w s →
        Mirrors start
          (popped ++ (s.pops (walkRules db edges direction max) fuel).map Prod.fst)
          (w.run db edges direction max fuel) (s.run (walkRules db edges direction max) fuel) := by
  induction fuel with
  | zero =>
    intro popped w s mirrors
    rw [Bfs.Search.pops, Bfs.Search.run, Walk.run, List.map_nil, List.append_nil]
    exact mirrors
  | succ fuel ih =>
    intro popped w s mirrors
    cases queue : s.queue with
    | nil =>
      have empty : w.queue = [] := by rw [mirrors.queue, queue]; rfl
      rw [Bfs.Search.pops, Bfs.Search.run, Walk.run, queue, empty]
      simpa using mirrors
    | cons head rest =>
      obtain ⟨u, d⟩ := head
      have front : w.queue = u :: rest.map Prod.fst := by rw [mirrors.queue, queue]; rfl
      have depth : w.hops u = some d := (mirrors.hops u d).mpr (by simp [queue])
      have taken : Mirrors start (popped ++ [(u, d)]) { w with queue := rest.map Prod.fst }
          { s with queue := rest } :=
        ⟨rfl, mirrors.visited, fun v e => by simp [mirrors.hops, queue], mirrors.seen⟩
      rw [Bfs.Search.pops, Bfs.Search.run, Walk.run, queue, front]
      simp only [depth, Option.getD_some, List.map_cons]
      rw [← List.singleton_append, ← List.append_assoc]
      unfold Bfs.Search.advance
      by_cases deep : max < d + 1
      · rw [if_pos deep, if_pos (show (walkRules db edges direction max).depth ≤ d from
          Nat.lt_succ_iff.mp deep)]
        exact ih taken
      · rw [if_neg deep, if_neg (show ¬ (walkRules db edges direction max).depth ≤ d from
          fun within => deep (Nat.lt_succ_of_le within))]
        exact ih (taken.visitAll u d _)

variable (edges direction) in
theorem walkFrom_spec (consistent : Consistent db) (start : String) (max : Nat) :
    (∀ v d, (walkFrom db edges direction start max).hops v = some d ↔
      d ≤ max ∧ Distance db edges direction start d v) ∧
    (walkFrom db edges direction start max).discovery.Nodup ∧
    ∀ v, v ∈ (walkFrom db edges direction start max).discovery ↔ v ≠ start ∧
      ((walkFrom db edges direction start max).hops v).isSome = true := by
  have seeded := Bfs.seeded_foldl (P := String) [start]
  have inv : Bfs.Inv (walkRules db edges direction max) (· ∈ [start]) [] 0
      ([start].foldl Bfs.Search.seed {}) := seeded.inv
  rw [show (· ∈ [start]) = (· = start) from funext fun v => propext List.mem_singleton] at inv
  have first : Mirrors start [] ⟨Function.update (fun _ => none) start (some 0), [], [start]⟩
      ([start].foldl Bfs.Search.seed {}) := by
    refine ⟨rfl, rfl, fun v d => ?_, fun v => ?_⟩
    · change Function.update (fun _ : String => (none : Option Nat)) start (some 0) v = some d ↔
        (v, d) ∈ [(start, 0)]
      by_cases same : v = start
      · subst same
        simp [eq_comm]
      · simp [same]
    · change v ∈ [start] ↔
        (Function.update (fun _ : String => (none : Option Nat)) start (some 0) v).isSome = true
      by_cases same : v = start
      · subst same
        simp
      · simp [same]
  have run := inv.run (db.nodeWeights.length + 1) (by simp)
  have mirrors := first.run db edges direction max (db.nodeWeights.length + 1)
  rw [List.nil_append] at run mirrors
  have live : ∀ v, (db.getNode v).isSome = true → v ∈ start :: db.nodeWeights.map GraphNode.id := by
    intro v known
    obtain ⟨node, found⟩ := Option.isSome_iff_exists.mp known
    have named := id_of_getNode consistent found
    unfold getNode at found
    obtain ⟨i, -, here⟩ := Option.bind_eq_some_iff.mp found
    refine List.mem_cons_of_mem _ (List.mem_map.mpr ⟨node, ?_, named⟩)
    exact List.mem_map.mpr ⟨(i, node), StableGraph.mem_nodeReferences.mpr here, rfl⟩
  have done := run.queue_eq_nil (start :: db.nodeWeights.map GraphNode.id)
    (fun v seed => seed ▸ List.mem_cons_self) (fun u step member => by
      obtain ⟨pair, listed, rfl⟩ := List.mem_map.mp member
      obtain ⟨found, -⟩ := (mem_matching consistent).mp (show (pair.1, pair.2) ∈ _ from listed)
      exact live _ (by rw [found]; rfl)) (by simp)
  obtain ⟨level, final⟩ := run.inv
  have visited := mirrors.visited
  have nodup := final.nodup
  rw [visited, List.nodup_cons] at nodup
  refine ⟨fun v d => ?_, nodup.2, fun v => ?_⟩
  · rw [show (walkFrom db edges direction start max).hops v = some d ↔ _ from mirrors.hops v d, done,
      List.append_nil, run.mem_iff done, adj_walkRules consistent]
    exact Iff.rfl
  · rw [show ((walkFrom db edges direction start max).hops v).isSome = true ↔ _ from
      (mirrors.seen v).symm, visited, List.mem_cons]
    constructor
    · intro member
      exact ⟨fun same => nodup.1 (same ▸ member), Or.inr member⟩
    · rintro ⟨other, either⟩
      exact either.resolve_left other

end Search

/-! ### Rebuilding a path -/

section Rebuild

/-- Hop counts that a walk may leave: the distances up to its depth. -/
def Counts (db : GraphDatabase) (edges : EdgeSelector) (direction : PetDirection)
    (start : String) (max : Nat) (hops : String → Option Nat) : Prop :=
  ∀ v d, hops v = some d ↔ d ≤ max ∧ Distance db edges direction start d v

variable {hops : String → Option Nat} {start : String} {max : Nat}

theorem Counts.start_iff (counts : Counts db edges direction start max hops) {v : String} {d : Nat}
    (here : hops v = some d) : v = start ↔ d = 0 := by
  obtain ⟨bound, reached, shortest⟩ := (counts v d).mp here
  constructor
  · rintro rfl
    by_contra positive
    exact shortest 0 (Nat.pos_of_ne_zero positive) rfl
  · rintro rfl
    exact reached

theorem exists_predecessor (consistent : Consistent db)
    (counts : Counts db edges direction start max hops) {v : String} {d : Nat}
    (here : hops v = some (d + 1)) :
    ∃ pred edge, predecessor db edges direction hops v (d + 1) = some (pred, edge) ∧
      hops pred.id = some d ∧ db.getNode pred.id = some pred ∧
      Follows db edges direction pred.id v edge := by
  obtain ⟨bound, ⟨u, reached, edge, follows⟩, shortest⟩ := (counts v (d + 1)).mp here
  have nearer : hops u = some d := by
    refine (counts u d).mpr ⟨Nat.le_of_succ_le bound, reached, fun m shorter reaches => ?_⟩
    exact shortest (m + 1) (Nat.succ_lt_succ shorter) ⟨u, reaches, edge, follows⟩
  have back := follows_backwards.mpr follows
  obtain ⟨node, found⟩ := Option.isSome_iff_exists.mp (isSome_getNode_far consistent back)
  have named := id_of_getNode consistent found
  subst named
  have listed : (node, edge) ∈ (matching db edges direction.backwards v).filter fun step =>
      decide (hops step.1.id = some (d + 1 - 1)) :=
    List.mem_filter.mpr ⟨(mem_matching consistent).mpr ⟨found, back⟩, decide_eq_true nearer⟩
  obtain ⟨⟨pred, first⟩, least⟩ := Option.isSome_iff_exists.mp
    (isSome_least.mpr (List.ne_nil_of_mem listed) : (least stepRank _).isSome = true)
  obtain ⟨member, count⟩ := List.mem_filter.mp (least_eq_some least).1
  obtain ⟨stored, backwards⟩ := (mem_matching consistent).mp member
  exact ⟨pred, first, least, of_decide_eq_true count, stored, follows_backwards.mp backwards⟩

theorem rebuild_spec (consistent : Consistent db)
    (counts : Counts db edges direction start max hops) (target : String) (d : Nat) :
    ∀ {fuel : Nat} {current : String} {rest : List String} {refs : List GraphEdgeRef},
      hops current = some d → d ≤ fuel → Chain db edges direction (current :: rest) refs →
      (∀ id ∈ current :: rest, (db.getNode id).isSome = true) →
      ∃ ids refs', rebuild db edges direction hops start target fuel current (current :: rest)
          refs = .ok (ids, refs') ∧ Chain db edges direction ids refs' ∧ ids.head? = some start ∧
        ids.getLast? = (current :: rest).getLast? ∧ refs'.length = refs.length + d ∧
        ∀ id ∈ ids, (db.getNode id).isSome = true := by
  induction d with
  | zero =>
    intro fuel current rest refs here _ chain live
    have same : current = start := (counts.start_iff here).mpr rfl
    refine ⟨current :: rest, refs, ?_, chain, by rw [same]; rfl, rfl, rfl, live⟩
    rw [rebuild.eq_def]
    exact if_pos same
  | succ d ih =>
    intro fuel current rest refs here enough chain live
    obtain ⟨fuel, rfl⟩ := Nat.exists_eq_succ_of_ne_zero (show fuel ≠ 0 by omega)
    have other : current ≠ start := fun same => by
      have zero := (counts.start_iff here).mp same
      omega
    obtain ⟨pred, edge, least, count, stored, follows⟩ := exists_predecessor consistent counts here
    obtain ⟨ids, refs', run, chain', first, last, length, live'⟩ := ih count
      (Nat.le_of_succ_le_succ enough)
      (show Chain db edges direction (pred.id :: current :: rest) (edgeRef edge :: refs) from
        ⟨⟨edge, follows, rfl⟩, chain⟩)
      (List.forall_mem_cons.mpr ⟨by rw [stored]; rfl, live⟩)
    refine ⟨ids, refs', ?_, chain', first, ?_, ?_, live'⟩
    · rw [rebuild.eq_def]
      simp only [if_neg other, here, least]
      exact run
    · rw [last, List.getLast?_cons_cons]
    · rw [length, List.length_cons]
      omega

theorem shortestWalkPath_spec (consistent : Consistent db)
    (counts : Counts db edges direction start max hops) {target : String} {d : Nat}
    (here : hops target = some d) (live : (db.getNode target).isSome = true) :
    ∃ path, shortestWalkPath db edges direction start target hops = .ok path ∧
      Leads db edges direction path start target d := by
  obtain ⟨ids, refs, run, chain, first, last, length, known⟩ := rebuild_spec consistent counts
    target d here le_rfl (show Chain db edges direction [target] [] from trivial)
    (by simpa using live)
  have each : ∀ id ∈ ids, ∃ r, pathNode db id = .ok r ∧ (r.id = id ∧ IsRef db r) := by
    intro id member
    obtain ⟨node, found⟩ := Option.isSome_iff_exists.mp (known id member)
    have named : node.id = id := id_of_getNode consistent found
    refine ⟨nodeRef node, by rw [pathNode, found], named, node, ?_, rfl⟩
    change db.getNode node.id = _
    rw [named, found]
  obtain ⟨nodes, mapped, all⟩ := exists_mapM_eq_ok each
  have names : nodes.map GraphNodeRef.id = ids := by
    clear mapped run chain first last length known each
    induction all with
    | nil => rfl
    | cons here _ ih => rw [List.map_cons, ih, here.1]
  refine ⟨⟨nodes, refs⟩, ?_, fun r member => ?_, ?_, ?_, ?_, ?_⟩
  · unfold shortestWalkPath
    rw [here, Option.getD_some, run]
    change (do let nodes ← ids.mapM (pathNode db); return (⟨nodes, refs⟩ : GraphPath)) = _
    rw [mapped]
    rfl
  · obtain ⟨id, -, -, ref⟩ := (forall₂_mem all).2 r member
    exact ref
  · exact names.symm ▸ chain
  · exact names.symm ▸ first
  · exact names.symm ▸ last
  · rw [length]
    simp

end Rebuild

/-! ### One walk -/

section Traverse

variable {start : String} {range : Nat × Nat}

structure IsCandidate (db : GraphDatabase) (edges : EdgeSelector) (direction : PetDirection)
    (start : String) (range : Nat × Nat) (c : TraversalCandidate) : Prop where
  node : IsRef db c.node
  seed : c.seedId = start
  walk : c.direction = direction
  other : c.node.id ≠ start
  distance : Distance db edges direction start c.hops c.node.id
  inRange : range.1 ≤ c.hops ∧ c.hops ≤ range.2
  leads : Leads db edges direction c.path start c.node.id c.hops

theorem bfsTraverse_spec (consistent : Consistent db) (known : edges.unknownTypes = []) :
    ∃ found, bfsTraverse db start edges range direction = .ok found ∧
      (∀ c ∈ found, IsCandidate db edges direction start range c) ∧
      ∀ n h, n ≠ start → Distance db edges direction start h n → range.1 ≤ h → h ≤ range.2 →
        ∃ c ∈ found, c.node.id = n ∧ c.hops = h := by
  obtain ⟨counts, -, discovered⟩ := walkFrom_spec edges direction consistent start range.2
  set w := walkFrom db edges direction start range.2 with walked
  have live : ∀ n h, n ≠ start → Distance db edges direction start h n →
      (db.getNode n).isSome = true := by
    rintro n h other ⟨reached, -⟩
    cases h with
    | zero => exact absurd reached other
    | succ h =>
      obtain ⟨u, -, edge, follows⟩ := reached
      exact isSome_getNode_far consistent follows
  have each : ∀ id ∈ w.discovery, ∃ found,
      candidate db edges range direction start w.hops id = .ok found ∧
        (∀ c, found = some c → c.node.id = id ∧ IsCandidate db edges direction start range c) ∧
        ∀ h, Distance db edges direction start h id → range.1 ≤ h → h ≤ range.2 →
          ∃ c, found = some c ∧ c.hops = h := by
    intro id member
    obtain ⟨other, counted⟩ := (discovered id).mp member
    obtain ⟨d, here⟩ := Option.isSome_iff_exists.mp counted
    have distance := ((counts id d).mp here).2
    have exact : ∀ h, Distance db edges direction start h id → h = d := by
      rintro h ⟨reached, shortest⟩
      rcases lt_trichotomy h d with less | same | more
      · exact absurd reached (distance.2 h less)
      · exact same
      · exact absurd distance.1 (shortest d more)
    unfold candidate
    simp only [here, Option.getD_some]
    by_cases inRange : range.1 ≤ d ∧ d ≤ range.2
    · obtain ⟨node, found⟩ := Option.isSome_iff_exists.mp (live id d other distance)
      obtain ⟨path, rebuilt, leads⟩ := shortestWalkPath_spec consistent counts here
        (by rw [found]; rfl)
      have named := id_of_getNode consistent found
      rw [if_pos inRange, rebuilt, found]
      refine ⟨_, rfl, fun c same => ?_, fun h reached _ _ => ⟨_, rfl, (exact h reached).symm⟩⟩
      obtain rfl := Option.some.inj same
      subst named
      exact ⟨rfl, ⟨node, found, rfl⟩, rfl, rfl, other, distance, inRange, leads⟩
    · rw [if_neg inRange]
      refine ⟨none, rfl, fun c absurdity => absurd absurdity (by simp), fun h reached low high => ?_⟩
      exact absurd (exact h reached ▸ ⟨low, high⟩) inRange
  obtain ⟨found, run, all⟩ := exists_mapM_eq_ok each
  refine ⟨found.reduceOption, ?_, fun c member => ?_, fun n h other distance low high => ?_⟩
  · unfold bfsTraverse
    rw [if_neg (by simp [known]), ← walked]
    change (do
      let found ← w.discovery.mapM (candidate db edges range direction start w.hops)
      return found.reduceOption) = _
    rw [run]
    rfl
  · obtain ⟨id, -, spec, -⟩ := (forall₂_mem all).2 _ (List.reduceOption_mem_iff.mp member)
    exact (spec c rfl).2
  · have listed : n ∈ w.discovery := by
      refine (discovered n).mpr ⟨other, ?_⟩
      rw [(counts n h).mpr ⟨high, distance⟩]
      rfl
    obtain ⟨reported, member, spec, covers⟩ := (forall₂_mem all).1 n listed
    obtain ⟨c, rfl, hops⟩ := covers h distance low high
    exact ⟨c, List.reduceOption_mem_iff.mpr member, (spec c rfl).1, hops⟩

end Traverse

end Lain.Query
