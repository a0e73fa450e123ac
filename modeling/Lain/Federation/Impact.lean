import Mathlib
import Lain.Graph.Database
import Lain.Foundation.Bfs

/-!
# Impact traversal

The search that answers what a change may reach: from several starts, along the
edges the propagation table admits, up to a depth and a cap on the paths it
reports.
-/

namespace Lain.Federation

open Foundation Lain.Graph

/-- Which way a traversal crosses edges of a type. -/
inductive Propagation where
  | incoming | outgoing | stop
  deriving DecidableEq

/-- The propagation table. -/
def impactPropagation : EdgeType → Propagation
  | .calls | .callsHttp | .callsGraphql | .sendsHttp | .binds | .requestSchema | .responseSchema
  | .hasField | .readsField | .readsTable | .writesTable | .busTopic | .routeMatches => .incoming
  | .consumes | .payloadSchema | .produces | .contains | .imports | .coChangedWith | .pattern
  | .uses | .implements | .deployedTo | .crossRepoSameSymbol | .dynamicDispatch | .runtimeCall
  | .readsFrom => .stop

/-- The confidence of an edge: its weight, or else what its provenance is worth. -/
def edgeConfidence (e : GraphEdge) : ℚ :=
  e.weight.getD
    (match e.provenance with
    | some (.static _) | some (.confirmed _) => 1
    | some (.heuristic _ confidence) => confidence
    | some (.runtime ..) => 9 / 10
    | none => 0)

/-- An edge and the node it reaches. -/
structure ImpactHop where
  edge : GraphEdge
  node : GraphNode
  deriving DecidableEq

/-- One chain from a start to a leaf. -/
structure ImpactPath where
  hops : List ImpactHop
  minConfidence : ℚ
  deriving DecidableEq

/-- The paths of a traversal, and whether it was cut. -/
structure ImpactResult where
  paths : List ImpactPath
  truncated : Bool
  deriving DecidableEq

/-- The node of a slot; a traversal asks for live slots only. -/
def nodeAt (db : GraphDatabase) (i : Nat) : GraphNode :=
  (db.graph.nodeWeight i).getD { id := "", nodeType := .synthetic, name := "", path := "" }

def slotOf (db : GraphDatabase) (id : String) : Option Nat :=
  (db.graph.nodeReferences.filter fun entry => decide (entry.2.id = id)).getLast?.map Prod.fst

structure Crossing where
  confidence : ℚ
  edge : GraphEdge
  deriving DecidableEq

def crossing (minConfidence : ℚ) (a : Arc GraphEdge) : Option (Nat × (Crossing × Nat)) :=
  if edgeConfidence a.weight < minConfidence then none
  else
    match impactPropagation a.weight.edgeType with
    | .incoming => some (a.target, (⟨edgeConfidence a.weight, a.weight⟩, a.source))
    | .outgoing => some (a.source, (⟨edgeConfidence a.weight, a.weight⟩, a.target))
    | .stop => none

def crossedFirst (db : GraphDatabase) (a b : Crossing × Nat) : Bool :=
  decide (b.1.confidence < a.1.confidence) ||
    decide (a.1.confidence = b.1.confidence) && decide ((nodeAt db a.2).id ≤ (nodeAt db b.2).id)

def byTarget (db : GraphDatabase) (minConfidence : ℚ) (i : Nat) : List (Crossing × Nat) :=
  (((db.graph.arcs.filterMap (crossing minConfidence)).filter fun c => decide (c.1 = i)).map
    Prod.snd).insertionSort fun a b => crossedFirst db a b = true

abbrev Predecessor := Nat × GraphEdge × ℚ

def impactRules (db : GraphDatabase) (depth : Nat) (minConfidence : ℚ) :
    Bfs.Rules Nat Crossing Predecessor where
  next := byTarget db minConfidence
  entry before current step :=
    (current, step.edge,
      match before with
      | some (_, _, confidence) => min step.confidence confidence
      | none => step.confidence)
  parent := Prod.fst
  depth := depth
  parent_entry _ _ _ := rfl

def walkBack (db : GraphDatabase) (pred : Nat → Option Predecessor) :
    Nat → Nat → List ImpactHop → ℚ → List ImpactHop × ℚ
  | 0, _, hops, lowest => (hops, lowest)
  | fuel + 1, current, hops, lowest =>
    match pred current with
    | none => (hops, lowest)
    | some (previous, edge, confidence) =>
      walkBack db pred fuel previous (⟨edge, nodeAt db current⟩ :: hops)
        (min lowest confidence)

def selfHop (db : GraphDatabase) (leaf : Nat) : ImpactHop where
  edge :=
    { edgeType := .calls, sourceId := (nodeAt db leaf).id, targetId := (nodeAt db leaf).id
      weight := some 1 }
  node := nodeAt db leaf

/-- The path to a leaf; the walk back is no longer than the search is deep. -/
def reconstructPath (db : GraphDatabase) (depth leaf : Nat) (pred : Nat → Option Predecessor) :
    ImpactPath :=
  let walked := walkBack db pred depth leaf [] 1
  { hops := if walked.1.isEmpty then [selfHop db leaf] else walked.1
    minConfidence := walked.2 }

structure Traversal where
  search : Bfs.Search Nat Predecessor
  paths : List ImpactPath := []
  truncated : Bool := false

def traverseFrom (db : GraphDatabase) (depth cap : Nat) (minConfidence : ℚ) :
    Nat → Traversal → Traversal
  | 0, t => t
  | fuel + 1, t =>
    match t.search.queue with
    | [] => t
    | (current, currentDepth) :: rest =>
      let search := { t.search with queue := rest }
      let hasUnvisitedSuccessor := (byTarget db minConfidence current).any fun step =>
        decide (step.2 ∉ search.visited)
      let atDepth := decide (depth ≤ currentDepth)
      let emits := atDepth || !hasUnvisitedSuccessor
      let full := decide (cap ≤ t.paths.length)
      traverseFrom db depth cap minConfidence fuel
        { search := search.advance (impactRules db depth minConfidence) current currentDepth
          paths :=
            if emits && !full then
              t.paths ++ [reconstructPath db depth current search.pred]
            else t.paths
          truncated := t.truncated || (emits && full) || atDepth }

def pathFirst (a b : ImpactPath) : Bool :=
  let leaf (path : ImpactPath) : String := (path.hops.getLast?.map fun hop => hop.node.id).getD ""
  decide (b.minConfidence < a.minConfidence) ||
    decide (a.minConfidence = b.minConfidence) &&
      (decide (a.hops.length < b.hops.length) ||
        decide (a.hops.length = b.hops.length) && decide (leaf a ≤ leaf b))

def seedsOf (db : GraphDatabase) (starts : List String) : List Nat :=
  starts.filterMap (slotOf db)

/-- What a change of the starts may reach; no node is popped twice. -/
def traverseImpact (db : GraphDatabase) (starts : List String) (depth cap : Nat)
    (minConfidence : ℚ) : ImpactResult :=
  let t := traverseFrom db depth cap minConfidence db.graph.slots.length
    { search := (seedsOf db starts).foldl Bfs.Search.seed {} }
  { paths := t.paths.insertionSort fun a b => pathFirst a b = true
    truncated := t.truncated }

/-! ### The search behind a traversal -/

section Search

variable (db : GraphDatabase) (starts : List String) (depth cap : Nat) (minConfidence : ℚ)

def impactPops : List ((Nat × Nat) × Bfs.Search Nat Predecessor) :=
  Bfs.Search.pops (impactRules db depth minConfidence) db.graph.slots.length
    ((seedsOf db starts).foldl Bfs.Search.seed {})

def impactLeaves : List ((Nat × Nat) × Bfs.Search Nat Predecessor) :=
  (impactPops db starts depth minConfidence).filter
    (Bfs.isLeaf (impactRules db depth minConfidence))

def pathAt (entry : (Nat × Nat) × Bfs.Search Nat Predecessor) : ImpactPath :=
  reconstructPath db depth entry.1.1 entry.2.pred

theorem traverseFrom_eq (fuel : Nat) (t : Traversal) (room : t.paths.length ≤ cap) :
    let popped := t.search.pops (impactRules db depth minConfidence) fuel
    let leaves := popped.filter (Bfs.isLeaf (impactRules db depth minConfidence))
    let after := traverseFrom db depth cap minConfidence fuel t
    after.paths = t.paths ++ (leaves.take (cap - t.paths.length)).map (pathAt db depth) ∧
      (after.truncated = true ↔ t.truncated = true ∨ cap < t.paths.length + leaves.length ∨
        ∃ entry ∈ popped, depth ≤ entry.1.2) := by
  induction fuel generalizing t with
  | zero =>
    simp only [Bfs.Search.pops, traverseFrom]
    simp [Nat.not_lt.mpr room]
  | succ fuel ih =>
    cases queue : t.search.queue with
    | nil =>
      simp only [Bfs.Search.pops, traverseFrom, queue]
      simp [Nat.not_lt.mpr room]
    | cons head rest =>
      obtain ⟨u, d⟩ := head
      simp only [Bfs.Search.pops, traverseFrom, queue]
      have leaf : Bfs.isLeaf (impactRules db depth minConfidence)
          ((u, d), { t.search with queue := rest }) =
          (decide (depth ≤ d) || !(byTarget db minConfidence u).any fun step =>
            decide (step.2 ∉ t.search.visited)) := rfl
      rw [List.filter_cons, leaf]
      generalize (decide (depth ≤ d) || !(byTarget db minConfidence u).any fun step =>
        decide (step.2 ∉ t.search.visited)) = emits
      set after := Bfs.Search.advance (impactRules db depth minConfidence)
        { t.search with queue := rest } u d with advanced
      cases emits with
      | false =>
        obtain ⟨paths, cut⟩ := ih
          { search := after, paths := t.paths
            truncated := t.truncated || decide (depth ≤ d) } room
        simp only [Bool.false_and, Bool.false_eq_true, if_false, Bool.or_false]
        refine ⟨paths, cut.trans ?_⟩
        simp only [Bool.or_eq_true, decide_eq_true_eq, List.mem_cons, exists_eq_or_imp]
        tauto
      | true =>
        by_cases full : cap ≤ t.paths.length
        · obtain ⟨paths, cut⟩ := ih
            { search := after, paths := t.paths, truncated := true } room
          simp only [full, Bool.true_and, decide_true, Bool.not_true, Bool.false_eq_true,
            if_false, if_true, Bool.or_true, Bool.true_or, List.length_cons]
          rw [Nat.sub_eq_zero_of_le full, List.take_zero] at paths ⊢
          exact ⟨paths, cut.trans (iff_of_true (Or.inl rfl) (Or.inr (Or.inl (by omega))))⟩
        · have more : (t.paths ++ [reconstructPath db depth u t.search.pred]).length ≤ cap := by
            rw [List.length_append, List.length_singleton]
            omega
          obtain ⟨paths, cut⟩ := ih
            { search := after, paths := t.paths ++ [reconstructPath db depth u t.search.pred]
              truncated := t.truncated || decide (depth ≤ d) } more
          simp only [full, Bool.true_and, decide_false, Bool.not_false, if_true,
            Bool.or_false, List.length_cons]
          rw [List.length_append, List.length_singleton] at paths cut
          have split : cap - t.paths.length = cap - (t.paths.length + 1) + 1 := by omega
          refine ⟨?_, cut.trans ?_⟩
          · rw [paths, split, List.take_succ_cons, List.map_cons, List.append_assoc]
            rfl
          · rw [Nat.add_right_comm, Nat.add_assoc]
            simp only [Bool.or_eq_true, decide_eq_true_eq, List.mem_cons, exists_eq_or_imp]
            tauto

end Search

/-! ### What an admissible step is -/

section Steps

variable (db : GraphDatabase) (minConfidence : ℚ)

def Admits (u : Nat) (edge : GraphEdge) (v : Nat) : Prop :=
  ∃ a ∈ db.graph.arcs, a.weight = edge ∧ minConfidence ≤ edgeConfidence edge ∧
    (impactPropagation edge.edgeType = .incoming ∧ a.target = u ∧ a.source = v ∨
      impactPropagation edge.edgeType = .outgoing ∧ a.source = u ∧ a.target = v)

def Adjacent (u v : Nat) : Prop :=
  ∃ edge, Admits db minConfidence u edge v

def IsSeed (starts : List String) (i : Nat) : Prop :=
  ∃ start ∈ starts, slotOf db start = some i

variable {db minConfidence}

theorem crossing_eq_some {a : Arc GraphEdge} {u v : Nat} {c : Crossing} :
    crossing minConfidence a = some (u, (c, v)) ↔
      c = ⟨edgeConfidence a.weight, a.weight⟩ ∧ minConfidence ≤ edgeConfidence a.weight ∧
        (impactPropagation a.weight.edgeType = .incoming ∧ a.target = u ∧ a.source = v ∨
          impactPropagation a.weight.edgeType = .outgoing ∧ a.source = u ∧ a.target = v) := by
  unfold crossing
  by_cases weak : edgeConfidence a.weight < minConfidence
  · rw [if_pos weak]
    exact iff_of_false (by simp) fun found => absurd weak (not_lt.mpr found.2.1)
  · rw [if_neg weak]
    have strong := not_lt.mp weak
    cases impactPropagation a.weight.edgeType <;>
      simp [strong, eq_comm, and_comm, and_assoc]

theorem mem_byTarget {u : Nat} {step : Crossing × Nat} :
    step ∈ byTarget db minConfidence u ↔
      step.1.confidence = edgeConfidence step.1.edge ∧
        Admits db minConfidence u step.1.edge step.2 := by
  obtain ⟨⟨confidence, edge⟩, v⟩ := step
  unfold byTarget
  rw [List.mem_insertionSort, List.mem_map]
  constructor
  · rintro ⟨⟨_, _⟩, member, rfl⟩
    obtain ⟨member, here⟩ := List.mem_filter.mp member
    obtain ⟨a, arc, crossed⟩ := List.mem_filterMap.mp member
    obtain rfl := of_decide_eq_true here
    obtain ⟨same, strong, way⟩ := crossing_eq_some.mp crossed
    obtain ⟨rfl, rfl⟩ := Crossing.mk.inj same
    exact ⟨rfl, a, arc, rfl, strong, way⟩
  · dsimp only
    rintro ⟨rfl, a, arc, rfl, strong, way⟩
    refine ⟨(u, (⟨edgeConfidence a.weight, a.weight⟩, v)), List.mem_filter.mpr ⟨?_, by simp⟩, rfl⟩
    exact List.mem_filterMap.mpr ⟨a, arc, crossing_eq_some.mpr ⟨rfl, strong, way⟩⟩

theorem adj_impactRules (depth : Nat) :
    (impactRules db depth minConfidence).Adj = Adjacent db minConfidence := by
  funext u v
  refine propext ⟨fun ⟨c, step⟩ => ⟨c.edge, (mem_byTarget.mp step).2⟩, fun ⟨edge, admitted⟩ => ?_⟩
  exact ⟨⟨edgeConfidence edge, edge⟩, mem_byTarget.mpr ⟨rfl, admitted⟩⟩

theorem mem_seedsOf {starts : List String} {i : Nat} :
    i ∈ seedsOf db starts ↔ IsSeed db starts i :=
  List.mem_filterMap

theorem slotOf_live {id : String} {i : Nat} (found : slotOf db id = some i) :
    ∃ node, db.graph.nodeWeight i = some node ∧ node.id = id := by
  obtain ⟨entry, last, rfl⟩ := Option.map_eq_some_iff.mp found
  obtain ⟨member, named⟩ := List.mem_filter.mp (List.mem_of_getLast? last)
  exact ⟨entry.2, StableGraph.mem_nodeReferences.mp member, of_decide_eq_true named⟩

theorem Admits.live {u v : Nat} {edge : GraphEdge} (admitted : Admits db minConfidence u edge v) :
    ∃ node, db.graph.nodeWeight v = some node := by
  obtain ⟨a, arc, -, -, ⟨-, -, rfl⟩ | ⟨-, -, rfl⟩⟩ := admitted
  · exact StableGraph.arc_source_live arc
  · exact StableGraph.arc_target_live arc

theorem lt_slots_of_live {i : Nat} {node : GraphNode} (live : db.graph.nodeWeight i = some node) :
    i ∈ List.range db.graph.slots.length := by
  obtain ⟨bound, -⟩ := List.getElem?_eq_some_iff.mp (StableGraph.nodeWeight_eq_some.mp live)
  exact List.mem_range.mpr bound

variable (db minConfidence) in
/-- **The search of a traversal ends** with every node within the depth popped. -/
theorem impact_run (starts : List String) (depth : Nat) :
    ∃ final, Bfs.Popped (impactRules db depth minConfidence) (IsSeed db starts)
      db.graph.slots.length [] ((seedsOf db starts).foldl Bfs.Search.seed {})
      ((impactPops db starts depth minConfidence).map Prod.fst) final ∧ final.queue = [] := by
  have seeded : Bfs.Inv (impactRules db depth minConfidence) (· ∈ seedsOf db starts) [] 0
      ((seedsOf db starts).foldl Bfs.Search.seed {}) := (Bfs.seeded_foldl (seedsOf db starts)).inv
  rw [show (· ∈ seedsOf db starts) = IsSeed db starts from
    funext fun i => propext mem_seedsOf] at seeded
  have run := seeded.run db.graph.slots.length (by simp)
  rw [List.nil_append] at run
  refine ⟨_, run, run.queue_eq_nil (List.range db.graph.slots.length) ?_ ?_
    (List.length_range).le⟩
  · rintro i ⟨start, -, found⟩
    obtain ⟨node, live, -⟩ := slotOf_live found
    exact lt_slots_of_live live
  · intro u step member
    obtain ⟨node, live⟩ := (mem_byTarget.mp member).2.live
    exact lt_slots_of_live live

end Steps

end Lain.Federation
