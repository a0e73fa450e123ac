import Mathlib
import Lain.Federation.Impact

/-!
# The paths of an impact traversal

Every path a traversal reports follows stored edges from a start to a node along
a shortest walk, and below the cap every node within the depth lies on a path.
-/

/-!
## When an impact traversal is cut

A traversal reports that it was cut when the cap drops a path, and also when it
pops a node at the depth limit, whether or not an edge leads on from there.
-/

namespace Lain.Federation

open Foundation Lain.Graph

section

variable (db : GraphDatabase) (starts : List String) (depth cap : Nat) (minConfidence : ℚ)

/-- The cap drops a path: a larger cap would leave more. -/
def Dropped : Prop :=
  ∃ larger, (traverseImpact db starts depth cap minConfidence).paths.length <
    (traverseImpact db starts depth larger minConfidence).paths.length

/-- The depth cuts a path: an edge leads from a node at the limit to a node beyond. -/
def CutAtDepth : Prop :=
  ∃ v w, Bfs.AtDistance (Adjacent db minConfidence) (IsSeed db starts) depth v ∧
    Adjacent db minConfidence v w ∧
    ¬ Bfs.Within (Adjacent db minConfidence) (IsSeed db starts) depth w

/-- No node lies at the depth limit. -/
def EndsBefore : Prop :=
  ∀ v, ¬ Bfs.AtDistance (Adjacent db minConfidence) (IsSeed db starts) depth v

theorem traverseImpact_paths :
    ((traverseImpact db starts depth cap minConfidence).paths).Perm
      (((impactLeaves db starts depth minConfidence).take cap).map (pathAt db depth)) := by
  obtain ⟨paths, -⟩ := traverseFrom_eq db depth cap minConfidence db.graph.slots.length
    { search := (seedsOf db starts).foldl Bfs.Search.seed {} } (Nat.zero_le cap)
  unfold traverseImpact
  dsimp only
  rw [paths]
  exact List.perm_insertionSort _ _

theorem traverseImpact_length :
    (traverseImpact db starts depth cap minConfidence).paths.length =
      min cap (impactLeaves db starts depth minConfidence).length := by
  rw [(traverseImpact_paths db starts depth cap minConfidence).length_eq, List.length_map,
    List.length_take]

theorem dropped_iff :
    Dropped db starts depth cap minConfidence ↔
      cap < (impactLeaves db starts depth minConfidence).length := by
  unfold Dropped
  simp only [traverseImpact_length]
  constructor
  · rintro ⟨larger, fewer⟩
    omega
  · intro more
    exact ⟨(impactLeaves db starts depth minConfidence).length, by omega⟩

theorem traverseImpact_truncated :
    (traverseImpact db starts depth cap minConfidence).truncated = true ↔
      Dropped db starts depth cap minConfidence ∨ ¬ EndsBefore db starts depth minConfidence := by
  obtain ⟨-, cut⟩ := traverseFrom_eq db depth cap minConfidence db.graph.slots.length
    { search := (seedsOf db starts).foldl Bfs.Search.seed {} } (Nat.zero_le cap)
  obtain ⟨final, run, done⟩ := impact_run db minConfidence starts depth
  have boundary : (∃ entry ∈ impactPops db starts depth minConfidence, depth ≤ entry.1.2) ↔
      ¬ EndsBefore db starts depth minConfidence := by
    unfold EndsBefore
    push Not
    rw [← adj_impactRules depth]
    constructor
    · rintro ⟨⟨⟨v, d⟩, t⟩, popped, deep⟩
      obtain ⟨bound, distance⟩ := (run.mem_iff done).mp (List.mem_map_of_mem popped)
      obtain rfl : depth = d := le_antisymm deep bound
      exact ⟨v, distance⟩
    · rintro ⟨v, distance⟩
      obtain ⟨entry, popped, same⟩ := List.mem_map.mp ((run.mem_iff done).mpr ⟨le_rfl, distance⟩)
      exact ⟨entry, popped, le_of_eq (congrArg Prod.snd same).symm⟩
  rw [dropped_iff, ← boundary]
  refine cut.trans ?_
  simp only [Bool.false_eq_true, false_or, List.length_nil, Nat.zero_add]
  rfl

/-- **The flag is exact** when the cap drops a path, when an edge leads on from the
depth limit, and when nothing lies at the limit; and in no other case. -/
theorem truncated_exact_iff :
    ((traverseImpact db starts depth cap minConfidence).truncated = true ↔
        Dropped db starts depth cap minConfidence ∨ CutAtDepth db starts depth minConfidence) ↔
      cap < (impactLeaves db starts depth minConfidence).length ∨
        CutAtDepth db starts depth minConfidence ∨ EndsBefore db starts depth minConfidence := by
  have inside : CutAtDepth db starts depth minConfidence →
      ¬ EndsBefore db starts depth minConfidence :=
    fun ⟨v, _, distance, _⟩ before => before v distance
  rw [traverseImpact_truncated, dropped_iff]
  tauto

end

/-- A function that another one calls, through an edge of some weight. -/
def callerGraph (weight : Option ℚ) : GraphDatabase :=
  let node (id : String) : GraphNode := { id, nodeType := .function, name := id, path := "a.rs" }
  let call : GraphEdge := { edgeType := .calls, sourceId := "caller", targetId := "callee", weight }
  match GraphDatabase.putNode {} (node "callee") with
  | none => {}
  | some one =>
    match one.putNode (node "caller") with
    | none => {}
    | some two => (two.addEdge 1 0 call).getD {}

/-- A blast radius that ends at the limit is reported as cut. -/
theorem truncated_inexact :
    ¬ ((traverseImpact (callerGraph none) ["callee"] 1 10 0).truncated = true ↔
      Dropped (callerGraph none) ["callee"] 1 10 0 ∨ CutAtDepth (callerGraph none) ["callee"] 1 0) := by
  intro exactly
  have cut : (traverseImpact (callerGraph none) ["callee"] 1 10 0).truncated = true := by decide +kernel
  rcases exactly.mp cut with dropped | ⟨v, w, -, step, beyond⟩
  · rw [dropped_iff] at dropped
    revert dropped
    decide +kernel
  · have ⟨edge, a, arc, _, _, way⟩ := step
    obtain ⟨-, rfl, rfl⟩ | ⟨outgoing, -⟩ := way
    · obtain rfl := List.mem_singleton.mp (show a ∈ [_] from arc)
      exact beyond ⟨1, le_rfl, 0, ⟨"callee", List.mem_cons_self, by decide +kernel⟩, step⟩
    · cases edge with
      | mk edgeType => cases edgeType <;> cases outgoing

end Lain.Federation

namespace Lain.Federation

open Foundation Lain.Graph

section

variable (db : GraphDatabase) (minConfidence : ℚ)

def Follows : Nat → List (GraphEdge × Nat) → Prop
  | _, [] => True
  | u, step :: rest => Admits db minConfidence u step.1 step.2 ∧ Follows step.2 rest

def endOf (start : Nat) (steps : List (GraphEdge × Nat)) : Nat :=
  (steps.getLast?.map Prod.snd).getD start

def pathOf (start : Nat) (steps : List (GraphEdge × Nat)) : ImpactPath where
  hops :=
    if steps.isEmpty then [selfHop db start]
    else steps.map fun step => ⟨step.1, nodeAt db step.2⟩
  minConfidence := steps.foldl (fun lowest step => min lowest (edgeConfidence step.1)) 1

variable (starts : List String) (depth : Nat)

structure Route (start : Nat) (steps : List (GraphEdge × Nat)) : Prop where
  seed : IsSeed db starts start
  follows : Follows db minConfidence start steps
  shortest : Bfs.AtDistance (Adjacent db minConfidence) (IsSeed db starts) steps.length
    (endOf start steps)
  within : steps.length ≤ depth

variable (cap : Nat)

/-- **The paths of a traversal** are routes, and cover what is within the depth. -/
structure ReportsRoutes : Prop where
  /-- Every path is that of a shortest route. -/
  real : ∀ path ∈ (traverseImpact db starts depth cap minConfidence).paths,
    ∃ start steps, Route db minConfidence starts depth start steps ∧ path = pathOf db start steps
  /-- Below the cap, every node within the depth lies on a path. -/
  covers : (traverseImpact db starts depth cap minConfidence).paths.length < cap →
    ∀ v, Bfs.Within (Adjacent db minConfidence) (IsSeed db starts) depth v →
      ∃ path ∈ (traverseImpact db starts depth cap minConfidence).paths,
        ∃ start steps, Route db minConfidence starts depth start steps ∧
          path = pathOf db start steps ∧ (v = start ∨ v ∈ steps.map Prod.snd)

end

/-! ### Reading a path back -/

section

variable {db : GraphDatabase} {minConfidence : ℚ} {depth : Nat}
  {s : Bfs.Search Nat Predecessor} {start leaf : Nat} {steps : List (Crossing × Nat)}

def routeOf (steps : List (Crossing × Nat)) : List (GraphEdge × Nat) :=
  steps.map fun step => (step.1.edge, step.2)

theorem follows_of_trail : ∀ {u : Nat} {steps : List (Crossing × Nat)},
    Bfs.Trail (impactRules db depth minConfidence) u steps →
      Follows db minConfidence u (routeOf steps) := by
  intro u steps
  induction steps generalizing u with
  | nil => exact fun _ => trivial
  | cons step rest ih =>
    rintro ⟨first, later⟩
    exact ⟨(mem_byTarget.mp first).2, ih later⟩

theorem endOf_routeOf (start : Nat) (steps : List (Crossing × Nat)) :
    endOf start (routeOf steps) = Bfs.lastOf start steps := by
  unfold endOf routeOf Bfs.lastOf
  rw [List.getLast?_map, Option.map_map]
  rfl

theorem le_lowest {steps : List (Crossing × Nat)} {x lowest : ℚ} :
    x ≤ steps.foldl (fun lowest step => min lowest step.1.confidence) lowest ↔
      x ≤ lowest ∧ ∀ step ∈ steps, x ≤ step.1.confidence := by
  induction steps generalizing lowest with
  | nil => simp
  | cons step rest ih => rw [List.foldl_cons, ih]; simp [and_assoc]

theorem recorded_lowest
    (chain : Bfs.Chain (impactRules db depth minConfidence) s start steps leaf)
    {entry : Predecessor} (found : s.pred leaf = some entry) (x : ℚ) :
    x ≤ entry.2.2 ↔ ∀ step ∈ steps, x ≤ step.1.confidence := by
  induction chain generalizing entry with
  | seed _ free => simp [free] at found
  | @step steps u v l before _ _ recorded ih =>
    rw [recorded] at found
    obtain rfl := Option.some.inj found
    cases earlier : s.pred u with
    | none =>
      have empty : steps = [] := by
        cases before with
        | seed => rfl
        | step _ _ _ other => rw [earlier] at other; cases other
      simp [impactRules, empty]
    | some first =>
      have inner := ih earlier
      obtain ⟨previous, edge, confidence⟩ := first
      simp only [impactRules, le_min_iff, List.mem_append, List.mem_singleton]
      rw [show x ≤ confidence ↔ _ from inner]
      constructor
      · rintro ⟨last, rest⟩ step (old | rfl)
        · exact rest step old
        · exact last
      · intro all
        exact ⟨all _ (Or.inr rfl), fun step old => all step (Or.inl old)⟩

theorem walkBack_eq (chain : Bfs.Chain (impactRules db depth minConfidence) s start steps leaf)
    (fuel : Nat) (enough : steps.length ≤ fuel) (hops : List ImpactHop) (lowest : ℚ) :
    walkBack db s.pred fuel leaf hops lowest =
      (steps.map (fun step => ⟨step.1.edge, nodeAt db step.2⟩) ++ hops,
        steps.foldl (fun lowest step => min lowest step.1.confidence) lowest) := by
  induction chain generalizing fuel hops lowest with
  | seed _ free =>
    cases fuel with
    | zero => rfl
    | succ fuel => simp [walkBack, free]
  | @step steps u v l before known edge recorded ih =>
    rw [List.length_append, List.length_singleton] at enough
    obtain ⟨fuel, rfl⟩ : ∃ k, fuel = k + 1 := ⟨fuel - 1, by omega⟩
    have bound := recorded_lowest (before.step known edge recorded) recorded
    rw [walkBack, recorded]
    simp only [impactRules] at bound ⊢
    rw [ih fuel (by omega)]
    refine Prod.ext ?_ ?_
    · simp
    · -- what is recorded of the last node bounds the whole chain
      refine eq_of_forall_le_iff fun x => ?_
      rw [le_lowest, le_lowest, le_min_iff, bound x]
      constructor
      · rintro ⟨⟨low, all⟩, -⟩
        exact ⟨low, all⟩
      · rintro ⟨low, all⟩
        exact ⟨⟨low, all⟩, fun step member => all step (List.mem_append_left _ member)⟩

theorem confidence_of_chain
    (chain : Bfs.Chain (impactRules db depth minConfidence) s start steps leaf) :
    ∀ step ∈ steps, step.1.confidence = edgeConfidence step.1.edge := by
  induction chain with
  | seed => simp
  | step _ _ edge _ ih =>
    intro step member
    rcases List.mem_append.mp member with earlier | last
    · exact ih step earlier
    · rw [List.mem_singleton.mp last]
      exact (mem_byTarget.mp edge).1

theorem reconstructPath_eq
    (chain : Bfs.Chain (impactRules db depth minConfidence) s start steps leaf)
    (enough : steps.length ≤ depth) :
    reconstructPath db depth leaf s.pred = pathOf db start (routeOf steps) := by
  have lowest : ∀ (l : List (Crossing × Nat)) (m : ℚ),
      (∀ step ∈ l, step.1.confidence = edgeConfidence step.1.edge) →
      l.foldl (fun lowest step => min lowest step.1.confidence) m =
        (routeOf l).foldl (fun lowest step => min lowest (edgeConfidence step.1)) m := by
    intro l
    induction l with
    | nil => exact fun _ _ => rfl
    | cons step rest ih =>
      intro m all
      obtain ⟨first, all⟩ := List.forall_mem_cons.mp all
      rw [List.foldl_cons, first, ih _ all]
      rfl
  unfold reconstructPath
  dsimp only
  rw [walkBack_eq chain depth enough, lowest steps 1 (confidence_of_chain chain), List.append_nil]
  cases chain with
  | seed => rfl
  | step => simp [pathOf, routeOf]

end

/-! ### Routes of leaves -/

section

variable (db : GraphDatabase) (minConfidence : ℚ) (starts : List String) (depth cap : Nat)

/-- **Traversals report routes.** -/
theorem traverseImpact_reportsRoutes : ReportsRoutes db minConfidence starts depth cap := by
  obtain ⟨final, run, done⟩ := impact_run db minConfidence starts depth
  have adjacent : (impactRules db depth minConfidence).Adj = Adjacent db minConfidence :=
    adj_impactRules depth
  have route : ∀ entry ∈ impactPops db starts depth minConfidence, ∀ start steps,
      IsSeed db starts start →
      Bfs.Chain (impactRules db depth minConfidence) entry.2 start steps entry.1.1 →
      steps.length = entry.1.2 →
      Route db minConfidence starts depth start (routeOf steps) ∧
        pathAt db depth entry = pathOf db start (routeOf steps) := by
    intro entry popped start steps seed chain length
    obtain ⟨bound, distance⟩ := (run.mem_iff done).mp (List.mem_map_of_mem popped)
    rw [adjacent] at distance
    have same : (routeOf steps).length = entry.1.2 := by rw [routeOf, List.length_map, length]
    refine ⟨⟨seed, follows_of_trail chain.trail, ?_, same.le.trans bound⟩,
      reconstructPath_eq chain (length.le.trans bound)⟩
    rw [same, endOf_routeOf, chain.lastOf_eq]
    exact distance
  have paths := traverseImpact_paths db starts depth cap minConfidence
  constructor
  · intro path member
    obtain ⟨entry, leaf, rfl⟩ := List.mem_map.mp (paths.mem_iff.mp member)
    have popped := (List.mem_filter.mp (List.mem_of_mem_take leaf)).1
    obtain ⟨start, steps, seed, chain, length⟩ := (run.each entry popped).chain
    exact ⟨start, routeOf steps, route entry popped start steps seed chain length⟩
  · intro room v within
    rw [← adjacent] at within
    obtain ⟨d, bound, reached⟩ := within
    obtain ⟨near, _, popped⟩ := run.complete done d v bound reached
    obtain ⟨entry, inside, leaf, start, steps, seed, chain, length, through⟩ :=
      run.covered done depth popped (Nat.le_add_left _ _)
    obtain ⟨real, spelled⟩ := route entry inside start steps seed chain length
    refine ⟨_, ?_, start, routeOf steps, real, spelled, through.imp_right fun listed => ?_⟩
    · rw [traverseImpact_length] at room
      rw [paths.mem_iff, List.take_of_length_le (by omega)]
      exact List.mem_map_of_mem (List.mem_filter.mpr ⟨inside, leaf⟩)
    · rw [routeOf, List.map_map]
      exact listed

/-- Every hop of a path is a stored edge. -/
def HopsStored : Prop :=
  ∀ path ∈ (traverseImpact db starts depth cap minConfidence).paths, ∀ hop ∈ path.hops,
    hop.edge ∈ db.edges

/-- The confidence of a path is that of one of its hops. -/
def LowestOfHops : Prop :=
  ∀ path ∈ (traverseImpact db starts depth cap minConfidence).paths, ∃ hop ∈ path.hops,
    path.minConfidence = edgeConfidence hop.edge

end

/-- A start that leads nowhere is reported with an edge that is not stored, and no path
is more certain than one. -/
theorem hopsStored_fails :
    (¬ ∀ db minConfidence starts depth cap, HopsStored db minConfidence starts depth cap) ∧
      ¬ ∀ db minConfidence starts depth cap, LowestOfHops db minConfidence starts depth cap := by
  constructor
  · intro always
    have path := always (callerGraph none) 0 ["caller"] 1 10
    revert path
    unfold HopsStored
    decide +kernel
  · intro always
    have path := always (callerGraph (some 2)) 0 ["callee"] 1 10
    revert path
    unfold LowestOfHops
    decide +kernel

end Lain.Federation
