import Mathlib
import Lain.Graph.CrashSafety
import Lain.Query.Walks

/-!
# Following edges exactly

The walks from all seeds in all directions asked for are merged: every node keeps the candidate
of the fewest hops, an outgoing walk before an incoming one, a lower seed id before a higher one.
-/

namespace Lain.Query

open Foundation Lain.Graph GraphDatabase

section

variable (db : GraphDatabase) (startNodes : List GraphNodeRef) (connect : ConnectOp)

structure Qualifies (seed : String) (direction : PetDirection) (hops : Nat) (n : String) :
    Prop where
  among : seed ∈ startNodes.map GraphNodeRef.id
  other : n ≠ seed
  walk : direction ∈ connect.direction.walks
  distance : Distance db connect.edge direction seed hops n
  low : connect.depth.toRange.1 ≤ hops
  high : hops ≤ connect.depth.toRange.2

/-- The target, when there is one, takes a node. -/
def Kept (target : Option FindOp) (n : String) : Prop :=
  ∀ find, target = some find → ∃ node, db.getNode n = some node ∧ find.selects node = true ∧
    ∀ want, find.id = some want → want = n

def walkRank (seed : String) (direction : PetDirection) (hops : Nat) : Nat ×ₗ Nat ×ₗ String :=
  toLex (hops, toLex (direction.rank, seed))

/-- **A `connect` is exact**: it reports the nodes that the target takes and some walk leads to,
each once, and with each a path of the first of all these walks. -/
structure ConnectExact (found : Connected) : Prop where
  once : (found.nodes.map GraphNodeRef.id).Nodup
  refs : ∀ r ∈ found.nodes, IsRef db r
  reported : ∀ n, n ∈ found.nodes.map GraphNodeRef.id ↔ Kept db connect.target n ∧
    ∃ seed direction hops, Qualifies db startNodes connect seed direction hops n
  path : ∀ r ∈ found.nodes, ∃ path seed direction hops, found.paths r.id = some path ∧
    Qualifies db startNodes connect seed direction hops r.id ∧
    Leads db connect.edge direction path seed r.id hops ∧
    ∀ seed' direction' hops', Qualifies db startNodes connect seed' direction' hops' r.id →
      walkRank seed direction hops ≤ walkRank seed' direction' hops'

/-- A `find` names node types only. -/
def FindOp.TypesKnown (find : FindOp) : Prop :=
  ∀ selector, find.typeSelector = some selector → selector.unknownTypes = []

/-- A `connect` names edge types and node types only. -/
def ConnectOp.TypesKnown : Prop :=
  connect.edge.unknownTypes = [] ∧ ∀ find, connect.target = some find → find.TypesKnown

end

def GraphOp.Narrows : GraphOp → Prop
  | .find _ | .connect _ => False
  | .filter _ | .semanticFilter _ | .group _ | .sort _ | .limit _ => True

/-- Each reported path is the one a `connect` reported with the node in its place. -/
def Aligned (found : Connected) (result : QueryResult) : Prop :=
  List.Forall₂ (fun node path => node ∈ found.nodes ∧ found.paths node.id = some path)
    result.nodes result.paths

variable {db : GraphDatabase} {startNodes : List GraphNodeRef} {connect : ConnectOp}

/-! ### Merging the walks -/

theorem checkNodeTypes_eq_ok {find : FindOp} :
    checkNodeTypes find = .ok () ↔ find.TypesKnown := by
  unfold checkNodeTypes FindOp.TypesKnown
  cases find.typeSelector with
  | none => simp
  | some selector =>
    simp only [Option.some.injEq, forall_eq']
    split_ifs with known
    · simp [known]
    · simp [known]

theorem unknownTypes_of_bfsTraverse {start : String} {edges : EdgeSelector} {range : Nat × Nat}
    {direction : PetDirection} {found : List TraversalCandidate}
    (run : bfsTraverse db start edges range direction = .ok found) : edges.unknownTypes = [] := by
  by_contra unknown
  unfold bfsTraverse at run
  rw [if_pos unknown] at run
  cases run

theorem walks_ne_nil (direction : Direction) : direction.walks ≠ [] := by
  cases direction <;> simp [Direction.walks]

structure Merged (db : GraphDatabase) (startNodes : List GraphNodeRef) (connect : ConnectOp)
    (tally : Tally String TraversalCandidate) : Prop where
  nodup : tally.order.Nodup
  order : ∀ n, n ∈ tally.order ↔
    ∃ seed direction hops, Qualifies db startNodes connect seed direction hops n
  best : ∀ n ∈ tally.order, ∃ c, tally.best n = some c ∧ c.node.id = n ∧ IsRef db c.node ∧
    Qualifies db startNodes connect c.seedId c.direction c.hops n ∧
    Leads db connect.edge c.direction c.path c.seedId n c.hops ∧
    ∀ seed direction hops, Qualifies db startNodes connect seed direction hops n →
      c.rank ≤ walkRank seed direction hops

theorem mem_walksFrom {direction : Direction} {walk : PetDirection} {start : GraphNodeRef} :
    (walk, start) ∈ direction.walksFrom startNodes ↔ walk ∈ direction.walks ∧ start ∈ startNodes := by
  unfold Direction.walksFrom
  simp only [List.mem_flatMap, List.mem_map, Prod.mk.injEq]
  constructor
  · rintro ⟨_, asked, _, member, rfl, rfl⟩
    exact ⟨asked, member⟩
  · rintro ⟨asked, member⟩
    exact ⟨walk, asked, start, member, rfl, rfl⟩

theorem known_of_bestCandidates (nonempty : startNodes ≠ [])
    {tally : Tally String TraversalCandidate}
    (run : bestCandidates db startNodes connect = .ok tally) : connect.edge.unknownTypes = [] := by
  obtain ⟨start, seed⟩ := List.exists_mem_of_ne_nil _ nonempty
  obtain ⟨walk, asked⟩ := List.exists_mem_of_ne_nil _ (walks_ne_nil connect.direction)
  unfold bestCandidates at run
  cases walked : (connect.direction.walksFrom startNodes).mapM fun walk =>
      bfsTraverse db walk.2.id connect.edge connect.depth.toRange walk.1 with
  | error reason =>
    rw [walked] at run
    cases run
  | ok found =>
    obtain ⟨l, -, one⟩ := (forall₂_mem (mapM_eq_ok_iff.mp walked)).1 (walk, start)
      (mem_walksFrom.mpr ⟨asked, seed⟩)
    exact unknownTypes_of_bfsTraverse one

variable (startNodes) in
theorem bestCandidates_spec (consistent : Consistent db) (known : connect.edge.unknownTypes = []) :
    ∃ tally, bestCandidates db startNodes connect = .ok tally ∧
      Merged db startNodes connect tally := by
  have each : ∀ walk ∈ connect.direction.walksFrom startNodes, ∃ found,
      bfsTraverse db walk.2.id connect.edge connect.depth.toRange walk.1 = .ok found ∧
        (∀ c ∈ found, IsCandidate db connect.edge walk.1 walk.2.id connect.depth.toRange c) ∧
        ∀ n h, n ≠ walk.2.id → Distance db connect.edge walk.1 walk.2.id h n →
          connect.depth.toRange.1 ≤ h → h ≤ connect.depth.toRange.2 →
            ∃ c ∈ found, c.node.id = n ∧ c.hops = h :=
    fun _ _ => bfsTraverse_spec consistent known
  obtain ⟨found, run, all⟩ := exists_mapM_eq_ok each
  have sound : ∀ c ∈ found.flatten, IsRef db c.node ∧
      Qualifies db startNodes connect c.seedId c.direction c.hops c.node.id ∧
      Leads db connect.edge c.direction c.path c.seedId c.node.id c.hops := by
    intro c member
    obtain ⟨l, inside, here⟩ := List.mem_flatten.mp member
    obtain ⟨⟨direction, start⟩, walked, candidates, -⟩ := (forall₂_mem all).2 l inside
    obtain ⟨walk, seed⟩ := mem_walksFrom.mp walked
    obtain ⟨node, named, rfl, other, distance, inRange, leads⟩ := candidates c here
    rw [named]
    exact ⟨node, ⟨List.mem_map_of_mem seed, other, walk, distance, inRange.1, inRange.2⟩, leads⟩
  have complete : ∀ {seed direction hops n},
      Qualifies db startNodes connect seed direction hops n →
        ∃ c ∈ found.flatten, c.node.id = n ∧ c.rank = walkRank seed direction hops := by
    intro seed direction hops n walk
    obtain ⟨start, member, rfl⟩ := List.mem_map.mp walk.among
    obtain ⟨l, inside, candidates, reached⟩ := (forall₂_mem all).1 _
      (mem_walksFrom.mpr ⟨walk.walk, member⟩)
    obtain ⟨c, here, named, count⟩ := reached n hops walk.other walk.distance walk.low walk.high
    have spec := candidates c here
    refine ⟨c, List.mem_flatten.mpr ⟨l, inside, here⟩, named, ?_⟩
    rw [TraversalCandidate.rank, spec.seed, spec.walk, count, walkRank]
  obtain ⟨nodup, -⟩ := Tally.listed_collect (fun c : TraversalCandidate => c.node.id)
    TraversalCandidate.rank found.flatten
  have order : ∀ n, n ∈ (Tally.collect (fun c => c.node.id) TraversalCandidate.rank
      found.flatten).order ↔
        ∃ seed direction hops, Qualifies db startNodes connect seed direction hops n := by
    intro n
    rw [Tally.mem_order_collect]
    constructor
    · rintro ⟨c, member, rfl⟩
      exact ⟨_, _, _, (sound c member).2.1⟩
    · rintro ⟨seed, direction, hops, walk⟩
      obtain ⟨c, member, named, -⟩ := complete walk
      exact ⟨c, member, named⟩
  refine ⟨_, ?_, nodup, order, fun n member => ?_⟩
  · unfold bestCandidates
    rw [run]
    rfl
  · have holds := ((Tally.listed_collect (fun c : TraversalCandidate => c.node.id)
      TraversalCandidate.rank found.flatten).2 n).mp member
    obtain ⟨c, best⟩ := Option.isSome_iff_exists.mp holds
    refine ⟨c, best, ?_⟩
    rw [Tally.best_collect] at best
    obtain ⟨candidate, first⟩ := least_eq_some best
    obtain ⟨found, named⟩ := List.mem_filter.mp candidate
    have named : c.node.id = n := of_decide_eq_true named
    obtain ⟨ref, walk, leads⟩ := sound c found
    refine ⟨named, ref, named ▸ walk, named ▸ leads, fun seed direction hops other => ?_⟩
    obtain ⟨c', member', named', rank⟩ := complete other
    rw [← rank]
    exact first c' (List.mem_filter.mpr ⟨member', decide_eq_true named'⟩)

/-! ### What is reported -/

theorem mem_nodeWeights (consistent : Consistent db) {node : GraphNode} :
    node ∈ db.nodeWeights ↔ db.getNode node.id = some node := by
  unfold nodeWeights getNode
  rw [List.mem_map]
  constructor
  · rintro ⟨⟨i, n⟩, member, rfl⟩
    have live := StableGraph.mem_nodeReferences.mp member
    rw [consistent.lookup_of_live live]
    exact live
  · intro found
    obtain ⟨i, -, live⟩ := Option.bind_eq_some_iff.mp found
    exact ⟨(i, node), StableGraph.mem_nodeReferences.mpr live, rfl⟩

theorem mem_allowed (consistent : Consistent db) {find : FindOp} {n : String} :
    n ∈ allowed db find ↔ Kept db (some find) n := by
  have wanted : optional (fun want id : String => decide (want = id)) find.id n = true ↔
      ∀ want, find.id = some want → want = n := by
    unfold optional
    cases find.id with
    | none => simp
    | some want => simp
  unfold allowed queryNodes Kept
  rw [List.mem_filter, List.mem_map, wanted]
  simp only [List.mem_filter, Option.some.injEq, forall_eq']
  constructor
  · rintro ⟨⟨node, ⟨member, selects⟩, rfl⟩, wants⟩
    exact ⟨node, (mem_nodeWeights consistent).mp member, selects, wants⟩
  · rintro ⟨node, found, selects, wants⟩
    have named := id_of_getNode consistent found
    subst named
    exact ⟨⟨node, ⟨(mem_nodeWeights consistent).mpr found, selects⟩, rfl⟩, wants⟩

theorem Merged.exact {tally : Tally String TraversalCandidate}
    (merged : Merged db startNodes connect tally) {order : List String}
    (sublist : order.Sublist tally.order)
    (kept : ∀ n, n ∈ order ↔ n ∈ tally.order ∧ Kept db connect.target n) :
    ConnectExact db startNodes connect (report tally.best order) := by
  have names : (report tally.best order).nodes.map GraphNodeRef.id = order := by
    have listed : ∀ n ∈ order, ∃ c, tally.best n = some c ∧ c.node.id = n := fun n member =>
      let ⟨c, best, named, _⟩ := merged.best n (sublist.subset member)
      ⟨c, best, named⟩
    change (order.filterMap _).map _ = _
    clear kept sublist
    induction order with
    | nil => rfl
    | cons n rest ih =>
      obtain ⟨⟨c, best, named⟩, later⟩ := List.forall_mem_cons.mp listed
      rw [List.filterMap_cons_some (by rw [best]; rfl), List.map_cons, ih later, named]
  have inside : ∀ r ∈ (report tally.best order).nodes, ∃ n ∈ order, ∃ c, tally.best n = some c ∧
      c.node = r := by
    intro r member
    obtain ⟨n, listed, here⟩ := List.mem_filterMap.mp member
    obtain ⟨c, best, rfl⟩ := Option.map_eq_some_iff.mp here
    exact ⟨n, listed, c, best, rfl⟩
  refine ⟨names.symm ▸ merged.nodup.sublist sublist, fun r member => ?_, fun n => ?_,
    fun r member => ?_⟩
  · obtain ⟨n, listed, c, here, rfl⟩ := inside r member
    obtain ⟨c', best, -, ref, -⟩ := merged.best n (sublist.subset listed)
    obtain rfl := Option.some.inj (here.symm.trans best)
    exact ref
  · rw [names, kept, merged.order, and_comm]
  · obtain ⟨n, listed, c, here, rfl⟩ := inside r member
    obtain ⟨c', best, named, -, walk, leads, first⟩ := merged.best n (sublist.subset listed)
    obtain rfl := Option.some.inj (here.symm.trans best)
    rw [named]
    refine ⟨c.path, c.seedId, c.direction, c.hops, ?_, walk, leads, first⟩
    change (if n ∈ order then (tally.best n).map _ else none) = _
    rw [if_pos listed, best]
    rfl

theorem connectExact_nil : ConnectExact db [] connect { nodes := [], paths := fun _ => none } where
  once := List.nodup_nil
  refs _ member := absurd member List.not_mem_nil
  reported n := by
    refine ⟨fun member => absurd member List.not_mem_nil, ?_⟩
    rintro ⟨-, _, _, _, walk⟩
    exact absurd walk.among List.not_mem_nil
  path _ member := absurd member List.not_mem_nil

theorem executeConnect_of_merged (consistent : Consistent db) (nonempty : startNodes ≠ [])
    {tally : Tally String TraversalCandidate}
    (run : bestCandidates db startNodes connect = .ok tally)
    (merged : Merged db startNodes connect tally) :
    (∀ found, executeConnect db startNodes connect = .ok found →
      ConnectExact db startNodes connect found) ∧
    ((∃ found, executeConnect db startNodes connect = .ok found) ↔
      ∀ find, connect.target = some find → find.TypesKnown) := by
  unfold executeConnect
  rw [if_neg nonempty, run]
  cases target : connect.target with
  | none =>
    have exact := merged.exact (List.Sublist.refl _) fun n => by
      rw [target]
      exact ⟨fun member => ⟨member, fun _ same => absurd same (by simp)⟩, And.left⟩
    refine ⟨fun found same => ?_, fun _ _ same => absurd same (by simp), fun _ => ⟨_, rfl⟩⟩
    obtain rfl := Except.ok.inj same
    exact exact
  | some find =>
    have sublist : (tally.order.filter fun id => decide (id ∈ allowed db find)).Sublist
        tally.order := List.filter_sublist
    have exact := merged.exact sublist fun n => by
        rw [List.mem_filter, decide_eq_true_eq, mem_allowed consistent, target]
    have known : (∀ other, some find = some other → other.TypesKnown) ↔
        checkNodeTypes find = .ok () := by
      rw [checkNodeTypes_eq_ok]
      exact ⟨fun all => all find rfl, fun known _ same => Option.some.inj same ▸ known⟩
    rw [known]
    change (∀ found, (do
        checkNodeTypes find
        return report tally.best (tally.order.filter fun id =>
          decide (id ∈ allowed db find))) = Except.ok found → _) ∧
      ((∃ found, (do
        checkNodeTypes find
        return report tally.best (tally.order.filter fun id =>
          decide (id ∈ allowed db find))) = Except.ok found) ↔ _)
    cases checkNodeTypes find with
    | ok =>
      refine ⟨fun found same => ?_, fun _ => rfl, fun _ => ⟨_, rfl⟩⟩
      obtain rfl := Except.ok.inj same
      exact exact
    | error reason =>
      have never : ∀ found : Connected,
          (Except.error reason : Except LainError Connected) ≠ .ok found := by
        intro found same
        cases same
      refine ⟨fun found same => absurd same (never found), ?_, fun same => by cases same⟩
      rintro ⟨found, same⟩
      exact absurd same (never found)

variable (startNodes connect) in
theorem executeConnect_spec (consistent : Consistent db) :
    (∀ found, executeConnect db startNodes connect = .ok found →
      ConnectExact db startNodes connect found) ∧
    ((∃ found, executeConnect db startNodes connect = .ok found) ↔
      startNodes = [] ∨ connect.TypesKnown) := by
  by_cases empty : startNodes = []
  · subst empty
    refine ⟨fun found same => ?_, fun _ => Or.inl rfl, fun _ => ⟨_, rfl⟩⟩
    obtain rfl := Except.ok.inj same
    exact connectExact_nil
  rw [or_iff_right empty, ConnectOp.TypesKnown]
  by_cases known : connect.edge.unknownTypes = []
  · obtain ⟨tally, run, merged⟩ := bestCandidates_spec startNodes consistent known
    rw [and_iff_right known]
    exact executeConnect_of_merged consistent empty run merged
  · have refused : ∀ found, executeConnect db startNodes connect ≠ .ok found := by
      intro found answered
      unfold executeConnect at answered
      rw [if_neg empty] at answered
      cases run : bestCandidates db startNodes connect with
      | ok tally => exact known (known_of_bestCandidates empty run)
      | error reason =>
        rw [run] at answered
        cases answered
    refine ⟨fun found answered => absurd answered (refused found), ?_,
      fun both => absurd both.1 known⟩
    rintro ⟨found, answered⟩
    exact absurd answered (refused found)

/-! ### What comes after -/

section Narrowing

variable {similar : SemanticFilterOp → Except LainError (GraphNode → Bool)} {p q : Pipeline}

theorem mem_applySort {nodes : List GraphNodeRef} {sort : SortOp} {n : GraphNodeRef} :
    n ∈ applySort nodes sort ↔ n ∈ nodes := by
  unfold applySort
  split <;> exact (perm_sortByKey _ _).mem_iff

theorem subset_of_applySemanticFilter {nodes kept : List GraphNodeRef} {sem : SemanticFilterOp}
    (run : applySemanticFilter db similar nodes sem = .ok kept) : ∀ n ∈ kept, n ∈ nodes := by
  unfold applySemanticFilter at run
  split_ifs at run with empty
  · obtain rfl := Except.ok.inj run
    exact fun _ member => member
  · obtain ⟨close, -, run⟩ := exists_of_bind_eq_ok run
    obtain rfl := Except.ok.inj run
    exact fun _ member => (List.mem_filter.mp member).1

theorem applyOp_narrows {op : GraphOp} (narrows : op.Narrows)
    (run : applyOp db similar p op = .ok q) : (∀ n ∈ q.nodes, n ∈ p.nodes) ∧ q.paths = p.paths := by
  cases op with
  | find => exact narrows.elim
  | connect => exact narrows.elim
  | filter =>
    obtain rfl := Except.ok.inj run
    exact ⟨fun _ member => (List.mem_filter.mp member).1, rfl⟩
  | semanticFilter sem =>
    obtain ⟨nodes, kept, run⟩ := exists_of_bind_eq_ok run
    obtain rfl := Except.ok.inj run
    exact ⟨subset_of_applySemanticFilter kept, rfl⟩
  | group =>
    obtain rfl := Except.ok.inj run
    exact ⟨fun _ member => member, rfl⟩
  | sort =>
    obtain rfl := Except.ok.inj run
    exact ⟨fun _ member => mem_applySort.mp member, rfl⟩
  | limit =>
    obtain rfl := Except.ok.inj run
    exact ⟨fun _ member => List.mem_of_mem_drop (List.mem_of_mem_take member), rfl⟩

theorem foldlM_narrows {ops : List GraphOp} (narrow : ∀ op ∈ ops, op.Narrows) :
    ∀ {p : Pipeline}, ops.foldlM (applyOp db similar) p = .ok q →
      (∀ n ∈ q.nodes, n ∈ p.nodes) ∧ q.paths = p.paths := by
  induction ops with
  | nil =>
    intro p run
    obtain rfl := Except.ok.inj run
    exact ⟨fun _ member => member, rfl⟩
  | cons op rest ih =>
    intro p run
    obtain ⟨first, later⟩ := List.forall_mem_cons.mp narrow
    rw [List.foldlM_cons] at run
    obtain ⟨middle, one, run⟩ := exists_of_bind_eq_ok run
    obtain ⟨subset, paths⟩ := applyOp_narrows first one
    obtain ⟨subset', paths'⟩ := ih later run
    exact ⟨fun n member => subset n (subset' n member), paths'.trans paths⟩

theorem forall₂_filterMap {α β : Type} {f : α → Option β} {P : α → β → Prop} {l : List α}
    (each : ∀ a ∈ l, ∃ b, f a = some b ∧ P a b) : List.Forall₂ P l (l.filterMap f) := by
  induction l with
  | nil => exact .nil
  | cons a rest ih =>
    obtain ⟨⟨b, here, holds⟩, later⟩ := List.forall_mem_cons.mp each
    rw [List.filterMap_cons_some here]
    exact .cons holds (ih later)

theorem aligned_result {startNodes : List GraphNodeRef} {found : Connected}
    (exact : ConnectExact db startNodes connect found) (inside : ∀ n ∈ p.nodes, n ∈ found.nodes)
    (paths : p.paths = found.paths) (defaultLimit : Nat) (ops : List GraphOp) :
    Aligned found (p.result defaultLimit ops) := by
  refine forall₂_filterMap fun n member => ?_
  have known : n ∈ found.nodes := by
    unfold Pipeline.result at member
    simp only at member
    split_ifs at member
    · exact inside n (List.mem_of_mem_take member)
    · exact inside n member
  obtain ⟨path, -, -, -, here, -⟩ := exact.path n known
  exact ⟨path, by rw [paths, here], known, here⟩

end Narrowing

/-- **Following edges is exact**: unless types are named that do not exist, a `connect` reports
exactly the nodes that some walk asked for leads to, each with a path of the first of these walks,
and after any operations that narrow the working set each path is still reported with its
node. -/
theorem connect_exact (consistent : Consistent db) (startNodes : List GraphNodeRef)
    (connect : ConnectOp) :
    ((∃ found, executeConnect db startNodes connect = .ok found) ↔
      startNodes = [] ∨ connect.TypesKnown) ∧
    (∀ found, executeConnect db startNodes connect = .ok found →
      ConnectExact db startNodes connect found) ∧
    ∀ (similar : SemanticFilterOp → Except LainError (GraphNode → Bool)) (defaultLimit : Nat)
      (before after : List GraphOp) (p : Pipeline) (result : QueryResult),
      before.foldlM (applyOp db similar) {} = .ok p → p.nodes = startNodes →
      (∀ op ∈ after, op.Narrows) →
      executeOps db similar defaultLimit (before ++ .connect connect :: after) = .ok result →
        ∃ found, executeConnect db startNodes connect = .ok found ∧ Aligned found result := by
  obtain ⟨exact, answers⟩ := executeConnect_spec startNodes connect consistent
  refine ⟨answers, exact, fun similar defaultLimit before after p result ran nodes narrow run => ?_⟩
  subst nodes
  unfold executeOps at run
  rw [List.foldlM_append, ran] at run
  obtain ⟨q, folded, reported⟩ := exists_of_bind_eq_ok run
  obtain rfl := Except.ok.inj reported
  change (GraphOp.connect connect :: after).foldlM (applyOp db similar) p = .ok q at folded
  rw [List.foldlM_cons] at folded
  obtain ⟨middle, connected, rest⟩ := exists_of_bind_eq_ok folded
  obtain ⟨found, answered, connected⟩ := exists_of_bind_eq_ok connected
  obtain rfl := Except.ok.inj connected
  obtain ⟨subset, paths⟩ := foldlM_narrows narrow rest
  exact ⟨found, answered, aligned_result (exact found answered) subset paths _ _⟩

/-- The graph after a mutator. -/
def mutated (db : GraphDatabase) (command : Command) : GraphDatabase :=
  (command.call db).outcome.state.getD db

theorem consistent_mutated (commands : List Command) :
    Consistent (commands.foldl mutated {}) := by
  have run : ∀ (commands : List Command) (db : GraphDatabase), Consistent db →
      Consistent (commands.foldl mutated db) := by
    intro commands
    induction commands with
    | nil => exact fun _ consistent => consistent
    | cons command rest ih =>
      intro db consistent
      obtain ⟨db', ended, steps, -⟩ := (command.refines consistent).state
      refine ih _ ?_
      unfold mutated
      rw [ended]
      exact steps.consistent
  exact run commands {} consistent_empty

def callCycle : List Command :=
  [.insertNodesBatch [{ id := "a", nodeType := .function, name := "a", path := "a.rs" },
      { id := "b", nodeType := .function, name := "b", path := "b.rs" },
      { id := "c", nodeType := .function, name := "c", path := "c.rs" }],
    .insertEdgesBatch [{ edgeType := .calls, sourceId := "a", targetId := "b" },
      { edgeType := .calls, sourceId := "b", targetId := "c" },
      { edgeType := .calls, sourceId := "c", targetId := "a" },
      { edgeType := .calls, sourceId := "a", targetId := "c" }]]

theorem connect_exact_callCycle :
    ∃ found, executeConnect (callCycle.foldl mutated {}) [⟨"a", "Function", "a", none⟩]
        { edge := .single "Calls", direction := .both, depth := .range 1 2 } = .ok found ∧
      found.nodes.map GraphNodeRef.id = ["c", "b"] ∧
      ConnectExact (callCycle.foldl mutated {}) [⟨"a", "Function", "a", none⟩]
        { edge := .single "Calls", direction := .both, depth := .range 1 2 } found := by
  have listed : (executeConnect (callCycle.foldl mutated {}) [⟨"a", "Function", "a", none⟩]
      { edge := .single "Calls", direction := .both, depth := .range 1 2 }).toOption.map
      (fun found => found.nodes.map GraphNodeRef.id) = some ["c", "b"] := by
    decide +kernel
  obtain ⟨found, some, nodes⟩ := Option.map_eq_some_iff.mp listed
  cases answered : executeConnect (callCycle.foldl mutated {}) [⟨"a", "Function", "a", none⟩]
      { edge := .single "Calls", direction := .both, depth := .range 1 2 } with
  | error reason =>
    rw [answered] at some
    cases some
  | ok found' =>
    rw [answered] at some
    obtain rfl := Option.some.inj some
    exact ⟨found', rfl, nodes,
      (connect_exact (consistent_mutated callCycle) _ _).2.1 found' answered⟩

/-! ## Whole queries -/

section Whole

variable {similar : SemanticFilterOp → Except LainError (GraphNode → Bool)} {p q : Pipeline}

/-- Every node is in just one group, under its key, and no group is empty. -/
structure Partitions (groups : List QueryGroup) (groupBy : GroupBy) (nodes : List GraphNodeRef) :
    Prop where
  keys : (groups.map QueryGroup.key).Nodup
  filled : ∀ g ∈ groups, g.nodes ≠ [] ∧ g.count = g.nodes.length
  members : ∀ g ∈ groups, ∀ r, r ∈ g.nodes ↔ r ∈ nodes ∧ groupBy.key r = g.key
  cover : ∀ r ∈ nodes, ∃ g ∈ groups, g.key = groupBy.key r

structure Refs (db : GraphDatabase) (nodes : List GraphNodeRef) : Prop where
  stored : ∀ r ∈ nodes, IsRef db r
  once : (nodes.map GraphNodeRef.id).Nodup

/-- Some path over edges of the graph leads to the node. -/
def EndsAt (db : GraphDatabase) (r : GraphNodeRef) (path : GraphPath) : Prop :=
  ∃ edges direction seed hops, Leads db edges direction path seed r.id hops

/-- The working set is of nodes of the graph, with a path to each or to none, and its groups share
out some such set. -/
structure Sound (db : GraphDatabase) (p : Pipeline) : Prop where
  refs : Refs db p.nodes
  paths : (∀ id, p.paths id = none) ∨
    ∀ r ∈ p.nodes, ∃ path, p.paths r.id = some path ∧ EndsAt db r path
  groups : ∀ groups ∈ p.groups, ∃ groupBy nodes, Refs db nodes ∧ Partitions groups groupBy nodes

/-- What tells the edges of a result apart. -/
def edgeKey (e : GraphEdgeRef) : String ×ₗ String ×ₗ String :=
  toLex (e.source, toLex (e.target, e.edgeType))

/-- **What a query answers**: nodes of the graph, none twice, with no paths or with a path to each
in its place; the edges of these paths, no others, each once and in order; cut to the default limit
just when the query asks for no limit and more was found. -/
structure Answers (db : GraphDatabase) (defaultLimit : Nat) (ops : List GraphOp)
    (result : QueryResult) : Prop where
  refs : Refs db result.nodes
  count : result.count = result.nodes.length
  paths : result.paths = [] ∨ List.Forall₂ (EndsAt db) result.nodes result.paths
  edges : ∀ e, e ∈ result.edges ↔ ∃ path ∈ result.paths, e ∈ path.edges
  edgesOrdered : result.edges.Pairwise fun a b => edgeKey a < edgeKey b
  edgesStored : ∀ e ∈ result.edges, ∃ edge ∈ db.edges, edgeRef edge = e
  cut : result.truncated = true → asksForALimit ops = false ∧ result.count = defaultLimit ∧
    ∃ all ∈ result.matchedBeforeLimit, defaultLimit < all
  whole : result.truncated = false → result.matchedBeforeLimit = none ∧
    (asksForALimit ops = false → 0 < defaultLimit → result.count ≤ defaultLimit)
  groups : ∀ groups ∈ result.groups, ∃ groupBy nodes,
    Refs db nodes ∧ Partitions groups groupBy nodes

theorem nodup_nodeWeights (consistent : Consistent db) :
    (db.nodeWeights.map GraphNode.id).Nodup := by
  unfold nodeWeights
  rw [List.map_map, List.nodup_iff_pairwise_ne, List.pairwise_map]
  refine (List.pairwise_map.mp db.graph.nodeReferences_pairwise).imp_of_mem ?_
  rintro ⟨i, n⟩ ⟨j, m⟩ first second less same
  have here := consistent.lookup_of_live (StableGraph.mem_nodeReferences.mp first)
  have there := consistent.lookup_of_live (StableGraph.mem_nodeReferences.mp second)
  change n.id = m.id at same
  rw [same] at here
  exact less.ne (Option.some.inj (here.symm.trans there))

theorem Refs.subperm {nodes kept : List GraphNodeRef} (refs : Refs db nodes)
    (fewer : kept.Subperm nodes) : Refs db kept := by
  refine ⟨fun r member => refs.stored r (fewer.subset member), ?_⟩
  obtain ⟨listed, perm, sublist⟩ := fewer
  exact (perm.map _).nodup_iff.mp (refs.once.sublist (sublist.map _))

theorem partitions_applyGroup (nodes : List GraphNodeRef) (groupBy : GroupBy) :
    Partitions (applyGroup nodes groupBy) groupBy nodes := by
  have keys : (applyGroup nodes groupBy).map QueryGroup.key = (nodes.map groupBy.key).dedup := by
    unfold applyGroup
    rw [List.map_map]
    exact List.map_id _
  have shape : ∀ g ∈ applyGroup nodes groupBy, g.key ∈ nodes.map groupBy.key ∧
      g.nodes = (nodes.filter fun n => decide (groupBy.key n = g.key)) ∧
        g.count = g.nodes.length := by
    intro g member
    obtain ⟨key, listed, rfl⟩ := List.mem_map.mp member
    exact ⟨List.mem_dedup.mp listed, rfl, rfl⟩
  refine ⟨keys ▸ List.nodup_dedup _, fun g member => ?_, fun g member r => ?_, fun r member => ?_⟩
  · obtain ⟨listed, members, count⟩ := shape g member
    obtain ⟨r, inside, same⟩ := List.mem_map.mp listed
    refine ⟨fun empty => ?_, count⟩
    have kept : r ∈ g.nodes := by
      rw [members]
      exact List.mem_filter.mpr ⟨inside, decide_eq_true same⟩
    rw [empty] at kept
    cases kept
  · rw [(shape g member).2.1, List.mem_filter, decide_eq_true_eq]
  · have listed : groupBy.key r ∈ (applyGroup nodes groupBy).map QueryGroup.key := by
      rw [keys, List.mem_dedup]
      exact List.mem_map_of_mem member
    obtain ⟨g, inside, same⟩ := List.mem_map.mp listed
    exact ⟨g, inside, same⟩

theorem refs_of_executeFind (consistent : Consistent db) {find : FindOp}
    {nodes : List GraphNodeRef} (run : executeFind db find = .ok nodes) : Refs db nodes := by
  obtain ⟨_, -, run⟩ := exists_of_bind_eq_ok run
  obtain rfl := Except.ok.inj run
  unfold queryNodes
  constructor
  · intro r member
    obtain ⟨node, inside, rfl⟩ := List.mem_map.mp member
    have weight := List.mem_of_mem_filter (List.mem_of_mem_filter inside)
    exact ⟨node, (mem_nodeWeights consistent).mp weight, rfl⟩
  · rw [List.map_map]
    exact (nodup_nodeWeights consistent).sublist
      ((List.filter_sublist.trans List.filter_sublist).map _)

theorem subperm_of_narrows {op : GraphOp} (narrows : op.Narrows)
    (run : applyOp db similar p op = .ok q) : q.nodes.Subperm p.nodes := by
  cases op with
  | find => exact narrows.elim
  | connect => exact narrows.elim
  | filter =>
    obtain rfl := Except.ok.inj run
    exact List.filter_sublist.subperm
  | semanticFilter sem =>
    obtain ⟨nodes, kept, run⟩ := exists_of_bind_eq_ok run
    obtain rfl := Except.ok.inj run
    unfold applySemanticFilter at kept
    split_ifs at kept with empty
    · obtain rfl := Except.ok.inj kept
      exact List.Subperm.refl _
    · obtain ⟨close, -, kept⟩ := exists_of_bind_eq_ok kept
      obtain rfl := Except.ok.inj kept
      exact List.filter_sublist.subperm
  | group =>
    obtain rfl := Except.ok.inj run
    exact List.Subperm.refl _
  | sort sort =>
    obtain rfl := Except.ok.inj run
    change (applySort p.nodes sort).Subperm p.nodes
    unfold applySort
    split <;> exact (perm_sortByKey _ _).subperm
  | limit =>
    obtain rfl := Except.ok.inj run
    exact ((List.take_sublist _ _).trans (List.drop_sublist _ _)).subperm

theorem Sound.applyOp (consistent : Consistent db) (sound : Sound db p) {op : GraphOp}
    (run : applyOp db similar p op = .ok q) : Sound db q := by
  have narrowed : op.Narrows → q.groups = p.groups ∨ (∃ groupBy, q.groups =
      some (applyGroup p.nodes groupBy)) → Sound db q := by
    intro narrows groups
    obtain ⟨subset, paths⟩ := applyOp_narrows narrows run
    refine ⟨sound.refs.subperm (subperm_of_narrows narrows run), ?_, ?_⟩
    · rw [paths]
      exact sound.paths.imp_right fun each r member => each r (subset r member)
    · rcases groups with same | ⟨groupBy, same⟩
      · rw [same]
        exact sound.groups
      · rw [same]
        rintro _ ⟨rfl⟩
        exact ⟨groupBy, p.nodes, sound.refs, partitions_applyGroup _ _⟩
  cases op with
  | find find =>
    obtain ⟨nodes, found, run⟩ := exists_of_bind_eq_ok run
    obtain rfl := Except.ok.inj run
    exact ⟨refs_of_executeFind consistent found, Or.inl fun _ => rfl, sound.groups⟩
  | connect connect =>
    obtain ⟨found, connected, run⟩ := exists_of_bind_eq_ok run
    obtain rfl := Except.ok.inj run
    have exact := (executeConnect_spec p.nodes connect consistent).1 found connected
    refine ⟨⟨exact.refs, exact.once⟩, Or.inr fun r member => ?_, sound.groups⟩
    obtain ⟨path, seed, direction, hops, here, -, leads, -⟩ := exact.path r member
    exact ⟨path, here, connect.edge, direction, seed, hops, leads⟩
  | filter => exact narrowed trivial (Or.inl (by obtain rfl := Except.ok.inj run; rfl))
  | semanticFilter =>
    refine narrowed trivial (Or.inl ?_)
    obtain ⟨nodes, kept, run⟩ := exists_of_bind_eq_ok run
    obtain rfl := Except.ok.inj run
    rfl
  | group groupBy =>
    exact narrowed trivial (Or.inr ⟨groupBy, by obtain rfl := Except.ok.inj run; rfl⟩)
  | sort => exact narrowed trivial (Or.inl (by obtain rfl := Except.ok.inj run; rfl))
  | limit => exact narrowed trivial (Or.inl (by obtain rfl := Except.ok.inj run; rfl))

theorem Sound.run (consistent : Consistent db) {ops : List GraphOp} :
    ∀ {p : Pipeline}, Sound db p → ops.foldlM (Query.applyOp db similar) p = .ok q →
      Sound db q := by
  induction ops with
  | nil =>
    intro p sound run
    obtain rfl := Except.ok.inj run
    exact sound
  | cons op rest ih =>
    intro p sound run
    rw [List.foldlM_cons] at run
    obtain ⟨middle, one, run⟩ := exists_of_bind_eq_ok run
    exact ih (sound.applyOp consistent one) run

/-! ### The report -/

theorem edgeRef_of_edgeKey {edge edge' : GraphEdge}
    (same : edgeKey (edgeRef edge) = edgeKey (edgeRef edge')) : edgeRef edge = edgeRef edge' := by
  obtain ⟨source, same⟩ := Prod.mk.inj (toLex_inj.mp same)
  obtain ⟨target, edgeType⟩ := Prod.mk.inj (toLex_inj.mp same)
  change edge.sourceId = edge'.sourceId at source
  change edge.targetId = edge'.targetId at target
  change edge.edgeType.debug = edge'.edgeType.debug at edgeType
  unfold edgeRef
  rw [source, target, edgeType]

theorem edgeUnion_spec (paths : List GraphPath) :
    (edgeUnion paths).Pairwise (fun a b => edgeKey a < edgeKey b) ∧
      ∀ e, e ∈ edgeUnion paths ↔
        ((paths.flatMap GraphPath.edges).find? fun e' => decide (edgeKey e' = edgeKey e)) =
          some e := by
  have entry : ∀ k e, (k, e) ∈ ((paths.flatMap GraphPath.edges).foldl
      (fun (m : SortedMap (String ×ₗ String ×ₗ String) GraphEdgeRef) edge =>
        m.insertNew (edgeKey edge) edge) ∅).entries ↔
      ((paths.flatMap GraphPath.edges).find? fun e' => decide (edgeKey e' = k)) = some e := by
    intro k e
    rw [SortedMap.mem_entries]
    have kept := SortedMap.get?_foldl_insertNew (fun e => some (edgeKey e))
      (paths.flatMap GraphPath.edges) k
    simp only [Option.some.injEq] at kept
    rw [kept]
  have keyed : ∀ k e, ((paths.flatMap GraphPath.edges).find? fun e' => decide (edgeKey e' = k)) =
      some e → edgeKey e = k := fun k e found => by simpa using List.find?_some found
  unfold edgeUnion
  change ((((paths.flatMap GraphPath.edges).foldl
      (fun (m : SortedMap (String ×ₗ String ×ₗ String) GraphEdgeRef) edge =>
        m.insertNew (edgeKey edge) edge) ∅).entries).map Prod.snd).Pairwise _ ∧ ∀ e, e ∈
    (((paths.flatMap GraphPath.edges).foldl
      (fun (m : SortedMap (String ×ₗ String ×ₗ String) GraphEdgeRef) edge =>
        m.insertNew (edgeKey edge) edge) ∅).entries).map Prod.snd ↔ _
  generalize sorted : (paths.flatMap GraphPath.edges).foldl
    (fun (m : SortedMap (String ×ₗ String ×ₗ String) GraphEdgeRef) edge =>
      m.insertNew (edgeKey edge) edge) ∅ = union at entry
  constructor
  · rw [List.pairwise_map]
    refine union.sorted.imp_of_mem fun {a b} first second before => ?_
    rw [keyed a.1 a.2 ((entry a.1 a.2).mp first), keyed b.1 b.2 ((entry b.1 b.2).mp second)]
    exact before
  · intro e
    constructor
    · intro member
      obtain ⟨⟨k, _⟩, inside, rfl⟩ := List.mem_map.mp member
      have found := (entry k _).mp inside
      rwa [keyed k _ found]
    · exact fun found => List.mem_map.mpr ⟨(edgeKey e, e), (entry _ e).mpr found, rfl⟩

theorem stored_of_chain {edges : EdgeSelector} {direction : PetDirection} {ids : List String}
    {refs : List GraphEdgeRef} (chain : Chain db edges direction ids refs) :
    ∀ e ∈ refs, ∃ edge ∈ db.edges, edgeRef edge = e := by
  induction refs generalizing ids with
  | nil => exact fun _ member => absurd member List.not_mem_nil
  | cons ref refs ih =>
    match ids, chain with
    | u :: v :: rest, ⟨⟨edge, follows, same⟩, later⟩ =>
      intro e member
      rcases List.mem_cons.mp member with rfl | member
      · exact ⟨edge, follows.stored, same⟩
      · exact ih later e member

theorem result_truncated (defaultLimit : Nat) (ops : List GraphOp) :
    (p.result defaultLimit ops).truncated = true ↔
      asksForALimit ops = false ∧ 0 < defaultLimit ∧ defaultLimit < p.nodes.length := by
  unfold Pipeline.result
  simp [and_assoc]

theorem Sound.answers (sound : Sound db p) (defaultLimit : Nat) (ops : List GraphOp) :
    Answers db defaultLimit ops (p.result defaultLimit ops) := by
  have refs : Refs db (p.result defaultLimit ops).nodes := by
    refine sound.refs.subperm ?_
    unfold Pipeline.result
    dsimp only
    split_ifs
    · exact (List.take_sublist _ _).subperm
    · exact List.Subperm.refl _
  have inside : ∀ r ∈ (p.result defaultLimit ops).nodes, r ∈ p.nodes := by
    unfold Pipeline.result
    dsimp only
    intro r member
    split_ifs at member
    · exact List.mem_of_mem_take member
    · exact member
  have paths : (p.result defaultLimit ops).paths = [] ∨
      List.Forall₂ (EndsAt db) (p.result defaultLimit ops).nodes
        (p.result defaultLimit ops).paths := by
    rcases sound.paths with none | each
    · refine Or.inl (List.filterMap_eq_nil_iff.mpr fun r _ => none r.id)
    · refine Or.inr (forall₂_filterMap fun r member => ?_)
      obtain ⟨path, here, ends⟩ := each r (inside r member)
      exact ⟨path, here, ends⟩
  have stored : ∀ path ∈ (p.result defaultLimit ops).paths, ∀ e ∈ path.edges,
      ∃ edge ∈ db.edges, edgeRef edge = e := by
    intro path member
    obtain ⟨r, reported, here⟩ := List.mem_filterMap.mp member
    rcases sound.paths with none | each
    · rw [none] at here
      cases here
    · obtain ⟨_, same, edges, direction, seed, hops, leads⟩ := each r (inside r reported)
      obtain rfl := Option.some.inj (same.symm.trans here)
      exact stored_of_chain leads.chain
  obtain ⟨ordered, members⟩ := edgeUnion_spec (p.result defaultLimit ops).paths
  have first : ∀ e, e ∈ (p.result defaultLimit ops).edges ↔
      ∃ path ∈ (p.result defaultLimit ops).paths, e ∈ path.edges := by
    intro e
    change e ∈ edgeUnion (p.result defaultLimit ops).paths ↔ _
    rw [members, ← List.mem_flatMap]
    constructor
    · exact List.mem_of_find?_eq_some
    · intro listed
      obtain ⟨e', found⟩ := Option.isSome_iff_exists.mp
        (List.find?_isSome (p := fun e' => decide (edgeKey e' = edgeKey e)) |>.mpr
          ⟨e, listed, decide_eq_true rfl⟩)
      have same : edgeKey e' = edgeKey e := by simpa using List.find?_some found
      obtain ⟨path, member, on⟩ := List.mem_flatMap.mp listed
      obtain ⟨path', member', on'⟩ := List.mem_flatMap.mp (List.mem_of_find?_eq_some found)
      obtain ⟨edge, -, rfl⟩ := stored path member e on
      obtain ⟨edge', -, rfl⟩ := stored path' member' e' on'
      rw [found, edgeRef_of_edgeKey same]
  refine ⟨refs, rfl, paths, first, ordered, fun e member => ?_, fun cut => ?_, fun whole => ?_,
    sound.groups⟩
  · obtain ⟨path, reported, on⟩ := (first e).mp member
    exact stored path reported e on
  · obtain ⟨unasked, -, beyond⟩ := (result_truncated defaultLimit ops).mp cut
    refine ⟨unasked, ?_, p.nodes.length, if_pos cut, beyond⟩
    change (if (p.result defaultLimit ops).truncated then p.nodes.take defaultLimit
      else p.nodes).length = defaultLimit
    rw [if_pos cut]
    exact List.length_take_of_le beyond.le
  · have within : ¬ (p.result defaultLimit ops).truncated = true := by simp [whole]
    refine ⟨if_neg within, fun unasked positive => ?_⟩
    change (if (p.result defaultLimit ops).truncated then p.nodes.take defaultLimit
      else p.nodes).length ≤ defaultLimit
    rw [if_neg within]
    by_contra beyond
    exact within ((result_truncated defaultLimit ops).mpr ⟨unasked, positive, not_le.mp beyond⟩)

end Whole

end Lain.Query
