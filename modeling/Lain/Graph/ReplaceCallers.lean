import Mathlib
import Lain.Graph.ReplaceEffects

/-!
# When a re-scan keeps the callers

A re-scan visits its paths in order, so what the scan brought for an earlier
path may sit in the slots of a later one.
-/

namespace Lain.Graph

open Foundation GraphDatabase GraphDatabase.Replacement Replacement

def passOrder (paths : List String) : List String :=
  paths.dedup.mergeSort fun a b => decide (a ≤ b)

/-- The paths a re-scan visits before one of its paths. -/
def before (paths : List String) (path : String) : List String :=
  (passOrder paths).takeWhile fun p => decide (p ≠ path)

def onwards (paths : List String) (path : String) : List String :=
  (passOrder paths).dropWhile fun p => decide (p ≠ path)

def broughtAt (nodes : List GraphNode) (path id : String) : Option GraphNode :=
  (nodes.filter fun node => decide (node.path = path)).find? fun node => decide (node.id = id)

def brought (nodes : List GraphNode) (visited : List String) (id : String) : Option GraphNode :=
  visited.foldl (fun last path => (broughtAt nodes path id).or last) none

def foundAs (paths : List String) (nodes : List GraphNode) (n : GraphNode) : GraphNode :=
  (brought nodes (before paths n.path) n.id).getD n

def IsDropped (paths : List String) (nodes : List GraphNode) (n : GraphNode) : Prop :=
  n.path ∈ paths ∧ (foundAs paths nodes n).nodeType ≠ .namespace

def Returns (paths : List String) (nodes : List GraphNode) (n : GraphNode) : Prop :=
  ∃ m ∈ nodes, m.id = n.id ∧ m.path ∈ onwards paths n.path

/-- The callers of a dropped node come back with it: their own nodes were not refreshed
before, and their edges of one type do not differ. -/
def CallersSeparate (db : GraphDatabase) (paths : List String) (nodes : List GraphNode) : Prop :=
  ∀ a ∈ db.graph.arcs, ∀ s t, db.graph.nodeWeight a.source = some s →
    db.graph.nodeWeight a.target = some t → s.path ∉ paths →
    IsDropped paths nodes t → Returns paths nodes t →
      brought nodes (before paths t.path) s.id = none ∧
        ∀ a' ∈ db.graph.arcs, a'.source = a.source → a'.target = a.target →
          a'.weight.edgeType = a.weight.edgeType → a'.weight = a.weight

def isOutside (db : GraphDatabase) (paths : List String) (a : Arc GraphEdge) : Bool :=
  match db.graph.nodeWeight a.source, db.graph.nodeWeight a.target with
  | some s, some t => !paths.contains s.path && !paths.contains t.path
  | _, _ => false

/-- What a re-scan owes the files outside it. -/
structure KeepsCallers (db : GraphDatabase) (paths : List String) (after : GraphDatabase) :
    Prop where
  /-- An edge from outside stays as it is while its target is there. -/
  incoming : ∀ a ∈ db.graph.arcs, ∀ s, db.graph.nodeWeight a.source = some s →
    s.path ∉ paths → after.hasNode a.weight.targetId = true → a.weight ∈ after.edges
  /-- The edges between nodes outside are the same. -/
  outside : after.graph.arcs.filter (isOutside db paths) =
    db.graph.arcs.filter (isOutside db paths)
  /-- No edge names an id that went away. -/
  dangling : ∀ id, db.hasNode id = true → after.hasNode id = false →
    ∀ edge ∈ after.edges, edge.sourceId ≠ id ∧ edge.targetId ≠ id

/-! ### The order of a pass -/

theorem mem_passOrder {paths : List String} {p : String} : p ∈ passOrder paths ↔ p ∈ paths := by
  unfold passOrder
  rw [List.mem_mergeSort, List.mem_dedup]

theorem passOrder_nodup (paths : List String) : (passOrder paths).Nodup :=
  (List.mergeSort_perm _ _).nodup_iff.mpr (List.nodup_dedup paths)

theorem passOrder_split {paths visited todo : List String} {q : String}
    (split : passOrder paths = visited ++ q :: todo) :
    before paths q = visited ∧ onwards paths q = q :: todo ∧
      (∀ p ∈ visited, p ≠ q ∧ q ∈ onwards paths p) ∧ ∀ p ∈ visited, p ∉ q :: todo := by
  have nodup := passOrder_nodup paths
  rw [split] at nodup
  obtain ⟨nodupVisited, _, apart⟩ := List.nodup_append.mp nodup
  have disjoint : ∀ p ∈ visited, p ∉ q :: todo := fun p early late => apart p early p late rfl
  have other : ∀ p ∈ visited, p ≠ q := fun p early same =>
    disjoint p early (same ▸ List.mem_cons_self)
  refine ⟨?_, ?_, fun p early => ⟨other p early, ?_⟩, disjoint⟩
  · unfold before
    rw [split, List.takeWhile_append_of_pos fun p early => by simpa using other p early]
    simp
  · unfold onwards
    rw [split, List.dropWhile_append_of_pos fun p early => by simpa using other p early]
    simp
  · unfold onwards
    rw [split]
    obtain ⟨left, right, cut⟩ := List.append_of_mem early
    have fresh : ∀ p' ∈ left, p' ≠ p := by
      rintro p' inLeft rfl
      rw [cut] at nodupVisited
      exact (List.nodup_append.mp nodupVisited).2.2 p' inLeft p' List.mem_cons_self rfl
    rw [cut, List.append_assoc,
      List.dropWhile_append_of_pos fun p' inLeft => by simpa using fresh p' inLeft]
    simp

theorem brought_append (nodes : List GraphNode) (visited : List String) (q id : String) :
    brought nodes (visited ++ [q]) id =
      (broughtAt nodes q id).or (brought nodes visited id) := by
  simp [brought, List.foldl_append]

theorem broughtAt_spec {nodes : List GraphNode} {path id : String} {m : GraphNode}
    (found : broughtAt nodes path id = some m) : m ∈ nodes ∧ m.path = path ∧ m.id = id := by
  have member := List.mem_of_find?_eq_some found
  rw [List.mem_filter, decide_eq_true_eq] at member
  exact ⟨member.1, member.2, by simpa using List.find?_some found⟩

theorem brought_spec {nodes : List GraphNode} (visited : List String) {id : String}
    {m : GraphNode} : brought nodes visited id = some m → m.path ∈ visited ∧ m.id = id := by
  induction visited using List.reverseRecOn with
  | nil => exact fun found => by cases found
  | append_singleton rest q ih =>
    intro found
    rw [brought_append, Option.or_eq_some_iff] at found
    rcases found with last | ⟨_, earlier⟩
    · obtain ⟨_, path, named⟩ := broughtAt_spec last
      exact ⟨by simp [path], named⟩
    · obtain ⟨path, named⟩ := ih earlier
      exact ⟨List.mem_append_left _ path, named⟩

/-! ### The visited paths -/

def gone (db : GraphDatabase) (paths : List String) (nodes : List GraphNode)
    (visited : List String) (i : Nat) : Bool :=
  match db.graph.nodeWeight i with
  | some n => decide (n.path ∈ visited) && decide ((foundAs paths nodes n).nodeType ≠ .namespace)
  | none => false

def SeenOutside (db : GraphDatabase) (paths : List String) (nodes : List GraphNode)
    (a : Arc GraphEdge) : Prop :=
  ∃ s t, db.graph.nodeWeight a.source = some s ∧ db.graph.nodeWeight a.target = some t ∧
    s.path ∉ paths ∧ brought nodes (before paths t.path) s.id = none

structure Passed (db : GraphDatabase) (paths : List String) (nodes : List GraphNode)
    (visited : List String) (r : GraphDatabase.Replacement) : Prop where
  located : Replacement.Located r
  /-- The slots of other paths hold what the visited paths brought under their ids. -/
  pending : ∀ i n, db.graph.nodeWeight i = some n → n.path ∉ visited →
    r.graph.nodeWeight i = some ((brought nodes visited n.id).getD n)
  /-- What is left of a visited path is inside the pass. -/
  kept : ∀ i n, db.graph.nodeWeight i = some n → n.path ∈ visited →
    gone db paths nodes visited i = false →
    ∃ m, r.graph.nodeWeight i = some m ∧ m.id = n.id ∧ m.path ∈ paths
  arcs : r.graph.arcs = db.graph.arcs.filter fun a =>
    !gone db paths nodes visited a.source && !gone db paths nodes visited a.target
  noted : ∀ edge, edge ∈ r.preservedIncoming ↔
    ∃ a ∈ db.graph.arcs, a.weight = edge ∧ gone db paths nodes visited a.target = true ∧
      SeenOutside db paths nodes a
  /-- A dropped id is there again when a path visited since brought it. -/
  returned : ∀ i n, db.graph.nodeWeight i = some n → gone db paths nodes visited i = true →
    ((r.indexMap.lookup n.id).isSome = true ↔
      ∃ m ∈ nodes, m.id = n.id ∧ m.path ∈ visited ∧ m.path ∈ onwards paths n.path)

variable {db : GraphDatabase} {paths : List String} {nodes : List GraphNode}

theorem gone_of_live {visited : List String} {i : Nat} {n : GraphNode}
    (live : db.graph.nodeWeight i = some n) :
    gone db paths nodes visited i = true ↔
      n.path ∈ visited ∧ (foundAs paths nodes n).nodeType ≠ .namespace := by
  simp [gone, live]

theorem live_of_gone {visited : List String} {i : Nat}
    (lost : gone db paths nodes visited i = true) : ∃ n, db.graph.nodeWeight i = some n := by
  unfold gone at lost
  split at lost
  next n live => exact ⟨n, live⟩
  next => cases lost

theorem Passed.start (consistent : Consistent db) :
    Passed db paths nodes []
      { graph := db.graph, indexMap := db.indexMap, nameIndex := db.nameIndex } where
  located := consistent.ids
  pending := fun _ _ live _ => live
  kept := fun _ _ _ none => by cases none
  arcs := by
    refine (List.filter_eq_self.mpr fun a member => ?_).symm
    obtain ⟨s, source⟩ := StableGraph.arc_source_live member
    obtain ⟨t, target⟩ := StableGraph.arc_target_live member
    simp [gone, source, target]
  noted := by
    intro edge
    constructor
    · exact fun member => by cases member
    · rintro ⟨a, _, _, lost, _⟩
      obtain ⟨n, live⟩ := live_of_gone lost
      cases ((gone_of_live live).mp lost).1
  returned := by
    intro i n live lost
    cases ((gone_of_live live).mp lost).1

/-! ### One more path -/

namespace Passed

variable {visited todo : List String} {q : String} {r : GraphDatabase.Replacement}

theorem holds (passed : Passed db paths nodes visited r)
    (split : passOrder paths = visited ++ q :: todo)
    (indexed : db.pathIndex.Indexes (slotKey db.graph GraphNode.path)) {i : Nat}
    (listed : i ∈ db.pathIndex.bucket q) :
    ∃ n, db.graph.nodeWeight i = some n ∧ n.path = q ∧
      r.graph.nodeWeight i = some (foundAs paths nodes n) ∧
      (foundAs paths nodes n).path ∈ paths := by
  obtain ⟨n, live, rfl⟩ := slotKey_eq_some.mp (((indexed q).2 i).mp listed)
  obtain ⟨sofar, _, apart, _⟩ := passOrder_split split
  have unvisited : n.path ∉ visited := fun early => (apart n.path early).1 rfl
  have inside : ∀ p ∈ n.path :: visited, p ∈ paths := by
    intro p member
    refine mem_passOrder.mp ?_
    rw [split]
    rcases List.mem_cons.mp member with rfl | early
    · simp
    · exact List.mem_append_left _ early
  refine ⟨n, live, rfl, ?_, ?_⟩
  · rw [foundAs, sofar]
    exact passed.pending i n live unvisited
  · rw [foundAs, sofar]
    cases found : brought nodes visited n.id with
    | none => exact inside n.path List.mem_cons_self
    | some m => exact inside m.path (List.mem_cons_of_mem _ (brought_spec visited found).1)

theorem mem_droppable (passed : Passed db paths nodes visited r)
    (split : passOrder paths = visited ++ q :: todo)
    (indexed : db.pathIndex.Indexes (slotKey db.graph GraphNode.path)) {i : Nat} :
    i ∈ droppable r.graph (db.pathIndex.bucket q) ↔
      ∃ n, db.graph.nodeWeight i = some n ∧ n.path = q ∧
        (foundAs paths nodes n).nodeType ≠ .namespace := by
  unfold droppable
  rw [List.mem_filter]
  constructor
  · rintro ⟨listed, dropped⟩
    obtain ⟨n, live, path, now, _⟩ := passed.holds split indexed listed
    exact ⟨n, live, path, by simpa [now] using dropped⟩
  · rintro ⟨n, live, path, dropped⟩
    have listed := ((indexed q).2 i).mpr (slotKey_eq_some.mpr ⟨n, live, path⟩)
    obtain ⟨n', live', _, now, _⟩ := passed.holds split indexed listed
    obtain rfl := Option.some.inj (live.symm.trans live')
    exact ⟨listed, by simpa [now] using dropped⟩

theorem gone_next (passed : Passed db paths nodes visited r)
    (split : passOrder paths = visited ++ q :: todo)
    (indexed : db.pathIndex.Indexes (slotKey db.graph GraphNode.path)) (i : Nat) :
    gone db paths nodes (visited ++ [q]) i = true ↔
      gone db paths nodes visited i = true ∨
        i ∈ droppable r.graph (db.pathIndex.bucket q) := by
  rw [passed.mem_droppable split indexed]
  cases live : db.graph.nodeWeight i with
  | none => simp [gone, live]
  | some n =>
    rw [gone_of_live live, gone_of_live live, List.mem_append, List.mem_singleton]
    simp only [Option.some.injEq, exists_eq_left']
    exact or_and_right

theorem named (passed : Passed db paths nodes visited r) {i : Nat} {n : GraphNode}
    (live : db.graph.nodeWeight i = some n) (there : gone db paths nodes visited i = false) :
    ∃ m, r.graph.nodeWeight i = some m ∧ m.id = n.id := by
  by_cases early : n.path ∈ visited
  · obtain ⟨m, now, same, _⟩ := passed.kept i n live early there
    exact ⟨m, now, same⟩
  · refine ⟨_, passed.pending i n live early, ?_⟩
    cases found : brought nodes visited n.id with
    | none => rfl
    | some m => exact (brought_spec visited found).2

theorem mem_incoming (passed : Passed db paths nodes visited r)
    (split : passOrder paths = visited ++ q :: todo)
    (indexed : db.pathIndex.Indexes (slotKey db.graph GraphNode.path)) {i : Nat}
    (dropped : i ∈ droppable r.graph (db.pathIndex.bucket q)) (edge : GraphEdge) :
    edge ∈ r.incomingFromOutside paths i ↔
      ∃ a ∈ db.graph.arcs, a.weight = edge ∧ a.target = i ∧ SeenOutside db paths nodes a := by
  obtain ⟨t, target, path, _⟩ := (passed.mem_droppable split indexed).mp dropped
  obtain ⟨sofar, _, apart, _⟩ := passOrder_split split
  have inside : ∀ p ∈ visited, p ∈ paths := fun p early =>
    mem_passOrder.mp (by rw [split]; exact List.mem_append_left _ early)
  have targetHere : gone db paths nodes visited i = false := by
    rw [Bool.eq_false_iff]
    intro lost
    exact (apart _ ((gone_of_live target).mp lost).1).1 path
  have seen : ∀ a ∈ db.graph.arcs, a.target = i → (SeenOutside db paths nodes a ↔
      gone db paths nodes visited a.source = false ∧
        ∃ m, r.graph.nodeWeight a.source = some m ∧ m.path ∉ paths) := by
    intro a stored here
    obtain ⟨s, source⟩ := StableGraph.arc_source_live stored
    have only : SeenOutside db paths nodes a ↔
        s.path ∉ paths ∧ brought nodes visited s.id = none := by
      unfold SeenOutside
      rw [source, here, target]
      simp only [Option.some.injEq, exists_and_left, exists_eq_left', path, sofar]
    rw [only]
    constructor
    · rintro ⟨outside, fresh⟩
      have unvisited : s.path ∉ visited := fun early => outside (inside _ early)
      refine ⟨?_, s, ?_, outside⟩
      · rw [Bool.eq_false_iff]
        exact fun lost => unvisited ((gone_of_live source).mp lost).1
      · rw [passed.pending _ s source unvisited, fresh]
        rfl
    · rintro ⟨there, m, now, outside⟩
      by_cases early : s.path ∈ visited
      · obtain ⟨m', now', _, kept⟩ := passed.kept _ s source early there
        obtain rfl := Option.some.inj (now.symm.trans now')
        exact absurd kept outside
      · rw [passed.pending _ s source early] at now
        cases found : brought nodes visited s.id with
        | none =>
          rw [found] at now
          obtain rfl := Option.some.inj now
          exact ⟨outside, rfl⟩
        | some m' =>
          rw [found] at now
          obtain rfl := Option.some.inj now
          exact absurd (inside _ (brought_spec visited found).1) outside
  unfold GraphDatabase.Replacement.incomingFromOutside
  rw [List.mem_reverse, List.mem_map]
  constructor
  · rintro ⟨a, member, rfl⟩
    obtain ⟨stored, noted⟩ := List.mem_filter.mp member
    rw [passed.arcs, List.mem_filter] at stored
    rw [Bool.and_eq_true, decide_eq_true_eq] at noted
    refine ⟨a, stored.1, rfl, noted.1, (seen a stored.1 noted.1).mpr ⟨?_, ?_⟩⟩
    · have both := stored.2
      rw [Bool.and_eq_true, Bool.not_eq_true'] at both
      exact both.1
    · cases now : r.graph.nodeWeight a.source with
      | none => simp [now] at noted
      | some m => exact ⟨m, rfl, by simpa [now] using noted.2⟩
  · rintro ⟨a, stored, rfl, here, outside⟩
    obtain ⟨there, m, now, apart'⟩ := (seen a stored here).mp outside
    refine ⟨a, List.mem_filter.mpr ⟨?_, ?_⟩, rfl⟩
    · rw [passed.arcs, List.mem_filter]
      exact ⟨stored, by simp [there, here, targetHere]⟩
    · simp [here, now, apart']

private theorem phases (passed : Passed db paths nodes visited r)
    (split : passOrder paths = visited ++ q :: todo)
    (indexed : db.pathIndex.Indexes (slotKey db.graph GraphNode.path)) :
    ∃ r₁ : GraphDatabase.Replacement, Located r₁ ∧
      Dropped r.graph r₁.graph (droppable r.graph (db.pathIndex.bucket q)) ∧
      r₁.preservedIncoming = r.preservedIncoming ++
        (droppable r.graph (db.pathIndex.bucket q)).flatMap (r.incomingFromOutside paths) ∧
      Located (replacePath db.pathIndex paths nodes false r q) ∧
      Freshened (firstOfId [] (nodes.filter fun node => decide (node.path = q))) r₁
        (replacePath db.pathIndex paths nodes false r q) := by
  obtain ⟨r₁, kept, drops, located₁, dropped, noted⟩ :=
    dropOld_effect paths (db.pathIndex.bucket q) r [] passed.located (indexed q).1
      fun i listed => by
        obtain ⟨n, _, _, now, inside⟩ := passed.holds split indexed listed
        exact ⟨_, now, inside⟩
  obtain ⟨r₂, fresh, adds, located₂, freshened⟩ :=
    addFresh_effect _ r₁ kept located₁
      (firstOfId_spec (nodes.filter fun node => decide (node.path = q)) []).1
  refine ⟨r₁, located₁, dropped, noted, ?_⟩
  simp only [replacePath, drops, adds]
  exact ⟨located₂, freshened.nodes, freshened.ids, freshened.arcs, freshened.preserved⟩

/-- **Visiting one more path.** -/
theorem step (passed : Passed db paths nodes visited r) (consistent : Consistent db)
    (split : passOrder paths = visited ++ q :: todo)
    (indexed : db.pathIndex.Indexes (slotKey db.graph GraphNode.path)) :
    Passed db paths nodes (visited ++ [q]) (replacePath db.pathIndex paths nodes false r q) := by
  obtain ⟨r₁, located₁, dropped, noted₁, located₂, freshened⟩ := passed.phases split indexed
  obtain ⟨sofar, rest, apart, disjoint⟩ := passOrder_split split
  have qInside : q ∈ paths := mem_passOrder.mp (by rw [split]; simp)
  have search : ∀ id, ((firstOfId [] (nodes.filter fun node => decide (node.path = q))).find?
      fun m => decide (m.id = id)) = broughtAt nodes q id :=
    fun id => (firstOfId_spec _ []).2.2 id (by simp)
  have isFresh : ∀ id, (∃ m ∈ firstOfId [] (nodes.filter fun node => decide (node.path = q)),
      m.id = id) ↔ ∃ m ∈ nodes, m.path = q ∧ m.id = id := by
    intro id
    have found : ∀ l : List GraphNode, (∃ m ∈ l, m.id = id) ↔
        (l.find? fun m => decide (m.id = id)).isSome = true := fun l => by
      simp [List.find?_isSome]
    rw [found, search, broughtAt, ← found]
    simp [and_assoc]
  -- A slot that is not dropped now is overwritten by what the path brings under its id.
  have refreshed : ∀ i m, r.graph.nodeWeight i = some m →
      i ∉ droppable r.graph (db.pathIndex.bucket q) →
      (replacePath db.pathIndex paths nodes false r q).graph.nodeWeight i =
        some ((broughtAt nodes q m.id).getD m) := by
    intro i m now there
    rw [freshened.nodes i m (by rw [dropped.nodes, if_neg there]; exact now), search]
  have goneIff := fun i => passed.gone_next split indexed i
  refine { located := located₂, pending := ?_, kept := ?_, arcs := ?_, noted := ?_,
           returned := ?_ }
  · intro i n live unvisited
    rw [List.mem_append, List.mem_singleton, not_or] at unvisited
    have there : i ∉ droppable r.graph (db.pathIndex.bucket q) := by
      intro member
      obtain ⟨n', live', path, _⟩ := (passed.mem_droppable split indexed).mp member
      obtain rfl := Option.some.inj (live.symm.trans live')
      exact unvisited.2 path
    rw [refreshed i _ (passed.pending i n live unvisited.1) there, brought_append]
    cases found : brought nodes visited n.id with
    | none => simp
    | some m =>
      have same : m.id = n.id := (brought_spec visited found).2
      rw [Option.getD_some, same]
      cases broughtAt nodes q n.id <;> rfl
  · intro i n live visitedNow there
    have both := mt (goneIff i).mpr (by simp [there])
    rw [not_or, Bool.not_eq_true] at both
    obtain ⟨m, now, same, inside⟩ : ∃ m, r.graph.nodeWeight i = some m ∧ m.id = n.id ∧
        m.path ∈ paths := by
      rcases List.mem_append.mp visitedNow with early | isNow
      · exact passed.kept i n live early both.1
      · have listed := ((indexed q).2 i).mpr
          (slotKey_eq_some.mpr ⟨n, live, List.mem_singleton.mp isNow⟩)
        obtain ⟨n', live', _, now, inside⟩ := passed.holds split indexed listed
        obtain rfl := Option.some.inj (live.symm.trans live')
        obtain ⟨m, now', same⟩ := passed.named live both.1
        obtain rfl := Option.some.inj (now.symm.trans now')
        exact ⟨_, now, same, inside⟩
    refine ⟨_, refreshed i m now both.2, ?_⟩
    cases found : broughtAt nodes q m.id with
    | none => exact ⟨same, inside⟩
    | some fresh =>
      obtain ⟨_, path, named⟩ := broughtAt_spec found
      exact ⟨named.trans same, path ▸ qInside⟩
  · rw [freshened.arcs, dropped.arcs, passed.arcs, List.filter_filter]
    refine List.filter_congr fun a _ => ?_
    have sourceIff := goneIff a.source
    have targetIff := goneIff a.target
    rw [Bool.eq_iff_iff]
    simp only [Bool.and_eq_true, decide_eq_true_eq, Bool.not_eq_true', ← Bool.not_eq_true,
      sourceIff, targetIff, not_or]
    tauto
  · intro edge
    rw [freshened.preserved, noted₁, List.mem_append, List.mem_flatMap, passed.noted]
    constructor
    · rintro (⟨a, stored, same, lost, outside⟩ | ⟨i, member, captured⟩)
      · exact ⟨a, stored, same, (goneIff _).mpr (Or.inl lost), outside⟩
      · obtain ⟨a, stored, same, rfl, outside⟩ :=
          (passed.mem_incoming split indexed member edge).mp captured
        exact ⟨a, stored, same, (goneIff _).mpr (Or.inr member), outside⟩
    · rintro ⟨a, stored, same, lost, outside⟩
      rcases (goneIff _).mp lost with early | member
      · exact Or.inl ⟨a, stored, same, early, outside⟩
      · exact Or.inr ⟨a.target, member, (passed.mem_incoming split indexed member edge).mpr
          ⟨a, stored, same, rfl, outside⟩⟩
  · intro i n live lost
    rw [freshened.ids, isFresh]
    have known : ∀ id, (r₁.indexMap.lookup id).isSome = true ↔
        ∃ j, j ∉ droppable r.graph (db.pathIndex.bucket q) ∧ r.indexMap.lookup id = some j := by
      intro id
      have same : ∀ j, r₁.indexMap.lookup id = some j ↔
          j ∉ droppable r.graph (db.pathIndex.bucket q) ∧ r.indexMap.lookup id = some j := by
        intro j
        rw [located₁, passed.located]
        unfold slotKey
        rw [dropped.nodes]
        by_cases member : j ∈ droppable r.graph (db.pathIndex.bucket q) <;> simp [member]
      rw [Option.isSome_iff_exists]
      exact exists_congr same
    rw [known]
    rcases (goneIff i).mp lost with early | member
    · obtain ⟨early', _⟩ := (gone_of_live live).mp early
      have still : (∃ j, j ∉ droppable r.graph (db.pathIndex.bucket q) ∧
          r.indexMap.lookup n.id = some j) ↔ (r.indexMap.lookup n.id).isSome = true := by
        rw [Option.isSome_iff_exists]
        refine exists_congr fun j => and_iff_right_of_imp fun found member => ?_
        -- A slot dropped now has a stored node of its own id, which is not `n`.
        obtain ⟨n', live', path, _⟩ := (passed.mem_droppable split indexed).mp member
        have there : gone db paths nodes visited j = false := by
          rw [Bool.eq_false_iff]
          exact fun lost' => (apart _ ((gone_of_live live').mp lost').1).1 path
        obtain ⟨m, now, same⟩ := passed.named live' there
        have held := slotKey_eq_some.mp ((passed.located _ _).mp found)
        obtain ⟨m', now', same'⟩ := held
        obtain rfl := Option.some.inj (now.symm.trans now')
        have slots : i = j := consistent.ids.slot_unique
          (slotKey_eq_some.mpr ⟨n, live, rfl⟩)
          (slotKey_eq_some.mpr ⟨n', live', same.symm.trans same'⟩)
        subst slots
        rw [early] at there
        cases there
      rw [still, passed.returned i n live early]
      constructor
      · rintro (⟨m, given, same, path, later⟩ | ⟨m, given, path, same⟩)
        · exact ⟨m, given, same, List.mem_append_left _ path, later⟩
        · exact ⟨m, given, same, by simp [path], path ▸ (apart _ early').2⟩
      · rintro ⟨m, given, same, path, later⟩
        rcases List.mem_append.mp path with path' | isNow
        · exact Or.inl ⟨m, given, same, path', later⟩
        · exact Or.inr ⟨m, given, List.mem_singleton.mp isNow, same⟩
    · obtain ⟨n', live', path, _⟩ := (passed.mem_droppable split indexed).mp member
      obtain rfl := Option.some.inj (live.symm.trans live')
      have there : gone db paths nodes visited i = false := by
        rw [Bool.eq_false_iff]
        exact fun lost' => (apart _ ((gone_of_live live).mp lost').1).1 path
      obtain ⟨m, now, same⟩ := passed.named live there
      have emptied : ¬ ∃ j, j ∉ droppable r.graph (db.pathIndex.bucket q) ∧
          r.indexMap.lookup n.id = some j := by
        rintro ⟨j, outside, found⟩
        have slots : i = j := passed.located.slot_unique
          (slotKey_eq_some.mpr ⟨m, now, same⟩) ((passed.located _ _).mp found)
        exact outside (slots ▸ member)
      rw [path, rest]
      constructor
      · rintro (still | ⟨m', given, path', same'⟩)
        · exact absurd still emptied
        · exact ⟨m', given, same', by simp [path'], by simp [path']⟩
      · rintro ⟨m', given, same', visitedNow, later⟩
        refine Or.inr ⟨m', given, ?_, same'⟩
        rcases List.mem_append.mp visitedNow with early | isNow
        · exact absurd later (disjoint _ early)
        · exact List.mem_singleton.mp isNow

private theorem run (consistent : Consistent db)
    (indexed : db.pathIndex.Indexes (slotKey db.graph GraphNode.path)) (todo : List String) :
    ∀ (visited : List String) (r : GraphDatabase.Replacement),
      Passed db paths nodes visited r → passOrder paths = visited ++ todo →
      Passed db paths nodes (passOrder paths)
        (todo.foldl (replacePath db.pathIndex paths nodes false) r) := by
  induction todo with
  | nil =>
    intro visited r passed split
    rw [List.append_nil] at split
    exact split ▸ passed
  | cons q rest ih =>
    intro visited r passed split
    rw [List.foldl_cons]
    exact ih (visited ++ [q]) _ (passed.step consistent split indexed) (by simp [split])

/-- **A whole re-scan** visits all its paths and then restores what it noted. -/
theorem whole (consistent : Consistent db)
    (indexed : db.pathIndex.Indexes (slotKey db.graph GraphNode.path))
    (writable : db.readOnly = false) (paths : List String) (nodes : List GraphNode) :
    ∃ (r : GraphDatabase.Replacement) (graph : StableGraph GraphNode GraphEdge)
        (pathIndex : SlotIndex String),
      Passed db paths nodes (passOrder paths) r ∧
      Restored r.indexMap r.preservedIncoming r.graph graph ∧
      (db.replaceNodesForPaths paths nodes).outcome =
        .ok { db with graph, indexMap := r.indexMap, nameIndex := r.nameIndex, pathIndex }
          r.removedIds.length := by
  have started : Passed db paths nodes [] _ := Passed.start consistent
  have passed := run consistent indexed (passOrder paths) [] _ started rfl
  generalize scanned : (passOrder paths).foldl (replacePath db.pathIndex paths nodes false)
    { graph := db.graph, indexMap := db.indexMap, nameIndex := db.nameIndex } = final at passed
  obtain ⟨graph, restores, restored⟩ := restore_effect _ _ passed.located
  refine ⟨final, graph, final.newEntries.foldl (fun m entry => m.swap entry.1 entry.2) db.pathIndex,
    passed, restored, ?_⟩
  unfold passOrder at scanned
  simp only [replaceNodesForPaths, replaceNodesInner, writable, scanned, restores]
  rfl

variable {final : GraphDatabase.Replacement}

theorem gone_iff {i : Nat} {n : GraphNode} (live : db.graph.nodeWeight i = some n) :
    gone db paths nodes (passOrder paths) i = true ↔ IsDropped paths nodes n := by
  rw [gone_of_live live, mem_passOrder, IsDropped]

theorem lookup_of_kept (passed : Passed db paths nodes (passOrder paths) final) {i : Nat}
    {n : GraphNode} (live : db.graph.nodeWeight i = some n)
    (there : gone db paths nodes (passOrder paths) i = false) :
    final.indexMap.lookup n.id = some i := by
  obtain ⟨m, now, same⟩ := passed.named live there
  exact (passed.located _ _).mpr (slotKey_eq_some.mpr ⟨m, now, same⟩)

theorem lookup_of_dropped (passed : Passed db paths nodes (passOrder paths) final) {i : Nat}
    {n : GraphNode} (live : db.graph.nodeWeight i = some n)
    (lost : gone db paths nodes (passOrder paths) i = true) :
    (final.indexMap.lookup n.id).isSome = true ↔ Returns paths nodes n := by
  rw [passed.returned i n live lost, Returns]
  refine exists_congr fun m => and_congr_right fun _ => and_congr_right fun _ => ?_
  exact and_iff_right_of_imp fun later => (List.dropWhile_sublist _).mem later

theorem id_unique (located : Located final) {id id' : String} {i : Nat}
    (here : final.indexMap.lookup id = some i) (there : final.indexMap.lookup id' = some i) :
    id = id' :=
  Option.some.inj (((located id i).mp here).symm.trans ((located id' i).mp there))

private theorem ends (consistent : Consistent db) {a : Arc GraphEdge}
    (stored : a ∈ db.graph.arcs) :
    ∃ s t, db.graph.nodeWeight a.source = some s ∧ s.id = a.weight.sourceId ∧
      db.graph.nodeWeight a.target = some t ∧ t.id = a.weight.targetId := by
  obtain ⟨source, target⟩ := consistent.anchored a stored
  obtain ⟨s, sourceLive, sourceId⟩ := slotKey_eq_some.mp source
  obtain ⟨t, targetLive, targetId⟩ := slotKey_eq_some.mp target
  exact ⟨s, t, sourceLive, sourceId, targetLive, targetId⟩

private theorem same_ends (consistent : Consistent db) {a b : Arc GraphEdge}
    (stored : a ∈ db.graph.arcs) (stored' : b ∈ db.graph.arcs)
    (source : a.weight.sourceId = b.weight.sourceId)
    (target : a.weight.targetId = b.weight.targetId) :
    a.source = b.source ∧ a.target = b.target := by
  obtain ⟨sourceA, targetA⟩ := consistent.anchored a stored
  obtain ⟨sourceB, targetB⟩ := consistent.anchored b stored'
  exact ⟨consistent.ids.slot_unique sourceA (source ▸ sourceB),
    consistent.ids.slot_unique targetA (target ▸ targetB)⟩

variable {graph : StableGraph GraphNode GraphEdge}

private theorem stored_of_left (passed : Passed db paths nodes (passOrder paths) final)
    {a : Arc GraphEdge} (left : a ∈ final.graph.arcs) :
    a ∈ db.graph.arcs ∧ gone db paths nodes (passOrder paths) a.source = false ∧
      gone db paths nodes (passOrder paths) a.target = false := by
  rw [passed.arcs, List.mem_filter] at left
  simpa using left

private theorem restored_spec (passed : Passed db paths nodes (passOrder paths) final)
    {a : Arc GraphEdge} (noted : a.weight ∈ final.preservedIncoming)
    (joins : Joins final.indexMap a.source a.target a.weight = true) :
    final.indexMap.lookup a.weight.sourceId = some a.source ∧
      final.indexMap.lookup a.weight.targetId = some a.target ∧
      ∃ b ∈ db.graph.arcs, b.weight = a.weight ∧
        gone db paths nodes (passOrder paths) b.target = true ∧
        SeenOutside db paths nodes b := by
  rw [Joins, Bool.and_eq_true, decide_eq_true_eq, decide_eq_true_eq] at joins
  exact ⟨joins.1, joins.2, (passed.noted _).mp noted⟩

private theorem named_ends (consistent : Consistent db)
    (passed : Passed db paths nodes (passOrder paths) final)
    (restored : Restored final.indexMap final.preservedIncoming final.graph graph)
    {a : Arc GraphEdge} (member : a ∈ graph.arcs) :
    (final.indexMap.lookup a.weight.sourceId).isSome = true ∧
      (final.indexMap.lookup a.weight.targetId).isSome = true := by
  obtain ⟨added, grown, from_⟩ := restored.arcs
  rw [grown] at member
  rcases List.mem_append.mp member with left | back
  · obtain ⟨stored, sourceThere, targetThere⟩ := passed.stored_of_left left
    obtain ⟨s, t, source, sourceId, target, targetId⟩ := ends consistent stored
    rw [← sourceId, ← targetId, passed.lookup_of_kept source sourceThere,
      passed.lookup_of_kept target targetThere]
    exact ⟨rfl, rfl⟩
  · obtain ⟨noted, joins⟩ := from_ a back
    obtain ⟨source, target, _⟩ := passed.restored_spec noted joins
    rw [source, target]
    exact ⟨rfl, rfl⟩

private theorem kept_outside (nodes : List GraphNode) {i : Nat} {n : GraphNode}
    (live : db.graph.nodeWeight i = some n) (outside : n.path ∉ paths) : gone db paths nodes (passOrder paths) i = false := by
  rw [Bool.eq_false_iff]
  exact fun lost => outside ((gone_iff live).mp lost).1

/-- **The edges between nodes outside the pass are the same.** -/
private theorem outside_same (consistent : Consistent db)
    (passed : Passed db paths nodes (passOrder paths) final)
    (restored : Restored final.indexMap final.preservedIncoming final.graph graph) :
    graph.arcs.filter (isOutside db paths) = db.graph.arcs.filter (isOutside db paths) := by
  obtain ⟨added, grown, from_⟩ := restored.arcs
  have none : added.filter (isOutside db paths) = [] := by
    refine List.filter_eq_nil_iff.mpr fun a back between => ?_
    obtain ⟨noted, joins⟩ := from_ a back
    obtain ⟨_, target, b, stored, same, lost, _⟩ := passed.restored_spec noted joins
    unfold isOutside at between
    split at between
    next s t source live =>
      rw [Bool.and_eq_true, Bool.not_eq_true', List.contains_eq_mem, Bool.not_eq_true',
        List.contains_eq_mem, decide_eq_false_iff_not, decide_eq_false_iff_not] at between
      have there := kept_outside nodes live between.2
      have sameId := id_unique passed.located (passed.lookup_of_kept live there) target
      obtain ⟨_, anchored⟩ := consistent.anchored b stored
      rw [same, ← sameId] at anchored
      have slots := consistent.ids.slot_unique anchored (slotKey_eq_some.mpr ⟨t, live, rfl⟩)
      rw [slots, there] at lost
      cases lost
    next => cases between
  rw [grown, List.filter_append, none, List.append_nil, passed.arcs, List.filter_filter]
  refine List.filter_congr fun a _ => ?_
  rw [Bool.eq_iff_iff, Bool.and_eq_true]
  refine and_iff_left_of_imp fun between => ?_
  unfold isOutside at between
  split at between
  next s t source target =>
    rw [Bool.and_eq_true, Bool.not_eq_true', List.contains_eq_mem, Bool.not_eq_true',
      List.contains_eq_mem, decide_eq_false_iff_not, decide_eq_false_iff_not] at between
    rw [kept_outside nodes source between.1, kept_outside nodes target between.2]
    rfl
  next => cases between

private theorem class_restored (consistent : Consistent db)
    (passed : Passed db paths nodes (passOrder paths) final)
    (restored : Restored final.indexMap final.preservedIncoming final.graph graph)
    {a : Arc GraphEdge} (stored : a ∈ db.graph.arcs)
    (sourceThere : gone db paths nodes (passOrder paths) a.source = false)
    (lost : gone db paths nodes (passOrder paths) a.target = true) {t' : Nat}
    (back : final.indexMap.lookup a.weight.targetId = some t') :
    (graph.arcs.filter (Connects a.source t' a.weight.edgeType)).map Arc.weight =
        (final.preservedIncoming.find?
          (Fits final.indexMap a.source t' a.weight.edgeType)).toList ∧
      final.indexMap.lookup a.weight.sourceId = some a.source := by
  obtain ⟨s, t, source, sourceId, target, targetId⟩ := ends consistent stored
  refine ⟨restored.first _ _ _ fun b left => ?_,
    sourceId ▸ passed.lookup_of_kept source sourceThere⟩
  -- What was left had no edge into the slot where the dropped id is now.
  by_contra connects
  rw [Bool.not_eq_false, Connects, Bool.and_eq_true, Bool.and_eq_true, decide_eq_true_eq,
    decide_eq_true_eq] at connects
  obtain ⟨stored', _, targetThere⟩ := passed.stored_of_left left
  obtain ⟨_, t₁, _, _, target', _⟩ := ends consistent stored'
  have located := passed.lookup_of_kept target' targetThere
  rw [connects.1.2] at located
  have sameId := id_unique passed.located located back
  have slots := consistent.ids.slot_unique (slotKey_eq_some.mpr ⟨t₁, target', sameId⟩)
    (slotKey_eq_some.mpr ⟨t, target, targetId⟩)
  rw [slots, lost] at targetThere
  cases targetThere

private theorem separate_of_incoming (consistent : Consistent db)
    (passed : Passed db paths nodes (passOrder paths) final)
    (restored : Restored final.indexMap final.preservedIncoming final.graph graph)
    (keeps : ∀ a ∈ db.graph.arcs, ∀ s, db.graph.nodeWeight a.source = some s →
      s.path ∉ paths → (final.indexMap.lookup a.weight.targetId).isSome = true →
      a.weight ∈ graph.edgeWeights) : CallersSeparate db paths nodes := by
  obtain ⟨added, grown, from_⟩ := restored.arcs
  intro a stored s t source target outside dropped returns
  obtain ⟨s', t', source', sourceId, target', targetId⟩ := ends consistent stored
  obtain rfl := Option.some.inj (source.symm.trans source')
  obtain rfl := Option.some.inj (target.symm.trans target')
  have lost := (gone_iff target).mpr dropped
  have sourceThere := kept_outside nodes source outside
  obtain ⟨slot, back⟩ :=
    Option.isSome_iff_exists.mp ((passed.lookup_of_dropped target lost).mpr returns)
  rw [targetId] at back
  obtain ⟨first, sourceBack⟩ :=
    passed.class_restored consistent restored stored sourceThere lost back
  -- Every edge of the same ends is there again, so it was noted and restored.
  have again : ∀ a' ∈ db.graph.arcs, a'.source = a.source → a'.target = a.target →
      SeenOutside db paths nodes a' ∧ ∃ b ∈ graph.arcs, b.weight = a'.weight ∧
        b.source = a.source ∧ b.target = slot := by
    intro a' stored' sameSource sameTarget
    obtain ⟨s₁, t₁, source₁, sourceId₁, target₁, targetId₁⟩ := ends consistent stored'
    rw [sameSource] at source₁
    rw [sameTarget] at target₁
    obtain rfl := Option.some.inj (source.symm.trans source₁)
    obtain rfl := Option.some.inj (target.symm.trans target₁)
    have present : a'.weight ∈ graph.edgeWeights := by
      refine keeps a' stored' s (sameSource ▸ source) outside ?_
      rw [← targetId₁, targetId]
      exact Option.isSome_iff_exists.mpr ⟨slot, back⟩
    obtain ⟨b, member, same⟩ := List.mem_map.mp present
    rw [grown] at member
    rcases List.mem_append.mp member with left | isBack
    · obtain ⟨storedB, _, targetThere⟩ := passed.stored_of_left left
      obtain ⟨_, slots⟩ := same_ends consistent storedB stored'
        (congrArg GraphEdge.sourceId same) (congrArg GraphEdge.targetId same)
      rw [slots, sameTarget, lost] at targetThere
      cases targetThere
    · obtain ⟨noted, joins⟩ := from_ b isBack
      obtain ⟨sourceAt, targetAt, c, storedC, sameC, _, seen⟩ :=
        passed.restored_spec noted joins
      have whole : c.weight = a'.weight := sameC.trans same
      obtain ⟨sourceC, targetC⟩ := same_ends consistent storedC stored'
        (congrArg GraphEdge.sourceId whole) (congrArg GraphEdge.targetId whole)
      refine ⟨?_, b, by rw [grown]; exact List.mem_append_right _ isBack, same, ?_, ?_⟩
      · unfold SeenOutside at seen ⊢
        rwa [sourceC, targetC] at seen
      · rw [same, ← sourceId₁, sourceId, sourceBack] at sourceAt
        exact (Option.some.inj sourceAt).symm
      · rw [same, ← targetId₁, targetId, back] at targetAt
        exact (Option.some.inj targetAt).symm
  refine ⟨?_, fun a' stored' sameSource sameTarget sameType => ?_⟩
  · obtain ⟨⟨s₁, t₁, source₁, target₁, _, fresh⟩, _⟩ := again a stored rfl rfl
    obtain rfl := Option.some.inj (source.symm.trans source₁)
    obtain rfl := Option.some.inj (target.symm.trans target₁)
    exact fresh
  · have inClass : ∀ e : GraphEdge, e.edgeType = a.weight.edgeType →
        (∃ b ∈ graph.arcs, b.weight = e ∧ b.source = a.source ∧ b.target = slot) →
        e ∈ (final.preservedIncoming.find?
          (Fits final.indexMap a.source slot a.weight.edgeType)).toList := by
      rintro e type ⟨b, member, rfl, ofSource, ofTarget⟩
      rw [← first]
      refine List.mem_map_of_mem (List.mem_filter.mpr ⟨member, ?_⟩)
      simp [Connects, ofSource, ofTarget, type]
    have here := inClass a.weight rfl (again a stored rfl rfl).2
    have there := inClass a'.weight sameType (again a' stored' sameSource sameTarget).2
    rw [Option.mem_toList] at here there
    exact Option.some.inj (there.symm.trans here)

private theorem incoming_of_separate (consistent : Consistent db)
    (passed : Passed db paths nodes (passOrder paths) final)
    (restored : Restored final.indexMap final.preservedIncoming final.graph graph)
    (separate : CallersSeparate db paths nodes) :
    ∀ a ∈ db.graph.arcs, ∀ s, db.graph.nodeWeight a.source = some s → s.path ∉ paths →
      (final.indexMap.lookup a.weight.targetId).isSome = true → a.weight ∈ graph.edgeWeights := by
  obtain ⟨added, grown, from_⟩ := restored.arcs
  intro a stored s source outside present
  obtain ⟨s', t, source', sourceId, target, targetId⟩ := ends consistent stored
  obtain rfl := Option.some.inj (source.symm.trans source')
  have sourceThere := kept_outside nodes source outside
  cases lost : gone db paths nodes (passOrder paths) a.target with
  | false =>
    refine List.mem_map_of_mem ?_
    rw [grown, passed.arcs]
    refine List.mem_append_left _ (List.mem_filter.mpr ⟨stored, ?_⟩)
    simp [sourceThere, lost]
  | true =>
    have dropped := (gone_iff target).mp lost
    have returns : Returns paths nodes t :=
      (passed.lookup_of_dropped target lost).mp (targetId ▸ present)
    obtain ⟨fresh, alike⟩ := separate a stored s t source target outside dropped returns
    obtain ⟨slot, back⟩ := Option.isSome_iff_exists.mp present
    obtain ⟨first, sourceBack⟩ :=
      passed.class_restored consistent restored stored sourceThere lost back
    have noted : a.weight ∈ final.preservedIncoming :=
      (passed.noted _).mpr ⟨a, stored, rfl, lost, s, t, source, target, outside, fresh⟩
    have fits : Fits final.indexMap a.source slot a.weight.edgeType a.weight = true := by
      simp [Fits, Joins, sourceBack, back]
    obtain ⟨e, found⟩ : ∃ e, final.preservedIncoming.find?
        (Fits final.indexMap a.source slot a.weight.edgeType) = some e :=
      Option.isSome_iff_exists.mp (List.find?_isSome.mpr ⟨_, noted, fits⟩)
    -- The first noted edge of the type is one of the same ends, so it is the same edge.
    have same : e = a.weight := by
      obtain ⟨c, storedC, rfl, _, _⟩ :=
        (passed.noted _).mp (List.mem_of_find?_eq_some found)
      have fitsC := List.find?_some found
      rw [Fits, Joins, Bool.and_eq_true, Bool.and_eq_true, decide_eq_true_eq,
        decide_eq_true_eq, decide_eq_true_eq] at fitsC
      obtain ⟨⟨sourceC, targetC⟩, type⟩ := fitsC
      obtain ⟨sourceSlot, targetSlot⟩ := same_ends consistent storedC stored
        (id_unique passed.located sourceC sourceBack)
        (id_unique passed.located targetC back)
      exact alike c storedC sourceSlot targetSlot type
    rw [found, same] at first
    have member : a.weight ∈ (graph.arcs.filter
        (Connects a.source slot a.weight.edgeType)).map Arc.weight := by
      rw [first]
      simp
    obtain ⟨b, inClass, weight⟩ := List.mem_map.mp member
    exact List.mem_map.mpr ⟨b, (List.mem_filter.mp inClass).1, weight⟩

end Passed

/-- **Re-scanning keeps the callers** exactly when the handle refuses writes, or the callers of
every dropped node that returns are separate from the pass and from each other. -/
theorem keepsCallers_iff {db : GraphDatabase} (consistent : Consistent db)
    (indexed : db.pathIndex.Indexes (slotKey db.graph GraphNode.path)) (paths : List String)
    (nodes : List GraphNode) :
    (db.replaceNodesForPaths paths nodes).outcome.All (KeepsCallers db paths) ↔
      db.readOnly = true ∨ CallersSeparate db paths nodes := by
  by_cases refused : db.readOnly = true
  · simp only [refused, true_or, iff_true]
    have outcome : (db.replaceNodesForPaths paths nodes).outcome =
        .error db readOnlyError := by
      simp [replaceNodesForPaths, replaceNodesInner, refused]
    rw [outcome]
    refine { incoming := fun a stored _ _ _ _ => List.mem_map_of_mem stored, outside := rfl,
             dangling := fun id was isNot => ?_ }
    rw [was] at isNot
    cases isNot
  rw [or_iff_right refused]
  rw [Bool.not_eq_true] at refused
  obtain ⟨final, graph, pathIndex, passed, restored, outcome⟩ :=
    Passed.whole consistent indexed refused paths nodes
  rw [outcome, Outcome.All]
  constructor
  · intro keeps
    exact passed.separate_of_incoming consistent restored keeps.incoming
  · intro separate
    refine { incoming := passed.incoming_of_separate consistent restored separate
             outside := passed.outside_same consistent restored, dangling := ?_ }
    intro id _ absent edge member
    obtain ⟨a, inGraph, rfl⟩ := List.mem_map.mp member
    obtain ⟨source, target⟩ := passed.named_ends consistent restored inGraph
    refine ⟨?_, ?_⟩
    · rintro rfl
      rw [hasNode, source] at absent
      cases absent
    · rintro rfl
      rw [hasNode, target] at absent
      cases absent

/-! ### A lost publish site -/

def publisher : GraphNode :=
  { id := "a.rs::publish", nodeType := .function, name := "publish", path := "a.rs" }

def ordersTopic : GraphNode :=
  { id := "topic::orders", nodeType := .topic, name := "orders", path := "b.rs" }

def publishAt (line : Nat) : GraphEdge :=
  { edgeType := .produces, sourceId := publisher.id, targetId := ordersTopic.id,
    site := some { path := "a.rs", line } }

/-- A function that publishes to one topic at some lines. -/
def published (lines : List Nat) : GraphDatabase where
  graph :=
    { slots := [some publisher, some ordersTopic]
      free := []
      arcs := lines.map fun line => ⟨0, 1, publishAt line⟩
      free_nodup := List.nodup_nil
      mem_free := by
        intro i
        match i with
        | 0 | 1 | i + 2 => simp
      arcs_live := by simp }
  indexMap := AList.insert ordersTopic.id 1 (AList.insert publisher.id 0 ∅)
  pathIndex := (SlotIndex.push ∅ publisher.path 0).push ordersTopic.path 1

variable (lines : List Nat)

private theorem published_nodes (i : Nat) : (published lines).graph.nodeWeight i =
    if i = 0 then some publisher else if i = 1 then some ordersTopic else none := by
  match i with
  | 0 => rfl
  | 1 => rfl
  | i + 2 => simp [published, StableGraph.nodeWeight]

theorem published_consistent : Consistent (published lines) where
  ids := by
    have first : SlotMap.Locates (AList.insert publisher.id 0 ∅)
        fun i => if i = 0 then some publisher.id else none :=
      (SlotMap.Locates.empty fun _ => rfl).insert rfl (AList.lookup_empty _) rfl
        fun j other => by rw [if_neg other]
    have apart : ordersTopic.id ≠ publisher.id := by decide
    have fresh : (AList.insert publisher.id 0 (∅ : SlotMap String)).lookup ordersTopic.id =
        none := by
      rw [AList.lookup_insert_ne apart, AList.lookup_empty]
    refine first.insert rfl fresh rfl fun j other => ?_
    rw [slotKey, published_nodes]
    split_ifs <;> simp_all
  anchored := by
    intro a member
    obtain ⟨line, _, rfl⟩ := List.mem_map.mp member
    exact ⟨rfl, rfl⟩

theorem published_indexed :
    (published lines).pathIndex.Indexes (slotKey (published lines).graph GraphNode.path) := by
  have first : SlotIndex.Indexes (SlotIndex.push ∅ publisher.path 0)
      fun i => if i = 0 then some publisher.path else none :=
    (SlotIndex.Indexes.empty fun _ => rfl).push rfl rfl fun j other => by rw [if_neg other]
  refine first.push rfl rfl fun j other => ?_
  rw [slotKey, published_nodes]
  split_ifs <;> simp_all

/-- Of two publish sites of one topic, the re-scan of the topic's file brings back the later. -/
theorem keepsCallers_fails :
    ¬ ((published [3, 8]).replaceNodesForPaths ["b.rs"] [ordersTopic]).outcome.All
      (KeepsCallers (published [3, 8]) ["b.rs"]) := by
  have order : (["b.rs"].dedup.mergeSort fun a b => decide (a ≤ b)) = ["b.rs"] := by simp
  have lost : ((published [3, 8]).replaceNodesForPaths ["b.rs"] [ordersTopic]).outcome.All
      fun after => after.hasNode ordersTopic.id = true ∧ publishAt 3 ∉ after.edges := by
    unfold replaceNodesForPaths replaceNodesInner
    rw [order]
    decide +kernel
  intro keeps
  revert keeps lost
  cases ((published [3, 8]).replaceNodesForPaths ["b.rs"] [ordersTopic]).outcome with
  | panicked => exact fun lost => lost.elim
  | ok after _ | error after _ =>
    intro lost keeps
    exact lost.2 (keeps.incoming ⟨0, 1, publishAt 3⟩ List.mem_cons_self publisher rfl
      (by decide) lost.1)

theorem keepsCallers_single :
    ((published [3]).replaceNodesForPaths ["b.rs"] [ordersTopic]).outcome.All
      (KeepsCallers (published [3]) ["b.rs"]) := by
  refine (keepsCallers_iff (published_consistent [3]) (published_indexed [3]) ["b.rs"]
    [ordersTopic]).mpr (Or.inr ?_)
  intro a stored s t source target _ _ _
  obtain rfl := List.mem_singleton.mp stored
  obtain rfl := Option.some.inj (target.symm.trans rfl : some t = some ordersTopic)
  refine ⟨?_, fun a' stored' _ _ _ => by rw [List.mem_singleton.mp stored']⟩
  simp [before, passOrder, brought, ordersTopic]

end Lain.Graph
