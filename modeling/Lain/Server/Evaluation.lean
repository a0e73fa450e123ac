import Mathlib
import Lain.Foundation.Bfs
import Lain.Foundation.Text
import Lain.Graph.Interleaving

/-!
# How near peers are

Before an edit an agent's declared scopes are compared with those of its peers.
-/

namespace Lain.Server.Evaluation

open Foundation Lain.Graph

inductive ClaimIntent where
  | read | edit
  deriving DecidableEq

structure Intent where
  agentId : String
  goal : String
  scopes : List String
  deriving DecidableEq

structure Claim where
  agentId : String
  path : String
  symbols : List String
  intent : ClaimIntent

structure RelatedActivity where
  agentId : String
  goal : String
  scopes : List String
  deriving DecidableEq

inductive YellowReason where
  | noIntentDeclared
  | outsideDeclaredScope (declared : List String) (attempted : String)
  | peerIntentNearby (distance : Nat) (peer : String)
  | peerIsReading (peer : String) (file : String)
  deriving DecidableEq

inductive RedReason where
  | exclusiveClaimHeld (holder : String) (intent : ClaimIntent)
  deriving DecidableEq

inductive CoordinationLevel where
  | green (related : List RelatedActivity)
  | yellow (reason : YellowReason) (related : List RelatedActivity)
  | red (reason : RedReason) (related : List RelatedActivity)
  deriving DecidableEq

/-- What an evaluation looks at. -/
structure EvalContext where
  intent : Option Intent
  target : String
  peerIntents : List Intent
  peerClaims : List Claim
  peerReading : List (String × String)
  graph : Option GraphDatabase

/-! ### Distances between scopes -/

/-- The parts of a path. -/
def pathParts (s : String) : List (List Char) :=
  (Text.splitChars '/' s.toList).filter (! ·.isEmpty)

def commonParts : List (List Char) → List (List Char) → Nat
  | x :: xs, y :: ys => if x = y then commonParts xs ys + 1 else 0
  | _, _ => 0

/-- Two paths are one apart when one is above the other, two when they have a beginning in
common. -/
def pathDistance (a b : String) : Option Nat :=
  if a = b then some 0
  else
    let common := commonParts (pathParts a) (pathParts b)
    if common = 0 then none
    else if common = (pathParts a).length ∧ common < (pathParts b).length then some 1
    else if common = (pathParts b).length ∧ common < (pathParts a).length then some 1
    else if common < (pathParts a).length ∧ common < (pathParts b).length then some 2
    else none

def expand (node : String) (d : Nat) (visited : Finset String) (frontier : List (Nat × String)) :
    List GraphEdge → Finset String × List (Nat × String)
  | [] => (visited, frontier)
  | edge :: edges =>
    if edge.sourceId = node ∧ edge.targetId ∉ visited then
      expand node d (insert edge.targetId visited) (frontier ++ [(d + 1, edge.targetId)]) edges
    else expand node d visited frontier edges

def unvisited (edges : List GraphEdge) (visited : Finset String) : Finset String :=
  (edges.map GraphEdge.targetId).toFinset \ visited

theorem expand_measure {all : List GraphEdge} (node : String) (d : Nat) {edges : List GraphEdge}
    (within : edges ⊆ all) (visited : Finset String) (frontier : List (Nat × String)) :
    (unvisited all (expand node d visited frontier edges).1).card +
        (expand node d visited frontier edges).2.length =
      (unvisited all visited).card + frontier.length := by
  induction edges generalizing visited frontier with
  | nil => rfl
  | cons edge edges ih =>
    obtain ⟨here, within⟩ := List.cons_subset.mp within
    rw [expand]
    split_ifs with new
    · have member : edge.targetId ∈ unvisited all visited :=
        Finset.mem_sdiff.mpr
          ⟨List.mem_toFinset.mpr (List.mem_map.mpr ⟨edge, here, rfl⟩), new.2⟩
      have fewer : unvisited all (insert edge.targetId visited) =
          (unvisited all visited).erase edge.targetId := by
        unfold unvisited
        rw [Finset.sdiff_insert]
      have some := Finset.card_pos.mpr ⟨_, member⟩
      rw [ih within, fewer, Finset.card_erase_of_mem member, List.length_append,
        List.length_singleton]
      omega
    · exact ih within visited frontier

def search (edges : List GraphEdge) (names : List String) (visited : Finset String)
    (frontier : List (Nat × String)) : Option Nat :=
  match frontier with
  | [] => none
  | (d, node) :: rest =>
    if node ∈ names then some d
    else if 32 ≤ d then none
    else
      search edges names (expand node d visited rest edges).1
        (expand node d visited rest edges).2
termination_by (unvisited edges visited).card + frontier.length
decreasing_by
  rw [expand_measure node d (List.Subset.refl edges), List.length_cons]
  omega

def symbolDistanceViaGraph (graph : GraphDatabase) (a b : String) : Option Nat :=
  let aNodes := graph.findAllNodesByName a
  let bNodes := graph.findAllNodesByName b
  if aNodes.isEmpty || bNodes.isEmpty then none
  else
    search graph.edges (bNodes.map GraphNode.name) (aNodes.map GraphNode.name).toFinset
      (aNodes.map fun n => (0, n.name))

def scopePairDistance (graph : Option GraphDatabase) (sa sb : String) : Option Nat :=
  match graph with
  | some g => (symbolDistanceViaGraph g sa sb).or (pathDistance sa sb)
  | none => pathDistance sa sb

def closer (best : Option Nat) (d : Option Nat) : Option Nat :=
  match d with
  | none => best
  | some d => some (match best with
    | none => d
    | some current => min current d)

def nearestPair (graph : Option GraphDatabase) : Option Nat → List (String × String) → Option Nat
  | best, [] => best
  | best, (sa, sb) :: rest =>
    if sa = sb then some 0
    else nearestPair graph (closer best (scopePairDistance graph sa sb)) rest

/-- The distance between two lists of scopes. -/
def scopeDistance (a b : List String) (graph : Option GraphDatabase) : Option Nat :=
  nearestPair graph none (a.flatMap fun sa => b.map fun sb => (sa, sb))

/-! ### The evaluation -/

def scopeCovers (scope target : String) : Bool :=
  scope == target

def targetInScope (intent : Intent) (target : String) : Bool :=
  intent.scopes.any (· == target) || intent.scopes.any (scopeCovers · target)

def Claim.blocks (claim : Claim) (target : String) : Bool :=
  (claim.path == target || claim.symbols.any (· == target)) && claim.intent == .edit

def lookAtPeer (graph : Option GraphDatabase) (intent : Intent)
    (seen : Option (Nat × Intent) × List RelatedActivity) (peer : Intent) :
    Option (Nat × Intent) × List RelatedActivity :=
  match scopeDistance intent.scopes peer.scopes graph with
  | none => seen
  | some d =>
    (match seen.1 with
      | none => some (d, peer)
      | some (nearest, other) => if d < nearest then some (d, peer) else some (nearest, other),
      seen.2 ++ [⟨peer.agentId, peer.goal, peer.scopes⟩])

def readingLevel (target : String) (reading : List (String × String)) : CoordinationLevel :=
  match reading.find? fun entry => entry.2 == target with
  | some (peer, file) => .yellow (.peerIsReading peer file) []
  | none => .green []

/-- Evaluate a target. -/
def evaluate (ctx : EvalContext) : CoordinationLevel :=
  match ctx.intent with
  | none => .yellow .noIntentDeclared []
  | some intent =>
    if !targetInScope intent ctx.target then
      .yellow (.outsideDeclaredScope intent.scopes ctx.target) []
    else
      match ctx.peerClaims.find? (·.blocks ctx.target) with
      | some claim => .red (.exclusiveClaimHeld claim.agentId claim.intent) []
      | none =>
        match ctx.peerIntents.foldl (lookAtPeer ctx.graph intent) (none, []) with
        | (some (d, peer), related) =>
          if d = 0 then .yellow (.peerIntentNearby d peer.agentId) related
          else if d ≤ 2 then .yellow (.peerIntentNearby d peer.agentId) related
          else readingLevel ctx.target ctx.peerReading
        | (none, _) => readingLevel ctx.target ctx.peerReading

/-! ### Distances between calls -/

def Calls (graph : GraphDatabase) (caller callee : String) : Prop :=
  ∃ e ∈ graph.edges, e.edgeType = .calls ∧ e.sourceId = caller ∧ e.targetId = callee

/-- A node of one of these names. -/
def Named (graph : GraphDatabase) (names : List String) (id : String) : Prop :=
  ∃ i n, graph.graph.nodeWeight i = some n ∧ n.id = id ∧ n.name ∈ names

/-- So many calls lead from a node named in one list to a node named in the other. -/
def Linked (graph : GraphDatabase) (a b : List String) (count : Nat) : Prop :=
  ∃ id, Bfs.Reaches (Calls graph) (Named graph a) count id ∧ Named graph b id

/-- A distance is that of the calls, up to 32 of them. -/
def IsCallDistance (graph : GraphDatabase) (a b : List String) : Option Nat → Prop
  | some d => d ≤ 32 ∧ Linked graph a b d ∧ ∀ n < d, ¬Linked graph a b n
  | none => ∀ n ≤ 32, ¬Linked graph a b n

/-- A graph whose indexes and edges are right and whose ids are generated: no name is one. -/
structure Generated (graph : GraphDatabase) : Prop where
  consistent : Consistent graph
  names : graph.nameIndex.Indexes graph.nameAt
  apart : ∀ i j n m, graph.graph.nodeWeight i = some n → graph.graph.nodeWeight j = some m →
    n.name ≠ m.id

/-- A symbol's name: it names a node and is no path. -/
structure IsSymbol (graph : GraphDatabase) (name : String) : Prop where
  named : ∃ i n, graph.graph.nodeWeight i = some n ∧ n.name = name
  noPath : '/' ∉ name.toList

/-- A declared symbol of a peer is within two calls of a declared symbol. -/
def CallNear (graph : GraphDatabase) (ctx : EvalContext) : Prop :=
  ∃ intent, ctx.intent = some intent ∧ ∃ peer ∈ ctx.peerIntents, ∃ sa ∈ intent.scopes,
    ∃ sb ∈ peer.scopes, IsSymbol graph sa ∧ IsSymbol graph sb ∧ ∃ n ≤ 2, Linked graph [sa] [sb] n

/-- Nothing but the calls could raise a warning: the target is declared, no claim blocks it, no
peer reads it, and no peer has declared the same text or a path that begins alike. -/
structure Quiet (ctx : EvalContext) (intent : Intent) : Prop where
  declared : ctx.intent = some intent
  inScope : targetInScope intent ctx.target = true
  unclaimed : ∀ claim ∈ ctx.peerClaims, claim.blocks ctx.target = false
  unread : ∀ entry ∈ ctx.peerReading, entry.2 ≠ ctx.target
  unlike : ∀ peer ∈ ctx.peerIntents, ∀ sa ∈ intent.scopes, ∀ sb ∈ peer.scopes,
    pathDistance sa sb = none

def CoordinationLevel.isGreen : CoordinationLevel → Bool
  | green _ => true
  | _ => false

variable {graph : GraphDatabase} {a b : List String}

/-! ### What the search finds -/

theorem name_of_mem_findAllNodesByName (generated : Generated graph) {name : String}
    {n : GraphNode} (found : n ∈ graph.findAllNodesByName name) :
    n.name = name ∧ ∃ i, graph.graph.nodeWeight i = some n := by
  unfold GraphDatabase.findAllNodesByName at found
  rw [List.mem_mergeSort, List.mem_filterMap] at found
  obtain ⟨i, filed, here⟩ := found
  have keyed := ((generated.names name).2 i).mp filed
  unfold GraphDatabase.nameAt at keyed
  rw [here, Option.map_some, Option.some_inj] at keyed
  exact ⟨keyed, i, here⟩

theorem sourceId_ne_name (generated : Generated graph) {e : GraphEdge} (stored : e ∈ graph.edges)
    {i : Nat} {n : GraphNode} (live : graph.graph.nodeWeight i = some n) :
    e.sourceId ≠ n.name := by
  intro same
  obtain ⟨arc, member, rfl⟩ := List.mem_map.mp stored
  obtain ⟨m, there, named⟩ := slotKey_eq_some.mp (generated.consistent.anchored arc member).1
  exact generated.apart i arc.source n m live there (same ▸ named.symm)

theorem expand_of_none {node : String} {d : Nat} {visited : Finset String}
    {frontier : List (Nat × String)} {edges : List GraphEdge}
    (none : ∀ e ∈ edges, e.sourceId ≠ node) :
    expand node d visited frontier edges = (visited, frontier) := by
  induction edges with
  | nil => rfl
  | cons e edges ih =>
    obtain ⟨first, others⟩ := List.forall_mem_cons.mp none
    rw [expand, if_neg fun here => first here.1, ih others]

theorem search_eq_none {edges : List GraphEdge} {names : List String} {visited : Finset String}
    {frontier : List (Nat × String)}
    (others : ∀ entry ∈ frontier, entry.2 ∉ names ∧ ∀ e ∈ edges, e.sourceId ≠ entry.2) :
    search edges names visited frontier = none := by
  induction frontier with
  | nil => rw [search]
  | cons entry rest ih =>
    obtain ⟨d, node⟩ := entry
    obtain ⟨first, others⟩ := List.forall_mem_cons.mp others
    rw [search, if_neg first.1]
    split_ifs
    · rfl
    · rw [expand_of_none first.2]
      exact ih others

/-- **The search walks no edge**: two names that differ have no distance. -/
theorem symbolDistanceViaGraph_eq_none (generated : Generated graph) {sa sb : String}
    (differ : sa ≠ sb) : symbolDistanceViaGraph graph sa sb = none := by
  unfold symbolDistanceViaGraph
  dsimp only
  split_ifs
  · rfl
  · refine search_eq_none fun entry member => ?_
    obtain ⟨n, found, rfl⟩ := List.mem_map.mp member
    obtain ⟨named, i, live⟩ := name_of_mem_findAllNodesByName generated found
    refine ⟨fun also => ?_, fun e stored => sourceId_ne_name generated stored live⟩
    obtain ⟨m, there, same⟩ := List.mem_map.mp also
    exact differ (named.symm.trans (same.symm.trans
      (name_of_mem_findAllNodesByName generated there).1))

theorem scopeDistance_some (generated : Generated graph) (a b : List String) :
    scopeDistance a b (some graph) = scopeDistance a b none := by
  unfold scopeDistance
  generalize (none : Option Nat) = best
  induction a.flatMap fun sa => b.map fun sb => (sa, sb) generalizing best with
  | nil => rfl
  | cons pair rest ih =>
    obtain ⟨sa, sb⟩ := pair
    rw [nearestPair, nearestPair]
    split_ifs with same
    · rfl
    · have pairs : scopePairDistance (some graph) sa sb = scopePairDistance none sa sb := by
        unfold scopePairDistance
        simp only [symbolDistanceViaGraph_eq_none generated same, Option.none_or]
      rw [pairs, ih]

/-! ### What two lists of scopes have in common -/

theorem pathDistance_of_noPath {sa sb : String} (first : '/' ∉ sa.toList)
    (second : '/' ∉ sb.toList) (differ : sa ≠ sb) : pathDistance sa sb = none := by
  have parts {s : String} (free : '/' ∉ s.toList) :
      pathParts s = if s.toList.isEmpty then [] else [s.toList] := by
    unfold pathParts
    rw [Text.splitChars_of_notMem free]
    split_ifs with empty <;> simp [empty]
  have none : commonParts (pathParts sa) (pathParts sb) = 0 := by
    rw [parts first, parts second]
    have chars : sa.toList ≠ sb.toList := fun same => differ (String.toList_injective same)
    split_ifs <;> simp [commonParts, chars]
  unfold pathDistance
  rw [if_neg differ]
  simp [none]

theorem pathDistance_le {sa sb : String} {d : Nat} (found : pathDistance sa sb = some d) :
    d ≤ 2 := by
  unfold pathDistance at found
  dsimp only at found
  split_ifs at found <;> simp at found <;> omega

theorem nearestPair_of_symbols {best : Option Nat} {pairs : List (String × String)}
    (apart : ∀ p ∈ pairs, p.1 ≠ p.2 → pathDistance p.1 p.2 = none) :
    nearestPair none best pairs = if ∃ p ∈ pairs, p.1 = p.2 then some 0 else best := by
  induction pairs with
  | nil => simp [nearestPair]
  | cons p pairs ih =>
    obtain ⟨sa, sb⟩ := p
    obtain ⟨first, others⟩ := List.forall_mem_cons.mp apart
    rw [nearestPair]
    by_cases same : sa = sb
    · rw [if_pos same, if_pos ⟨_, List.mem_cons_self, same⟩]
    · have nothing : scopePairDistance none sa sb = none := first same
      rw [if_neg same, nothing, closer, ih others]
      refine if_congr ?_ rfl rfl
      rw [List.exists_mem_cons_iff]
      exact (or_iff_right same).symm

theorem scopeDistance_of_symbols (noPath : ∀ s ∈ a, '/' ∉ s.toList)
    (noPath' : ∀ s ∈ b, '/' ∉ s.toList) :
    scopeDistance a b none = if ∃ s ∈ a, s ∈ b then some 0 else none := by
  unfold scopeDistance
  rw [nearestPair_of_symbols]
  · refine if_congr ⟨?_, ?_⟩ rfl rfl
    · rintro ⟨p, member, same⟩
      obtain ⟨sa, first, second⟩ := List.mem_flatMap.mp member
      obtain ⟨sb, other, rfl⟩ := List.mem_map.mp second
      exact ⟨sa, first, (show sa = sb from same) ▸ other⟩
    · rintro ⟨s, first, second⟩
      exact ⟨(s, s), List.mem_flatMap.mpr ⟨s, first, List.mem_map.mpr ⟨s, second, rfl⟩⟩, rfl⟩
  · intro p member differ
    obtain ⟨sa, first, second⟩ := List.mem_flatMap.mp member
    obtain ⟨sb, other, rfl⟩ := List.mem_map.mp second
    exact pathDistance_of_noPath (noPath sa first) (noPath' sb other) differ

theorem nearestPair_spec (pairs : List (String × String)) {best : Option Nat}
    (near : ∀ d, best = some d → d ≤ 2) :
    (∀ d, nearestPair none best pairs = some d → d ≤ 2) ∧
      (nearestPair none best pairs = none ↔
        best = none ∧ ∀ p ∈ pairs, pathDistance p.1 p.2 = none) := by
  induction pairs generalizing best with
  | nil => exact ⟨near, by simp [nearestPair]⟩
  | cons p pairs ih =>
    obtain ⟨sa, sb⟩ := p
    rw [nearestPair]
    by_cases same : sa = sb
    · rw [if_pos same]
      refine ⟨fun d found => by rw [← Option.some_inj.mp found]; omega, ?_⟩
      have zero : pathDistance sa sb = some 0 := by rw [pathDistance, if_pos same]
      exact iff_of_false (by simp) fun none =>
        absurd (none.2 _ List.mem_cons_self) (by simp [zero])
    · rw [if_neg same]
      change (∀ d, nearestPair none (closer best (pathDistance sa sb)) pairs = some d → d ≤ 2) ∧ _
      cases lexical : pathDistance sa sb with
      | none =>
        obtain ⟨below, none⟩ := ih near
        refine ⟨below, ?_⟩
        simp [closer, scopePairDistance, lexical, none]
      | some e =>
        have small := pathDistance_le lexical
        obtain ⟨below, none⟩ := @ih (closer best (some e)) (fun d found => by
          cases best with
          | none =>
            rw [closer, Option.some_inj] at found
            omega
          | some current =>
            have := near current rfl
            rw [closer, Option.some_inj] at found
            omega)
        refine ⟨below, ?_⟩
        simp only [scopePairDistance, lexical, none]
        simp [closer, lexical]

theorem scopeDistance_spec (a b : List String) :
    (∀ d, scopeDistance a b none = some d → d ≤ 2) ∧
      (scopeDistance a b none = none ↔ ∀ sa ∈ a, ∀ sb ∈ b, pathDistance sa sb = none) := by
  obtain ⟨near, nothing⟩ := @nearestPair_spec (a.flatMap fun sa => b.map fun sb => (sa, sb))
    none (by simp)
  refine ⟨near, nothing.trans ?_⟩
  simp only [true_and, List.mem_flatMap, List.mem_map]
  constructor
  · exact fun all sa first sb second => all _ ⟨sa, first, sb, second, rfl⟩
  · rintro all _ ⟨sa, first, sb, second, rfl⟩
    exact all sa first sb second

/-! ### When the evaluation lets an edit pass -/

theorem lookAtPeer_spec (generated : Generated graph) (intent peer : Intent)
    {seen : Option (Nat × Intent) × List RelatedActivity}
    (near : ∀ found, seen.1 = some found → found.1 ≤ 2) :
    (∀ found, (lookAtPeer (some graph) intent seen peer).1 = some found → found.1 ≤ 2) ∧
      ((lookAtPeer (some graph) intent seen peer).1 = none ↔
        seen.1 = none ∧ ∀ sa ∈ intent.scopes, ∀ sb ∈ peer.scopes, pathDistance sa sb = none) := by
  obtain ⟨small, none⟩ := scopeDistance_spec intent.scopes peer.scopes
  rw [← scopeDistance_some generated] at none small
  rw [← none]
  unfold lookAtPeer
  cases distance : scopeDistance intent.scopes peer.scopes (some graph) with
  | none => exact ⟨near, by simp⟩
  | some d =>
    have within := small d distance
    cases nearest : seen.1 with
    | none => exact ⟨fun found first => by rw [← Option.some_inj.mp first]; exact within, by simp⟩
    | some other =>
      have before := near other nearest
      constructor
      · intro found first
        simp only at first
        split_ifs at first <;> rw [← Option.some_inj.mp first] <;> assumption
      · simp only [reduceCtorEq, false_and, iff_false]
        split_ifs <;> simp

theorem foldl_lookAtPeer (generated : Generated graph) (intent : Intent) (peers : List Intent)
    {seen : Option (Nat × Intent) × List RelatedActivity}
    (near : ∀ found, seen.1 = some found → found.1 ≤ 2) :
    (∀ found, (peers.foldl (lookAtPeer (some graph) intent) seen).1 = some found → found.1 ≤ 2) ∧
      ((peers.foldl (lookAtPeer (some graph) intent) seen).1 = none ↔
        seen.1 = none ∧ ∀ peer ∈ peers, ∀ sa ∈ intent.scopes, ∀ sb ∈ peer.scopes,
          pathDistance sa sb = none) := by
  induction peers generalizing seen with
  | nil => exact ⟨near, by simp⟩
  | cons peer peers ih =>
    obtain ⟨next, none⟩ := lookAtPeer_spec generated intent peer near
    obtain ⟨below, rest⟩ := ih next
    rw [List.foldl_cons, List.forall_mem_cons]
    exact ⟨below, rest.trans (by rw [none, and_assoc])⟩

theorem isGreen_readingLevel (target : String) (reading : List (String × String)) :
    (readingLevel target reading).isGreen = true ↔ ∀ entry ∈ reading, entry.2 ≠ target := by
  unfold readingLevel
  cases found : reading.find? fun entry => entry.2 == target with
  | none =>
    refine iff_of_true rfl fun entry member same => ?_
    exact absurd (List.find?_eq_none.mp found entry member) (by simp [same])
  | some entry =>
    refine iff_of_false (by simp [CoordinationLevel.isGreen]) fun all => ?_
    exact all entry (List.mem_of_find?_eq_some found) (by simpa using List.find?_some found)

/-- **When an edit passes**: when nothing but the calls could raise a warning. -/
theorem isGreen_evaluate_iff (generated : Generated graph) {ctx : EvalContext}
    (supplied : ctx.graph = some graph) :
    (evaluate ctx).isGreen = true ↔ ∃ intent, Quiet ctx intent := by
  unfold evaluate
  cases declared : ctx.intent with
  | none =>
    refine iff_of_false (by simp [CoordinationLevel.isGreen]) ?_
    rintro ⟨intent, quiet⟩
    exact absurd (declared.symm.trans quiet.declared) (by simp)
  | some intent =>
    have only {other : Intent} (quiet : Quiet ctx other) : other = intent :=
      Option.some_inj.mp (quiet.declared.symm.trans declared)
    dsimp only
    by_cases inScope : targetInScope intent ctx.target = true
    · rw [inScope, Bool.not_true, if_neg Bool.false_ne_true]
      cases held : ctx.peerClaims.find? (·.blocks ctx.target) with
      | some claim =>
        refine iff_of_false (by simp [CoordinationLevel.isGreen]) ?_
        rintro ⟨other, quiet⟩
        have free := quiet.unclaimed claim (List.mem_of_find?_eq_some held)
        exact absurd (List.find?_some held) (by simp [free])
      | none =>
        have unclaimed : ∀ claim ∈ ctx.peerClaims, claim.blocks ctx.target = false :=
          fun claim member => by simpa using List.find?_eq_none.mp held claim member
        obtain ⟨near, nothing⟩ := @foldl_lookAtPeer _ generated intent ctx.peerIntents
          (none, []) (by simp)
        rw [supplied]
        rcases looked : ctx.peerIntents.foldl (lookAtPeer (some graph) intent) (none, [])
          with ⟨_ | ⟨d, peer⟩, related⟩
        · rw [looked] at nothing
          simp only
          rw [isGreen_readingLevel]
          constructor
          · exact fun unread => ⟨intent, declared, inScope, unclaimed, unread,
              (nothing.mp rfl).2⟩
          · rintro ⟨other, quiet⟩
            exact quiet.unread
        · rw [looked] at near nothing
          have within : d ≤ 2 := near (d, peer) rfl
          simp only
          refine iff_of_false ?_ ?_
          · split_ifs <;> simp [CoordinationLevel.isGreen]
          · rintro ⟨other, quiet⟩
            obtain rfl := only quiet
            exact absurd (nothing.mpr ⟨rfl, quiet.unlike⟩) (by simp)
    · rw [Bool.not_eq_true] at inScope
      rw [inScope, Bool.not_false, if_pos rfl]
      refine iff_of_false (by simp [CoordinationLevel.isGreen]) ?_
      rintro ⟨other, quiet⟩
      obtain rfl := only quiet
      exact absurd (inScope.symm.trans quiet.inScope) (by simp)

/-- **Where the distance is that of the calls.** It is exactly for symbols of which either none
calls another within 32 steps or one is in both lists; and an edit near a peer's symbol is never
let pass exactly where something else warns of it. -/
theorem isCallDistance_iff (generated : Generated graph) (a b : List String)
    (symbols : ∀ s ∈ a, IsSymbol graph s) (symbols' : ∀ s ∈ b, IsSymbol graph s)
    (ctx : EvalContext) (supplied : ctx.graph = some graph) :
    (IsCallDistance graph a b (scopeDistance a b (some graph)) ↔
        ∀ n ≤ 32, Linked graph a b n → ∃ s ∈ a, s ∈ b) ∧
      ((CallNear graph ctx → (evaluate ctx).isGreen = false) ↔
        (CallNear graph ctx → ¬∃ intent, Quiet ctx intent)) := by
  constructor
  · rw [scopeDistance_some generated, scopeDistance_of_symbols (fun s member =>
      (symbols s member).noPath) fun s member => (symbols' s member).noPath]
    split_ifs with shared
    · refine iff_of_true ⟨Nat.zero_le _, ?_, fun n below => absurd below (Nat.not_lt_zero n)⟩
        fun _ _ _ => shared
      obtain ⟨s, first, second⟩ := shared
      obtain ⟨i, n, live, rfl⟩ := (symbols s first).named
      exact ⟨n.id, ⟨i, n, live, rfl, first⟩, ⟨i, n, live, rfl, second⟩⟩
    · exact ⟨fun none n within linked => absurd linked (none n within),
        fun all n within linked => shared (all n within linked)⟩
  · rw [← isGreen_evaluate_iff generated supplied, Bool.not_eq_true]

/-- A function with a generated id. -/
def sampleNode (id name : String) : GraphNode where
  id := id
  nodeType := .function
  name := name
  path := "src/main.rs"

def sampleGraph : GraphDatabase where
  graph :=
    { slots := [some (sampleNode "1" "f"), some (sampleNode "2" "g")]
      free := []
      arcs := [⟨0, 1, { edgeType := .calls, sourceId := "1", targetId := "2" }⟩]
      free_nodup := List.nodup_nil
      mem_free := by
        intro i
        match i with
        | 0 => simp
        | 1 => simp
        | i + 2 => simp
      arcs_live := by simp }
  indexMap := ((∅ : SlotMap String).insert "1" 0).insert "2" 1
  nameIndex := ((∅ : SlotIndex String).insert "f" [0]).insert "g" [1]

theorem nodeWeight_sampleGraph {i : Nat} {n : GraphNode} :
    sampleGraph.graph.nodeWeight i = some n ↔
      i = 0 ∧ n = sampleNode "1" "f" ∨ i = 1 ∧ n = sampleNode "2" "g" := by
  rw [StableGraph.nodeWeight_eq_some]
  match i with
  | 0 => simp [sampleGraph, eq_comm]
  | 1 => simp [sampleGraph, eq_comm]
  | i + 2 => simp [sampleGraph]

theorem slotKey_sampleGraph (key : GraphNode → String) (i : Nat) :
    slotKey sampleGraph.graph key i =
      if i = 0 then some (key (sampleNode "1" "f"))
      else if i = 1 then some (key (sampleNode "2" "g")) else none := by
  match i with
  | 0 => rfl
  | 1 => rfl
  | i + 2 => rfl

theorem generated_sampleGraph : Generated sampleGraph where
  consistent :=
    { ids := by
        intro k i
        rw [slotKey_sampleGraph]
        change (((∅ : SlotMap String).insert "1" 0).insert "2" 1).lookup k = some i ↔ _
        by_cases second : k = "2"
        · subst second
          rw [AList.lookup_insert]
          split_ifs <;> simp [sampleNode] <;> omega
        · rw [AList.lookup_insert_ne second]
          by_cases first : k = "1"
          · subst first
            rw [AList.lookup_insert]
            split_ifs <;> simp [sampleNode] <;> omega
          · rw [AList.lookup_insert_ne first, AList.lookup_empty]
            split_ifs <;> simp [sampleNode, Ne.symm first, Ne.symm second]
      anchored := by
        intro arc member
        obtain rfl := List.mem_singleton.mp member
        decide }
  names := by
    intro k
    have filed : sampleGraph.nameIndex.bucket k =
        if k = "g" then [1] else if k = "f" then [0] else [] := by
      change SlotIndex.bucket (((∅ : SlotIndex String).insert "f" [0]).insert "g" [1]) k = _
      rw [SlotIndex.bucket_insert, SlotIndex.bucket_insert, SlotIndex.bucket_empty]
    rw [filed]
    change _ ∧ ∀ i, _ ↔ slotKey sampleGraph.graph GraphNode.name i = some k
    by_cases second : k = "g"
    · subst second
      refine ⟨by simp, fun i => ?_⟩
      rw [if_pos rfl, slotKey_sampleGraph]
      split_ifs <;> simp [sampleNode] <;> omega
    · rw [if_neg second]
      by_cases first : k = "f"
      · subst first
        refine ⟨by simp, fun i => ?_⟩
        rw [if_pos rfl, slotKey_sampleGraph]
        split_ifs <;> simp [sampleNode] <;> omega
      · refine ⟨by simp [first], fun i => ?_⟩
        rw [if_neg first, slotKey_sampleGraph]
        split_ifs <;> simp [sampleNode, Ne.symm first, Ne.symm second]
  apart := by
    intro i j n m first second
    rw [nodeWeight_sampleGraph] at first second
    rcases first with ⟨rfl, rfl⟩ | ⟨rfl, rfl⟩ <;> rcases second with ⟨rfl, rfl⟩ | ⟨rfl, rfl⟩ <;>
      decide

theorem isSymbol_f : IsSymbol sampleGraph "f" :=
  ⟨⟨0, _, rfl, rfl⟩, by decide⟩

theorem isSymbol_g : IsSymbol sampleGraph "g" :=
  ⟨⟨1, _, rfl, rfl⟩, by decide⟩

theorem linked_sampleGraph : Linked sampleGraph ["f"] ["g"] 1 :=
  ⟨"2", ⟨"1", ⟨0, _, rfl, rfl, List.mem_singleton_self _⟩,
    ⟨_, List.mem_singleton_self _, rfl, rfl, rfl⟩⟩, ⟨1, _, rfl, rfl, List.mem_singleton_self _⟩⟩

def sampleContext : EvalContext where
  intent := some ⟨"alice", "refactor", ["f"]⟩
  target := "f"
  peerIntents := [⟨"bob", "rewrite", ["g"]⟩]
  peerClaims := []
  peerReading := []
  graph := some sampleGraph

theorem isCallDistance_iff_same :
    IsCallDistance sampleGraph ["f"] ["f"] (scopeDistance ["f"] ["f"] (some sampleGraph)) :=
  (isCallDistance_iff generated_sampleGraph ["f"] ["f"] (by simpa using isSymbol_f)
    (by simpa using isSymbol_f) sampleContext rfl).1.mpr
      fun _ _ _ => ⟨"f", List.mem_singleton_self _, List.mem_singleton_self _⟩

/-- One call apart, two symbols are taken to be unrelated, and the edit passes. -/
theorem isCallDistance_fails :
    ¬IsCallDistance sampleGraph ["f"] ["g"] (scopeDistance ["f"] ["g"] (some sampleGraph)) ∧
      CallNear sampleGraph sampleContext ∧ (evaluate sampleContext).isGreen = true := by
  refine ⟨?_, ?_, ?_⟩
  · rw [scopeDistance_some generated_sampleGraph,
      scopeDistance_of_symbols (by decide) (by decide), if_neg (by decide)]
    exact fun none => none 1 (by decide) linked_sampleGraph
  · exact ⟨_, rfl, _, List.mem_singleton_self _, "f", List.mem_singleton_self _, "g",
      List.mem_singleton_self _, isSymbol_f, isSymbol_g, 1, by decide, linked_sampleGraph⟩
  · refine (isGreen_evaluate_iff generated_sampleGraph rfl).mpr ⟨_, rfl, by decide, ?_, ?_, ?_⟩
    · exact fun claim member => absurd member List.not_mem_nil
    · exact fun entry member => absurd member List.not_mem_nil
    · intro peer member sa first sb second
      obtain rfl := List.mem_singleton.mp member
      obtain rfl := List.mem_singleton.mp first
      obtain rfl := List.mem_singleton.mp second
      decide

end Lain.Server.Evaluation
