import Mathlib
import Lain.Server.ClaimsWalk

/-!
# Exact evidence

The walk of a graph is the search for first trails, with the evidence of the trail
beside every node.
-/

namespace Lain.Server

open Foundation Foundation.FirstTrails Lain.Graph

def follows (edge : GraphEdge) : Bool :=
  isDependency edge.edgeType || isHeuristicEdge edge.edgeType

inductive ChainTo (graph : GraphDatabase) (seed : String) : List GraphEdge → String → Prop
  | seed : ChainTo graph seed [] seed
  | step {edges : List GraphEdge} {id : String} {edge : GraphEdge} : ChainTo graph seed edges id →
      edge ∈ graph.getEdgesTo id → follows edge = true →
      ChainTo graph seed (edges ++ [edge]) edge.sourceId

/-- A node other than the seed that can be claimed and from which a chain leads to it. -/
structure Affected (graph : GraphDatabase) (seed : GraphNode) (repoFallback id : String)
    (node : GraphNode) : Prop where
  other : id ≠ seed.id
  chain : ∃ edges, ChainTo graph seed.id edges id
  known : graph.getNode id = some node
  claimable : claimable node repoFallback = true

/-- **Evidence classes are exact**: what is claimed is exactly the places of affected
nodes, a place is verified exactly when some chain from one of its nodes is proven,
and what is missing is said of the seed only. -/
structure ExactEvidence (graph : GraphDatabase) (seed : GraphNode) (repoFallback : String)
    (claims : List Claim) : Prop where
  reported : ∀ place, (∃ c ∈ claims, c.place = place ∧ c.evidence ≠ .missing) ↔
    ∃ id node, Affected graph seed repoFallback id node ∧ placeOf node repoFallback = place
  verified : ∀ place, (∃ c ∈ claims, c.place = place ∧ c.evidence = .verified) ↔
    ∃ id node, Affected graph seed repoFallback id node ∧ placeOf node repoFallback = place ∧
      ∃ edges, ChainTo graph seed.id edges id ∧ ∀ edge ∈ edges, Proven edge
  missing : ∀ c ∈ claims, c.evidence = .missing → c.place = placeOf seed repoFallback

def followed (graph : GraphDatabase) (id : String) : List (GraphEdge × String) :=
  ((graph.getEdgesTo id).filter follows).map fun edge => (edge, edge.sourceId)

def FirstChainProven (graph : GraphDatabase) (seed id : String) : Prop :=
  ∃ t, First (followed graph) seed t id ∧ ∀ step ∈ t, Proven step.2

/-- Where some chain from a place is proven, the first chain of one of its nodes is. -/
def FirstChainsProve (graph : GraphDatabase) (seed : GraphNode) (repoFallback : String) : Prop :=
  ∀ id node, Affected graph seed repoFallback id node →
    (∃ edges, ChainTo graph seed.id edges id ∧ ∀ edge ∈ edges, Proven edge) →
      ∃ id' node', Affected graph seed repoFallback id' node' ∧
        placeOf node' repoFallback = placeOf node repoFallback ∧
        FirstChainProven graph seed.id id'

/-! ### Chains are trails -/

variable {graph : GraphDatabase}

theorem mem_followed {id : String} {edge : GraphEdge} {source : String} :
    (edge, source) ∈ followed graph id ↔
      edge ∈ graph.getEdgesTo id ∧ follows edge = true ∧ edge.sourceId = source := by
  unfold followed
  rw [List.mem_map]
  constructor
  · rintro ⟨e, member, same⟩
    obtain ⟨rfl, rfl⟩ := Prod.mk.inj same
    obtain ⟨listed, kept⟩ := List.mem_filter.mp member
    exact ⟨listed, kept, rfl⟩
  · rintro ⟨listed, kept, rfl⟩
    exact ⟨edge, List.mem_filter.mpr ⟨listed, kept⟩, rfl⟩

theorem chainTo_of_spells {seed id : String} {t : Trail GraphEdge}
    (spells : Spells (followed graph) seed t id) : ChainTo graph seed (t.map Prod.snd) id := by
  induction spells with
  | start => exact .seed
  | @step t u v k edge _ here ih =>
    obtain ⟨listed, kept, rfl⟩ := mem_followed.mp (List.mem_of_getElem? here)
    rw [List.map_append, List.map_singleton]
    exact .step ih listed kept

theorem exists_spells {seed id : String} {edges : List GraphEdge}
    (chain : ChainTo graph seed edges id) :
    ∃ t, Spells (followed graph) seed t id ∧ t.map Prod.snd = edges := by
  induction chain with
  | seed => exact ⟨[], .start, rfl⟩
  | @step edges id edge _ listed kept ih =>
    obtain ⟨t, spells, same⟩ := ih
    obtain ⟨k, here⟩ := List.mem_iff_getElem?.mp (mem_followed.mpr ⟨listed, kept, rfl⟩)
    exact ⟨t ++ [(k, edge)], .step spells here, by rw [List.map_append, same]; rfl⟩

/-! ### The walk is the search -/

def accOf (t : Trail GraphEdge) : Acc :=
  t.foldl (fun acc step => acc.apply (evidenceFromProvenance step.2.provenance).1
    (evidenceFromProvenance step.2.provenance).2) Acc.verified

theorem accOf_concat (t : Trail GraphEdge) (k : Nat) (edge : GraphEdge) :
    accOf (t ++ [(k, edge)]) = (accOf t).apply (evidenceFromProvenance edge.provenance).1
      (evidenceFromProvenance edge.provenance).2 :=
  List.foldl_concat ..

theorem evidence_accOf (t : Trail GraphEdge) : (accOf t).evidence = weakest (t.map Prod.snd) := by
  induction t using List.reverseRecOn with
  | nil => rfl
  | append_singleton t step ih =>
    obtain ⟨k, edge⟩ := step
    rw [accOf_concat, Acc.evidence_apply, ih, List.map_append, List.map_singleton,
      weakest_concat]
    rfl

variable {seed : GraphNode} {repoFallback : String}

variable (graph seed repoFallback) in
def claimOf (e : String × Trail GraphEdge) : Option Claim :=
  if e.1 = seed.id then none
  else (graph.getNode e.1).bind fun node => claimForNode node (accOf e.2) repoFallback

variable (graph seed repoFallback) in
structure InStep (s : Search String GraphEdge) (w : Walk) : Prop where
  queued : w.queued = s.found.map Prod.fst
  queue : w.queue = s.waiting.map fun e => (e.1, accOf e.2)
  out : w.out = s.found.filterMap (claimOf graph seed repoFallback)
  seeded : seed.id ∈ s.found.map Prod.fst

theorem InStep.edge {s : Search String GraphEdge} {w : Walk}
    (inStep : InStep graph seed repoFallback s w) (t : Trail GraphEdge) {edge : GraphEdge}
    (kept : follows edge = true) (k : Nat) :
    InStep graph seed repoFallback (s.discover t ((edge, edge.sourceId), k))
      (walkEdge graph repoFallback [seed.id] (accOf t) w edge) := by
  have skipped : (!isDependency edge.edgeType && !isHeuristicEdge edge.edgeType) = false := by
    unfold follows at kept
    revert kept
    cases isDependency edge.edgeType <;> cases isHeuristicEdge edge.edgeType <;> simp
  unfold walkEdge Search.discover
  rw [skipped, if_neg Bool.false_ne_true]
  by_cases known : edge.sourceId ∈ s.found.map Prod.fst
  · simp only [if_pos known]
    rw [if_pos (Or.inr (inStep.queued ▸ known))]
    exact inStep
  · have fresh : ¬ (edge.sourceId ∈ [seed.id] ∨ edge.sourceId ∈ w.queued) := by
      rw [inStep.queued, List.mem_singleton]
      rintro (same | old)
      · exact known (same ▸ inStep.seeded)
      · exact known old
    have other : edge.sourceId ≠ seed.id := fun same => fresh (Or.inl (by simp [same]))
    simp only [if_neg known]
    rw [if_neg fresh, ← accOf_concat t k edge]
    have claimed : claimOf graph seed repoFallback (edge.sourceId, t ++ [(k, edge)]) =
        (graph.getNode edge.sourceId).bind fun node =>
          claimForNode node (accOf (t ++ [(k, edge)])) repoFallback := if_neg other
    obtain ⟨queued, queue, out⟩ := (w.push edge.sourceId (accOf (t ++ [(k, edge)]))).meet_fields
      (graph.getNode edge.sourceId) (accOf (t ++ [(k, edge)])) repoFallback
    refine ⟨?_, ?_, ?_, ?_⟩
    · rw [queued, List.map_append, ← inStep.queued]
      rfl
    · rw [queue, List.map_append, ← inStep.queue]
      rfl
    · rw [out, ← claimed, List.filterMap_append, ← inStep.out]
      refine congrArg _ ?_
      cases claim : claimOf graph seed repoFallback (edge.sourceId, t ++ [(k, edge)]) with
      | none => simp [claim]
      | some c => simp [claim]
    · rw [List.map_append]
      exact List.mem_append_left _ inStep.seeded

theorem InStep.foldl (t : Trail GraphEdge) (edges : List GraphEdge) :
    ∀ {s : Search String GraphEdge} {w : Walk} (k : Nat), InStep graph seed repoFallback s w →
      InStep graph seed repoFallback
        ((((edges.filter follows).map fun edge => (edge, edge.sourceId)).zipIdx k).foldl
          (Search.discover t) s)
        (edges.foldl (walkEdge graph repoFallback [seed.id] (accOf t)) w) := by
  induction edges with
  | nil => exact fun _ inStep => inStep
  | cons edge rest ih =>
    intro s w k inStep
    by_cases kept : follows edge = true
    · rw [List.filter_cons_of_pos kept, List.map_cons, List.zipIdx_cons, List.foldl_cons,
        List.foldl_cons]
      exact ih (k + 1) (inStep.edge t kept k)
    · have same : walkEdge graph repoFallback [seed.id] (accOf t) w edge = w := by
        unfold follows at kept
        unfold walkEdge
        refine if_pos ?_
        simpa using kept
      rw [List.filter_cons_of_neg kept, List.foldl_cons, same]
      exact ih k inStep

theorem getIncomingEdges_eq_nil {overlay : VolatileOverlay} (empty : overlay.getAllNodes = [])
    (id : String) : overlay.getIncomingEdges id = [] := by
  have arcs : overlay.graph.arcs = [] := by
    refine List.eq_nil_iff_forall_not_mem.mpr fun a member => ?_
    have live := (overlay.graph.arcs_live a member).1
    rw [show overlay.graph.nodes = [] from empty] at live
    exact absurd live (Nat.not_lt_zero _)
  unfold VolatileOverlay.getIncomingEdges
  rw [arcs]
  cases overlay.nodeIndexMap.get? id <;> rfl

theorem InStep.walkFrom {overlay : VolatileOverlay} (empty : overlay.getAllNodes = []) (fuel : Nat) :
    ∀ {s : Search String GraphEdge} {w : Walk}, InStep graph seed repoFallback s w →
      InStep graph seed repoFallback (s.explore (followed graph) fuel)
        (walkFrom graph overlay repoFallback [seed.id] fuel w) := by
  induction fuel with
  | zero => exact fun inStep => inStep
  | succ fuel ih =>
    intro s w inStep
    unfold Search.explore Lain.Server.walkFrom
    cases waiting : s.waiting with
    | nil =>
      have done : w.queue = [] := by rw [inStep.queue, waiting]; rfl
      rw [done]
      exact inStep
    | cons e rest =>
      obtain ⟨id, t⟩ := e
      have queue : w.queue = (id, accOf t) :: rest.map fun e => (e.1, accOf e.2) := by
        rw [inStep.queue, waiting]
        rfl
      rw [queue]
      simp only [getIncomingEdges_eq_nil empty, List.foldl_nil]
      refine ih (InStep.foldl t (graph.getEdgesTo id) 0 ?_)
      exact ⟨inStep.queued, rfl, inStep.out, inStep.seeded⟩

def sources (graph : GraphDatabase) (seed : String) : List String :=
  seed :: graph.graph.arcs.map fun a => a.weight.sourceId

theorem mem_sources {id : String} {step : GraphEdge × String} (seed : String)
    (member : step ∈ followed graph id) : step.2 ∈ sources graph seed := by
  obtain ⟨edge, source⟩ := step
  obtain ⟨listed, -, rfl⟩ := mem_followed.mp member
  refine List.mem_cons_of_mem _ ?_
  unfold GraphDatabase.getEdgesTo at listed
  split at listed
  · exact absurd listed List.not_mem_nil
  · obtain ⟨a, arc, rfl⟩ := List.mem_map.mp (List.mem_reverse.mp listed)
    exact List.mem_map.mpr ⟨a, (List.mem_filter.mp arc).1, rfl⟩

theorem searched (graph : GraphDatabase) (seed : String) {fuel : Nat}
    (enough : graph.graph.arcs.length + 1 ≤ fuel) :
    ∃ done, Inv (followed graph) seed done
        ((Search.seed seed).explore (followed graph) fuel) ∧
      ((Search.seed seed).explore (followed graph) fuel).waiting = [] := by
  have begun : Inv (followed graph) seed [] (Search.seed seed) := inv_seed seed
  refine begun.explore (sources graph seed) List.mem_cons_self
    (fun _ _ member => mem_sources seed member) fuel ?_
  rw [sources, List.length_cons, List.length_map, List.length_nil, Nat.zero_add]
  exact enough

theorem exists_first {id : String} {edges : List GraphEdge} {seed : String}
    (chain : ChainTo graph seed edges id) : ∃ t, First (followed graph) seed t id := by
  obtain ⟨done, inv, quiet⟩ := searched graph seed le_rfl
  obtain ⟨t, spells, -⟩ := exists_spells chain
  obtain ⟨first, found, -⟩ := inv.complete quiet spells
  exact ⟨first, (inv.mem_found quiet).mp found⟩

section Walked

variable {overlay : VolatileOverlay} (empty : overlay.getAllNodes = [])

include empty

variable (graph seed repoFallback) in
theorem inStep_walked : ∃ s : Search String GraphEdge,
    InStep graph seed repoFallback s (walked graph overlay seed repoFallback) ∧
      s.waiting = [] ∧ ∀ id t, (id, t) ∈ s.found ↔ First (followed graph) seed.id t id := by
  have enough : graph.graph.arcs.length + 1 ≤
      graph.graph.arcs.length + overlay.graph.arcs.length + 1 := by omega
  obtain ⟨done, inv, quiet⟩ := searched graph seed.id enough
  have start : InStep graph seed repoFallback (Search.seed seed.id)
      { queued := [seed.id], queue := [(seed.id, Acc.verified)] } :=
    ⟨rfl, rfl, by simp [Search.seed, claimOf], List.mem_singleton_self _⟩
  exact ⟨_, start.walkFrom empty _, quiet, fun id t => inv.mem_found quiet⟩

/-- **The walk finds what depends on the seed, each node with its first chain.** -/
theorem exists_walked {place : Place} {evidence : Evidence} :
    (∃ c ∈ (walked graph overlay seed repoFallback).out, c.view = (place, evidence)) ↔
      ∃ id node t, First (followed graph) seed.id t id ∧
        Affected graph seed repoFallback id node ∧ placeOf node repoFallback = place ∧
        weakest (t.map Prod.snd) = evidence := by
  obtain ⟨s, inStep, -, found⟩ := inStep_walked graph seed repoFallback empty
  rw [inStep.out]
  constructor
  · rintro ⟨c, member, view⟩
    obtain ⟨⟨id, t⟩, known, claimed⟩ := List.mem_filterMap.mp member
    unfold claimOf at claimed
    split_ifs at claimed with other
    obtain ⟨node, here, claimed⟩ := Option.bind_eq_some_iff.mp claimed
    have said := claimForNode_view node (accOf t) repoFallback
    rw [claimed, Option.map_some, view] at said
    split_ifs at said with can
    obtain ⟨rfl, rfl⟩ := Prod.mk.inj (Option.some.inj said)
    have first := (found id t).mp known
    exact ⟨id, node, t, first, ⟨other, ⟨_, chainTo_of_spells first.1⟩, here, can⟩, rfl,
      (evidence_accOf t).symm⟩
  · rintro ⟨id, node, t, first, affected, rfl, rfl⟩
    have said := claimForNode_view node (accOf t) repoFallback
    rw [affected.claimable, if_pos rfl, evidence_accOf] at said
    obtain ⟨c, claimed, view⟩ := Option.map_eq_some_iff.mp said
    refine ⟨c, List.mem_filterMap.mpr ⟨(id, t), (found id t).mpr first, ?_⟩, view⟩
    unfold claimOf
    rw [if_neg affected.other, affected.known]
    exact claimed

end Walked

/-! ### Exactness -/

theorem missingClaimForNode_view {node : GraphNode} {note : String} {c : Claim}
    (claimed : missingClaimForNode node repoFallback note = some c) :
    c.view = (placeOf node repoFallback, .missing) := by
  obtain ⟨claim, new, rfl⟩ := Option.map_eq_some_iff.mp claimed
  unfold Claim.new at new
  split_ifs at new
  obtain rfl := Option.some.inj new
  rfl

theorem mem_claimsFromGraph {overlay : VolatileOverlay} {c : Claim}
    (member : c ∈ claimsFromGraph graph overlay seed repoFallback) :
    c ∈ (walked graph overlay seed repoFallback).out ∨
      c.view = (placeOf seed repoFallback, .missing) := by
  unfold claimsFromGraph at member
  rcases List.mem_append.mp member with member | unnameable
  · rcases List.mem_append.mp member with found | unfound
    · exact Or.inl found
    · split_ifs at unfound
      · exact Or.inr (missingClaimForNode_view (Option.mem_toList.mp unfound))
      · exact absurd unfound List.not_mem_nil
  · split_ifs at unnameable
    · exact Or.inr (missingClaimForNode_view (Option.mem_toList.mp unnameable))
    · exact absurd unnameable List.not_mem_nil

theorem mem_claimsFromGraph_of_walked {overlay : VolatileOverlay} {c : Claim}
    (member : c ∈ (walked graph overlay seed repoFallback).out) :
    c ∈ claimsFromGraph graph overlay seed repoFallback :=
  List.mem_append_left _ (List.mem_append_left _ member)

theorem weakest_ne_missing (edges : List GraphEdge) : weakest edges ≠ .missing := by
  rw [weakest_eq]
  split_ifs <;> decide

section Exact

variable {overlay : VolatileOverlay} (empty : overlay.getAllNodes = [])

include empty

theorem exists_merged {place : Place} {evidence : Evidence} (above : evidence ≠ .missing) :
    (∃ c ∈ mergeClaims (claimsFromGraph graph overlay seed repoFallback),
        c.place = place ∧ evidence ≤ c.evidence) ↔
      ∃ id node t, First (followed graph) seed.id t id ∧
        Affected graph seed repoFallback id node ∧ placeOf node repoFallback = place ∧
        evidence ≤ weakest (t.map Prod.snd) := by
  rw [exists_mergeClaims]
  constructor
  · rintro ⟨c, member, rfl, enough⟩
    rcases mem_claimsFromGraph member with found | missing
    · obtain ⟨id, node, t, first, affected, same, weak⟩ :=
        (exists_walked empty).mp ⟨c, found, rfl⟩
      exact ⟨id, node, t, first, affected, same, weak ▸ enough⟩
    · have lowest : c.evidence = .missing := (Prod.mk.inj missing).2
      rw [lowest] at enough
      exact absurd (le_antisymm enough (by cases evidence <;> decide)) above
  · rintro ⟨id, node, t, first, affected, same, enough⟩
    obtain ⟨c, found, view⟩ := (exists_walked empty).mpr
      ⟨id, node, t, first, affected, same, rfl⟩
    obtain ⟨here, weak⟩ := Prod.mk.inj view
    exact ⟨c, mem_claimsFromGraph_of_walked found, here, weak ▸ enough⟩

theorem reported_iff (place : Place) :
    (∃ c ∈ mergeClaims (claimsFromGraph graph overlay seed repoFallback),
        c.place = place ∧ c.evidence ≠ .missing) ↔
      ∃ id node, Affected graph seed repoFallback id node ∧
        placeOf node repoFallback = place := by
  have known : ∀ evidence : Evidence, evidence ≠ .missing ↔ .needsInvestigation ≤ evidence := by
    intro evidence
    cases evidence <;> decide
  simp only [known]
  rw [exists_merged empty (by decide)]
  constructor
  · rintro ⟨id, node, t, -, affected, same, -⟩
    exact ⟨id, node, affected, same⟩
  · rintro ⟨id, node, affected, same⟩
    obtain ⟨edges, chain⟩ := affected.chain
    obtain ⟨t, first⟩ := exists_first chain
    exact ⟨id, node, t, first, affected, same, (known _).mp (weakest_ne_missing _)⟩

theorem verified_iff (place : Place) :
    (∃ c ∈ mergeClaims (claimsFromGraph graph overlay seed repoFallback),
        c.place = place ∧ c.evidence = .verified) ↔
      ∃ id node, Affected graph seed repoFallback id node ∧
        placeOf node repoFallback = place ∧ FirstChainProven graph seed.id id := by
  have known : ∀ evidence : Evidence, evidence = .verified ↔ .verified ≤ evidence := by
    intro evidence
    cases evidence <;> decide
  simp only [known]
  rw [exists_merged empty (by decide)]
  simp only [← known, weakest_eq_verified, List.forall_mem_map]
  constructor
  · rintro ⟨id, node, t, first, affected, same, proven⟩
    exact ⟨id, node, affected, same, t, first, proven⟩
  · rintro ⟨id, node, affected, same, t, first, proven⟩
    exact ⟨id, node, t, first, affected, same, proven⟩

theorem missing_place {c : Claim}
    (member : c ∈ mergeClaims (claimsFromGraph graph overlay seed repoFallback))
    (missing : c.evidence = .missing) : c.place = placeOf seed repoFallback := by
  obtain ⟨witness, listed, same, attained⟩ := (mem_mergeClaims member).attained
  rw [← key_eq_key.mp same]
  rcases mem_claimsFromGraph listed with found | about
  · obtain ⟨id, node, t, -, -, -, weak⟩ := (exists_walked empty).mp ⟨witness, found, rfl⟩
    exact absurd (weak.trans (attained.trans missing)) (weakest_ne_missing _)
  · exact (Prod.mk.inj about).1

end Exact

theorem FirstChainProven.exists_chain {seed id : String}
    (proven : FirstChainProven graph seed id) :
    ∃ edges, ChainTo graph seed edges id ∧ ∀ edge ∈ edges, Proven edge := by
  obtain ⟨t, first, proven⟩ := proven
  exact ⟨_, chainTo_of_spells first.1, List.forall_mem_map.mpr proven⟩

/-- **Evidence classes are exact when first chains prove** what any chain does, and only
then. -/
theorem exactEvidence_iff (graph : GraphDatabase) (overlay : VolatileOverlay)
    (empty : overlay.getAllNodes = []) (seed : GraphNode) (repoFallback : String) :
    ExactEvidence graph seed repoFallback
        (mergeClaims (claimsFromGraph graph overlay seed repoFallback)) ↔
      FirstChainsProve graph seed repoFallback := by
  constructor
  · intro exact' id node affected proven
    have claimed := (exact'.verified (placeOf node repoFallback)).mpr
      ⟨id, node, affected, rfl, proven⟩
    exact (verified_iff empty _).mp claimed
  · intro prove
    refine ⟨reported_iff empty, fun place => (verified_iff empty place).trans ?_,
      fun c member missing => missing_place empty member missing⟩
    constructor
    · rintro ⟨id, node, affected, same, first⟩
      exact ⟨id, node, affected, same, first.exists_chain⟩
    · rintro ⟨id, node, affected, rfl, proven⟩
      exact prove id node affected proven

/-- A function of a repository. -/
def sampleFunction (name : String) : GraphNode where
  id := name
  nodeType := .function
  name := name
  path := "a.rs"

def sampleEdges : List GraphEdge :=
  [ { edgeType := .calls, sourceId := "caller", targetId := "callee" },
    { edgeType := .dynamicDispatch, sourceId := "caller", targetId := "callee"
      provenance := some (.heuristic "dynamic_dispatch" (2 / 5)) } ]

def guessedCall : GraphDatabase :=
  (((({} : GraphDatabase).putNode (sampleFunction "callee")).bind fun db =>
    db.putNode (sampleFunction "caller")).bind fun db =>
      db.addAll (sampleEdges.map fun edge => ((1, 0), edge))).getD {}

theorem exactEvidence_iff_new :
    ExactEvidence guessedCall (sampleFunction "caller") "r"
        (mergeClaims (claimsFromGraph guessedCall .new (sampleFunction "caller") "r")) ↔
      FirstChainsProve guessedCall (sampleFunction "caller") "r" :=
  exactEvidence_iff guessedCall .new rfl (sampleFunction "caller") "r"

/-- The guess is listed first, so the call is not verified. -/
theorem not_exactEvidence_guessedCall :
    ¬ ExactEvidence guessedCall (sampleFunction "callee") "r"
      (mergeClaims (claimsFromGraph guessedCall .new (sampleFunction "callee") "r")) := by
  intro exact'
  have chain : ChainTo guessedCall "callee" [sampleEdges.get ⟨0, by decide⟩] "caller" := by
    have start : ChainTo guessedCall "callee" [] "callee" := .seed
    exact start.step (by decide +kernel) (by decide)
  obtain ⟨c, member, -, verified⟩ := (exact'.verified ("r", "a.rs", "caller")).mpr
    ⟨"caller", sampleFunction "caller",
      ⟨by decide, ⟨_, chain⟩, by decide +kernel, by decide +kernel⟩, by decide +kernel,
      _, chain, by decide⟩
  obtain ⟨witness, listed, -, enough⟩ := exists_mergeClaims.mp ⟨c, member, rfl, verified.ge⟩
  have flagged : ∀ c ∈ claimsFromGraph guessedCall .new (sampleFunction "callee") "r",
      ¬ .verified ≤ c.evidence := by
    decide +kernel
  exact flagged witness listed enough

end Lain.Server
