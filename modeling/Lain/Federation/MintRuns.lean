import Mathlib
import Lain.Federation.MintSurvey

/-!
# Passes after passes

A pass skips what is there and retracts by endpoints and type, so what it leaves depends on what
earlier passes left.
-/

namespace Lain.Federation

open Foundation Lain.Graph

/-! ### The nodes that a pass leaves -/

section Nodes

variable {db after : GraphDatabase} {failure : Option LainError}

theorem foldlM_of_upsertNodesBatch {nodes : List GraphNode}
    (done : GraphBackend.upsertNodesBatch db failure nodes = .ok after ()) :
    nodes.foldlM GraphDatabase.putNode db = some after := by
  unfold GraphBackend.upsertNodesBatch at done
  split at done
  next none =>
      cases done
      rw [List.isEmpty_iff.mp none]
      rfl
  next =>
      split at done
      · cases done
      · unfold GraphDatabase.insertNodesBatch at done
        split at done
        · cases done
        · cases put : nodes.foldlM GraphDatabase.putNode db with
          | none =>
            simp only [put, GraphDatabase.settle, andThen] at done
            cases done
          | some middle =>
            simp only [put, GraphDatabase.settle, andThen] at done
            rcases save_cases failure middle () with saved | ⟨reason, _, unsaved⟩
            · rw [saved] at done
              cases done
              rfl
            · rw [unsaved] at done
              cases done

theorem slots_addAll {batch : List ((Nat × Nat) × GraphEdge)}
    (added : db.addAll batch = some after) : after.graph.slots = db.graph.slots := by
  unfold GraphDatabase.addAll at added
  induction batch generalizing db with
  | nil => rw [← Option.some.inj added]
  | cons entry rest ih =>
    rw [List.foldlM_cons] at added
    obtain ⟨middle, first, later⟩ := Option.bind_eq_some_iff.mp added
    rw [ih later]
    unfold GraphDatabase.addEdge at first
    obtain ⟨graph, linked, rfl⟩ := Option.map_eq_some_iff.mp first
    unfold StableGraph.addEdge at linked
    split at linked
    · rw [← Option.some.inj linked]
    · cases linked

theorem nodesOf_upsertEdgesBatch {edges : List GraphEdge}
    (done : GraphBackend.upsertEdgesBatch db failure edges = .ok after ()) :
    nodesOf after = nodesOf db := by
  unfold GraphBackend.upsertEdgesBatch at done
  split at done
  next => cases done; rfl
  next =>
      unfold GraphDatabase.upsertEdgesBatchStrict at done
      split at done
      · cases done
      · split at done
        · cases done
        next resolved _ =>
            cases added : db.addAll (db.newInBatch [] resolved) with
            | none =>
              simp only [added, GraphDatabase.settle, andThen] at done
              cases done
            | some middle =>
              simp only [added, GraphDatabase.settle, andThen] at done
              rcases save_cases failure middle () with saved | ⟨reason, _, unsaved⟩
              · rw [saved] at done
                cases done
                unfold nodesOf
                rw [slots_addAll added]
              · rw [unsaved] at done
                cases done

theorem nodesOf_removeEdges {edges : List GraphEdge} {removed : Nat}
    (done : GraphBackend.removeEdges db failure edges = .ok after removed) :
    nodesOf after = nodesOf db := by
  unfold GraphBackend.removeEdges GraphDatabase.removeEdges at done
  split at done
  · cases done
  · dsimp only [andThen] at done
    split at done
    · unfold save at done
      split at done
      · cases done
        rfl
      · cases done
    · cases done
      rfl

theorem carryOut_nodes {plan : MintPlan} {failures : SaveFailures} {report : MintReport}
    (done : plan.carryOut failures db = .ok after report) :
    ∃ first, plan.newFileNodes.foldlM GraphDatabase.putNode db = some first ∧
      nodesOf after = nodesOf first := by
  unfold MintPlan.carryOut at done
  cases nodes : GraphBackend.upsertNodesBatch db failures.nodes plan.newFileNodes with
  | error _ _ => rw [nodes] at done; cases done
  | panicked => rw [nodes] at done; cases done
  | ok first _ =>
    rw [nodes] at done
    refine ⟨first, foldlM_of_upsertNodesBatch nodes, ?_⟩
    simp only [andThen] at done
    cases edges : GraphBackend.upsertEdgesBatch first failures.edges plan.newEdges with
    | error _ _ => rw [edges] at done; cases done
    | panicked => rw [edges] at done; cases done
    | ok second _ =>
      rw [edges] at done
      simp only at done
      split at done
      next =>
          cases done
          exact nodesOf_upsertEdgesBatch edges
      next =>
          cases removal : GraphBackend.removeEdges second failures.removal plan.obsolete with
          | error _ _ => rw [removal] at done; cases done
          | panicked => rw [removal] at done; cases done
          | ok third _ =>
            rw [removal] at done
            cases done
            exact (nodesOf_removeEdges removal).trans (nodesOf_upsertEdgesBatch edges)

end Nodes

/-! ### What offers depend on -/

theorem foldl_coverage_proofs (labels : SortedMap String String) (edges : List GraphEdge) :
    ∀ coverage : BusCoverage, edges.foldl (BusCoverage.add labels) coverage =
      (edges.filter isProof).foldl (BusCoverage.add labels) coverage := by
  induction edges with
  | nil => exact fun _ => rfl
  | cons e edges ih =>
    intro coverage
    by_cases proves : isProof e = true
    · rw [List.filter_cons_of_pos proves, List.foldl_cons, List.foldl_cons, ih]
    · have same : coverage.add labels e = coverage := by
        unfold BusCoverage.add
        rw [Bool.not_eq_true] at proves
        rw [proves, Bool.false_and]
        rfl
      rw [List.filter_cons_of_neg proves, List.foldl_cons, same, ih]

/-- **The offers depend on the proofs alone** among the edges. -/
theorem batches_eq_of_proofs {seen : Observations} {nodes : List GraphNode}
    {edges edges' : List GraphEdge} (same : edges.filter isProof = edges'.filter isProof) :
    seen.batches nodes edges = seen.batches nodes edges' := by
  unfold Observations.batches blockedPairs
  rw [foldl_coverage_proofs _ edges, foldl_coverage_proofs _ edges', same]

theorem batches_again {seen : Observations} {nodes again : List GraphNode}
    {edges : List GraphEdge}
    (indexed : nodeIndex seen.text again = (seen.survey nodes).state.index)
    (labels : topicLabels again = topicLabels nodes) :
    seen.batches again edges = seen.batches nodes edges := by
  have survey : seen.survey again =
      { seen.survey nodes with state := (seen.survey nodes).state.settled } :=
    takeSurvey_again indexed
  unfold Observations.batches
  rw [survey, labels]
  rfl

/-! ### The edges of other passes -/

def unminted (edges : List GraphEdge) : List GraphEdge :=
  edges.filter fun e => !isMintedEdge e

def detectorOf (e : GraphEdge) : String :=
  match e.provenance with
  | some (.heuristic detector _) => detector
  | _ => ""

def mintedQuads (edges : List GraphEdge) : Finset (Triple × String) :=
  ((edges.filter isMintedEdge).map fun e => (e.triple, detectorOf e)).toFinset

theorem mem_mintedQuads {edges : List GraphEdge} {quad : Triple × String} :
    quad ∈ mintedQuads edges ↔
      ∃ e ∈ edges, isMintedEdge e = true ∧ (e.triple, detectorOf e) = quad := by
  unfold mintedQuads
  rw [List.mem_toFinset, List.mem_map]
  constructor
  · rintro ⟨e, member, same⟩
    exact ⟨e, (List.mem_filter.mp member).1, (List.mem_filter.mp member).2, same⟩
  · rintro ⟨e, stored, minted, same⟩
    exact ⟨e, List.mem_filter.mpr ⟨stored, minted⟩, same⟩

theorem mem_unminted {edges : List GraphEdge} {e : GraphEdge} :
    e ∈ unminted edges ↔ e ∈ edges ∧ isMintedEdge e = false := by
  unfold unminted
  rw [List.mem_filter, Bool.not_eq_true']

theorem isProof_of_minted {e : GraphEdge} (minted : isMintedEdge e = true) :
    isProof e = false := by
  obtain ⟨detector, confidence, named, -⟩ := isMintedEdge_iff.mp minted
  unfold isProof
  rw [named]

theorem proofs_unminted (edges : List GraphEdge) :
    (unminted edges).filter isProof = edges.filter isProof := by
  unfold unminted
  rw [List.filter_filter]
  refine List.filter_congr fun e _ => ?_
  cases minted : isMintedEdge e with
  | true => rw [isProof_of_minted minted, Bool.false_and]
  | false => rw [Bool.not_false, Bool.and_true]

section Names

variable {blocked : List (String × String)} {files : SortedMap (String ×ₗ String) String}
  {offer : Triple × String}

theorem startsWith_of_mem_anchorOffers {coverage : BusCoverage} {endpoints : AnchorEndpoints}
    (offered : offer ∈ anchorOffers blocked coverage endpoints) :
    Text.startsWith offer.2 "anchor:" = true := by
  unfold anchorOffers at offered
  obtain ⟨entry, -, offered⟩ := List.mem_flatMap.mp offered
  dsimp only at offered
  split at offered
  · cases offered
  · obtain ⟨repos, -, offered⟩ := List.mem_flatMap.mp offered
    obtain ⟨a, -, offered⟩ := List.mem_flatMap.mp offered
    obtain ⟨b, -, offered⟩ := List.mem_flatMap.mp offered
    split at offered
    · cases offered
    · split at offered
      · cases offered
      · rcases List.mem_cons.mp offered with rfl | offered
        · exact startsWith_anchorDetector _ _
        · rw [List.mem_singleton.mp offered]
          exact startsWith_anchorDetector _ _

theorem eq_of_mem_cochangeOffers {cluster : List CommitRecord}
    (offered : offer ∈ cochangeOffers blocked files cluster) : offer.2 = "cochange" := by
  unfold cochangeOffers at offered
  split at offered
  · cases offered
  · obtain ⟨pair, -, offered⟩ := List.mem_flatMap.mp offered
    dsimp only at offered
    split at offered
    · cases offered
    · split at offered
      · cases offered
      · split at offered
        · cases offered
        · obtain ⟨fa, -, offered⟩ := List.mem_flatMap.mp offered
          obtain ⟨fb, -, offered⟩ := List.mem_flatMap.mp offered
          split at offered
          · split at offered
            · split at offered
              · cases offered
              · rw [List.mem_singleton.mp offered]
            · split at offered
              · cases offered
              · rw [List.mem_singleton.mp offered]
          · cases offered

theorem eq_of_mem_commitRefOffers {text : MinerText} {endpoints : AnchorEndpoints}
    {commit : CommitRecord} {batch : List (Triple × String)}
    (listed : batch ∈ commitRefOffers blocked text files endpoints commit)
    (offered : offer ∈ batch) : offer.2 = "commit-ref" := by
  unfold commitRefOffers at listed
  obtain ⟨anchor, -, listed⟩ := List.mem_flatMap.mp listed
  split at listed
  · cases listed
  · obtain ⟨entry, -, made⟩ := List.mem_filterMap.mp listed
    split at made
    · cases made
    · obtain ⟨target, -, rfl⟩ := Option.map_eq_some_iff.mp made
      obtain ⟨file, -, offered⟩ := List.mem_flatMap.mp offered
      split at offered
      · split at offered
        · cases offered
        · rw [List.mem_singleton.mp offered]
      · cases offered

end Names

theorem isMintedEdge_heuristicEdge {seen : Observations} {nodes : List GraphNode}
    {edges : List GraphEdge} {batches : List (List (Triple × String))}
    (made : seen.batches nodes edges = some batches) {offer : Triple × String}
    (offered : offer ∈ batches.flatten) : isMintedEdge (heuristicEdge offer) = true := by
  have named : Text.startsWith offer.2 "anchor:" = true ∨ offer.2 = "cochange" ∨
      offer.2 = "commit-ref" := by
    unfold Observations.batches at made
    obtain ⟨clusters, -, rfl⟩ := Option.map_eq_some_iff.mp made
    obtain ⟨batch, listed, inside⟩ := List.mem_flatten.mp offered
    rcases List.mem_append.mp listed with front | ref
    · rcases List.mem_cons.mp front with rfl | cluster
      · exact .inl (startsWith_of_mem_anchorOffers inside)
      · obtain ⟨commits, -, rfl⟩ := List.mem_map.mp cluster
        exact .inr (.inl (eq_of_mem_cochangeOffers inside))
    · obtain ⟨commit, -, mentioned⟩ := List.mem_flatMap.mp ref
      exact .inr (.inr (eq_of_mem_commitRefOffers mentioned inside))
  exact isMintedEdge_iff.mpr ⟨_, _, rfl, named⟩

/-! ### Reconciling -/

def presentUnminted (edges : List GraphEdge) (triple : Triple) : Bool :=
  decide (triple ∈ (unminted edges).map GraphEdge.triple)

/-- What a pass would make of its offers if no edge had been minted: a function of the nodes and the
other edges. -/
def Observations.fresh (seen : Observations) (nodes : List GraphNode) (edges : List GraphEdge) :
    Option (Offers Triple String) :=
  (seen.batches nodes edges).map (Offers.takeAll (presentUnminted edges) edgeLimit)

/-- **A pass reconciles**: what it leaves is as if no edge had been minted before, and settled. -/
structure Reconciled (seen : Observations) (db after : GraphDatabase) : Prop where
  /-- The minted edges are those of a pass over the other edges. -/
  anew : ∃ offers, seen.fresh (nodesOf db) (unminted db.edges) = some offers ∧
    mintedQuads after.edges = offers.taken.toFinset
  /-- The other edges are unchanged. -/
  others : unminted after.edges = unminted db.edges
  /-- A second pass adds nothing and retracts nothing. -/
  settled : ∃ plan, mintPlan seen after = some plan ∧ plan.newFileNodes = [] ∧
    plan.newEdges = [] ∧ plan.obsolete = []
  /-- A temporal detector has no more edges than its limit. -/
  capped : ∀ detector most, edgeLimit detector = some most →
    ((mintedQuads after.edges).filter fun quad => quad.2 = detector).card ≤ most

/-- **Earlier passes do not disturb** a pass: the temporal offers are within their limits, a minted
edge that is offered again has the name of its first offer, and none runs beside another edge. -/
structure Undisturbed (seen : Observations) (db : GraphDatabase) : Prop where
  few : ∀ batches, seen.batches (nodesOf db) db.edges = some batches →
    Offers.WithinLimits edgeLimit (Offers.firsts (presentUnminted db.edges) batches.flatten)
  renewed : ∀ batches, seen.batches (nodesOf db) db.edges = some batches →
    ∀ e ∈ db.edges, isMintedEdge e = true →
      ∀ offer, (batches.flatten.find? fun offer => decide (offer.1 = e.triple)) = some offer →
        offer.2 = detectorOf e
  alone : ∀ e ∈ db.edges, isMintedEdge e = true → ∀ other ∈ unminted db.edges,
    other.triple ≠ e.triple

theorem unminted_unminted (edges : List GraphEdge) : unminted (unminted edges) = unminted edges :=
  List.filter_eq_self.mpr fun _ member => (List.mem_filter.mp member).2

theorem presentUnminted_iff {edges : List GraphEdge} {triple : Triple} :
    presentUnminted edges triple = true ↔ ∃ e ∈ unminted edges, e.triple = triple := by
  unfold presentUnminted
  rw [decide_eq_true_iff, List.mem_map]

theorem presentUnminted_unminted (edges : List GraphEdge) :
    presentUnminted (unminted edges) = presentUnminted edges := by
  unfold presentUnminted
  rw [unminted_unminted]

theorem edgeLimit_pos {detector : String} {most : Nat} (limited : edgeLimit detector = some most) :
    0 < most := by
  unfold edgeLimit at limited
  split at limited
  · rw [← Option.some.inj limited]
    decide
  · cases limited

theorem firsts_eq_nil_of_taken {present : Triple → Bool} {batches : List (List (Triple × String))}
    (nothing : (Offers.takeAll present edgeLimit batches).taken = []) :
    Offers.firsts present batches.flatten = [] := by
  rcases Offers.takeAll_spec present edgeLimit batches with ⟨-, follows⟩ | ⟨-, broken⟩
  · rw [← follows.taken]
    exact nothing
  · obtain ⟨-, detector, most, limited, full⟩ := broken
    have positive := edgeLimit_pos limited
    unfold Offers.count at full
    rw [nothing] at full
    exact absurd (lt_of_lt_of_le positive full) (lt_irrefl 0)

section Pass

variable {seen : Observations} {db after : GraphDatabase} {failures : SaveFailures}
  {report : MintReport}

structure Passed (seen : Observations) (db after : GraphDatabase)
    (batches : List (List (Triple × String))) (offers : Offers Triple String) : Prop where
  made : seen.batches (nodesOf db) db.edges = some batches
  taken : offers = Offers.takeAll (isPresent db) edgeLimit batches
  sound : offers.Sound (isPresent db) batches.flatten
  consistent : Consistent after
  edges : after.edges =
    (db.edges.filter fun e => decide (e.triple ∉ obsoleteTriples offers db.edges)) ++
      offers.taken.map heuristicEdge
  indexed : nodeIndex seen.text (nodesOf after) = (seen.survey (nodesOf db)).state.index
  labels : topicLabels (nodesOf after) = topicLabels (nodesOf db)

theorem exists_passed (consistent : Consistent db) (spelled : SpelledFiles db)
    (done : mintCrossRepoObservations seen failures db = .ok after report) :
    ∃ batches offers, Passed seen db after batches offers := by
  obtain ⟨batches, offers, made, taken, sound, consistent', edges⟩ := mint_edges consistent done
  rw [Observations.offers, made] at taken
  unfold mintCrossRepoObservations at done
  cases planned : mintPlan seen db with
  | none => rw [planned] at done; cases done
  | some plan =>
    rw [planned] at done
    obtain ⟨first, put, nodes⟩ := carryOut_nodes done
    unfold mintPlan at planned
    simp only [Option.bind_eq_bind, Option.bind_eq_some_iff, Option.pure_def,
      Option.some.injEq] at planned
    obtain ⟨clusters, _, batches', _, rfl⟩ := planned
    have indexed := indexed_of_makes consistent spelled
      (makes_takeSurvey (anchorGroups seen.occurrences)) put
    exact ⟨batches, offers, made, (Option.some.inj taken).symm, sound, consistent', edges,
      nodes ▸ indexed.index, nodes ▸ indexed.labels⟩

variable {batches : List (List (Triple × String))} {offers : Offers Triple String}

theorem notMem_obsoleteTriples_iff {e : GraphEdge} (stored : e ∈ db.edges)
    (minted : isMintedEdge e = true) :
    e.triple ∉ obsoleteTriples offers db.edges ↔ e.triple ∈ offers.wanted := by
  unfold obsoleteTriples
  rw [List.mem_filter, decide_eq_true_iff, not_and, not_not]
  constructor
  · exact fun wanted => wanted (List.mem_map_of_mem (List.mem_filter.mpr ⟨stored, minted⟩))
  · exact fun wanted _ => wanted

theorem Passed.mem_mintedQuads (passed : Passed seen db after batches offers)
    {quad : Triple × String} :
    quad ∈ mintedQuads after.edges ↔
      (∃ e ∈ db.edges, isMintedEdge e = true ∧ e.triple ∈ offers.wanted ∧
        (e.triple, detectorOf e) = quad) ∨ quad ∈ offers.taken := by
  rw [Federation.mem_mintedQuads, passed.edges]
  constructor
  · rintro ⟨e, member, minted, same⟩
    rcases List.mem_append.mp member with kept | new
    · obtain ⟨stored, current⟩ := List.mem_filter.mp kept
      exact .inl ⟨e, stored, minted,
        (notMem_obsoleteTriples_iff stored minted).mp (of_decide_eq_true current), same⟩
    · obtain ⟨offer, taken, rfl⟩ := List.mem_map.mp new
      rw [← same]
      exact .inr taken
  · rintro (⟨e, stored, minted, wanted, same⟩ | taken)
    · exact ⟨e, List.mem_append_left _ (List.mem_filter.mpr ⟨stored,
        decide_eq_true ((notMem_obsoleteTriples_iff stored minted).mpr wanted)⟩), minted, same⟩
    · exact ⟨heuristicEdge quad, List.mem_append_right _ (List.mem_map_of_mem taken),
        isMintedEdge_heuristicEdge passed.made (passed.sound.taken quad taken).1, rfl⟩

theorem Passed.unminted_edges (passed : Passed seen db after batches offers) :
    unminted after.edges = (unminted db.edges).filter fun e =>
      decide (e.triple ∉ obsoleteTriples offers db.edges) := by
  unfold unminted
  rw [passed.edges, List.filter_append]
  have none : (offers.taken.map heuristicEdge).filter (fun e => !isMintedEdge e) = [] := by
    refine List.filter_eq_nil_iff.mpr fun e member => ?_
    obtain ⟨offer, taken, rfl⟩ := List.mem_map.mp member
    rw [isMintedEdge_heuristicEdge passed.made (passed.sound.taken offer taken).1]
    exact Bool.false_ne_true
  rw [none, List.append_nil, List.filter_filter, List.filter_filter]
  exact List.filter_congr fun e _ => Bool.and_comm _ _

theorem Passed.fresh_eq (passed : Passed seen db after batches offers) :
    seen.fresh (nodesOf db) (unminted db.edges) =
      some (Offers.takeAll (presentUnminted db.edges) edgeLimit batches) := by
  unfold Observations.fresh
  rw [batches_eq_of_proofs (proofs_unminted db.edges), passed.made, presentUnminted_unminted]
  rfl

theorem Passed.batches_after (passed : Passed seen db after batches offers)
    (others : unminted after.edges = unminted db.edges) :
    seen.batches (nodesOf after) after.edges = some batches := by
  rw [batches_again passed.indexed passed.labels, ← passed.made]
  refine batches_eq_of_proofs ?_
  rw [← proofs_unminted after.edges, others, proofs_unminted]

theorem isPresent_cases (consistent : Consistent db) (triple : Triple) :
    isPresent db triple = true ↔ presentUnminted db.edges triple = true ∨
      ∃ e ∈ db.edges, isMintedEdge e = true ∧ e.triple = triple := by
  rw [isPresent_iff consistent, List.mem_map, presentUnminted_iff]
  constructor
  · rintro ⟨e, stored, same⟩
    cases minted : isMintedEdge e with
    | true => exact .inr ⟨e, stored, minted, same⟩
    | false => exact .inl ⟨e, mem_unminted.mpr ⟨stored, minted⟩, same⟩
  · rintro (⟨e, other, same⟩ | ⟨e, stored, -, same⟩)
    · exact ⟨e, (mem_unminted.mp other).1, same⟩
    · exact ⟨e, stored, same⟩

theorem exists_mintPlan {db : GraphDatabase}
    (made : seen.batches (nodesOf db) db.edges = some batches) :
    ∃ plan, mintPlan seen db = some plan ∧
      plan.newFileNodes = (seen.survey (nodesOf db)).state.newFileNodes.map fileNode ∧
      plan.newEdges =
        (Offers.takeAll (isPresent db) edgeLimit batches).taken.map heuristicEdge ∧
      plan.obsolete = (db.edges.filter isMintedEdge).filter fun e =>
        decide (e.triple ∉ (Offers.takeAll (isPresent db) edgeLimit batches).wanted) := by
  obtain ⟨clusters, cut, -⟩ := Option.map_eq_some_iff.mp made
  unfold mintPlan
  rw [cut, made]
  exact ⟨_, rfl, rfl, rfl, rfl⟩

theorem follows_of_few (consistent : Consistent db)
    (few : Offers.WithinLimits edgeLimit
      (Offers.firsts (presentUnminted db.edges) batches.flatten)) :
    Offers.Follows (isPresent db) batches.flatten
      (Offers.takeAll (isPresent db) edgeLimit batches) := by
  have wider : ∀ triple, presentUnminted db.edges triple = true → isPresent db triple = true :=
    fun triple other => (isPresent_cases consistent triple).mpr (.inl other)
  rcases Offers.takeAll_spec (isPresent db) edgeLimit batches with ⟨-, follows⟩ | ⟨beyond, -⟩
  · exact follows
  · exact absurd (few.sublist (Offers.firsts_sublist wider batches.flatten)) beyond

/-! ### Undisturbed passes -/

theorem Undisturbed.mintedQuads_eq (undisturbed : Undisturbed seen db) (consistent : Consistent db)
    (passed : Passed seen db after batches offers) :
    mintedQuads after.edges =
      (Offers.firsts (presentUnminted db.edges) batches.flatten).toFinset := by
  have few := undisturbed.few batches passed.made
  have follows := follows_of_few consistent few
  rw [← passed.taken] at follows
  ext quad
  rw [passed.mem_mintedQuads, List.mem_toFinset, follows.wanted, follows.taken]
  constructor
  · rintro (⟨e, stored, minted, offered, same⟩ | first)
    · obtain ⟨offer, listed, named⟩ := List.mem_map.mp offered
      cases found : batches.flatten.find? fun offer => decide (offer.1 = e.triple) with
      | none =>
        exact absurd (decide_eq_true named) (List.find?_eq_none.mp found offer listed)
      | some first =>
        have label := undisturbed.renewed batches passed.made e stored minted first found
        have triple : first.1 = e.triple := by simpa using List.find?_some found
        have here : first = quad := by
          rw [← same]
          exact Prod.ext triple label
        rw [← here]
        refine Offers.mem_firsts.mpr ⟨?_, by rw [triple]; exact found⟩
        by_contra other
        rw [Bool.not_eq_false] at other
        obtain ⟨beside, listed', same'⟩ := presentUnminted_iff.mp other
        exact undisturbed.alone e stored minted beside listed' (same'.trans triple)
    · obtain ⟨absent, found⟩ := Offers.mem_firsts.mp first
      refine Offers.mem_firsts.mpr ⟨?_, found⟩
      by_contra other
      rw [Bool.not_eq_false] at other
      rw [(isPresent_cases consistent quad.1).mpr (.inl other)] at absent
      cases absent
  · intro first
    obtain ⟨unminted', found⟩ := Offers.mem_firsts.mp first
    cases present : isPresent db quad.1 with
    | false => exact .inr (Offers.mem_firsts.mpr ⟨present, found⟩)
    | true =>
      rcases (isPresent_cases consistent quad.1).mp present with other |
        ⟨e, stored, minted, same⟩
      · rw [unminted'] at other
        cases other
      · rw [← same] at found
        have label := undisturbed.renewed batches passed.made e stored minted quad found
        refine .inl ⟨e, stored, minted, ?_, Prod.ext same label.symm⟩
        rw [same]
        exact List.mem_map_of_mem (List.mem_of_find?_eq_some found)

theorem Undisturbed.others (undisturbed : Undisturbed seen db)
    (passed : Passed seen db after batches offers) :
    unminted after.edges = unminted db.edges := by
  rw [passed.unminted_edges, List.filter_eq_self]
  intro e other
  refine decide_eq_true fun obsolete => ?_
  obtain ⟨minted, member, same⟩ := List.mem_map.mp (List.mem_filter.mp obsolete).1
  obtain ⟨stored, isMinted⟩ := List.mem_filter.mp member
  exact undisturbed.alone minted stored isMinted e other same.symm

/-- **An undisturbed pass reconciles.** -/
theorem Undisturbed.reconciled (undisturbed : Undisturbed seen db) (consistent : Consistent db)
    (passed : Passed seen db after batches offers) : Reconciled seen db after := by
  have few := undisturbed.few batches passed.made
  have quads := undisturbed.mintedQuads_eq consistent passed
  have others := undisturbed.others passed
  have fresh : (Offers.takeAll (presentUnminted db.edges) edgeLimit batches).taken =
      Offers.firsts (presentUnminted db.edges) batches.flatten := by
    rcases Offers.takeAll_spec (presentUnminted db.edges) edgeLimit batches with
      ⟨-, follows⟩ | ⟨beyond, -⟩
    · exact follows.taken
    · exact absurd few beyond
  refine ⟨⟨_, passed.fresh_eq, by rw [quads, fresh]⟩, others, ?_, fun detector most limited => ?_⟩
  · obtain ⟨plan, planned, files, edges, obsolete⟩ := exists_mintPlan (passed.batches_after others)
    -- Every triple that is offered has an edge now.
    have present : Offers.firsts (isPresent after) batches.flatten = [] := by
      refine List.eq_nil_iff_forall_not_mem.mpr fun offer first => ?_
      obtain ⟨absent, found⟩ := Offers.mem_firsts.mp first
      have nothing : ¬ ∃ e ∈ after.edges, e.triple = offer.1 := by
        rintro ⟨e, stored, same⟩
        rw [(isPresent_iff passed.consistent offer.1).mpr (same ▸ List.mem_map_of_mem stored)]
          at absent
        cases absent
      have inOther : presentUnminted db.edges offer.1 = false := by
        by_contra other
        rw [Bool.not_eq_false] at other
        obtain ⟨e, member, same⟩ := presentUnminted_iff.mp other
        rw [← others] at member
        exact nothing ⟨e, (mem_unminted.mp member).1, same⟩
      have quad : offer ∈ mintedQuads after.edges := by
        rw [quads, List.mem_toFinset]
        exact Offers.mem_firsts.mpr ⟨inOther, found⟩
      obtain ⟨e, stored, -, same⟩ := mem_mintedQuads.mp quad
      exact nothing ⟨e, stored, congrArg Prod.fst same⟩
    have follows : Offers.Follows (isPresent after) batches.flatten
        (Offers.takeAll (isPresent after) edgeLimit batches) := by
      rcases Offers.takeAll_spec (isPresent after) edgeLimit batches with
        ⟨-, follows⟩ | ⟨beyond, -⟩
      · exact follows
      · rw [present] at beyond
        exact absurd (fun _ _ _ => Nat.zero_le _) beyond
    refine ⟨plan, planned, ?_, ?_, ?_⟩
    · have survey : seen.survey (nodesOf after) = _ := takeSurvey_again passed.indexed
      rw [files, survey]
      rfl
    · rw [edges, follows.taken, present]
      rfl
    · rw [obsolete, List.filter_eq_nil_iff]
      intro e member
      obtain ⟨stored, minted⟩ := List.mem_filter.mp member
      rw [decide_eq_true_iff, not_not, follows.wanted]
      have quad : (e.triple, detectorOf e) ∈ mintedQuads after.edges :=
        mem_mintedQuads.mpr ⟨e, stored, minted, rfl⟩
      rw [quads, List.mem_toFinset] at quad
      exact List.mem_map_of_mem (List.mem_of_find?_eq_some (Offers.mem_firsts.mp quad).2)
  · have named : (mintedQuads after.edges).filter (fun quad => quad.2 = detector) =
        ((Offers.firsts (presentUnminted db.edges) batches.flatten).filter
          fun offer => decide (offer.2 = detector)).toFinset := by
      ext quad
      rw [quads, Finset.mem_filter, List.mem_toFinset, List.mem_toFinset, List.mem_filter,
        decide_eq_true_iff]
    rw [named]
    exact (List.toFinset_card_le _).trans (few detector most limited)

/-! ### Passes that reconcile -/

/-- **A pass that reconciles is undisturbed.** -/
theorem Reconciled.undisturbed (reconciled : Reconciled seen db after) (consistent : Consistent db)
    (passed : Passed seen db after batches offers) : Undisturbed seen db := by
  obtain ⟨fresh, isFresh, quads⟩ := reconciled.anew
  rw [passed.fresh_eq] at isFresh
  obtain rfl := Option.some.inj isFresh
  have sound : (Offers.takeAll (presentUnminted db.edges) edgeLimit batches).Sound
      (presentUnminted db.edges) batches.flatten := Offers.sound_takeAll batches
  have same_batches : ∀ {batches'}, seen.batches (nodesOf db) db.edges = some batches' →
      batches' = batches := fun made => Option.some.inj (made.symm.trans passed.made)
  have few : Offers.WithinLimits edgeLimit
      (Offers.firsts (presentUnminted db.edges) batches.flatten) := by
    rcases Offers.takeAll_spec (presentUnminted db.edges) edgeLimit batches with
      ⟨few, -⟩ | ⟨-, ⟨triple, known, missed⟩, -⟩
    · exact few
    · -- The triple is taken by a second pass.
      exfalso
      obtain ⟨plan, planned, -, edges, -⟩ :=
        exists_mintPlan (passed.batches_after reconciled.others)
      obtain ⟨plan', planned', -, nothing, -⟩ := reconciled.settled
      obtain rfl := Option.some.inj (planned.symm.trans planned')
      rw [nothing] at edges
      have first := firsts_eq_nil_of_taken (List.map_eq_nil_iff.mp edges.symm)
      obtain ⟨label, offered⟩ := sound.wanted triple (sound.knownWanted known)
      have absent : isPresent after triple = false := by
        by_contra present
        rw [Bool.not_eq_false, isPresent_cases passed.consistent] at present
        rcases present with other | ⟨e, stored, minted, same⟩
        · have before : presentUnminted db.edges triple = true := by
            obtain ⟨e, member, same⟩ := presentUnminted_iff.mp other
            rw [reconciled.others] at member
            exact presentUnminted_iff.mpr ⟨e, member, same⟩
          rw [sound.known triple known] at before
          cases before
        · have quad : (e.triple, detectorOf e) ∈ mintedQuads after.edges :=
            mem_mintedQuads.mpr ⟨e, stored, minted, rfl⟩
          rw [quads, List.mem_toFinset, same] at quad
          exact missed (List.mem_map_of_mem quad)
      have member := Offers.mem_keys_firsts.mpr ⟨absent, List.mem_map_of_mem offered⟩
      rw [first] at member
      cases member
  have follows := follows_of_few consistent few
  rw [← passed.taken] at follows
  have fresh_taken : (Offers.takeAll (presentUnminted db.edges) edgeLimit batches).taken =
      Offers.firsts (presentUnminted db.edges) batches.flatten := by
    rcases Offers.takeAll_spec (presentUnminted db.edges) edgeLimit batches with
      ⟨-, follows⟩ | ⟨beyond, -⟩
    · exact follows.taken
    · exact absurd few beyond
  rw [fresh_taken] at quads
  have first_of_wanted : ∀ e ∈ db.edges, isMintedEdge e = true → e.triple ∈ offers.wanted →
      (e.triple, detectorOf e) ∈ Offers.firsts (presentUnminted db.edges) batches.flatten := by
    intro e stored minted wanted
    rw [← List.mem_toFinset, ← quads]
    exact passed.mem_mintedQuads.mpr (.inl ⟨e, stored, minted, wanted, rfl⟩)
  refine ⟨fun batches' made => same_batches made ▸ few, ?_, ?_⟩
  · intro batches' made e stored minted offer found
    obtain rfl := same_batches made
    have wanted : e.triple ∈ offers.wanted := by
      have triple : offer.1 = e.triple := by simpa using List.find?_some found
      rw [follows.wanted, ← triple]
      exact List.mem_map_of_mem (List.mem_of_find?_eq_some found)
    have first := (Offers.mem_firsts.mp (first_of_wanted e stored minted wanted)).2
    rw [found] at first
    exact congrArg Prod.snd (Option.some.inj first)
  · intro e stored minted other member same
    by_cases wanted : e.triple ∈ offers.wanted
    · have absent := (Offers.mem_firsts.mp (first_of_wanted e stored minted wanted)).1
      rw [presentUnminted_iff.mpr ⟨other, member, same⟩] at absent
      cases absent
    · have kept := reconciled.others
      rw [passed.unminted_edges, List.filter_eq_self] at kept
      have current := of_decide_eq_true (kept other member)
      rw [same] at current
      exact wanted ((notMem_obsoleteTriples_iff stored minted).mp current)

/-- **A pass reconciles** exactly when earlier passes do not disturb it. -/
theorem reconciled_iff (consistent : Consistent db) (spelled : SpelledFiles db)
    (done : mintCrossRepoObservations seen failures db = .ok after report) :
    Reconciled seen db after ↔ Undisturbed seen db := by
  obtain ⟨batches, offers, passed⟩ := exists_passed consistent spelled done
  exact ⟨fun reconciled => reconciled.undisturbed consistent passed,
    fun undisturbed => undisturbed.reconciled consistent passed⟩

end Pass

/-! ### A co-change that stays -/

theorem spelledFiles_of_files {db : GraphDatabase}
    (files : ∀ n ∈ nodesOf db, n.nodeType = .file ∧
      ∃ text repo, repoIdNew text = some repo ∧ n.id = fileId repo n.path) : SpelledFiles db := by
  intro n listed text repo path valid named
  obtain ⟨file, text', repo', valid', named'⟩ := files n listed
  exact ⟨file, fileId_injective valid' valid (named'.symm.trans named)⟩

theorem files_of_two {n : GraphNode} (listed : n ∈ [ordersFile, clientFile]) :
    n.nodeType = .file ∧ ∃ text repo, repoIdNew text = some repo ∧ n.id = fileId repo n.path := by
  rcases List.mem_cons.mp listed with rfl | listed
  · exact ⟨rfl, "shop", "shop", by decide, by decide⟩
  · rw [List.mem_singleton.mp listed]
    exact ⟨rfl, "cart", "cart", by decide, by decide⟩

theorem spelledFiles_twoFiles : SpelledFiles twoFiles :=
  spelledFiles_of_files fun n listed => files_of_two
    ((by decide +kernel : nodesOf twoFiles = [ordersFile, clientFile]) ▸ listed)

theorem reconciled_iff_twoFiles :
    Reconciled (fixes [shopFix, cartFix]) twoFiles (stateAfter passOverBoth) ↔
      Undisturbed (fixes [shopFix, cartFix]) twoFiles := by
  obtain ⟨_, done⟩ := eq_ok_of_succeeds (by decide +kernel : succeeds passOverBoth = true)
  exact reconciled_iff consistent_twoFiles spelledFiles_twoFiles done

/-- **Passes do not reconcile**: the second pass keeps the name of a co-change whose commit is gone,
where a pass over the two files would mint a reference from the subject. -/
theorem reconciled_fails : ¬ ∀ (seen : Observations) (failures : SaveFailures)
    (db after : GraphDatabase) (report : MintReport), Consistent db → SpelledFiles db →
      mintCrossRepoObservations seen failures db = .ok after report →
        Reconciled seen db after := by
  intro promised
  obtain ⟨_, first⟩ := eq_ok_of_succeeds (by decide +kernel : succeeds passOverBoth = true)
  obtain ⟨_, second⟩ := eq_ok_of_succeeds (by decide +kernel : succeeds passOverOne = true)
  obtain ⟨_, _, _, _, _, consistent, _⟩ := mint_edges consistent_twoFiles first
  have spelled : SpelledFiles (stateAfter passOverBoth) :=
    spelledFiles_of_files fun n listed => files_of_two
      ((by decide +kernel : nodesOf (stateAfter passOverBoth) = [ordersFile, clientFile]) ▸ listed)
  obtain ⟨offers, isFresh, quads⟩ := (promised _ _ _ _ _ consistent spelled second).anew
  have kept : ((clientFile.id, ordersFile.id, EdgeType.coChangedWith), "cochange") ∈
      mintedQuads (stateAfter passOverOne).edges := by
    decide +kernel
  have renamed : (((fixes [cartFix]).fresh (nodesOf (stateAfter passOverBoth))
      (unminted (stateAfter passOverBoth).edges)).map Offers.taken) =
        some [((clientFile.id, ordersFile.id, EdgeType.coChangedWith), "commit-ref")] := by
    decide +kernel
  rw [isFresh] at renamed
  rw [quads, List.mem_toFinset, Option.some.inj renamed] at kept
  revert kept
  decide

end Lain.Federation
