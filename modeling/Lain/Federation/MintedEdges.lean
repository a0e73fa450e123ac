import Mathlib
import Lain.Federation.MintOffers

/-!
# What a minting pass leaves

The edges a pass adds couple two repositories, run beside no proof and are named
by an observation.
-/

namespace Lain.Federation

open Foundation Lain.Graph

/-! ### The graph under a pass -/

section Graph

variable {db : GraphDatabase}

theorem isPresent_iff (consistent : Consistent db) (triple : Triple) :
    isPresent db triple = true ↔ triple ∈ db.edges.map GraphEdge.triple := by
  obtain ⟨source, target, edgeType⟩ := triple
  unfold isPresent edgesTo GraphDatabase.edges StableGraph.edgeWeights
  rw [List.map_map, List.mem_map]
  cases located : db.indexMap.lookup target with
  | none =>
    refine iff_of_false (by simp) ?_
    rintro ⟨a, stored, same⟩
    obtain ⟨_, rfl, _⟩ : a.weight.sourceId = source ∧ a.weight.targetId = target ∧
        a.weight.edgeType = edgeType := by simpa [GraphEdge.triple] using same
    have held := (consistent.ids _ _).mpr (consistent.anchored a stored).2
    rw [located] at held
    cases held
  | some idx =>
    have aims : ∀ a ∈ db.graph.arcs, a.target = idx ↔ a.weight.targetId = target := by
      intro a stored
      have key := (consistent.anchored a stored).2
      constructor
      · rintro rfl
        rw [(consistent.ids _ _).mp located] at key
        exact (Option.some.inj key).symm
      · rintro rfl
        have held := (consistent.ids _ _).mpr key
        rw [located] at held
        exact (Option.some.inj held).symm
    simp only [List.any_eq_true, List.mem_filter, List.mem_map, decide_eq_true_eq]
    constructor
    · rintro ⟨e, ⟨⟨a, ⟨stored, here⟩, rfl⟩, type⟩, source'⟩
      refine ⟨a, stored, ?_⟩
      change (a.weight.sourceId, a.weight.targetId, a.weight.edgeType) = _
      rw [source', (aims a stored).mp here, type]
    · rintro ⟨a, stored, same⟩
      obtain ⟨source', target', type⟩ : a.weight.sourceId = source ∧ a.weight.targetId = target ∧
          a.weight.edgeType = edgeType := by simpa [GraphEdge.triple] using same
      exact ⟨a.weight, ⟨⟨a, ⟨stored, (aims a stored).mpr target'⟩, rfl⟩, type⟩, source'⟩

theorem edges_putNode {node : GraphNode} {after : GraphDatabase}
    (put : db.putNode node = some after) : after.edges = db.edges := by
  unfold GraphDatabase.putNode at put
  split at put
  · split at put
    · cases put
    · split at put
      · obtain rfl := Option.some.inj put
        simp [GraphDatabase.edges, StableGraph.edgeWeights]
      · rw [← Option.some.inj put]
  · obtain rfl := Option.some.inj put
    simp [GraphDatabase.edges, StableGraph.edgeWeights]

theorem edges_putNodes {nodes : List GraphNode} {after : GraphDatabase}
    (put : nodes.foldlM GraphDatabase.putNode db = some after) : after.edges = db.edges := by
  induction nodes generalizing db with
  | nil => rw [← Option.some.inj put]
  | cons node rest ih =>
    rw [List.foldlM_cons] at put
    obtain ⟨middle, first, later⟩ := Option.bind_eq_some_iff.mp put
    rw [ih later, edges_putNode first]

theorem upsertNodesBatch_spec (consistent : Consistent db) {failure : Option LainError}
    {nodes : List GraphNode} {after : GraphDatabase}
    (done : GraphBackend.upsertNodesBatch db failure nodes = .ok after ()) :
    Consistent after ∧ after.edges = db.edges := by
  unfold GraphBackend.upsertNodesBatch at done
  split at done
  · cases done
    exact ⟨consistent, rfl⟩
  · split at done
    · cases done
    · have refines := consistent.insertNodesBatch nodes
      unfold GraphDatabase.insertNodesBatch at done refines
      split at done
      · cases done
      next writable =>
          rw [if_neg writable] at refines
          cases put : nodes.foldlM GraphDatabase.putNode db with
          | none =>
            simp only [put, GraphDatabase.settle, andThen] at done
            cases done
          | some middle =>
            simp only [put, GraphDatabase.settle, andThen] at done
            simp only [Refines, put, GraphDatabase.settle] at refines
            rcases save_cases failure middle () with saved | ⟨reason, _, unsaved⟩
            · rw [saved] at done
              cases done
              exact ⟨refines.1.consistent, edges_putNodes put⟩
            · rw [unsaved] at done
              cases done

theorem carryOut_edges (consistent : Consistent db) {plan : MintPlan} {failures : SaveFailures}
    {after : GraphDatabase} {report : MintReport}
    (done : plan.carryOut failures db = .ok after report) :
    Consistent after ∧ report = plan.report ∧ after.edges =
      withoutTriples plan.obsolete (db.edges ++ freshEdges db.storedKeys plan.newEdges) := by
  unfold MintPlan.carryOut at done
  cases nodes : GraphBackend.upsertNodesBatch db failures.nodes plan.newFileNodes with
  | error _ _ => rw [nodes] at done; cases done
  | panicked => rw [nodes] at done; cases done
  | ok first _ =>
    rw [nodes] at done
    obtain ⟨consistent₁, edges₁⟩ := upsertNodesBatch_spec consistent nodes
    have keys : first.storedKeys = db.storedKeys := congrArg (List.map edgeIdentityKey) edges₁
    simp only [andThen] at done
    rcases GraphBackend.upsertEdgesBatch_spec failures.edges consistent₁ plan.newEdges with
      ⟨reason, failed⟩ | ⟨second, become, added | ⟨reason, failed⟩⟩
    · rw [failed] at done
      cases done
    · rw [added] at done
      simp only at done
      rw [edges₁, keys] at become
      split at done
      next none =>
          cases done
          refine ⟨become.consistent, rfl, ?_⟩
          rw [become.edges, List.isEmpty_iff.mp none]
          simp [withoutTriples]
      next =>
          rcases GraphBackend.removeEdges_spec failures.removal become.consistent
              plan.obsolete with
            ⟨reason, failed⟩ | ⟨third, become₂, ⟨removed, gone⟩ | ⟨reason, failed⟩⟩
          · rw [failed] at done
            cases done
          · rw [gone] at done
            cases done
            rw [become.edges] at become₂
            exact ⟨become₂.consistent, rfl, become₂.edges⟩
          · rw [failed] at done
            cases done
    · rw [failed] at done
      cases done

end Graph

/-! ### The edges a pass leaves -/

section Pass

variable {db after : GraphDatabase} {seen : Observations} {failures : SaveFailures}
  {report : MintReport}

def Observations.offers (seen : Observations) (db : GraphDatabase) :
    Option (Offers Triple String) :=
  (seen.batches (nodesOf db) db.edges).map (Offers.takeAll (isPresent db) edgeLimit)

def obsoleteTriples (offers : Offers Triple String) (edges : List GraphEdge) : List Triple :=
  ((edges.filter isMintedEdge).map GraphEdge.triple).filter fun triple =>
    decide (triple ∉ offers.wanted)

@[simp] theorem triple_heuristicEdge (offer : Triple × String) :
    (heuristicEdge offer).triple = offer.1 := rfl

theorem edgeIdentityKey_heuristicEdge (offer : Triple × String) :
    edgeIdentityKey (heuristicEdge offer) = ⟨offer.1.2.2, offer.1.1, offer.1.2.1, none⟩ := by
  unfold edgeIdentityKey heuristicEdge
  simp

theorem freshEdges_taken (consistent : Consistent db) {offered : List (Triple × String)}
    {offers : Offers Triple String} (sound : offers.Sound (isPresent db) offered) :
    freshEdges db.storedKeys (offers.taken.map heuristicEdge) =
      offers.taken.map heuristicEdge := by
  refine freshEdges_eq_self ?_ ?_
  · have keys : (offers.taken.map heuristicEdge).map edgeIdentityKey =
        (offers.taken.map Prod.fst).map fun triple : Triple =>
          (⟨triple.2.2, triple.1, triple.2.1, none⟩ : EdgeKey) := by
      rw [List.map_map, List.map_map]
      exact List.map_congr_left fun offer _ => edgeIdentityKey_heuristicEdge offer
    rw [keys]
    refine sound.nodup.map fun a b same => ?_
    obtain ⟨type, source, target, _⟩ := EdgeKey.mk.inj same
    exact Prod.ext source (Prod.ext target type)
  · intro e member known
    obtain ⟨offer, taken, rfl⟩ := List.mem_map.mp member
    obtain ⟨stored, here, same⟩ := List.mem_map.mp known
    have present : isPresent db offer.1 = true := by
      rw [isPresent_iff consistent]
      have triples := congrArg EdgeKey.triple same
      rw [triple_edgeIdentityKey, triple_edgeIdentityKey, triple_heuristicEdge] at triples
      exact List.mem_map.mpr ⟨stored, here, triples⟩
    rw [(sound.taken offer taken).2] at present
    cases present

theorem mint_edges (consistent : Consistent db)
    (done : mintCrossRepoObservations seen failures db = .ok after report) :
    ∃ batches offers, seen.batches (nodesOf db) db.edges = some batches ∧
      seen.offers db = some offers ∧
      offers.Sound (isPresent db) batches.flatten ∧ Consistent after ∧
      after.edges =
        (db.edges.filter fun e => decide (e.triple ∉ obsoleteTriples offers db.edges)) ++
          offers.taken.map heuristicEdge := by
  unfold mintCrossRepoObservations at done
  cases planned : mintPlan seen db with
  | none => rw [planned] at done; cases done
  | some plan =>
    rw [planned] at done
    obtain ⟨consistent', _, edges⟩ := carryOut_edges consistent done
    unfold mintPlan at planned
    simp only [Option.bind_eq_bind, Option.bind_eq_some_iff, Option.pure_def,
      Option.some.injEq] at planned
    obtain ⟨clusters, _, batches, offered, rfl⟩ := planned
    have sound := @Offers.sound_takeAll _ _ _ _ (isPresent db) edgeLimit batches
    refine ⟨batches, _, offered, by rw [Observations.offers, offered]; rfl, sound, consistent',
      ?_⟩
    rw [edges, freshEdges_taken consistent sound]
    unfold withoutTriples
    have obsolete : ∀ triple, (((db.edges.filter isMintedEdge).filter fun e =>
        decide (e.triple ∉ (Offers.takeAll (isPresent db) edgeLimit batches).wanted)).map
          GraphEdge.triple).contains triple =
        decide (triple ∈ obsoleteTriples (Offers.takeAll (isPresent db) edgeLimit batches)
          db.edges) := by
      intro triple
      rw [List.contains_eq_mem]
      unfold obsoleteTriples
      rw [List.filter_map]
      rfl
    rw [List.filter_append]
    congr 1
    · refine List.filter_congr fun e _ => ?_
      rw [obsolete, decide_not]
    · refine List.filter_eq_self.mpr fun e member => ?_
      obtain ⟨offer, taken, rfl⟩ := List.mem_map.mp member
      rw [obsolete, Bool.not_eq_true', decide_eq_false_iff_not, triple_heuristicEdge]
      intro gone
      have unwanted := of_decide_eq_true (List.mem_filter.mp gone).2
      exact unwanted (sound.knownWanted (sound.takenKnown (List.mem_map_of_mem taken)))

/-! ### What the edges promise -/

/-- **The promises of a minted edge**: it joins two repositories, no proof runs between its ends
in either direction, and the name of its detector is borne out by what is observed. -/
structure MintedFair (seen : Observations) (nodes : List GraphNode) (edges : List GraphEdge) :
    Prop where
  apart : ∀ e ∈ edges, isMintedEdge e = true →
    GlobalId.repoId e.sourceId ≠ GlobalId.repoId e.targetId
  unproven : ∀ e ∈ edges, isMintedEdge e = true → ∀ proof ∈ edges, isProof proof = true →
    ¬ (proof.sourceId = e.sourceId ∧ proof.targetId = e.targetId) ∧
      ¬ (proof.sourceId = e.targetId ∧ proof.targetId = e.sourceId)
  borneOut : ∀ e ∈ edges, ∀ detector confidence,
    e.provenance = some (.heuristic detector confidence) →
      BorneOut seen nodes detector e.sourceId e.targetId

def Observations.Reaches (seen : Observations) (db : GraphDatabase) (triple : Triple) : Prop :=
  ∃ offers, seen.offers db = some offers ∧ triple ∈ offers.wanted

def RenewsNoStaleName (seen : Observations) (db : GraphDatabase) : Prop :=
  ∀ e ∈ db.edges, seen.Reaches db e.triple → ∀ detector confidence,
    e.provenance = some (.heuristic detector confidence) →
      BorneOut seen (nodesOf db) detector e.sourceId e.targetId

theorem isMintedEdge_iff {e : GraphEdge} :
    isMintedEdge e = true ↔ ∃ detector confidence,
      e.provenance = some (.heuristic detector confidence) ∧
        (Text.startsWith detector "anchor:" = true ∨ detector = "cochange" ∨
          detector = "commit-ref") := by
  unfold isMintedEdge
  split
  next detector confidence named =>
      rw [Bool.or_eq_true, Bool.or_eq_true, decide_eq_true_eq, decide_eq_true_eq, or_assoc]
      constructor
      · exact fun known => ⟨detector, confidence, named, known⟩
      · rintro ⟨_, _, named', known⟩
        rw [named] at named'
        cases named'
        exact known
  next other =>
      refine iff_of_false Bool.false_ne_true ?_
      rintro ⟨detector, confidence, named, _⟩
      exact other detector confidence named

theorem borneOut_of_not_minted {nodes : List GraphNode} {e : GraphEdge} {detector : String}
    {confidence : _} (named : e.provenance = some (.heuristic detector confidence))
    (other : ¬ isMintedEdge e = true) : BorneOut seen nodes detector e.sourceId e.targetId where
  sighted starts := absurd (isMintedEdge_iff.mpr ⟨_, _, named, Or.inl starts⟩) other
  coChanged same := absurd (isMintedEdge_iff.mpr ⟨_, _, named, Or.inr (Or.inl same)⟩) other

theorem mem_blockedPairs {edges : List GraphEdge} {proof : GraphEdge} (stored : proof ∈ edges)
    (proves : isProof proof = true) :
    pairKey proof.sourceId proof.targetId ∈ blockedPairs edges :=
  List.mem_map_of_mem (List.mem_filter.mpr ⟨stored, proves⟩)

theorem isProof_heuristicEdge (offer : Triple × String) : isProof (heuristicEdge offer) = false :=
  rfl

theorem fair_of_offered {batches : List (List (Triple × String))}
    (made : seen.batches (nodesOf db) db.edges = some batches) {source target : String}
    {edgeType : EdgeType} {detector : String} (offered : ((source, target, edgeType), detector) ∈ batches.flatten) :
    GlobalId.repoId source ≠ GlobalId.repoId target ∧
      ∀ proof ∈ db.edges, isProof proof = true →
        ¬ (proof.sourceId = source ∧ proof.targetId = target) ∧
          ¬ (proof.sourceId = target ∧ proof.targetId = source) := by
  have fair := fair_batches made offered
  refine ⟨fair.apart, fun proof stored proves => ?_⟩
  have blocked := mem_blockedPairs stored proves
  constructor
  · rintro ⟨rfl, rfl⟩
    exact fair.unproven blocked
  · rintro ⟨rfl, rfl⟩
    refine fair.unproven ?_
    rw [pairKey_comm]
    exact blocked

/-- **When the minted edges keep their promises**: exactly when the pass skips no edge as present
whose detector is not borne out by what the pass observes. -/
theorem mintedFair_iff (consistent : Consistent db)
    (done : mintCrossRepoObservations seen failures db = .ok after report) :
    MintedFair seen (nodesOf db) after.edges ↔ RenewsNoStaleName seen db := by
  obtain ⟨batches, offers, made, taken, sound, _, edges⟩ := mint_edges consistent done
  have reached : ∀ triple, seen.Reaches db triple ↔ triple ∈ offers.wanted := by
    intro triple
    unfold Observations.Reaches
    rw [taken]
    exact ⟨fun ⟨_, same, wanted⟩ => Option.some.inj same ▸ wanted, fun wanted => ⟨_, rfl, wanted⟩⟩
  have kept : ∀ e, e ∈ after.edges ↔
      (e ∈ db.edges ∧ e.triple ∉ obsoleteTriples offers db.edges) ∨
        ∃ offer ∈ offers.taken, heuristicEdge offer = e := by
    intro e
    rw [edges, List.mem_append, List.mem_filter, decide_eq_true_eq, List.mem_map]
  have wantedOfKept : ∀ e ∈ db.edges, e.triple ∉ obsoleteTriples offers db.edges →
      isMintedEdge e = true → e.triple ∈ offers.wanted := by
    intro e stored current minted
    by_contra unwanted
    exact current (List.mem_filter.mpr
      ⟨List.mem_map_of_mem (List.mem_filter.mpr ⟨stored, minted⟩), decide_eq_true unwanted⟩)
  have proofsOld : ∀ proof ∈ after.edges, isProof proof = true → proof ∈ db.edges := by
    intro proof here proves
    rcases (kept proof).mp here with ⟨stored, _⟩ | ⟨offer, _, rfl⟩
    · exact stored
    · rw [isProof_heuristicEdge] at proves
      cases proves
  have fair : ∀ e ∈ after.edges, isMintedEdge e = true →
      GlobalId.repoId e.sourceId ≠ GlobalId.repoId e.targetId ∧
        ∀ proof ∈ db.edges, isProof proof = true →
          ¬ (proof.sourceId = e.sourceId ∧ proof.targetId = e.targetId) ∧
            ¬ (proof.sourceId = e.targetId ∧ proof.targetId = e.sourceId) := by
    intro e here minted
    rcases (kept e).mp here with ⟨stored, current⟩ | ⟨offer, member, rfl⟩
    · obtain ⟨detector, offered⟩ := sound.wanted _ (wantedOfKept e stored current minted)
      exact fair_of_offered made offered
    · exact fair_of_offered made (sound.taken offer member).1
  constructor
  · intro promises e stored comes detector confidence named
    by_cases minted : isMintedEdge e = true
    · refine promises.borneOut e ((kept e).mpr (Or.inl ⟨stored, fun gone => ?_⟩)) detector
        confidence named
      exact of_decide_eq_true (List.mem_filter.mp gone).2 ((reached _).mp comes)
    · exact borneOut_of_not_minted named minted
  · intro noStale
    refine ⟨fun e here minted => (fair e here minted).1, fun e here minted proof there proves =>
      (fair e here minted).2 proof (proofsOld proof there proves) proves, ?_⟩
    intro e here detector confidence named
    rcases (kept e).mp here with ⟨stored, current⟩ | ⟨offer, member, rfl⟩
    · by_cases minted : isMintedEdge e = true
      · exact noStale e stored ((reached _).mpr (wantedOfKept e stored current minted)) detector
          confidence named
      · exact borneOut_of_not_minted named minted
    · -- the edge is named after the offer it was made of
      have same : offer.2 = detector := by
        have names := Option.some.inj named
        injection names
      rw [← same]
      exact (fair_batches made (sound.taken offer member).1).borneOut

end Pass

/-! ### A co-change that is no more -/

def fixText : MinerText where
  isAlphanumeric := Char.isAlphanum
  isWhitespace := Char.isWhitespace
  toLowercase s := String.ofList (s.toList.map Char.toLower)
  subjectAnchors subject := if subject = "fix /api/orders" then [(.route, "/api/orders")] else []

def ordersFile : GraphNode where
  id := "shop:File:orders.py:orders.py:0"
  nodeType := .file
  name := "orders.py"
  path := "orders.py"

def clientFile : GraphNode where
  id := "cart:File:client.py:client.py:0"
  nodeType := .file
  name := "client.py"
  path := "client.py"

def cartFix : CommitRecord where
  repo := "cart"
  message := "fix /api/orders"
  time := 0
  files := ["client.py"]
  author := ""

def shopFix : CommitRecord :=
  { cartFix with repo := "shop", files := ["orders.py"] }

def fixes (commits : List CommitRecord) : Observations where
  text := fixText
  occurrences :=
    [{ repo := "shop", path := "orders.py", line := 1, kind := .route, key := "/api/orders" }]
  commits := commits

def twoFiles : GraphDatabase :=
  stateAfter (GraphBackend.upsertNodesBatch {} none [ordersFile, clientFile])

def passOverBoth : Outcome MintReport :=
  mintCrossRepoObservations (fixes [shopFix, cartFix]) {} twoFiles

def passOverOne : Outcome MintReport :=
  mintCrossRepoObservations (fixes [cartFix]) {} (stateAfter passOverBoth)

theorem consistent_twoFiles : Consistent twoFiles := by
  obtain ⟨_, done⟩ := eq_ok_of_succeeds (by decide +kernel : succeeds
    (GraphBackend.upsertNodesBatch {} none [ordersFile, clientFile]) = true)
  exact (upsertNodesBatch_spec consistent_empty done).1

/-- Over a graph without edges a pass keeps every promise. -/
theorem mintedFair_passOverBoth :
    MintedFair (fixes [shopFix, cartFix]) (nodesOf twoFiles) (stateAfter passOverBoth).edges := by
  obtain ⟨report, done⟩ := eq_ok_of_succeeds (by decide +kernel : succeeds passOverBoth = true)
  refine (mintedFair_iff consistent_twoFiles done).mpr fun e stored => ?_
  rw [(by decide +kernel : twoFiles.edges = [])] at stored
  cases stored

/-- The second pass comes to the ends of the co-change as a reference from a subject, and leaves
the name. -/
theorem mintedFair_fails : ¬ ∀ (seen : Observations) (failures : SaveFailures)
    (db after : GraphDatabase) (report : MintReport), Consistent db →
      mintCrossRepoObservations seen failures db = .ok after report →
        MintedFair seen (nodesOf db) after.edges := by
  intro promised
  obtain ⟨_, first⟩ := eq_ok_of_succeeds (by decide +kernel : succeeds passOverBoth = true)
  obtain ⟨_, second⟩ := eq_ok_of_succeeds (by decide +kernel : succeeds passOverOne = true)
  obtain ⟨_, _, _, _, _, consistent, _⟩ := mint_edges consistent_twoFiles first
  have fair := promised _ _ _ _ _ consistent second
  obtain ⟨e, here, source, target, named⟩ : ∃ e ∈ (stateAfter passOverOne).edges,
      e.sourceId = clientFile.id ∧ e.targetId = ordersFile.id ∧
        e.provenance = some (.heuristic "cochange" Joiner.ambiguousConfidence) := by
    decide +kernel
  obtain ⟨a, inA, b, inB, _, _, _, _, _, _, _, _, file⟩ :=
    (fair.borneOut e here _ _ named).coChanged rfl
  obtain rfl := List.mem_singleton.mp inB
  have repo := file.repoId
  rw [target] at repo
  revert repo
  decide

end Lain.Federation
