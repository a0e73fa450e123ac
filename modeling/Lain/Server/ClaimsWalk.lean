import Mathlib
import Lain.Server.Claims
import Lain.Server.Overlay
import Lain.Foundation.FirstTrails

/-!
# Claims of a graph

The walk that finds what depends on a seed, and the merge of its claims by identity.
-/

namespace Lain.Graph

def GraphDatabase.getEdgesTo (db : GraphDatabase) (id : String) : List GraphEdge :=
  match db.indexMap.lookup id with
  | none => []
  | some idx =>
    ((db.graph.arcs.filter fun a => decide (a.target = idx)).map Foundation.Arc.weight).reverse

end Lain.Graph

namespace Lain.Server

open Foundation Foundation.FirstTrails Lain.Graph

/-! ### The walk -/

def isDependency : EdgeType → Bool
  | .calls | .uses => true
  | _ => false

def isHeuristicEdge : EdgeType → Bool
  | .dynamicDispatch | .busTopic | .routeMatches => true
  | _ => false

/-- A claim about the subject itself, whose analysis came back empty. -/
def missingClaimForNode (node : GraphNode) (repoFallback note : String) : Option Claim :=
  (Claim.new (claimRepo node repoFallback) node.path node.name .missing).map fun claim =>
    claim.withNote note

structure Walk where
  queued : List String
  queue : List (String × Acc)
  out : List Claim := []
  foundNamed : Nat := 0
  foundUnnameable : Nat := 0

/-- Add the claim about a node, if there is one. -/
def Walk.claim (w : Walk) (node : GraphNode) (acc : Acc) (repoFallback : String) : Walk :=
  match claimForNode node acc repoFallback with
  | some claim => { w with out := w.out ++ [claim], foundNamed := w.foundNamed + 1 }
  | none => w

def Walk.meet (w : Walk) (caller : Option GraphNode) (acc : Acc) (repoFallback : String) : Walk :=
  match caller with
  | some caller => w.claim caller acc repoFallback
  | none => { w with foundUnnameable := w.foundUnnameable + 1 }

theorem Walk.meet_fields (w : Walk) (caller : Option GraphNode) (acc : Acc)
    (repoFallback : String) :
    (w.meet caller acc repoFallback).queued = w.queued ∧
      (w.meet caller acc repoFallback).queue = w.queue ∧
      (w.meet caller acc repoFallback).out =
        w.out ++ (caller.bind fun node => claimForNode node acc repoFallback).toList := by
  cases caller with
  | none => exact ⟨rfl, rfl, (List.append_nil _).symm⟩
  | some node =>
    change (w.claim node acc repoFallback).queued = _ ∧ (w.claim node acc repoFallback).queue = _ ∧
      (w.claim node acc repoFallback).out = w.out ++ (claimForNode node acc repoFallback).toList
    unfold Walk.claim
    cases claimForNode node acc repoFallback with
    | none => exact ⟨rfl, rfl, (List.append_nil _).symm⟩
    | some claim => exact ⟨rfl, rfl, rfl⟩

def Walk.push (w : Walk) (id : String) (acc : Acc) : Walk :=
  { w with queued := w.queued ++ [id], queue := w.queue ++ [(id, acc)] }

def walkEdge (graph : GraphDatabase) (repoFallback : String) (visited : List String) (acc : Acc)
    (w : Walk) (edge : GraphEdge) : Walk :=
  if !isDependency edge.edgeType && !isHeuristicEdge edge.edgeType then w
  else
    let found := evidenceFromProvenance edge.provenance
    let hop := acc.apply found.1 found.2
    if edge.sourceId ∈ visited ∨ edge.sourceId ∈ w.queued then w
    else (w.push edge.sourceId hop).meet (graph.getNode edge.sourceId) hop repoFallback

def walkOverlay (repoFallback : String) (visited : List String) (acc : Acc) (w : Walk)
    (incoming : GraphNode × EdgeType) : Walk :=
  if !isDependency incoming.2 && !isHeuristicEdge incoming.2 then w
  else if incoming.1.id ∈ visited ∨ incoming.1.id ∈ w.queued then w
  else
    let hop := acc.apply .needsInvestigation
      (some "uncommitted overlay caller (no provenance recorded)")
    (w.push incoming.1.id hop).claim incoming.1 hop repoFallback

def walkFrom (graph : GraphDatabase) (overlay : VolatileOverlay) (repoFallback : String)
    (visited : List String) : Nat → Walk → Walk
  | 0, w => w
  | fuel + 1, w =>
    match w.queue with
    | [] => w
    | (id, acc) :: rest =>
      let w := (graph.getEdgesTo id).foldl (walkEdge graph repoFallback visited acc)
        { w with queue := rest }
      let w := (overlay.getIncomingEdges id).foldl (walkOverlay repoFallback visited acc) w
      walkFrom graph overlay repoFallback visited fuel w

def walked (graph : GraphDatabase) (overlay : VolatileOverlay) (seed : GraphNode)
    (repoFallback : String) : Walk :=
  walkFrom graph overlay repoFallback [seed.id]
    (graph.graph.arcs.length + overlay.graph.arcs.length + 1)
    { queued := [seed.id], queue := [(seed.id, Acc.verified)] }

/-- The claims about what depends on a resolved seed. -/
def claimsFromGraph (graph : GraphDatabase) (overlay : VolatileOverlay) (seed : GraphNode)
    (repoFallback : String) : List Claim :=
  let w := walked graph overlay seed repoFallback
  w.out ++
    (if w.foundNamed = 0 then
      (missingClaimForNode seed repoFallback ("no dependents in the index — an empty blast " ++
        "radius is not proof of no impact")).toList
    else []) ++
    (if 0 < w.foundUnnameable then
      (missingClaimForNode seed repoFallback (s!"{w.foundUnnameable} incoming edge(s) from " ++
        "nodes the index cannot resolve — a dependency exists but is unnameable")).toList
    else [])

/-! ### The merge -/

abbrev PlaceKey := String ×ₗ String ×ₗ String

/-- The identity of a claim, as it is ordered. -/
def Claim.key (claim : Claim) : PlaceKey :=
  toLex (claim.repo, toLex (claim.file, claim.symbol))

def mergeClaim (existing claim : Claim) : Claim :=
  let merged :=
    if existing.evidence.strength < claim.evidence.strength then
      { existing with evidence := claim.evidence }
    else existing
  match claim.note with
  | some note => merged.withNote note
  | none => merged

def fileClaim (byIdentity : SortedMap PlaceKey Claim) (claim : Claim) : SortedMap PlaceKey Claim :=
  match byIdentity.get? claim.key with
  | none => byIdentity.insert claim.key claim
  | some existing => byIdentity.insert claim.key (mergeClaim existing claim)

def claimBefore (a b : Claim) : Bool :=
  decide (b.evidence.strength < a.evidence.strength) ||
    decide (a.evidence.strength = b.evidence.strength) && decide (a.key ≤ b.key)

/-- One claim for each identity, with the strongest evidence. -/
def mergeClaims (claims : List Claim) : List Claim :=
  ((claims.foldl fileClaim ∅).entries.map Prod.snd).mergeSort claimBefore

theorem key_eq_key {a b : Claim} : a.key = b.key ↔ a.place = b.place := by
  constructor
  · intro same
    obtain ⟨repo, rest⟩ := Prod.mk.inj (toLex.injective same)
    obtain ⟨file, symbol⟩ := Prod.mk.inj (toLex.injective rest)
    rw [Claim.place, Claim.place, repo, file, symbol]
  · intro same
    obtain ⟨repo, rest⟩ := Prod.mk.inj same
    obtain ⟨file, symbol⟩ := Prod.mk.inj rest
    rw [Claim.key, Claim.key, repo, file, symbol]

theorem mergeClaim_spec (existing claim : Claim) : (mergeClaim existing claim).key = existing.key ∧
    (mergeClaim existing claim).evidence = max existing.evidence claim.evidence := by
  have evidence : (if existing.evidence.strength < claim.evidence.strength then
      { existing with evidence := claim.evidence } else existing).evidence =
        max existing.evidence claim.evidence := by
    split_ifs with weaker
    · exact (max_eq_right (show existing.evidence < claim.evidence from weaker).le).symm
    · exact (max_eq_left (not_lt.mp (show ¬ existing.evidence < claim.evidence from weaker))).symm
  have key : (if existing.evidence.strength < claim.evidence.strength then
      { existing with evidence := claim.evidence } else existing).key = existing.key := by
    split_ifs <;> rfl
  unfold mergeClaim
  cases claim.note with
  | none => exact ⟨key, evidence⟩
  | some note => exact ⟨key, evidence⟩

/-- What is filed under an identity: a claim of it, with the strongest evidence of all. -/
structure Strongest (claims : List Claim) (key : PlaceKey) (merged : Claim) : Prop where
  identity : merged.key = key
  attained : ∃ claim ∈ claims, claim.key = key ∧ claim.evidence = merged.evidence
  bound : ∀ claim ∈ claims, claim.key = key → claim.evidence ≤ merged.evidence

structure FiledClaims (claims : List Claim) (m : SortedMap PlaceKey Claim) : Prop where
  known : ∀ claim ∈ claims, (m.get? claim.key).isSome = true
  strongest : ∀ key merged, m.get? key = some merged → Strongest claims key merged

theorem Strongest.skip {claims : List Claim} {key : PlaceKey} {merged claim : Claim}
    (strongest : Strongest claims key merged) (other : claim.key ≠ key) :
    Strongest (claims ++ [claim]) key merged where
  identity := strongest.identity
  attained := by
    obtain ⟨witness, member, same⟩ := strongest.attained
    exact ⟨witness, List.mem_append_left _ member, same⟩
  bound c member same := by
    rcases List.mem_append.mp member with old | new
    · exact strongest.bound c old same
    · rw [List.mem_singleton.mp new] at same
      exact absurd same other

theorem FiledClaims.next {claims : List Claim} {m : SortedMap PlaceKey Claim}
    (filed : FiledClaims claims m) (claim : Claim) :
    FiledClaims (claims ++ [claim]) (fileClaim m claim) := by
  have here : ∃ merged, fileClaim m claim = m.insert claim.key merged ∧
      Strongest (claims ++ [claim]) claim.key merged := by
    unfold fileClaim
    cases found : m.get? claim.key with
    | none =>
      refine ⟨claim, rfl, rfl, ⟨claim, by simp, rfl, rfl⟩, fun c member same => ?_⟩
      rcases List.mem_append.mp member with old | new
      · have known := filed.known c old
        rw [same, found] at known
        simp at known
      · rw [List.mem_singleton.mp new]
    | some existing =>
      obtain ⟨key, evidence⟩ := mergeClaim_spec existing claim
      have before := filed.strongest _ _ found
      refine ⟨mergeClaim existing claim, rfl, key.trans before.identity, ?_, fun c member same => ?_⟩
      · rcases max_choice existing.evidence claim.evidence with first | second
        · obtain ⟨witness, member, same, attained⟩ := before.attained
          exact ⟨witness, List.mem_append_left _ member, same,
            attained.trans (evidence.trans first).symm⟩
        · exact ⟨claim, by simp, rfl, (evidence.trans second).symm⟩
      · rw [evidence]
        rcases List.mem_append.mp member with old | new
        · exact le_max_of_le_left (before.bound c old same)
        · rw [List.mem_singleton.mp new]
          exact le_max_right _ _
  obtain ⟨merged, inserted, strongest⟩ := here
  rw [inserted]
  constructor
  · intro c member
    rw [SortedMap.get?_insert]
    split_ifs with same
    · rfl
    · rcases List.mem_append.mp member with old | new
      · exact filed.known c old
      · exact absurd (List.mem_singleton.mp new ▸ rfl) same
  · intro key c found
    rw [SortedMap.get?_insert] at found
    split_ifs at found with same
    · obtain rfl := Option.some.inj found
      exact same ▸ strongest
    · exact (filed.strongest key c found).skip (Ne.symm same)

theorem filedClaims_foldl (claims : List Claim) : FiledClaims claims (claims.foldl fileClaim ∅) := by
  induction claims using List.reverseRecOn with
  | nil => exact ⟨by simp, by simp⟩
  | append_singleton claims claim ih =>
    rw [List.foldl_concat]
    exact ih.next claim

theorem mem_mergeClaims {claims : List Claim} {merged : Claim}
    (member : merged ∈ mergeClaims claims) : Strongest claims merged.key merged := by
  unfold mergeClaims at member
  rw [List.mem_mergeSort] at member
  obtain ⟨⟨key, c⟩, entry, rfl⟩ := List.mem_map.mp member
  have strongest := (filedClaims_foldl claims).strongest key c (SortedMap.mem_entries.mp entry)
  exact strongest.identity ▸ strongest

/-- **The merge keeps the strongest evidence of every identity.** -/
theorem exists_mergeClaims {claims : List Claim} {place : Place} {evidence : Evidence} :
    (∃ c ∈ mergeClaims claims, c.place = place ∧ evidence ≤ c.evidence) ↔
      ∃ c ∈ claims, c.place = place ∧ evidence ≤ c.evidence := by
  constructor
  · rintro ⟨c, member, rfl, enough⟩
    obtain ⟨witness, listed, same, attained⟩ := (mem_mergeClaims member).attained
    exact ⟨witness, listed, key_eq_key.mp same, attained ▸ enough⟩
  · rintro ⟨c, member, rfl, enough⟩
    have filed := filedClaims_foldl claims
    obtain ⟨merged, found⟩ := Option.isSome_iff_exists.mp (filed.known c member)
    have strongest := filed.strongest c.key merged found
    refine ⟨merged, ?_, key_eq_key.mp strongest.identity,
      enough.trans (strongest.bound c member rfl)⟩
    unfold mergeClaims
    rw [List.mem_mergeSort]
    exact List.mem_map.mpr ⟨_, SortedMap.mem_entries.mpr found, rfl⟩

end Lain.Server
