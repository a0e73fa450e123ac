import Mathlib
import Lain.Federation.Impact
import Lain.Federation.RepoId

/-!
# Impact claims

An affected place with its evidence class: proven by static or confirmed edges,
flagged by any other, or missing from the graph.
-/

namespace Lain.Server

open Foundation Federation Lain.Graph

/-- The evidence class of a claim. -/
inductive Evidence where
  | verified | needsInvestigation | missing
  deriving DecidableEq

namespace Evidence

/-- A proven relationship beats a flagged one, a flagged one beats absent information. -/
def strength : Evidence → Nat
  | verified => 2
  | needsInvestigation => 1
  | missing => 0

theorem strength_injective : Function.Injective strength := by
  intro left right same
  cases left <;> cases right <;> first | rfl | exact absurd same (by decide)

instance linearOrder : LinearOrder Evidence :=
  LinearOrder.lift' strength strength_injective

theorem le_verified (evidence : Evidence) : evidence ≤ verified := by
  cases evidence <;> decide

end Evidence

def isWhitespace (c : Char) : Bool :=
  (9 ≤ c.toNat && c.toNat ≤ 13) || c.toNat = 0x20 || c.toNat = 0x85 || c.toNat = 0xA0 ||
    c.toNat = 0x1680 || (0x2000 ≤ c.toNat && c.toNat ≤ 0x200A) || c.toNat = 0x2028 ||
    c.toNat = 0x2029 || c.toNat = 0x202F || c.toNat = 0x205F || c.toNat = 0x3000

def claimPartOk (s : String) : Bool :=
  !s.toList.all isWhitespace && !s.toList.any isWhitespace

/-- An identity renders as one line the parser can read back. -/
def claimIdentityOk (repo file symbol : String) : Bool :=
  claimPartOk repo && claimPartOk file && claimPartOk symbol &&
    !Text.contains repo ':' && !Text.contains file ':'

/-- One affected place with its evidence class. -/
structure Claim where
  repo : String
  file : String
  symbol : String
  evidence : Evidence
  note : Option String
  identityOk : claimIdentityOk repo file symbol = true
  deriving DecidableEq

abbrev Place := String × String × String

namespace Claim

/-- Build a claim if its identity can be read back. -/
def new (repo file symbol : String) (evidence : Evidence) : Option Claim :=
  if ok : claimIdentityOk repo file symbol = true then
    some { repo, file, symbol, evidence, note := none, identityOk := ok }
  else none

/-- Add a reason to a claim. -/
def withNote (claim : Claim) (note : String) : Claim :=
  { claim with
    note :=
      match claim.note with
      | some existing => some s!"{existing}; {note}"
      | none => some note }

def place (claim : Claim) : Place :=
  (claim.repo, claim.file, claim.symbol)

def view (claim : Claim) : Place × Evidence :=
  (claim.place, claim.evidence)

@[simp] theorem view_withNote (claim : Claim) (note : String) :
    (claim.withNote note).view = claim.view := rfl

end Claim

/-- The weakest class seen so far and every reason that pushed it there. -/
structure Acc where
  evidence : Evidence
  notes : List String
  deriving DecidableEq

namespace Acc

/-- Before the first edge. -/
def verified : Acc where
  evidence := .verified
  notes := []

/-- Take the evidence of one more edge into account. -/
def apply (acc : Acc) (evidence : Evidence) (note : Option String) : Acc where
  evidence := if evidence.strength < acc.evidence.strength then evidence else acc.evidence
  notes :=
    match note with
    | some note => if note ∈ acc.notes then acc.notes else acc.notes ++ [note]
    | none => acc.notes

/-- The reasons in one text. -/
def note (acc : Acc) : Option String :=
  if acc.notes.isEmpty then none else some ("; ".intercalate acc.notes)

theorem evidence_apply (acc : Acc) (evidence : Evidence) (note : Option String) :
    (acc.apply evidence note).evidence = min acc.evidence evidence := by
  change (if evidence < acc.evidence then evidence else acc.evidence) = _
  split_ifs with weaker
  · exact (min_eq_right weaker.le).symm
  · exact (min_eq_left (not_lt.mp weaker)).symm

end Acc

def twoDecimals (q : ℚ) : String :=
  let low := ⌊|q| * 100⌋.toNat
  let rest := |q| * 100 - low
  let hundredths := if rest < 1 / 2 then low else if 1 / 2 < rest then low + 1 else low + low % 2
  let sign := if q < 0 then "-" else ""
  s!"{sign}{hundredths / 100}.{hundredths / 10 % 10}{hundredths % 10}"

/-- The evidence of one edge, with the reason if it proves nothing. -/
def evidenceFromProvenance : Option EdgeProvenance → Evidence × Option String
  | some (.static _) | some (.confirmed _) => (.verified, none)
  | some (.heuristic detector confidence) =>
    (.needsInvestigation,
      some s!"heuristic edge (detector={detector}, confidence={twoDecimals confidence})")
  | some (.runtime ..) => (.needsInvestigation, some "runtime-observed edge (not static proof)")
  | none => (.needsInvestigation, some "edge provenance not recorded (confidence 0.0)")

def edgeEvidence (edge : GraphEdge) : Evidence :=
  (evidenceFromProvenance edge.provenance).1

def Proven (edge : GraphEdge) : Prop :=
  edgeEvidence edge = .verified

instance decidableProven : DecidablePred Proven := fun edge =>
  inferInstanceAs (Decidable (edgeEvidence edge = .verified))

theorem edgeEvidence_of_not_proven {edge : GraphEdge} (unproven : ¬ Proven edge) :
    edgeEvidence edge = .needsInvestigation := by
  unfold Proven at unproven
  unfold edgeEvidence at unproven ⊢
  generalize edge.provenance = provenance at unproven ⊢
  rcases provenance with _ | _ | _ | _ | _
  · rfl
  · exact absurd rfl unproven
  · rfl
  · rfl
  · exact absurd rfl unproven

/-- The nodes that name an affected place. -/
def claimableNodeType : NodeType → Bool
  | .function | .method | .class | .struct | .trait | .interface | .enum => true
  | _ => false

/-- The repository of a node: the prefix of its global id, else its own field, else the
caller's fallback. -/
def claimRepo (node : GraphNode) (repoFallback : String) : String :=
  (((GlobalId.parse node.id).map GlobalId.repoId).or node.repoId).getD repoFallback

def placeOf (node : GraphNode) (repoFallback : String) : Place :=
  (claimRepo node repoFallback, node.path, node.name)

def claimable (node : GraphNode) (repoFallback : String) : Bool :=
  claimableNodeType node.nodeType &&
    claimIdentityOk (claimRepo node repoFallback) node.path node.name

/-- The claim about a node at the end of a chain. -/
def claimForNode (node : GraphNode) (acc : Acc) (repoFallback : String) : Option Claim :=
  if !claimableNodeType node.nodeType then none
  else
    (Claim.new (claimRepo node repoFallback) node.path node.name acc.evidence).map fun claim =>
      match acc.note with
      | some note => claim.withNote note
      | none => claim

theorem claimForNode_view (node : GraphNode) (acc : Acc) (repoFallback : String) :
    (claimForNode node acc repoFallback).map Claim.view =
      if claimable node repoFallback then some (placeOf node repoFallback, acc.evidence)
      else none := by
  unfold claimForNode claimable Claim.new
  by_cases kind : claimableNodeType node.nodeType = true
  · by_cases ok : claimIdentityOk (claimRepo node repoFallback) node.path node.name = true
    · simp only [kind, ok, Bool.not_true, Bool.false_eq_true, if_false, dif_pos, Option.map_some,
        Bool.and_self, if_true]
      cases acc.note <;> rfl
    · simp [kind, ok]
  · simp [kind]

/-! ### Claims of impact paths -/

def claimHop (starts : List String) (s : Acc × List Claim) (hop : ImpactHop) : Acc × List Claim :=
  -- a start is the subject, not an affected place
  if hop.node.id ∈ starts then s
  else
    let found := evidenceFromProvenance hop.edge.provenance
    let acc := s.1.apply found.1 found.2
    (acc, s.2 ++ (claimForNode hop.node acc "").toList)

/-- The claims of impact paths, hop after hop. -/
def claimsFromImpactPaths (paths : List ImpactPath) (starts : List String) : List Claim :=
  paths.foldl (fun out path => (path.hops.foldl (claimHop starts) (Acc.verified, out)).2) []

def weakest (edges : List GraphEdge) : Evidence :=
  (edges.map edgeEvidence).foldr min .verified

def yields (starts : List String) (hops : List ImpactHop) : Option GraphNode :=
  hops.getLast?.bind fun hop =>
    if hop.node.id ∉ starts ∧ claimable hop.node "" = true then some hop.node else none

def claimedHops (starts : List String) (path : ImpactPath) : List (List ImpactHop × GraphNode) :=
  path.hops.inits.filterMap fun hops => (yields starts hops).map fun node => (hops, node)

def NeverUpgraded (paths : List ImpactPath) (starts : List String) : Prop :=
  (claimsFromImpactPaths paths starts).map Claim.view =
    (paths.flatMap (claimedHops starts)).map fun claimed =>
      (placeOf claimed.2 "", weakest (claimed.1.map ImpactHop.edge))

instance decidableNeverUpgraded (paths : List ImpactPath) (starts : List String) :
    Decidable (NeverUpgraded paths starts) :=
  inferInstanceAs (Decidable (_ = _))

def StartsCovered (paths : List ImpactPath) (starts : List String) : Prop :=
  ∀ path ∈ paths, ∀ claimed ∈ claimedHops starts path,
    (∃ hop ∈ claimed.1, hop.node.id ∈ starts ∧ ¬ Proven hop.edge) →
      ∃ hop ∈ claimed.1, hop.node.id ∉ starts ∧ ¬ Proven hop.edge

theorem weakest_concat (edges : List GraphEdge) (edge : GraphEdge) :
    weakest (edges ++ [edge]) = min (weakest edges) (edgeEvidence edge) := by
  induction edges with
  | nil => exact (min_comm _ _)
  | cons first rest ih =>
    change min (edgeEvidence first) (weakest (rest ++ [edge])) = _
    rw [ih, ← min_assoc]
    rfl

theorem weakest_eq (edges : List GraphEdge) :
    weakest edges = if ∀ edge ∈ edges, Proven edge then .verified else .needsInvestigation := by
  induction edges with
  | nil => simp [weakest]
  | cons first rest ih =>
    change min (edgeEvidence first) (weakest rest) = _
    rw [ih]
    by_cases proven : Proven first
    · rw [show edgeEvidence first = .verified from proven, min_eq_right (Evidence.le_verified _)]
      simp only [List.forall_mem_cons, proven, true_and]
    · have flagged := edgeEvidence_of_not_proven proven
      simp only [List.forall_mem_cons, proven, false_and, if_false, flagged]
      split_ifs <;> decide

theorem weakest_eq_verified {edges : List GraphEdge} :
    weakest edges = .verified ↔ ∀ edge ∈ edges, Proven edge := by
  rw [weakest_eq]
  split_ifs with proven
  · exact ⟨fun _ => proven, fun _ => rfl⟩
  · exact ⟨fun absurdity => by simp at absurdity, fun all => absurd all proven⟩

theorem weakest_eq_weakest {left right : List GraphEdge} :
    weakest left = weakest right ↔
      ((∀ edge ∈ left, Proven edge) ↔ ∀ edge ∈ right, Proven edge) := by
  rw [weakest_eq, weakest_eq]
  split_ifs with first second second
  · exact ⟨fun _ => ⟨fun _ => second, fun _ => first⟩, fun _ => rfl⟩
  · exact ⟨fun differ => by simp at differ, fun together => absurd (together.mp first) second⟩
  · exact ⟨fun differ => by simp at differ, fun together => absurd (together.mpr second) first⟩
  · exact ⟨fun _ => ⟨fun all => absurd all first, fun all => absurd all second⟩, fun _ => rfl⟩

def countedEdges (starts : List String) (hops : List ImpactHop) : List GraphEdge :=
  (hops.filter fun hop => decide (hop.node.id ∉ starts)).map ImpactHop.edge

structure Gathered (starts : List String) (out : List Claim) (hops : List ImpactHop)
    (s : Acc × List Claim) : Prop where
  evidence : s.1.evidence = weakest (countedEdges starts hops)
  claims : s.2.map Claim.view =
    out.map Claim.view ++ hops.inits.filterMap fun before =>
      (yields starts before).map fun node =>
        (placeOf node "", weakest (countedEdges starts before))

theorem inits_concat {α : Type*} (l : List α) (a : α) : (l ++ [a]).inits = l.inits ++ [l ++ [a]] := by
  rw [List.inits_append]
  rfl

theorem Gathered.next {starts : List String} {out : List Claim} {hops : List ImpactHop}
    {s : Acc × List Claim} (gathered : Gathered starts out hops s) (hop : ImpactHop) :
    Gathered starts out (hops ++ [hop]) (claimHop starts s hop) := by
  unfold claimHop
  split_ifs with start
  · have counted : countedEdges starts (hops ++ [hop]) = countedEdges starts hops := by
      simp [countedEdges, start]
    have silent : yields starts (hops ++ [hop]) = none := by simp [yields, start]
    refine ⟨by rw [counted]; exact gathered.evidence, ?_⟩
    rw [inits_concat, List.filterMap_append, gathered.claims]
    simp [silent]
  · have counted : countedEdges starts (hops ++ [hop]) =
        countedEdges starts hops ++ [hop.edge] := by simp [countedEdges, start]
    have evidence : (s.1.apply (evidenceFromProvenance hop.edge.provenance).1
        (evidenceFromProvenance hop.edge.provenance).2).evidence =
        weakest (countedEdges starts (hops ++ [hop])) := by
      rw [Acc.evidence_apply, gathered.evidence, counted, weakest_concat]
      rfl
    refine ⟨evidence, ?_⟩
    have pushed := claimForNode_view hop.node (s.1.apply (evidenceFromProvenance
      hop.edge.provenance).1 (evidenceFromProvenance hop.edge.provenance).2) ""
    rw [evidence] at pushed
    rw [inits_concat, List.filterMap_append, List.map_append, gathered.claims, List.append_assoc]
    refine congrArg _ (congrArg _ ?_)
    rw [← Option.toList_map, pushed]
    by_cases named : claimable hop.node "" = true <;> simp [yields, start, named]

theorem gathered_foldl (starts : List String) (out : List Claim) (hops : List ImpactHop) :
    Gathered starts out hops (hops.foldl (claimHop starts) (Acc.verified, out)) := by
  induction hops using List.reverseRecOn with
  | nil => exact ⟨rfl, by simp [yields]⟩
  | append_singleton hops hop ih =>
    rw [List.foldl_concat]
    exact ih.next hop

theorem claimsFromImpactPaths_view (paths : List ImpactPath) (starts : List String) :
    (claimsFromImpactPaths paths starts).map Claim.view =
      (paths.flatMap (claimedHops starts)).map fun claimed =>
        (placeOf claimed.2 "", weakest (countedEdges starts claimed.1)) := by
  have walk : ∀ (paths : List ImpactPath) (out : List Claim),
      (paths.foldl (fun out path => (path.hops.foldl (claimHop starts) (Acc.verified, out)).2)
        out).map Claim.view = out.map Claim.view ++
          (paths.flatMap (claimedHops starts)).map fun claimed =>
            (placeOf claimed.2 "", weakest (countedEdges starts claimed.1)) := by
    intro paths
    induction paths with
    | nil => simp
    | cons path rest ih =>
      intro out
      rw [List.foldl_cons, ih, (gathered_foldl starts out path.hops).claims, List.flatMap_cons,
        List.map_append, List.append_assoc]
      refine congrArg _ (congrArg (· ++ _) ?_)
      rw [claimedHops, List.map_filterMap]
      refine List.filterMap_congr fun hops _ => ?_
      rw [Option.map_map]
      rfl
  exact walk paths []

/-- **A heuristic hop is never upgraded exactly when the starts on the way are
covered.** -/
theorem neverUpgraded_iff (paths : List ImpactPath) (starts : List String) :
    NeverUpgraded paths starts ↔ StartsCovered paths starts := by
  unfold NeverUpgraded StartsCovered
  rw [claimsFromImpactPaths_view, List.map_inj_left]
  have counted : ∀ hops : List ImpactHop, (∀ edge ∈ countedEdges starts hops, Proven edge) ↔
      ∀ hop ∈ hops, hop.node.id ∉ starts → Proven hop.edge := by
    intro hops
    rw [countedEdges, List.forall_mem_map]
    simp
  have same : ∀ hops : List ImpactHop,
      weakest (countedEdges starts hops) = weakest (hops.map ImpactHop.edge) ↔
        ((∃ hop ∈ hops, hop.node.id ∈ starts ∧ ¬ Proven hop.edge) →
          ∃ hop ∈ hops, hop.node.id ∉ starts ∧ ¬ Proven hop.edge) := by
    intro hops
    rw [weakest_eq_weakest, counted, List.forall_mem_map]
    constructor
    · rintro proven ⟨hop, member, -, unproven⟩
      by_contra covered
      push Not at covered
      exact unproven (proven.mp covered hop member)
    · intro covered
      refine ⟨fun proven hop member => ?_, fun proven hop member _ => proven hop member⟩
      by_contra unproven
      by_cases start : hop.node.id ∈ starts
      · obtain ⟨other, inside, apart, open'⟩ := covered ⟨hop, member, start, unproven⟩
        exact open' (proven other inside apart)
      · exact unproven (proven hop member start)
  constructor
  · intro equal path member claimed inside
    have entry := equal claimed (List.mem_flatMap.mpr ⟨path, member, inside⟩)
    exact (same claimed.1).mp (Prod.ext_iff.mp entry).2
  · intro covered claimed member
    obtain ⟨path, listed, inside⟩ := List.mem_flatMap.mp member
    exact Prod.ext rfl ((same claimed.1).mpr (covered path listed claimed inside))

def crossedStart : ImpactPath where
  hops :=
    [ { edge := { edgeType := .calls, sourceId := "b", targetId := "a"
                  provenance := some (.heuristic "dispatch" (1 / 2)) }
        node := { id := "b", nodeType := .function, name := "relay", path := "b.rs"
                  repoId := some "r" } },
      { edge := { edgeType := .calls, sourceId := "c", targetId := "b" }
        node := { id := "c", nodeType := .function, name := "caller", path := "c.rs"
                  repoId := some "r" } } ]
  minConfidence := 1 / 2

/-- The heuristic edge into a start is passed over, and what lies beyond is verified. -/
theorem not_neverUpgraded_crossedStart : ¬ NeverUpgraded [crossedStart] ["a", "b"] := by
  decide

end Lain.Server
