import Lain.Federation.AnchorMiner
import Lain.Federation.GlobalIdCodec
import Lain.Federation.MatchingIndex

/-!
# Projecting repositories into the federation

The nodes of a repository enter the backend under one lock that is also taken when
repositories are added and removed.
-/

namespace Lain.Federation

open Foundation Contracts Lain.Graph

def FederatedIndex.repoPrefix (id : RepoId) : String :=
  id ++ ":"

def InRepo (id : RepoId) (gid : String) : Prop :=
  Text.startsWith gid (FederatedIndex.repoPrefix id) = true

instance (id : RepoId) (gid : String) : Decidable (InRepo id gid) :=
  inferInstanceAs (Decidable (_ = true))

/-! ### Rewriting one repository -/

/-- The kind a text names; the kind of any other text is provisional. -/
def parseNodeType (s : String) : NodeType :=
  match s with
  | "File" => .file
  | "Namespace" => .namespace
  | "Module" => .module
  | "Package" => .package
  | "Class" => .class
  | "Interface" => .interface
  | "Struct" => .struct
  | "Enum" => .enum
  | "Trait" => .trait
  | "Function" => .function
  | "Method" => .method
  | "Property" => .property
  | "Variable" => .variable
  | "Constant" => .constant
  | "HttpRoute" => .httpRoute
  | "Topic" => .topic
  | "Resource" => .resource
  | "Schema" => .schema
  | _ => .function

/-- The id a node of a repository has in the federation. -/
def globalIdStr (repo : RepoId) (n : GraphNode) : String :=
  GlobalId.new repo n.nodeType n.path n.name n.lineStart

theorem inRepo_globalIdStr (repo : RepoId) (n : GraphNode) : InRepo repo (globalIdStr repo n) := by
  rw [InRepo, Text.startsWith, List.isPrefixOf_iff_prefix, globalIdStr, GlobalId.toList_new,
    FederatedIndex.repoPrefix, String.toList_append]
  exact ⟨_, List.append_assoc _ _ _⟩

def localToGlobal (repo : RepoId) (nodes : List GraphNode) : SortedMap String String :=
  nodes.foldl (fun ids n => ids.insert n.id (globalIdStr repo n)) ∅

def projectEdge (globals : SortedMap String String) (edge : GraphEdge) : Option GraphEdge :=
  match globals.get? edge.sourceId with
  | none => none
  | some source =>
    match globals.get? edge.targetId with
    | some target =>
      some { edge with sourceId := source, targetId := target, crossRepo := false }
    | none =>
      (GlobalId.parse edge.targetId).map fun target =>
        { edge with sourceId := source, targetId := target, crossRepo := false }

/-- The nodes and edges of a repository's graph as the federation has them. -/
def projectGraphShared (db : GraphDatabase) (repo : String) :
    Except LainError (List GraphNode × List GraphEdge) :=
  match repoIdNew repo with
  | none => .error (.invalidRepoId (LainError.invalidRepoId repo).display)
  | some repoId =>
    let nodes := nodesOf db
    .ok (nodes.map fun n => { n with id := globalIdStr repoId n, repoId := some repo },
      db.edges.filterMap (projectEdge (localToGlobal repoId nodes)))

/-! ### The federation -/

/-- The federation: the backend, the registered repositories with the handles of their graphs,
and the graphs by handle. -/
structure FederatedIndex where
  backend : GraphDatabase
  repos : SortedMap RepoId Nat := ∅
  indexes : List GraphDatabase := []

namespace FederatedIndex

variable (f : FederatedIndex)

/-- The graph behind a handle. -/
def db (handle : Nat) : GraphDatabase :=
  f.indexes[handle]?.getD {}

def repoNotFound (id : RepoId) : LainError :=
  .notFound s!"repo {id}"

/-- A registered repository as the federation has it. -/
def projectGraph (id : RepoId) : Except LainError (List GraphNode × List GraphEdge) :=
  match f.repos.get? id with
  | none => .error (repoNotFound id)
  | some handle => projectGraphShared (f.db handle) id

def staleNodes (id : RepoId) (live : List String) (backend : GraphDatabase) : List String :=
  let stale := ((nodesOf backend).map GraphNode.id).filter fun gid =>
    Text.startsWith gid (repoPrefix id) && !live.contains gid
  let minted := backend.edges.filter isMintedEdge
  let anchored := minted.map GraphEdge.sourceId ++ minted.map GraphEdge.targetId
  stale.filter fun gid => !anchored.contains gid

/-- Project the nodes of a repository and retract those it no longer has. The two saves may
fail. -/
def projectNodes (id : RepoId) (upserting removing : Option LainError) : Outcome Unit :=
  match f.projectGraph id with
  | .error reason => .error f.backend reason
  | .ok (batchNodes, _) =>
    andThen (GraphBackend.upsertNodesBatch f.backend upserting batchNodes) fun backend _ =>
      let stale := staleNodes id (batchNodes.map GraphNode.id) backend
      if stale.isEmpty then .ok backend ()
      else andThen (GraphBackend.removeNodes backend removing stale) fun backend _ =>
        .ok backend ()

/-- Register a repository with a new handle for its graph. -/
def addRepo (id : RepoId) (graph : GraphDatabase) : FederatedIndex :=
  { f with
    repos := f.repos.insert id f.indexes.length
    indexes := f.indexes ++ [graph] }

def removeOwnNodes (id : RepoId) (failure : Option LainError) : Outcome Nat :=
  GraphBackend.removeNodes f.backend failure <|
    ((nodesOf f.backend).map GraphNode.id).filter fun gid => Text.startsWith gid (repoPrefix id)

/-- Take the nodes of a repository out of the backend and forget it. -/
def removeRepo (id : RepoId) (failure : Option LainError) :
    Option (FederatedIndex × Except LainError Unit) :=
  match f.removeOwnNodes id failure with
  | .ok backend _ => some ({ f with backend, repos := f.repos.erase id }, .ok ())
  | .error backend reason => some ({ f with backend }, .error reason)
  | .panicked => none

def otherNodes (id : RepoId) : List GraphNode :=
  (f.repos.entries.filter fun entry => decide (entry.1 ≠ id)).flatMap fun entry =>
    ((nodesOf (f.db entry.2)).filter fun n => decide (n.nodeType ∈ sameSymbolTypes)).map fun n =>
      { n with id := globalIdStr entry.1 n }

end FederatedIndex

/-! ### Projecting edges -/

/-- Where a call that projects edges is, with what its next steps read: the edges it drained
and has still to look at, a target it has found registered, or found missing, the matches it
has still to look up, the peers it is about to write, the edges it is about to retract. -/
inductive Phase where
  | projecting (nodes : List GraphNode)
  | draining
  | placing (external todo : List GraphEdge)
  | registered (external todo : List GraphEdge) (target : GlobalId)
  | missing (external todo : List GraphEdge) (target : GlobalId)
  | carrying (todo : List GraphEdge)
  | gathering
  | matching (others : List GraphNode) (todo : List (GraphNode × CrossRepoMatch ℚ))
      (targets : SortedMap String GraphNode)
  | reconciling
  | retracting (stale : List GraphEdge)
  | writing
  | done (result : Except LainError Unit)

structure EdgeCall where
  repo : RepoId
  handle : Nat
  globals : SortedMap String String := ∅
  nodes : List GraphNode := []
  batch : List GraphEdge := []
  phase : Phase

def EdgeCall.ended (call : EdgeCall) : Bool :=
  match call.phase with
  | .done _ => true
  | _ => false

/-- The last candidate of an id. -/
def nodeById (candidates : List GraphNode) (id : String) : Option GraphNode :=
  (candidates.filter fun n => decide (n.id = id)).getLast?

def needsUpsert (stored : Option GraphNode) (target : GraphNode) : Bool :=
  match stored with
  | none => true
  | some existing => existing.signature.isNone && target.signature.isSome

def carryEdge (globals : SortedMap String String) (edge : GraphEdge) : Option GraphEdge :=
  (globals.get? edge.sourceId).map fun source =>
    { edge with sourceId := source, crossRepo := false }

def peerEdge (n : GraphNode) (found : CrossRepoMatch ℚ) : GraphEdge where
  edgeType := .crossRepoSameSymbol
  sourceId := n.id
  targetId := found.id
  weight := some found.similarity
  crossRepo := true
  provenance := none

def ownEdge (id : RepoId) (e : GraphEdge) : Bool :=
  Text.startsWith e.sourceId (FederatedIndex.repoPrefix id) &&
    !(decide (e.edgeType = .calls) &&
      !Text.startsWith e.targetId (FederatedIndex.repoPrefix id)) &&
    decide (e.edgeType ≠ .binds) && !isMintedEdge e

def staleEdges (id : RepoId) (batch stored : List GraphEdge) : List GraphEdge :=
  stored.filter fun e =>
    ownEdge id e && !(batch.map edgeIdentityKey).contains (edgeIdentityKey e)

def TextRules.ascii : TextRules where
  isAlphanumeric := Char.isAlphanum
  toLowercase s := String.ofList (s.toList.map Char.toLower)

def HashOrders.byKey : HashOrders where
  counts _ l := l
  own l := l
  dots l := l
  counts_perm _ _ := List.Perm.refl _
  own_perm _ := List.Perm.refl _
  dots_perm _ := List.Perm.refl _

section Steps

variable (rules : TextRules) (orders : HashOrders) (sim : Nat → Nat → Nat → ℚ)

def peerMatches (nodes others : List GraphNode) : List (GraphNode × CrossRepoMatch ℚ) :=
  let matcher := CrossRepoMatcher.new rules orders others
  nodes.flatMap fun n =>
    (matcher.findMatches rules orders sim n 5 (some (1 / 2))).map fun found => (n, found)

namespace EdgeCall

def resume {α : Type} (f : FederatedIndex) (call : EdgeCall) (next : α → Phase) :
    Outcome α → Option (FederatedIndex × EdgeCall)
  | .ok backend value => some ({ f with backend }, { call with phase := next value })
  | .error backend reason =>
    some ({ f with backend }, { call with phase := .done (.error reason) })
  | .panicked => none

/-- A call starts with a registered repository and reads its nodes. -/
def start (f : FederatedIndex) (id : RepoId) : EdgeCall :=
  match f.repos.get? id with
  | none =>
    { repo := id, handle := 0, phase := .done (.error (FederatedIndex.repoNotFound id)) }
  | some handle => { repo := id, handle, phase := .projecting (nodesOf (f.db handle)) }

def step (f : FederatedIndex) (call : EdgeCall) (failure : Option LainError) :
    Option (FederatedIndex × EdgeCall) :=
  match call.phase with
  | .projecting nodes =>
    match f.projectGraph call.repo with
    | .error reason => some (f, { call with phase := .done (.error reason) })
    | .ok (batchNodes, intraEdges) =>
      some (f,
        { call with
          globals := localToGlobal call.repo nodes
          nodes := batchNodes
          batch := intraEdges
          phase := .draining })
  | .draining =>
    let (external, drained) := (f.db call.handle).takePendingExternalEdges
    some ({ f with indexes := f.indexes.set call.handle drained },
      { call with phase := .placing external external })
  | .placing external [] => some (f, { call with phase := .carrying external })
  | .placing external (edge :: todo) =>
    match GlobalId.parse edge.targetId with
    | none => some (f, { call with phase := .placing external todo })
    | some target =>
      -- The check is not repeated before the placeholder is written.
      if target.repoId ∈ f.repos.keys then
        some (f, { call with phase := .registered external todo target })
      else some (f, { call with phase := .placing external todo })
  | .registered external todo target =>
    if f.backend.hasNode target then some (f, { call with phase := .placing external todo })
    else some (f, { call with phase := .missing external todo target })
  | .missing external todo target =>
    match target.nodeKindStr, target.path, target.name with
    | some kind, some path, some name =>
      -- The error of the placeholder is dropped.
      match GraphBackend.upsertNodeGlobal f.backend failure target (parseNodeType kind) path
          name with
      | .panicked => none
      | outcome =>
        some ({ f with backend := stateAfter outcome },
          { call with phase := .placing external todo })
    | _, _, _ => some (f, { call with phase := .placing external todo })
  | .carrying [] => some (f, { call with phase := .gathering })
  | .carrying (edge :: todo) =>
    if !f.backend.hasNode edge.targetId then some (f, { call with phase := .carrying todo })
    else
      match carryEdge call.globals edge with
      | none => some (f, { call with phase := .carrying todo })
      | some carried =>
        some (f, { call with batch := call.batch ++ [carried], phase := .carrying todo })
  | .gathering =>
    let others := f.otherNodes call.repo
    some (f,
      { call with phase := .matching others (peerMatches rules orders sim call.nodes others) ∅ })
  | .matching others ((n, found) :: todo) targets =>
    let targets := match nodeById others found.id with
      | some target =>
        if needsUpsert (f.backend.getNode found.id) target then targets.insert found.id target
        else targets
      | none => targets
    some (f,
      { call with
        batch := call.batch ++ [peerEdge n found]
        phase := .matching others todo targets })
  | .matching _ [] targets =>
    resume f call (fun _ => .reconciling) <|
      GraphBackend.upsertNodesBatch f.backend failure (targets.entries.map Prod.snd)
  | .reconciling =>
    some (f,
      { call with phase := .retracting (staleEdges call.repo call.batch f.backend.edges) })
  | .retracting stale =>
    if stale.isEmpty then some (f, { call with phase := .writing })
    else
      resume f call (fun _ => .writing) (GraphBackend.removeEdges f.backend failure stale)
  | .writing =>
    resume f call (fun _ => .done (.ok ())) <|
      GraphBackend.upsertEdgesBatch f.backend failure call.batch
  | .done _ => none

end EdgeCall

end Steps

/-! ### Whose node an id names -/

open FederatedIndex

def Valid (repos : SortedMap RepoId Nat) : Prop :=
  ∀ id ∈ repos.keys, repoIdNew id = some id

theorem contains_of_inRepo {id : RepoId} {gid : String} (own : InRepo id gid) :
    Text.contains gid ':' = true := by
  obtain ⟨rest, spelled⟩ := List.isPrefixOf_iff_prefix.mp own
  rw [Text.contains, ← spelled, repoPrefix, String.toList_append]
  simp

theorem eq_of_inRepo {a b : RepoId} {gid : String} (validA : repoIdNew a = some a)
    (validB : repoIdNew b = some b) (ownA : InRepo a gid) (ownB : InRepo b gid) : a = b := by
  have colon := contains_of_inRepo ownA
  have first := (GlobalId.startsWith_iff colon (repoIdNew_eq_some validA).2).mp ownA
  have second := (GlobalId.startsWith_iff colon (repoIdNew_eq_some validB).2).mp ownB
  exact first.symm.trans second

def OfRegistered (repos : SortedMap RepoId Nat) (gid : String) : Prop :=
  ∃ id ∈ repos.keys, InRepo id gid

theorem ofRegistered_of_parse {repos : SortedMap RepoId Nat} (valid : Valid repos) {text : String}
    {target : GlobalId} (parsed : GlobalId.parse text = some target)
    (registered : target.repoId ∈ repos.keys) : OfRegistered repos target :=
  ⟨target.repoId, registered,
    (GlobalId.startsWith_iff (GlobalId.contains_of_parse parsed)
      (repoIdNew_eq_some (valid _ registered)).2).mpr rfl⟩

theorem ofRegistered_otherNodes {f : FederatedIndex} {id : RepoId} {n : GraphNode}
    (member : n ∈ f.otherNodes id) : OfRegistered f.repos n.id := by
  obtain ⟨entry, registered, peer⟩ := List.mem_flatMap.mp member
  obtain ⟨m, -, rfl⟩ := List.mem_map.mp peer
  exact ⟨entry.1, List.mem_map_of_mem (List.mem_filter.mp registered).1, inRepo_globalIdStr _ m⟩

theorem nodeById_spec {candidates : List GraphNode} {id : String} {n : GraphNode}
    (found : nodeById candidates id = some n) : n ∈ candidates ∧ n.id = id := by
  have member := List.mem_filter.mp (List.mem_of_getLast? found)
  exact ⟨member.1, of_decide_eq_true member.2⟩

section System

variable {rules : TextRules} {orders : HashOrders} {sim : Nat → Nat → Nat → ℚ}

theorem mem_peerMatches {nodes others : List GraphNode} {entry : GraphNode × CrossRepoMatch ℚ}
    (member : entry ∈ peerMatches rules orders sim nodes others) :
    ∃ n ∈ others, n.id = entry.2.id ∧ (GlobalId.parse n.id).isSome = true := by
  obtain ⟨n, -, found⟩ := List.mem_flatMap.mp member
  obtain ⟨found, matched, rfl⟩ := List.mem_map.mp found
  rw [findMatches_eq_findCrossRepoMatches] at matched
  unfold findCrossRepoMatches at matched
  split at matched
  · cases matched
  · split at matched
    · cases matched
    · have scored := (perm_sortByKey _ _).mem_iff.mp (List.mem_of_mem_take matched)
      obtain ⟨candidate, kept, score⟩ := List.mem_filterMap.mp scored
      refine ⟨candidate, (List.mem_filter.mp kept).1, ?_⟩
      unfold scoreCandidate at score
      split at score
      · cases score
      next repo known =>
          have parsed : (GlobalId.parse candidate.id).isSome = true := by
            obtain ⟨gid, parsed, -⟩ := Option.map_eq_some_iff.mp known
            rw [parsed]
            rfl
          split at score
          · cases score
          · split at score
            · cases score
            · dsimp only at score
              split at score
              · cases score
              · split at score
                · cases score
                  exact ⟨rfl, parsed⟩
                · cases score

end System

end Lain.Federation
