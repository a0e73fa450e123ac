import Lain.Federation.MintedEdges
import Lain.Federation.Projection
import Lain.Foundation.Runs

/-!
# Reconciling the edges of a repository

A call that projects edges and is not disturbed reads the repository, drains the edges that
wait for other repositories, and then retracts the stored edges it answers for and does not
reproduce before it writes its batch.
-/

namespace Lain.Federation

open Foundation Contracts Lain.Graph FederatedIndex

/-! ### What a call reads -/

section Inputs

variable (f : FederatedIndex) (id : RepoId) (handle : Nat)

def globalsOf : SortedMap String String :=
  localToGlobal id (nodesOf (f.db handle))

def intraEdges : List GraphEdge :=
  (f.db handle).edges.filterMap (projectEdge (globalsOf f id handle))

def hasTarget (edge : GraphEdge) : Bool :=
  f.backend.hasNode edge.targetId ||
    (!f.backend.readOnly && ((GlobalId.parse edge.targetId).map fun target =>
      decide (GlobalId.repoId target ∈ f.repos.keys)).getD false)

/-- The drained edges that are written, of some of them. -/
def carried (drained : List GraphEdge) : List GraphEdge :=
  drained.filterMap fun edge =>
    if hasTarget f edge then carryEdge (globalsOf f id handle) edge else none

def pendingOf : List GraphEdge :=
  (f.db handle).pendingExternalEdges

end Inputs

/-! ### What the calls of the backend leave -/

section Backend

variable {db : GraphDatabase} (failure : Option LainError)

structure SameEdges (db db' : GraphDatabase) : Prop where
  consistent : Consistent db'
  edges : db'.edges = db.edges
  mode : db'.readOnly = db.readOnly

theorem SameEdges.refl (consistent : Consistent db) : SameEdges db db :=
  ⟨consistent, rfl, rfl⟩

theorem GraphBackend.upsertNodesBatch_sameEdges (consistent : Consistent db)
    (nodes : List GraphNode) :
    (GraphBackend.upsertNodesBatch db failure nodes).All (SameEdges db) := by
  unfold GraphBackend.upsertNodesBatch
  split
  · exact SameEdges.refl consistent
  · split
    · exact SameEdges.refl consistent
    · have refines := consistent.insertNodesBatch nodes
      unfold GraphDatabase.insertNodesBatch at refines ⊢
      by_cases readOnly : db.readOnly = true
      · rw [if_pos readOnly]
        exact SameEdges.refl consistent
      · rw [if_neg readOnly] at refines ⊢
        cases put : nodes.foldlM GraphDatabase.putNode db with
        | none =>
          simp only [Refines, put] at refines
          exact refines.elim
        | some after =>
          simp only [Refines, put] at refines
          have same : SameEdges db after :=
            ⟨refines.1.consistent, edges_putNodes put, refines.2⟩
          exact save_all failure same ()

theorem GraphBackend.upsertNodeGlobal_spec (consistent : Consistent db) {text : String}
    {target : GlobalId} (parsed : GlobalId.parse text = some target) (kind : NodeType)
    (path name : String) :
    (GraphBackend.upsertNodeGlobal db failure target kind path name).All fun after =>
      SameEdges db after ∧ ∀ gid, after.hasNode gid = true ↔
        db.hasNode gid = true ∨ db.readOnly = false ∧ gid = target := by
  obtain rfl := GlobalId.parse_eq_some parsed
  unfold GraphBackend.upsertNodeGlobal
  rw [parsed]
  dsimp only
  have refines := consistent.upsertNode { id := target, nodeType := kind, name, path }
  unfold GraphDatabase.upsertNode at refines ⊢
  by_cases readOnly : db.readOnly = true
  · rw [if_pos readOnly]
    exact ⟨.refl consistent, fun gid => by simp [readOnly]⟩
  · rw [if_neg readOnly] at refines ⊢
    cases put : db.putNode { id := target, nodeType := kind, name, path } with
    | none =>
      simp only [Refines, put] at refines
      exact refines.elim
    | some after =>
      simp only [Refines, put] at refines
      obtain ⟨steps, mode⟩ := refines
      have same : SameEdges db after := ⟨steps.consistent, edges_putNode put, mode⟩
      refine save_all (P := fun after => SameEdges db after ∧ ∀ gid, after.hasNode gid = true ↔
        db.hasNode gid = true ∨ db.readOnly = false ∧ gid = target) failure
        ⟨same, fun gid => ?_⟩ ()
      have viewed := congrFun (congrArg View.nodes steps.view) gid
      change after.getNode gid = if gid = target then _ else db.getNode gid at viewed
      rw [steps.consistent.hasNode_eq, consistent.hasNode_eq, viewed]
      split
      next same => simp [same, readOnly]
      next other => simp [other]

theorem stateAfter_all {α : Type} {P : GraphDatabase → Prop} {outcome : Outcome α}
    (holds : outcome.All P) : P (stateAfter outcome) := by
  cases outcome with
  | ok db value => exact holds
  | error db reason => exact holds
  | panicked => exact holds.elim

end Backend

/-! ### A call that is not disturbed -/

section Alone

variable (rules : TextRules) (orders : HashOrders) (sim : Nat → Nat → Nat → ℚ)

/-- A step of a call when nothing else happens. -/
def EdgeCall.alone (s : FederatedIndex × EdgeCall) (failure : Option LainError) :
    Option (FederatedIndex × EdgeCall) :=
  s.2.step rules orders sim s.1 failure

/-- A registered repository on a consistent backend. -/
structure Input (f₀ : FederatedIndex) (id : RepoId) (handle : Nat) : Prop where
  consistent : Consistent f₀.backend
  registered : f₀.repos.get? id = some handle
  named : repoIdNew id = some id

variable (f₀ : FederatedIndex) (id : RepoId) (handle : Nat)

structure Placing (f : FederatedIndex) (call : EdgeCall) (external todo : List GraphEdge) :
    Prop where
  whole : external = pendingOf f₀ handle
  drained : pendingOf f handle = []
  globals : call.globals = globalsOf f₀ id handle
  batch : call.batch = intraEdges f₀ id handle
  edges : f.backend.edges = f₀.backend.edges
  placed : ∃ done, external = done ++ todo ∧ ∀ gid, f.backend.hasNode gid = true ↔
    f₀.backend.hasNode gid = true ∨ ∃ edge ∈ done, edge.targetId = gid ∧ hasTarget f₀ edge = true

structure Carrying (f : FederatedIndex) (call : EdgeCall) (todo : List GraphEdge) : Prop where
  drained : pendingOf f handle = []
  globals : call.globals = globalsOf f₀ id handle
  edges : f.backend.edges = f₀.backend.edges
  present : ∀ edge ∈ pendingOf f₀ handle, f.backend.hasNode edge.targetId = hasTarget f₀ edge
  batch : ∃ done, pendingOf f₀ handle = done ++ todo ∧
    call.batch = intraEdges f₀ id handle ++ carried f₀ id handle done

def Peer (gid : String) : Prop :=
  OfRegistered f₀.repos gid ∧ (GlobalId.parse gid).isSome = true

def Batched (call : EdgeCall) : Prop :=
  ∃ peers, call.batch =
      intraEdges f₀ id handle ++ carried f₀ id handle (pendingOf f₀ handle) ++ peers ∧
    ∀ e ∈ peers, e.edgeType = .crossRepoSameSymbol ∧ InRepo id e.sourceId ∧ Peer f₀ e.targetId

def Stage (f : FederatedIndex) (call : EdgeCall) : Prop :=
  match call.phase with
  | .projecting nodes => f = f₀ ∧ nodes = nodesOf (f₀.db handle)
  | .draining => f = f₀ ∧ call.globals = globalsOf f₀ id handle ∧
      call.batch = intraEdges f₀ id handle
  | .placing external todo => Placing f₀ id handle f call external todo
  | .registered external todo target | .missing external todo target =>
    ∃ edge, GlobalId.parse edge.targetId = some target ∧ target.repoId ∈ f₀.repos.keys ∧
      Placing f₀ id handle f call external (edge :: todo)
  | .carrying todo => Carrying f₀ id handle f call todo
  | .gathering => pendingOf f handle = [] ∧ f.backend.edges = f₀.backend.edges ∧
      call.batch = intraEdges f₀ id handle ++ carried f₀ id handle (pendingOf f₀ handle)
  | .matching _ todo _ => pendingOf f handle = [] ∧ f.backend.edges = f₀.backend.edges ∧
      Batched f₀ id handle call ∧ ∀ entry ∈ todo, InRepo id entry.1.id ∧ Peer f₀ entry.2.id
  | .reconciling => pendingOf f handle = [] ∧ f.backend.edges = f₀.backend.edges ∧
      Batched f₀ id handle call
  | .retracting stale => pendingOf f handle = [] ∧ f.backend.edges = f₀.backend.edges ∧
      Batched f₀ id handle call ∧ stale = staleEdges id call.batch f₀.backend.edges
  | .writing => pendingOf f handle = [] ∧ Batched f₀ id handle call ∧
      f.backend.edges =
        withoutTriples (staleEdges id call.batch f₀.backend.edges) f₀.backend.edges
  | .done (.ok ()) => pendingOf f handle = [] ∧ Batched f₀ id handle call ∧
      ∃ kept, kept = withoutTriples (staleEdges id call.batch f₀.backend.edges) f₀.backend.edges ∧
        f.backend.edges = kept ++ freshEdges (kept.map edgeIdentityKey) call.batch
  | .done (.error _) => True

structure Alone (s : FederatedIndex × EdgeCall) : Prop where
  sameRepo : s.2.repo = id
  sameHandle : s.2.handle = handle
  consistent : Consistent s.1.backend
  mode : s.1.backend.readOnly = f₀.backend.readOnly
  repos : s.1.repos = f₀.repos
  nodes : ∀ n ∈ s.2.nodes, InRepo id n.id
  stage : Stage f₀ id handle s.1 s.2

variable {f₀ id handle rules orders sim}

theorem Input.projectGraph (input : Input f₀ id handle) :
    f₀.projectGraph id = .ok ((nodesOf (f₀.db handle)).map fun n =>
      { n with id := globalIdStr id n, repoId := some id }, intraEdges f₀ id handle) := by
  unfold FederatedIndex.projectGraph projectGraphShared
  rw [input.registered]
  dsimp only
  rw [input.named]
  rfl

theorem Input.start (input : Input f₀ id handle) :
    Alone f₀ id handle (f₀, EdgeCall.start f₀ id) := by
  unfold EdgeCall.start
  rw [input.registered]
  exact ⟨rfl, rfl, input.consistent, rfl, rfl, fun n listed => (by cases listed), rfl, rfl⟩

theorem hasTarget_congr {edge edge' : GraphEdge} (same : edge.targetId = edge'.targetId) :
    hasTarget f₀ edge = hasTarget f₀ edge' := by
  unfold hasTarget
  rw [same]

theorem Placing.skip {f : FederatedIndex} {call call' : EdgeCall} {external todo : List GraphEdge}
    {edge : GraphEdge} (placing : Placing f₀ id handle f call external (edge :: todo))
    (globals : call'.globals = call.globals) (batch : call'.batch = call.batch)
    (here : hasTarget f₀ edge = true → f.backend.hasNode edge.targetId = true) :
    Placing f₀ id handle f call' external todo where
  whole := placing.whole
  drained := placing.drained
  globals := globals.trans placing.globals
  batch := batch.trans placing.batch
  edges := placing.edges
  placed := by
    obtain ⟨done, whole, present⟩ := placing.placed
    refine ⟨done ++ [edge], by rw [whole, List.append_assoc]; rfl, fun gid => ?_⟩
    rw [present]
    constructor
    · rintro (before | ⟨e, member, same, reached⟩)
      · exact Or.inl before
      · exact Or.inr ⟨e, List.mem_append_left _ member, same, reached⟩
    · rintro (before | ⟨e, member, rfl, reached⟩)
      · exact Or.inl before
      · rcases List.mem_append.mp member with old | new
        · exact Or.inr ⟨e, old, rfl, reached⟩
        · obtain rfl := List.mem_singleton.mp new
          exact (present _).mp (here reached)

theorem Alone.quiet {f : FederatedIndex} {call call' : EdgeCall}
    (alone : Alone f₀ id handle (f, call)) (repo : call'.repo = call.repo)
    (sameHandle : call'.handle = call.handle) (nodes : call'.nodes = call.nodes)
    (stage : Stage f₀ id handle f call') : Alone f₀ id handle (f, call') :=
  ⟨repo.trans alone.sameRepo, sameHandle.trans alone.sameHandle, alone.consistent, alone.mode,
    alone.repos, fun n listed => alone.nodes n (nodes ▸ listed), stage⟩

theorem Alone.resume {α : Type} {f : FederatedIndex} {call : EdgeCall}
    {s' : FederatedIndex × EdgeCall} {next : α → Phase} {outcome : Outcome α}
    {P : GraphDatabase → Prop} (alone : Alone f₀ id handle (f, call)) (left : outcome.All P)
    (sound : ∀ backend, P backend → Consistent backend ∧ backend.readOnly = f.backend.readOnly)
    (stage : ∀ backend value, P backend →
      Stage f₀ id handle { f with backend } { call with phase := next value })
    (moved : EdgeCall.resume f call next outcome = some s') : Alone f₀ id handle s' := by
  cases outcome with
  | ok backend value =>
    cases moved
    exact ⟨alone.sameRepo, alone.sameHandle, (sound _ left).1, (sound _ left).2.trans alone.mode,
      alone.repos, alone.nodes, stage _ value left⟩
  | error backend reason =>
    cases moved
    exact ⟨alone.sameRepo, alone.sameHandle, (sound _ left).1, (sound _ left).2.trans alone.mode,
      alone.repos, alone.nodes, trivial⟩
  | panicked => cases moved

theorem pendingOf_drained (f : FederatedIndex) (handle : Nat) :
    pendingOf { f with
      indexes := f.indexes.set handle (f.db handle).takePendingExternalEdges.2 } handle = [] := by
  unfold pendingOf FederatedIndex.db
  rw [List.getElem?_set]
  by_cases bound : handle < f.indexes.length
  · simp [bound, GraphDatabase.takePendingExternalEdges]
  · simp [bound]

theorem hasTarget_of_registered {edge : GraphEdge}
    {target : GlobalId} (parsed : GlobalId.parse edge.targetId = some target)
    (registered : GlobalId.repoId target ∈ f₀.repos.keys) :
    hasTarget f₀ edge = true ↔
      f₀.backend.hasNode edge.targetId = true ∨ f₀.backend.readOnly = false := by
  simp [hasTarget, parsed, registered]

theorem Placing.place {f : FederatedIndex} {call call' : EdgeCall} {external todo : List GraphEdge}
    {edge : GraphEdge} {backend : GraphDatabase}
    (placing : Placing f₀ id handle f call external (edge :: todo))
    (mode : f.backend.readOnly = f₀.backend.readOnly)
    (parsed : GlobalId.parse edge.targetId = some edge.targetId)
    (registered : GlobalId.repoId edge.targetId ∈ f₀.repos.keys)
    (globals : call'.globals = call.globals) (batch : call'.batch = call.batch)
    (edges : backend.edges = f.backend.edges)
    (written : ∀ gid, backend.hasNode gid = true ↔
      f.backend.hasNode gid = true ∨ f.backend.readOnly = false ∧ gid = edge.targetId) :
    Placing f₀ id handle { f with backend } call' external todo where
  whole := placing.whole
  drained := placing.drained
  globals := globals.trans placing.globals
  batch := batch.trans placing.batch
  edges := edges.trans placing.edges
  placed := by
    obtain ⟨done, whole, present⟩ := placing.placed
    refine ⟨done ++ [edge], by rw [whole, List.append_assoc]; rfl, fun gid => ?_⟩
    have reached := hasTarget_of_registered parsed registered
    rw [written, present, mode]
    constructor
    · rintro ((before | ⟨e, member, same, target⟩) | ⟨writable, rfl⟩)
      · exact Or.inl before
      · exact Or.inr ⟨e, List.mem_append_left _ member, same, target⟩
      · exact Or.inr ⟨edge, List.mem_append_right _ (List.mem_singleton_self _), rfl,
          reached.mpr (Or.inr writable)⟩
    · rintro (before | ⟨e, member, rfl, target⟩)
      · exact Or.inl (Or.inl before)
      · rcases List.mem_append.mp member with old | new
        · exact Or.inl (Or.inr ⟨e, old, rfl, target⟩)
        · obtain rfl := List.mem_singleton.mp new
          rcases reached.mp target with before | writable
          · exact Or.inl (Or.inl before)
          · exact Or.inr ⟨writable, rfl⟩

theorem Carrying.next {f : FederatedIndex} {call call' : EdgeCall} {todo : List GraphEdge}
    {edge : GraphEdge} (carrying : Carrying f₀ id handle f call (edge :: todo))
    (globals : call'.globals = call.globals)
    (batch : call'.batch = call.batch ++ carried f₀ id handle [edge]) :
    Carrying f₀ id handle f call' todo where
  drained := carrying.drained
  globals := globals.trans carrying.globals
  edges := carrying.edges
  present := carrying.present
  batch := by
    obtain ⟨done, whole, written⟩ := carrying.batch
    refine ⟨done ++ [edge], by rw [whole, List.append_assoc]; rfl, ?_⟩
    rw [batch, written, List.append_assoc]
    congr 1
    exact (List.filterMap_append).symm

theorem withoutTriples_nil (stored : List GraphEdge) : withoutTriples [] stored = stored :=
  List.filter_eq_self.mpr fun _ _ => rfl

/-- **One step of an undisturbed call.** -/
theorem Alone.step (input : Input f₀ id handle) {s s' : FederatedIndex × EdgeCall}
    {failure : Option LainError} (alone : Alone f₀ id handle s)
    (moved : EdgeCall.alone rules orders sim s failure = some s') : Alone f₀ id handle s' := by
  obtain ⟨f, repo, handle', globals, nodes, batch, phase⟩ := s
  obtain rfl : repo = id := alone.sameRepo
  obtain rfl : handle' = handle := alone.sameHandle
  have stage := alone.stage
  unfold EdgeCall.alone EdgeCall.step at moved
  cases phase with
  | projecting locals =>
    obtain ⟨rfl, rfl⟩ : f = f₀ ∧ locals = nodesOf (f₀.db handle') := stage
    simp only [input.projectGraph] at moved
    cases moved
    refine ⟨rfl, rfl, input.consistent, rfl, rfl, fun n listed => ?_, rfl, rfl, rfl⟩
    obtain ⟨m, -, rfl⟩ := List.mem_map.mp listed
    exact inRepo_globalIdStr repo m
  | draining =>
    obtain ⟨rfl, same, intra⟩ : f = f₀ ∧ globals = globalsOf f₀ repo handle' ∧
      batch = intraEdges f₀ repo handle' := stage
    cases moved
    refine ⟨rfl, rfl, input.consistent, rfl, rfl, alone.nodes, rfl, pendingOf_drained f handle',
      same, intra, rfl, [], rfl, fun gid => ?_⟩
    simp
  | placing external todo =>
    have placing : Placing f₀ repo handle' f _ external todo := stage
    cases todo with
    | nil =>
      cases moved
      obtain ⟨done, whole, present⟩ := placing.placed
      rw [List.append_nil] at whole
      refine alone.quiet rfl rfl rfl ⟨placing.drained, placing.globals, placing.edges,
        fun edge member => ?_, [], placing.whole.symm, ?_⟩
      · rw [Bool.eq_iff_iff, present]
        constructor
        · rintro (before | ⟨e, -, same, reached⟩)
          · simp [hasTarget, before]
          · rwa [← hasTarget_congr same]
        · intro reached
          rw [← placing.whole, whole] at member
          exact Or.inr ⟨edge, member, rfl, reached⟩
      · rw [placing.batch]
        exact (List.append_nil _).symm
    | cons edge todo =>
      dsimp only at moved
      split at moved
      next unparsed =>
          cases moved
          refine alone.quiet rfl rfl rfl (placing.skip rfl rfl fun reached => ?_)
          obtain ⟨done, -, present⟩ := placing.placed
          refine (present _).mpr (Or.inl ?_)
          simpa [hasTarget, unparsed] using reached
      next target parsed =>
          split at moved
          next registered =>
              cases moved
              rw [alone.repos] at registered
              exact alone.quiet rfl rfl rfl ⟨edge, parsed, registered,
                placing.whole, placing.drained, placing.globals, placing.batch, placing.edges,
                placing.placed⟩
          next unregistered =>
              cases moved
              rw [alone.repos] at unregistered
              refine alone.quiet rfl rfl rfl (placing.skip rfl rfl fun reached => ?_)
              obtain ⟨done, -, present⟩ := placing.placed
              refine (present _).mpr (Or.inl ?_)
              simpa [hasTarget, parsed, unregistered] using reached
  | registered external todo target =>
    obtain ⟨edge, parsed, registered, placing⟩ := stage
    obtain rfl := GlobalId.parse_eq_some parsed
    dsimp only at moved
    split at moved
    next here =>
        cases moved
        exact alone.quiet rfl rfl rfl (placing.skip rfl rfl fun _ => here)
    · cases moved
      exact alone.quiet rfl rfl rfl ⟨edge, parsed, registered, placing.whole, placing.drained,
        placing.globals, placing.batch, placing.edges, placing.placed⟩
  | missing external todo target =>
    obtain ⟨edge, parsed, registered, placing⟩ := stage
    obtain rfl := GlobalId.parse_eq_some parsed
    obtain ⟨kindPart, pathPart, namePart⟩ := GlobalId.parts_of_parse parsed
    obtain ⟨kind, kindEq⟩ := Option.isSome_iff_exists.mp kindPart
    obtain ⟨path, pathEq⟩ := Option.isSome_iff_exists.mp pathPart
    obtain ⟨name, nameEq⟩ := Option.isSome_iff_exists.mp namePart
    simp only [kindEq, pathEq, nameEq] at moved
    have spec := GraphBackend.upsertNodeGlobal_spec failure alone.consistent parsed
      (parseNodeType kind) path name
    split at moved
    · cases moved
    · cases moved
      obtain ⟨same, written⟩ := stateAfter_all spec
      exact ⟨rfl, rfl, same.consistent, same.mode.trans alone.mode, alone.repos, alone.nodes,
        placing.place alone.mode parsed registered rfl rfl same.edges written⟩
  | carrying todo =>
    have carrying : Carrying f₀ repo handle' f _ todo := stage
    cases todo with
    | nil =>
      cases moved
      obtain ⟨done, whole, written⟩ := carrying.batch
      rw [List.append_nil] at whole
      exact alone.quiet rfl rfl rfl ⟨carrying.drained, carrying.edges, whole ▸ written⟩
    | cons edge todo =>
      have present : f.backend.hasNode edge.targetId = hasTarget f₀ edge := by
        obtain ⟨done, whole, -⟩ := carrying.batch
        exact carrying.present edge (whole ▸ List.mem_append_right _ List.mem_cons_self)
      obtain rfl : globals = globalsOf f₀ repo handle' := carrying.globals
      dsimp only at moved
      rw [present] at moved
      have added : carried f₀ repo handle' [edge] =
          (if hasTarget f₀ edge then carryEdge (globalsOf f₀ repo handle') edge
            else none).toList := by
        unfold carried
        rw [List.filterMap_cons]
        split <;> simp_all
      cases reached : hasTarget f₀ edge with
      | false =>
        rw [reached] at moved added
        cases moved
        exact alone.quiet rfl rfl rfl (carrying.next rfl (by rw [added]; simp))
      | true =>
        rw [reached] at moved added
        cases source : carryEdge (globalsOf f₀ repo handle') edge with
        | none =>
          rw [source] at moved added
          cases moved
          exact alone.quiet rfl rfl rfl (carrying.next rfl (by rw [added]; simp))
        | some e =>
          rw [source] at moved added
          cases moved
          exact alone.quiet rfl rfl rfl (carrying.next rfl (by rw [added]; simp))
  | gathering =>
    obtain ⟨drained, edges, batched⟩ := stage
    cases moved
    refine alone.quiet rfl rfl rfl ⟨drained, edges, ⟨[], ?_, fun e none => by cases none⟩,
      fun entry matched => ?_⟩
    · exact (List.append_nil _).symm ▸ batched
    · obtain ⟨peer, offered, named, parsed⟩ := mem_peerMatches matched
      obtain ⟨n, listed, found⟩ := List.mem_flatMap.mp matched
      obtain ⟨found, -, rfl⟩ := List.mem_map.mp found
      have registered := ofRegistered_otherNodes offered
      rw [alone.repos, named] at registered
      exact ⟨alone.nodes n listed, registered, named ▸ parsed⟩
  | matching others todo targets =>
    obtain ⟨drained, edges, ⟨peers, written, own⟩, listed⟩ := stage
    cases todo with
    | nil =>
      refine alone.resume
        (GraphBackend.upsertNodesBatch_sameEdges failure alone.consistent _)
        (fun backend same => ⟨same.consistent, same.mode⟩) (fun backend _ same => ?_) moved
      exact ⟨drained, same.edges.trans edges, peers, written, own⟩
    | cons entry todo =>
      cases moved
      refine alone.quiet rfl rfl rfl ⟨drained, edges, ⟨peers ++ [peerEdge entry.1 entry.2], ?_,
        fun e member => ?_⟩, fun entry member => listed entry (List.mem_cons_of_mem _ member)⟩
      · rw [← List.append_assoc, ← written]
      · rcases List.mem_append.mp member with old | new
        · exact own e old
        · obtain rfl := List.mem_singleton.mp new
          exact ⟨rfl, listed entry List.mem_cons_self⟩
  | reconciling =>
    obtain ⟨drained, edges, batched⟩ := stage
    cases moved
    exact alone.quiet rfl rfl rfl ⟨drained, edges, batched, by rw [edges]⟩
  | retracting stale =>
    obtain ⟨drained, edges, batched, named⟩ := stage
    obtain rfl : stale = staleEdges repo batch f₀.backend.edges := named
    dsimp only at moved
    split at moved
    next empty =>
        cases moved
        refine alone.quiet rfl rfl rfl ⟨drained, batched, ?_⟩
        change f.backend.edges = withoutTriples (staleEdges repo batch f₀.backend.edges) _
        rw [List.isEmpty_iff.mp empty, withoutTriples_nil]
        exact edges
    · rcases GraphBackend.removeEdges_spec failure alone.consistent
        (staleEdges repo batch f₀.backend.edges) with
        ⟨reason, failed⟩ | ⟨backend, become, ⟨removed, done⟩ | ⟨reason, failed⟩⟩
      · rw [failed] at moved
        cases moved
        exact ⟨rfl, rfl, alone.consistent, alone.mode, alone.repos, alone.nodes, trivial⟩
      · rw [done] at moved
        cases moved
        exact ⟨rfl, rfl, become.consistent, become.mode.trans alone.mode, alone.repos,
          alone.nodes, drained, batched, edges ▸ become.edges⟩
      · rw [failed] at moved
        cases moved
        exact ⟨rfl, rfl, become.consistent, become.mode.trans alone.mode, alone.repos,
          alone.nodes, trivial⟩
  | writing =>
    obtain ⟨drained, batched, edges⟩ := stage
    dsimp only at moved
    rcases GraphBackend.upsertEdgesBatch_spec failure alone.consistent batch with
      ⟨reason, failed⟩ | ⟨backend, become, done | ⟨reason, failed⟩⟩
    · rw [failed] at moved
      cases moved
      exact ⟨rfl, rfl, alone.consistent, alone.mode, alone.repos, alone.nodes, trivial⟩
    · rw [done] at moved
      cases moved
      refine ⟨rfl, rfl, become.consistent, become.mode.trans alone.mode, alone.repos,
        alone.nodes, drained, batched, f.backend.edges, edges, ?_⟩
      exact become.edges
    · rw [failed] at moved
      cases moved
      exact ⟨rfl, rfl, become.consistent, become.mode.trans alone.mode, alone.repos,
        alone.nodes, trivial⟩
  | done result => cases moved

theorem Alone.of_runs (input : Input f₀ id handle) {failures : List (Option LainError)}
    {s : FederatedIndex × EdgeCall}
    (run : Runs (EdgeCall.alone rules orders sim) (fun _ _ => True) (f₀, EdgeCall.start f₀ id)
      failures s) : Alone f₀ id handle s :=
  run.invariant (I := fun _ s => Alone f₀ id handle s) input.start fun alone _ moved =>
    alone.step input moved

/-! ### What a reconciliation leaves -/

theorem inRepo_of_globalsOf {k g : String} (found : (globalsOf f₀ id handle).get? k = some g) :
    InRepo id g := by
  unfold globalsOf localToGlobal at found
  have general : ∀ (nodes : List GraphNode) (ids : SortedMap String String),
      (∀ k g, ids.get? k = some g → InRepo id g) → ∀ k g,
        (nodes.foldl (fun ids n => ids.insert n.id (globalIdStr id n)) ids).get? k = some g →
          InRepo id g := by
    intro nodes
    induction nodes with
    | nil => exact fun _ own => own
    | cons n rest ih =>
      intro ids own
      refine ih _ fun k g here => ?_
      rw [SortedMap.get?_insert] at here
      split at here
      · cases here
        exact inRepo_globalIdStr id n
      · exact own k g here
  exact general _ ∅ (fun k g none => by cases none) k g found

theorem inRepo_of_intraEdges {e : GraphEdge} (member : e ∈ intraEdges f₀ id handle) :
    InRepo id e.sourceId := by
  obtain ⟨edge, -, projected⟩ := List.mem_filterMap.mp member
  unfold projectEdge at projected
  split at projected
  · cases projected
  next source found =>
      split at projected
      · cases projected
        exact inRepo_of_globalsOf found
      · obtain ⟨target, -, rfl⟩ := Option.map_eq_some_iff.mp projected
        exact inRepo_of_globalsOf found

theorem inRepo_of_carried {drained : List GraphEdge} {e : GraphEdge}
    (member : e ∈ carried f₀ id handle drained) : InRepo id e.sourceId := by
  obtain ⟨edge, -, taken⟩ := List.mem_filterMap.mp member
  split at taken
  · obtain ⟨source, found, rfl⟩ := Option.map_eq_some_iff.mp taken
    exact inRepo_of_globalsOf found
  · cases taken

theorem Batched.inRepo {call : EdgeCall} (batched : Batched f₀ id handle call) :
    ∀ e ∈ call.batch, InRepo id e.sourceId := by
  obtain ⟨peers, written, own⟩ := batched
  intro e member
  rw [written, List.mem_append, List.mem_append] at member
  rcases member with (intra | carried) | peer
  · exact inRepo_of_intraEdges intra
  · exact inRepo_of_carried carried
  · exact (own e peer).2.1

def ForeignCall (id : RepoId) (e : GraphEdge) : Prop :=
  e.edgeType = .calls ∧ ¬ InRepo id e.targetId

theorem ownEdge_cases {e : GraphEdge} (leaves : InRepo id e.sourceId) :
    ownEdge id e = true ∨ ForeignCall id e ∨ e.edgeType = .binds ∨ isMintedEdge e = true := by
  by_cases binds : e.edgeType = .binds
  · exact Or.inr (Or.inr (Or.inl binds))
  by_cases minted : isMintedEdge e = true
  · exact Or.inr (Or.inr (Or.inr minted))
  by_cases foreign : ForeignCall id e
  · exact Or.inr (Or.inl foreign)
  have source : Text.startsWith e.sourceId (repoPrefix id) = true := leaves
  have home : e.edgeType = .calls → Text.startsWith e.targetId (repoPrefix id) = true :=
    fun calls => by_contra fun away => foreign ⟨calls, away⟩
  left
  by_cases calls : e.edgeType = .calls
  · simp [ownEdge, source, binds, minted, home calls]
  · simp [ownEdge, source, binds, minted, calls]

/-- What reconciling a batch makes of the stored edges. -/
structure EdgesReconciled (id : RepoId) (batch before after : List GraphEdge) : Prop where
  /-- An edge the projection answers for has an identity of the batch. -/
  sound : ∀ e ∈ after, ownEdge id e = true → edgeIdentityKey e ∈ batch.map edgeIdentityKey
  /-- Every identity of the batch is stored, by an edge the projection answers for unless by
  a call into another repository, a binding or an edge of the anchor miner. -/
  complete : ∀ b ∈ batch, ∃ e ∈ after, edgeIdentityKey e = edgeIdentityKey b ∧
    (ownEdge id e = true ∨ ForeignCall id e ∨ e.edgeType = .binds ∨ isMintedEdge e = true)
  /-- The other edges stay, but for those that share source, target and type with a retracted
  one, and the batch adds its own of their kinds. -/
  others : ∃ added,
    (∀ e ∈ added, e ∈ batch ∧
      (ForeignCall id e ∨ e.edgeType = .binds ∨ isMintedEdge e = true)) ∧
    (after.filter fun e => !ownEdge id e) =
      (withoutTriples (staleEdges id batch before) before).filter (fun e => !ownEdge id e) ++ added

/-- **Reconciliation.** Whatever the backend held, a call that succeeds leaves of the
edges it answers for those of its batch. -/
theorem edgesReconciled_of_runs (input : Input f₀ id handle) {failures : List (Option LainError)}
    {f : FederatedIndex} {call : EdgeCall}
    (run : Runs (EdgeCall.alone rules orders sim) (fun _ _ => True) (f₀, EdgeCall.start f₀ id)
      failures (f, call)) (done : call.phase = .done (.ok ())) :
    EdgesReconciled id call.batch f₀.backend.edges f.backend.edges := by
  have stage := (Alone.of_runs input run).stage
  unfold Stage at stage
  rw [done] at stage
  obtain ⟨-, batched, kept, rfl, edges⟩ := stage
  dsimp only at edges
  set stale := staleEdges id call.batch f₀.backend.edges with named
  set kept := withoutTriples stale f₀.backend.edges with survivors
  constructor
  · intro e member own
    rw [edges] at member
    rcases List.mem_append.mp member with old | new
    · -- A stored edge whose triple no stale edge has is not stale itself.
      obtain ⟨stored, spared⟩ := List.mem_filter.mp old
      by_contra unwritten
      have gone : e ∈ stale := List.mem_filter.mpr ⟨stored, by simp [own, unwritten]⟩
      simp [List.mem_map_of_mem gone] at spared
    · exact List.mem_map_of_mem (freshEdges_subset e new)
  · intro b member
    have stored : edgeIdentityKey b ∈ f.backend.edges.map edgeIdentityKey := by
      rw [edges, List.map_append, List.mem_append, mem_freshEdges_keys]
      by_cases old : edgeIdentityKey b ∈ kept.map edgeIdentityKey
      · exact Or.inl old
      · exact Or.inr ⟨List.mem_map_of_mem member, old⟩
    obtain ⟨e, here, same⟩ := List.mem_map.mp stored
    refine ⟨e, here, same, ownEdge_cases ?_⟩
    have source : e.sourceId = b.sourceId := congrArg EdgeKey.sourceId same
    exact source ▸ batched.inRepo b member
  · refine ⟨(freshEdges (kept.map edgeIdentityKey) call.batch).filter fun e => !ownEdge id e,
      fun e member => ?_, by rw [edges, List.filter_append]⟩
    obtain ⟨fresh, other⟩ := List.mem_filter.mp member
    have written := freshEdges_subset e fresh
    exact ⟨written, (ownEdge_cases (batched.inRepo e written)).resolve_left (by simpa using other)⟩

end Alone

/-! ### A minted edge in the way -/

private def userGraph : GraphDatabase :=
  { stateAfter (GraphDatabase.upsertNode {}
      { id := "f", nodeType := .function, name := "f", path := "a.rs", lineStart := some 1 }).outcome
    with
    pendingExternalEdges :=
      [{ edgeType := .uses, sourceId := "f", targetId := "S:Struct:b.rs:T:1" }] }

private def backendWith (edges : List GraphEdge) : GraphDatabase :=
  stateAfter <| andThen
    (GraphBackend.upsertNodesBatch {} none
      [{ id := "R:Function:a.rs:f:1", nodeType := .function, name := "f", path := "a.rs" },
        { id := "S:Struct:b.rs:T:1", nodeType := .struct, name := "T", path := "b.rs" }])
    fun db _ => GraphBackend.upsertEdgesBatch db none edges

private def federationWith (edges : List GraphEdge) : FederatedIndex :=
  FederatedIndex.addRepo { backend := backendWith edges } "R" userGraph

private def mintedUse : GraphEdge :=
  { edgeType := .uses, sourceId := "R:Function:a.rs:f:1", targetId := "S:Struct:b.rs:T:1",
    provenance := some (.heuristic "anchor:env:HOST" (1 / 2)) }

private def plainAlone : FederatedIndex × EdgeCall → Option LainError →
    Option (FederatedIndex × EdgeCall) :=
  EdgeCall.alone .ascii .byKey fun dot _ _ => dot

private theorem input_federationWith (edges : List GraphEdge) :
    Input (federationWith edges) "R" 0 where
  consistent := by
    change Consistent (stateAfter _)
    refine stateAfter_all (andThen_all
      (GraphBackend.upsertNodesBatch_sameEdges none consistent_empty _)
      (fun _ same => same.consistent) fun db _ same => ?_)
    have grows := GraphBackend.upsertEdgesBatch_growsBy none same.consistent edges
    revert grows
    cases GraphBackend.upsertEdgesBatch db none edges with
    | ok db value => exact And.left
    | error db reason => exact And.left
    | panicked => exact id
  registered := rfl
  named := by decide

/-- Run an undisturbed call to its end. -/
private def projectAlone (edges : List GraphEdge) : Option (FederatedIndex × EdgeCall) :=
  execute plainAlone (fun _ _ => True)
    (federationWith edges, EdgeCall.start (federationWith edges) "R") (List.replicate 11 none)

private def succeeded (call : EdgeCall) : Bool :=
  match call.phase with
  | .done (.ok ()) => true
  | _ => false

private theorem done_of_succeeded {call : EdgeCall} (ended : succeeded call = true) :
    call.phase = .done (.ok ()) := by
  unfold succeeded at ended
  split at ended
  next done => exact done
  · cases ended

/-- What a claim without exceptions would say of a batch. -/
structure ReconciledExactly (id : RepoId) (batch before after : List GraphEdge) : Prop where
  same : ∀ key, (∃ e ∈ after, ownEdge id e = true ∧ edgeIdentityKey e = key) ↔
    ∃ b ∈ batch, ¬ ForeignCall id b ∧ edgeIdentityKey b = key
  others : ∃ added, (∀ e ∈ added, e ∈ batch ∧ ForeignCall id e) ∧
    (after.filter fun e => !ownEdge id e) = (before.filter fun e => !ownEdge id e) ++ added

private theorem projectAlone_minted :
    (projectAlone [mintedUse]).any (fun s => succeeded s.2 &&
      (s.1.backend.edges.all fun e => !ownEdge "R" e) &&
        s.2.batch.any fun b => decide (b.edgeType ≠ .calls)) = true := by
  decide +kernel

/-- An edge of the anchor miner keeps an edge of the batch out. -/
theorem edgesReconciled_fails :
    ¬ ∀ (f₀ f : FederatedIndex) (id : RepoId) (handle : Nat)
        (failures : List (Option LainError)) (call : EdgeCall), Input f₀ id handle →
      (∀ n ∈ nodesOf (f₀.db handle), f₀.backend.hasNode (globalIdStr id n) = true) →
      Runs plainAlone (fun _ _ => True) (f₀, EdgeCall.start f₀ id) failures (f, call) →
      call.phase = .done (.ok ()) →
      ReconciledExactly id call.batch f₀.backend.edges f.backend.edges := by
  intro claim
  have left := projectAlone_minted
  rw [Option.any_eq_true] at left
  obtain ⟨⟨f, call⟩, ran, finds⟩ := left
  simp only [Bool.and_eq_true, List.all_eq_true, List.any_eq_true, decide_eq_true_eq] at finds
  obtain ⟨⟨ended, none⟩, b, written, type⟩ := finds
  have exactly := claim _ f "R" 0 _ call (input_federationWith _) (by decide +kernel)
    (runs_of_execute ran) (done_of_succeeded ended)
  obtain ⟨e, here, own, -⟩ := (exactly.same _).mpr ⟨b, written, fun foreign => type foreign.1, rfl⟩
  exact absurd own (by simpa using none e here)

private def staleImport : GraphEdge :=
  { edgeType := .imports, sourceId := "R:Function:a.rs:f:1", targetId := "S:Struct:b.rs:T:1" }

private theorem projectAlone_stale :
    (projectAlone [staleImport]).any (fun s => succeeded s.2) = true := by
  decide +kernel

theorem edgesReconciled_stale :
    ∃ f call, projectAlone [staleImport] = some (f, call) ∧
      EdgesReconciled "R" call.batch (federationWith [staleImport]).backend.edges
        f.backend.edges := by
  have left := projectAlone_stale
  rw [Option.any_eq_true] at left
  obtain ⟨⟨f, call⟩, ran, ended⟩ := left
  exact ⟨f, call, ran, edgesReconciled_of_runs (input_federationWith _) (runs_of_execute ran)
    (done_of_succeeded ended)⟩

/-! ### A call that fails -/

/-- How far a call got before it failed: nothing is drained; the pending edges are; the stale
edges are retracted, too; everything is written, and only the last save failed. -/
inductive Progress where
  | reading | drained | retracted | written
  deriving DecidableEq

def progressAt (f : FederatedIndex) (call : EdgeCall) : Progress :=
  match call.phase with
  | .projecting _ => .reading
  | .retracting _ => if f.backend.readOnly then .drained else .retracted
  | .writing =>
    match (f.backend.upsertEdgesBatchStrict call.batch).outcome with
    | .ok _ _ => .written
    | .error _ _ | .panicked => .retracted
  | _ => .drained

section Failures

variable (rules : TextRules) (orders : HashOrders) (sim : Nat → Nat → Nat → ℚ)
  (f₀ : FederatedIndex) (id : RepoId) (handle : Nat)

inductive Fails : Progress → FederatedIndex → Prop where
  | unregistered : f₀.repos.get? id = none → Fails .reading f₀
  | step {failures : List (Option LainError)} {failure : Option LainError}
      {f f' : FederatedIndex} {call call' : EdgeCall} {reason : LainError} :
      Runs (EdgeCall.alone rules orders sim) (fun _ _ => True) (f₀, EdgeCall.start f₀ id) failures
        (f, call) →
      EdgeCall.alone rules orders sim (f, call) failure = some (f', call') →
      call'.phase = .done (.error reason) → Fails (progressAt f call) f'

/-- A failed call loses nothing: every pending edge is in the backend or still pending, and no
stored edge is gone that the repository's graph has. -/
structure LosesNothing (f : FederatedIndex) : Prop where
  pending : ∀ edge ∈ pendingOf f₀ handle, edge ∈ pendingOf f handle ∨
    ∃ e, carryEdge (globalsOf f₀ id handle) edge = some e ∧
      edgeIdentityKey e ∈ f.backend.edges.map edgeIdentityKey
  justified : ∀ e ∈ f₀.backend.edges,
    edgeIdentityKey e ∈ (intraEdges f₀ id handle).map edgeIdentityKey →
      edgeIdentityKey e ∈ f.backend.edges.map edgeIdentityKey

def Clashes (triple : String × String × EdgeType) : Prop :=
  ∃ s ∈ f₀.backend.edges, ownEdge id s = true ∧ s.triple = triple ∧
    edgeIdentityKey s ∉ (intraEdges f₀ id handle ++
      carried f₀ id handle (pendingOf f₀ handle)).map edgeIdentityKey

def Spares : Progress → Prop
  | .reading => True
  | .drained => ∀ edge ∈ pendingOf f₀ handle,
      ∃ e, carryEdge (globalsOf f₀ id handle) edge = some e ∧
        edgeIdentityKey e ∈ f₀.backend.edges.map edgeIdentityKey
  | .retracted =>
    (∀ edge ∈ pendingOf f₀ handle, ∃ e, carryEdge (globalsOf f₀ id handle) edge = some e ∧
      edgeIdentityKey e ∈ f₀.backend.edges.map edgeIdentityKey ∧
      ¬ Clashes f₀ id handle e.triple) ∧
    ∀ e ∈ f₀.backend.edges,
      edgeIdentityKey e ∈ (intraEdges f₀ id handle).map edgeIdentityKey →
        ¬ Clashes f₀ id handle e.triple
  | .written => ∀ edge ∈ pendingOf f₀ handle,
      ∃ e, carryEdge (globalsOf f₀ id handle) edge = some e ∧
        (hasTarget f₀ edge = true ∨
          edgeIdentityKey e ∈ (intraEdges f₀ id handle).map edgeIdentityKey)

variable {rules orders sim f₀ id handle}

theorem triple_eq_of_key_eq {a b : GraphEdge} (same : edgeIdentityKey a = edgeIdentityKey b) :
    a.triple = b.triple :=
  congrArg EdgeKey.triple same

theorem key_eq_of_triple_eq {a b : GraphEdge} (plain : siteIsIdentity a.edgeType = false)
    (same : a.triple = b.triple) : edgeIdentityKey a = edgeIdentityKey b := by
  obtain ⟨source, target, type⟩ : a.sourceId = b.sourceId ∧ a.targetId = b.targetId ∧
      a.edgeType = b.edgeType := by simpa [GraphEdge.triple] using same
  simp [edgeIdentityKey, source, target, ← type, plain]

theorem mem_keys_withoutTriples {stale stored : List GraphEdge} {e : GraphEdge} :
    edgeIdentityKey e ∈ (withoutTriples stale stored).map edgeIdentityKey ↔
      edgeIdentityKey e ∈ stored.map edgeIdentityKey ∧ e.triple ∉ stale.map GraphEdge.triple := by
  constructor
  · intro member
    obtain ⟨s, kept, same⟩ := List.mem_map.mp member
    obtain ⟨here, spared⟩ := List.mem_filter.mp kept
    refine ⟨same ▸ List.mem_map_of_mem here, ?_⟩
    rw [← triple_eq_of_key_eq same]
    simpa using spared
  · rintro ⟨member, spared⟩
    obtain ⟨s, here, same⟩ := List.mem_map.mp member
    rw [← triple_eq_of_key_eq same] at spared
    rw [← same]
    exact List.mem_map_of_mem (List.mem_filter.mpr ⟨here, by simpa using spared⟩)

theorem Batched.clashes_iff {call : EdgeCall} (batched : Batched f₀ id handle call) {e : GraphEdge}
    (written : edgeIdentityKey e ∈ (intraEdges f₀ id handle ++
      carried f₀ id handle (pendingOf f₀ handle)).map edgeIdentityKey) :
    e.triple ∈ (staleEdges id call.batch f₀.backend.edges).map GraphEdge.triple ↔
      Clashes f₀ id handle e.triple := by
  obtain ⟨peers, whole, own⟩ := batched
  constructor
  · intro member
    obtain ⟨s, stale, same⟩ := List.mem_map.mp member
    obtain ⟨here, unwritten⟩ := List.mem_filter.mp stale
    rw [Bool.and_eq_true] at unwritten
    refine ⟨s, here, unwritten.1, same, fun known => ?_⟩
    have listed : edgeIdentityKey s ∈ call.batch.map edgeIdentityKey := by
      rw [whole, List.map_append]
      exact List.mem_append_left _ known
    simp [listed] at unwritten
  · rintro ⟨s, here, answers, same, unknown⟩
    refine List.mem_map.mpr ⟨s, List.mem_filter.mpr ⟨here, ?_⟩, same⟩
    rw [answers, Bool.true_and, Bool.not_eq_true', ← Bool.not_eq_true, List.contains_iff_mem]
    intro listed
    rw [whole, List.map_append] at listed
    rcases List.mem_append.mp listed with known | peer
    · exact unknown known
    · -- An edge to a peer has no site, so it would be the edge itself.
      obtain ⟨p, member, key⟩ := List.mem_map.mp peer
      have type : s.edgeType = .crossRepoSameSymbol :=
        (congrArg EdgeKey.edgeType key).symm.trans (own p member).1
      refine unknown ?_
      rw [key_eq_of_triple_eq (by rw [type]; rfl) same]
      exact written

theorem Input.hasTarget_of_stored (input : Input f₀ id handle) {edge e : GraphEdge}
    (source : carryEdge (globalsOf f₀ id handle) edge = some e)
    (stored : edgeIdentityKey e ∈ f₀.backend.edges.map edgeIdentityKey) :
    hasTarget f₀ edge = true := by
  obtain ⟨s, here, same⟩ := List.mem_map.mp stored
  obtain ⟨a, arc, rfl⟩ := List.mem_map.mp here
  have target : a.weight.targetId = edge.targetId := by
    obtain ⟨g, -, rfl⟩ := Option.map_eq_some_iff.mp source
    exact congrArg EdgeKey.targetId same
  have located := (input.consistent.ids _ _).mpr (input.consistent.anchored a arc).2
  rw [target] at located
  simp [hasTarget, GraphDatabase.hasNode, located]

theorem mem_carried {edge e : GraphEdge} (member : edge ∈ pendingOf f₀ handle)
    (source : carryEdge (globalsOf f₀ id handle) edge = some e)
    (target : hasTarget f₀ edge = true) :
    e ∈ carried f₀ id handle (pendingOf f₀ handle) :=
  List.mem_filterMap.mpr ⟨edge, member, by rw [if_pos target]; exact source⟩

/-- **Nothing retracted.** -/
theorem losesNothing_drained {f : FederatedIndex} (drained : pendingOf f handle = [])
    (edges : f.backend.edges = f₀.backend.edges) :
    LosesNothing f₀ id handle f ↔ Spares f₀ id handle .drained := by
  constructor
  · intro loses edge member
    have kept := (loses.pending edge member).resolve_left (by rw [drained]; exact List.not_mem_nil)
    rwa [edges] at kept
  · intro spares
    refine ⟨fun edge member => Or.inr ?_, fun e here _ => edges ▸ List.mem_map_of_mem here⟩
    rw [edges]
    exact spares edge member

/-- **Retracted and not written.** -/
theorem losesNothing_retracted (input : Input f₀ id handle) {f : FederatedIndex} {call : EdgeCall}
    (drained : pendingOf f handle = []) (batched : Batched f₀ id handle call)
    (edges : f.backend.edges =
      withoutTriples (staleEdges id call.batch f₀.backend.edges) f₀.backend.edges) :
    LosesNothing f₀ id handle f ↔ Spares f₀ id handle .retracted := by
  have intra : ∀ e : GraphEdge,
      edgeIdentityKey e ∈ (intraEdges f₀ id handle).map edgeIdentityKey →
      edgeIdentityKey e ∈ (intraEdges f₀ id handle ++
        carried f₀ id handle (pendingOf f₀ handle)).map edgeIdentityKey := by
    intro e known
    rw [List.map_append]
    exact List.mem_append_left _ known
  have pending : ∀ edge ∈ pendingOf f₀ handle, ∀ e,
      carryEdge (globalsOf f₀ id handle) edge = some e →
      edgeIdentityKey e ∈ f₀.backend.edges.map edgeIdentityKey →
      edgeIdentityKey e ∈ (intraEdges f₀ id handle ++
        carried f₀ id handle (pendingOf f₀ handle)).map edgeIdentityKey := by
    intro edge member e source stored
    rw [List.map_append]
    exact List.mem_append_right _ (List.mem_map_of_mem
      (mem_carried member source (input.hasTarget_of_stored source stored)))
  constructor
  · intro loses
    refine ⟨fun edge member => ?_, fun e here known => ?_⟩
    · obtain ⟨e, source, kept⟩ :=
        (loses.pending edge member).resolve_left (by rw [drained]; exact List.not_mem_nil)
      rw [edges, mem_keys_withoutTriples] at kept
      exact ⟨e, source, kept.1,
        mt (batched.clashes_iff (pending edge member e source kept.1)).mpr kept.2⟩
    · have kept := loses.justified e here known
      rw [edges, mem_keys_withoutTriples] at kept
      exact mt (batched.clashes_iff (intra e known)).mpr kept.2
  · rintro ⟨stored, apart⟩
    refine ⟨fun edge member => Or.inr ?_, fun e here known => ?_⟩
    · obtain ⟨e, source, kept, spared⟩ := stored edge member
      refine ⟨e, source, ?_⟩
      rw [edges, mem_keys_withoutTriples]
      exact ⟨kept, mt (batched.clashes_iff (pending edge member e source kept)).mp spared⟩
    · rw [edges, mem_keys_withoutTriples]
      exact ⟨List.mem_map_of_mem here, mt (batched.clashes_iff (intra e known)).mp (apart e here known)⟩

/-- **Written and not saved.** -/
theorem losesNothing_written (input : Input f₀ id handle) (valid : Valid f₀.repos)
    {f : FederatedIndex} {call : EdgeCall} (writable : f₀.backend.readOnly = false)
    (drained : pendingOf f handle = []) (batched : Batched f₀ id handle call)
    {kept : List GraphEdge}
    (survivors : kept = withoutTriples (staleEdges id call.batch f₀.backend.edges) f₀.backend.edges)
    (edges : f.backend.edges = kept ++ freshEdges (kept.map edgeIdentityKey) call.batch) :
    LosesNothing f₀ id handle f ↔ Spares f₀ id handle .written := by
  have keys : ∀ key, key ∈ f.backend.edges.map edgeIdentityKey ↔
      key ∈ kept.map edgeIdentityKey ∨ key ∈ call.batch.map edgeIdentityKey := by
    intro key
    rw [edges, List.map_append, List.mem_append, mem_freshEdges_keys]
    tauto
  obtain ⟨peers, whole, own⟩ := batched
  have listed : ∀ key, key ∈ call.batch.map edgeIdentityKey ↔
      (key ∈ (intraEdges f₀ id handle).map edgeIdentityKey ∨
        key ∈ (carried f₀ id handle (pendingOf f₀ handle)).map edgeIdentityKey) ∨
          key ∈ peers.map edgeIdentityKey := by
    intro key
    rw [whole, List.map_append, List.map_append, List.mem_append, List.mem_append]
  constructor
  · intro loses edge member
    obtain ⟨e, source, here⟩ :=
      (loses.pending edge member).resolve_left (by rw [drained]; exact List.not_mem_nil)
    refine ⟨e, source, ?_⟩
    have target : e.targetId = edge.targetId := by
      obtain ⟨g, -, rfl⟩ := Option.map_eq_some_iff.mp source
      rfl
    rcases (keys _).mp here with old | new
    · rw [survivors] at old
      exact Or.inl (input.hasTarget_of_stored source (mem_keys_withoutTriples.mp old).1)
    · rcases (listed _).mp new with (intra | carries) | peer
      · exact Or.inr intra
      · obtain ⟨c, taken, same⟩ := List.mem_map.mp carries
        obtain ⟨edge', -, condition⟩ := List.mem_filterMap.mp taken
        split at condition
        next reached =>
            obtain ⟨g, -, rfl⟩ := Option.map_eq_some_iff.mp condition
            refine Or.inl ?_
            rwa [hasTarget_congr (show _ = edge'.targetId from target.symm.trans
              (congrArg EdgeKey.targetId same).symm)]
        · cases condition
      · -- The target of a peer is a registered node, and would get a placeholder.
        obtain ⟨p, taken, same⟩ := List.mem_map.mp peer
        obtain ⟨-, -, ⟨repo, registered, own⟩, parsed⟩ := own p taken
        have same : p.targetId = edge.targetId :=
          (congrArg EdgeKey.targetId same).trans target
        rw [same] at own parsed
        obtain ⟨gid, parsed⟩ := Option.isSome_iff_exists.mp parsed
        obtain rfl := GlobalId.parse_eq_some parsed
        have named := (GlobalId.startsWith_iff (contains_of_inRepo own)
          (repoIdNew_eq_some (valid repo registered)).2).mp own
        exact Or.inl ((hasTarget_of_registered parsed (named ▸ registered)).mpr (Or.inr writable))
  · intro spares
    refine ⟨fun edge member => Or.inr ?_, fun e here known => ?_⟩
    · obtain ⟨e, source, target | intra⟩ := spares edge member
      · exact ⟨e, source, (keys _).mpr (Or.inr ((listed _).mpr (Or.inl (Or.inr
          (List.mem_map_of_mem (mem_carried member source target))))))⟩
      · exact ⟨e, source, (keys _).mpr (Or.inr ((listed _).mpr (Or.inl (Or.inl intra))))⟩
    · exact (keys _).mpr (Or.inr ((listed _).mpr (Or.inl (Or.inl known))))

theorem EdgeCall.step_fails {f f' : FederatedIndex} {call call' : EdgeCall}
    {failure : Option LainError} {reason : LainError}
    (moved : call.step rules orders sim f failure = some (f', call'))
    (failed : call'.phase = .done (.error reason)) :
    (∃ nodes, call.phase = .projecting nodes ∧ f.projectGraph call.repo = .error reason) ∨
    ∃ backend, f' = { f with backend } ∧
      ((∃ others targets, call.phase = .matching others [] targets ∧
          GraphBackend.upsertNodesBatch f.backend failure (targets.entries.map Prod.snd) =
            .error backend reason) ∨
        (∃ stale, call.phase = .retracting stale ∧
          GraphBackend.removeEdges f.backend failure stale = .error backend reason) ∨
        call.phase = .writing ∧
          GraphBackend.upsertEdgesBatch f.backend failure call.batch = .error backend reason) := by
  have resumed : ∀ {α : Type} {next : α → Phase} {outcome : Outcome α},
      (∀ value, next value ≠ .done (.error reason)) →
      EdgeCall.resume f call next outcome = some (f', call') →
      ∃ backend, f' = { f with backend } ∧ outcome = .error backend reason := by
    intro α next outcome goesOn moved
    cases outcome with
    | ok backend value =>
      cases moved
      exact absurd failed (goesOn value)
    | error backend other =>
      cases moved
      cases failed
      exact ⟨backend, rfl, rfl⟩
    | panicked => cases moved
  obtain ⟨repo, handle, globals, nodes, batch, phase⟩ := call
  unfold EdgeCall.step at moved
  cases phase with
  | projecting locals =>
    dsimp only at moved
    split at moved
    next other absent =>
        cases moved
        cases failed
        exact Or.inl ⟨locals, rfl, absent⟩
    · cases moved
      cases failed
  | matching others todo targets =>
    cases todo with
    | nil =>
      obtain ⟨backend, same, refused⟩ := resumed (fun _ other => by cases other) moved
      exact Or.inr ⟨backend, same, Or.inl ⟨others, targets, rfl, refused⟩⟩
    | cons entry todo =>
      cases moved
      cases failed
  | retracting stale =>
    dsimp only at moved
    split at moved
    · cases moved
      cases failed
    · obtain ⟨backend, same, refused⟩ := resumed (fun _ other => by cases other) moved
      exact Or.inr ⟨backend, same, Or.inr (Or.inl ⟨stale, rfl, refused⟩)⟩
  | writing =>
    obtain ⟨backend, same, refused⟩ := resumed (fun _ other => by cases other) moved
    exact Or.inr ⟨backend, same, Or.inr (Or.inr ⟨rfl, refused⟩)⟩
  | placing external todo =>
    cases todo with
    | nil =>
      cases moved
      cases failed
    | cons edge todo =>
      dsimp only at moved
      split at moved
      · cases moved
        cases failed
      · split at moved <;>
        · cases moved
          cases failed
  | registered external todo target =>
    dsimp only at moved
    split at moved <;>
    · cases moved
      cases failed
  | missing external todo target =>
    dsimp only at moved
    split at moved
    · split at moved
      · cases moved
      · cases moved
        cases failed
    · cases moved
      cases failed
  | carrying todo =>
    cases todo with
    | nil =>
      cases moved
      cases failed
    | cons edge todo =>
      dsimp only at moved
      split at moved
      · cases moved
        cases failed
      · split at moved <;>
        · cases moved
          cases failed
  | draining | gathering | reconciling =>
    cases moved
    cases failed
  | done result => cases moved

theorem not_alone_of_unregistered (absent : f₀.repos.get? id = none)
    {failures : List (Option LainError)} {s : FederatedIndex × EdgeCall}
    (run : Runs (EdgeCall.alone rules orders sim) (fun _ _ => True) (f₀, EdgeCall.start f₀ id)
      failures s) (failure : Option LainError) : EdgeCall.alone rules orders sim s failure = none := by
  have ended : ∃ reason, s.2.phase = .done reason := by
    refine run.invariant (I := fun _ s => ∃ reason, s.2.phase = .done reason) ?_ ?_
    · unfold EdgeCall.start
      rw [absent]
      exact ⟨_, rfl⟩
    · rintro events s event s' ⟨reason, done⟩ - moved
      unfold EdgeCall.alone EdgeCall.step at moved
      rw [done] at moved
      cases moved
  obtain ⟨reason, done⟩ := ended
  unfold EdgeCall.alone EdgeCall.step
  rw [done]

theorem GraphBackend.edges_of_removeEdges_error {db db' : GraphDatabase}
    {failure : Option LainError} {reason : LainError} {edges : List GraphEdge}
    (consistent : Consistent db)
    (failed : GraphBackend.removeEdges db failure edges = .error db' reason) :
    db'.edges = if db.readOnly then db.edges else withoutTriples edges db.edges := by
  have become := (consistent.retract_edges (edges.map GraphEdge.triple)).edges
  unfold GraphBackend.removeEdges GraphDatabase.removeEdges at failed
  split at failed
  next readOnly =>
      cases failed
      rw [if_pos readOnly]
  next writable =>
      rw [if_neg writable]
      simp only [andThen] at failed
      split at failed
      · cases failure with
        | none => cases failed
        | some _ =>
          cases failed
          exact become
      · cases failed

theorem GraphBackend.edges_of_upsertEdgesBatch_error {db db' : GraphDatabase}
    {failure : Option LainError} {reason : LainError} {edges : List GraphEdge}
    (consistent : Consistent db)
    (failed : GraphBackend.upsertEdgesBatch db failure edges = .error db' reason) :
    match (db.upsertEdgesBatchStrict edges).outcome with
    | .ok _ _ => db.readOnly = false ∧ db'.edges = db.edges ++ freshEdges db.storedKeys edges
    | .error _ _ | .panicked => db'.edges = db.edges := by
  unfold GraphBackend.upsertEdgesBatch at failed
  split at failed
  · cases failed
  · rcases consistent.upsertEdgesBatchStrict_spec edges with ⟨after, done, become⟩ | ⟨_, refused⟩
    · rw [done] at failed ⊢
      have writable : db.readOnly = false := by
        by_contra readOnly
        unfold GraphDatabase.upsertEdgesBatchStrict at done
        rw [if_pos (by simpa using readOnly)] at done
        cases done
      cases failure with
      | none => cases failed
      | some _ =>
        cases failed
        exact ⟨writable, become.edges⟩
    · rw [refused] at failed ⊢
      cases failed
      rfl

/-- **A failed call loses nothing exactly when its failure spares it**: what is drained must be
stored already, and what is retracted must have no namesake the repository's graph has. -/
theorem losesNothing_iff (consistent : Consistent f₀.backend) (valid : Valid f₀.repos)
    (known : ∀ other, f₀.repos.get? id = some other → other = handle) {progress : Progress}
    {f : FederatedIndex} (fails : Fails rules orders sim f₀ id progress f) :
    LosesNothing f₀ id handle f ↔ Spares f₀ id handle progress := by
  cases fails with
  | unregistered absent =>
    exact ⟨fun _ => trivial, fun _ =>
      ⟨fun edge member => Or.inl member, fun e here _ => List.mem_map_of_mem here⟩⟩
  | @step failures failure f f' call call' reason run moved failed =>
    cases registered : f₀.repos.get? id with
    | none =>
      rw [not_alone_of_unregistered registered run] at moved
      cases moved
    | some other =>
      obtain rfl := known other registered
      have input : Input f₀ id other :=
        ⟨consistent, registered, valid id (SortedMap.mem_keys.mpr (registered ▸ rfl))⟩
      have alone := Alone.of_runs input run
      have stage := alone.stage
      have mode : f.backend.readOnly = f₀.backend.readOnly := alone.mode
      unfold Stage at stage
      unfold progressAt
      rcases EdgeCall.step_fails moved failed with ⟨nodes, phase, absent⟩ | ⟨backend, rfl, cause⟩
      · rw [phase] at stage
        obtain ⟨rfl, -⟩ := stage
        rw [alone.sameRepo, input.projectGraph] at absent
        cases absent
      rcases cause with ⟨others, targets, phase, refused⟩ | ⟨stale, phase, refused⟩ |
        ⟨phase, refused⟩
      · rw [phase] at stage ⊢
        obtain ⟨drained, edges, -⟩ := stage
        have same := GraphBackend.upsertNodesBatch_sameEdges failure alone.consistent
          (targets.entries.map Prod.snd)
        rw [refused] at same
        exact losesNothing_drained drained (same.edges.trans edges)
      · rw [phase] at stage ⊢
        obtain ⟨drained, edges, batched, rfl⟩ := stage
        have left := GraphBackend.edges_of_removeEdges_error alone.consistent refused
        dsimp only at left ⊢
        split at left
        next readOnly =>
            rw [if_pos readOnly]
            exact losesNothing_drained drained (left.trans edges)
        next writable =>
            rw [if_neg writable]
            exact losesNothing_retracted input drained batched (left.trans (by rw [edges]))
      · rw [phase] at stage ⊢
        obtain ⟨drained, batched, edges⟩ := stage
        have left := GraphBackend.edges_of_upsertEdgesBatch_error alone.consistent refused
        dsimp only at left ⊢
        split at left
        next after value done =>
            obtain ⟨writable, left⟩ := left
            exact losesNothing_written input valid (mode.symm.trans writable) drained batched
              edges left
        · exact losesNothing_retracted input drained batched (left.trans edges)
        · exact losesNothing_retracted input drained batched (left.trans edges)

end Failures

/-! ### Two failures -/

private def failAlone (f₀ : FederatedIndex) (failure : Option LainError) :
    Option ((FederatedIndex × EdgeCall) × (FederatedIndex × EdgeCall)) := do
  let s ← execute plainAlone (fun _ _ => True) (f₀, EdgeCall.start f₀ "R") (List.replicate 10 none)
  let s' ← plainAlone s failure
  return (s, s')

private def refused (call : EdgeCall) : Bool :=
  match call.phase with
  | .done (.error _) => true
  | _ => false

private theorem fails_of_failAlone {f₀ : FederatedIndex} {failure : Option LainError}
    {s s' : FederatedIndex × EdgeCall} (ran : failAlone f₀ failure = some (s, s'))
    (ended : refused s'.2 = true) :
    Fails .ascii .byKey (fun dot _ _ => dot) f₀ "R" (progressAt s.1 s.2) s'.1 := by
  unfold failAlone at ran
  obtain ⟨before, earlier, ran⟩ := Option.bind_eq_some_iff.mp ran
  obtain ⟨after, moved, ran⟩ := Option.bind_eq_some_iff.mp ran
  cases ran
  unfold refused at ended
  split at ended
  next reason failed => exact .step (runs_of_execute earlier) moved failed
  · cases ended

private theorem failAlone_unsaved :
    (failAlone (federationWith []) (some (.database "disk full"))).any (fun run =>
      refused run.2.2 && decide (progressAt run.1.1 run.1.2 = .written)) = true := by
  decide +kernel

private theorem valid_federationWith (edges : List GraphEdge) :
    Valid (federationWith edges).repos := by
  intro id listed
  have only : id ∈ ["R"] := listed
  rw [List.mem_singleton.mp only]
  decide

theorem losesNothing_iff_unsaved :
    ∃ f, Fails .ascii .byKey (fun dot _ _ => dot) (federationWith []) "R" .written f ∧
      LosesNothing (federationWith []) "R" 0 f := by
  have left := failAlone_unsaved
  rw [Option.any_eq_true] at left
  obtain ⟨⟨s, f, call⟩, ran, finds⟩ := left
  simp only [Bool.and_eq_true, decide_eq_true_eq] at finds
  have fails := fails_of_failAlone ran finds.1
  rw [finds.2] at fails
  refine ⟨f, fails, (losesNothing_iff (input_federationWith []).consistent
    (valid_federationWith []) (fun other registered => ?_) fails).mpr fun edge member => ?_⟩
  · cases registered
    rfl
  · have only : edge ∈ pendingOf (federationWith []) 0 := member
    have listed : pendingOf (federationWith []) 0 =
        [{ edgeType := .uses, sourceId := "f", targetId := "S:Struct:b.rs:T:1" }] := by
      decide +kernel
    rw [listed] at only
    obtain rfl := List.mem_singleton.mp only
    have source : (carryEdge (globalsOf (federationWith []) "R" 0)
        { edgeType := .uses, sourceId := "f", targetId := "S:Struct:b.rs:T:1" }).isSome = true := by
      decide +kernel
    obtain ⟨e, source⟩ := Option.isSome_iff_exists.mp source
    exact ⟨e, source, Or.inl (by decide +kernel)⟩

private def targetOnly : GraphDatabase :=
  stateAfter (GraphBackend.upsertNodesBatch {} none
    [{ id := "S:Struct:b.rs:T:1", nodeType := .struct, name := "T", path := "b.rs" }])

private theorem consistent_targetOnly : Consistent targetOnly :=
  (stateAfter_all (GraphBackend.upsertNodesBatch_sameEdges none consistent_empty _)).consistent

private def unprojected : FederatedIndex :=
  FederatedIndex.addRepo { backend := targetOnly } "R" userGraph

private theorem failAlone_unprojected :
    (failAlone unprojected none).any (fun run => refused run.2.2 &&
      (pendingOf run.2.1 0).isEmpty && run.2.1.backend.edges.isEmpty) = true := by
  decide +kernel

/-- A batch without one of its endpoints is refused, and the pending edge is gone. -/
theorem losesNothing_fails :
    ¬ ∀ (f₀ f : FederatedIndex) (id : RepoId) (handle : Nat) (progress : Progress),
      Consistent f₀.backend → Valid f₀.repos → f₀.repos.get? id = some handle →
      Fails .ascii .byKey (fun dot _ _ => dot) f₀ id progress f → LosesNothing f₀ id handle f := by
  intro claim
  have left := failAlone_unprojected
  rw [Option.any_eq_true] at left
  obtain ⟨⟨s, f, call⟩, ran, finds⟩ := left
  simp only [Bool.and_eq_true, List.isEmpty_iff] at finds
  obtain ⟨⟨ended, drained⟩, edgeless⟩ := finds
  have loses := claim unprojected f "R" 0 _ consistent_targetOnly
    (fun id listed => by
      have only : id ∈ ["R"] := listed
      rw [List.mem_singleton.mp only]
      decide)
    rfl (fails_of_failAlone ran ended)
  have member : ({ edgeType := .uses, sourceId := "f", targetId := "S:Struct:b.rs:T:1" } : GraphEdge) ∈
      pendingOf unprojected 0 := by
    decide +kernel
  rcases loses.pending _ member with still | ⟨e, -, stored⟩
  · rw [drained] at still
    cases still
  · rw [edgeless] at stored
    cases stored

end Lain.Federation
