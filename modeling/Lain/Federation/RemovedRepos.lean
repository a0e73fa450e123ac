import Lain.Federation.Projection
import Lain.Foundation.Runs

/-!
# Removed repositories

Nodes are projected, and repositories added and removed, under one lock, so each of these is one
step.
-/

namespace Lain.Federation

open Foundation Contracts Lain.Graph FederatedIndex

/-- The federation with the calls that project edges, those that have ended included. -/
structure Projections where
  index : FederatedIndex
  calls : List EdgeCall := []

/-- What happens: a step under the lock, a pass over a repository that changes its graph, a new
call that projects edges, and the next step of a call. -/
inductive ProjectionEvent where
  | projectNodes (id : RepoId) (upserting removing : Option LainError)
  | addRepo (id : String) (graph : GraphDatabase)
  | removeRepo (id : RepoId) (failure : Option LainError)
  | reindex (handle : Nat) (graph : GraphDatabase)
  | projectEdges (id : RepoId)
  | advance (call : Nat) (failure : Option LainError)

/-- The ids of the nodes a call writes if it goes on from where it is and finds them missing. -/
def EdgeCall.places (call : EdgeCall) : List String :=
  match call.phase with
  | .registered _ _ target | .missing _ _ target => [target]
  | .matching _ todo targets =>
    (todo.map fun entry => entry.2.id) ++ targets.entries.map fun entry => entry.2.id
  | _ => []

section System

variable (rules : TextRules) (orders : HashOrders) (sim : Nat → Nat → Nat → ℚ)

namespace Projections

/-- One step of the federation. -/
def step (s : Projections) : ProjectionEvent → Option Projections
  | .projectNodes id upserting removing =>
    match s.index.projectNodes id upserting removing with
    | .panicked => none
    | outcome => some { s with index := { s.index with backend := stateAfter outcome } }
  | .addRepo id graph => (repoIdNew id).map fun repo => { s with index := s.index.addRepo repo graph }
  | .removeRepo id failure =>
    (s.index.removeRepo id failure).map fun removed => { s with index := removed.1 }
  | .reindex handle graph =>
    some { s with index := { s.index with indexes := s.index.indexes.set handle graph } }
  | .projectEdges id => some { s with calls := s.calls ++ [EdgeCall.start s.index id] }
  | .advance i failure =>
    match s.calls[i]? with
    | none => none
    | some call =>
      (call.step rules orders sim s.index failure).map fun moved =>
        { index := moved.1, calls := s.calls.set i moved.2 }

end Projections

end System

/-- The event adds the repository. -/
def ProjectionEvent.Adds (id : RepoId) : ProjectionEvent → Prop
  | .addRepo other _ => other = id
  | _ => False

instance (id : RepoId) : DecidablePred (ProjectionEvent.Adds id)
  | .addRepo other _ => inferInstanceAs (Decidable (other = id))
  | .projectNodes _ _ _ | .removeRepo _ _ | .reindex _ _ | .projectEdges _ | .advance _ _ =>
    .isFalse fun added => added

section System

variable {rules : TextRules} {orders : HashOrders} {sim : Nat → Nat → Nat → ℚ}

/-! ### What a step of a call brings -/

structure Moves (f : FederatedIndex) (call : EdgeCall) (f' : FederatedIndex) (call' : EdgeCall) :
    Prop where
  repos : f'.repos = f.repos
  backend : GrowsBy f.backend call.places f'.backend
  places : ∀ gid ∈ call'.places, gid ∈ call.places ∨ OfRegistered f.repos gid

theorem Moves.quiet {f f' : FederatedIndex} {call call' : EdgeCall}
    (consistent : Consistent f.backend) (repos : f'.repos = f.repos)
    (backend : f'.backend = f.backend) (places : call'.places ⊆ call.places) :
    Moves f call f' call' where
  repos := repos
  backend := backend ▸ GrowsBy.refl consistent _
  places := fun _ member => Or.inl (places member)

theorem GrowsBy.weaken {db db' : GraphDatabase} {ids ids' : List String} (grows : GrowsBy db ids db')
    (sub : ids ⊆ ids') : GrowsBy db ids' db' :=
  ⟨grows.1, fun id here => (grows.2 id here).imp_right (sub ·)⟩

theorem Moves.resume {α : Type} {f f' : FederatedIndex} {call call' : EdgeCall}
    {next : α → Phase} {outcome : Outcome α} {ids : List String}
    (grows : outcome.All (GrowsBy f.backend ids)) (sub : ids ⊆ call.places)
    (silent : ∀ value, { call with phase := next value : EdgeCall }.places = [])
    (moved : EdgeCall.resume f call next outcome = some (f', call')) : Moves f call f' call' := by
  cases outcome with
  | ok backend value =>
    cases moved
    exact ⟨rfl, grows.weaken sub, fun gid member => by rw [silent] at member; cases member⟩
  | error backend reason =>
    cases moved
    exact ⟨rfl, grows.weaken sub, fun gid member => by cases member⟩
  | panicked => cases moved

/-- **One step of a call.** -/
theorem EdgeCall.step_moves {f f' : FederatedIndex} {call call' : EdgeCall}
    {failure : Option LainError} (consistent : Consistent f.backend) (valid : Valid f.repos)
    (moved : call.step rules orders sim f failure = some (f', call')) :
    Moves f call f' call' := by
  obtain ⟨repo, handle, globals, nodes, batch, phase⟩ := call
  unfold EdgeCall.step at moved
  cases phase with
  | projecting nodes =>
    dsimp only at moved
    split at moved <;>
    · cases moved
      exact .quiet consistent rfl rfl (List.nil_subset _)
  | draining =>
    cases moved
    exact .quiet consistent rfl rfl (List.nil_subset _)
  | placing external todo =>
    cases todo with
    | nil =>
      cases moved
      exact .quiet consistent rfl rfl (List.nil_subset _)
    | cons edge todo =>
      dsimp only at moved
      split at moved
      · cases moved
        exact .quiet consistent rfl rfl (List.nil_subset _)
      next target parsed =>
          split at moved
          next registered =>
              cases moved
              refine ⟨rfl, GrowsBy.refl consistent _, fun gid member => Or.inr ?_⟩
              rw [List.mem_singleton.mp member]
              exact ofRegistered_of_parse valid parsed registered
          · cases moved
            exact .quiet consistent rfl rfl (List.nil_subset _)
  | registered external todo target =>
    dsimp only at moved
    split at moved
    · cases moved
      exact .quiet consistent rfl rfl (List.nil_subset _)
    · cases moved
      exact .quiet consistent rfl rfl (List.Subset.refl _)
  | missing external todo target =>
    dsimp only at moved
    split at moved
    next kind path name _ _ _ =>
        have grows := GraphBackend.upsertNodeGlobal_growsBy failure consistent target
          (parseNodeType kind) path name
        split at moved
        · cases moved
        · cases moved
          refine ⟨rfl, ?_, fun gid member => by cases member⟩
          revert grows
          cases GraphBackend.upsertNodeGlobal f.backend failure target (parseNodeType kind) path
            name with
          | ok backend value => exact id
          | error backend reason => exact id
          | panicked => exact False.elim
    · cases moved
      exact .quiet consistent rfl rfl (List.nil_subset _)
  | carrying todo =>
    cases todo with
    | nil =>
      cases moved
      exact .quiet consistent rfl rfl (List.nil_subset _)
    | cons edge todo =>
      dsimp only at moved
      split at moved
      · cases moved
        exact .quiet consistent rfl rfl (List.nil_subset _)
      · split at moved <;>
        · cases moved
          exact .quiet consistent rfl rfl (List.nil_subset _)
  | gathering =>
    cases moved
    refine ⟨rfl, GrowsBy.refl consistent _, fun gid member => Or.inr ?_⟩
    have listed : gid ∈ (peerMatches rules orders sim nodes (f.otherNodes repo)).map
        fun entry => entry.2.id := by
      simpa [EdgeCall.places, EmptyCollection.emptyCollection] using member
    obtain ⟨entry, matched, rfl⟩ := List.mem_map.mp listed
    obtain ⟨n, offered, named, -⟩ := mem_peerMatches matched
    rw [← named]
    exact ofRegistered_otherNodes offered
  | matching others todo targets =>
    cases todo with
    | nil =>
      refine Moves.resume (GraphBackend.upsertNodesBatch_growsBy failure consistent _) ?_
        (fun _ => rfl) moved
      intro gid member
      rw [List.map_map] at member
      exact member
    | cons entry todo =>
      obtain ⟨n, found⟩ := entry
      cases moved
      refine ⟨rfl, GrowsBy.refl consistent _, fun gid member => Or.inl ?_⟩
      rcases List.mem_append.mp member with later | target
      · exact List.mem_append_left _ (List.mem_cons_of_mem _ later)
      · -- What joined the targets is the node of the match.
        obtain ⟨⟨id, node⟩, listed, rfl⟩ := List.mem_map.mp target
        split at listed
        next peer known =>
            split at listed
            · rw [SortedMap.mem_entries, SortedMap.get?_insert] at listed
              split at listed
              · cases listed
                rw [(nodeById_spec known).2]
                exact List.mem_append_left _ List.mem_cons_self
              · exact List.mem_append_right _
                  (List.mem_map_of_mem (SortedMap.mem_entries.mpr listed))
            · exact List.mem_append_right _ (List.mem_map_of_mem listed)
        · exact List.mem_append_right _ (List.mem_map_of_mem listed)
  | reconciling =>
    cases moved
    exact .quiet consistent rfl rfl (List.nil_subset _)
  | retracting stale =>
    dsimp only at moved
    split at moved
    · cases moved
      exact .quiet consistent rfl rfl (List.nil_subset _)
    · exact Moves.resume (GraphBackend.removeEdges_growsBy failure consistent stale)
        (List.nil_subset _) (fun _ => rfl) moved
  | writing =>
    exact Moves.resume (GraphBackend.upsertEdgesBatch_growsBy failure consistent batch)
      (List.nil_subset _) (fun _ => rfl) moved
  | done result => cases moved

/-! ### What holds along a run -/

/-- The backend is consistent, and the repositories have names they were accepted under. -/
structure Projections.Sound (s : Projections) : Prop where
  consistent : Consistent s.index.backend
  valid : Valid s.index.repos

/-- Nothing of a repository is left: it is not registered, the backend has no node of
it, and no call is about to write one. -/
structure Projections.Clear (id : RepoId) (s : Projections) : Prop extends s.Sound where
  unregistered : id ∉ s.index.repos.keys
  empty : ∀ gid, s.index.backend.hasNode gid = true → ¬ InRepo id gid
  apart : ∀ call ∈ s.calls, ∀ gid ∈ call.places, ¬ InRepo id gid

theorem mem_keys_erase {repos : SortedMap RepoId Nat} {id other : RepoId} :
    other ∈ (repos.erase id).keys ↔ other ≠ id ∧ other ∈ repos.keys := by
  rw [SortedMap.mem_keys, SortedMap.mem_keys, SortedMap.get?_erase]
  split <;> simp_all

theorem mem_keys_insert {repos : SortedMap RepoId Nat} {id other : RepoId} {handle : Nat} :
    other ∈ (repos.insert id handle).keys ↔ other = id ∨ other ∈ repos.keys := by
  rw [SortedMap.mem_keys, SortedMap.mem_keys, SortedMap.get?_insert]
  split <;> simp_all

theorem Projections.Sound.ofRegistered_ne {s : Projections} (sound : s.Sound) {id : RepoId}
    (named : repoIdNew id = some id) (unregistered : id ∉ s.index.repos.keys) {gid : String}
    (registered : OfRegistered s.index.repos gid) : ¬ InRepo id gid := by
  obtain ⟨other, listed, own⟩ := registered
  intro here
  exact unregistered (eq_of_inRepo named (sound.valid _ listed) here own ▸ listed)

theorem FederatedIndex.projectNodes_all {f : FederatedIndex} (consistent : Consistent f.backend)
    (id : RepoId) (upserting removing : Option LainError) :
    (f.projectNodes id upserting removing).All fun backend =>
      Consistent backend ∧ ∀ gid, backend.hasNode gid = true →
        f.backend.hasNode gid = true ∨ OfRegistered f.repos gid := by
  unfold projectNodes
  split
  · exact ⟨consistent, fun gid here => Or.inl here⟩
  next batchNodes edges projected =>
      have own : ∀ gid ∈ batchNodes.map GraphNode.id, OfRegistered f.repos gid := by
        unfold projectGraph at projected
        split at projected
        · cases projected
        next handle registered =>
            unfold projectGraphShared at projected
            split at projected
            · cases projected
            next repo accepted =>
                cases projected
                obtain rfl := (repoIdNew_eq_some accepted).1
                intro gid member
                rw [List.map_map] at member
                obtain ⟨n, -, rfl⟩ := List.mem_map.mp member
                exact ⟨repo, SortedMap.mem_keys.mpr (registered ▸ rfl), inRepo_globalIdStr repo n⟩
      have grown : ∀ backend, GrowsBy f.backend (batchNodes.map GraphNode.id) backend →
          Consistent backend ∧ ∀ gid, backend.hasNode gid = true →
            f.backend.hasNode gid = true ∨ OfRegistered f.repos gid := fun backend grows =>
        ⟨grows.1, fun gid here => (grows.2 gid here).imp_right (own gid)⟩
      refine andThen_all (GraphBackend.upsertNodesBatch_growsBy upserting consistent batchNodes)
        grown fun backend _ grows => ?_
      dsimp only
      split
      · exact grown backend grows
      · have shrunk : ∀ after, GrowsBy backend [] after →
            Consistent after ∧ ∀ gid, after.hasNode gid = true →
              f.backend.hasNode gid = true ∨ OfRegistered f.repos gid := fun after shrinks =>
          ⟨shrinks.1, fun gid here =>
            (grown backend grows).2 gid ((shrinks.2 gid here).resolve_right (List.not_mem_nil))⟩
        exact andThen_all (GraphBackend.removeNodes_growsBy removing grows.1 _) shrunk
          fun after _ shrinks => shrunk after shrinks

theorem FederatedIndex.removeRepo_spec {f f' : FederatedIndex} (consistent : Consistent f.backend)
    {id : RepoId} {failure : Option LainError} {result : Except LainError Unit}
    (removed : f.removeRepo id failure = some (f', result)) :
    GrowsBy f.backend [] f'.backend ∧ (∀ other ∈ f'.repos.keys, other ∈ f.repos.keys) ∧
      (result = .ok () → id ∉ f'.repos.keys ∧
        ∀ gid, f'.backend.hasNode gid = true → ¬ InRepo id gid) := by
  unfold removeRepo at removed
  have shrinks : (f.removeOwnNodes id failure).All (GrowsBy f.backend []) :=
    GraphBackend.removeNodes_growsBy failure consistent _
  split at removed
  next backend count done =>
      cases removed
      rw [done] at shrinks
      refine ⟨shrinks, fun other listed => (mem_keys_erase.mp listed).2, fun _ =>
        ⟨fun listed => (mem_keys_erase.mp listed).1 rfl, fun gid here own => ?_⟩⟩
      obtain ⟨before, spared⟩ := GraphBackend.hasNode_of_removeNodes failure consistent done here
      obtain ⟨i, located⟩ := Option.isSome_iff_exists.mp before
      obtain ⟨n, live, rfl⟩ := consistent.live_of_lookup located
      refine spared (List.mem_filter.mpr ⟨List.mem_map_of_mem ?_, own⟩)
      exact List.mem_filterMap.mpr
        ⟨some n, List.mem_of_getElem? (StableGraph.nodeWeight_eq_some.mp live), rfl⟩
  next backend reason failed =>
      cases removed
      rw [failed] at shrinks
      exact ⟨shrinks, fun other listed => listed, fun done => by cases done⟩
  · cases removed

namespace Projections

variable {s s' : Projections}

theorem Sound.step (sound : s.Sound) {event : ProjectionEvent}
    (moved : s.step rules orders sim event = some s') : s'.Sound := by
  cases event with
  | projectNodes id upserting removing =>
    have grows := projectNodes_all sound.consistent id upserting removing
    unfold Projections.step at moved
    dsimp only at moved
    split at moved
    · cases moved
    · cases moved
      refine ⟨?_, sound.valid⟩
      revert grows
      cases s.index.projectNodes id upserting removing with
      | ok backend value => exact And.left
      | error backend reason => exact And.left
      | panicked => exact False.elim
  | addRepo id graph =>
    obtain ⟨repo, accepted, rfl⟩ := Option.map_eq_some_iff.mp moved
    refine ⟨sound.consistent, fun other listed => ?_⟩
    rcases mem_keys_insert.mp listed with rfl | old
    · obtain rfl := (repoIdNew_eq_some accepted).1
      exact accepted
    · exact sound.valid other old
  | removeRepo id failure =>
    obtain ⟨⟨index, result⟩, removed, rfl⟩ := Option.map_eq_some_iff.mp moved
    obtain ⟨shrinks, kept, -⟩ := removeRepo_spec sound.consistent removed
    exact ⟨shrinks.1, fun other listed => sound.valid other (kept other listed)⟩
  | reindex handle graph =>
    cases moved
    exact ⟨sound.consistent, sound.valid⟩
  | projectEdges id =>
    cases moved
    exact ⟨sound.consistent, sound.valid⟩
  | advance i failure =>
    unfold Projections.step at moved
    dsimp only at moved
    split at moved
    · cases moved
    · obtain ⟨⟨index, call⟩, stepped, rfl⟩ := Option.map_eq_some_iff.mp moved
      have moves := EdgeCall.step_moves sound.consistent sound.valid stepped
      refine ⟨moves.backend.1, ?_⟩
      rw [moves.repos]
      exact sound.valid

theorem Clear.step {id : RepoId} (named : repoIdNew id = some id) (clear : s.Clear id)
    {event : ProjectionEvent} (other : ¬ event.Adds id)
    (moved : s.step rules orders sim event = some s') : s'.Clear id := by
  have sound := clear.toSound.step moved
  have foreign : ∀ gid, OfRegistered s.index.repos gid → ¬ InRepo id gid := fun _ =>
    clear.toSound.ofRegistered_ne named clear.unregistered
  cases event with
  | projectNodes repo upserting removing =>
    have grows := projectNodes_all clear.consistent repo upserting removing
    unfold Projections.step at moved
    dsimp only at moved
    split at moved
    · cases moved
    · cases moved
      refine ⟨sound, clear.unregistered, ?_, clear.apart⟩
      revert grows
      cases s.index.projectNodes repo upserting removing with
      | ok backend value =>
        exact fun grows gid here => (grows.2 gid here).elim (clear.empty gid) (foreign gid)
      | error backend reason =>
        exact fun grows gid here => (grows.2 gid here).elim (clear.empty gid) (foreign gid)
      | panicked => exact False.elim
  | addRepo name graph =>
    obtain ⟨repo, accepted, rfl⟩ := Option.map_eq_some_iff.mp moved
    refine ⟨sound, fun listed => ?_, clear.empty, clear.apart⟩
    rcases mem_keys_insert.mp listed with rfl | old
    · exact other (repoIdNew_eq_some accepted).1.symm
    · exact clear.unregistered old
  | removeRepo repo failure =>
    obtain ⟨⟨index, result⟩, removed, rfl⟩ := Option.map_eq_some_iff.mp moved
    obtain ⟨shrinks, kept, -⟩ := removeRepo_spec clear.consistent removed
    exact ⟨sound, fun listed => clear.unregistered (kept id listed), fun gid here =>
      clear.empty gid ((shrinks.2 gid here).resolve_right List.not_mem_nil), clear.apart⟩
  | reindex handle graph =>
    cases moved
    exact ⟨sound, clear.unregistered, clear.empty, clear.apart⟩
  | projectEdges repo =>
    cases moved
    refine ⟨sound, clear.unregistered, clear.empty, fun call member gid placed => ?_⟩
    rcases List.mem_append.mp member with old | fresh
    · exact clear.apart call old gid placed
    · rw [List.mem_singleton.mp fresh] at placed
      unfold EdgeCall.start at placed
      split at placed <;> cases placed
  | advance i failure =>
    unfold Projections.step at moved
    dsimp only at moved
    split at moved
    · cases moved
    next call here =>
        obtain ⟨⟨index, call'⟩, stepped, rfl⟩ := Option.map_eq_some_iff.mp moved
        have moves := EdgeCall.step_moves clear.consistent clear.valid stepped
        have spared := clear.apart call (List.mem_of_getElem? here)
        refine ⟨sound, ?_, fun gid present => ?_, fun call'' member gid placed => ?_⟩
        · rw [moves.repos]
          exact clear.unregistered
        · exact (moves.backend.2 gid present).elim (clear.empty gid) (spared gid)
        · rcases List.mem_or_eq_of_mem_set member with old | rfl
          · exact clear.apart call'' old gid placed
          · exact (moves.places gid placed).elim (spared gid) (foreign gid)

/-- **A removed repository stays removed** if no call holds on to it while it is removed: from
the removal on, as long as it is not added again, the backend has no node of it. -/
theorem empty_of_runs {start t : Projections} {before after : List ProjectionEvent} {id : RepoId}
    {failure : Option LainError} {index : FederatedIndex} (sound : start.Sound)
    (named : repoIdNew id = some id)
    (earlier : Runs (step rules orders sim) (fun _ _ => True) start before s)
    (apart : ∀ call ∈ s.calls, ∀ gid ∈ call.places, ¬ InRepo id gid)
    (removed : s.index.removeRepo id failure = some (index, .ok ()))
    (later : Runs (step rules orders sim) (fun _ event => ¬ event.Adds id) { s with index } after t) :
    ∀ n ∈ nodesOf t.index.backend, ¬ InRepo id n.id := by
  have here : s.Sound :=
    earlier.invariant (I := fun _ s => s.Sound) sound fun sound _ moved => sound.step moved
  obtain ⟨shrinks, kept, left⟩ := removeRepo_spec here.consistent removed
  obtain ⟨unregistered, empty⟩ := left rfl
  have cleared : Projections.Clear id { s with index } :=
    ⟨⟨shrinks.1, fun other listed => here.valid other (kept other listed)⟩, unregistered, empty,
      apart⟩
  have clear : t.Clear id :=
    later.invariant (I := fun _ s => s.Clear id) cleared fun clear other moved =>
      clear.step named other moved
  intro n member own
  obtain ⟨slot, stored, live⟩ := List.mem_filterMap.mp member
  obtain ⟨i, located⟩ := List.getElem?_of_mem stored
  rw [show slot = some n from live] at located
  have lookup := clear.consistent.lookup_of_live (StableGraph.nodeWeight_eq_some.mpr located)
  refine clear.empty n.id ?_ own
  rw [GraphDatabase.hasNode, lookup]
  rfl

end Projections

end System

/-! ### Two removals -/

private def plainStep : Projections → ProjectionEvent → Option Projections :=
  Projections.step .ascii .byKey fun dot _ _ => dot

private def removableCaller : GraphDatabase :=
  { stateAfter (GraphDatabase.upsertNode {}
      { id := "f", nodeType := .function, name := "f", path := "a.rs", lineStart := some 1 }).outcome
    with
    pendingExternalEdges :=
      [{ edgeType := .calls, sourceId := "f", targetId := "B:Function:b.rs:g:1" }] }

/-- Remove `B` between two lists of events: the federation before it, what it leaves, and the
federation at the end. -/
private def removeBetween (before after : List ProjectionEvent) :
    Option (Projections × FederatedIndex × Projections) := do
  let s ← execute plainStep (fun _ _ => True) { index := { backend := {} } } before
  let removed ← s.index.removeRepo "B" none
  let t ← execute plainStep (fun _ event => ¬ event.Adds "B") { s with index := removed.1 } after
  match removed.2 with
  | .ok () => return (s, removed.1, t)
  | .error _ => none

private theorem removeBetween_spec {before after : List ProjectionEvent} {s t : Projections}
    {index : FederatedIndex} (done : removeBetween before after = some (s, index, t)) :
    Runs plainStep (fun _ _ => True) { index := { backend := {} } } before s ∧
      s.index.removeRepo "B" none = some (index, .ok ()) ∧
      Runs plainStep (fun _ event => ¬ event.Adds "B") { s with index } after t := by
  unfold removeBetween at done
  obtain ⟨s', earlier, done⟩ := Option.bind_eq_some_iff.mp done
  obtain ⟨⟨index', result⟩, removed, done⟩ := Option.bind_eq_some_iff.mp done
  obtain ⟨t', later, done⟩ := Option.bind_eq_some_iff.mp done
  dsimp only at done
  split at done
  · cases done
    exact ⟨runs_of_execute earlier, removed, runs_of_execute later⟩
  · cases done

private theorem sound_empty : ({ index := { backend := {} } } : Projections).Sound :=
  ⟨consistent_empty, fun _ listed => by cases listed⟩

private def projectBoth : List ProjectionEvent :=
  [.addRepo "A" removableCaller, .addRepo "B" removableCaller, .projectNodes "A" none none,
    .projectNodes "B" none none, .projectEdges "A", .advance 0 none]

private def runToEnd : List ProjectionEvent :=
  List.replicate 10 (.advance 0 none)

private theorem projectBoth_left :
    (removeBetween projectBoth runToEnd).any (fun run =>
      (run.1.calls.all fun call => call.places.isEmpty) &&
        (nodesOf run.1.index.backend).any fun n => decide (InRepo "B" n.id)) = true := by
  decide +kernel

theorem Projections.empty_of_runs_bystander :
    ∃ s index t, removeBetween projectBoth runToEnd = some (s, index, t) ∧
      (∃ n ∈ nodesOf s.index.backend, InRepo "B" n.id) ∧
      ∀ n ∈ nodesOf t.index.backend, ¬ InRepo "B" n.id := by
  have left := projectBoth_left
  rw [Option.any_eq_true] at left
  obtain ⟨⟨s, index, t⟩, ran, finds⟩ := left
  simp only [Bool.and_eq_true, List.all_eq_true, List.any_eq_true, decide_eq_true_eq,
    List.isEmpty_iff] at finds
  obtain ⟨earlier, removed, later⟩ := removeBetween_spec ran
  refine ⟨s, index, t, ran, finds.2, ?_⟩
  refine Projections.empty_of_runs sound_empty (by decide) earlier (fun call here gid placed => ?_)
    removed later
  rw [finds.1 call here] at placed
  cases placed

private def lookUp : List ProjectionEvent :=
  [.addRepo "A" removableCaller, .addRepo "B" {}, .projectNodes "A" none none, .projectEdges "A",
    .advance 0 none, .advance 0 none, .advance 0 none]

private theorem lookUp_left :
    (removeBetween lookUp runToEnd).any (fun run => run.2.2.calls.all EdgeCall.ended &&
      (nodesOf run.2.2.index.backend).any fun n => decide (InRepo "B" n.id)) = true := by
  decide +kernel

/-- The lock alone does not keep a repository removed: a call may outlive the removal. -/
theorem Projections.empty_of_runs_fails :
    ¬ ∀ (start s t : Projections) (before after : List ProjectionEvent) (id : RepoId)
        (failure : Option LainError) (index : FederatedIndex),
      start.Sound → repoIdNew id = some id →
      Runs plainStep (fun _ _ => True) start before s →
      s.index.removeRepo id failure = some (index, .ok ()) →
      Runs plainStep (fun _ event => ¬ event.Adds id) { s with index } after t →
      (∀ call ∈ t.calls, call.ended = true) →
      ∀ n ∈ nodesOf t.index.backend, ¬ InRepo id n.id := by
  intro claim
  have left := lookUp_left
  rw [Option.any_eq_true] at left
  obtain ⟨⟨s, index, t⟩, ran, finds⟩ := left
  simp only [Bool.and_eq_true, List.all_eq_true, List.any_eq_true, decide_eq_true_eq] at finds
  obtain ⟨ended, n, member, own⟩ := finds
  obtain ⟨earlier, removed, later⟩ := removeBetween_spec ran
  exact claim _ s t _ _ "B" none index sound_empty (by decide) earlier removed later ended n member
    own

end Lain.Federation
