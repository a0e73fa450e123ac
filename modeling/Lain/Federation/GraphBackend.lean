import Lain.Federation.RepoId
import Lain.Graph.BatchEffects

/-!
# The backend of the federation

The operations of the backend on the graph of all repositories.
-/

namespace Lain.Federation

open Foundation Lain.Graph

def andThen {α β : Type} (first : Outcome α) (next : GraphDatabase → α → Outcome β) :
    Outcome β :=
  match first with
  | .ok db value => next db value
  | .error db reason => .error db reason
  | .panicked => .panicked

def stateAfter {α : Type} : Outcome α → GraphDatabase
  | .ok db _ => db
  | .error db _ => db
  | .panicked => {}

def succeeds {α : Type} : Outcome α → Bool
  | .ok _ _ => true
  | _ => false

theorem eq_ok_of_succeeds {α : Type} {outcome : Outcome α} (done : succeeds outcome = true) :
    ∃ value, outcome = .ok (stateAfter outcome) value := by
  cases outcome with
  | ok db value => exact ⟨value, rfl⟩
  | error db reason => cases done
  | panicked => cases done

/-- The save after a mutation; `failure` is how it fails, if it does. -/
def save {α : Type} (failure : Option LainError) (db : GraphDatabase) (value : α) : Outcome α :=
  match failure with
  | none => .ok db value
  | some reason => .error db reason

def GlobalId.parseError (s : String) : LainError :=
  match Text.split s ':' with
  | [_, kind, _, _, line] =>
    if NodeType.all.any fun k => decide (k.debug = kind) then
      .invalidGlobalId s!"{s}: invalid line_start `{line}`"
    else .invalidGlobalId s!"{s}: unknown node kind `{kind}`"
  | _ => .invalidGlobalId s

namespace GraphBackend

variable (db : GraphDatabase) (failure : Option LainError)

/-- Insert or refresh nodes, whose ids must all be global. -/
def upsertNodesBatch (nodes : List GraphNode) : Outcome Unit :=
  if nodes.isEmpty then .ok db ()
  else
    match nodes.find? fun n => (GlobalId.parse n.id).isNone with
    | some n => .error db (GlobalId.parseError n.id)
    | none => andThen (db.insertNodesBatch nodes).outcome (save failure)

/-- Insert a bare node under a global id. -/
def upsertNodeGlobal (globalId : String) (kind : NodeType) (path name : String) : Outcome Unit :=
  match GlobalId.parse globalId with
  | none => .error db (GlobalId.parseError globalId)
  | some _ =>
    andThen (db.upsertNode { id := globalId, nodeType := kind, name, path }).outcome
      (save failure)

/-- Insert edges between present nodes. -/
def upsertEdgesBatch (edges : List GraphEdge) : Outcome Unit :=
  if edges.isEmpty then .ok db ()
  else andThen (db.upsertEdgesBatchStrict edges).outcome (save failure)

/-- Remove nodes; the graph is saved if one was there. -/
def removeNodes (globalIds : List String) : Outcome Nat :=
  andThen (db.removeNodesByIds globalIds).outcome fun after removed =>
    if 0 < removed then save failure after removed else .ok after removed

/-- Remove the edges that share a triple with a given one; the graph is saved if one
was there. -/
def removeEdges (edges : List GraphEdge) : Outcome Nat :=
  andThen (db.removeEdges edges).outcome fun after removed =>
    if 0 < removed then save failure after removed else .ok after removed

end GraphBackend

/-! ### What a call leaves -/

section Effects

variable {db : GraphDatabase} (failure : Option LainError)

theorem save_cases {α : Type} (db : GraphDatabase) (value : α) :
    save failure db value = .ok db value ∨
      ∃ reason, failure = some reason ∧ save failure db value = .error db reason := by
  cases failure with
  | none => exact Or.inl rfl
  | some reason => exact Or.inr ⟨reason, rfl, rfl⟩

def withoutTriples (edges stored : List GraphEdge) : List GraphEdge :=
  stored.filter fun e => !(edges.map GraphEdge.triple).contains e.triple

theorem GraphBackend.removeEdges_spec (consistent : Consistent db) (edges : List GraphEdge) :
    (∃ reason, GraphBackend.removeEdges db failure edges = .error db reason) ∨
    ∃ db', EdgesBecome db (withoutTriples edges db.edges) db' ∧
      ((∃ removed, GraphBackend.removeEdges db failure edges = .ok db' removed) ∨
        ∃ reason, GraphBackend.removeEdges db failure edges = .error db' reason) := by
  unfold GraphBackend.removeEdges GraphDatabase.removeEdges
  by_cases readOnly : db.readOnly = true
  · rw [if_pos readOnly]
    exact Or.inl ⟨_, rfl⟩
  · rw [if_neg readOnly]
    refine Or.inr ⟨_, consistent.retract_edges _, ?_⟩
    simp only [andThen]
    split
    · rcases save_cases failure (db.retract (edges.map GraphEdge.triple))
        (db.graph.arcs.length - (db.retract (edges.map GraphEdge.triple)).graph.arcs.length)
        with done | ⟨reason, _, failed⟩
      · exact Or.inl ⟨_, done⟩
      · exact Or.inr ⟨reason, failed⟩
    · exact Or.inl ⟨_, rfl⟩

theorem GraphBackend.upsertEdgesBatch_spec (consistent : Consistent db) (edges : List GraphEdge) :
    (∃ reason, GraphBackend.upsertEdgesBatch db failure edges = .error db reason) ∨
    ∃ db', EdgesBecome db (db.edges ++ freshEdges db.storedKeys edges) db' ∧
      (GraphBackend.upsertEdgesBatch db failure edges = .ok db' () ∨
        ∃ reason, GraphBackend.upsertEdgesBatch db failure edges = .error db' reason) := by
  unfold GraphBackend.upsertEdgesBatch
  split
  next empty =>
      rw [List.isEmpty_iff.mp empty]
      exact Or.inr ⟨db, ⟨consistent, rfl, fun _ => rfl, (List.append_nil _).symm⟩, Or.inl rfl⟩
  · rcases consistent.upsertEdgesBatchStrict_spec edges with ⟨db', done, become⟩ | ⟨reason, failed⟩
    · refine Or.inr ⟨db', become, ?_⟩
      rw [done]
      rcases save_cases failure db' () with saved | ⟨reason, _, unsaved⟩
      · exact Or.inl saved
      · exact Or.inr ⟨reason, unsaved⟩
    · rw [failed]
      exact Or.inl ⟨reason, rfl⟩

end Effects

/-! ### Which nodes a call leaves -/

section Presence

variable {db : GraphDatabase} (failure : Option LainError)

theorem andThen_all {α β : Type} {P Q : GraphDatabase → Prop} {first : Outcome α}
    {next : GraphDatabase → α → Outcome β} (done : first.All P) (weaker : ∀ db, P db → Q db)
    (later : ∀ db value, P db → (next db value).All Q) : (andThen first next).All Q := by
  cases first with
  | ok db value => exact later db value done
  | error db reason => exact weaker db done
  | panicked => exact done

theorem save_all {α : Type} {P : GraphDatabase → Prop} {db : GraphDatabase} (holds : P db)
    (value : α) : (save failure db value).All P := by
  cases failure <;> exact holds

def GrowsBy (db : GraphDatabase) (ids : List String) (db' : GraphDatabase) : Prop :=
  Consistent db' ∧ ∀ id, db'.hasNode id = true → db.hasNode id = true ∨ id ∈ ids

theorem GrowsBy.refl (consistent : Consistent db) (ids : List String) : GrowsBy db ids db :=
  ⟨consistent, fun _ here => Or.inl here⟩

theorem growsBy_of_steps {db db' : GraphDatabase} {ops : List GraphOp} {ids : List String}
    (consistent : Consistent db) (steps : Steps db ops db')
    (brings : ∀ n, .upsertNode n ∈ ops → n.id ∈ ids) : GrowsBy db ids db' := by
  refine ⟨steps.consistent, fun id here => ?_⟩
  rw [steps.consistent.hasNode_eq] at here
  rw [consistent.hasNode_eq]
  have present : (((ops.foldl View.apply (viewOf db)).nodes id).isSome) = true := by
    rw [← steps.view]
    exact here
  have before : ((viewOf db).nodes id).isSome = true ∨ id ∈ ids := by
    clear steps here
    generalize viewOf db = v at present ⊢
    induction ops generalizing v with
    | nil => exact Or.inl present
    | cons op later ih =>
      refine (ih (fun n member => brings n (List.mem_cons_of_mem _ member)) _ present).elim
        (fun middle => ?_) Or.inr
      by_cases touched : View.TouchesNode op id
      · cases op with
        | upsertNode n =>
          obtain rfl : n.id = id := touched
          exact Or.inr (brings n List.mem_cons_self)
        | removeNodesByIds ids =>
          have gone : id ∈ ids := touched
          simp [View.apply, gone] at middle
        | upsertEdge edge => cases touched
        | removeEdges endpoints => cases touched
        | commitIndexMap version => cases touched
      · rw [View.nodes_untouched v touched] at middle
        exact Or.inl middle
  exact before

theorem growsBy_of_refines {α : Type} {call : Call α} {ids : List String}
    (consistent : Consistent db) (refines : Refines db call)
    (brings : ∀ n, .upsertNode n ∈ call.logged → n.id ∈ ids) :
    call.outcome.All (GrowsBy db ids) := by
  obtain ⟨logged, outcome⟩ := call
  cases outcome with
  | ok db' value => exact growsBy_of_steps consistent refines.1 brings
  | error db' reason => exact growsBy_of_steps consistent refines.1 brings
  | panicked => exact refines

namespace GraphBackend

theorem upsertNodesBatch_growsBy (consistent : Consistent db) (nodes : List GraphNode) :
    (upsertNodesBatch db failure nodes).All (GrowsBy db (nodes.map GraphNode.id)) := by
  unfold upsertNodesBatch
  split
  · exact GrowsBy.refl consistent _
  · split
    · exact GrowsBy.refl consistent _
    · refine andThen_all (growsBy_of_refines consistent (consistent.insertNodesBatch nodes) ?_)
        (fun _ => id) fun _ value grows => save_all failure grows value
      intro n logged
      unfold GraphDatabase.insertNodesBatch at logged
      split at logged
      · cases logged
      · obtain ⟨m, member, same⟩ := List.mem_map.mp logged
        cases same
        exact List.mem_map_of_mem member

theorem upsertNodeGlobal_growsBy (consistent : Consistent db) (globalId : String)
    (kind : NodeType) (path name : String) :
    (upsertNodeGlobal db failure globalId kind path name).All (GrowsBy db [globalId]) := by
  unfold upsertNodeGlobal
  split
  · exact GrowsBy.refl consistent _
  · refine andThen_all (growsBy_of_refines consistent (consistent.upsertNode _) ?_)
      (fun _ => id) fun _ value grows => save_all failure grows value
    intro n logged
    unfold GraphDatabase.upsertNode at logged
    split at logged
    · cases logged
    · cases List.mem_singleton.mp logged
      exact List.mem_singleton_self _

theorem removeNodes_growsBy (consistent : Consistent db) (globalIds : List String) :
    (removeNodes db failure globalIds).All (GrowsBy db []) := by
  refine andThen_all (growsBy_of_refines consistent (consistent.removeNodesByIds globalIds) ?_)
    (fun _ => id) fun _ removed grows => ?_
  · intro n logged
    unfold GraphDatabase.removeNodesByIds at logged
    split at logged
    · cases logged
    · cases List.mem_singleton.mp logged
  · split
    · exact save_all failure grows removed
    · exact grows

theorem removeEdges_growsBy (consistent : Consistent db) (edges : List GraphEdge) :
    (removeEdges db failure edges).All (GrowsBy db []) := by
  refine andThen_all (growsBy_of_refines consistent (consistent.removeEdges edges) ?_)
    (fun _ => id) fun _ removed grows => ?_
  · intro n logged
    unfold GraphDatabase.removeEdges at logged
    split at logged
    · cases logged
    · cases List.mem_singleton.mp logged
  · split
    · exact save_all failure grows removed
    · exact grows

theorem upsertEdgesBatch_growsBy (consistent : Consistent db) (edges : List GraphEdge) :
    (upsertEdgesBatch db failure edges).All (GrowsBy db []) := by
  unfold upsertEdgesBatch
  split
  · exact GrowsBy.refl consistent _
  · refine andThen_all
      (growsBy_of_refines consistent (consistent.upsertEdgesBatchStrict edges) ?_)
      (fun _ => id) fun _ value grows => save_all failure grows value
    intro n logged
    unfold GraphDatabase.upsertEdgesBatchStrict at logged
    split at logged
    · cases logged
    · split at logged
      · cases logged
      · obtain ⟨entry, -, same⟩ := List.mem_map.mp logged
        cases same

theorem hasNode_of_removeNodes (consistent : Consistent db) {globalIds : List String}
    {db' : GraphDatabase} {removed : Nat}
    (done : removeNodes db failure globalIds = .ok db' removed) {id : String}
    (here : db'.hasNode id = true) : db.hasNode id = true ∧ id ∉ globalIds := by
  have refines := consistent.removeNodesByIds globalIds
  unfold removeNodes at done
  unfold GraphDatabase.removeNodesByIds at done refines
  split at done
  · cases done
  next writable =>
      rw [if_neg writable] at refines
      obtain ⟨steps, -⟩ := refines
      simp only [andThen] at done
      have after : Steps db [.removeNodesByIds globalIds] db' := by
        split at done
        · cases failure with
          | none =>
            cases done
            exact steps
          | some reason => cases done
        · cases done
          exact steps
      have viewed := congrFun (congrArg View.nodes after.view) id
      change db'.getNode id = if id ∈ globalIds then none else db.getNode id at viewed
      rw [after.consistent.hasNode_eq, viewed] at here
      rw [consistent.hasNode_eq]
      split at here
      · cases here
      next other => exact ⟨here, other⟩

end GraphBackend

end Presence

end Lain.Federation
