import Lain.Graph.Database
import Lain.Foundation.Retrace
import Mathlib.Data.Set.Basic

/-!
# The graph a database stands for

A view forgets slots, indexes and duplicate edges: a payload for every id and a
set of edge identities.
-/

namespace Lain.Graph

open Foundation

@[ext]
structure View where
  nodes : String → Option GraphNode
  edges : Set EdgeKey

def hydrate (existing : Option GraphNode) (node : GraphNode) : GraphNode :=
  match existing with
  | none => node
  | some old => if node.isHydrated || !old.isHydrated then node else old

namespace View

def Anchors (v : View) (key : EdgeKey) : Prop :=
  (v.nodes key.sourceId).isSome = true ∧ (v.nodes key.targetId).isSome = true

/-- The effect of a logged operation. An edge with a missing endpoint is skipped. -/
def apply (v : View) : GraphOp → View
  | .upsertNode node =>
    { nodes := fun id => if id = node.id then some (hydrate (v.nodes id) node) else v.nodes id
      edges := v.edges }
  | .upsertEdge edge =>
    { nodes := v.nodes
      edges := {key | key ∈ v.edges ∨ key = edgeIdentityKey edge ∧ v.Anchors key} }
  | .removeNodesByIds ids =>
    { nodes := fun id => if id ∈ ids then none else v.nodes id
      edges := {key | key ∈ v.edges ∧ key.sourceId ∉ ids ∧ key.targetId ∉ ids} }
  | .removeEdges endpoints =>
    { nodes := v.nodes
      edges := {key | key ∈ v.edges ∧ key.triple ∉ endpoints} }
  | .commitIndexMap _ => v

def Removes : GraphOp → String → Prop
  | .removeNodesByIds ids, id => id ∈ ids
  | _, _ => False

def Resets : GraphOp → String → Prop
  | .upsertNode node, id => node.id = id ∧ node.isHydrated = true
  | .removeNodesByIds ids, id => id ∈ ids
  | _, _ => False

def TouchesNode : GraphOp → String → Prop
  | .upsertNode node, id => node.id = id
  | .removeNodesByIds ids, id => id ∈ ids
  | _, _ => False

def TouchesEdge : GraphOp → EdgeKey → Prop
  | .upsertEdge edge, key => edgeIdentityKey edge = key
  | .removeNodesByIds ids, key => key.sourceId ∈ ids ∨ key.targetId ∈ ids
  | .removeEdges endpoints, key => key.triple ∈ endpoints
  | _, _ => False

def hydrated (payload : Option GraphNode) : Option GraphNode :=
  payload.filter fun node => node.isHydrated

section Cells

variable {op : GraphOp} (v w : View)

theorem nodes_untouched {id : String} (untouched : ¬ TouchesNode op id) :
    (v.apply op).nodes id = v.nodes id := by
  cases op with
  | upsertNode node =>
    have other : ¬ id = node.id := fun h => untouched h.symm
    simp [apply, other]
  | removeNodesByIds ids =>
    have kept : id ∉ ids := untouched
    simp [apply, kept]
  | upsertEdge edge => rfl
  | removeEdges endpoints => rfl
  | commitIndexMap version => rfl

theorem nodes_reset {id : String} (resets : Resets op id) :
    (v.apply op).nodes id = (w.apply op).nodes id := by
  cases op with
  | upsertNode node =>
    obtain ⟨rfl, isHydrated⟩ := resets
    have fresh : ∀ existing, hydrate existing node = node := by
      intro existing
      cases existing <;> simp [hydrate, isHydrated]
    simp [apply, fresh]
  | removeNodesByIds ids =>
    have gone : id ∈ ids := resets
    simp [apply, gone]
  | upsertEdge edge => cases resets
  | removeEdges endpoints => cases resets
  | commitIndexMap version => cases resets

theorem hydrated_apply {id : String} (noReset : ¬ Resets op id) :
    hydrated ((v.apply op).nodes id) = hydrated (v.nodes id) := by
  by_cases touched : TouchesNode op id
  · cases op with
    | upsertNode node =>
      obtain rfl : node.id = id := touched
      have bare : node.isHydrated = false := by
        simpa [Resets] using noReset
      cases payload : v.nodes node.id with
      | none => simp [apply, payload, hydrate, hydrated, bare]
      | some old =>
        cases full : old.isHydrated <;>
          simp [apply, payload, hydrate, hydrated, Option.filter_some, bare, full]
    | removeNodesByIds ids => exact absurd touched noReset
    | upsertEdge edge => cases touched
    | removeEdges endpoints => cases touched
    | commitIndexMap version => cases touched
  · rw [nodes_untouched v touched]

theorem nodes_touched {id : String} (touched : TouchesNode op id)
    (agree : hydrated (v.nodes id) = hydrated (w.nodes id)) :
    (v.apply op).nodes id = (w.apply op).nodes id := by
  have upsert : ∀ (node : GraphNode) (payload : Option GraphNode),
      hydrate payload node =
        if node.isHydrated then node else (hydrated payload).getD node := by
    intro node payload
    cases payload with
    | none => cases node.isHydrated <;> rfl
    | some old =>
      cases bare : node.isHydrated <;> cases full : old.isHydrated <;>
        simp [hydrate, hydrated, Option.filter_some, bare, full]
  cases op with
  | upsertNode node =>
    obtain rfl : node.id = id := touched
    simp [apply, upsert, agree]
  | removeNodesByIds ids =>
    have gone : id ∈ ids := touched
    simp [apply, gone]
  | upsertEdge edge => cases touched
  | removeEdges endpoints => cases touched
  | commitIndexMap version => cases touched

theorem present_apply {id : String} (kept : ¬ Removes op id)
    (present : (v.nodes id).isSome = true) : ((v.apply op).nodes id).isSome = true := by
  cases op with
  | upsertNode node =>
    by_cases same : id = node.id <;> simp [apply, same, present]
  | removeNodesByIds ids =>
    have stays : id ∉ ids := kept
    simp [apply, stays, present]
  | upsertEdge edge => exact present
  | removeEdges endpoints => exact present
  | commitIndexMap version => exact present

theorem present_touched {id : String} (touched : TouchesNode op id)
    (kept : ¬ Removes op id) : ((v.apply op).nodes id).isSome = true := by
  cases op with
  | upsertNode node =>
    obtain rfl : node.id = id := touched
    simp [apply]
  | removeNodesByIds ids => exact absurd touched kept
  | upsertEdge edge => cases touched
  | removeEdges endpoints => cases touched
  | commitIndexMap version => cases touched

theorem edges_untouched {key : EdgeKey} (untouched : ¬ TouchesEdge op key) :
    key ∈ (v.apply op).edges ↔ key ∈ v.edges := by
  cases op with
  | upsertNode node => rfl
  | upsertEdge edge =>
    have other : ¬ key = edgeIdentityKey edge := fun h => untouched h.symm
    simp [apply, other]
  | removeNodesByIds ids =>
    have apart : key.sourceId ∉ ids ∧ key.targetId ∉ ids := by
      simpa [TouchesEdge, not_or] using untouched
    simp [apply, apart]
  | removeEdges endpoints =>
    have kept : key.triple ∉ endpoints := untouched
    simp [apply, kept]
  | commitIndexMap version => rfl

theorem edges_touched {key : EdgeKey} (touched : TouchesEdge op key)
    (anchored : ∀ edge, op = .upsertEdge edge → v.Anchors key ∧ w.Anchors key) :
    key ∈ (v.apply op).edges ↔ key ∈ (w.apply op).edges := by
  cases op with
  | upsertNode node => cases touched
  | upsertEdge edge =>
    obtain rfl : edgeIdentityKey edge = key := touched
    obtain ⟨left, right⟩ := anchored edge rfl
    simp [apply, left, right]
  | removeNodesByIds ids =>
    have touched : key.sourceId ∈ ids ∨ key.targetId ∈ ids := touched
    constructor
    · rintro ⟨_, source, target⟩
      exact absurd touched (not_or.mpr ⟨source, target⟩)
    · rintro ⟨_, source, target⟩
      exact absurd touched (not_or.mpr ⟨source, target⟩)
  | removeEdges endpoints =>
    have gone : key.triple ∈ endpoints := touched
    simp [apply, gone]
  | commitIndexMap version => cases touched

end Cells

def WellLogged (init : View) (history : List GraphOp) : Prop :=
  ∀ j edge, history[j]? = some (.upsertEdge edge) →
    (stateAt View.apply init history j).Anchors (edgeIdentityKey edge)

theorem WellLogged.take {init : View} {history : List GraphOp}
    (logged : WellLogged init history) (n : Nat) : WellLogged init (history.take n) := by
  intro j edge here
  have inside := (List.getElem?_eq_some_iff.mp here).1
  rw [List.length_take] at inside
  rw [List.getElem?_take_of_lt (by omega)] at here
  have anchored := logged j edge here
  unfold stateAt at anchored ⊢
  rwa [List.take_take, min_eq_left (by omega)]

structure CatchingUp (init : View) (history : List GraphOp) (j : Nat) (v : View) : Prop where
  hydrated : ∀ id, (∀ op ∈ history.drop j, ¬ Resets op id) →
    hydrated (v.nodes id) = hydrated ((stateAt View.apply init history j).nodes id)
  nodes : ∀ id, (∀ op ∈ history.drop j, ¬ TouchesNode op id) →
    v.nodes id = (stateAt View.apply init history j).nodes id
  present : ∀ id, (∀ op ∈ history.drop j, ¬ Removes op id) →
    ((stateAt View.apply init history j).nodes id).isSome = true →
      (v.nodes id).isSome = true
  edges : ∀ key, (∀ op ∈ history.drop j, ¬ TouchesEdge op key) →
    (key ∈ v.edges ↔ key ∈ (stateAt View.apply init history j).edges)

namespace CatchingUp

variable {init v : View} {history : List GraphOp} {j : Nat}

theorem refl (init : View) (history : List GraphOp) (j : Nat) :
    CatchingUp init history j (stateAt View.apply init history j) :=
  ⟨fun _ _ => rfl, fun _ _ => rfl, fun _ _ present => present, fun _ _ => Iff.rfl⟩

theorem complete (caughtUp : CatchingUp init history history.length v) :
    v = history.foldl View.apply init := by
  have rest : history.drop history.length = [] := by simp
  rw [← stateAt_length]
  refine View.ext (funext fun id => ?_) (Set.ext fun key => ?_)
  · exact caughtUp.nodes id (by simp [rest])
  · exact caughtUp.edges key (by simp [rest])

private theorem drop_cons {op : GraphOp} (here : history[j]? = some op) :
    history.drop j = op :: history.drop (j + 1) := by
  obtain ⟨bound, same⟩ := List.getElem?_eq_some_iff.mp here
  rw [List.drop_eq_getElem_cons bound, same]

theorem step (logged : WellLogged init history) {op : GraphOp}
    (here : history[j]? = some op) (caughtUp : CatchingUp init history j v) :
    CatchingUp init history (j + 1) (v.apply op) := by
  have rest := drop_cons here
  have next := stateAt_succ View.apply init here
  have all : ∀ P : GraphOp → Prop, ¬ P op → (∀ o ∈ history.drop (j + 1), ¬ P o) →
      ∀ o ∈ history.drop j, ¬ P o := by
    intro P head tail o member
    rw [rest] at member
    rcases List.mem_cons.mp member with rfl | later
    · exact head
    · exact tail o later
  refine ⟨?_, ?_, ?_, ?_⟩
  · intro id noReset
    rw [next]
    by_cases resets : Resets op id
    · rw [nodes_reset v (stateAt View.apply init history j) resets]
    · rw [hydrated_apply _ resets, hydrated_apply _ resets]
      exact caughtUp.hydrated id (all (Resets · id) resets noReset)
  · intro id untouched
    rw [next]
    by_cases touched : TouchesNode op id
    · by_cases resets : Resets op id
      · exact nodes_reset _ _ resets
      · refine nodes_touched _ _ touched (caughtUp.hydrated id ?_)
        refine all (Resets · id) resets fun o member => ?_
        -- An operation that leaves the id alone does not reset it either.
        intro resetsLater
        refine untouched o member ?_
        cases o <;> simp_all [Resets, TouchesNode]
    · rw [nodes_untouched _ touched, nodes_untouched _ touched]
      exact caughtUp.nodes id (all (TouchesNode · id) touched untouched)
  · intro id noRemoval present
    rw [next] at present
    by_cases removed : Removes op id
    · cases op with
      | removeNodesByIds ids =>
        have gone : id ∈ ids := removed
        simp [apply, gone] at present
      | upsertNode node => cases removed
      | upsertEdge edge => cases removed
      | removeEdges endpoints => cases removed
      | commitIndexMap version => cases removed
    · by_cases touched : TouchesNode op id
      · exact present_touched v touched removed
      · rw [nodes_untouched _ touched] at present ⊢
        exact caughtUp.present id (all (Removes · id) removed noRemoval) present
  · intro key untouched
    rw [next]
    by_cases touched : TouchesEdge op key
    · refine edges_touched _ _ touched fun edge isUpsert => ?_
      subst isUpsert
      obtain rfl : edgeIdentityKey edge = key := touched
      have anchored := logged j edge here
      -- The rest of the history leaves the edge alone, so it removes neither endpoint.
      have stays : ∀ id, id = edge.sourceId ∨ id = edge.targetId →
          ∀ o ∈ history.drop j, ¬ Removes o id := by
        intro id endpoint
        refine all (Removes · id) (fun removed => removed) fun o member removed => ?_
        refine untouched o member ?_
        cases o with
        | removeNodesByIds ids =>
          have gone : id ∈ ids := removed
          rcases endpoint with rfl | rfl
          · exact Or.inl gone
          · exact Or.inr gone
        | upsertNode node => cases removed
        | upsertEdge other => cases removed
        | removeEdges endpoints => cases removed
        | commitIndexMap version => cases removed
      exact ⟨⟨caughtUp.present _ (stays _ (Or.inl rfl)) anchored.1,
        caughtUp.present _ (stays _ (Or.inr rfl)) anchored.2⟩, anchored⟩
    · rw [edges_untouched _ touched, edges_untouched _ touched]
      exact caughtUp.edges key (all (TouchesEdge · key) touched untouched)

private theorem back_one (caughtUp : CatchingUp init history (j + 1) v) :
    CatchingUp init history j v := by
  cases here : history[j]? with
  | none =>
    have beyond : history.length ≤ j := List.getElem?_eq_none_iff.mp here
    have sameState : stateAt View.apply init history (j + 1) =
        stateAt View.apply init history j := by
      rw [stateAt_beyond View.apply init beyond,
        stateAt_beyond View.apply init (by omega)]
    have sameRest : history.drop (j + 1) = history.drop j := by
      rw [List.drop_of_length_le beyond, List.drop_of_length_le (by omega)]
    obtain ⟨first, second, third, fourth⟩ := caughtUp
    rw [sameRest, sameState] at *
    exact ⟨first, second, third, fourth⟩
  | some op =>
    have rest := drop_cons here
    have next := stateAt_succ View.apply init here
    have split : ∀ P : GraphOp → Prop, (∀ o ∈ history.drop j, ¬ P o) →
        ¬ P op ∧ ∀ o ∈ history.drop (j + 1), ¬ P o := by
      intro P none_
      rw [rest] at none_
      exact ⟨none_ op (by simp), fun o member => none_ o (by simp [member])⟩
    refine ⟨?_, ?_, ?_, ?_⟩
    · intro id noReset
      obtain ⟨head, tail⟩ := split (Resets · id) noReset
      rw [caughtUp.hydrated id tail, next, hydrated_apply _ head]
    · intro id untouched
      obtain ⟨head, tail⟩ := split (TouchesNode · id) untouched
      rw [caughtUp.nodes id tail, next, nodes_untouched _ head]
    · intro id noRemoval present
      obtain ⟨head, tail⟩ := split (Removes · id) noRemoval
      refine caughtUp.present id tail ?_
      rw [next]
      exact present_apply _ head present
    · intro key untouched
      obtain ⟨head, tail⟩ := split (TouchesEdge · key) untouched
      rw [caughtUp.edges key tail, next, edges_untouched _ head]

theorem back {i : Nat} (earlier : i ≤ j) (caughtUp : CatchingUp init history j v) :
    CatchingUp init history i v := by
  obtain ⟨n, rfl⟩ := Nat.exists_eq_add_of_le earlier
  clear earlier
  induction n with
  | zero => exact caughtUp
  | succ n ih => exact ih (back_one caughtUp)

end CatchingUp

theorem replay_exact {init : View} {history log : List GraphOp} {k : Nat}
    (logged : WellLogged init history) (retraces : Retraces history k log history.length) :
    log.foldl View.apply (stateAt View.apply init history k) =
      history.foldl View.apply init :=
  CatchingUp.complete
    (retraces.carries (CatchingUp init history)
      (fun _ _ _ here related => related.step logged here)
      (fun _ _ _ earlier related => related.back earlier) _
      (CatchingUp.refl init history k))

end View

end Lain.Graph
