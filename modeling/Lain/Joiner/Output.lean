import Lain.Joiner.Run

/-!
# The order of the output

The binds of a join are strictly ordered by pair, so no pair occurs twice, and
every pair that was bound is among them.
-/

namespace Lain.Joiner

open Foundation Contracts Federation

theorem bindPair_eq_iff {a b : BindsEdge} :
    bindPair a = bindPair b ↔ a.consumer = b.consumer ∧ a.provider = b.provider := by
  unfold bindPair
  rw [toLex_inj, Prod.mk.injEq]

theorem keepBind_cases (last edge : BindsEdge) :
    keepBind last edge = last ∨ keepBind last edge = edge := by
  unfold keepBind
  split
  · exact Or.inr rfl
  · exact Or.inl rfl

private theorem bindPair_keepBind {last edge : BindsEdge} (same : bindPair last = bindPair edge) :
    bindPair (keepBind last edge) = bindPair last := by
  rcases keepBind_cases last edge with kept | taken
  · rw [kept]
  · rw [taken, same]

theorem dedupFrom_subset {last : BindsEdge} {later : List BindsEdge} :
    ∀ b ∈ dedupFrom last later, b ∈ last :: later := by
  induction later generalizing last with
  | nil => exact fun b member => member
  | cons edge rest ih =>
    intro b member
    rw [dedupFrom] at member
    split at member
    · rcases List.mem_cons.mp (ih b member) with rfl | old
      · rcases keepBind_cases last edge with kept | taken
        · rw [kept]
          exact List.mem_cons_self
        · rw [taken]
          exact List.mem_cons_of_mem _ List.mem_cons_self
      · exact List.mem_cons_of_mem _ (List.mem_cons_of_mem _ old)
    · rcases List.mem_cons.mp member with rfl | old
      · exact List.mem_cons_self
      · exact List.mem_cons_of_mem _ (ih b old)

theorem dedupFrom_sorted {last : BindsEdge} {later : List BindsEdge}
    (sorted : (last :: later).Pairwise fun a b => bindPair a ≤ bindPair b) :
    (dedupFrom last later).Pairwise fun a b => bindPair a < bindPair b := by
  induction later generalizing last with
  | nil => exact List.pairwise_singleton _ _
  | cons edge rest ih =>
    obtain ⟨least, tail⟩ := List.pairwise_cons.mp sorted
    obtain ⟨later, rest_⟩ := List.pairwise_cons.mp tail
    rw [dedupFrom]
    split
    next same =>
        refine ih (List.pairwise_cons.mpr ⟨fun b member => ?_, rest_⟩)
        rw [bindPair_keepBind same]
        exact least b (List.mem_cons_of_mem _ member)
    next apart =>
        refine List.pairwise_cons.mpr ⟨fun b member => ?_, ih tail⟩
        have before := lt_of_le_of_ne (least edge List.mem_cons_self) apart
        rcases List.mem_cons.mp (dedupFrom_subset b member) with rfl | old
        · exact before
        · exact before.trans_le (later b old)

theorem sortBinds_subset {binds : List BindsEdge} : ∀ b ∈ sortBinds binds, b ∈ binds := by
  intro b member
  unfold sortBinds dedupBinds at member
  split at member
  · cases member
  next first rest sorted =>
      have old := dedupFrom_subset b member
      rw [← sorted, List.mem_insertionSort] at old
      exact old

theorem sortBinds_sorted (binds : List BindsEdge) :
    (sortBinds binds).Pairwise fun a b => bindPair a < bindPair b := by
  unfold sortBinds dedupBinds
  split
  · exact List.Pairwise.nil
  next first rest sorted =>
      refine dedupFrom_sorted ?_
      rw [← sorted]
      exact List.pairwise_insertionSort _ _

theorem nodup_bindPairs (binds : List BindsEdge) : ((sortBinds binds).map bindPair).Nodup :=
  List.pairwise_map.mpr ((sortBinds_sorted binds).imp ne_of_lt)

def pick : List BindsEdge → Option BindsEdge
  | [] => none
  | first :: rest => some (rest.foldl keepBind first)

theorem pick_eq (binds : List BindsEdge) : pick binds = (binds.find? isConfirmed).or binds.head? := by
  have stays : ∀ (rest : List BindsEdge) (first : BindsEdge),
      rest.foldl keepBind first = ((first :: rest).find? isConfirmed).getD first := by
    intro rest
    induction rest with
    | nil =>
      intro first
      cases sure : isConfirmed first <;> simp [sure]
    | cons edge rest ih =>
      intro first
      rw [List.foldl_cons, ih]
      cases sure : isConfirmed first with
      | true => simp [keepBind, sure]
      | false => cases later : isConfirmed edge <;> simp [keepBind, sure, later]
  cases binds with
  | nil => rfl
  | cons first rest =>
    rw [pick, stays, List.head?_cons]
    cases (first :: rest).find? isConfirmed <;> rfl

private theorem mem_dedupFrom {last : BindsEdge} {later : List BindsEdge}
    (sorted : (last :: later).Pairwise fun a b => bindPair a ≤ bindPair b) (b : BindsEdge) :
    b ∈ dedupFrom last later ↔
      pick ((last :: later).filter fun a => decide (bindPair a = bindPair b)) = some b := by
  induction later generalizing last with
  | nil =>
    rw [dedupFrom, List.mem_singleton]
    by_cases same : bindPair last = bindPair b
    · simp [same, pick, eq_comm]
    · have apart : b ≠ last := fun h => same (h ▸ rfl)
      simp [same, pick, apart]
  | cons edge rest ih =>
    obtain ⟨least, tail⟩ := List.pairwise_cons.mp sorted
    obtain ⟨later, rest_⟩ := List.pairwise_cons.mp tail
    rw [dedupFrom]
    split
    next same =>
        have keys := bindPair_keepBind same
        rw [ih (List.pairwise_cons.mpr ⟨fun c member => ?_, rest_⟩)]
        · by_cases here : bindPair last = bindPair b
          · simp [here, keys, ← same, pick]
          · simp [here, keys, ← same]
        · rw [keys]
          exact least c (List.mem_cons_of_mem _ member)
    next apart =>
        rw [List.mem_cons, ih tail]
        have before := lt_of_le_of_ne (least edge List.mem_cons_self) apart
        have above : ∀ c ∈ edge :: rest, bindPair last < bindPair c := by
          intro c member
          rcases List.mem_cons.mp member with rfl | old
          · exact before
          · exact before.trans_le (later c old)
        by_cases here : bindPair last = bindPair b
        · have none : ((edge :: rest).filter fun a => decide (bindPair a = bindPair b)) = [] := by
            refine List.filter_eq_nil_iff.mpr fun c member same => ?_
            exact (above c member).ne (here.trans (of_decide_eq_true same).symm)
          have whole : ((last :: edge :: rest).filter fun a =>
              decide (bindPair a = bindPair b)) = [last] := by
            rw [List.filter_cons_of_pos (by simpa using here), none]
          rw [none, whole]
          simp [pick, eq_comm]
        · have other : b ≠ last := fun h => here (h ▸ rfl)
          have whole : ((last :: edge :: rest).filter fun a =>
              decide (bindPair a = bindPair b)) =
                (edge :: rest).filter fun a => decide (bindPair a = bindPair b) :=
            List.filter_cons_of_neg (by simpa using here)
          rw [whole, or_iff_right other]

private theorem filter_insertionSort (binds : List BindsEdge) (pair : String ×ₗ String) :
    (binds.insertionSort fun a b => bindPair a ≤ bindPair b).filter
        (fun a => decide (bindPair a = pair)) =
      binds.filter fun a => decide (bindPair a = pair) := by
  have alike : (binds.filter fun a => decide (bindPair a = pair)).Pairwise
      fun a b => bindPair a ≤ bindPair b := by
    refine List.pairwise_iff_forall_sublist.mpr fun {a b} two => ?_
    have members := fun c (inTwo : c ∈ [a, b]) => List.mem_filter.mp (two.subset inTwo)
    have first := of_decide_eq_true (members a (by simp)).2
    have second := of_decide_eq_true (members b (by simp)).2
    rw [first, second]
  have inside := (List.sublist_insertionSort alike List.filter_sublist).filter
    fun a => decide (bindPair a = pair)
  rw [List.filter_filter] at inside
  simp only [Bool.and_self] at inside
  exact (inside.eq_of_length
    ((List.perm_insertionSort _ binds).symm.filter _).length_eq).symm

/-- **What the output holds of each pair**: its first confirmed bind, or its first bind. -/
theorem mem_sortBinds {binds : List BindsEdge} {b : BindsEdge} :
    b ∈ sortBinds binds ↔
      pick (binds.filter fun a => decide (bindPair a = bindPair b)) = some b := by
  rw [← filter_insertionSort]
  unfold sortBinds dedupBinds
  split
  next nothing => simp [nothing, pick]
  next first rest sorted =>
      rw [sorted]
      refine mem_dedupFrom ?_ b
      rw [← sorted]
      exact List.pairwise_insertionSort _ _

end Lain.Joiner
