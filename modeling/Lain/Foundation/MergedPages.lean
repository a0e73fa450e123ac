import Mathlib
import Lain.Foundation.StableSort

/-!
# Pages of sorted lists put together

The first elements of several sorted lists, put together and sorted, are found among the first
elements of each: a page of them all is a page of their pages.
-/

namespace Lain.Foundation

variable {α ι κ : Type*} [LinearOrder κ] {key : α → κ}

theorem sortByKey_filter (p : α → Bool) (l : List α) :
    sortByKey key (l.filter p) = (sortByKey key l).filter p := by
  refine eq_of_filter_eq (sorted_sortByKey key _)
    ((sorted_sortByKey key l).sublist List.filter_sublist) fun k => ?_
  rw [filter_sortByKey, List.filter_comm, List.filter_comm (l := sortByKey key l),
    filter_sortByKey]

def mergeByKey (key : α → κ) (l l' : List α) : List α :=
  l.merge l' fun a b => decide (key a ≤ key b)

theorem sorted_mergeByKey {l l' : List α} (sorted : l.Pairwise fun a b => key a ≤ key b)
    (sorted' : l'.Pairwise fun a b => key a ≤ key b) :
    (mergeByKey key l l').Pairwise fun a b => key a ≤ key b := by
  have merged := @List.pairwise_merge _ (fun a b => decide (key a ≤ key b))
    (fun _ _ _ first second => decide_eq_true ((of_decide_eq_true first).trans
      (of_decide_eq_true second)))
    (fun a b => by simpa using le_total (key a) (key b)) l l'
    (sorted.imp fun below => decide_eq_true below)
    (sorted'.imp fun below => decide_eq_true below)
  exact merged.imp fun below => of_decide_eq_true below

theorem filter_mergeByKey {l l' : List α} (sorted : l.Pairwise fun a b => key a ≤ key b) (k : κ) :
    ((mergeByKey key l l').filter fun a => decide (key a = k)) =
      (l.filter fun a => decide (key a = k)) ++ l'.filter fun a => decide (key a = k) := by
  unfold mergeByKey
  induction l generalizing l' with
  | nil => simp
  | cons a l ih =>
    obtain ⟨least, tail⟩ := List.pairwise_cons.mp sorted
    induction l' with
    | nil => simp
    | cons b l' ih' =>
      rw [List.cons_merge_cons]
      by_cases before : key a ≤ key b
      · rw [if_pos (decide_eq_true before), List.filter_cons, ih tail]
        by_cases same : key a = k <;> simp [List.filter_cons, same]
      · rw [if_neg (by simpa using before), List.filter_cons, ih']
        by_cases same : key b = k
        · -- what is taken first has a smaller key than all of the first list
          have none : (a :: l).filter (fun c => decide (key c = k)) = [] := by
            refine List.filter_eq_nil_iff.mpr fun c member => ?_
            have below := not_le.mp before
            rw [decide_eq_true_eq, ← same]
            rcases List.mem_cons.mp member with rfl | inside
            · exact below.ne'
            · exact (below.trans_le (least c inside)).ne'
          rw [none, List.nil_append, List.nil_append, List.filter_cons]
        · simp [List.filter_cons, same]

theorem sortByKey_append {l l' : List α} (sorted : l.Pairwise fun a b => key a ≤ key b) :
    sortByKey key (l ++ l') = mergeByKey key l (sortByKey key l') := by
  refine eq_of_filter_eq (sorted_sortByKey key _)
    (sorted_mergeByKey sorted (sorted_sortByKey key l')) fun k => ?_
  rw [filter_sortByKey, filter_mergeByKey sorted, filter_sortByKey, List.filter_append]

theorem take_mergeByKey {n m m' : Nat} (enough : n ≤ m) (enough' : n ≤ m') (l l' : List α) :
    (mergeByKey key (l.take m) (l'.take m')).take n = (mergeByKey key l l').take n := by
  unfold mergeByKey
  induction n generalizing m m' l l' with
  | zero => rw [List.take_zero, List.take_zero]
  | succ n ih =>
    cases m with
    | zero => exact absurd enough (Nat.not_succ_le_zero n)
    | succ m =>
    cases m' with
    | zero => exact absurd enough' (Nat.not_succ_le_zero n)
    | succ m' =>
    cases l with
    | nil =>
      simp [List.take_take, Nat.min_eq_left (Nat.le_of_succ_le_succ enough')]
    | cons a l =>
      cases l' with
      | nil => simp [List.take_take, Nat.min_eq_left (Nat.le_of_succ_le_succ enough)]
      | cons b l' =>
        have short := Nat.le_of_succ_le_succ enough
        have short' := Nat.le_of_succ_le_succ enough'
        have whole := ih short (Nat.le_succ_of_le short') l (b :: l')
        have whole' := ih (Nat.le_succ_of_le short) short' (a :: l) l'
        rw [List.take_succ_cons] at whole whole'
        rw [List.take_succ_cons, List.take_succ_cons, List.cons_merge_cons,
          List.cons_merge_cons]
        split
        · rw [List.take_succ_cons, List.take_succ_cons, whole]
        · rw [List.take_succ_cons, List.take_succ_cons, whole']

/-- **A page of lists put together is a page of their pages.** -/
theorem take_sortByKey_flatMap {n m : Nat} (enough : n ≤ m) (f : ι → List α) (l : List ι)
    (sorted : ∀ i ∈ l, (f i).Pairwise fun a b => key a ≤ key b) :
    (sortByKey key (l.flatMap fun i => (f i).take m)).take n =
      (sortByKey key (l.flatMap f)).take n := by
  induction l with
  | nil => rfl
  | cons i l ih =>
    obtain ⟨first, others⟩ := List.forall_mem_cons.mp sorted
    have page : ((f i).take m).Pairwise fun a b => key a ≤ key b :=
      first.sublist (List.take_sublist _ _)
    rw [List.flatMap_cons, List.flatMap_cons, sortByKey_append page, sortByKey_append first,
      ← take_mergeByKey enough le_rfl, ih others, List.take_take, Nat.min_self,
      take_mergeByKey enough le_rfl]

theorem le_of_notMem_take {n : Nat} {l : List α} (sorted : l.Pairwise fun a b => key a ≤ key b)
    {a b : α} (member : a ∈ l) (left : a ∉ l.take n) (shown : b ∈ l.take n) :
    key b ≤ key a := by
  rw [← List.take_append_drop n l, List.mem_append] at member
  rw [← List.take_append_drop n l, List.pairwise_append] at sorted
  exact sorted.2.2 b shown a (member.resolve_left left)

end Lain.Foundation
