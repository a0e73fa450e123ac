import Mathlib.Data.List.Find
import Mathlib.Data.List.Induction
import Mathlib.Data.List.Sort

/-!
# Pairing by class

The elements of two lists have classes.
-/

namespace Lain.Foundation

variable {α β κ : Type*}

/-! ### Lists -/

theorem find?_not_mem_take [DecidableEq β] {l : List β} (distinct : l.Nodup) (k : Nat) :
    (l.find? fun x => decide (x ∉ l.take k)) = l[k]? := by
  have early : (l.take k).find? (fun x => decide (x ∉ l.take k)) = none := by
    rw [List.find?_eq_none]
    intro x member
    simpa using member
  have late : (l.drop k).find? (fun x => decide (x ∉ l.take k)) = (l.drop k).head? := by
    cases rest : l.drop k with
    | nil => rfl
    | cons x rest' =>
      refine List.find?_cons_of_pos (decide_eq_true fun before => ?_)
      refine List.disjoint_take_drop distinct le_rfl before ?_
      rw [rest]
      exact List.mem_cons_self
  conv_lhs => arg 2; rw [← List.take_append_drop k l]
  rw [List.find?_append, early, Option.none_or, late, List.head?_drop]

theorem zip_concat (l : List α) (a : α) (m : List β) :
    (l ++ [a]).zip m = l.zip m ++ (m[l.length]?.map (a, ·)).toList := by
  induction l generalizing m with
  | nil => cases m <;> rfl
  | cons b l ih =>
    cases m with
    | nil => rfl
    | cons x m => simp [ih m]

theorem map_snd_zip_eq_take (l : List α) (m : List β) :
    (l.zip m).map Prod.snd = m.take l.length := by
  induction l generalizing m with
  | nil => simp
  | cons a l ih =>
    cases m with
    | nil => rfl
    | cons x m => simp [ih m]

theorem eq_of_map_eq_of_filter_eq [DecidableEq κ] {g : β → κ} {l m : List β}
    (classes : l.map g = m.map g)
    (each : ∀ c, (l.filter fun x => decide (g x = c)) = m.filter fun x => decide (g x = c)) :
    l = m := by
  induction l generalizing m with
  | nil => exact (List.map_eq_nil_iff.mp classes.symm).symm
  | cons x l ih =>
    cases m with
    | nil => cases classes
    | cons y m =>
      obtain ⟨same, later⟩ := List.cons.inj classes
      have first := each (g x)
      rw [List.filter_cons_of_pos (by simp), List.filter_cons_of_pos (by simp [same])] at first
      obtain ⟨rfl, -⟩ := List.cons.inj first
      refine congrArg _ (ih later fun c => ?_)
      have here := each c
      rw [List.filter_cons, List.filter_cons] at here
      split at here
      · exact (List.cons.inj here).2
      · exact here

/-! ### Pairing -/

section Pairing

variable [DecidableEq κ] [DecidableEq β] (f : α → κ) (g : β → κ)

def pairNext (bs : List β) (pairs : List (α × β)) (a : α) : List (α × β) :=
  match bs.find? fun b => decide (f a = g b) && decide (b ∉ pairs.map Prod.snd) with
  | some b => pairs ++ [(a, b)]
  | none => pairs

def pairByClass (as : List α) (bs : List β) : List (α × β) :=
  as.foldl (pairNext f g bs) []

variable {f g} {as : List α} {bs : List β}

theorem pairNext_of {pairs : List (α × β)} {a : α} {p : β → Bool} {partner : Option β}
    (same : ∀ b ∈ bs, p b = true ↔ f a = g b ∧ b ∉ pairs.map Prod.snd)
    (found : bs.find? p = partner) :
    pairNext f g bs pairs a = partner.elim pairs fun b => pairs ++ [(a, b)] := by
  have tests : (bs.find? fun b => decide (f a = g b) && decide (b ∉ pairs.map Prod.snd)) =
      bs.find? p := by
    refine List.find?_congr fun b member => ?_
    rw [Bool.eq_iff_iff, same b member, Bool.and_eq_true, decide_eq_true_eq, decide_eq_true_eq]
  unfold pairNext
  rw [tests, found]
  cases partner <;> rfl

theorem pairByClass_concat (as : List α) (a : α) :
    pairByClass f g (as ++ [a]) bs = pairNext f g bs (pairByClass f g as bs) a := by
  unfold pairByClass
  rw [List.foldl_append]
  rfl

theorem class_of_mem_pairByClass {p : α × β} (member : p ∈ pairByClass f g as bs) :
    f p.1 = g p.2 := by
  induction as using List.reverseRecOn with
  | nil => cases member
  | append_singleton as a ih =>
    rw [pairByClass_concat] at member
    unfold pairNext at member
    split at member
    next b found =>
        rcases List.mem_append.mp member with before | last
        · exact ih before
        · have passes := List.find?_some found
          rw [Bool.and_eq_true, decide_eq_true_eq] at passes
          rw [List.mem_singleton.mp last]
          exact passes.1
    · exact ih member

theorem find?_pairNext (distinct : bs.Nodup) {pairs : List (α × β)} {a : α}
    (classes : ∀ p ∈ pairs, f p.1 = g p.2)
    (own : (pairs.filter fun p => decide (f p.1 = f a)) =
      (as.filter fun x => decide (f x = f a)).zip (bs.filter fun b => decide (g b = f a))) :
    (bs.find? fun b => decide (f a = g b) && decide (b ∉ pairs.map Prod.snd)) =
      (bs.filter fun b => decide (g b = f a))[(as.filter fun x => decide (f x = f a)).length]? := by
  rw [← find?_not_mem_take (distinct.filter _), List.find?_filter]
  refine List.find?_congr fun b member => ?_
  rw [Bool.eq_iff_iff, Bool.and_eq_true, decide_eq_true_eq, decide_eq_true_eq, decide_eq_true_eq,
    decide_eq_true_eq, decide_eq_true_eq, @eq_comm _ (f a)]
  refine and_congr_right fun here => not_congr ?_
  rw [← map_snd_zip_eq_take, ← own, List.mem_map, List.mem_map]
  constructor
  · rintro ⟨p, paired, rfl⟩
    exact ⟨p, List.mem_filter.mpr ⟨paired, decide_eq_true ((classes p paired).trans here)⟩, rfl⟩
  · rintro ⟨p, paired, rfl⟩
    exact ⟨p, (List.mem_filter.mp paired).1, rfl⟩

/-- **Within a class the elements are paired one by one.** -/
theorem filter_pairByClass (distinct : bs.Nodup) (c : κ) :
    ((pairByClass f g as bs).filter fun p => decide (f p.1 = c)) =
      (as.filter fun a => decide (f a = c)).zip (bs.filter fun b => decide (g b = c)) := by
  induction as using List.reverseRecOn generalizing c with
  | nil => rfl
  | append_singleton as a ih =>
    have next := find?_pairNext distinct (fun p => class_of_mem_pairByClass) (ih (f a))
    rw [pairByClass_concat, List.filter_append]
    unfold pairNext
    rw [next]
    by_cases here : f a = c
    · subst here
      rw [List.filter_singleton, decide_eq_true rfl]
      change _ = (_ ++ [a]).zip _
      rw [zip_concat, ← ih (f a)]
      cases (bs.filter fun b => decide (g b = f a))[
          (as.filter fun x => decide (f x = f a)).length]? with
      | none => simp
      | some b => simp
    · rw [List.filter_singleton, decide_eq_false here]
      change _ = (_ ++ []).zip _
      rw [List.append_nil, ← ih c]
      cases (bs.filter fun b => decide (g b = f a))[
          (as.filter fun x => decide (f x = f a)).length]? with
      | none => rfl
      | some b => simp [here]

/-- **The pairs are those of the classes.** -/
theorem mem_pairByClass (distinct : bs.Nodup) {p : α × β} :
    p ∈ pairByClass f g as bs ↔
      p ∈ (as.filter fun a => decide (f a = f p.1)).zip
        (bs.filter fun b => decide (g b = f p.1)) := by
  rw [← filter_pairByClass distinct, List.mem_filter, decide_eq_true rfl]
  simp

theorem map_fst_pairByClass_sublist : ((pairByClass f g as bs).map Prod.fst).Sublist as := by
  induction as using List.reverseRecOn with
  | nil => exact List.Sublist.refl _
  | append_singleton as a ih =>
    rw [pairByClass_concat]
    unfold pairNext
    split
    · rw [List.map_append]
      exact ih.append_right _
    · exact ih.trans (List.sublist_append_left _ _)

theorem nodup_map_snd_pairByClass : ((pairByClass f g as bs).map Prod.snd).Nodup := by
  induction as using List.reverseRecOn with
  | nil => exact List.nodup_nil
  | append_singleton as a ih =>
    rw [pairByClass_concat]
    unfold pairNext
    split
    next b found =>
        have passes := List.find?_some found
        rw [Bool.and_eq_true, decide_eq_true_eq, decide_eq_true_eq] at passes
        rw [List.map_append, List.nodup_append]
        refine ⟨ih, List.nodup_singleton b, fun x before y last same => ?_⟩
        rw [List.map_singleton, List.mem_singleton] at last
        rw [same, last] at before
        exact passes.2 before
    · exact ih

end Pairing

/-! ### Crossing -/

section Crossing

variable [LinearOrder α] [LinearOrder β] [DecidableEq β] [DecidableEq κ] {f : α → κ} {g : β → κ} {as : List α}
  {bs : List β}

def Uncrossed (pairs : List (α × β)) : Prop :=
  ∀ p ∈ pairs, ∀ q ∈ pairs, p.1 < q.1 → p.2 < q.2

omit [LinearOrder α] in
theorem pairwise_filter_pairByClass (sortedBs : bs.Pairwise (· < ·)) (c : κ) :
    ((((pairByClass f g as bs).map Prod.snd).filter fun b => decide (g b = c))).Pairwise
      (· < ·) := by
  have classes : (((pairByClass f g as bs).map Prod.snd).filter fun b => decide (g b = c)) =
      ((pairByClass f g as bs).filter fun p => decide (f p.1 = c)).map Prod.snd := by
    rw [List.filter_map]
    refine congrArg _ (List.filter_congr fun p member => ?_)
    rw [Function.comp_apply, class_of_mem_pairByClass member]
  rw [classes, filter_pairByClass (sortedBs.imp ne_of_lt), map_snd_zip_eq_take]
  exact (sortedBs.filter _).sublist (List.take_sublist _ _)

omit [DecidableEq β] [DecidableEq κ] in
theorem uncrossed_iff {pairs : List (α × β)} (firsts : (pairs.map Prod.fst).Pairwise (· < ·)) :
    Uncrossed pairs ↔ (pairs.map Prod.snd).Pairwise (· < ·) := by
  rw [List.pairwise_map] at firsts ⊢
  constructor
  · exact fun uncrossed => firsts.imp_of_mem fun here there less => uncrossed _ here _ there less
  · intro seconds
    have later : pairs.Pairwise fun p q => p.1 < q.1 → p.2 < q.2 := by
      refine seconds.imp ?_
      intro p q less _
      exact less
    have back : pairs.Pairwise (flip fun p q => p.1 < q.1 → p.2 < q.2) := by
      refine firsts.imp ?_
      intro p q less more
      exact absurd more less.asymm
    exact fun p here q there => later.forall_of_forall_of_flip
      (fun _ _ less => absurd less (lt_irrefl _)) back here there

theorem zip_sorted_iff (sortedAs : as.Pairwise (· < ·)) (sortedBs : bs.Pairwise (· < ·))
    {seconds : List β} (same : seconds.Perm ((pairByClass f g as bs).map Prod.snd))
    (sorted : seconds.Pairwise (· < ·)) :
    (∀ p ∈ ((pairByClass f g as bs).map Prod.fst).zip seconds, f p.1 = g p.2) ↔
      Uncrossed (pairByClass f g as bs) := by
  rw [uncrossed_iff (sortedAs.sublist map_fst_pairByClass_sublist)]
  constructor
  · intro agree
    have lengths : ((pairByClass f g as bs).map Prod.fst).length = seconds.length := by
      rw [same.length_eq, List.length_map, List.length_map]
    have classes : ((pairByClass f g as bs).map Prod.fst).map f = seconds.map g := by
      rw [← List.forall₂_eq_eq_eq, List.forall₂_map_left_iff, List.forall₂_map_right_iff,
        List.forall₂_iff_zip]
      exact ⟨lengths, fun member => agree _ member⟩
    have own : ((pairByClass f g as bs).map Prod.fst).map f =
        ((pairByClass f g as bs).map Prod.snd).map g := by
      rw [List.map_map, List.map_map]
      exact List.map_congr_left fun p member => class_of_mem_pairByClass member
    have whole := eq_of_map_eq_of_filter_eq (classes.symm.trans own) fun c =>
      (same.filter _).eq_of_pairwise (fun x y _ _ less more => absurd more less.asymm)
        (sorted.filter _) (pairwise_filter_pairByClass sortedBs c)
    exact whole ▸ sorted
  · intro ordered
    have whole := same.eq_of_pairwise (fun x y _ _ less more => absurd more less.asymm) sorted
      ordered
    rw [whole, List.zip_map']
    intro p member
    obtain ⟨q, paired, rfl⟩ := List.mem_map.mp member
    exact class_of_mem_pairByClass paired

end Crossing

end Lain.Foundation
