import Mathlib.Data.List.Basic
import Mathlib.Data.List.Count
import Mathlib.Data.List.Induction
import Mathlib.Data.List.Nodup

/-!
# Representatives

Of the elements of a list that share a key, the first or the last stands for
all.
-/

namespace Lain.Foundation

variable {α β κ : Type*} [DecidableEq κ]

def lastPer (key : α → κ) : List α → List α
  | [] => []
  | a :: rest => if rest.any fun b => decide (key b = key a) then lastPer key rest
      else a :: lastPer key rest

def firstPer (key : α → κ) (l : List α) : List α :=
  (lastPer key l.reverse).reverse

variable {key : α → κ}

theorem mem_of_mem_lastPer {a : α} {l : List α} (member : a ∈ lastPer key l) : a ∈ l := by
  induction l with
  | nil => exact member
  | cons b rest ih =>
    rw [lastPer] at member
    split at member
    · exact List.mem_cons_of_mem _ (ih member)
    · rcases List.mem_cons.mp member with rfl | later
      · exact List.mem_cons_self
      · exact List.mem_cons_of_mem _ (ih later)

theorem mem_lastPer {a : α} {l : List α} :
    a ∈ lastPer key l ↔ (l.reverse.find? fun b => decide (key b = key a)) = some a := by
  induction l with
  | nil => simp [lastPer]
  | cons b rest ih =>
    rw [lastPer, List.reverse_cons, List.find?_append]
    by_cases again : (rest.any fun c => decide (key c = key b)) = true
    · rw [if_pos again, ih]
      refine ⟨fun found => by rw [found]; rfl, fun found => ?_⟩
      cases early : rest.reverse.find? fun c => decide (key c = key a) with
      | some c =>
        rw [early] at found
        exact found
      | none =>
        rw [early, Option.none_or] at found
        have here := List.find?_some found
        obtain rfl := List.mem_singleton.mp (List.mem_of_find?_eq_some found)
        obtain ⟨c, member, same⟩ := List.any_eq_true.mp again
        exact absurd same (List.find?_eq_none.mp early c (List.mem_reverse.mpr member))
    · rw [if_neg again, List.mem_cons, ih]
      constructor
      · rintro (rfl | later)
        · have absent : (rest.reverse.find? fun c => decide (key c = key a)) = none := by
            refine List.find?_eq_none.mpr fun c member same => again ?_
            exact List.any_eq_true.mpr ⟨c, List.mem_reverse.mp member, same⟩
          rw [absent]
          simp
        · rw [later]
          rfl
      · intro found
        cases early : rest.reverse.find? fun c => decide (key c = key a) with
        | some c =>
          rw [early] at found
          exact Or.inr found
        | none =>
          rw [early, Option.none_or] at found
          exact Or.inl (List.mem_singleton.mp (List.mem_of_find?_eq_some found))

theorem mem_firstPer {a : α} {l : List α} :
    a ∈ firstPer key l ↔ (l.find? fun b => decide (key b = key a)) = some a := by
  rw [firstPer, List.mem_reverse, mem_lastPer, List.reverse_reverse]

theorem mem_of_mem_firstPer {a : α} {l : List α} (first : a ∈ firstPer key l) : a ∈ l :=
  List.mem_of_find?_eq_some (mem_firstPer.mp first)

theorem mem_map_firstPer {k : κ} {l : List α} : k ∈ (firstPer key l).map key ↔ k ∈ l.map key := by
  rw [List.mem_map, List.mem_map]
  constructor
  · rintro ⟨a, first, rfl⟩
    exact ⟨a, mem_of_mem_firstPer first, rfl⟩
  · rintro ⟨a, member, rfl⟩
    cases found : l.find? fun b => decide (key b = key a) with
    | none => exact absurd (decide_eq_true rfl) (List.find?_eq_none.mp found a member)
    | some b =>
      have same : key b = key a := by simpa using List.find?_some found
      exact ⟨b, mem_firstPer.mpr (same ▸ found), same⟩

theorem nodup_lastPer (key : α → κ) (l : List α) : ((lastPer key l).map key).Nodup := by
  induction l with
  | nil => exact List.nodup_nil
  | cons a rest ih =>
    rw [lastPer]
    split
    next => exact ih
    next fresh =>
        rw [List.map_cons, List.nodup_cons]
        refine ⟨fun member => fresh ?_, ih⟩
        obtain ⟨b, later, same⟩ := List.mem_map.mp member
        exact List.any_eq_true.mpr ⟨b, mem_of_mem_lastPer later, decide_eq_true same⟩

theorem nodup_firstPer (key : α → κ) (l : List α) : ((firstPer key l).map key).Nodup := by
  rw [firstPer, List.map_reverse, List.nodup_reverse]
  exact nodup_lastPer key l.reverse

theorem firstPer_concat (l : List α) (a : α) :
    firstPer key (l ++ [a]) =
      if key a ∈ l.map key then firstPer key l else firstPer key l ++ [a] := by
  have before : (l.reverse.any fun b => decide (key b = key a)) = true ↔ key a ∈ l.map key := by
    rw [List.any_reverse, List.any_eq_true, List.mem_map]
    simp only [decide_eq_true_eq]
  unfold firstPer
  rw [List.reverse_append, List.reverse_singleton, List.singleton_append, lastPer]
  by_cases again : key a ∈ l.map key
  · rw [if_pos (before.mpr again), if_pos again]
  · rw [if_neg (again ∘ before.mp), if_neg again, List.reverse_cons]

/-- **Putting results in front**, each in the place of those it overrides. -/
theorem foldl_overriding {result : α → β} {overrides : α → β → Bool}
    (own : ∀ a b, overrides a (result b) = decide (key b = key a)) (l : List α) :
    ∀ old : List β,
      l.foldl (fun out a => result a :: out.filter fun r => !overrides a r) old =
        (lastPer key l).reverse.map result ++
          old.filter fun r => !l.any fun a => overrides a r := by
  induction l with
  | nil => simp [lastPer]
  | cons a rest ih =>
    intro old
    rw [List.foldl_cons, ih, List.filter_cons, List.filter_filter, lastPer]
    have kept : (!rest.any fun b => overrides b (result a)) =
        !rest.any fun b => decide (key b = key a) := by
      simp only [own, eq_comm]
    have left : (old.filter fun r => (!rest.any fun b => overrides b r) && !overrides a r) =
        old.filter fun r => !(a :: rest).any fun b => overrides b r := by
      refine List.filter_congr fun r _ => ?_
      rw [List.any_cons, Bool.not_or, Bool.and_comm]
    rw [kept, left]
    by_cases again : (rest.any fun b => decide (key b = key a)) = true
    · simp [again]
    · simp [again]

theorem filter_map_eq_iff [DecidableEq β] {f : α → β} {p : β → Bool} {q : α → Bool}
    {l : List α} :
    (l.map f).filter p = (l.filter q).map f ↔ ∀ a ∈ l, p (f a) = q a := by
  constructor
  · intro same a member
    -- Of the elements that `f` sends where it sends `a`, all or none are kept.
    have kept : List.count (f a) ((l.filter q).map f) =
        ((l.filter fun b => f b == f a).filter q).length := by
      rw [List.count_eq_countP, List.countP_map, List.countP_eq_length_filter, List.filter_filter,
        List.filter_filter]
      refine congrArg List.length (List.filter_congr fun b _ => ?_)
      simp [Bool.and_comm]
    have counts := congrArg (List.count (f a)) same
    rw [kept] at counts
    have here : a ∈ l.filter fun b => f b == f a :=
      List.mem_filter.mpr ⟨member, beq_self_eq_true _⟩
    cases accepted : p (f a) with
    | true =>
      have whole : List.count (f a) ((l.map f).filter p) =
          (l.filter fun b => f b == f a).length := by
        rw [List.count_filter accepted, List.count_eq_countP, List.countP_map,
          List.countP_eq_length_filter]
        rfl
      exact (List.length_filter_eq_length_iff.mp (counts.symm.trans whole) a here).symm
    | false =>
      have none : List.count (f a) ((l.map f).filter p) = 0 := by
        refine List.count_eq_zero.mpr fun found => ?_
        rw [List.mem_filter, accepted] at found
        cases found.2
      rw [none] at counts
      have empty := List.length_eq_zero_iff.mp counts.symm
      have refused := List.filter_eq_nil_iff.mp empty a here
      exact (Bool.not_eq_true _ ▸ refused : q a = false).symm
  · intro agree
    rw [List.filter_map]
    exact congrArg _ (List.filter_congr agree)

end Lain.Foundation
