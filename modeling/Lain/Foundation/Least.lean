import Mathlib

/-!
# Keeping the least

From candidates that come one after another the first of the least rank is kept, in one place
or in a place for each key.
-/

namespace Lain.Foundation

variable {α ι κ : Type*} [LinearOrder κ]

section Least

variable (rank : α → κ)

def keepLess (best : Option α) (a : α) : Option α :=
  match best with
  | none => some a
  | some b => if rank a < rank b then some a else some b

def least (l : List α) : Option α :=
  l.foldl (keepLess rank) none

variable {rank} {l : List α} {a b : α} {best : Option α}

theorem keepLess_eq_some (kept : keepLess rank best a = some b) :
    (best = some b ∨ b = a) ∧ rank b ≤ rank a ∧ ∀ c, best = some c → rank b ≤ rank c := by
  cases best with
  | none =>
    obtain rfl := Option.some.inj kept
    exact ⟨Or.inr rfl, le_rfl, fun c absurdity => absurd absurdity (by simp)⟩
  | some c =>
    unfold keepLess at kept
    simp only at kept
    split_ifs at kept with below
    · obtain rfl := Option.some.inj kept
      exact ⟨Or.inr rfl, le_rfl, fun d same => Option.some.inj same ▸ below.le⟩
    · obtain rfl := Option.some.inj kept
      exact ⟨Or.inl rfl, not_lt.mp below, fun d same => (Option.some.inj same ▸ le_rfl)⟩

theorem isSome_keepLess (rank : α → κ) (best : Option α) (a : α) :
    (keepLess rank best a).isSome = true := by
  cases best with
  | none => rfl
  | some b =>
    unfold keepLess
    simp only
    split_ifs <;> rfl

private theorem foldl_keepLess (l : List α) : ∀ best : Option α,
    ((l.foldl (keepLess rank) best).isSome = true ↔ best.isSome = true ∨ l ≠ []) ∧
      ∀ a, l.foldl (keepLess rank) best = some a →
        (best = some a ∨ a ∈ l) ∧ (∀ b ∈ l, rank a ≤ rank b) ∧
          ∀ b, best = some b → rank a ≤ rank b := by
  induction l with
  | nil =>
    intro best
    refine ⟨by simp, fun a kept => ⟨Or.inl kept, by simp, fun b same => ?_⟩⟩
    obtain rfl := Option.some.inj (kept.symm.trans same)
    exact le_rfl
  | cons c rest ih =>
    intro best
    obtain ⟨some, least⟩ := ih (keepLess rank best c)
    have kept := isSome_keepLess rank best c
    refine ⟨?_, fun a found => ?_⟩
    · rw [List.foldl_cons, some]
      simp [kept]
    · obtain ⟨came, below, first⟩ := least a found
      obtain ⟨d, one⟩ := Option.isSome_iff_exists.mp kept
      obtain ⟨source, under, before⟩ := keepLess_eq_some one
      have bound : rank a ≤ rank d := first d one
      refine ⟨?_, ?_, fun b here => bound.trans (before b here)⟩
      · rcases came with here | later
        · obtain rfl := Option.some.inj (one.symm.trans here)
          exact source.imp_right fun same => List.mem_cons.mpr (Or.inl same)
        · exact Or.inr (List.mem_cons_of_mem _ later)
      · exact List.forall_mem_cons.mpr ⟨bound.trans under, below⟩

theorem isSome_least : (least rank l).isSome = true ↔ l ≠ [] := by
  refine (foldl_keepLess l none).1.trans ?_
  simp

/-- **The least is one of the candidates and ranks below none of them.** -/
theorem least_eq_some (found : least rank l = some a) :
    a ∈ l ∧ ∀ b ∈ l, rank a ≤ rank b := by
  obtain ⟨source, below, -⟩ := (foldl_keepLess l none).2 a found
  exact ⟨source.resolve_left (by simp), below⟩

end Least

structure Tally (ι α : Type*) where
  order : List ι := []
  best : ι → Option α := fun _ => none

namespace Tally

variable [DecidableEq ι] (key : α → ι) (rank : α → κ)

def offer (t : Tally ι α) (a : α) : Tally ι α where
  order := if (t.best (key a)).isNone then t.order ++ [key a] else t.order
  best := Function.update t.best (key a) (keepLess rank (t.best (key a)) a)

/-- Take candidates one after another. -/
def collect (l : List α) : Tally ι α :=
  l.foldl (offer key rank) {}

variable {key rank}

def Listed (t : Tally ι α) : Prop :=
  t.order.Nodup ∧ ∀ k, k ∈ t.order ↔ (t.best k).isSome = true

theorem Listed.offer {t : Tally ι α} (listed : t.Listed) (a : α) :
    (t.offer key rank a).Listed := by
  obtain ⟨nodup, mem⟩ := listed
  have holds : ∀ k, ((t.offer key rank a).best k).isSome = true ↔
      k = key a ∨ (t.best k).isSome = true := by
    intro k
    change (Function.update t.best (key a) _ k).isSome = true ↔ _
    by_cases same : k = key a
    · subst same
      rw [Function.update_self]
      simp [isSome_keepLess]
    · rw [Function.update_of_ne same]
      simp [same]
  unfold Listed
  simp only [holds]
  unfold Tally.offer
  simp only
  split_ifs with absent
  · have fresh : key a ∉ t.order := by
      rw [mem, Bool.not_eq_true, Option.isSome_eq_false_iff]
      exact absent
    refine ⟨List.nodup_append.mpr ⟨nodup, List.nodup_singleton _, ?_⟩, fun k => ?_⟩
    · rintro k here k' there rfl
      exact fresh (List.mem_singleton.mp there ▸ here)
    · rw [List.mem_append, List.mem_singleton, mem, or_comm]
  · refine ⟨nodup, fun k => ?_⟩
    rw [mem]
    refine ⟨Or.inr, fun either => either.elim (fun same => ?_) id⟩
    subst same
    rw [Option.isNone_iff_eq_none, ← ne_eq, Option.ne_none_iff_isSome] at absent
    exact absent

theorem listed_collect (key : α → ι) (rank : α → κ) (l : List α) :
    (collect key rank l).Listed := by
  have run : ∀ (l : List α) (t : Tally ι α), t.Listed → (l.foldl (offer key rank) t).Listed := by
    intro l
    induction l with
    | nil => exact fun _ listed => listed
    | cons a rest ih => exact fun _ listed => ih _ (listed.offer a)
  exact run l {} ⟨List.nodup_nil, fun k => by simp⟩

/-- **Each key holds the least of its candidates.** -/
theorem best_collect (key : α → ι) (rank : α → κ) (l : List α) (k : ι) :
    (collect key rank l).best k = least rank (l.filter fun a => decide (key a = k)) := by
  have run : ∀ (l : List α) (t : Tally ι α), (l.foldl (offer key rank) t).best k =
      (l.filter fun a => decide (key a = k)).foldl (keepLess rank) (t.best k) := by
    intro l
    induction l with
    | nil => exact fun _ => rfl
    | cons a rest ih =>
      intro t
      rw [List.foldl_cons, ih]
      unfold offer
      by_cases same : key a = k
      · subst same
        rw [List.filter_cons_of_pos (by simp), List.foldl_cons]
        simp only [Function.update_self]
      · rw [List.filter_cons_of_neg (by simp [same])]
        simp only [Function.update_of_ne (Ne.symm same)]
  exact run l {}

theorem mem_order_collect {l : List α} {k : ι} :
    k ∈ (collect key rank l).order ↔ ∃ a ∈ l, key a = k := by
  rw [(listed_collect key rank l).2, best_collect, isSome_least, Ne, List.filter_eq_nil_iff]
  push Not
  simp

end Tally

section Newest

private theorem mem_take_append_cons {α : Type*} {x : α} {front back : List α} (first : x ∉ front) (count : Nat) :
    x ∈ (front ++ x :: back).take count ↔ front.length < count := by
  constructor
  · intro member
    by_contra short
    rw [List.take_append_of_le_length (not_lt.mp short)] at member
    exact first (List.mem_of_mem_take member)
  · intro early
    obtain ⟨more, rfl⟩ := Nat.exists_eq_add_of_lt early
    rw [Nat.add_assoc, List.take_length_add_append, List.take_succ_cons]
    exact List.mem_append_right _ List.mem_cons_self

variable {α : Type*} [LinearOrder α]

def surplus (keep : Nat) (l : List α) : List α :=
  (l.insertionSort (· ≤ ·)).take (l.length - keep)

variable {keep : Nat} {l : List α} {x : α}

theorem surplus_subset : surplus keep l ⊆ l := fun _ member =>
  (List.mem_insertionSort (· ≤ ·)).mp (List.mem_of_mem_take member)

theorem surplus_of_le (few : l.length ≤ keep) : surplus keep l = [] := by
  unfold surplus
  rw [Nat.sub_eq_zero_of_le few, List.take_zero]

/-- **An element is in the surplus exactly when `keep` elements are greater.** -/
theorem mem_surplus (nodup : l.Nodup) (member : x ∈ l) :
    x ∈ surplus keep l ↔ keep ≤ l.countP fun y => decide (x < y) := by
  have sorted : (l.insertionSort (· ≤ ·)).Perm l := List.perm_insertionSort _ _
  have ordered : (l.insertionSort (· ≤ ·)).Pairwise (· ≤ ·) := List.pairwise_insertionSort _ _
  have distinct : (l.insertionSort (· ≤ ·)).Nodup := sorted.nodup_iff.mpr nodup
  obtain ⟨front, back, split⟩ := List.append_of_mem (sorted.mem_iff.mpr member)
  unfold surplus
  rw [← sorted.countP_eq, ← sorted.length_eq]
  rw [split] at ordered distinct ⊢
  obtain ⟨_, after, before⟩ := List.pairwise_append.mp ordered
  obtain ⟨_, fresh, apart⟩ := List.nodup_append.mp distinct
  have least : front.countP (fun y => decide (x < y)) = 0 := by
    refine List.countP_eq_zero.mpr fun y early => ?_
    simpa using before y early x List.mem_cons_self
  have greatest : back.countP (fun y => decide (x < y)) = back.length := by
    refine List.countP_eq_length.mpr fun y late => decide_eq_true ?_
    refine lt_of_le_of_ne ((List.pairwise_cons.mp after).1 y late) ?_
    rintro rfl
    exact (List.nodup_cons.mp fresh).1 late
  rw [List.countP_append, least, List.countP_cons_of_neg (by simp), greatest]
  have size : (front ++ x :: back).length = front.length + 1 + back.length := by
    simp only [List.length_append, List.length_cons]
    omega
  have first : x ∉ front := fun early => apart x early x List.mem_cons_self rfl
  rw [size, mem_take_append_cons first]
  omega

theorem length_notMem_surplus (nodup : l.Nodup) :
    (l.filter fun y => decide (y ∉ surplus keep l)).length ≤ keep := by
  have sorted : (l.insertionSort (· ≤ ·)).Perm l := List.perm_insertionSort _ _
  have inside : (l.filter fun y => decide (y ∉ surplus keep l)) ⊆
      (l.insertionSort (· ≤ ·)).drop (l.length - keep) := by
    intro y left
    obtain ⟨member, stays⟩ := List.mem_filter.mp left
    have whole := sorted.mem_iff.mpr member
    rw [← List.take_append_drop (l.length - keep) (l.insertionSort (· ≤ ·))] at whole
    exact (List.mem_append.mp whole).resolve_left (of_decide_eq_true stays)
  have short := (List.subperm_of_subset (nodup.filter _) inside).length_le
  rw [List.length_drop, sorted.length_eq] at short
  omega

end Newest

end Lain.Foundation
