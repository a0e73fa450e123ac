import Mathlib

/-!
# Stable sorting by a key

A stable sort keeps the elements of one key in their order.
-/

namespace Lain.Foundation

variable {α κ : Type*} [LinearOrder κ]

def sortByKey (key : α → κ) (l : List α) : List α :=
  l.insertionSort fun a b => key a ≤ key b

variable {key : α → κ} {l l' : List α}

theorem perm_sortByKey (key : α → κ) (l : List α) : (sortByKey key l).Perm l :=
  List.perm_insertionSort _ l

theorem sorted_sortByKey (key : α → κ) (l : List α) :
    (sortByKey key l).Pairwise fun a b => key a ≤ key b := by
  have total : Std.Total fun a b => key a ≤ key b := ⟨fun a b => le_total (key a) (key b)⟩
  have trans : IsTrans α fun a b => key a ≤ key b := ⟨fun _ _ _ => le_trans⟩
  exact List.pairwise_insertionSort _ l

/-- **The sort is stable**: the elements of one key come in the order they had. -/
theorem filter_sortByKey (key : α → κ) (l : List α) (k : κ) :
    ((sortByKey key l).filter fun a => decide (key a = k)) = l.filter fun a => decide (key a = k) := by
  have total : Std.Total fun a b => key a ≤ key b := ⟨fun a b => le_total (key a) (key b)⟩
  have trans : IsTrans α fun a b => key a ≤ key b := ⟨fun _ _ _ => le_trans⟩
  have level : (l.filter fun a => decide (key a = k)).Pairwise fun a b => key a ≤ key b := by
    refine List.pairwise_of_forall_mem_list fun a here b there => ?_
    rw [of_decide_eq_true (List.mem_filter.mp here).2, of_decide_eq_true (List.mem_filter.mp there).2]
  have inside := (List.sublist_insertionSort level List.filter_sublist).filter
    fun a => decide (key a = k)
  rw [List.filter_filter] at inside
  simp only [Bool.and_self] at inside
  exact (inside.eq_of_length ((perm_sortByKey key l).filter _).length_eq.symm).symm

theorem eq_of_filter_eq (sorted : l.Pairwise fun a b => key a ≤ key b)
    (sorted' : l'.Pairwise fun a b => key a ≤ key b)
    (same : ∀ k, (l.filter fun a => decide (key a = k)) = l'.filter fun a => decide (key a = k)) :
    l = l' := by
  have members : ∀ a, a ∈ l ↔ a ∈ l' := by
    intro a
    have here := congrArg (a ∈ ·) (same (key a))
    simpa [List.mem_filter] using here
  induction l generalizing l' with
  | nil => exact (List.eq_nil_iff_forall_not_mem.mpr fun a => (members a).not.mp List.not_mem_nil).symm
  | cons a rest ih =>
    cases l' with
    | nil => exact absurd ((members a).mp List.mem_cons_self) List.not_mem_nil
    | cons b rest' =>
      obtain ⟨least, tail⟩ := List.pairwise_cons.mp sorted
      obtain ⟨least', tail'⟩ := List.pairwise_cons.mp sorted'
      have below : key a ≤ key b := by
        rcases List.mem_cons.mp ((members b).mpr List.mem_cons_self) with rfl | later
        · exact le_rfl
        · exact least b later
      have above : key b ≤ key a := by
        rcases List.mem_cons.mp ((members a).mp List.mem_cons_self) with rfl | later
        · exact le_rfl
        · exact least' a later
      have level := le_antisymm below above
      have heads := same (key a)
      rw [List.filter_cons_of_pos (by simp), List.filter_cons_of_pos (by simp [level])] at heads
      obtain ⟨rfl, _⟩ := List.cons.inj heads
      have tails : ∀ k, (rest.filter fun c => decide (key c = k)) =
          rest'.filter fun c => decide (key c = k) := by
        intro k
        have both := same k
        rw [List.filter_cons, List.filter_cons] at both
        split at both
        · exact (List.cons.inj both).2
        · exact both
      refine congrArg (a :: ·) (ih tail tail' tails fun c => ?_)
      have here := congrArg (c ∈ ·) (tails (key c))
      simpa [List.mem_filter] using here

theorem sortByKey_eq_iff :
    sortByKey key l = sortByKey key l' ↔
      ∀ k, (l.filter fun a => decide (key a = k)) = l'.filter fun a => decide (key a = k) := by
  constructor
  · intro same k
    rw [← filter_sortByKey key l, ← filter_sortByKey key l', same]
  · intro same
    refine eq_of_filter_eq (sorted_sortByKey key l) (sorted_sortByKey key l') fun k => ?_
    rw [filter_sortByKey, filter_sortByKey, same]

/-! ### The first of a sorted list -/

section Ties

variable {τ : Type*} [LinearOrder τ] {tie : α → τ}

def SortsBefore (key : α → κ) (tie : α → τ) (a b : α) : Prop :=
  key a < key b ∨ key a = key b ∧ tie a < tie b

theorem SortsBefore.asymm {a b : α} (before : SortsBefore key tie a b) :
    ¬ SortsBefore key tie b a := by
  rintro (after | ⟨same, after⟩)
  · rcases before with before | ⟨same, -⟩
    · exact lt_asymm before after
    · exact after.ne same.symm
  · rcases before with before | ⟨-, before⟩
    · exact before.ne same.symm
    · exact lt_asymm before after

theorem pairwise_sortByKey (tied : l.Pairwise fun a b => tie a < tie b) :
    (sortByKey key l).Pairwise (SortsBefore key tie) := by
  rw [List.pairwise_iff_forall_sublist]
  intro a b two
  have sorted := List.pairwise_iff_forall_sublist.mp (sorted_sortByKey key l) two
  rcases sorted.lt_or_eq with below | level
  · exact Or.inl below
  · -- elements of one key stay in their order, which is that of the ties
    have kept := two.filter fun c => decide (key c = key a)
    rw [filter_sortByKey, List.filter_cons_of_pos (by simp), List.filter_cons_of_pos (by simp [level]),
      List.filter_nil] at kept
    exact Or.inr ⟨level, List.pairwise_iff_forall_sublist.mp tied
      (kept.trans List.filter_sublist)⟩

/-- **The first of a kind in a sorted list** is the one that is sorted before all others. -/
theorem find?_sortByKey_eq_some (tied : l.Pairwise fun a b => tie a < tie b) {p : α → Bool} {a : α} :
    (sortByKey key l).find? p = some a ↔
      a ∈ l ∧ p a = true ∧ ∀ b ∈ l, p b = true → b = a ∨ SortsBefore key tie a b := by
  have first : ∀ c, (sortByKey key l).find? p = some c →
      c ∈ l ∧ p c = true ∧ ∀ b ∈ l, p b = true → b = c ∨ SortsBefore key tie c b := by
    intro c found
    obtain ⟨taken, front, back, split, refused⟩ := List.find?_eq_some_iff_append.mp found
    refine ⟨(perm_sortByKey key l).mem_iff.mp (List.mem_of_find?_eq_some found), taken,
      fun b member accepted => ?_⟩
    have pairs : (sortByKey key l).Pairwise (SortsBefore key tie) := pairwise_sortByKey tied
    have there := (perm_sortByKey key l).mem_iff.mpr member
    rw [split] at pairs there
    rcases List.mem_append.mp there with before | after
    · have no := refused b before
      rw [accepted] at no
      cases no
    · exact (List.mem_cons.mp after).imp_right
        ((List.pairwise_cons.mp (List.pairwise_append.mp pairs).2.1).1 b)
  refine ⟨first a, fun ⟨member, accepted, least⟩ => ?_⟩
  obtain ⟨c, found⟩ := Option.isSome_iff_exists.mp
    (List.find?_isSome.mpr ⟨a, (perm_sortByKey key l).mem_iff.mpr member, accepted⟩)
  obtain ⟨member', accepted', least'⟩ := first c found
  rw [found]
  rcases least c member' accepted' with same | before
  · rw [same]
  · rcases least' a member accepted with same | after
    · rw [same]
    · exact absurd after before.asymm

end Ties

/-! ### Codes that end by themselves -/

structure SelfDelimiting {β : Type*} (encode : α → List β) (s : List α) : Prop where
  nonempty : ∀ a ∈ s, encode a ≠ []
  unique : ∀ a ∈ s, ∀ b ∈ s, encode a <+: encode b → a = b

/-- **A list can be read back from the codes of its elements, one after the other.** -/
theorem SelfDelimiting.flatMap_injective {α β : Type*} {encode : α → List β} {s l l' : List α}
    (code : SelfDelimiting encode s) (inside : ∀ a ∈ l, a ∈ s) (inside' : ∀ a ∈ l', a ∈ s)
    (same : l.flatMap encode = l'.flatMap encode) : l = l' := by
  induction l generalizing l' with
  | nil =>
    cases l' with
    | nil => rfl
    | cons b rest' =>
      rw [List.flatMap_nil, List.flatMap_cons, eq_comm, List.append_eq_nil_iff] at same
      exact absurd same.1 (code.nonempty b (inside' b List.mem_cons_self))
  | cons a rest ih =>
    have here := inside a List.mem_cons_self
    cases l' with
    | nil =>
      rw [List.flatMap_nil, List.flatMap_cons, List.append_eq_nil_iff] at same
      exact absurd same.1 (code.nonempty a here)
    | cons b rest' =>
      have there := inside' b List.mem_cons_self
      rw [List.flatMap_cons, List.flatMap_cons] at same
      have first : a = b := by
        rcases List.prefix_or_prefix_of_prefix (List.prefix_append _ _)
          (same ▸ List.prefix_append _ _ : encode b <+: encode a ++ rest.flatMap encode)
          with begins | begins
        · exact code.unique a here b there begins
        · exact (code.unique b there a here begins).symm
      subst first
      exact congrArg (a :: ·) (ih (fun c member => inside c (List.mem_cons_of_mem _ member))
        (fun c member => inside' c (List.mem_cons_of_mem _ member))
        (List.append_cancel_left same))

end Lain.Foundation
