import Mathlib
import Lain.Foundation.SlotIndex

/-!
# Indexes that are cleaned up later

A secondary index whose records may vanish before their entries do.
-/

namespace Lain.Foundation

variable {κ : Type*} [DecidableEq κ]

theorem mem_replaced {α : Type*} {before after : List α} {a b x : α}
    (member : x ∈ before ++ a :: after) : x = a ∨ x ∈ before ++ b :: after := by
  rcases List.mem_append.mp member with early | late
  · exact .inr (List.mem_append_left _ early)
  · rcases List.mem_cons.mp late with rfl | late
    · exact .inl rfl
    · exact .inr (List.mem_append_right _ (List.mem_cons_of_mem _ late))

structure Unfiling (κ : Type*) where
  slots : List (κ × Nat)
  emptied : Option κ := none

namespace Unfiling

/-- The next access of a cleanup: remove the key whose bucket it emptied, or take the next slot
out of its bucket; `none` when nothing is left. -/
def next (m : SlotIndex κ) : Unfiling κ → Option (SlotIndex κ × Unfiling κ)
  | ⟨slots, some k⟩ => some (m.erase k, ⟨slots, none⟩)
  | ⟨(k, i) :: rest, none⟩ =>
    match m.lookup k with
    | none => some (m, ⟨rest, none⟩)
    | some entry =>
      let kept := entry.filter fun j => decide (j ≠ i)
      some (m.insert k kept, ⟨rest, if kept.isEmpty then some k else none⟩)
  | ⟨[], none⟩ => none

@[simp] theorem next_nil (m : SlotIndex κ) : next m ⟨[], none⟩ = none := rfl

def Done (u : Unfiling κ) : Prop :=
  u.slots = [] ∧ u.emptied = none

instance (u : Unfiling κ) : Decidable u.Done :=
  inferInstanceAs (Decidable (_ ∧ _))

theorem bucket_next {m m' : SlotIndex κ} {u u' : Unfiling κ} (moved : u.next m = some (m', u')) :
    (∃ k, u.emptied = some k ∧ u' = ⟨u.slots, none⟩ ∧
        ∀ l, m'.bucket l = if l = k then [] else m.bucket l) ∨
      (∃ k i, u = ⟨(k, i) :: u'.slots, none⟩ ∧
        (∀ l, m'.bucket l =
          if l = k then (m.bucket k).filter (fun j => decide (j ≠ i)) else m.bucket l) ∧
        ∀ l, u'.emptied = some l → m'.bucket l = []) := by
  obtain ⟨slots, emptied⟩ := u
  cases emptied with
  | some k =>
    obtain ⟨rfl, rfl⟩ := Prod.mk.inj (Option.some.inj moved)
    exact .inl ⟨k, rfl, rfl, fun l => SlotIndex.bucket_erase m k l⟩
  | none =>
    cases slots with
    | nil => cases moved
    | cons entry rest =>
      obtain ⟨k, i⟩ := entry
      cases present : m.lookup k with
      | none =>
        simp only [next, present] at moved
        obtain ⟨rfl, rfl⟩ := Prod.mk.inj (Option.some.inj moved)
        refine .inr ⟨k, i, rfl, ?_, fun l wiped => by cases wiped⟩
        intro l
        by_cases same : l = k
        · subst same
          simp [SlotIndex.bucket, present]
        · rw [if_neg same]
      | some entry =>
        simp only [next, present] at moved
        obtain ⟨rfl, rfl⟩ := Prod.mk.inj (Option.some.inj moved)
        have old : m.bucket k = entry := by simp [SlotIndex.bucket, present]
        refine .inr ⟨k, i, rfl, ?_, ?_⟩
        · intro l
          rw [old]
          exact SlotIndex.bucket_insert m k l _
        · intro l wiped
          obtain ⟨empty, same⟩ := Option.ite_none_right_eq_some.mp wiped
          obtain rfl := Option.some.inj same
          rw [SlotIndex.bucket_insert, if_pos rfl]
          exact List.isEmpty_iff.mp empty

end Unfiling

namespace SlotIndex

def Due (pending : List (Unfiling κ)) (k : κ) (i : Nat) : Prop :=
  ∃ u ∈ pending, (k, i) ∈ u.slots

def Emptied (pending : List (Unfiling κ)) (k : κ) : Prop :=
  ∃ u ∈ pending, u.emptied = some k

structure Filed (m : SlotIndex κ) (key : Nat → Option κ) (pending : List (Unfiling κ)) :
    Prop where
  /-- No slot is filed twice under one key. -/
  nodup : ∀ k, (m.bucket k).Nodup
  /-- A record is filed under its key. -/
  found : ∀ k i, key i = some k → i ∈ m.bucket k
  /-- An entry is that of a record, or will be taken out. -/
  explained : ∀ k i, i ∈ m.bucket k → key i = some k ∨ Due pending k i
  /-- What will be taken out belongs to a vacated slot. -/
  vacated : ∀ k i, Due pending k i → key i = none
  /-- A key about to be removed has nothing filed under it. -/
  emptied : ∀ k, Emptied pending k → m.bucket k = []

namespace Filed

variable {m : SlotIndex κ} {key key' : Nat → Option κ} {pending : List (Unfiling κ)}

theorem of_indexes (indexes : m.Indexes key) : m.Filed key [] where
  nodup := fun k => (indexes k).1
  found := fun k i held => ((indexes k).2 i).mpr held
  explained := fun k i filed => .inl (((indexes k).2 i).mp filed)
  vacated := by
    rintro k i ⟨u, member, _⟩
    cases member
  emptied := by
    rintro k ⟨u, member, _⟩
    cases member

/-- **When every cleanup is done the index is exact.** -/
theorem indexes (filed : m.Filed key pending) (done : ∀ u ∈ pending, u.Done) :
    m.Indexes key := by
  intro k
  refine ⟨filed.nodup k, fun i => ⟨fun member => ?_, filed.found k i⟩⟩
  rcases filed.explained k i member with held | ⟨u, here, due⟩
  · exact held
  · rw [(done u here).1] at due
    cases due

theorem congr (filed : m.Filed key pending) (same : ∀ i, key' i = key i) :
    m.Filed key' pending where
  nodup := filed.nodup
  found := fun k i held => filed.found k i (same i ▸ held)
  explained := fun k i member => (same i).symm ▸ filed.explained k i member
  vacated := fun k i due => (same i).trans (filed.vacated k i due)
  emptied := filed.emptied

theorem push (filed : m.Filed key pending) {k : κ} {i : Nat} (vacant : key i = none)
    (filled : key' i = some k) (others : ∀ j, j ≠ i → key' j = key j)
    (undue : ∀ l, ¬ Due pending l i) (kept : ¬ Emptied pending k) :
    (m.push k i).Filed key' pending where
  nodup := by
    intro l
    rw [bucket_push]
    split
    · refine List.Nodup.append (filed.nodup k) (List.nodup_singleton i) ?_
      refine List.disjoint_singleton.mpr fun member => ?_
      rcases filed.explained k i member with held | due
      · rw [vacant] at held
        cases held
      · exact undue k due
    · exact filed.nodup l
  found := by
    intro l j held
    rw [bucket_push]
    by_cases here : j = i
    · subst here
      obtain rfl : k = l := Option.some.inj (filled.symm.trans held)
      simp
    · have old := filed.found l j (others j here ▸ held)
      by_cases same : l = k
      · subst same
        simp [old]
      · simpa [same] using old
  explained := by
    intro l j member
    have old : j = i ∧ l = k ∨ j ∈ m.bucket l := by
      rw [bucket_push] at member
      split at member
      next same =>
          subst same
          rcases List.mem_append.mp member with here | here
          · exact .inr here
          · exact .inl ⟨List.mem_singleton.mp here, rfl⟩
      next => exact .inr member
    rcases old with ⟨rfl, rfl⟩ | old
    · exact .inl filled
    · rcases filed.explained l j old with held | due
      · have apart : j ≠ i := by
          rintro rfl
          rw [vacant] at held
          cases held
        exact .inl ((others j apart).trans held)
      · exact .inr due
  vacated := by
    intro l j due
    have apart : j ≠ i := by
      rintro rfl
      exact undue l due
    exact (others j apart).trans (filed.vacated l j due)
  emptied := by
    intro l wiped
    have apart : l ≠ k := by
      rintro rfl
      exact kept wiped
    rw [bucket_push, if_neg apart]
    exact filed.emptied l wiped

theorem vacate (filed : m.Filed key pending) {slots : List (κ × Nat)}
    (cleared : ∀ k i, (k, i) ∈ slots ↔ key i = some k ∧ key' i = none)
    (left : ∀ i, key' i = none ∨ key' i = key i) :
    m.Filed key' (pending ++ [⟨slots, none⟩]) where
  nodup := filed.nodup
  found := by
    intro k i held
    rcases left i with gone | same
    · rw [gone] at held
      cases held
    · exact filed.found k i (same ▸ held)
  explained := by
    intro k i member
    rcases filed.explained k i member with held | ⟨u, here, due⟩
    · rcases left i with gone | same
      · exact .inr ⟨_, List.mem_append_right _ (List.mem_singleton_self _),
          (cleared k i).mpr ⟨held, gone⟩⟩
      · exact .inl (same.trans held)
    · exact .inr ⟨u, List.mem_append_left _ here, due⟩
  vacated := by
    rintro k i ⟨u, member, due⟩
    rcases List.mem_append.mp member with old | new
    · have gone := filed.vacated k i ⟨u, old, due⟩
      rcases left i with none | same
      · exact none
      · exact same.trans gone
    · obtain rfl := List.mem_singleton.mp new
      exact ((cleared k i).mp due).2
  emptied := by
    rintro k ⟨u, member, wiped⟩
    rcases List.mem_append.mp member with old | new
    · exact filed.emptied k ⟨u, old, wiped⟩
    · obtain rfl := List.mem_singleton.mp new
      cases wiped

/-- **One access of one cleanup, between any accesses of the others.** -/
theorem next {before after : List (Unfiling κ)} {u u' : Unfiling κ} {m' : SlotIndex κ}
    (filed : m.Filed key (before ++ u :: after)) (moved : u.next m = some (m', u')) :
    m'.Filed key (before ++ u' :: after) := by
  have mine : u ∈ before ++ u :: after := by simp
  rcases Unfiling.bucket_next moved with ⟨k, wiped, rfl, buckets⟩ | ⟨k, i, shape, buckets, wiped⟩
  · -- The bucket of an emptied key holds nothing, so removing the key changes no bucket.
    have same : ∀ l, m'.bucket l = m.bucket l := by
      intro l
      rw [buckets l]
      split
      next here =>
          subst here
          exact (filed.emptied l ⟨u, mine, wiped⟩).symm
      next => rfl
    have due : ∀ l j, Due (before ++ ⟨u.slots, none⟩ :: after) l j ↔
        Due (before ++ u :: after) l j := by
      intro l j
      simp [Due, or_and_right, exists_or]
    refine ⟨fun l => same l ▸ filed.nodup l, fun l j held => same l ▸ filed.found l j held,
      fun l j member => ?_, fun l j there => filed.vacated l j ((due l j).mp there), ?_⟩
    · rw [due l j]
      exact filed.explained l j (same l ▸ member)
    · rintro l ⟨v, member, wipes⟩
      rw [same l]
      rcases mem_replaced (b := u) member with rfl | old
      · cases wipes
      · exact filed.emptied l ⟨v, old, wipes⟩
  · -- The slot taken out was vacated, so no record loses its entry.
    have mineDue : Due (before ++ u :: after) k i := ⟨u, mine, by simp [shape]⟩
    have kept : ∀ l j, Due (before ++ u' :: after) l j → Due (before ++ u :: after) l j := by
      rintro l j ⟨v, member, there⟩
      rcases mem_replaced (b := u) member with rfl | old
      · exact ⟨u, mine, by rw [shape]; exact List.mem_cons_of_mem _ there⟩
      · exact ⟨v, old, there⟩
    have left : ∀ l j, Due (before ++ u :: after) l j →
        l = k ∧ j = i ∨ Due (before ++ u' :: after) l j := by
      rintro l j ⟨v, member, there⟩
      rcases mem_replaced (b := u') member with rfl | old
      · rw [shape] at there
        rcases List.mem_cons.mp there with here | rest
        · exact .inl (Prod.mk.inj here)
        · exact .inr ⟨u', by simp, rest⟩
      · exact .inr ⟨v, old, there⟩
    have sublist : ∀ l, (m'.bucket l).Sublist (m.bucket l) := by
      intro l
      rw [buckets l]
      split
      next here =>
          subst here
          exact List.filter_sublist
      next => exact List.Sublist.refl _
    refine ⟨fun l => (filed.nodup l).sublist (sublist l), fun l j held => ?_,
      fun l j member => ?_, fun l j there => filed.vacated l j (kept l j there), ?_⟩
    · have old := filed.found l j held
      rw [buckets l]
      split
      next here =>
          subst here
          have apart : j ≠ i := by
            rintro rfl
            rw [filed.vacated l j mineDue] at held
            cases held
          exact List.mem_filter.mpr ⟨old, by simpa using apart⟩
      next => exact old
    · rcases filed.explained l j ((sublist l).subset member) with held | due
      · exact .inl held
      · rcases left l j due with ⟨rfl, rfl⟩ | due
        · rw [buckets l, if_pos rfl] at member
          simp at member
        · exact .inr due
    · rintro l ⟨v, member, wipes⟩
      rcases mem_replaced (b := u) member with rfl | old
      · exact wiped l wipes
      · exact List.sublist_nil.mp (filed.emptied l ⟨v, old, wipes⟩ ▸ sublist l)

end Filed

end SlotIndex

end Lain.Foundation
