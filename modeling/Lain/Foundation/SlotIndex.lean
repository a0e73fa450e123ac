import Mathlib.Data.List.AList

/-!
# Secondary indexes over slots

Maps from a key to the slots of the records with that key, maintained by hand
beside the records.
-/

namespace Lain.Foundation

abbrev SlotIndex (κ : Type*) := AList (fun _ : κ => List Nat)

namespace SlotIndex

variable {κ : Type*} [DecidableEq κ]

/-- The slots filed under a key; an absent key has none. -/
def bucket (m : SlotIndex κ) (k : κ) : List Nat :=
  (m.lookup k).getD []

def push (m : SlotIndex κ) (k : κ) (i : Nat) : SlotIndex κ :=
  m.insert k (m.bucket k ++ [i])

/-- Take a slot out of a key's bucket, and the key out when nothing is left. -/
def drop (m : SlotIndex κ) (k : κ) (i : Nat) : SlotIndex κ :=
  match m.lookup k with
  | none => m
  | some entry =>
    let rest := entry.filter fun j => decide (j ≠ i)
    if rest.isEmpty then m.erase k else m.insert k rest

def swap (m : SlotIndex κ) (k : κ) (slots : List Nat) : SlotIndex κ :=
  if slots.isEmpty then m.erase k else m.insert k slots

@[simp] theorem bucket_empty (k : κ) : bucket (∅ : SlotIndex κ) k = [] := by
  simp [bucket]

theorem bucket_insert (m : SlotIndex κ) (k k' : κ) (slots : List Nat) :
    bucket (m.insert k slots) k' = if k' = k then slots else m.bucket k' := by
  unfold bucket
  by_cases same : k' = k
  · subst same
    simp [AList.lookup_insert]
  · rw [AList.lookup_insert_ne same, if_neg same]

theorem bucket_erase (m : SlotIndex κ) (k k' : κ) :
    bucket (m.erase k) k' = if k' = k then [] else m.bucket k' := by
  unfold bucket
  by_cases same : k' = k
  · subst same
    simp [AList.lookup_erase]
  · rw [AList.lookup_erase_ne same, if_neg same]

theorem bucket_push (m : SlotIndex κ) (k k' : κ) (i : Nat) :
    (m.push k i).bucket k' = if k' = k then m.bucket k ++ [i] else m.bucket k' :=
  bucket_insert m k k' _

theorem bucket_swap (m : SlotIndex κ) (k k' : κ) (slots : List Nat) :
    (m.swap k slots).bucket k' = if k' = k then slots else m.bucket k' := by
  unfold swap
  split
  next isEmpty =>
      rw [bucket_erase, List.isEmpty_iff.mp isEmpty]
  next => exact bucket_insert m k k' slots

theorem bucket_drop (m : SlotIndex κ) (k k' : κ) (i : Nat) :
    (m.drop k i).bucket k' =
      if k' = k then (m.bucket k).filter (fun j => decide (j ≠ i)) else m.bucket k' := by
  unfold drop
  split
  next absent =>
      by_cases same : k' = k
      · subst same
        simp [bucket, absent]
      · rw [if_neg same]
  next entry present =>
      have old : m.bucket k = entry := by simp [bucket, present]
      rw [old]
      exact bucket_swap m k k' _

theorem bucket_swaps (entries : List (κ × List Nat)) :
    ∀ m : SlotIndex κ, (entries.map Prod.fst).Nodup →
      (∀ entry ∈ entries,
        (entries.foldl (fun m entry => m.swap entry.1 entry.2) m).bucket entry.1 = entry.2) ∧
      ∀ k, k ∉ entries.map Prod.fst →
        (entries.foldl (fun m entry => m.swap entry.1 entry.2) m).bucket k = m.bucket k := by
  induction entries with
  | nil =>
    intro m _
    simp
  | cons head rest ih =>
    intro m nodup
    obtain ⟨fresh, restNodup⟩ := List.nodup_cons.mp nodup
    obtain ⟨swapped, kept⟩ := ih (m.swap head.1 head.2) restNodup
    refine ⟨?_, ?_⟩
    · intro entry member
      rcases List.mem_cons.mp member with rfl | later
      · rw [List.foldl_cons, kept entry.1 fresh, bucket_swap, if_pos rfl]
      · exact swapped entry later
    · intro k absent
      rw [List.map_cons, List.mem_cons, not_or] at absent
      rw [List.foldl_cons, kept k absent.2, bucket_swap, if_neg absent.1]

def Indexes (m : SlotIndex κ) (key : Nat → Option κ) : Prop :=
  ∀ k, (m.bucket k).Nodup ∧ ∀ i, i ∈ m.bucket k ↔ key i = some k

namespace Indexes

variable {m : SlotIndex κ} {key key' : Nat → Option κ}

theorem empty (vacant : ∀ i, key i = none) : Indexes (∅ : SlotIndex κ) key := by
  intro k
  simp [vacant]

theorem congr (indexes : Indexes m key) (same : ∀ i, key' i = key i) :
    Indexes m key' := by
  intro k
  simpa only [same] using indexes k

theorem push (indexes : Indexes m key) {k : κ} {i : Nat} (vacant : key i = none)
    (filled : key' i = some k) (others : ∀ j, j ≠ i → key' j = key j) :
    Indexes (m.push k i) key' := by
  intro k'
  have absent : ∀ l, i ∉ m.bucket l := by
    intro l member
    rw [(indexes l).2 i, vacant] at member
    cases member
  rw [bucket_push]
  by_cases same : k' = k
  · subst same
    rw [if_pos rfl]
    refine ⟨?_, ?_⟩
    · refine List.Nodup.append (indexes k').1 (List.nodup_singleton i) ?_
      exact List.disjoint_singleton.mpr (absent k')
    · intro j
      rw [List.mem_append, List.mem_singleton, (indexes k').2 j]
      by_cases here : j = i
      · subst here
        simp [filled]
      · simp [here, others j here]
  · rw [if_neg same]
    refine ⟨(indexes k').1, ?_⟩
    intro j
    rw [(indexes k').2 j]
    by_cases here : j = i
    · subst here
      have apart : ¬ k = k' := fun h => same h.symm
      simp [vacant, filled, apart]
    · rw [others j here]

theorem drop (indexes : Indexes m key) {k : κ} {i : Nat} (filed : key i = some k)
    (vacated : key' i = none) (others : ∀ j, j ≠ i → key' j = key j) :
    Indexes (m.drop k i) key' := by
  intro k'
  rw [bucket_drop]
  by_cases same : k' = k
  · subst same
    rw [if_pos rfl]
    refine ⟨(indexes k').1.filter _, ?_⟩
    intro j
    rw [List.mem_filter, (indexes k').2 j]
    by_cases here : j = i
    · subst here
      simp [vacated]
    · simp [here, others j here]
  · rw [if_neg same]
    refine ⟨(indexes k').1, ?_⟩
    intro j
    rw [(indexes k').2 j]
    by_cases here : j = i
    · subst here
      have apart : ¬ k = k' := fun h => same h.symm
      simp [filed, vacated, apart]
    · rw [others j here]

end Indexes

end SlotIndex

abbrev SlotMap (κ : Type*) := AList (fun _ : κ => Nat)

namespace SlotMap

variable {κ : Type*} [DecidableEq κ]

theorem lookup_eraseAll (keys : List κ) (m : SlotMap κ) (k : κ) :
    (keys.foldl (fun m key => m.erase key) m).lookup k =
      if k ∈ keys then none else m.lookup k := by
  induction keys generalizing m with
  | nil => simp
  | cons head rest ih =>
    rw [List.foldl_cons, ih]
    by_cases same : k = head
    · subst same
      simp [AList.lookup_erase]
    · simp [same, AList.lookup_erase_ne same]

def Locates (m : SlotMap κ) (key : Nat → Option κ) : Prop :=
  ∀ k i, m.lookup k = some i ↔ key i = some k

namespace Locates

variable {m : SlotMap κ} {key key' : Nat → Option κ}

theorem empty (vacant : ∀ i, key i = none) : Locates (∅ : SlotMap κ) key := by
  intro k i
  simp [vacant]

theorem congr (locates : Locates m key) (same : ∀ i, key' i = key i) :
    Locates m key' := by
  intro k i
  simpa only [same] using locates k i

theorem slot_unique (locates : Locates m key) {k : κ} {i j : Nat}
    (here : key i = some k) (there : key j = some k) : i = j := by
  have atI := (locates k i).mpr here
  have atJ := (locates k j).mpr there
  exact Option.some.inj (atI.symm.trans atJ)

theorem insert (locates : Locates m key) {k : κ} {i : Nat} (vacant : key i = none)
    (fresh : m.lookup k = none) (filled : key' i = some k)
    (others : ∀ j, j ≠ i → key' j = key j) : Locates (AList.insert k i m) key' := by
  intro k' j
  by_cases same : k' = k
  · subst same
    rw [AList.lookup_insert]
    by_cases here : j = i
    · subst here
      simp [filled]
    · have unheld : key j ≠ some k' := by
        intro held
        rw [(locates k' j).mpr held] at fresh
        cases fresh
      have apart : ¬ i = j := fun h => here h.symm
      simp [others j here, unheld, apart]
  · rw [AList.lookup_insert_ne same, locates k' j]
    by_cases here : j = i
    · subst here
      have apart : ¬ k = k' := fun h => same h.symm
      simp [vacant, filled, apart]
    · rw [others j here]

theorem erase (locates : Locates m key) {k : κ} {i : Nat} (held : key i = some k)
    (vacated : key' i = none) (others : ∀ j, j ≠ i → key' j = key j) :
    Locates (AList.erase k m) key' := by
  intro k' j
  by_cases same : k' = k
  · subst same
    rw [AList.lookup_erase]
    by_cases here : j = i
    · subst here
      simp [vacated]
    · have unheld : key j ≠ some k' := fun other =>
        here (locates.slot_unique other held)
      simp [others j here, unheld]
  · rw [AList.lookup_erase_ne same, locates k' j]
    by_cases here : j = i
    · subst here
      have apart : ¬ k = k' := fun h => same h.symm
      simp [held, vacated, apart]
    · rw [others j here]

theorem unheld (locates : Locates m key) {k : κ} (absent : m.lookup k = none) (i : Nat) :
    key i ≠ some k := by
  intro held
  rw [(locates k i).mpr held] at absent
  cases absent

end Locates

end SlotMap

end Lain.Foundation
