import Mathlib
import Lain.Foundation.SortedMap
import Lain.Foundation.StableSort

/-!
# Tallies

What a map counts while it goes through a list does not depend on the order of the list: each key
ends up with the sum of what was added to it.
-/

namespace Lain.Foundation

namespace SortedMap

variable {κ α : Type*} [LinearOrder κ]

def addTo (m : SortedMap κ Nat) (p : κ × Nat) : SortedMap κ Nat :=
  m.alter p.1 fun old => old.getD 0 + p.2

def sums (pairs : List (κ × Nat)) : SortedMap κ Nat :=
  pairs.foldl addTo ∅

/-- The total of the amounts of a key. -/
def total (pairs : List (κ × Nat)) (k : κ) : Nat :=
  ((pairs.filter fun p => decide (p.1 = k)).map Prod.snd).sum

theorem total_append (pairs pairs' : List (κ × Nat)) (k : κ) :
    total (pairs ++ pairs') k = total pairs k + total pairs' k := by
  unfold total
  rw [List.filter_append, List.map_append, List.sum_append]

theorem total_flatMap {β : Type*} (l : List β) (pairs : β → List (κ × Nat)) (k : κ) :
    total (l.flatMap pairs) k = (l.map fun b => total (pairs b) k).sum := by
  induction l with
  | nil => rfl
  | cons b l ih => rw [List.flatMap_cons, total_append, ih, List.map_cons, List.sum_cons]

theorem get?_sums (pairs : List (κ × Nat)) (k : κ) :
    (sums pairs).get? k = if k ∈ pairs.map Prod.fst then some (total pairs k) else none := by
  induction pairs using List.reverseRecOn with
  | nil => rfl
  | append_singleton pairs p ih =>
    unfold sums total at ih ⊢
    rw [List.foldl_append, List.foldl_cons, List.foldl_nil, addTo, get?_alter,
      List.filter_append]
    by_cases here : k = p.1
    · subst here
      rw [if_pos rfl, if_pos (by simp), ih]
      by_cases old : p.1 ∈ pairs.map Prod.fst
      · rw [if_pos old]
        simp
      · have none : (pairs.filter fun q => decide (q.1 = p.1)) = [] := by
          rw [List.filter_eq_nil_iff]
          intro q member same
          exact old (of_decide_eq_true same ▸ List.mem_map_of_mem member)
        rw [if_neg old, none]
        simp
    · have apart : ¬ p.1 = k := fun same => here same.symm
      have member : k ∈ (pairs ++ [p]).map Prod.fst ↔ k ∈ pairs.map Prod.fst := by
        simp [here]
      rw [if_neg here, ih, if_congr member rfl rfl]
      simp [apart]

theorem tally_eq_sums (ks : List κ) : tally ks = sums (ks.map fun k => (k, 1)) := by
  unfold tally sums
  rw [List.foldl_map]
  rfl

theorem total_ones (ks : List κ) (k : κ) : total (ks.map fun k => (k, 1)) k = ks.count k := by
  unfold total
  rw [List.filter_map, List.map_map]
  have ones : (Prod.snd ∘ fun k : κ => (k, 1)) = fun _ => 1 := rfl
  rw [ones, List.map_const', List.sum_replicate, smul_eq_mul, mul_one, List.count,
    List.countP_eq_length_filter]
  rfl

theorem get?_tally (ks : List κ) (k : κ) :
    (tally ks).get? k = if k ∈ ks then some (ks.count k) else none := by
  rw [tally_eq_sums, get?_sums, total_ones, List.map_map]
  have ids : (Prod.fst ∘ fun k : κ => (k, 1)) = id := rfl
  rw [ids, List.map_id]

theorem entries_perm {m : SortedMap κ α} {l : List (κ × α)} (nodup : (l.map Prod.fst).Nodup)
    (same : ∀ k v, (k, v) ∈ l ↔ m.get? k = some v) : m.entries.Perm l := by
  have own : m.entries.Nodup := List.Nodup.of_map Prod.fst m.nodup_keys
  refine (List.perm_ext_iff_of_nodup own nodup.of_map).mpr fun e => ?_
  rw [same e.1 e.2, ← mem_entries]

theorem entries_perm_map {m : SortedMap κ α} {ks : List κ} (value : κ → α)
    (known : ∀ k, m.get? k = if k ∈ ks then some (value k) else none) :
    m.entries.Perm (ks.dedup.map fun k => (k, value k)) := by
  refine entries_perm ?_ fun k v => ?_
  · have ids : (Prod.fst ∘ fun k => (k, value k)) = id := rfl
    rw [List.map_map, ids, List.map_id]
    exact ks.nodup_dedup
  · rw [known, List.mem_map]
    constructor
    · rintro ⟨k', member, same⟩
      cases same
      rw [if_pos (List.mem_dedup.mp member)]
    · intro found
      split_ifs at found with member
      · cases found
        exact ⟨k, List.mem_dedup.mpr member, rfl⟩

theorem sum_entries {m : SortedMap κ α} {ks : List κ} {value : κ → α} {l : List (κ × α)}
    (listed : l.Perm m.entries)
    (known : ∀ k, m.get? k = if k ∈ ks then some (value k) else none) (weight : κ × α → Nat) :
    (l.map weight).sum = ∑ k ∈ ks.toFinset, weight (k, value k) := by
  have distinct : ks.toFinset = ks.dedup.toFinset := by
    ext k
    rw [List.mem_toFinset, List.mem_toFinset, List.mem_dedup]
  rw [((listed.trans (entries_perm_map value known)).map weight).sum_eq, List.map_map,
    distinct, List.sum_toFinset _ ks.nodup_dedup]
  rfl

end SortedMap

theorem sortByKey_eq_of_perm {α κ : Type*} [LinearOrder κ] {key : α → κ} {l l' : List α}
    (same : l.Perm l') (told : ∀ a ∈ l, ∀ b ∈ l', key a = key b → a = b) :
    sortByKey key l = sortByKey key l' := by
  refine List.Perm.eq_of_pairwise ?_ (sorted_sortByKey key l) (sorted_sortByKey key l')
    ((perm_sortByKey key l).trans (same.trans (perm_sortByKey key l').symm))
  intro a b here there below above
  exact told a ((perm_sortByKey key l).mem_iff.mp here) b ((perm_sortByKey key l').mem_iff.mp there)
    (le_antisymm below above)

end Lain.Foundation
