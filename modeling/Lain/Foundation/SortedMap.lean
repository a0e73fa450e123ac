import Mathlib

/-!
# Sorted maps

A map as its entries in increasing key order.
-/

namespace Lain.Foundation

structure SortedMap (κ α : Type*) [LinearOrder κ] where
  entries : List (κ × α)
  sorted : entries.Pairwise fun a b => a.1 < b.1

namespace SortedMap

variable {κ α β : Type*} [LinearOrder κ]

instance : EmptyCollection (SortedMap κ α) := ⟨⟨[], .nil⟩⟩

instance [DecidableEq α] : DecidableEq (SortedMap κ α) := fun m n =>
  decidable_of_iff (m.entries = n.entries) ⟨fun h => by cases m; cases n; simp_all, congrArg _⟩

def get? (m : SortedMap κ α) (k : κ) : Option α :=
  (m.entries.find? fun e => decide (e.1 = k)).map Prod.snd

/-- The keys in increasing order. -/
def keys (m : SortedMap κ α) : List κ :=
  m.entries.map Prod.fst

def alterEntries (k : κ) (f : Option α → α) : List (κ × α) → List (κ × α)
  | [] => [(k, f none)]
  | e :: rest =>
    if k < e.1 then (k, f none) :: e :: rest
    else if k = e.1 then (k, f (some e.2)) :: rest
    else e :: alterEntries k f rest

private theorem mem_alterEntries {k : κ} {f : Option α → α} {entries : List (κ × α)}
    {e : κ × α} (member : e ∈ alterEntries k f entries) : e.1 = k ∨ e ∈ entries := by
  induction entries with
  | nil =>
    rw [alterEntries, List.mem_singleton] at member
    exact Or.inl (congrArg Prod.fst member)
  | cons head rest ih =>
    rw [alterEntries] at member
    split at member
    · rcases List.mem_cons.mp member with rfl | old
      · exact Or.inl rfl
      · exact Or.inr old
    · split at member
      · rcases List.mem_cons.mp member with rfl | old
        · exact Or.inl rfl
        · exact Or.inr (List.mem_cons_of_mem _ old)
      · rcases List.mem_cons.mp member with rfl | later
        · exact Or.inr List.mem_cons_self
        · exact (ih later).imp_right (List.mem_cons_of_mem _)

private theorem sorted_alterEntries (k : κ) (f : Option α → α) {entries : List (κ × α)}
    (sorted : entries.Pairwise fun a b => a.1 < b.1) :
    (alterEntries k f entries).Pairwise fun a b => a.1 < b.1 := by
  induction entries with
  | nil => exact List.pairwise_singleton _ _
  | cons head rest ih =>
    obtain ⟨least, later⟩ := List.pairwise_cons.mp sorted
    rw [alterEntries]
    split
    next before =>
        refine List.pairwise_cons.mpr ⟨fun e member => ?_, sorted⟩
        rcases List.mem_cons.mp member with rfl | old
        · exact before
        · exact before.trans (least e old)
    next notBefore =>
        split
        next same =>
            subst same
            exact List.pairwise_cons.mpr ⟨least, later⟩
        next apart =>
            refine List.pairwise_cons.mpr ⟨fun e member => ?_, ih later⟩
            rcases mem_alterEntries member with here | old
            · rw [here]
              exact lt_of_le_of_ne (not_lt.mp notBefore) fun h => apart h.symm
            · exact least e old

def alter (m : SortedMap κ α) (k : κ) (f : Option α → α) : SortedMap κ α :=
  ⟨alterEntries k f m.entries, sorted_alterEntries k f m.sorted⟩

/-- Put a value under a key. -/
def insert (m : SortedMap κ α) (k : κ) (v : α) : SortedMap κ α :=
  m.alter k fun _ => v

def insertNew (m : SortedMap κ α) (k : κ) (v : α) : SortedMap κ α :=
  m.alter k fun old => old.getD v

def erase (m : SortedMap κ α) (k : κ) : SortedMap κ α :=
  ⟨m.entries.filter fun e => decide (e.1 ≠ k), m.sorted.filter _⟩

def extend (m : SortedMap κ (List α)) (k : κ) (vs : List α) : SortedMap κ (List α) :=
  m.alter k fun old => old.getD [] ++ vs

def bump (m : SortedMap κ Nat) (k : κ) : SortedMap κ Nat :=
  m.alter k fun old => old.getD 0 + 1

def group (pairs : List (κ × α)) : SortedMap κ (List α) :=
  pairs.foldl (fun m p => m.extend p.1 [p.2]) ∅

def mapEntries (m : SortedMap κ α) (f : κ → α → β) : SortedMap κ β :=
  ⟨m.entries.map fun e => (e.1, f e.1 e.2), List.pairwise_map.mpr m.sorted⟩

def filterMapEntries (m : SortedMap κ α) (f : κ → α → Option β) : SortedMap κ β :=
  ⟨m.entries.filterMap fun e => (f e.1 e.2).map fun v => (e.1, v),
    List.pairwise_filterMap.mpr <| m.sorted.imp fun before _ left _ right => by
      obtain ⟨_, _, rfl⟩ := Option.map_eq_some_iff.mp left
      obtain ⟨_, _, rfl⟩ := Option.map_eq_some_iff.mp right
      exact before⟩

def tally (ks : List κ) : SortedMap κ Nat :=
  ks.foldl bump ∅

def ordered (ks : List κ) : List κ :=
  (tally ks).keys

@[simp] theorem get?_empty (k : κ) : get? (∅ : SortedMap κ α) k = none := rfl

theorem nodup_keys (m : SortedMap κ α) : m.keys.Nodup :=
  List.pairwise_map.mpr (m.sorted.imp ne_of_lt)

theorem mem_entries {m : SortedMap κ α} {k : κ} {v : α} :
    (k, v) ∈ m.entries ↔ m.get? k = some v := by
  have search : ∀ entries : List (κ × α), entries.Pairwise (fun a b => a.1 < b.1) →
      ((k, v) ∈ entries ↔ (entries.find? fun e => decide (e.1 = k)).map Prod.snd = some v) := by
    intro entries
    induction entries with
    | nil => simp
    | cons head rest ih =>
      intro sorted
      obtain ⟨least, later⟩ := List.pairwise_cons.mp sorted
      rw [List.mem_cons, ih later]
      by_cases here : head.1 = k
      · have absent : (rest.find? fun e => decide (e.1 = k)) = none := by
          refine List.find?_eq_none.mpr fun e member => ?_
          have apart := (least e member).ne'
          rw [here] at apart
          simpa using apart
        rw [List.find?_cons_of_pos (by simpa using here), absent]
        subst here
        simp [Prod.ext_iff, eq_comm]
      · rw [List.find?_cons_of_neg (by simpa using here)]
        have apart : (k, v) ≠ head := fun h => here (congrArg Prod.fst h).symm
        simp [apart]
  exact search m.entries m.sorted

theorem get?_filterMapEntries (m : SortedMap κ α) (f : κ → α → Option β) (k : κ) :
    (m.filterMapEntries f).get? k = (m.get? k).bind (f k) := by
  refine Option.ext fun v => ?_
  rw [← mem_entries, Option.bind_eq_some_iff]
  constructor
  · intro member
    obtain ⟨⟨k', old⟩, inside, kept⟩ := List.mem_filterMap.mp member
    obtain ⟨new, made, same⟩ := Option.map_eq_some_iff.mp kept
    obtain ⟨rfl, rfl⟩ := Prod.mk.inj same
    exact ⟨old, mem_entries.mp inside, made⟩
  · rintro ⟨old, found, made⟩
    exact List.mem_filterMap.mpr ⟨(k, old), mem_entries.mpr found, by rw [made]; rfl⟩

theorem get?_mapEntries (m : SortedMap κ α) (f : κ → α → β) (k : κ) :
    (m.mapEntries f).get? k = (m.get? k).map (f k) := by
  refine Option.ext fun v => ?_
  rw [← mem_entries, Option.map_eq_some_iff]
  constructor
  · intro member
    obtain ⟨⟨k', old⟩, inside, same⟩ := List.mem_map.mp member
    obtain ⟨rfl, rfl⟩ := Prod.mk.inj same
    exact ⟨old, mem_entries.mp inside, rfl⟩
  · rintro ⟨old, found, rfl⟩
    exact List.mem_map_of_mem (mem_entries.mpr found)

theorem mem_keys {m : SortedMap κ α} {k : κ} : k ∈ m.keys ↔ (m.get? k).isSome = true := by
  unfold keys
  rw [List.mem_map, Option.isSome_iff_exists]
  constructor
  · rintro ⟨⟨k', v⟩, member, rfl⟩
    exact ⟨v, mem_entries.mp member⟩
  · rintro ⟨v, found⟩
    exact ⟨(k, v), mem_entries.mpr found, rfl⟩

/-- **Maps with the same lookups are equal.** -/
theorem ext_get? {m n : SortedMap κ α} (same : ∀ k, m.get? k = n.get? k) : m = n := by
  have members : ∀ e, e ∈ m.entries ↔ e ∈ n.entries := by
    rintro ⟨k, v⟩
    rw [mem_entries, mem_entries, same]
  have nodup : ∀ l : SortedMap κ α, l.entries.Nodup := fun l =>
    l.sorted.imp fun before h => before.ne (congrArg Prod.fst h)
  have perm := (List.perm_ext_iff_of_nodup (nodup m) (nodup n)).mpr members
  have equal := perm.eq_of_pairwise (fun a b _ _ ab ba => absurd ab ba.asymm) m.sorted n.sorted
  cases m
  cases n
  simp_all

theorem get?_alter (m : SortedMap κ α) (k k' : κ) (f : Option α → α) :
    (m.alter k f).get? k' = if k' = k then some (f (m.get? k)) else m.get? k' := by
  have search : ∀ entries : List (κ × α), entries.Pairwise (fun a b => a.1 < b.1) →
      ((alterEntries k f entries).find? fun e => decide (e.1 = k')).map Prod.snd =
        if k' = k then
          some (f ((entries.find? fun e => decide (e.1 = k)).map Prod.snd))
        else (entries.find? fun e => decide (e.1 = k')).map Prod.snd := by
    intro entries
    induction entries with
    | nil =>
      intro _
      by_cases same : k' = k
      · simp [alterEntries, same]
      · have apart : ¬ k = k' := fun h => same h.symm
        simp [alterEntries, same, apart]
    | cons head rest ih =>
      intro sorted
      obtain ⟨least, later⟩ := List.pairwise_cons.mp sorted
      rw [alterEntries]
      split
      next before =>
          have absent : ((head :: rest).find? fun e => decide (e.1 = k)) = none := by
            refine List.find?_eq_none.mpr fun e member => ?_
            have above : k < e.1 := by
              rcases List.mem_cons.mp member with rfl | old
              · exact before
              · exact before.trans (least e old)
            simpa using above.ne'
          by_cases same : k' = k
          · subst same
            simp [absent]
          · have apart : ¬ k = k' := fun h => same h.symm
            rw [List.find?_cons_of_neg (by simpa using apart), if_neg same]
      next notBefore =>
          split
          next here =>
              by_cases same : k' = k
              · simp [same, here]
              · have apart : ¬ k = k' := fun h => same h.symm
                have apart' : ¬ head.1 = k' := here ▸ apart
                simp [same, apart, apart']
          next apart =>
              have elsewhere : ¬ head.1 = k := fun h => apart h.symm
              have skip : ((head :: rest).find? fun e => decide (e.1 = k)) =
                  rest.find? fun e => decide (e.1 = k) :=
                List.find?_cons_of_neg (by simpa using elsewhere)
              rw [skip]
              by_cases here : head.1 = k'
              · have differs : k' ≠ k := fun h => elsewhere (here.trans h)
                simp [here, differs]
              · rw [List.find?_cons_of_neg (by simpa using here),
                  List.find?_cons_of_neg (by simpa using here)]
                exact ih later
  exact search m.entries m.sorted

theorem get?_insert (m : SortedMap κ α) (k k' : κ) (v : α) :
    (m.insert k v).get? k' = if k' = k then some v else m.get? k' :=
  m.get?_alter k k' _

theorem get?_erase (m : SortedMap κ α) (k k' : κ) :
    (m.erase k).get? k' = if k' = k then none else m.get? k' := by
  refine Option.ext fun v => ?_
  rw [← mem_entries]
  unfold erase
  rw [List.mem_filter, mem_entries]
  by_cases same : k' = k <;> simp [same]

theorem get?_foldl_erase {ε : Type*} (key : ε → κ) (l : List ε) (m : SortedMap κ α) (k : κ) :
    (l.foldl (fun m e => m.erase (key e)) m).get? k =
      if k ∈ l.map key then none else m.get? k := by
  induction l generalizing m with
  | nil => simp
  | cons e rest ih =>
    rw [List.foldl_cons, ih, get?_erase, List.map_cons]
    by_cases here : k = key e
    · simp [here]
    · simp [here]

theorem get?_foldl_insert {ε : Type*} (key : ε → κ) (value : ε → α) (last : ε)
    {before after : List ε} (later : ∀ e ∈ after, key e ≠ key last) (m : SortedMap κ α) :
    ((before ++ last :: after).foldl (fun m e => m.insert (key e) (value e)) m).get? (key last) =
      some (value last) := by
  rw [List.foldl_append, List.foldl_cons]
  have kept : ∀ (rest : List ε) (m : SortedMap κ α), (∀ e ∈ rest, key e ≠ key last) →
      (rest.foldl (fun m e => m.insert (key e) (value e)) m).get? (key last) =
        m.get? (key last) := by
    intro rest
    induction rest with
    | nil => exact fun _ _ => rfl
    | cons e rest ih =>
      intro m apart
      rw [List.foldl_cons, ih _ fun e' member => apart e' (List.mem_cons_of_mem _ member),
        get?_insert, if_neg (apart e List.mem_cons_self).symm]
  rw [kept after _ later, get?_insert, if_pos rfl]

theorem get?_foldl_insert_eq_some {entries : List (κ × α)} {k : κ} {v : α} :
    (entries.foldl (fun m e => m.insert e.1 e.2) (∅ : SortedMap κ α)).get? k = some v ↔
      ∃ front back, entries = front ++ (k, v) :: back ∧ ∀ e ∈ back, e.1 ≠ k := by
  constructor
  · induction entries using List.reverseRecOn with
    | nil => exact fun found => by cases found
    | append_singleton entries e ih =>
      rw [List.foldl_append, List.foldl_cons, List.foldl_nil, get?_insert]
      split_ifs with same
      · rintro ⟨rfl⟩
        exact ⟨entries, [], by rw [same], fun _ member => absurd member List.not_mem_nil⟩
      · intro found
        obtain ⟨front, back, rfl, later⟩ := ih found
        refine ⟨front, back ++ [e], by simp, fun e' member => ?_⟩
        rcases List.mem_append.mp member with before | last
        · exact later e' before
        · rw [List.mem_singleton.mp last]
          exact Ne.symm same
  · rintro ⟨front, back, rfl, later⟩
    exact get?_foldl_insert Prod.fst Prod.snd (k, v) later ∅

theorem get?_foldl_insert_of_distinct {entries : List (κ × α)}
    (distinct : entries.Pairwise fun e e' => e.1 ≠ e'.1) {k : κ} {v : α} :
    (entries.foldl (fun m e => m.insert e.1 e.2) (∅ : SortedMap κ α)).get? k = some v ↔
      (k, v) ∈ entries := by
  rw [get?_foldl_insert_eq_some]
  constructor
  · rintro ⟨front, back, rfl, -⟩
    simp
  · intro member
    obtain ⟨front, back, rfl⟩ := List.append_of_mem member
    have later := (List.pairwise_append.mp distinct).2.1
    exact ⟨front, back, rfl, fun e listed => ((List.pairwise_cons.mp later).1 e listed).symm⟩

theorem length_insert_le (m : SortedMap κ α) (k : κ) (v : α) :
    (m.insert k v).entries.length ≤ m.entries.length + 1 := by
  change (alterEntries k (fun _ => v) m.entries).length ≤ _
  induction m.entries with
  | nil => exact Nat.le_refl 1
  | cons head rest ih =>
    rw [alterEntries]
    split
    · exact Nat.le_refl _
    · split
      · exact Nat.le_succ _
      · exact Nat.succ_le_succ ih

theorem length_erase_le (m : SortedMap κ α) (k : κ) :
    (m.erase k).entries.length ≤ m.entries.length :=
  List.length_filter_le _ _

theorem get?_insertNew (m : SortedMap κ α) (k k' : κ) (v : α) :
    (m.insertNew k v).get? k' = if k' = k then some ((m.get? k).getD v) else m.get? k' :=
  m.get?_alter k k' _

theorem get?_foldl_insertNew (key : α → Option κ) (l : List α) (k : κ) :
    (l.foldl (fun m e =>
      match key e with
      | none => m
      | some k => m.insertNew k e) (∅ : SortedMap κ α)).get? k =
      l.find? fun e => decide (key e = some k) := by
  induction l using List.reverseRecOn with
  | nil => rfl
  | append_singleton l last ih =>
    rw [List.foldl_append, List.foldl_cons, List.foldl_nil, List.find?_append, ← ih]
    cases within : key last with
    | none => simp [within]
    | some k' =>
      dsimp only
      rw [get?_insertNew]
      by_cases here : k = k'
      · subst here
        rw [if_pos rfl, List.find?_cons_of_pos (by simp [within])]
        cases (l.foldl _ _ : SortedMap κ α).get? k <;> rfl
      · have apart : ¬ k' = k := fun h => here h.symm
        rw [if_neg here, List.find?_cons_of_neg (by simp [within, apart]), List.find?_nil,
          Option.or_none]

theorem get?_extend (m : SortedMap κ (List α)) (k k' : κ) (vs : List α) :
    (m.extend k vs).get? k' =
      if k' = k then some ((m.get? k).getD [] ++ vs) else m.get? k' :=
  m.get?_alter k k' _

theorem mem_ordered {ks : List κ} {k : κ} : k ∈ ordered ks ↔ k ∈ ks := by
  unfold ordered
  rw [mem_keys]
  induction ks using List.reverseRecOn with
  | nil => simp [tally]
  | append_singleton ks k' ih =>
    unfold tally at ih ⊢
    rw [List.foldl_append, List.foldl_cons, List.foldl_nil, bump, get?_alter, List.mem_append,
      List.mem_singleton, ← ih]
    by_cases here : k = k'
    · simp [here]
    · simp [here]

theorem getD_group (pairs : List (κ × α)) (k : κ) :
    ((group pairs).get? k).getD [] = (pairs.filter fun p => decide (p.1 = k)).map Prod.snd := by
  induction pairs using List.reverseRecOn with
  | nil => rfl
  | append_singleton pairs p ih =>
    unfold group at ih ⊢
    rw [List.foldl_append, List.foldl_cons, List.foldl_nil, get?_extend, List.filter_append,
      List.map_append]
    by_cases here : k = p.1
    · subst here
      simp [ih]
    · have apart : ¬ p.1 = k := fun h => here h.symm
      simp [here, apart, ih]

theorem isSome_group (pairs : List (κ × α)) (k : κ) :
    ((group pairs).get? k).isSome = true ↔ ∃ p ∈ pairs, p.1 = k := by
  induction pairs using List.reverseRecOn with
  | nil => simp [group]
  | append_singleton pairs p ih =>
    unfold group at ih ⊢
    rw [List.foldl_append, List.foldl_cons, List.foldl_nil, get?_extend]
    by_cases here : k = p.1
    · subst here
      simp
    · have apart : ¬ p.1 = k := fun h => here h.symm
      simp [here, apart, ih, or_and_right, exists_or]

end SortedMap

end Lain.Foundation
