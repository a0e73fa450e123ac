import Mathlib.Data.Finset.Card
import Mathlib.Data.List.Dedup
import Lain.Foundation.Representatives

/-!
# Offers taken once

Keys are offered in batches, each with the label it would be filed under.
-/

namespace Lain.Foundation

variable {κ δ : Type*} [DecidableEq κ] [DecidableEq δ]

structure Offers (κ δ : Type*) where
  wanted : List κ := []
  known : List κ := []
  taken : List (κ × δ) := []

namespace Offers

/-- How many offers were taken under a label. -/
def count (offers : Offers κ δ) (label : δ) : Nat :=
  (offers.taken.filter fun offer => decide (offer.2 = label)).length

section

variable (present : κ → Bool) (limit : δ → Option Nat)

def full (offers : Offers κ δ) (label : δ) : Bool :=
  match limit label with
  | some most => decide (most ≤ offers.count label)
  | none => false

/-- Take one batch; an absent key whose label is full breaks it off. -/
def takeBatch : Offers κ δ → List (κ × δ) → Offers κ δ
  | offers, [] => offers
  | offers, (key, label) :: rest =>
    if decide (key ∈ offers.known) || present key then
      takeBatch { offers with wanted := offers.wanted ++ [key] } rest
    else if offers.full limit label then
      { offers with wanted := offers.wanted ++ [key], known := offers.known ++ [key] }
    else
      takeBatch
        { wanted := offers.wanted ++ [key]
          known := offers.known ++ [key]
          taken := offers.taken ++ [(key, label)] } rest

def takeAll (batches : List (List (κ × δ))) : Offers κ δ :=
  batches.foldl (takeBatch present limit) {}

end

variable {present : κ → Bool} {limit : δ → Option Nat}

/-! ### What is wanted and taken was offered -/

structure Sound (present : κ → Bool) (offered : List (κ × δ)) (offers : Offers κ δ) : Prop where
  wanted : ∀ key ∈ offers.wanted, ∃ label, (key, label) ∈ offered
  taken : ∀ offer ∈ offers.taken, offer ∈ offered ∧ present offer.1 = false
  known : ∀ key ∈ offers.known, present key = false
  knownWanted : offers.known ⊆ offers.wanted
  takenKnown : offers.taken.map Prod.fst ⊆ offers.known
  nodup : (offers.taken.map Prod.fst).Nodup

omit [DecidableEq κ] [DecidableEq δ] in
theorem Sound.start (offered : List (κ × δ)) : Sound present offered {} where
  wanted := by simp
  taken := by simp
  known := by simp
  knownWanted := by simp
  takenKnown := by simp
  nodup := by simp

theorem Sound.takeBatch {offered : List (κ × δ)} :
    ∀ {batch : List (κ × δ)} {offers : Offers κ δ}, Sound present offered offers →
      batch ⊆ offered → Sound present offered (offers.takeBatch present limit batch) := by
  intro batch
  induction batch with
  | nil => exact fun sound _ => sound
  | cons offer rest ih =>
    obtain ⟨key, label⟩ := offer
    intro offers sound within
    have here : (key, label) ∈ offered := within List.mem_cons_self
    have later : rest ⊆ offered := fun offer member => within (List.mem_cons_of_mem _ member)
    have wanted : ∀ k ∈ offers.wanted ++ [key], ∃ label, (k, label) ∈ offered := by
      intro k member
      rcases List.mem_append.mp member with old | new
      · exact sound.wanted k old
      · exact ⟨label, List.mem_singleton.mp new ▸ here⟩
    rw [Offers.takeBatch]
    split
    next known =>
        exact ih { sound with
          wanted := wanted
          knownWanted := fun k member => List.mem_append_left _ (sound.knownWanted member) } later
    next fresh =>
        rw [Bool.or_eq_true, decide_eq_true_eq, not_or, Bool.not_eq_true] at fresh
        have known : ∀ k ∈ offers.known ++ [key], present k = false := by
          intro k member
          rcases List.mem_append.mp member with old | new
          · exact sound.known k old
          · exact List.mem_singleton.mp new ▸ fresh.2
        have knownWanted : offers.known ++ [key] ⊆ offers.wanted ++ [key] := by
          intro k member
          rcases List.mem_append.mp member with old | new
          · exact List.mem_append_left _ (sound.knownWanted old)
          · exact List.mem_append_right _ new
        split
        next =>
            exact { sound with
              wanted := wanted
              known := known
              knownWanted := knownWanted
              takenKnown := fun k member => List.mem_append_left _ (sound.takenKnown member) }
        next =>
            refine ih
              { wanted := wanted
                known := known
                knownWanted := knownWanted
                taken := fun offer member => ?_
                takenKnown := ?_
                nodup := ?_ } later
            · rcases List.mem_append.mp member with old | new
              · exact sound.taken offer old
              · exact List.mem_singleton.mp new ▸ ⟨here, fresh.2⟩
            · rw [List.map_append]
              intro k member
              rcases List.mem_append.mp member with old | new
              · exact List.mem_append_left _ (sound.takenKnown old)
              · exact List.mem_append_right _ new
            · rw [List.map_append]
              refine sound.nodup.append (List.nodup_singleton _)
                (List.disjoint_singleton.mpr fun member => fresh.1 (sound.takenKnown member))

theorem sound_takeAll (batches : List (List (κ × δ))) :
    Sound present batches.flatten (takeAll present limit batches) := by
  have run : ∀ (later : List (List (κ × δ))) (offers : Offers κ δ),
      Sound present batches.flatten offers → (∀ batch ∈ later, batch ∈ batches) →
        Sound present batches.flatten (later.foldl (takeBatch present limit) offers) := by
    intro later
    induction later with
    | nil => exact fun _ sound _ => sound
    | cons batch later ih =>
      intro offers sound among
      have within : batch ⊆ batches.flatten := fun offer member =>
        List.mem_flatten.mpr ⟨batch, among batch List.mem_cons_self, member⟩
      exact ih _ (sound.takeBatch within)
        fun other member => among other (List.mem_cons_of_mem _ member)
  exact run batches {} (Sound.start _) fun _ member => member

/-! ### Which offers are taken -/

def firsts (present : κ → Bool) (offered : List (κ × δ)) : List (κ × δ) :=
  (firstPer Prod.fst offered).filter fun offer => !present offer.1

def WithinLimits (limit : δ → Option Nat) (offers : List (κ × δ)) : Prop :=
  ∀ label most, limit label = some most →
    (offers.filter fun offer => decide (offer.2 = label)).length ≤ most

omit [DecidableEq δ] in
theorem mem_firsts {offered : List (κ × δ)} {offer : κ × δ} :
    offer ∈ firsts present offered ↔ present offer.1 = false ∧
      (offered.find? fun other => decide (other.1 = offer.1)) = some offer := by
  unfold firsts
  rw [List.mem_filter, mem_firstPer, Bool.not_eq_true', and_comm]

omit [DecidableEq δ] in
theorem mem_keys_firsts {offered : List (κ × δ)} {key : κ} :
    key ∈ (firsts present offered).map Prod.fst ↔
      present key = false ∧ key ∈ offered.map Prod.fst := by
  constructor
  · intro member
    obtain ⟨offer, first, rfl⟩ := List.mem_map.mp member
    obtain ⟨absent, found⟩ := mem_firsts.mp first
    exact ⟨absent, List.mem_map_of_mem (List.mem_of_find?_eq_some found)⟩
  · rintro ⟨absent, member⟩
    obtain ⟨offer, offered', rfl⟩ := List.mem_map.mp member
    cases found : offered.find? fun other => decide (other.1 = offer.1) with
    | none => exact absurd (decide_eq_true rfl) (List.find?_eq_none.mp found offer offered')
    | some first =>
      have same : first.1 = offer.1 := by simpa using List.find?_some found
      rw [← same] at absent found ⊢
      exact List.mem_map_of_mem (mem_firsts.mpr ⟨absent, found⟩)

omit [DecidableEq δ] in
theorem firsts_concat (offered : List (κ × δ)) (offer : κ × δ) :
    firsts present (offered ++ [offer]) =
      if present offer.1 = true ∨ offer.1 ∈ offered.map Prod.fst then firsts present offered
      else firsts present offered ++ [offer] := by
  unfold firsts
  rw [firstPer_concat]
  by_cases again : offer.1 ∈ offered.map Prod.fst
  · rw [if_pos again, if_pos (Or.inr again)]
  · rw [if_neg again, List.filter_append]
    cases here : present offer.1 with
    | true => simp [here]
    | false =>
      rw [if_neg (by simpa using again)]
      simp [here]

omit [DecidableEq δ] in
theorem firsts_append (offered later : List (κ × δ)) :
    (firsts present offered).IsPrefix (firsts present (offered ++ later)) := by
  induction later using List.reverseRecOn with
  | nil => rw [List.append_nil]
  | append_singleton later offer ih =>
    rw [← List.append_assoc, firsts_concat]
    split
    · exact ih
    · exact ih.trans (List.prefix_append _ _)

omit [DecidableEq δ] in
theorem firsts_sublist {more : κ → Bool} (wider : ∀ key, present key = true → more key = true)
    (offered : List (κ × δ)) :
    (firsts more offered).Sublist (firsts present offered) := by
  have same : firsts more offered = (firsts present offered).filter fun offer => !more offer.1 := by
    unfold firsts
    rw [List.filter_filter]
    refine List.filter_congr fun offer _ => ?_
    cases here : present offer.1 with
    | true => rw [wider _ here, Bool.not_true, Bool.false_and]
    | false => rw [Bool.not_false, Bool.and_true]
  rw [same]
  exact List.filter_sublist

omit [DecidableEq κ] in
theorem WithinLimits.sublist {offers fewer : List (κ × δ)} (within : WithinLimits limit offers)
    (sublist : fewer.Sublist offers) : WithinLimits limit fewer :=
  fun label most limited =>
    (sublist.filter _).length_le.trans (within label most limited)

structure Follows (present : κ → Bool) (offered : List (κ × δ)) (offers : Offers κ δ) :
    Prop where
  wanted : offers.wanted = offered.map Prod.fst
  taken : offers.taken = firsts present offered
  known : offers.known = (firsts present offered).map Prod.fst

def Broken (limit : δ → Option Nat) (offers : Offers κ δ) : Prop :=
  (∃ key ∈ offers.known, key ∉ offers.taken.map Prod.fst) ∧
    ∃ label most, limit label = some most ∧ most ≤ offers.count label

omit [DecidableEq δ] in
theorem Follows.start : Follows present ([] : List (κ × δ)) {} where
  wanted := rfl
  taken := rfl
  known := rfl

omit [DecidableEq δ] in
theorem Follows.skip {offered : List (κ × δ)} {offers : Offers κ δ}
    (follows : Follows present offered offers) {key : κ} (label : δ)
    (old : (decide (key ∈ offers.known) || present key) = true) :
    Follows present (offered ++ [(key, label)])
      { offers with wanted := offers.wanted ++ [key] } := by
  have same : firsts present (offered ++ [(key, label)]) = firsts present offered := by
    rw [firsts_concat, if_pos]
    rw [Bool.or_eq_true, decide_eq_true_eq, follows.known, mem_keys_firsts] at old
    exact old.symm.imp_right And.right
  refine ⟨?_, ?_, ?_⟩
  · rw [follows.wanted, List.map_append]
    rfl
  · rw [same, follows.taken]
  · rw [same, follows.known]

omit [DecidableEq δ] in
theorem Follows.firsts_new {offered : List (κ × δ)} {offers : Offers κ δ}
    (follows : Follows present offered offers) {key : κ} (label : δ)
    (new : ¬ (decide (key ∈ offers.known) || present key) = true) :
    firsts present (offered ++ [(key, label)]) = firsts present offered ++ [(key, label)] := by
  rw [firsts_concat, if_neg]
  rintro (here | before)
  · exact new (by rw [here, Bool.or_true])
  · cases here : present key with
    | true => exact new (by rw [here, Bool.or_true])
    | false =>
      refine new (Bool.or_eq_true_iff.mpr (Or.inl (decide_eq_true ?_)))
      rw [follows.known]
      exact mem_keys_firsts.mpr ⟨here, before⟩

omit [DecidableEq δ] in
theorem Follows.take {offered : List (κ × δ)} {offers : Offers κ δ}
    (follows : Follows present offered offers) {key : κ} (label : δ)
    (new : ¬ (decide (key ∈ offers.known) || present key) = true) :
    Follows present (offered ++ [(key, label)])
      { wanted := offers.wanted ++ [key]
        known := offers.known ++ [key]
        taken := offers.taken ++ [(key, label)] } := by
  refine ⟨?_, ?_, ?_⟩
  · rw [follows.wanted, List.map_append]
    rfl
  · rw [follows.firsts_new label new, follows.taken]
  · rw [follows.firsts_new label new, follows.known, List.map_append]
    rfl

omit [DecidableEq κ] in
theorem count_concat (offers : Offers κ δ) (wanted known : List κ) (key : κ) (label other : δ) :
    ({ wanted, known, taken := offers.taken ++ [(key, label)] } : Offers κ δ).count other =
      offers.count other + if label = other then 1 else 0 := by
  unfold count
  rw [List.filter_append, List.length_append]
  by_cases same : label = other
  · simp [same]
  · simp [same]

def Counted (limit : δ → Option Nat) (offers : Offers κ δ) : Prop :=
  ∀ label most, limit label = some most → offers.count label ≤ most

/-- **One batch**: either nothing is broken off, or something is. -/
theorem Follows.takeBatch {offered batch : List (κ × δ)} {offers : Offers κ δ}
    (follows : Follows present offered offers) (counted : Counted limit offers) :
    (Follows present (offered ++ batch) (offers.takeBatch present limit batch) ∧
      Counted limit (offers.takeBatch present limit batch)) ∨
    (Broken limit (offers.takeBatch present limit batch) ∧
      ¬ WithinLimits limit (firsts present (offered ++ batch))) := by
  induction batch generalizing offered offers with
  | nil =>
    rw [List.append_nil]
    exact Or.inl ⟨follows, counted⟩
  | cons offer rest ih =>
    obtain ⟨key, label⟩ := offer
    have onward : offered ++ (key, label) :: rest = (offered ++ [(key, label)]) ++ rest := by
      rw [List.append_assoc, List.singleton_append]
    rw [onward, Offers.takeBatch]
    split
    next old => exact ih (follows.skip label old) counted
    next new =>
        split
        next full =>
            unfold Offers.full at full
            split at full
            next most limited =>
                have most_le := of_decide_eq_true full
                refine Or.inr ⟨⟨⟨key, List.mem_concat_self, fun member => new ?_⟩,
                  label, most, limited, most_le⟩, fun within => ?_⟩
                · rw [Bool.or_eq_true, decide_eq_true_eq, follows.known, ← follows.taken]
                  exact Or.inl member
                · -- this offer would be one too many
                  have few := within.sublist
                    (firsts_append (offered ++ [(key, label)]) rest).sublist label most limited
                  rw [follows.firsts_new label new, ← follows.taken] at few
                  have more := count_concat offers [] [] key label label
                  rw [if_pos rfl] at more
                  unfold count at more most_le
                  dsimp only at more
                  omega
            next => cases full
        next room =>
            refine ih (follows.take label new) fun other most limited => ?_
            rw [count_concat]
            have bound := counted other most limited
            split
            next same =>
                subst same
                have short : offers.full limit label = false := by
                  rw [Bool.not_eq_true] at room
                  exact room
                unfold Offers.full at short
                rw [limited] at short
                have less := of_decide_eq_false short
                omega
            next => exact bound

theorem Broken.takeBatch {offers : Offers κ δ} (broken : Broken limit offers)
    (batch : List (κ × δ)) : Broken limit (offers.takeBatch present limit batch) := by
  induction batch generalizing offers with
  | nil => exact broken
  | cons offer rest ih =>
    obtain ⟨key, label⟩ := offer
    obtain ⟨⟨at', known, missed⟩, other, most, limited, full⟩ := broken
    rw [Offers.takeBatch]
    split
    next => exact ih ⟨⟨at', known, missed⟩, other, most, limited, full⟩
    next new =>
        split
        next =>
            exact ⟨⟨at', List.mem_append_left _ known, missed⟩, other, most, limited, full⟩
        next =>
            refine ih ⟨⟨at', List.mem_append_left _ known, fun member => ?_⟩, other, most,
              limited, ?_⟩
            · rw [List.map_append, List.mem_append] at member
              rcases member with old | here
              · exact missed old
              · obtain rfl : at' = key := List.mem_singleton.mp here
                exact new (by rw [decide_eq_true known, Bool.true_or])
            · rw [count_concat]
              exact full.trans (Nat.le_add_right _ _)

theorem Broken.takeBatches {offers : Offers κ δ} (broken : Broken limit offers)
    (batches : List (List (κ × δ))) :
    Broken limit (batches.foldl (Offers.takeBatch present limit) offers) := by
  induction batches generalizing offers with
  | nil => exact broken
  | cons batch later ih => exact ih (broken.takeBatch batch)

theorem takeAll_spec (present : κ → Bool) (limit : δ → Option Nat) (batches : List (List (κ × δ))) :
    (WithinLimits limit (firsts present batches.flatten) ∧
      Follows present batches.flatten (takeAll present limit batches)) ∨
    (¬ WithinLimits limit (firsts present batches.flatten) ∧
      Broken limit (takeAll present limit batches)) := by
  have run : ∀ (later : List (List (κ × δ))) (offered : List (κ × δ)) (offers : Offers κ δ),
      Follows present offered offers → Counted limit offers →
        (Follows present (offered ++ later.flatten) (later.foldl (takeBatch present limit) offers) ∧
          Counted limit (later.foldl (takeBatch present limit) offers)) ∨
        (Broken limit (later.foldl (takeBatch present limit) offers) ∧
          ¬ WithinLimits limit (firsts present (offered ++ later.flatten))) := by
    intro later
    induction later with
    | nil =>
      intro offered offers follows counted
      rw [List.flatten_nil, List.append_nil]
      exact Or.inl ⟨follows, counted⟩
    | cons batch later ih =>
      intro offered offers follows counted
      rw [List.foldl_cons, List.flatten_cons, ← List.append_assoc]
      rcases follows.takeBatch counted with ⟨follows', counted'⟩ | ⟨broken, beyond⟩
      · exact ih _ _ follows' counted'
      · refine Or.inr ⟨?_, fun within => beyond (within.sublist (firsts_append _ _).sublist)⟩
        exact broken.takeBatches later
  rcases run batches [] {} .start fun _ _ _ => Nat.zero_le _ with
    ⟨follows, counted⟩ | ⟨broken, beyond⟩
  · rw [List.nil_append] at follows
    refine Or.inl ⟨fun label most limited => ?_, follows⟩
    rw [← follows.taken]
    exact counted label most limited
  · exact Or.inr ⟨beyond, broken⟩

end Offers

end Lain.Foundation
