import Mathlib
import Lain.Foundation.TextEnds

/-!
# Fields

The fields of a list are its non-empty pieces between the occurrences of a separator.
-/

namespace Lain.Foundation

variable {α : Type*} [DecidableEq α]

def fields (sep : α) (l : List α) : List (List α) :=
  (l.splitOn sep).filter fun piece => decide (piece ≠ [])

/-- No field is unfinished at the end of a list. -/
def Ends (sep : α) (l : List α) : Prop :=
  l = [] ∨ l.getLast? = some sep

def Begins (sep : α) (l : List α) : Prop :=
  l = [] ∨ l.head? = some sep

instance (sep : α) (l : List α) : Decidable (Ends sep l) :=
  inferInstanceAs (Decidable (l = [] ∨ l.getLast? = some sep))

instance (sep : α) (l : List α) : Decidable (Begins sep l) :=
  inferInstanceAs (Decidable (l = [] ∨ l.head? = some sep))

variable {sep : α} {a b l : List α}

@[simp] theorem fields_nil : fields sep [] = [] := rfl

theorem fields_append_cons (sep : α) (a b : List α) :
    fields sep (a ++ sep :: b) = fields sep a ++ fields sep b := by
  unfold fields
  rw [List.splitOn_append_cons_self, List.filter_append]

theorem fields_of_notMem (free : sep ∉ l) (filled : l ≠ []) : fields sep l = [l] := by
  unfold fields
  rw [List.splitOn_eq_singleton free]
  simp [filled]

theorem of_mem_splitOn {piece : List α} (member : piece ∈ l.splitOn sep) :
    ∀ x ∈ piece, x ∈ l ∧ x ≠ sep := by
  induction l generalizing piece with
  | nil =>
    obtain rfl := List.mem_singleton.mp member
    exact fun x none => absurd none List.not_mem_nil
  | cons y rest ih =>
    rw [List.splitOn_cons_eq_if_modifyHead] at member
    have below : ∀ {piece}, piece ∈ rest.splitOn sep → ∀ x ∈ piece, x ∈ y :: rest ∧ x ≠ sep :=
      fun inside x within =>
        ⟨List.mem_cons_of_mem y (ih inside x within).1, (ih inside x within).2⟩
    split at member
    · rcases List.mem_cons.mp member with rfl | later
      · exact fun x none => absurd none List.not_mem_nil
      · exact below later
    next other =>
        cases pieces : rest.splitOn sep with
        | nil => exact absurd pieces (List.splitOn_ne_nil sep rest)
        | cons first later =>
          rw [pieces] at member
          rcases List.mem_cons.mp member with rfl | deeper
          · refine List.forall_mem_cons.mpr ⟨⟨List.mem_cons_self, by simpa using other⟩, ?_⟩
            exact below (pieces ▸ List.mem_cons_self)
          · exact below (pieces ▸ List.mem_cons_of_mem first deeper)

theorem of_mem_fields {piece : List α} (member : piece ∈ fields sep l) :
    piece ≠ [] ∧ sep ∉ piece := by
  obtain ⟨inside, filled⟩ := List.mem_filter.mp member
  exact ⟨of_decide_eq_true filled, fun within => (of_mem_splitOn inside sep within).2 rfl⟩

theorem subset_of_mem_fields {piece : List α} (member : piece ∈ fields sep l) : piece ⊆ l :=
  fun x within => (of_mem_splitOn (List.mem_filter.mp member).1 x within).1

theorem exists_mem_fields {x : α} (member : x ∈ l) (other : x ≠ sep) :
    ∃ piece ∈ fields sep l, x ∈ piece := by
  have inside : ∃ piece ∈ l.splitOn sep, x ∈ piece := by
    induction l with
    | nil => cases member
    | cons y rest ih =>
      rw [List.splitOn_cons_eq_if_modifyHead]
      split
      next here =>
          obtain rfl := eq_of_beq here
          obtain ⟨piece, among, within⟩ := ih ((List.mem_cons.mp member).resolve_left other)
          exact ⟨piece, List.mem_cons_of_mem [] among, within⟩
      · cases pieces : rest.splitOn sep with
        | nil => exact absurd pieces (List.splitOn_ne_nil sep rest)
        | cons first later =>
          rcases List.mem_cons.mp member with rfl | deeper
          · exact ⟨x :: first, List.mem_cons_self, List.mem_cons_self⟩
          · obtain ⟨piece, among, within⟩ := ih deeper
            rw [pieces] at among
            rcases List.mem_cons.mp among with rfl | further
            · exact ⟨y :: piece, List.mem_cons_self, List.mem_cons_of_mem y within⟩
            · exact ⟨piece, List.mem_cons_of_mem _ further, within⟩
  obtain ⟨piece, among, within⟩ := inside
  exact ⟨piece, List.mem_filter.mpr ⟨among, decide_eq_true (List.ne_nil_of_mem within)⟩, within⟩

theorem fields_map {β : Type*} [DecidableEq β] {f : α → β} (injective : Function.Injective f)
    (l : List α) : fields (f sep) (l.map f) = (fields sep l).map (List.map f) := by
  have split : (l.map f).splitOn (f sep) = (l.splitOn sep).map (List.map f) := by
    induction l with
    | nil => rfl
    | cons x rest ih =>
      rw [List.map_cons, List.splitOn_cons_eq_if_modifyHead, List.splitOn_cons_eq_if_modifyHead,
        ih]
      by_cases here : x = sep
      · simp [here]
      · have other : f x ≠ f sep := fun same => here (injective same)
        rw [if_neg (by simpa using other), if_neg (by simpa using here)]
        cases rest.splitOn sep <;> rfl
  unfold fields
  rw [split, List.filter_map]
  congr 1
  refine List.filter_congr fun piece _ => ?_
  simp

/-! ### Cutting a list -/

theorem Ends.fields_append (ends : Ends sep a) (b : List α) :
    fields sep (a ++ b) = fields sep a ++ fields sep b := by
  rcases ends with rfl | last
  · rfl
  · obtain ⟨front, rfl⟩ : ∃ front, a = front ++ [sep] :=
      ⟨a.dropLast, (List.dropLast_append_getLast? _ last).symm⟩
    rw [List.append_assoc, List.singleton_append, fields_append_cons, fields_append_cons,
      fields_nil, List.append_nil]

theorem Begins.fields_append (a : List α) (begins : Begins sep b) :
    fields sep (a ++ b) = fields sep a ++ fields sep b := by
  rcases begins with rfl | first
  · rw [List.append_nil, fields_nil, List.append_nil]
  · obtain ⟨rest, rfl⟩ : ∃ rest, b = sep :: rest :=
      ⟨b.tail, (List.cons_head?_tail first).symm⟩
    have own := fields_append_cons sep [] rest
    rw [List.nil_append, fields_nil, List.nil_append] at own
    rw [fields_append_cons, own]

theorem exists_last_field (unfinished : ¬ Ends sep a) :
    ∃ front last, a = front ++ last ∧ Ends sep front ∧ sep ∉ last ∧ last ≠ [] := by
  have cut : ∀ a : List α, ∃ front last, a = front ++ last ∧ Ends sep front ∧ sep ∉ last := by
    intro a
    induction a using List.reverseRecOn with
    | nil => exact ⟨[], [], rfl, Or.inl rfl, List.not_mem_nil⟩
    | append_singleton a x ih =>
      by_cases here : x = sep
      · exact ⟨a ++ [x], [], by simp, Or.inr (by simp [here]), List.not_mem_nil⟩
      · obtain ⟨front, last, rfl, ends, free⟩ := ih
        refine ⟨front, last ++ [x], by simp, ends, ?_⟩
        simp [free, Ne.symm here]
  obtain ⟨front, last, rfl, ends, free⟩ := cut a
  refine ⟨front, last, rfl, ends, free, fun none => unfinished ?_⟩
  rw [none, List.append_nil]
  exact ends

theorem exists_first_field (going : ¬ Begins sep b) :
    ∃ first rest, b = first ++ rest ∧ Begins sep rest ∧ sep ∉ first ∧ first ≠ [] := by
  have cut : ∀ b : List α, ∃ first rest, b = first ++ rest ∧ Begins sep rest ∧ sep ∉ first := by
    intro b
    induction b with
    | nil => exact ⟨[], [], rfl, Or.inl rfl, List.not_mem_nil⟩
    | cons x b ih =>
      by_cases here : x = sep
      · exact ⟨[], x :: b, rfl, Or.inr (by simp [here]), List.not_mem_nil⟩
      · obtain ⟨first, rest, rfl, begins, free⟩ := ih
        refine ⟨x :: first, rest, rfl, begins, ?_⟩
        simp [free, Ne.symm here]
  obtain ⟨first, rest, rfl, begins, free⟩ := cut b
  refine ⟨first, rest, rfl, begins, free, fun none => going ?_⟩
  rw [none, List.nil_append]
  exact begins

/-- **A cut within a field** makes two fields of one. -/
theorem fields_append_of_cut (unfinished : ¬ Ends sep a) (going : ¬ Begins sep b) :
    ∃ early left right later, fields sep a = early ++ [left] ∧ fields sep b = right :: later ∧
      fields sep (a ++ b) = early ++ (left ++ right) :: later := by
  obtain ⟨front, last, rfl, ends, freeLast, filledLast⟩ := exists_last_field unfinished
  obtain ⟨first, rest, rfl, begins, freeFirst, filledFirst⟩ := exists_first_field going
  have free : sep ∉ last ++ first := by simp [freeLast, freeFirst]
  have filled : last ++ first ≠ [] := by simp [filledLast]
  refine ⟨fields sep front, last, first, fields sep rest, ?_, ?_, ?_⟩
  · rw [ends.fields_append, fields_of_notMem freeLast filledLast]
  · rw [begins.fields_append, fields_of_notMem freeFirst filledFirst]
    rfl
  · rw [List.append_assoc, ends.fields_append, ← List.append_assoc, begins.fields_append,
      fields_of_notMem free filled]
    rfl

/-! ### Putting fields together -/

theorem fields_intercalate {pieces : List (List α)}
    (proper : ∀ piece ∈ pieces, piece ≠ [] ∧ sep ∉ piece) :
    fields sep ([sep].intercalate pieces) = pieces := by
  induction pieces with
  | nil => rfl
  | cons piece rest ih =>
    obtain ⟨here, later⟩ := List.forall_mem_cons.mp proper
    cases rest with
    | nil =>
      rw [List.intercalate_singleton]
      exact fields_of_notMem here.2 here.1
    | cons next rest =>
      rw [List.intercalate_cons_cons, List.append_assoc, List.singleton_append,
        fields_append_cons, ih later, fields_of_notMem here.2 here.1]
      rfl

theorem splitOn_rooted {pieces : List (List α)} (some : pieces ≠ [])
    (free : ∀ piece ∈ pieces, sep ∉ piece) :
    (sep :: [sep].intercalate pieces).splitOn sep = [] :: pieces := by
  rw [List.splitOn_cons_eq_if_modifyHead, if_pos (beq_self_eq_true sep),
    List.splitOn_intercalate sep free some]

theorem rooted_filled {pieces : List (List α)} (some : pieces ≠ [])
    (proper : ∀ piece ∈ pieces, piece ≠ [] ∧ sep ∉ piece) {front rest : List α}
    (whole : sep :: [sep].intercalate pieces = front ++ sep :: rest) :
    [] ∉ rest.splitOn sep := by
  intro empty
  have cut := splitOn_rooted some fun piece member => (proper piece member).2
  rw [whole, List.splitOn_append_cons_self] at cut
  cases early : front.splitOn sep with
  | nil => exact List.splitOn_ne_nil sep front early
  | cons first later =>
    rw [early] at cut
    have same := (List.cons.inj cut).2
    have member : [] ∈ pieces := same ▸ List.mem_append_right later empty
    exact (proper [] member).1 rfl

omit [DecidableEq α] in
theorem intercalate_concat (front : List (List α)) (last : List α) :
    [sep].intercalate (front ++ [last]) = (front.flatMap fun piece => piece ++ [sep]) ++ last := by
  induction front with
  | nil => exact List.intercalate_singleton
  | cons piece front ih =>
    rw [List.cons_append, List.intercalate_cons_of_ne_nil (by simp), ih, List.flatMap_cons]
    simp

omit [DecidableEq α] in
theorem ends_flatMap_concat (front : List (List α)) :
    Ends sep (front.flatMap fun piece => piece ++ [sep]) := by
  rcases List.eq_nil_or_concat front with rfl | ⟨early, piece, rfl⟩
  · exact Or.inl rfl
  · refine Or.inr ?_
    rw [List.concat_eq_append, List.flatMap_append, List.flatMap_singleton, ← List.append_assoc,
      List.getLast?_concat]

theorem fields_flatMap_concat (front : List (List α)) :
    fields sep (front.flatMap fun piece => piece ++ [sep]) = front.flatMap (fields sep) := by
  induction front with
  | nil => rfl
  | cons piece front ih =>
    rw [List.flatMap_cons, List.append_assoc, List.singleton_append, fields_append_cons, ih,
      List.flatMap_cons]

theorem Text.splitChars_eq (c : Char) (s : List Char) : Text.splitChars c s = s.splitOn c := by
  induction s with
  | nil => rfl
  | cons x rest ih =>
    rw [Text.splitChars, ih, List.splitOn_cons_eq_if_modifyHead]
    by_cases here : x = c
    · simp [here]
    · rw [if_neg here, if_neg (by simpa using here)]
      cases pieces : rest.splitOn c with
      | nil => exact absurd pieces (List.splitOn_ne_nil c rest)
      | cons piece later => rfl

end Lain.Foundation
