import Mathlib
import Lain.Foundation.Text

/-!
# Beginnings and last pieces of a text

Texts that begin a text are prefixes of its characters, and a text is cut at the last occurrence of
a character by cutting its reverse at the first one.
-/

namespace Lain.Foundation.Text

def rsplitOnce (s : String) (c : Char) : Option (String × String) :=
  (cutChars [c] s.toList.reverse).map fun cut =>
    (String.ofList cut.2.reverse, String.ofList cut.1.reverse)

/-! ### Beginnings -/

theorem startsWith_iff {s front : String} :
    startsWith s front = true ↔ front.toList <+: s.toList := by
  unfold startsWith
  rw [List.isPrefixOf_iff_prefix]

theorem exists_append_of_startsWith {s p q : String} (first : startsWith s p = true)
    (second : startsWith s q = true) (shorter : p.utf8ByteSize ≤ q.utf8ByteSize) :
    ∃ rest, q = p ++ rest := by
  rw [startsWith_iff] at first second
  obtain front | front := List.prefix_or_prefix_of_prefix first second
  · obtain ⟨rest, same⟩ := front
    exact ⟨String.ofList rest, String.toList_injective (by simp [same])⟩
  · obtain ⟨rest, same⟩ := front
    have whole : p = q ++ String.ofList rest := String.toList_injective (by simp [same])
    have size := congrArg String.utf8ByteSize whole
    rw [String.utf8ByteSize_append] at size
    have none : (String.ofList rest).utf8ByteSize = 0 := by omega
    rw [String.utf8ByteSize_eq_zero_iff] at none
    exact ⟨"", by rw [whole, none]; simp⟩

theorem eq_of_startsWith {s p q : String} (first : startsWith s p = true)
    (second : startsWith s q = true) (same : p.utf8ByteSize = q.utf8ByteSize) : p = q := by
  obtain ⟨rest, rfl⟩ := exists_append_of_startsWith first second same.le
  rw [String.utf8ByteSize_append] at same
  have none : rest.utf8ByteSize = 0 := by omega
  rw [String.utf8ByteSize_eq_zero_iff] at none
  simp [none]

theorem stripPrefix_eq_some {s front rest : String} :
    stripPrefix s front = some rest ↔ s = front ++ rest := by
  unfold stripPrefix
  rw [Option.map_eq_some_iff]
  constructor
  · rintro ⟨chars, found, rfl⟩
    rw [List.isPrefixOf?_eq_some_iff_append_eq] at found
    exact String.toList_injective (by simp [found])
  · rintro rfl
    exact ⟨rest.toList, List.isPrefixOf?_eq_some_iff_append_eq.mpr (by simp), by simp⟩

theorem stripPrefix_eq_none {s front : String} :
    stripPrefix s front = none ↔ ¬front.toList <+: s.toList := by
  unfold stripPrefix
  rw [Option.map_eq_none_iff, Option.eq_none_iff_forall_ne_some]
  constructor
  · rintro unmatched ⟨rest, whole⟩
    exact unmatched rest (List.isPrefixOf?_eq_some_iff_append_eq.mpr whole)
  · intro apart rest found
    exact apart ⟨rest, List.isPrefixOf?_eq_some_iff_append_eq.mp found⟩

/-! ### Cuts -/

theorem cutChars_of_notMem {c : Char} {s : List Char} (free : c ∉ s) : cutChars [c] s = none := by
  induction s with
  | nil => rfl
  | cons x rest ih =>
    obtain ⟨other, free⟩ := not_or.mp (mt List.mem_cons.mpr free)
    simp [cutChars, List.isPrefixOf?, other, ih free]

theorem cutChars_append_pattern {c : Char} {pattern front : List Char} (free : c ∉ front)
    (rest : List Char) :
    cutChars (c :: pattern) (front ++ (c :: pattern ++ rest)) = some (front, rest) := by
  have matched : (c :: pattern).isPrefixOf? (c :: (pattern ++ rest)) = some rest :=
    List.isPrefixOf?_eq_some_iff_append_eq.mpr rfl
  induction front with
  | nil => rw [List.nil_append, List.cons_append, cutChars, matched]
  | cons x front ih =>
    obtain ⟨other, free⟩ := not_or.mp (mt List.mem_cons.mpr free)
    have unmatched : (c :: pattern).isPrefixOf? (x :: (front ++ (c :: pattern ++ rest))) =
        none := by simp [List.isPrefixOf?, other]
    rw [List.cons_append, cutChars, unmatched, ih free]
    rfl

theorem rsplitOnce_append {c : Char} (front : List Char) {rest : List Char} (free : c ∉ rest) :
    rsplitOnce (String.ofList (front ++ c :: rest)) c =
      some (String.ofList front, String.ofList rest) := by
  unfold rsplitOnce
  rw [String.toList_ofList, List.reverse_append, List.reverse_cons, List.append_assoc,
    List.singleton_append, cutChars_append (by simpa using free)]
  simp

theorem rsplitOnce_of_notMem {c : Char} {s : String} (free : c ∉ s.toList) :
    rsplitOnce s c = none := by
  unfold rsplitOnce
  rw [cutChars_of_notMem (by simpa using free), Option.map_none]

theorem splitChars_append_cons (c : Char) (front rest : List Char) :
    splitChars c (front ++ c :: rest) = splitChars c front ++ splitChars c rest := by
  induction front with
  | nil => simp [splitChars]
  | cons x front ih =>
    rw [List.cons_append, splitChars, splitChars]
    by_cases here : x = c
    · rw [if_pos here, if_pos here, ih, List.cons_append]
    · rw [if_neg here, if_neg here, ih]
      cases pieces : splitChars c front with
      | nil => exact absurd pieces (splitChars_ne_nil c front)
      | cons piece later => rfl

end Lain.Foundation.Text
