import Mathlib

/-!
# White space

The characters of white space, texts cut at them, and texts without them at their ends.
-/

namespace Lain.Foundation.Blanks

def isWhitespace (c : Char) : Bool :=
  (9 ≤ c.toNat && c.toNat ≤ 13) || c.toNat = 0x20 || c.toNat = 0x85 || c.toNat = 0xA0 ||
    c.toNat = 0x1680 || (0x2000 ≤ c.toNat && c.toNat ≤ 0x200A) || c.toNat = 0x2028 ||
    c.toNat = 0x2029 || c.toNat = 0x202F || c.toNat = 0x205F || c.toNat = 0x3000

def splitWhitespace (text : List Char) : List (List Char) :=
  (text.splitOnP isWhitespace).filter (! ·.isEmpty)

def trimEndMatches (drop : Char → Bool) (text : List Char) : List Char :=
  (text.reverse.dropWhile drop).reverse

def trimEnd (text : List Char) : List Char :=
  trimEndMatches isWhitespace text

def trim (text : List Char) : List Char :=
  trimEnd (text.dropWhile isWhitespace)

variable {drop : Char → Bool} {text : List Char}

theorem trimEndMatches_of_last (stays : ∀ c, text.getLast? = some c → drop c = false) :
    trimEndMatches drop text = text := by
  unfold trimEndMatches
  rcases List.eq_nil_or_concat text with rfl | ⟨front, c, rfl⟩
  · rfl
  · rw [List.concat_eq_append, List.reverse_append, List.reverse_singleton,
      List.singleton_append, List.dropWhile_cons_of_neg
        (by rw [stays c (by rw [List.concat_eq_append, List.getLast?_concat])]; simp),
      List.reverse_cons, List.reverse_reverse]

theorem trimEndMatches_concat {c : Char} (goes : drop c = true) :
    trimEndMatches drop (text ++ [c]) = trimEndMatches drop text := by
  unfold trimEndMatches
  rw [List.reverse_append, List.reverse_singleton, List.singleton_append,
    List.dropWhile_cons_of_pos goes]

theorem exists_eq_trimEndMatches_append (drop : Char → Bool) (text : List Char) :
    ∃ tail, text = trimEndMatches drop text ++ tail ∧ ∀ c ∈ tail, drop c = true := by
  refine ⟨(text.reverse.takeWhile drop).reverse, ?_, fun c member =>
    List.mem_takeWhile_imp (List.mem_reverse.mp member)⟩
  unfold trimEndMatches
  rw [← List.reverse_append, List.takeWhile_append_dropWhile, List.reverse_reverse]

theorem exists_eq_trimEnd_append (text : List Char) :
    ∃ blanks, text = trimEnd text ++ blanks ∧ ∀ c ∈ blanks, isWhitespace c = true :=
  exists_eq_trimEndMatches_append isWhitespace text

theorem splitWhitespace_append {front : List Char} {c : Char} (filled : front ≠ [])
    (free : ∀ d ∈ front, isWhitespace d = false) (blank : isWhitespace c = true)
    (rest : List Char) :
    splitWhitespace (front ++ c :: rest) = front :: splitWhitespace rest := by
  unfold splitWhitespace
  rw [List.splitOnP_append_cons _ _ blank, List.splitOnP_eq_singleton free]
  simp [filled]

theorem splitWhitespace_of_free (filled : text ≠ [])
    (free : ∀ d ∈ text, isWhitespace d = false) : splitWhitespace text = [text] := by
  unfold splitWhitespace
  rw [List.splitOnP_eq_singleton free]
  simp [filled]

/-! ### Blanks at the ends -/

theorem trimEndMatches_append_of_all {tail : List Char} (goes : ∀ c ∈ tail, drop c = true)
    (text : List Char) : trimEndMatches drop (text ++ tail) = trimEndMatches drop text := by
  unfold trimEndMatches
  rw [List.reverse_append, List.dropWhile_append_of_pos fun c member =>
    goes c (List.mem_reverse.mp member)]

theorem trimEndMatches_append (last : ∀ c, text.getLast? = some c → drop c = false)
    (rest : List Char) : trimEndMatches drop (text ++ rest) = text ++ trimEndMatches drop rest := by
  obtain ⟨tail, whole, goes⟩ := exists_eq_trimEndMatches_append drop rest
  have front : trimEndMatches drop (text ++ trimEndMatches drop rest) =
      text ++ trimEndMatches drop rest := by
    refine trimEndMatches_of_last fun c ends => ?_
    rcases List.eq_nil_or_concat (trimEndMatches drop rest) with none_ | ⟨front, d, some_⟩
    · rw [none_, List.append_nil] at ends
      exact last c ends
    · rw [some_, List.concat_eq_append, ← List.append_assoc, List.getLast?_concat] at ends
      have stays := List.head?_dropWhile_not drop rest.reverse
      have shape : rest.reverse.dropWhile drop = d :: front.reverse := by
        have turned := congrArg List.reverse some_
        unfold trimEndMatches at turned
        rwa [List.reverse_reverse, List.concat_eq_append, List.reverse_append,
          List.reverse_singleton, List.singleton_append] at turned
      rw [shape, List.head?_cons] at stays
      rw [← Option.some_inj.mp ends]
      simpa using stays
  conv_lhs => rw [whole]
  rw [← List.append_assoc, trimEndMatches_append_of_all goes, front]

theorem trim_append_of_blank {blanks : List Char} (blank : ∀ c ∈ blanks, isWhitespace c = true)
    (text : List Char) : trim (text ++ blanks) = trim text := by
  unfold trim trimEnd
  rw [List.dropWhile_append]
  split_ifs with all
  · rw [List.isEmpty_iff.mp all, List.dropWhile_eq_nil_iff.mpr blank]
  · exact trimEndMatches_append_of_all blank _

theorem trim_blank_append {blanks : List Char} (blank : ∀ c ∈ blanks, isWhitespace c = true)
    (text : List Char) : trim (blanks ++ text) = trim text := by
  unfold trim
  rw [List.dropWhile_append_of_pos blank]

end Lain.Foundation.Blanks
