import Mathlib.Data.List.Basic
import Mathlib.Data.List.Infix

/-!
# Text

Splitting, searching and stripping strings, by structural recursion on their
characters.
-/

namespace Lain.Foundation.Text

def splitChars (c : Char) : List Char → List (List Char)
  | [] => [[]]
  | x :: rest =>
    if x = c then [] :: splitChars c rest
    else
      match splitChars c rest with
      | [] => [[x]]
      | piece :: later => (x :: piece) :: later

def cutChars (pattern : List Char) : List Char → Option (List Char × List Char)
  | [] => if pattern.isEmpty then some ([], []) else none
  | x :: rest =>
    match pattern.isPrefixOf? (x :: rest) with
    | some after => some ([], after)
    | none => (cutChars pattern rest).map fun cut => (x :: cut.1, cut.2)

def split (s : String) (c : Char) : List String :=
  (splitChars c s.toList).map String.ofList

def splitOnce (s pattern : String) : Option (String × String) :=
  (cutChars pattern.toList s.toList).map fun cut => (String.ofList cut.1, String.ofList cut.2)

def startsWith (s front : String) : Bool :=
  front.toList.isPrefixOf s.toList

def endsWith (s tail : String) : Bool :=
  tail.toList.isSuffixOf s.toList

def stripPrefix (s front : String) : Option String :=
  (front.toList.isPrefixOf? s.toList).map String.ofList

def stripSuffix (s tail : String) : Option String :=
  (tail.toList.reverse.isPrefixOf? s.toList.reverse).map fun front => String.ofList front.reverse

/-- A string has a character. -/
def contains (s : String) (c : Char) : Bool :=
  s.toList.contains c

def parseNat (s : String) : Option Nat :=
  let digits := match s.toList with
    | '+' :: rest => rest
    | all => all
  if digits.isEmpty then none
  else digits.foldl (fun value c =>
    value.bind fun n => if c.isDigit then some (10 * n + (c.toNat - '0'.toNat)) else none) (some 0)

theorem splitChars_ne_nil (c : Char) (s : List Char) : splitChars c s ≠ [] := by
  cases s with
  | nil => simp [splitChars]
  | cons x rest =>
    rw [splitChars]
    split
    · simp
    · split <;> simp

theorem splitChars_of_notMem {c : Char} {s : List Char} (free : c ∉ s) : splitChars c s = [s] := by
  induction s with
  | nil => rfl
  | cons x rest ih =>
    obtain ⟨other, free⟩ := not_or.mp (mt List.mem_cons.mpr free)
    rw [splitChars, if_neg (Ne.symm other), ih free]

theorem splitChars_append {c : Char} {front : List Char} (free : c ∉ front) (rest : List Char) :
    splitChars c (front ++ c :: rest) = front :: splitChars c rest := by
  induction front with
  | nil => rw [List.nil_append, splitChars, if_pos rfl]
  | cons x front ih =>
    obtain ⟨other, free⟩ := not_or.mp (mt List.mem_cons.mpr free)
    rw [List.cons_append, splitChars, if_neg (Ne.symm other), ih free]

theorem cutChars_append {c : Char} {front : List Char} (free : c ∉ front) (rest : List Char) :
    cutChars [c] (front ++ c :: rest) = some (front, rest) := by
  induction front with
  | nil => simp [cutChars, List.isPrefixOf?]
  | cons x front ih =>
    obtain ⟨other, free⟩ := not_or.mp (mt List.mem_cons.mpr free)
    simp [cutChars, List.isPrefixOf?, other, ih free]

theorem splitOnce_append {c : Char} {pattern : String} (single : pattern.toList = [c])
    {front : String} (free : c ∉ front.toList) (rest : String) :
    splitOnce (front ++ pattern ++ rest) pattern = some (front, rest) := by
  unfold splitOnce
  rw [String.toList_append, String.toList_append, single, List.append_assoc,
    List.singleton_append, cutChars_append free, Option.map_some, String.ofList_toList,
    String.ofList_toList]

private theorem digits_foldl (digits : List Char) (all : ∀ c ∈ digits, c.isDigit = true)
    (value : Nat) :
    digits.foldl (fun value c =>
      value.bind fun n => if c.isDigit then some (10 * n + (c.toNat - '0'.toNat)) else none)
      (some value) = some (Nat.ofDigitChars 10 digits value) := by
  induction digits generalizing value with
  | nil => rfl
  | cons c rest ih =>
    obtain ⟨digit, all⟩ := List.forall_mem_cons.mp all
    rw [List.foldl_cons, Option.bind_some, if_pos digit, ih all, Nat.ofDigitChars_cons]

theorem isDigit_of_mem_repr {n : Nat} {c : Char} (member : c ∈ n.repr.toList) :
    c.isDigit = true := by
  rw [Nat.toList_repr] at member
  exact Nat.isDigit_of_mem_toDigits (by decide) (by decide) member

theorem parseNat_repr (n : Nat) : parseNat n.repr = some n := by
  have unsigned : ∀ rest, n.repr.toList ≠ '+' :: rest := fun rest spelled =>
    absurd (isDigit_of_mem_repr (spelled ▸ List.mem_cons_self)) (by decide)
  unfold parseNat
  split
  next rest spelled => exact absurd spelled (unsigned rest)
  next =>
    dsimp only
    rw [if_neg (by simp), digits_foldl _ fun _ => isDigit_of_mem_repr, Nat.toList_repr,
      Nat.ofDigitChars_toDigits]
    all_goals decide

end Lain.Foundation.Text
