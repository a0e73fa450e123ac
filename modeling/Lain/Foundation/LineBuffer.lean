import Mathlib

/-!
# A buffer of lines

What arrives in chunks is kept until a mark ends a line; the lines a chunk completes are handled,
and what follows the last mark waits for the next chunk.
-/

namespace Lain.Foundation.LineBuffer

variable {α σ : Type*} [DecidableEq α]

def takeLines (mark : α) : List α → List (List α) × List α
  | [] => ([], [])
  | x :: rest =>
    if x = mark then ([] :: (takeLines mark rest).1, (takeLines mark rest).2)
    else
      match takeLines mark rest with
      | ([], left) => ([], x :: left)
      | (line :: later, left) => ((x :: line) :: later, left)

def receive (mark : α) (handle : σ → List α → σ) (s : σ × List α) (chunk : List α) :
    σ × List α :=
  ((takeLines mark (s.2 ++ chunk)).1.foldl handle s.1, (takeLines mark (s.2 ++ chunk)).2)

variable {mark : α} {line text : List α}

theorem takeLines_of_notMem (free : mark ∉ text) : takeLines mark text = ([], text) := by
  induction text with
  | nil => rfl
  | cons x rest ih =>
    obtain ⟨other, free⟩ := not_or.mp (mt List.mem_cons.mpr free)
    rw [takeLines, if_neg (Ne.symm other), ih free]

theorem takeLines_line (free : mark ∉ line) (rest : List α) :
    takeLines mark (line ++ mark :: rest) =
      (line :: (takeLines mark rest).1, (takeLines mark rest).2) := by
  induction line with
  | nil => rw [List.nil_append, takeLines, if_pos rfl]
  | cons x line ih =>
    obtain ⟨other, free⟩ := not_or.mp (mt List.mem_cons.mpr free)
    rw [List.cons_append, takeLines, if_neg (Ne.symm other), ih free]

theorem takeLines_flatMap {lines : List (List α)} (free : ∀ line ∈ lines, mark ∉ line)
    (rest : List α) :
    takeLines mark (lines.flatMap (· ++ [mark]) ++ rest) =
      (lines ++ (takeLines mark rest).1, (takeLines mark rest).2) := by
  induction lines with
  | nil => rfl
  | cons line lines ih =>
    rw [List.flatMap_cons, List.append_assoc, List.append_assoc, List.singleton_append,
      takeLines_line (free line List.mem_cons_self),
      ih fun later member => free later (List.mem_cons_of_mem _ member), List.cons_append]

theorem exists_lines (mark : α) (text : List α) :
    ∃ (lines : List (List α)) (rest : List α), text = lines.flatMap (· ++ [mark]) ++ rest ∧
      (∀ line ∈ lines, mark ∉ line) ∧ mark ∉ rest := by
  induction text with
  | nil => exact ⟨[], [], rfl, fun _ member => absurd member List.not_mem_nil, List.not_mem_nil⟩
  | cons x text ih =>
    obtain ⟨lines, rest, rfl, free, last⟩ := ih
    by_cases here : x = mark
    · refine ⟨[] :: lines, rest, by rw [here]; rfl, ?_, last⟩
      intro line member
      rcases List.mem_cons.mp member with rfl | member
      · exact List.not_mem_nil
      · exact free line member
    · cases lines with
      | nil =>
        exact ⟨[], x :: rest, rfl, free, List.not_mem_cons_of_ne_of_not_mem (Ne.symm here) last⟩
      | cons line lines =>
        refine ⟨(x :: line) :: lines, rest, rfl, ?_, last⟩
        intro other member
        rcases List.mem_cons.mp member with rfl | member
        · exact List.not_mem_cons_of_ne_of_not_mem (Ne.symm here)
            (free line List.mem_cons_self)
        · exact free other (List.mem_cons_of_mem _ member)

/-- **What is left joins what comes next.** -/
theorem takeLines_append (text more : List α) :
    takeLines mark (text ++ more) =
      ((takeLines mark text).1 ++ (takeLines mark ((takeLines mark text).2 ++ more)).1,
        (takeLines mark ((takeLines mark text).2 ++ more)).2) := by
  obtain ⟨lines, rest, rfl, free, last⟩ := exists_lines mark text
  have taken : takeLines mark (lines.flatMap (· ++ [mark]) ++ rest) = (lines, rest) := by
    rw [takeLines_flatMap free, takeLines_of_notMem last, List.append_nil]
  rw [taken, List.append_assoc, takeLines_flatMap free]

theorem foldl_receive_of_notMem (handle : σ → List α → σ) (chunks : List (List α)) {s : σ}
    {left : List α} (free : mark ∉ left) :
    chunks.foldl (receive mark handle) (s, left) =
      ((takeLines mark (left ++ chunks.flatten)).1.foldl handle s,
        (takeLines mark (left ++ chunks.flatten)).2) := by
  induction chunks generalizing s left with
  | nil => rw [List.flatten_nil, List.append_nil, takeLines_of_notMem free]; rfl
  | cons chunk chunks ih =>
    obtain ⟨lines, rest, whole, clear, last⟩ := exists_lines mark (left ++ chunk)
    have taken : takeLines mark (left ++ chunk) = (lines, rest) := by
      rw [whole, takeLines_flatMap clear, takeLines_of_notMem last, List.append_nil]
    have fed : receive mark handle (s, left) chunk = (lines.foldl handle s, rest) := by
      unfold receive
      rw [taken]
    rw [List.foldl_cons, fed, ih last, List.flatten_cons, ← List.append_assoc,
      takeLines_append (left ++ chunk), taken, List.foldl_append]

/-- **Chunks are handled as the whole text is**, however it was cut. -/
theorem foldl_receive (handle : σ → List α → σ) (chunks : List (List α)) (s : σ) :
    chunks.foldl (receive mark handle) (s, []) =
      ((takeLines mark chunks.flatten).1.foldl handle s, (takeLines mark chunks.flatten).2) :=
  foldl_receive_of_notMem handle chunks List.not_mem_nil

end Lain.Foundation.LineBuffer
