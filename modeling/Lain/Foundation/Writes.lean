import Mathlib.Data.List.Basic
import Mathlib.Logic.Function.Basic

/-!
# Writes

A write says what a key is to hold, or that it is to hold nothing.
-/

namespace Lain.Foundation

structure Write (κ α : Type*) where
  key : κ
  value : Option α
  deriving DecidableEq

namespace Write

variable {κ α : Type*} [DecidableEq κ]

/-- The values after a write. -/
def apply (m : κ → Option α) (w : Write κ α) : κ → Option α :=
  Function.update m w.key w.value

theorem apply_self (m : κ → Option α) (w : Write κ α) : apply m w w.key = w.value :=
  Function.update_self _ _ _

def applyAll (m : κ → Option α) (ws : List (Write κ α)) : κ → Option α :=
  ws.foldl apply m

def last : List (Write κ α) → κ → Option (Option α)
  | [], _ => none
  | w :: ws, k => (last ws k).or (if w.key = k then some w.value else none)

theorem last_eq_none {ws : List (Write κ α)} {k : κ} :
    last ws k = none ↔ ∀ w ∈ ws, w.key ≠ k := by
  induction ws with
  | nil => exact ⟨fun _ w member => absurd member List.not_mem_nil, fun _ => rfl⟩
  | cons w ws ih =>
    rw [last, Option.or_eq_none_iff, ih, List.forall_mem_cons, and_comm]
    refine and_congr_left fun _ => ?_
    split_ifs with named
    · exact ⟨fun absurdity => absurd absurdity (by simp), fun other => absurd named other⟩
    · exact ⟨fun _ => named, fun _ => rfl⟩

theorem applyAll_append (m : κ → Option α) (ws later : List (Write κ α)) :
    applyAll m (ws ++ later) = applyAll (applyAll m ws) later :=
  List.foldl_append

/-- **A key holds what was last written under it**, or what it held before. -/
theorem applyAll_eq (ws : List (Write κ α)) :
    ∀ (m : κ → Option α) (k : κ), applyAll m ws k = (last ws k).getD (m k) := by
  induction ws with
  | nil => exact fun m k => rfl
  | cons w ws ih =>
    intro m k
    change applyAll (apply m w) ws k = _
    rw [ih, last]
    cases last ws k with
    | some value => rfl
    | none =>
      unfold apply
      by_cases named : w.key = k
      · rw [if_pos named, ← named, Function.update_self]
        rfl
      · rw [if_neg named, Function.update_of_ne (Ne.symm named)]
        rfl

theorem applyAll_of_agrees {ws : List (Write κ α)} {k : κ} {value : Option α}
    (agrees : (last ws k).getD value = value) {m : κ → Option α} (held : m k = value) :
    applyAll m ws k = value := by
  rw [applyAll_eq, held, agrees]

theorem applyAll_apply_of_ne {m : κ → Option α} {w : Write κ α} {k : κ} (other : k ≠ w.key)
    (ws : List (Write κ α)) : applyAll (apply m w) ws k = applyAll m ws k := by
  rw [applyAll_eq, applyAll_eq, apply, Function.update_of_ne other]

end Write

end Lain.Foundation
