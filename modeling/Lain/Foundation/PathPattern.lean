import Mathlib.Data.Set.Subsingleton

/-!
# Patterns of paths

A pattern has segments that are fixed or stand for any one, and may be open at its end.
-/

namespace Lain.Foundation

inductive PatternSegment (α : Type*) where
  | fixed (a : α)
  | hole
  deriving DecidableEq

structure PathPattern (α : Type*) where
  segments : List (PatternSegment α)
  isOpen : Bool
  deriving DecidableEq

namespace PatternSegment

variable {α : Type*}

def Admits : PatternSegment α → α → Prop
  | .fixed a, b => b = a
  | .hole, _ => True

/-- Whatever one segment stands for, another does. -/
def Within (s t : PatternSegment α) : Prop :=
  t = .hole ∨ s = t

instance [DecidableEq α] (s t : PatternSegment α) : Decidable (s.Within t) :=
  inferInstanceAs (Decidable (t = .hole ∨ s = t))

theorem Within.refl (s : PatternSegment α) : s.Within s :=
  Or.inr rfl

def rank : PatternSegment α → Nat
  | .fixed _ => 2
  | .hole => 1

theorem Within.admits {s t : PatternSegment α} (within : s.Within t) {a : α}
    (admits : s.Admits a) : t.Admits a := by
  rcases within with rfl | rfl
  · exact trivial
  · exact admits

end PatternSegment

namespace PathPattern

open PatternSegment

variable {α : Type*}

def Accepts : List (PatternSegment α) → Bool → List α → Prop
  | [], isOpen, path => isOpen = true ∨ path = []
  | _ :: _, _, [] => False
  | s :: rest, isOpen, a :: path => s.Admits a ∧ Accepts rest isOpen path

def Covers : List (PatternSegment α) → Bool → List (PatternSegment α) → Bool → Prop
  | [], isOpen', segments, isOpen => isOpen' = true ∨ segments = [] ∧ isOpen = false
  | _ :: _, _, [], _ => False
  | t :: later, isOpen', s :: rest, isOpen => s.Within t ∧ Covers later isOpen' rest isOpen

instance decidableCovers [DecidableEq α] : ∀ (segments : List (PatternSegment α)) (isOpen : Bool)
    (segments' : List (PatternSegment α)) (isOpen' : Bool),
    Decidable (Covers segments isOpen segments' isOpen')
  | [], isOpen', segments, isOpen =>
    inferInstanceAs (Decidable (isOpen' = true ∨ segments = [] ∧ isOpen = false))
  | _ :: _, _, [], _ => inferInstanceAs (Decidable False)
  | t :: later, isOpen', s :: rest, isOpen =>
    have := decidableCovers later isOpen' rest isOpen
    inferInstanceAs (Decidable (s.Within t ∧ Covers later isOpen' rest isOpen))

/-- The paths of a pattern, with segments from a set. -/
def paths (U : Set α) (p : PathPattern α) : Set (List α) :=
  {path | (∀ a ∈ path, a ∈ U) ∧ Accepts p.segments p.isOpen path}

def Spelled (U : Set α) (segments : List (PatternSegment α)) : Prop :=
  ∀ a, .fixed a ∈ segments → a ∈ U

variable {U : Set α}

theorem Spelled.tail {s : PatternSegment α} {rest : List (PatternSegment α)}
    (spelled : Spelled U (s :: rest)) : Spelled U rest :=
  fun a member => spelled a (List.mem_cons_of_mem _ member)

theorem Covers.accepts {later : List (PatternSegment α)} {isOpen' : Bool} :
    ∀ {segments : List (PatternSegment α)} {isOpen : Bool} {path : List α},
      Covers later isOpen' segments isOpen → Accepts segments isOpen path →
        Accepts later isOpen' path := by
  induction later with
  | nil =>
    intro segments isOpen path covers accepts
    rcases covers with isOpen' | ⟨rfl, closed⟩
    · exact Or.inl isOpen'
    · exact Or.inr (accepts.resolve_left (by rw [closed]; exact Bool.false_ne_true))
  | cons t later ih =>
    intro segments isOpen path covers accepts
    cases segments with
    | nil => exact covers.elim
    | cons s rest =>
      cases path with
      | nil => exact accepts.elim
      | cons a path => exact ⟨covers.1.admits accepts.1, ih covers.2 accepts.2⟩

def ranks (segments : List (PatternSegment α)) (isOpen : Bool) : List Nat :=
  segments.map rank ++ if isOpen then [0] else []

end PathPattern

end Lain.Foundation
