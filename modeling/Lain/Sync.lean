import Mathlib
import Lain.Foundation.Runs

/-!
# The dirty flag

Writers change the inputs of a derived state and then mark a flag; a rebuilder that finds
the flag set clears it before it reads the inputs.
-/

namespace Lain

open Foundation

inductive RebuildPhase (ι : Type*) where
  /-- The lock is taken. -/
  | entered
  /-- The flag was read as set. -/
  | sawDirty
  /-- The flag is cleared. -/
  | cleared
  /-- The inputs are read. -/
  | holds (inputs : ι)
  /-- The rebuild has failed; the flag is not marked again yet. -/
  | failed

/-- The flag, the inputs and what was derived, with the writers between their change and their
mark and the rebuilder under the lock. -/
structure DirtyFlag (ω ι δ : Type*) where
  dirty : Bool
  inputs : ι
  derived : δ
  changing : Finset ω := ∅
  rebuild : Option (RebuildPhase ι) := none

inductive FlagStep (ω ι : Type*) where
  | change (writer : ω) (inputs : ι)
  | mark (writer : ω)
  | enter
  | readFlag
  | clear
  | readInputs
  | publish
  | fail
  | markAgain

namespace DirtyFlag

variable {ω ι δ : Type*} [DecidableEq ω]

/-- Take one step; `derive` is what a rebuild makes of the inputs it read. -/
def step (derive : ι → δ) (s : DirtyFlag ω ι δ) : FlagStep ω ι → Option (DirtyFlag ω ι δ)
  | .change writer inputs =>
    if writer ∈ s.changing then none
    else some { s with inputs, changing := insert writer s.changing }
  | .mark writer =>
    if writer ∈ s.changing then
      some { s with dirty := true, changing := s.changing.erase writer }
    else none
  | .enter =>
    match s.rebuild with
    | none => some { s with rebuild := some .entered }
    | some _ => none
  | .readFlag =>
    match s.rebuild with
    | some .entered => some { s with rebuild := if s.dirty then some .sawDirty else none }
    | _ => none
  | .clear =>
    match s.rebuild with
    | some .sawDirty => some { s with dirty := false, rebuild := some .cleared }
    | _ => none
  | .readInputs =>
    match s.rebuild with
    | some .cleared => some { s with rebuild := some (.holds s.inputs) }
    | _ => none
  | .publish =>
    match s.rebuild with
    | some (.holds inputs) => some { s with derived := derive inputs, rebuild := none }
    | _ => none
  | .fail =>
    match s.rebuild with
    | some .cleared | some (.holds _) => some { s with rebuild := some .failed }
    | _ => none
  | .markAgain =>
    match s.rebuild with
    | some .failed => some { s with dirty := true, rebuild := none }
    | _ => none

variable {derive : ι → δ} {start s s' : DirtyFlag ω ι δ} {event : FlagStep ω ι}
  {events : List (FlagStep ω ι)}

/-- The runs of any number of writers and of rebuilders that take turns. -/
abbrev Run (derive : ι → δ) (start : DirtyFlag ω ι δ) (events : List (FlagStep ω ι))
    (s : DirtyFlag ω ι δ) : Prop :=
  Runs (step derive) (fun _ _ => True) start events s

/-- Nobody is at work, and what is derived is current unless the flag says otherwise. -/
structure Fresh (derive : ι → δ) (s : DirtyFlag ω ι δ) : Prop where
  noWriter : s.changing = ∅
  noRebuild : s.rebuild = none
  current : s.dirty = false → s.derived = derive s.inputs

def Covered (derive : ι → δ) (s : DirtyFlag ω ι δ) : Prop :=
  match s.rebuild with
  | some (.holds inputs) => inputs = s.inputs
  | some .cleared | some .failed => True
  | _ => s.derived = derive s.inputs

/-- A change is on the way to be marked, is marked, or is covered by the rebuild. -/
structure Kept (derive : ι → δ) (s : DirtyFlag ω ι δ) : Prop where
  covered : s.changing = ∅ → s.dirty = false → Covered derive s
  armed : s.rebuild = some .sawDirty → s.dirty = true

inductive Moves (derive : ι → δ) (s : DirtyFlag ω ι δ) :
    FlagStep ω ι → DirtyFlag ω ι δ → Prop where
  | change (writer : ω) (inputs : ι) : writer ∉ s.changing →
      Moves derive s (.change writer inputs)
        { s with inputs, changing := insert writer s.changing }
  | mark (writer : ω) : writer ∈ s.changing →
      Moves derive s (.mark writer) { s with dirty := true, changing := s.changing.erase writer }
  | enter : s.rebuild = none → Moves derive s .enter { s with rebuild := some .entered }
  | readSet : s.rebuild = some .entered → s.dirty = true →
      Moves derive s .readFlag { s with rebuild := some .sawDirty }
  | readClear : s.rebuild = some .entered → s.dirty = false →
      Moves derive s .readFlag { s with rebuild := none }
  | clear : s.rebuild = some .sawDirty →
      Moves derive s .clear { s with dirty := false, rebuild := some .cleared }
  | readInputs : s.rebuild = some .cleared →
      Moves derive s .readInputs { s with rebuild := some (.holds s.inputs) }
  | publish (inputs : ι) : s.rebuild = some (.holds inputs) →
      Moves derive s .publish { s with derived := derive inputs, rebuild := none }
  | fail : (s.rebuild = some .cleared ∨ ∃ inputs, s.rebuild = some (.holds inputs)) →
      Moves derive s .fail { s with rebuild := some .failed }
  | markAgain : s.rebuild = some .failed →
      Moves derive s .markAgain { s with dirty := true, rebuild := none }

theorem moves_of_step (moved : step derive s event = some s') : Moves derive s event s' := by
  cases event with
  | change writer inputs =>
    obtain ⟨free, same⟩ := Option.ite_none_left_eq_some.mp moved
    cases same
    exact .change writer inputs free
  | mark writer =>
    obtain ⟨busy, same⟩ := Option.ite_none_right_eq_some.mp moved
    cases same
    exact .mark writer busy
  | enter =>
    simp only [step] at moved
    split at moved
    next free =>
        cases moved
        exact .enter free
    next => cases moved
  | readFlag =>
    simp only [step] at moved
    split at moved
    next phase =>
        cases moved
        by_cases set : s.dirty = true
        · rw [if_pos set]
          exact .readSet phase set
        · rw [if_neg set]
          exact .readClear phase (Bool.eq_false_of_not_eq_true set)
    next => cases moved
  | clear =>
    simp only [step] at moved
    split at moved
    next phase =>
        cases moved
        exact .clear phase
    next => cases moved
  | readInputs =>
    simp only [step] at moved
    split at moved
    next phase =>
        cases moved
        exact .readInputs phase
    next => cases moved
  | publish =>
    simp only [step] at moved
    split at moved
    next inputs phase =>
        cases moved
        exact .publish inputs phase
    next => cases moved
  | fail =>
    simp only [step] at moved
    split at moved
    next phase =>
        cases moved
        exact .fail (Or.inl phase)
    next inputs phase =>
        cases moved
        exact .fail (Or.inr ⟨inputs, phase⟩)
    next => cases moved
  | markAgain =>
    simp only [step] at moved
    split at moved
    next phase =>
        cases moved
        exact .markAgain phase
    next => cases moved

omit [DecidableEq ω] in
theorem Fresh.kept (fresh : Fresh derive s) : Kept derive s where
  covered _ clear := by
    unfold Covered
    rw [fresh.noRebuild]
    exact fresh.current clear
  armed phase := by
    rw [fresh.noRebuild] at phase
    cases phase

theorem Kept.step (kept : Kept derive s) (moved : step derive s event = some s') :
    Kept derive s' := by
  have marked : ∀ {t : DirtyFlag ω ι δ}, t.dirty = true → Kept derive t := fun set =>
    ⟨fun _ clear => Bool.noConfusion (set.symm.trans clear), fun _ => set⟩
  cases moves_of_step moved with
  | change writer inputs free =>
    exact ⟨fun none => absurd none (Finset.insert_ne_empty _ _), kept.armed⟩
  | mark writer busy => exact marked rfl
  | enter free =>
    refine ⟨fun idle clear => ?_, fun other => by cases other⟩
    have current := kept.covered idle clear
    unfold Covered at current
    rw [free] at current
    exact current
  | readSet phase set => exact marked set
  | readClear phase clear =>
    refine ⟨fun idle _ => ?_, fun other => by cases other⟩
    have current := kept.covered idle clear
    unfold Covered at current
    rw [phase] at current
    exact current
  | clear phase => exact ⟨fun _ _ => trivial, fun other => by cases other⟩
  | readInputs phase => exact ⟨fun _ _ => rfl, fun other => by cases other⟩
  | publish inputs phase =>
    refine ⟨fun idle clear => ?_, fun other => by cases other⟩
    have read := kept.covered idle clear
    unfold Covered at read
    rw [phase] at read
    exact congrArg derive read
  | fail phase => exact ⟨fun _ _ => trivial, fun other => by cases other⟩
  | markAgain phase => exact marked rfl

/-- A rebuild of the run has returned an error, and none has succeeded since. -/
def FailedLast (events : List (FlagStep ω ι)) : Prop :=
  ∃ earlier later, events = earlier ++ .markAgain :: later ∧ .publish ∉ later

def Owed (s : DirtyFlag ω ι δ) : Prop :=
  s.dirty = true ∨ s.rebuild = some .cleared ∨ (∃ inputs, s.rebuild = some (.holds inputs)) ∨
    s.rebuild = some .failed

theorem Owed.step (owed : Owed s) (moved : DirtyFlag.step derive s event = some s')
    (noSuccess : event ≠ .publish) : Owed s' := by
  cases moves_of_step moved with
  | change => exact owed
  | mark => exact Or.inl rfl
  | enter free =>
    unfold Owed at owed
    rw [free] at owed
    exact Or.inl (owed.resolve_right (by simp))
  | readSet _ set => exact Or.inl set
  | readClear phase clear =>
    unfold Owed at owed
    rw [phase, clear] at owed
    simp at owed
  | clear => exact Or.inr (Or.inl rfl)
  | readInputs => exact Or.inr (Or.inr (Or.inl ⟨_, rfl⟩))
  | publish => exact absurd rfl noSuccess
  | fail => exact Or.inr (Or.inr (Or.inr rfl))
  | markAgain => exact Or.inl rfl

/-- **The dirty flag loses no update.** In every state that writers and rebuilders reach: when the
flag is clear, no rebuild is in progress and no writer is between its change and its mark, the
derived state was computed from the current inputs; and when a rebuild has returned an error,
the flag is set once no rebuild is in progress, unless a later one has succeeded. -/
theorem no_lost_update (start : DirtyFlag ω ι δ) (fresh : Fresh derive start)
    (run : Run derive start events s) :
    (s.dirty = false → s.rebuild = none → s.changing = ∅ → s.derived = derive s.inputs) ∧
      (FailedLast events → s.rebuild = none → s.dirty = true) := by
  have both : Kept derive s ∧ (FailedLast events → Owed s) := by
    refine run.invariant (I := fun events s => Kept derive s ∧ (FailedLast events → Owed s))
      ⟨fresh.kept, ?_⟩ ?_
    · rintro ⟨earlier, later, none, _⟩
      cases earlier <;> cases none
    · intro events s event s' known _ moved
      refine ⟨known.1.step moved, ?_⟩
      rintro ⟨earlier, later, split, noSuccess⟩
      rcases later.eq_nil_or_concat with rfl | ⟨front, last, rfl⟩
      · obtain ⟨rfl, same⟩ := List.append_inj' split rfl
        cases List.singleton_injective same
        cases moves_of_step moved with
        | markAgain => exact Or.inl rfl
      · rw [List.concat_eq_append, ← List.cons_append, ← List.append_assoc] at split
        obtain ⟨rfl, same⟩ := List.append_inj' split rfl
        obtain rfl := List.singleton_injective same
        rw [List.concat_eq_append, List.mem_append, not_or] at noSuccess
        refine (known.2 ⟨earlier, front, rfl, noSuccess.1⟩).step moved ?_
        rintro rfl
        exact noSuccess.2 List.mem_cons_self
  refine ⟨fun clear idle none => ?_, fun failed idle => ?_⟩
  · have current := both.1.covered none clear
    unfold Covered at current
    rw [idle] at current
    exact current
  · rcases both.2 failed with set | phase | ⟨_, phase⟩ | phase
    · exact set
    · rw [idle] at phase
      cases phase
    · rw [idle] at phase
      cases phase
    · rw [idle] at phase
      cases phase

def racingWriter : List (FlagStep Nat Nat) :=
  [.enter, .readFlag, .clear, .readInputs, .change 1 7, .mark 1, .publish,
    .enter, .readFlag, .clear, .readInputs, .publish]

theorem no_lost_update_racingWriter :
    ∃ s : DirtyFlag Nat Nat Nat, s.dirty = false ∧ s.derived = 7 ∧
      (s.dirty = false → s.rebuild = none → s.changing = ∅ → s.derived = id s.inputs) ∧
        (FailedLast racingWriter → s.rebuild = none → s.dirty = true) := by
  let start : DirtyFlag Nat Nat Nat := { dirty := true, inputs := 0, derived := 3 }
  have run : Run id start racingWriter { dirty := false, inputs := 7, derived := 7 } :=
    runs_of_execute rfl
  exact ⟨_, rfl, rfl, no_lost_update start ⟨rfl, rfl, fun clear => by cases clear⟩ run⟩

end DirtyFlag

end Lain
