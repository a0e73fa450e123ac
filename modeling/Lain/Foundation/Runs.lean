import Mathlib

/-!
# Runs of a step function

A system is a start state and a partial step function over events.
-/

namespace Lain.Foundation

variable {σ ε : Type*}

inductive Runs (step : σ → ε → Option σ) (meets : σ → ε → Prop) (start : σ) :
    List ε → σ → Prop where
  | start : Runs step meets start [] start
  | step {events : List ε} {s s' : σ} {event : ε} :
      Runs step meets start events s → meets s event → step s event = some s' →
        Runs step meets start (events ++ [event]) s'

namespace Runs

variable {step : σ → ε → Option σ} {meets : σ → ε → Prop} {start s : σ} {events : List ε}

theorem invariant {I : List ε → σ → Prop} (base : I [] start)
    (keeps : ∀ {events s event s'}, I events s → meets s event → step s event = some s' →
      I (events ++ [event]) s')
    (run : Runs step meets start events s) : I events s := by
  induction run with
  | start => exact base
  | step _ met moved ih => exact keeps ih met moved

theorem mono {meets' : σ → ε → Prop} (weaker : ∀ s event, meets s event → meets' s event)
    (run : Runs step meets start events s) : Runs step meets' start events s := by
  induction run with
  | start => exact .start
  | step _ met moved ih => exact ih.step (weaker _ _ met) moved

theorem append {middle : σ} {later : List ε} (first : Runs step meets start events middle)
    (second : Runs step meets middle later s) : Runs step meets start (events ++ later) s := by
  induction second with
  | start =>
    rw [List.append_nil]
    exact first
  | step _ met moved ih =>
    rw [← List.append_assoc]
    exact ih.step met moved

end Runs

/-- Run through a list of events, each checked against the condition. -/
def execute (step : σ → ε → Option σ) (meets : σ → ε → Prop) [∀ s event, Decidable (meets s event)]
    (start : σ) (events : List ε) : Option σ :=
  events.foldlM (fun s event => if meets s event then step s event else none) start

theorem runs_of_execute {step : σ → ε → Option σ} {meets : σ → ε → Prop}
    [∀ s event, Decidable (meets s event)] {start s : σ} {events : List ε}
    (done : execute step meets start events = some s) : Runs step meets start events s := by
  induction events generalizing start with
  | nil =>
    cases done
    exact .start
  | cons event later ih =>
    unfold execute at done ih
    rw [List.foldlM_cons] at done
    obtain ⟨middle, first, rest⟩ := Option.bind_eq_some_iff.mp done
    obtain ⟨met, moved⟩ := Option.ite_none_right_eq_some.mp first
    exact (Runs.start.step met moved).append (ih rest)

end Lain.Foundation
