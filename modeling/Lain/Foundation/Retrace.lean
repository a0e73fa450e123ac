import Mathlib.Data.List.Basic
import Mathlib.Data.List.Induction
import Mathlib.Order.Basic

/-!
# Replaying a log with rewinds

Recovery reads a log that may repeat parts of the history: a checkpoint that
was interrupted leaves operations the snapshot already contains, or files the
same operations twice.
-/

namespace Lain.Foundation

variable {Op State : Type*}

def stateAt (apply : State → Op → State) (init : State) (history : List Op) (j : Nat) :
    State :=
  (history.take j).foldl apply init

section StateAt

variable (apply : State → Op → State) (init : State)

@[simp] theorem stateAt_length (history : List Op) :
    stateAt apply init history history.length = history.foldl apply init := by
  simp [stateAt]

theorem stateAt_succ {history : List Op} {j : Nat} {op : Op} (here : history[j]? = some op) :
    stateAt apply init history (j + 1) = apply (stateAt apply init history j) op := by
  unfold stateAt
  rw [List.take_add_one, here, List.foldl_append]
  rfl

theorem stateAt_beyond {history : List Op} {j : Nat} (beyond : history.length ≤ j) :
    stateAt apply init history j = history.foldl apply init := by
  simp [stateAt, List.take_of_length_le beyond]

theorem stateAt_append {history later : List Op} {j : Nat} (bound : j ≤ history.length) :
    stateAt apply init (history ++ later) j = stateAt apply init history j := by
  unfold stateAt
  rw [List.take_append_of_le_length bound]

theorem stateAt_drop {history : List Op} {base j : Nat} (later : base ≤ j) :
    stateAt apply (stateAt apply init history base) (history.drop base) (j - base) =
      stateAt apply init history j := by
  unfold stateAt
  rw [← List.foldl_append, ← List.take_add, Nat.add_sub_cancel' later]

theorem foldl_drop (history : List Op) (base : Nat) :
    (history.drop base).foldl apply (stateAt apply init history base) =
      history.foldl apply init := by
  unfold stateAt
  rw [← List.foldl_append, List.take_append_drop]

theorem stateAt_take {history : List Op} {j n : Nat} (inside : j ≤ n) :
    stateAt apply init (history.take n) j = stateAt apply init history j := by
  unfold stateAt
  rw [List.take_take, Nat.min_eq_left inside]

end StateAt

inductive Retraces (history : List Op) : Nat → List Op → Nat → Prop where
  | done (j : Nat) : Retraces history j [] j
  | read {i j : Nat} {op : Op} {log : List Op} :
      history[i]? = some op → Retraces history (i + 1) log j → Retraces history i (op :: log) j
  | back {i j k : Nat} {log : List Op} :
      i ≤ k → Retraces history i log j → Retraces history k log j

namespace Retraces

variable {history : List Op}

theorem append {i j k : Nat} {log more : List Op} (first : Retraces history i log j)
    (second : Retraces history j more k) : Retraces history i (log ++ more) k := by
  induction first with
  | done j => exact second
  | read here _ ih => exact .read here (ih second)
  | back earlier _ ih => exact .back earlier (ih second)

theorem segment (history : List Op) (i n : Nat) (bound : i + n ≤ history.length) :
    Retraces history i ((history.drop i).take n) (i + n) := by
  induction n generalizing i with
  | zero => exact .done i
  | succ n ih =>
    have inside : i < history.length := by omega
    have here : history[i]? = some history[i] := List.getElem?_eq_getElem inside
    rw [List.drop_eq_getElem_cons (by omega), List.take_succ_cons]
    have rest := ih (i + 1) (by omega)
    rw [show i + 1 + n = i + (n + 1) by omega] at rest
    exact .read here rest

theorem suffix (history : List Op) (i : Nat) (bound : i ≤ history.length) :
    Retraces history i (history.drop i) history.length := by
  have whole := segment history i (history.length - i) (by omega)
  rwa [List.take_of_length_le (by simp), Nat.add_sub_cancel' bound] at whole

theorem le_of_nil {i j : Nat} {log : List Op} (retraces : Retraces history i log j)
    (nothing : log = []) : j ≤ i := by
  induction retraces with
  | done j => exact Nat.le_refl j
  | read _ _ => cases nothing
  | back earlier _ ih => exact Nat.le_trans (ih nothing) earlier

theorem mem_history {i j : Nat} {log : List Op} (retraces : Retraces history i log j) :
    ∀ op ∈ log, op ∈ history := by
  induction retraces with
  | done j => simp
  | read here _ ih =>
    intro op member
    rcases List.mem_cons.mp member with rfl | later
    · exact List.mem_of_getElem? here
    · exact ih op later
  | back _ _ ih => exact ih

theorem extend {i j : Nat} {log : List Op} (retraces : Retraces history i log j)
    (later : List Op) : Retraces (history ++ later) i log j := by
  induction retraces with
  | done j => exact .done j
  | read here _ ih =>
    refine .read ?_ ih
    rw [List.getElem?_append_left (List.getElem?_eq_some_iff.mp here).1]
    exact here
  | back earlier _ ih => exact .back earlier ih

theorem carries {apply : State → Op → State} (rel : Nat → State → Prop)
    (step : ∀ j op s, history[j]? = some op → rel j s → rel (j + 1) (apply s op))
    (back : ∀ i j s, i ≤ j → rel j s → rel i s) {i j : Nat} {log : List Op}
    (retraces : Retraces history i log j) :
    ∀ s, rel i s → rel j (log.foldl apply s) := by
  induction retraces with
  | done j => exact fun s related => related
  | read here _ ih => exact fun s related => ih _ (step _ _ s here related)
  | back earlier _ ih => exact fun s related => ih s (back _ _ s earlier related)

end Retraces

end Lain.Foundation
