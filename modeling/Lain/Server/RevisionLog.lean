import Mathlib
import Lain.Schema

/-!
# The revision log

A bounded history of overlay diffs.
-/

namespace Lain.Server

/-- One overlay mutation. -/
structure OverlayDiff where
  revision : Nat := 0
  added : List GraphNode := []
  removed : List String := []
  updated : List GraphNode := []
  deriving DecidableEq

/-- Why a query has no answer. -/
inductive LookupResult where
  | beyondCurrent | tooOld
  deriving DecidableEq

/-- The ring of retained diffs. -/
structure RevisionLog where
  diffs : List OverlayDiff
  capacity : Nat
  next : Nat
  deriving DecidableEq

namespace RevisionLog

/-- A log with a retention cap of at least one. -/
def withCapacity (cap : Nat) : RevisionLog where
  diffs := []
  capacity := max cap 1
  next := 0

/-- A log of the default capacity. -/
def new : RevisionLog :=
  withCapacity 256

/-- The highest revision assigned so far. -/
def currentRevision (log : RevisionLog) : Nat :=
  log.next

/-- The oldest revision still retained. -/
def floorRevision (log : RevisionLog) : Nat :=
  (log.diffs.head?.map OverlayDiff.revision).getD 0

/-- Append a diff under the next revision. -/
def enqueue (log : RevisionLog) (diff : OverlayDiff) : RevisionLog where
  diffs :=
    (if log.diffs.length = log.capacity then log.diffs.tail else log.diffs) ++
      [{ diff with revision := log.next + 1 }]
  capacity := log.capacity
  next := log.next + 1

/-- The retained diffs after a revision. -/
def diffsSince (log : RevisionLog) (rev : Nat) : Except LookupResult (List OverlayDiff) :=
  if log.next < rev then .error .beyondCurrent
  else if !log.diffs.isEmpty && rev < log.floorRevision then .error .tooOld
  else .ok (log.diffs.filter fun diff => decide (rev < diff.revision))

def Consecutive (rev : Nat) (diffs : List OverlayDiff) : Prop :=
  diffs.map OverlayDiff.revision = List.range' (rev + 1) diffs.length

theorem consecutive_cons {rev : Nat} {diff : OverlayDiff} {rest : List OverlayDiff} :
    Consecutive rev (diff :: rest) ↔ diff.revision = rev + 1 ∧ Consecutive (rev + 1) rest := by
  unfold Consecutive
  rw [List.map_cons, List.length_cons, List.range'_succ, List.cons.injEq]

theorem consecutive_append {first second : List OverlayDiff} :
    ∀ {rev : Nat}, Consecutive rev (first ++ second) ↔
      Consecutive rev first ∧ Consecutive (rev + first.length) second := by
  induction first with
  | nil =>
    intro rev
    exact ⟨fun all => ⟨rfl, all⟩, And.right⟩
  | cons diff rest ih =>
    intro rev
    rw [List.cons_append, consecutive_cons, consecutive_cons, ih, and_assoc, List.length_cons,
      Nat.add_right_comm, Nat.add_assoc]

theorem filter_consecutive {diffs : List OverlayDiff} :
    ∀ {base : Nat}, Consecutive base diffs → ∀ rev, base ≤ rev →
      diffs.filter (fun diff => decide (rev < diff.revision)) = diffs.drop (rev - base) := by
  induction diffs with
  | nil => simp
  | cons diff rest ih =>
    intro base consecutive rev later
    obtain ⟨here, after⟩ := consecutive_cons.mp consecutive
    rcases Nat.eq_or_lt_of_le later with rfl | beyond
    · rw [Nat.sub_self, List.drop_zero, List.filter_eq_self]
      intro other member
      refine decide_eq_true ?_
      have listed := List.mem_map_of_mem (f := OverlayDiff.revision) member
      rw [show (diff :: rest).map OverlayDiff.revision = _ from consecutive,
        List.mem_range'_1] at listed
      exact listed.1
    · rw [List.filter_cons_of_neg (by simp [here, beyond]), ih after rev beyond]
      obtain ⟨k, rfl⟩ := Nat.exists_eq_add_of_lt beyond
      rw [show base + k + 1 - base = k + 1 by omega, show base + k + 1 - (base + 1) = k by omega,
        List.drop_succ_cons]

structure Retains (log : RevisionLog) (history : List OverlayDiff) : Prop where
  suffix : log.diffs <:+ history
  next : log.next = history.length
  numbered : Consecutive 0 history
  retained : log.diffs = [] → history = []
  positive : 0 < log.capacity

def filed (log : RevisionLog) (diff : OverlayDiff) : OverlayDiff :=
  { diff with revision := log.next + 1 }

variable {log : RevisionLog} {history : List OverlayDiff}

theorem retains_withCapacity (cap : Nat) : Retains (withCapacity cap) [] where
  suffix := List.nil_suffix
  next := rfl
  numbered := rfl
  retained _ := rfl
  positive := lt_of_lt_of_le Nat.one_pos (le_max_right cap 1)

theorem Retains.enqueue (retains : Retains log history) (diff : OverlayDiff) :
    Retains (log.enqueue diff) (history ++ [log.filed diff]) where
  suffix := by
    change _ ++ [log.filed diff] <:+ _
    rw [List.suffix_append_self_iff]
    split_ifs
    · exact (List.tail_suffix _).trans retains.suffix
    · exact retains.suffix
  next := by
    change log.next + 1 = _
    rw [retains.next, List.length_append, List.length_singleton]
  numbered := by
    rw [consecutive_append]
    refine ⟨retains.numbered, consecutive_cons.mpr ⟨?_, rfl⟩⟩
    change log.next + 1 = _
    rw [retains.next, Nat.zero_add]
  retained empty := by
    change _ ++ [_] = _ at empty
    simp at empty
  positive := retains.positive

theorem Retains.diffsSince (retains : Retains log history) (rev : Nat) :
    log.diffsSince rev =
      if history.length < rev then .error .beyondCurrent
      else if !log.diffs.isEmpty && rev < log.floorRevision then .error .tooOld
      else .ok (history.drop rev) := by
  unfold RevisionLog.diffsSince
  rw [retains.next]
  split_ifs with beyond old
  · rfl
  · rfl
  · refine congrArg Except.ok ?_
    obtain ⟨before, split⟩ := retains.suffix
    have numbered := retains.numbered
    rw [← split, consecutive_append, Nat.zero_add] at numbered
    cases kept : log.diffs with
    | nil => rw [retains.retained kept, List.filter_nil, List.drop_nil]
    | cons diff rest =>
      have first := (consecutive_cons.mp (kept ▸ numbered.2)).1
      have inside : before.length ≤ rev := by
        simp only [kept, floorRevision, List.head?_cons, Option.map_some, Option.getD_some,
          List.isEmpty_cons, Bool.not_false, Bool.true_and, decide_eq_true_eq, first] at old
        omega
      rw [← kept, filter_consecutive numbered.2 rev inside, ← split,
        List.drop_append, List.drop_eq_nil_of_le inside, List.nil_append]

end RevisionLog

end Lain.Server
