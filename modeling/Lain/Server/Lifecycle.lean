import Mathlib
import Lain.Foundation.Runs

/-!
# The readiness gate

The snapshot a server publishes of its index, and the number of passes that are changing the
graph.
-/

namespace Lain.Server

open Foundation

inductive IndexState where
  | warmingUp | ready | unavailableError
  deriving DecidableEq

inductive IndexPhase where
  | discovering | prewarmingLsp | scanning | resolving | enriching | persisting | overlay
  deriving DecidableEq

structure Problem where
  code : String
  message : String
  remediation : String
  retryable : Bool
  deriving DecidableEq

structure IndexLifecycleSnapshot where
  sequence : Nat := 0
  attemptId : Nat := 1
  state : IndexState := .warmingUp
  phase : IndexPhase := .discovering
  completedAtUnixMs : Option Nat := none
  indexedCommit : Option String := none
  retryAfterMs : Option Nat := some 3000
  problem : Option Problem := none
  warnings : List Problem := []
  deriving DecidableEq

def u64Max : Nat := 2 ^ 64 - 1

def u32Max : Nat := 2 ^ 32 - 1

def saturatingAdd (limit n m : Nat) : Nat :=
  min limit (n + m)

def indexCancelledCode : String := "index_cancelled"

def cancelledProblem : Problem where
  code := indexCancelledCode
  message := "indexing cancelled by server shutdown"
  remediation := "Restart the server to begin a fresh indexing pass."
  retryable := false

def warmingUpRetryAfterMs : Nat := 3000

def readyAllowedFor (inFlight : Nat) (cancelled : Bool) : Bool :=
  decide (inFlight = 0) && !cancelled

structure LifecycleCore where
  snapshot : IndexLifecycleSnapshot := {}
  inFlight : Nat := 0
  deriving DecidableEq

namespace LifecycleCore

def isCancelled (core : LifecycleCore) : Bool :=
  core.snapshot.problem.any fun p => decide (p.code = indexCancelledCode)

def readyAllowed (core : LifecycleCore) : Bool :=
  readyAllowedFor core.inFlight core.isCancelled

/-- Count a change of the snapshot, and put its warnings in order. -/
def touch (s : IndexLifecycleSnapshot) : IndexLifecycleSnapshot :=
  { s with
    sequence := saturatingAdd u64Max s.sequence 1
    warnings := s.warnings.insertionSort fun a b =>
      toLex (a.code, a.message) ≤ toLex (b.code, b.message) }

def beginPass (core : LifecycleCore) : LifecycleCore where
  inFlight := saturatingAdd u32Max core.inFlight 1
  snapshot :=
    if core.isCancelled then core.snapshot
    else
      touch
        { core.snapshot with
          state := .warmingUp
          attemptId := saturatingAdd u64Max core.snapshot.attemptId 1
          completedAtUnixMs := none
          retryAfterMs := some warmingUpRetryAfterMs
          problem := none }

def endPass (core : LifecycleCore) : LifecycleCore :=
  { core with inFlight := core.inFlight - 1 }

/-- Publish `ready`, unless a pass is in flight or a shutdown is published. -/
def publishReady (core : LifecycleCore) (indexedCommit : Option String) (now : Nat) :
    Bool × LifecycleCore :=
  if !core.readyAllowed then (false, core)
  else
    (true,
      { core with
        snapshot :=
          touch
            { core.snapshot with
              state := .ready
              phase := .overlay
              indexedCommit
              completedAtUnixMs := some now
              retryAfterMs := none
              problem := none } })

def publishFailed (core : LifecycleCore) (message : String) (now : Nat) : Bool × LifecycleCore :=
  if core.isCancelled then (false, core)
  else
    (true,
      { core with
        snapshot :=
          touch
            { core.snapshot with
              state := .unavailableError
              completedAtUnixMs := some now
              retryAfterMs := none
              problem := some
                { code := "index_failed"
                  message
                  remediation := "Run `lain doctor --json` and retry indexing after correcting " ++
                    "the reported problem."
                  retryable := true } } })

def publishCancelled (core : LifecycleCore) (now : Nat) : LifecycleCore :=
  { core with
    snapshot :=
      touch
        { core.snapshot with
          state := .unavailableError
          completedAtUnixMs := some now
          retryAfterMs := none
          problem := some cancelledProblem } }

end LifecycleCore

/-! ### Passes in any order -/

/-- A handle, and the guards of the passes that are still alive. -/
structure Lifecycle where
  core : LifecycleCore := {}
  guards : Nat := 0
  deriving DecidableEq

/-- What a pass or the server does with the handle, at a time where one is published. -/
inductive LifecycleEvent where
  | beginPass
  | endPass
  | ready (indexedCommit : Option String) (now : Nat)
  | failed (message : String) (now : Nat)
  | cancelled (now : Nat)
  deriving DecidableEq

namespace LifecycleEvent

def isCancel : LifecycleEvent → Bool
  | .cancelled _ => true
  | _ => false

end LifecycleEvent

namespace Lifecycle

/-- One event. A pass ends when its guard drops, so there must be one. -/
def step (w : Lifecycle) : LifecycleEvent → Option Lifecycle
  | .beginPass => some ⟨w.core.beginPass, w.guards + 1⟩
  | .endPass => if w.guards = 0 then none else some ⟨w.core.endPass, w.guards - 1⟩
  | .ready indexedCommit now => some { w with core := (w.core.publishReady indexedCommit now).2 }
  | .failed message now => some { w with core := (w.core.publishFailed message now).2 }
  | .cancelled now => some { w with core := w.core.publishCancelled now }

def FewPasses (w : Lifecycle) (event : LifecycleEvent) : Prop :=
  event = .beginPass → w.guards + 1 < 2 ^ 32

instance fewPassesDecidable (w : Lifecycle) (event : LifecycleEvent) :
    Decidable (FewPasses w event) :=
  inferInstanceAs (Decidable (_ → _))

/-- The states any order of events reaches. -/
abbrev Reaches (events : List LifecycleEvent) (w : Lifecycle) : Prop :=
  Runs step FewPasses {} events w

/-- **What holds in every state.** The counter is the number of guards, a shutdown stays
published, and the gate is open only when nothing is in flight and no shutdown was published. -/
structure Gated (events : List LifecycleEvent) (w : Lifecycle) : Prop where
  few : w.guards < 2 ^ 32
  counted : w.core.inFlight = w.guards
  cancelled : w.core.isCancelled = events.any LifecycleEvent.isCancel
  closed : w.core.isCancelled = true →
    w.core.snapshot.state = .unavailableError ∧ w.core.snapshot.problem = some cancelledProblem
  quiet : w.core.snapshot.state = .ready → w.core.inFlight = 0
  bounded : w.core.snapshot.sequence ≤ u64Max

section Steps

variable {events : List LifecycleEvent} {w w' : Lifecycle} {event : LifecycleEvent}

theorem sequence_touch_le (s : IndexLifecycleSnapshot) :
    (LifecycleCore.touch s).sequence ≤ u64Max :=
  min_le_left _ _

theorem lt_sequence_touch {s : IndexLifecycleSnapshot} (room : s.sequence < u64Max) :
    s.sequence < (LifecycleCore.touch s).sequence := by
  change s.sequence < min u64Max (s.sequence + 1)
  exact lt_min room (Nat.lt_succ_self _)

theorem any_concat (events : List LifecycleEvent) (event : LifecycleEvent) :
    (events ++ [event]).any LifecycleEvent.isCancel =
      (events.any LifecycleEvent.isCancel || event.isCancel) := by
  simp

theorem gated_start : Gated [] {} where
  few := by decide
  counted := rfl
  cancelled := rfl
  closed := fun none => by cases none
  quiet := fun open_ => by cases open_
  bounded := by decide

theorem gated_beginPass (gated : Gated events w) (few : w.guards + 1 < 2 ^ 32) :
    Gated (events ++ [.beginPass]) ⟨w.core.beginPass, w.guards + 1⟩ := by
  have counted : w.core.beginPass.inFlight = w.guards + 1 := by
    change min u32Max (w.core.inFlight + 1) = w.guards + 1
    rw [gated.counted]
    exact min_eq_right (Nat.le_of_lt_succ few)
  cases shut : w.core.isCancelled with
  | true =>
    have same : w.core.beginPass.snapshot = w.core.snapshot := if_pos shut
    have still : w.core.beginPass.isCancelled = true := by
      unfold LifecycleCore.isCancelled
      rw [same]
      exact shut
    refine ⟨few, counted, ?_, fun _ => ?_, fun opened => ?_, ?_⟩
    · rw [any_concat, ← gated.cancelled, shut]
      exact still
    · rw [same]
      exact gated.closed shut
    · have closed := (gated.closed shut).1
      have opened : w.core.snapshot.state = .ready :=
        (congrArg IndexLifecycleSnapshot.state same).symm.trans opened
      rw [closed] at opened
      cases opened
    · exact (congrArg IndexLifecycleSnapshot.sequence same).le.trans gated.bounded
  | false =>
    have fresh : w.core.beginPass.snapshot = LifecycleCore.touch
        { w.core.snapshot with
          state := .warmingUp
          attemptId := saturatingAdd u64Max w.core.snapshot.attemptId 1
          completedAtUnixMs := none
          retryAfterMs := some warmingUpRetryAfterMs
          problem := none } := if_neg (by rw [shut]; decide)
    have live : w.core.beginPass.isCancelled = false := by
      unfold LifecycleCore.isCancelled
      rw [fresh]
      rfl
    refine ⟨few, counted, ?_, fun shut => ?_, fun opened => ?_, ?_⟩
    · rw [any_concat, ← gated.cancelled, shut]
      exact live
    · rw [live] at shut
      cases shut
    · rw [fresh] at opened
      cases opened
    · rw [fresh]
      exact sequence_touch_le _

theorem gated_endPass (gated : Gated events w) (alive : w.guards ≠ 0) :
    Gated (events ++ [.endPass]) ⟨w.core.endPass, w.guards - 1⟩ where
  few := (Nat.sub_le _ _).trans_lt gated.few
  counted := congrArg (· - 1) gated.counted
  cancelled := by
    rw [any_concat, ← gated.cancelled]
    exact (Bool.or_false _).symm
  closed := gated.closed
  quiet := fun opened => by
    have none : w.core.inFlight = 0 := gated.quiet opened
    exact absurd (gated.counted.symm.trans none) alive
  bounded := gated.bounded

theorem gated_publishReady (gated : Gated events w) (indexedCommit : Option String) (now : Nat) :
    Gated (events ++ [.ready indexedCommit now])
      { w with core := (w.core.publishReady indexedCommit now).2 } := by
  unfold LifecycleCore.publishReady
  split_ifs with refused
  · refine ⟨gated.few, gated.counted, ?_, gated.closed, gated.quiet, gated.bounded⟩
    rw [any_concat, ← gated.cancelled]
    exact (Bool.or_false _).symm
  · have allowed : w.core.readyAllowed = true := by simpa using refused
    obtain ⟨none, live⟩ := Bool.and_eq_true_iff.mp allowed
    have live : w.core.isCancelled = false := by simpa using live
    refine ⟨gated.few, gated.counted, ?_, fun shut => ?_, fun _ => of_decide_eq_true none,
      sequence_touch_le _⟩
    · rw [any_concat, ← gated.cancelled, live]
      rfl
    · cases shut

theorem gated_publishFailed (gated : Gated events w) (message : String) (now : Nat) :
    Gated (events ++ [.failed message now])
      { w with core := (w.core.publishFailed message now).2 } := by
  unfold LifecycleCore.publishFailed
  split_ifs with shut
  · refine ⟨gated.few, gated.counted, ?_, gated.closed, gated.quiet, gated.bounded⟩
    rw [any_concat, ← gated.cancelled]
    exact (Bool.or_false _).symm
  · have live : w.core.isCancelled = false := by simpa using shut
    refine ⟨gated.few, gated.counted, ?_, fun shut => ?_, fun opened => ?_, sequence_touch_le _⟩
    · rw [any_concat, ← gated.cancelled, live]
      rfl
    · cases shut
    · cases opened

theorem gated_publishCancelled (gated : Gated events w) (now : Nat) :
    Gated (events ++ [.cancelled now]) { w with core := w.core.publishCancelled now } where
  few := gated.few
  counted := gated.counted
  cancelled := by
    rw [any_concat]
    exact (Bool.or_true _).symm
  closed := fun _ => ⟨rfl, rfl⟩
  quiet := fun opened => by cases opened
  bounded := sequence_touch_le _

theorem Gated.step (gated : Gated events w) (few : FewPasses w event)
    (moved : w.step event = some w') : Gated (events ++ [event]) w' := by
  cases event with
  | beginPass =>
    obtain rfl := Option.some.inj moved
    exact gated_beginPass gated (few rfl)
  | endPass =>
    obtain ⟨alive, same⟩ := Option.ite_none_left_eq_some.mp moved
    obtain rfl := Option.some.inj same
    exact gated_endPass gated alive
  | ready indexedCommit now =>
    obtain rfl := Option.some.inj moved
    exact gated_publishReady gated indexedCommit now
  | failed message now =>
    obtain rfl := Option.some.inj moved
    exact gated_publishFailed gated message now
  | cancelled now =>
    obtain rfl := Option.some.inj moved
    exact gated_publishCancelled gated now

theorem gated_of_reaches (reached : Reaches events w) : Gated events w :=
  reached.invariant gated_start fun gated few moved => gated.step few moved

theorem snapshot_step (moved : w.step event = some w') :
    w'.core.snapshot = w.core.snapshot ∨
      ∃ s, w'.core.snapshot = LifecycleCore.touch s ∧ s.sequence = w.core.snapshot.sequence := by
  cases event with
  | beginPass =>
    obtain rfl := Option.some.inj moved
    by_cases shut : w.core.isCancelled = true
    · exact .inl (if_pos shut)
    · exact .inr ⟨_, if_neg shut, rfl⟩
  | endPass =>
    obtain ⟨_, same⟩ := Option.ite_none_left_eq_some.mp moved
    obtain rfl := Option.some.inj same
    exact .inl rfl
  | ready indexedCommit now =>
    obtain rfl := Option.some.inj moved
    unfold LifecycleCore.publishReady
    split_ifs
    · exact .inl rfl
    · exact .inr ⟨_, rfl, rfl⟩
  | failed message now =>
    obtain rfl := Option.some.inj moved
    unfold LifecycleCore.publishFailed
    split_ifs
    · exact .inl rfl
    · exact .inr ⟨_, rfl, rfl⟩
  | cancelled now =>
    obtain rfl := Option.some.inj moved
    exact .inr ⟨_, rfl, rfl⟩

theorem Gated.shut (gated : Gated events w) (shut : w.core.isCancelled = true)
    (moved : w.step event = some w') :
    w'.core.snapshot.state = w.core.snapshot.state ∧
      w'.core.snapshot.problem = w.core.snapshot.problem := by
  cases event with
  | beginPass =>
    obtain rfl := Option.some.inj moved
    have same : w.core.beginPass.snapshot = w.core.snapshot := if_pos shut
    exact ⟨congrArg IndexLifecycleSnapshot.state same,
      congrArg IndexLifecycleSnapshot.problem same⟩
  | endPass =>
    obtain ⟨_, same⟩ := Option.ite_none_left_eq_some.mp moved
    obtain rfl := Option.some.inj same
    exact ⟨rfl, rfl⟩
  | ready indexedCommit now =>
    obtain rfl := Option.some.inj moved
    have refused : (!w.core.readyAllowed) = true := by
      simp [LifecycleCore.readyAllowed, readyAllowedFor, shut]
    have same : w.core.publishReady indexedCommit now = (false, w.core) := if_pos refused
    rw [same]
    exact ⟨rfl, rfl⟩
  | failed message now =>
    obtain rfl := Option.some.inj moved
    have same : w.core.publishFailed message now = (false, w.core) := if_pos shut
    rw [same]
    exact ⟨rfl, rfl⟩
  | cancelled now =>
    obtain rfl := Option.some.inj moved
    exact ⟨(gated.closed shut).1.symm, (gated.closed shut).2.symm⟩

end Steps

/-! ### The gate -/

/-- **The readiness gate.** In every state that passes, publications and shutdowns reach in any
order: the state is ready only while no pass is in flight and no shutdown was published; after a
shutdown no event changes the state or the problem; a change of the snapshot raises the sequence
number until it is at its largest; and `ready` is published wherever no pass is in flight and no
shutdown was published. -/
theorem gate (events : List LifecycleEvent) (w : Lifecycle) (reached : Reaches events w) :
    (w.core.snapshot.state = .ready →
        w.guards = 0 ∧ events.any LifecycleEvent.isCancel = false) ∧
      (events.any LifecycleEvent.isCancel = true → ∀ event w', w.step event = some w' →
        w'.core.snapshot.state = w.core.snapshot.state ∧
          w'.core.snapshot.problem = w.core.snapshot.problem) ∧
      (∀ event w', w.step event = some w' → w'.core.snapshot ≠ w.core.snapshot →
        w.core.snapshot.sequence < u64Max →
          w.core.snapshot.sequence < w'.core.snapshot.sequence) ∧
      ∀ indexedCommit now, w.guards = 0 → events.any LifecycleEvent.isCancel = false →
        (w.core.publishReady indexedCommit now).1 = true ∧
          (w.core.publishReady indexedCommit now).2.snapshot.state = .ready := by
  have gated := gated_of_reaches reached
  refine ⟨fun opened => ⟨gated.counted.symm.trans (gated.quiet opened), ?_⟩, fun shut => ?_, ?_, ?_⟩
  · rw [← gated.cancelled]
    refine Bool.eq_false_iff.mpr fun shut => ?_
    rw [(gated.closed shut).1] at opened
    cases opened
  · rw [← gated.cancelled] at shut
    exact fun event w' moved => gated.shut shut moved
  · intro event w' moved changed room
    rcases snapshot_step moved with same | ⟨s, touched, counted⟩
    · exact absurd same changed
    · rw [touched, ← counted]
      rw [← counted] at room
      exact lt_sequence_touch room
  · intro indexedCommit now none live
    rw [← gated.cancelled] at live
    have allowed : w.core.readyAllowed = true := by
      simp [LifecycleCore.readyAllowed, readyAllowedFor, live, gated.counted, none]
    unfold LifecycleCore.publishReady
    rw [if_neg (by simp [allowed])]
    exact ⟨rfl, rfl⟩

def onePass : Lifecycle where
  core := LifecycleCore.endPass (LifecycleCore.beginPass {})

theorem gate_onePass : (onePass.core.publishReady (some "c1") 7).1 = true :=
  ((gate [.beginPass, .endPass] onePass (runs_of_execute rfl)).2.2.2 (some "c1") 7 rfl rfl).1

/-! ### The sequence number at its end -/

/-- A number of passes, one after the other. -/
def passes (count : Nat) : List LifecycleEvent :=
  (List.replicate count [LifecycleEvent.beginPass, .endPass]).flatten

theorem reaches_passes (count : Nat) :
    ∃ w, Reaches (passes count) w ∧ w.guards = 0 ∧ w.core.snapshot.problem = none ∧
      w.core.snapshot.sequence = min u64Max count := by
  induction count with
  | zero => exact ⟨{}, .start, rfl, rfl, rfl⟩
  | succ count ih =>
    obtain ⟨w, reached, ended, clean, counted⟩ := ih
    have next : passes (count + 1) =
        passes count ++ [LifecycleEvent.beginPass] ++ [LifecycleEvent.endPass] := by
      unfold passes
      rw [List.replicate_succ', List.flatten_append]
      simp
    have live : w.core.isCancelled = false := by simp [LifecycleCore.isCancelled, clean]
    have begun : w.core.beginPass.snapshot = LifecycleCore.touch
        { w.core.snapshot with
          state := .warmingUp
          attemptId := saturatingAdd u64Max w.core.snapshot.attemptId 1
          completedAtUnixMs := none
          retryAfterMs := some warmingUpRetryAfterMs
          problem := none } := if_neg (by rw [live]; decide)
    refine ⟨⟨w.core.beginPass.endPass, 0⟩, ?_, rfl, ?_, ?_⟩
    · rw [next]
      refine (reached.step ?_ rfl).step ?_ ?_
      · intro _
        rw [ended]
        decide
      · intro same
        cases same
      · simp [step, ended]
    · exact congrArg IndexLifecycleSnapshot.problem begun
    · change w.core.beginPass.snapshot.sequence = min u64Max (count + 1)
      rw [begun]
      change min u64Max (w.core.snapshot.sequence + 1) = _
      rw [counted]
      omega

/-- After the largest number of passes a failure is published under the sequence number of the
pass before it. -/
theorem not_sequence_increases :
    ∃ w w', Reaches (passes u64Max) w ∧ w.step (.failed "disk full" 0) = some w' ∧
      w'.core.snapshot ≠ w.core.snapshot ∧
        ¬ w.core.snapshot.sequence < w'.core.snapshot.sequence := by
  obtain ⟨w, reached, _, clean, counted⟩ := reaches_passes u64Max
  rw [min_self] at counted
  have live : w.core.isCancelled = false := by simp [LifecycleCore.isCancelled, clean]
  have published : (w.core.publishFailed "disk full" 0).2.snapshot.problem.isSome = true := by
    unfold LifecycleCore.publishFailed
    rw [if_neg (by rw [live]; decide)]
    rfl
  have bounded : (w.core.publishFailed "disk full" 0).2.snapshot.sequence ≤ u64Max := by
    unfold LifecycleCore.publishFailed
    rw [if_neg (by rw [live]; decide)]
    exact sequence_touch_le _
  refine ⟨w, _, reached, rfl, fun same => ?_, ?_⟩
  · rw [same, clean] at published
    cases published
  · rw [counted, not_lt]
    exact bounded

end Lifecycle

end Lain.Server
