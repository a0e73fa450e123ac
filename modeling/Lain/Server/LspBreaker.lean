import Mathlib

/-!
# The breaker of the language servers

A language server that fails too often is given up.
-/

namespace Lain.Server.LspBreaker

inductive FailureKind where
  | processExited | requestError | timeout
  deriving DecidableEq

def maxConsecutiveLspFailures : Nat := 3

def lspRestartBudget : Nat := 3

def lspRestartWindow : Nat := 60 * 1000

/-- What is kept of the servers by their binaries: which are started and which given up, failures in
a row, exits with the beginning of their window, and the documents known to a server. -/
structure LspMultiplexer where
  started : Finset String := ∅
  unavailable : Finset String := ∅
  consecutiveFailures : String → Option Nat := fun _ => none
  restartBudget : String → Option (Nat × Nat) := fun _ => none
  identityDocuments : String → Option (String × Int) := fun _ => none

namespace LspMultiplexer

def restartEntry (budget : Option (Nat × Nat)) (now : Nat) : Nat × Nat :=
  let (count, windowStart) := budget.getD (0, now)
  if lspRestartWindow < now - windowStart then (1, now)
  else (min (count + 1) (2 ^ 32 - 1), windowStart)

def recordRestartAt (m : LspMultiplexer) (binary : String) (now : Nat) : LspMultiplexer :=
  let entry := restartEntry (m.restartBudget binary) now
  let m := { m with restartBudget := Function.update m.restartBudget binary (some entry) }
  if lspRestartBudget < entry.1 ∧ binary ∉ m.unavailable then
    { m with
      unavailable := insert binary m.unavailable
      consecutiveFailures := Function.update m.consecutiveFailures binary none }
  else m

def recordLspFailureAt (m : LspMultiplexer) (binary : String) (kind : FailureKind) (now : Nat) :
    LspMultiplexer :=
  match kind with
  | .processExited =>
    let dropped :=
      { m with
        started := m.started.erase binary
        identityDocuments := fun _ => none }
    if binary ∈ m.unavailable then dropped else dropped.recordRestartAt binary now
  | .requestError | .timeout =>
    let count := ((m.consecutiveFailures binary).map fun n => (n + 1) % 2 ^ 32).getD 1
    let m :=
      { m with
        consecutiveFailures := Function.update m.consecutiveFailures binary (some count) }
    if maxConsecutiveLspFailures ≤ count ∧ binary ∉ m.unavailable then
      { m with unavailable := insert binary m.unavailable }
    else m

def recordSuccess (m : LspMultiplexer) (binary : String) : LspMultiplexer :=
  { m with consecutiveFailures := Function.update m.consecutiveFailures binary none }

end LspMultiplexer

/-! ### Runs -/

/-- A call of the breaker. -/
inductive LspCall where
  | failure (binary : String) (kind : FailureKind) (now : Nat)
  | success (binary : String)
  deriving DecidableEq

def LspCall.binary : LspCall → String
  | .failure binary _ _ => binary
  | .success binary => binary

def LspCall.time : LspCall → Option Nat
  | .failure _ _ now => some now
  | .success _ => none

/-- The breaker takes a call. -/
def step (m : LspMultiplexer) : LspCall → LspMultiplexer
  | .failure binary kind now => m.recordLspFailureAt binary kind now
  | .success binary => m.recordSuccess binary

/-- The breaker takes calls, from the start. -/
def run (calls : List LspCall) : LspMultiplexer :=
  calls.foldl step {}

/-! ### When the breaker should trip -/

def isRequestFailure (binary : String) : LspCall → Bool
  | .failure other kind _ => decide (other = binary ∧ kind ≠ .processExited)
  | .success _ => false

def exits (binary : String) (calls : List LspCall) : List Nat :=
  calls.filterMap fun
    | .failure other kind now => if other = binary ∧ kind = .processExited then some now else none
    | .success _ => none

def failuresInARow (binary : String) (calls : List LspCall) : Nat :=
  (calls.reverse.takeWhile fun call => decide (call ≠ .success binary)).countP
    (isRequestFailure binary)

/-- A binary has failed too often in a row. -/
def Fails (binary : String) (calls : List LspCall) : Prop :=
  maxConsecutiveLspFailures ≤ failuresInARow binary calls

def Loops (binary : String) (calls : List LspCall) : Prop :=
  ∃ start, lspRestartBudget <
    (exits binary calls).countP fun t => decide (start ≤ t ∧ t ≤ start + lspRestartWindow)

def Tripped (binary : String) (calls : List LspCall) : Prop :=
  ∃ before, before <+: calls ∧ (Fails binary before ∨ Loops binary before)

def SameFor (binary : String) (m m' : LspMultiplexer) : Prop :=
  (binary ∈ m.unavailable ↔ binary ∈ m'.unavailable) ∧
    m.consecutiveFailures binary = m'.consecutiveFailures binary ∧
      m.restartBudget binary = m'.restartBudget binary

/-- The breaker trips exactly when it should: after every call the binaries that are given up are
those that have been given reason, and a call changes nothing of another binary. -/
structure TripsExactly (calls : List LspCall) : Prop where
  status : ∀ before, before <+: calls → ∀ binary,
    binary ∈ (run before).unavailable ↔ Tripped binary before
  apart : ∀ before call, before ++ [call] <+: calls → ∀ binary, binary ≠ call.binary →
    SameFor binary (run before) (run (before ++ [call]))

/-! ### Windows that do not slide -/

def nextWindow (window : Option (Nat × Nat)) (t : Nat) : Nat × Nat :=
  match window with
  | none => (1, t)
  | some (n, start) => if lspRestartWindow < t - start then (1, t) else (n + 1, start)

def lastWindow (times : List Nat) : Option (Nat × Nat) :=
  times.foldl (fun window t => some (nextWindow window t)) none

def Crowded (binary : String) (calls : List LspCall) : Prop :=
  ∃ n ∈ (lastWindow (exits binary calls)).map Prod.fst, lspRestartBudget < n

/-- Exits that lie close together are not parted by the beginning of a window: wherever too many lie
within some interval of its length, too many lay in one window by then, or enough requests had failed
in a row. -/
def Unparted (calls : List LspCall) : Prop :=
  ∀ before, before <+: calls → ∀ binary, Loops binary before →
    ∃ earlier, earlier <+: before ∧ (Fails binary earlier ∨ Crowded binary earlier)

section Calls

variable {binary : String} {calls : List LspCall} {call : LspCall}

theorem run_concat (calls : List LspCall) (call : LspCall) :
    run (calls ++ [call]) = step (run calls) call := by
  unfold run
  rw [List.foldl_append, List.foldl_cons, List.foldl_nil]

theorem lastWindow_concat (times : List Nat) (t : Nat) :
    lastWindow (times ++ [t]) = some (nextWindow (lastWindow times) t) := by
  unfold lastWindow
  rw [List.foldl_append, List.foldl_cons, List.foldl_nil]

theorem exits_concat (calls : List LspCall) (call : LspCall) :
    exits binary (calls ++ [call]) = exits binary calls ++ exits binary [call] :=
  List.filterMap_append

theorem failuresInARow_concat (calls : List LspCall) (call : LspCall) :
    failuresInARow binary (calls ++ [call]) =
      if call = .success binary then 0
      else failuresInARow binary calls + if isRequestFailure binary call then 1 else 0 := by
  unfold failuresInARow
  rw [List.reverse_append, List.reverse_singleton, List.singleton_append]
  by_cases success : call = .success binary
  · rw [if_pos success, List.takeWhile_cons_of_neg (by simp [success]), List.countP_nil]
  · rw [if_neg success, List.takeWhile_cons_of_pos (by simp [success]), List.countP_cons]

theorem exits_other (other : binary ≠ call.binary) : exits binary [call] = [] := by
  cases call with
  | failure b kind now => simpa [exits] using fun same => absurd same.symm other
  | success b => rfl

theorem failuresInARow_other (other : binary ≠ call.binary) :
    failuresInARow binary (calls ++ [call]) = failuresInARow binary calls := by
  rw [failuresInARow_concat]
  cases call with
  | failure b kind now =>
    rw [if_neg (by rintro ⟨⟩), isRequestFailure]
    simpa using fun same => absurd same.symm other
  | success b =>
    have apart : LspCall.success b ≠ .success binary := fun same =>
      other (LspCall.success.inj same).symm
    rw [if_neg apart]
    rfl

theorem sameFor_step (m : LspMultiplexer) (other : binary ≠ call.binary) :
    SameFor binary m (step m call) := by
  cases call with
  | success b => exact ⟨Iff.rfl, (Function.update_of_ne other _ _).symm, rfl⟩
  | failure b kind now =>
    change binary ≠ b at other
    have same : SameFor binary m m := ⟨Iff.rfl, rfl, rfl⟩
    have request : SameFor binary m (m.recordLspFailureAt b .requestError now) := by
      unfold LspMultiplexer.recordLspFailureAt
      dsimp only
      split_ifs
      · refine ⟨?_, (Function.update_of_ne other _ _).symm, rfl⟩
        simp [other]
      · exact ⟨Iff.rfl, (Function.update_of_ne other _ _).symm, rfl⟩
    cases kind with
    | requestError => exact request
    | timeout => exact request
    | processExited =>
      change SameFor binary m (m.recordLspFailureAt b .processExited now)
      unfold LspMultiplexer.recordLspFailureAt LspMultiplexer.recordRestartAt
      dsimp only
      split_ifs
      · exact same
      · refine ⟨?_, (Function.update_of_ne other _ _).symm,
          (Function.update_of_ne other _ _).symm⟩
        simp [other]
      · exact ⟨Iff.rfl, rfl, (Function.update_of_ne other _ _).symm⟩

/-! ### What the breaker keeps -/

/-- The breaker knows of a binary that is not given up its failures in a row and its window, and of
one that is given up that there was reason. -/
structure Counts (binary : String) (calls : List LspCall) (m : LspMultiplexer) : Prop where
  status : binary ∈ m.unavailable ↔
    ∃ before, before <+: calls ∧ (Fails binary before ∨ Crowded binary before)
  failures : binary ∉ m.unavailable →
    (m.consecutiveFailures binary).getD 0 = failuresInARow binary calls
  window : binary ∉ m.unavailable → m.restartBudget binary = lastWindow (exits binary calls)

theorem exists_prefix_concat {P : List LspCall → Prop} :
    (∃ before, before <+: calls ++ [call] ∧ P before) ↔
      P (calls ++ [call]) ∨ ∃ before, before <+: calls ∧ P before := by
  simp only [List.prefix_concat_iff]
  constructor
  · rintro ⟨before, rfl | early, holds⟩
    · exact .inl holds
    · exact .inr ⟨before, early, holds⟩
  · rintro (holds | ⟨before, early, holds⟩)
    · exact ⟨_, .inl rfl, holds⟩
    · exact ⟨before, .inr early, holds⟩

theorem Counts.other {m : LspMultiplexer} (counts : Counts binary calls m)
    (other : binary ≠ call.binary) : Counts binary (calls ++ [call]) (step m call) := by
  obtain ⟨status, failures, window⟩ := sameFor_step m other
  have same : exits binary (calls ++ [call]) = exits binary calls := by
    rw [exits_concat, exits_other other, List.append_nil]
  have reasons : Fails binary (calls ++ [call]) ∨ Crowded binary (calls ++ [call]) ↔
      Fails binary calls ∨ Crowded binary calls := by
    unfold Fails Crowded
    rw [failuresInARow_other other, same]
  refine ⟨?_, fun free => ?_, fun free => ?_⟩
  · rw [← status, counts.status, exists_prefix_concat, reasons, or_iff_right_of_imp]
    exact fun now => ⟨calls, List.prefix_rfl, now⟩
  · rw [← failures, counts.failures (mt status.mp free), failuresInARow_other other]
  · rw [← window, counts.window (mt status.mp free), same]

theorem Counts.unavailable {m : LspMultiplexer} (counts : Counts binary calls m)
    (gone : binary ∈ m.unavailable) {m' : LspMultiplexer} (stays : binary ∈ m'.unavailable) :
    Counts binary (calls ++ [call]) m' where
  status := by
    rw [exists_prefix_concat]
    exact iff_of_true stays (.inr (counts.status.mp gone))
  failures free := absurd stays free
  window free := absurd stays free

theorem Counts.available {m m' : LspMultiplexer} (counts : Counts binary calls m)
    (free : binary ∉ m.unavailable)
    (trips : binary ∈ m'.unavailable ↔
      Fails binary (calls ++ [call]) ∨ Crowded binary (calls ++ [call]))
    (failures : binary ∉ m'.unavailable →
      (m'.consecutiveFailures binary).getD 0 = failuresInARow binary (calls ++ [call]))
    (window : binary ∉ m'.unavailable →
      m'.restartBudget binary = lastWindow (exits binary (calls ++ [call]))) :
    Counts binary (calls ++ [call]) m' where
  status := by
    rw [exists_prefix_concat, or_iff_left (mt counts.status.mpr free)]
    exact trips
  failures := failures
  window := window

theorem Counts.no_reason {m : LspMultiplexer} (counts : Counts binary calls m)
    (free : binary ∉ m.unavailable) :
    failuresInARow binary calls < maxConsecutiveLspFailures ∧ ¬ Crowded binary calls := by
  have none_ := mt counts.status.mpr free
  exact ⟨not_le.mp fun fails => none_ ⟨calls, List.prefix_rfl, .inl fails⟩,
    fun crowded => none_ ⟨calls, List.prefix_rfl, .inr crowded⟩⟩

theorem restartEntry_eq {window : Option (Nat × Nat)} {now : Nat}
    (few : ∀ n ∈ window.map Prod.fst, n ≤ lspRestartBudget) :
    LspMultiplexer.restartEntry window now = nextWindow window now := by
  unfold LspMultiplexer.restartEntry nextWindow
  rcases window with _ | ⟨n, start⟩
  · simp
  · have small : n ≤ 3 := few n rfl
    dsimp only [Option.getD_some]
    rw [min_eq_left (by omega)]

theorem Counts.step_success {m : LspMultiplexer} (counts : Counts binary calls m) :
    Counts binary (calls ++ [.success binary]) (m.recordSuccess binary) := by
  by_cases free : binary ∈ m.unavailable
  · exact counts.unavailable free free
  · obtain ⟨few, uncrowded⟩ := counts.no_reason free
    have same : exits binary (calls ++ [.success binary]) = exits binary calls := by
      rw [exits_concat]
      exact List.append_nil _
    have none_ : failuresInARow binary (calls ++ [.success binary]) = 0 := by
      rw [failuresInARow_concat, if_pos rfl]
    refine counts.available free ?_ (fun _ => ?_) (fun _ => ?_)
    · refine iff_of_false free ?_
      unfold Fails Crowded
      rw [same, none_]
      exact fun reason => reason.elim (by decide) uncrowded
    · rw [none_]
      change (Function.update m.consecutiveFailures binary none binary).getD 0 = 0
      rw [Function.update_self]
      rfl
    · rw [same]
      exact counts.window free

theorem Counts.step_request {m : LspMultiplexer} (counts : Counts binary calls m) {kind : FailureKind}
    (request : kind ≠ .processExited) (now : Nat) :
    Counts binary (calls ++ [.failure binary kind now])
      (m.recordLspFailureAt binary .requestError now) := by
  unfold LspMultiplexer.recordLspFailureAt
  dsimp only
  by_cases free : binary ∈ m.unavailable
  · rw [if_neg fun trips => trips.2 free]
    exact counts.unavailable free free
  · obtain ⟨few, uncrowded⟩ := counts.no_reason free
    have same : exits binary (calls ++ [.failure binary kind now]) = exits binary calls := by
      rw [exits_concat]
      simp [exits, request]
    have more : failuresInARow binary (calls ++ [.failure binary kind now]) =
        failuresInARow binary calls + 1 := by
      rw [failuresInARow_concat, if_neg (by rintro ⟨⟩), if_pos]
      simp [isRequestFailure, request]
    have count : ((m.consecutiveFailures binary).map fun n => (n + 1) % 2 ^ 32).getD 1 =
        failuresInARow binary calls + 1 := by
      rw [← counts.failures free] at few ⊢
      cases kept : m.consecutiveFailures binary with
      | none => rfl
      | some n =>
        rw [kept] at few
        have small : n < 3 := few
        change (n + 1) % 2 ^ 32 = n + 1
        omega
    have trips : Fails binary (calls ++ [.failure binary kind now]) ∨
        Crowded binary (calls ++ [.failure binary kind now]) ↔
          maxConsecutiveLspFailures ≤ failuresInARow binary calls + 1 := by
      unfold Fails Crowded
      rw [same, more]
      exact or_iff_left uncrowded
    rw [count]
    refine counts.available free ?_ (fun _ => ?_) (fun _ => ?_)
    · rw [trips]
      split_ifs with enough
      · exact iff_of_true (Finset.mem_insert_self _ _) enough.1
      · exact iff_of_false free fun fails => enough ⟨fails, free⟩
    · rw [more]
      split_ifs <;> simp only [Function.update_self, Option.getD_some]
    · rw [same, ← counts.window free]
      split_ifs <;> rfl

theorem Counts.step_exit {m : LspMultiplexer} (counts : Counts binary calls m) (now : Nat) :
    Counts binary (calls ++ [.failure binary .processExited now])
      (m.recordLspFailureAt binary .processExited now) := by
  unfold LspMultiplexer.recordLspFailureAt
  dsimp only
  by_cases free : binary ∈ m.unavailable
  · rw [if_pos free]
    exact counts.unavailable free free
  · obtain ⟨few, uncrowded⟩ := counts.no_reason free
    have more : lastWindow (exits binary (calls ++ [.failure binary .processExited now])) =
        some (nextWindow (lastWindow (exits binary calls)) now) := by
      rw [exits_concat, ← lastWindow_concat]
      simp [exits]
    have same : failuresInARow binary (calls ++ [.failure binary .processExited now]) =
        failuresInARow binary calls := by
      rw [failuresInARow_concat, if_neg (by rintro ⟨⟩), if_neg (by simp [isRequestFailure])]
      rfl
    have entry : LspMultiplexer.restartEntry (m.restartBudget binary) now =
        nextWindow (lastWindow (exits binary calls)) now := by
      rw [counts.window free]
      exact restartEntry_eq fun n member => not_lt.mp fun crowd => uncrowded ⟨n, member, crowd⟩
    have trips : Fails binary (calls ++ [.failure binary .processExited now]) ∨
        Crowded binary (calls ++ [.failure binary .processExited now]) ↔
          lspRestartBudget < (nextWindow (lastWindow (exits binary calls)) now).1 := by
      unfold Fails Crowded
      rw [same, more, or_iff_right (not_le.mpr few)]
      simp
    rw [if_neg free]
    unfold LspMultiplexer.recordRestartAt
    dsimp only
    rw [entry]
    refine counts.available free ?_ (fun kept => ?_) (fun _ => ?_)
    · rw [trips]
      split_ifs with enough
      · exact iff_of_true (Finset.mem_insert_self _ _) enough.1
      · exact iff_of_false free fun crowd => enough ⟨crowd, free⟩
    · rw [same, ← counts.failures free]
      split_ifs at kept ⊢ with enough
      · exact absurd (Finset.mem_insert_self _ _) kept
      · rfl
    · rw [more]
      split_ifs <;> exact Function.update_self _ _ _

/-- **Every call keeps what is known.** -/
theorem Counts.step {m : LspMultiplexer} (counts : Counts binary calls m) (call : LspCall) :
    Counts binary (calls ++ [call]) (step m call) := by
  by_cases own : binary = call.binary
  · cases call with
    | success b =>
      obtain rfl : binary = b := own
      exact counts.step_success
    | failure b kind now =>
      obtain rfl : binary = b := own
      cases kind with
      | processExited => exact counts.step_exit now
      | requestError => exact counts.step_request (by decide) now
      | timeout => exact counts.step_request (by decide) now
  · exact counts.other own

theorem counts_run (binary : String) (calls : List LspCall) : Counts binary calls (run calls) := by
  induction calls using List.reverseRecOn with
  | nil =>
    refine ⟨iff_of_false (Finset.notMem_empty _) ?_, fun _ => rfl, fun _ => rfl⟩
    rintro ⟨before, early, reason⟩
    obtain rfl := List.prefix_nil.mp early
    rcases reason with fails | ⟨n, ⟨⟩, -⟩
    exact Nat.not_succ_le_zero _ fails
  | append_singleton calls call ih =>
    rw [run_concat]
    exact ih.step call

/-! ### Windows and intervals -/

theorem lastWindow_le {times : List Nat} (ordered : times.Pairwise (· ≤ ·)) {n start : Nat}
    (last : lastWindow times = some (n, start)) :
    start ∈ times ∧
      n ≤ times.countP fun t => decide (start ≤ t ∧ t ≤ start + lspRestartWindow) := by
  induction times using List.reverseRecOn generalizing n start with
  | nil => cases last
  | append_singleton times t ih =>
    obtain ⟨earlier, -, before⟩ := List.pairwise_append.mp ordered
    rw [lastWindow_concat] at last
    have fresh : 1 ≤ (times ++ [t]).countP
        fun u => decide (t ≤ u ∧ u ≤ t + lspRestartWindow) := by
      refine List.countP_pos_iff.mpr ⟨t, by simp, ?_⟩
      exact decide_eq_true ⟨Nat.le_refl t, Nat.le_add_right _ _⟩
    rcases kept : lastWindow times with _ | ⟨m, begins⟩
    · rw [kept] at last
      obtain ⟨rfl, rfl⟩ := Prod.mk.inj (Option.some.inj last)
      exact ⟨by simp, fresh⟩
    · obtain ⟨member, few⟩ := ih earlier kept
      rw [kept, nextWindow] at last
      split_ifs at last with expired
      · obtain ⟨rfl, rfl⟩ := Prod.mk.inj (Option.some.inj last)
        exact ⟨by simp, fresh⟩
      · obtain ⟨rfl, rfl⟩ := Prod.mk.inj (Option.some.inj last)
        have from_ : begins ≤ t := before begins member t (List.mem_singleton_self t)
        have inside : begins ≤ t ∧ t ≤ begins + lspRestartWindow := ⟨from_, by omega⟩
        refine ⟨List.mem_append_left _ member, ?_⟩
        rw [List.countP_append, List.countP_singleton, if_pos (decide_eq_true inside)]
        exact Nat.add_le_add_right few 1

theorem exits_sublist (binary : String) (calls : List LspCall) :
    (exits binary calls).Sublist (calls.filterMap LspCall.time) := by
  induction calls with
  | nil => exact .slnil
  | cons call calls ih =>
    cases call with
    | success b => exact ih
    | failure b kind now =>
      unfold exits
      rw [List.filterMap_cons, List.filterMap_cons]
      dsimp only [LspCall.time]
      split_ifs
      · exact ih.cons_cons now
      · exact ih.cons now

theorem Crowded.loops (ordered : (calls.filterMap LspCall.time).Pairwise (· ≤ ·))
    (crowded : Crowded binary calls) : Loops binary calls := by
  obtain ⟨n, member, crowd⟩ := crowded
  obtain ⟨⟨n, start⟩, last, rfl⟩ := Option.map_eq_some_iff.mp member
  exact ⟨start, crowd.trans_le
    (lastWindow_le (ordered.sublist (exits_sublist binary calls)) last).2⟩

/-- **The breaker trips exactly when it should** as long as no beginning of a window parts exits that
lie close together. -/
theorem tripsExactly_iff (calls : List LspCall)
    (ordered : (calls.filterMap LspCall.time).Pairwise (· ≤ ·)) :
    TripsExactly calls ↔ Unparted calls := by
  constructor
  · intro exact_ before early binary loops
    exact (counts_run binary before).status.mp
      ((exact_.status before early binary).mpr ⟨before, List.prefix_rfl, .inr loops⟩)
  · intro unparted
    refine ⟨fun before early binary => ?_, fun before call early binary other => ?_⟩
    · rw [(counts_run binary before).status]
      constructor
      · rintro ⟨earlier, within, fails | crowded⟩
        · exact ⟨earlier, within, .inl fails⟩
        · have sorted := ordered.sublist ((within.trans early).sublist.filterMap LspCall.time)
          exact ⟨earlier, within, .inr (crowded.loops sorted)⟩
      · rintro ⟨earlier, within, fails | loops⟩
        · exact ⟨earlier, within, .inl fails⟩
        · obtain ⟨first, inside, reason⟩ := unparted earlier (within.trans early) binary loops
          exact ⟨first, inside.trans within, reason⟩
    · rw [run_concat]
      exact sameFor_step _ other

end Calls

theorem tripsExactly_iff_requests :
    TripsExactly [.failure "a" .timeout 1, .failure "a" .requestError 2, .failure "a" .timeout 2] ↔
      Unparted [.failure "a" .timeout 1, .failure "a" .requestError 2, .failure "a" .timeout 2] :=
  tripsExactly_iff _ (by decide)

/-- Four exits within five seconds do not trip the breaker when a window begins behind the first. -/
theorem tripsExactly_fails :
    ¬ TripsExactly ([0, 59000, 61000, 62000, 63000].map (.failure "a" .processExited)) := by
  intro exact_
  have loops : Loops "a" ([0, 59000, 61000, 62000, 63000].map (.failure "a" .processExited)) :=
    ⟨59000, by decide⟩
  have gone := (exact_.status _ List.prefix_rfl "a").mpr ⟨_, List.prefix_rfl, .inr loops⟩
  exact absurd gone (by decide)

end Lain.Server.LspBreaker
