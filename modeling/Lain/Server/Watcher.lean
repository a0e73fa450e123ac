import Mathlib
import Lain.Foundation.Runs

/-!
# The source watcher

A thread owns the watcher of the operating system, whose callback puts changed files into a
bounded channel and new directories into the thread's command channel; a task takes the files
out again, a batch at a time.
-/

namespace Lain.Server

open Foundation

inductive WatchCommand (π : Type*) where
  | addDirectory (path : π)
  | shutdown
  deriving DecidableEq

inductive StartPhase where
  | waiting | stopping | returned
  deriving DecidableEq

inductive ThreadPhase where
  | registering | looping | left | gone
  deriving DecidableEq

inductive ProcessorPhase where
  | top | sleeping | draining | drained | processing | exited
  deriving DecidableEq

/-- The watcher with its two channels and the task. -/
structure SourceWatcher (π : Type*) where
  starter : StartPhase := .waiting
  thread : ThreadPhase := .registering
  commands : List (WatchCommand π) := []
  events : List π := []
  processor : ProcessorPhase := .top
  pending : Finset π := ∅
  batch : List π := []
  cancelled : Bool := false
  deriving DecidableEq

/-- The atomic steps. -/
inductive WatchStep (π : Type*) where
  /-- The directories are registered. -/
  | ready
  /-- The callback has put a file into the event channel. -/
  | accept (file : π)
  /-- The callback has seen a new directory. -/
  | directory (path : π)
  /-- The thread takes a command. -/
  | receive
  /-- The thread drops the watcher. -/
  | dropWatcher
  /-- `start_source_watcher` stops its handle: the thread is ready, or the wait is over. -/
  | stop
  /-- The handle is dropped: the thread has ended, or the wait is over. -/
  | finish
  /-- The server's token is cancelled. -/
  | cancel
  /-- The task looks at the token. -/
  | check
  /-- The debounce window is over. -/
  | wake
  /-- The task takes one file out of the channel, or finds it empty or closed. -/
  | tryRecv
  /-- The task cuts a batch out of the pending files. -/
  | takeBatch (batch : List π)
  /-- `process_file` is called for the next file of the batch. -/
  | processFile (file : π)
  /-- The batch is done and the overlay swept. -/
  | sweep
  deriving DecidableEq

namespace SourceWatcher

variable {π : Type*} [DecidableEq π]

def eventCapacity : Nat := 100

def batchSize : Nat := 20

def IsBatch (pending : Finset π) (batch : List π) : Prop :=
  batch.Nodup ∧ batch.toFinset ⊆ pending ∧ batch.length = min batchSize pending.card

instance (pending : Finset π) (batch : List π) : Decidable (IsBatch pending batch) :=
  inferInstanceAs (Decidable (_ ∧ _ ∧ _))

def watching (s : SourceWatcher π) : Bool :=
  decide (s.thread ≠ .gone)

/-- Take one step. -/
def step (s : SourceWatcher π) : WatchStep π → Option (SourceWatcher π)
  | .ready => if s.thread = .registering then some { s with thread := .looping } else none
  | .accept file =>
    if s.watching ∧ s.processor ≠ .exited ∧ s.events.length < eventCapacity then
      some { s with events := s.events ++ [file] }
    else none
  | .directory path =>
    if s.watching then some { s with commands := s.commands ++ [.addDirectory path] } else none
  | .receive =>
    if s.thread = .looping then
      match s.commands with
      | .addDirectory _ :: rest => some { s with commands := rest }
      | .shutdown :: rest => some { s with commands := rest, thread := .left }
      | [] => none
    else none
  | .dropWatcher => if s.thread = .left then some { s with thread := .gone } else none
  | .stop =>
    if s.starter = .waiting then
      some { s with starter := .stopping, commands := s.commands ++ [.shutdown] }
    else none
  | .finish =>
    if s.starter = .stopping then
      some { s with starter := .returned, commands := s.commands ++ [.shutdown] }
    else none
  | .cancel => some { s with cancelled := true }
  | .check =>
    if s.processor = .top then
      some { s with processor := if s.cancelled then .exited else .sleeping }
    else none
  | .wake => if s.processor = .sleeping then some { s with processor := .draining } else none
  | .tryRecv =>
    if s.processor = .draining then
      match s.events with
      | file :: rest => some { s with events := rest, pending := insert file s.pending }
      | [] =>
        if s.watching then
          some { s with processor := if s.pending = ∅ then .top else .drained }
        else some { s with processor := .exited }
    else none
  | .takeBatch batch =>
    if s.processor = .drained ∧ IsBatch s.pending batch then
      some { s with processor := .processing, batch, pending := s.pending \ batch.toFinset }
    else none
  | .processFile file =>
    if s.processor = .processing ∧ s.batch.head? = some file then
      some { s with batch := s.batch.tail }
    else none
  | .sweep =>
    if s.processor = .processing ∧ s.batch = [] then some { s with processor := .top } else none

def waitsAfter (file : π) (waits : Bool) : WatchStep π → Bool
  | .accept other => if other = file then true else waits
  | .processFile other => if other = file then false else waits
  | _ => waits

def waits (steps : List (WatchStep π)) (file : π) : Bool :=
  steps.foldl (waitsAfter file) false

/-- The watcher is at work: unless the token is cancelled, the thread has not left its loop, the
event channel is open at both ends, and every file that waits is in the channel, pending or in
the batch. -/
structure AtWork (steps : List (WatchStep π)) (s : SourceWatcher π) : Prop where
  inLoop : s.cancelled = false → s.thread = .registering ∨ s.thread = .looping
  channelOpen : s.cancelled = false → s.watching = true ∧ s.processor ≠ .exited
  kept : s.cancelled = false → ∀ file, waits steps file = true →
    file ∈ s.events ∨ file ∈ s.pending ∨ file ∈ s.batch

/-- The step is not the thread taking the command to stop. -/
def NotStopped (s : SourceWatcher π) (event : WatchStep π) : Prop :=
  event = .receive → s.commands.head? ≠ some .shutdown

instance (s : SourceWatcher π) (event : WatchStep π) : Decidable (NotStopped s event) :=
  inferInstanceAs (Decidable (_ → _))

variable {s s' : SourceWatcher π} {event : WatchStep π} {steps : List (WatchStep π)}

/-- What holds while the thread takes no command to stop. -/
structure Sound (steps : List (WatchStep π)) (s : SourceWatcher π) : Prop where
  inLoop : s.thread = .registering ∨ s.thread = .looping
  exits : s.processor = .exited → s.cancelled = true
  batchDone : s.processor ≠ .processing → s.batch = []
  kept : s.processor ≠ .exited → ∀ file, waits steps file = true →
    file ∈ s.events ∨ file ∈ s.pending ∨ file ∈ s.batch

theorem Sound.watching (sound : Sound steps s) : s.watching = true := by
  refine decide_eq_true fun gone => ?_
  rcases sound.inLoop with phase | phase
  · rw [gone] at phase
    cases phase
  · rw [gone] at phase
    cases phase

theorem waits_snoc (steps : List (WatchStep π)) (event : WatchStep π) (file : π) :
    waits (steps ++ [event]) file = waitsAfter file (waits steps file) event := by
  unfold waits
  rw [List.foldl_append]
  rfl

private theorem Sound.still (sound : Sound steps s)
    (same : ∀ file, waits (steps ++ [event]) file = waits steps file)
    (events : s'.events = s.events) (pending : s'.pending = s.pending) (batch : s'.batch = s.batch)
    (inLoop : s'.thread = .registering ∨ s'.thread = .looping)
    (exits : s'.processor = .exited → s'.cancelled = true)
    (working : s'.processor ≠ .processing → s.batch = [])
    (open_ : s'.processor ≠ .exited → s.processor ≠ .exited) :
    Sound (steps ++ [event]) s' where
  inLoop := inLoop
  exits := exits
  batchDone idle := batch.trans (working idle)
  kept alive file waiting := by
    rw [same file] at waiting
    rw [events, pending, batch]
    exact sound.kept (open_ alive) file waiting

theorem Sound.step (sound : Sound steps s) (notStopped : NotStopped s event)
    (moved : step s event = some s') : Sound (steps ++ [event]) s' := by
  cases event with
  | ready =>
    obtain ⟨_, same⟩ := Option.ite_none_right_eq_some.mp moved
    cases same
    exact sound.still (waits_snoc steps _) rfl rfl rfl (Or.inr rfl) sound.exits sound.batchDone id
  | accept file =>
    obtain ⟨⟨_, alive, _⟩, same⟩ := Option.ite_none_right_eq_some.mp moved
    cases same
    refine ⟨sound.inLoop, sound.exits, sound.batchDone, fun _ other waiting => ?_⟩
    rw [waits_snoc, waitsAfter] at waiting
    by_cases here : file = other
    · exact Or.inl (List.mem_append_right _ (List.mem_singleton.mpr here.symm))
    · rw [if_neg here] at waiting
      exact (sound.kept alive other waiting).imp_left (List.mem_append_left _)
  | directory path =>
    obtain ⟨_, same⟩ := Option.ite_none_right_eq_some.mp moved
    cases same
    exact sound.still (waits_snoc steps _) rfl rfl rfl sound.inLoop sound.exits sound.batchDone id
  | receive =>
    obtain ⟨_, taken⟩ := Option.ite_none_right_eq_some.mp moved
    cases commands : s.commands with
    | nil =>
      rw [commands] at taken
      cases taken
    | cons command rest =>
      rw [commands] at taken
      cases command with
      | addDirectory path =>
        cases taken
        exact sound.still (waits_snoc steps _) rfl rfl rfl sound.inLoop sound.exits
          sound.batchDone id
      | shutdown => exact absurd (congrArg List.head? commands) (notStopped rfl)
  | dropWatcher =>
    obtain ⟨left, _⟩ := Option.ite_none_right_eq_some.mp moved
    rcases sound.inLoop with phase | phase
    · rw [left] at phase
      cases phase
    · rw [left] at phase
      cases phase
  | stop =>
    obtain ⟨_, same⟩ := Option.ite_none_right_eq_some.mp moved
    cases same
    exact sound.still (waits_snoc steps _) rfl rfl rfl sound.inLoop sound.exits sound.batchDone id
  | finish =>
    obtain ⟨_, same⟩ := Option.ite_none_right_eq_some.mp moved
    cases same
    exact sound.still (waits_snoc steps _) rfl rfl rfl sound.inLoop sound.exits sound.batchDone id
  | cancel =>
    cases moved
    exact sound.still (waits_snoc steps _) rfl rfl rfl sound.inLoop (fun _ => rfl)
      sound.batchDone id
  | check =>
    obtain ⟨top, same⟩ := Option.ite_none_right_eq_some.mp moved
    cases same
    have idle : s.batch = [] := sound.batchDone (by rw [top]; exact fun h => by cases h)
    refine sound.still (waits_snoc steps _) rfl rfl rfl sound.inLoop (fun exited => ?_)
      (fun _ => idle) (fun _ => by rw [top]; exact fun h => by cases h)
    by_contra running
    change (if s.cancelled = true then ProcessorPhase.exited else .sleeping) = .exited at exited
    rw [if_neg running] at exited
    cases exited
  | wake =>
    obtain ⟨asleep, same⟩ := Option.ite_none_right_eq_some.mp moved
    cases same
    have idle : s.batch = [] := sound.batchDone (by rw [asleep]; exact fun h => by cases h)
    exact sound.still (waits_snoc steps _) rfl rfl rfl sound.inLoop (fun exited => by cases exited)
      (fun _ => idle) (fun _ => by rw [asleep]; exact fun h => by cases h)
  | tryRecv =>
    obtain ⟨draining, taken⟩ := Option.ite_none_right_eq_some.mp moved
    have alive : s.processor ≠ .exited := by
      rw [draining]
      exact fun h => by cases h
    have idle : s.batch = [] := sound.batchDone (by rw [draining]; exact fun h => by cases h)
    cases events : s.events with
    | nil =>
      rw [events] at taken
      dsimp only at taken
      rw [if_pos sound.watching] at taken
      cases taken
      refine sound.still (waits_snoc steps _) events.symm rfl rfl sound.inLoop
        (fun exited => ?_) (fun _ => idle) (fun _ => alive)
      change (if s.pending = ∅ then ProcessorPhase.top else .drained) = .exited at exited
      split at exited
      · cases exited
      · cases exited
    | cons file rest =>
      rw [events] at taken
      cases taken
      refine ⟨sound.inLoop, sound.exits, sound.batchDone, fun _ other waiting => ?_⟩
      rw [waits_snoc] at waiting
      rcases sound.kept alive other waiting with queued | pending | working
      · rw [events] at queued
        rcases List.mem_cons.mp queued with rfl | later
        · exact Or.inr (Or.inl (Finset.mem_insert_self _ _))
        · exact Or.inl later
      · exact Or.inr (Or.inl (Finset.mem_insert_of_mem pending))
      · exact Or.inr (Or.inr working)
  | takeBatch batch =>
    obtain ⟨⟨drained, _⟩, same⟩ := Option.ite_none_right_eq_some.mp moved
    cases same
    have alive : s.processor ≠ .exited := by
      rw [drained]
      exact fun h => by cases h
    have idle : s.batch = [] := sound.batchDone (by rw [drained]; exact fun h => by cases h)
    refine ⟨sound.inLoop, fun exited => (by cases exited), fun busy => absurd rfl busy,
      fun _ other waiting => ?_⟩
    rw [waits_snoc] at waiting
    rcases sound.kept alive other waiting with queued | pending | working
    · exact Or.inl queued
    · by_cases cut : other ∈ batch
      · exact Or.inr (Or.inr cut)
      · exact Or.inr (Or.inl (Finset.mem_sdiff.mpr
          ⟨pending, fun inside => cut (List.mem_toFinset.mp inside)⟩))
    · rw [idle] at working
      cases working
  | processFile file =>
    obtain ⟨⟨processing, next⟩, same⟩ := Option.ite_none_right_eq_some.mp moved
    cases same
    have alive : s.processor ≠ .exited := by
      rw [processing]
      exact fun h => by cases h
    refine ⟨sound.inLoop, sound.exits, fun busy => absurd processing busy,
      fun _ other waiting => ?_⟩
    rw [waits_snoc, waitsAfter] at waiting
    by_cases here : file = other
    · rw [if_pos here] at waiting
      cases waiting
    · rw [if_neg here] at waiting
      rcases sound.kept alive other waiting with queued | pending | working
      · exact Or.inl queued
      · exact Or.inr (Or.inl pending)
      · obtain ⟨rest, batch⟩ := List.head?_eq_some_iff.mp next
        rw [batch] at working
        refine Or.inr (Or.inr ?_)
        change other ∈ s.batch.tail
        rw [batch]
        exact (List.mem_cons.mp working).resolve_left (Ne.symm here)
  | sweep =>
    obtain ⟨⟨processing, empty⟩, same⟩ := Option.ite_none_right_eq_some.mp moved
    cases same
    exact sound.still (waits_snoc steps _) rfl rfl rfl sound.inLoop (fun exited => by cases exited)
      (fun _ => empty) (fun _ => by rw [processing]; exact fun h => by cases h)

/-- **While the thread takes no command to stop, the watcher is at work**: until the token is
cancelled the thread stays in its loop, the channel open, and no accepted file is lost. -/
theorem atWork_of_notStopped
    (run : Runs step NotStopped ({} : SourceWatcher π) steps s) : AtWork steps s := by
  have sound : Sound steps s := by
    refine run.invariant (I := Sound) ⟨Or.inl rfl, ?_, fun _ => rfl, ?_⟩ Sound.step
    · intro exited
      cases exited
    · intro _ file waiting
      cases waiting
  refine ⟨fun _ => sound.inLoop, fun running => ⟨sound.watching, fun exited => ?_⟩,
    fun running => sound.kept fun exited => ?_⟩
  · rw [sound.exits exited] at running
    cases running
  · rw [sound.exits exited] at running
    cases running

theorem atWork_of_notStopped_oneFile :
    AtWork [.ready, .accept 7, .check, .wake, .tryRecv, .tryRecv, .takeBatch [7]]
      ({ thread := .looping, processor := .processing, batch := [7] } : SourceWatcher Nat) := by
  exact atWork_of_notStopped (runs_of_execute (by decide))

/-- The function that starts the watcher stops it: the thread leaves its loop and nobody has
cancelled the token. -/
theorem atWork_fails :
    ¬ ∀ (steps : List (WatchStep Nat)) (s : SourceWatcher Nat),
      Runs step (fun _ _ => True) {} steps s → AtWork steps s := by
  intro claim
  have run : Runs step (fun _ _ => True) ({} : SourceWatcher Nat) [.ready, .stop, .receive]
      { starter := .stopping, thread := .left } :=
    runs_of_execute (by decide)
  rcases (claim _ _ run).inLoop rfl with phase | phase
  · cases phase
  · cases phase

end SourceWatcher

end Lain.Server
