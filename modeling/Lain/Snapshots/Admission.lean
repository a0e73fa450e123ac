import Lain.Snapshots.WorkerPool

/-!
# Admission to the queue

A request for a snapshot is turned away while the runner holds too many jobs.
-/

namespace Lain.Snapshots

open Foundation

/-- The jobs the runner may hold before requests are turned away. -/
def maxQueuedJobs : Nat := 64

/-- Why a snapshot is not prepared. -/
inductive PrepareError where
  | snapshotNotFound (snapshot : String)
  | repoNotRegistered (repo : String)
  | refNotFound (entries : List (String × String))
  | invalidArgument (message : String)
  | busy (retryAfterMs : Nat)
  | other (message : String)
deriving DecidableEq

/-- The jobs in each state. -/
structure Counters where
  queued : Nat
  indexing : Nat
  done : Nat
  failed : Nat

def JobRunner.countJobs (runner : JobRunner) (test : JobStatus → Bool) : Nat :=
  runner.byKey.entries.countP fun entry => test entry.2.status

/-- Count the jobs by their state. -/
def JobRunner.counters (runner : JobRunner) : Counters where
  queued := runner.countJobs fun | .queued => true | _ => false
  indexing := runner.countJobs fun | .indexing => true | _ => false
  done := runner.countJobs fun | .done _ => true | _ => false
  failed := runner.countJobs fun | .failed _ => true | _ => false

def Counters.active (counters : Counters) : Nat :=
  counters.queued + counters.indexing

def Counters.finished (counters : Counters) : Nat :=
  counters.done + counters.failed

def JobRunner.admit (runner : JobRunner) : Except PrepareError Unit :=
  if maxQueuedJobs ≤ runner.totalJobs then .error (.busy 1000) else .ok ()

structure Queue where
  pool : Pool
  requests : List (List JobSpec) := []
  submitted : List JobSpec := []
deriving DecidableEq

inductive QueueEvent where
  | prepare (jobs : List JobSpec)
  | submitNext (request : Nat)
  | giveUp (request : Nat)
  | work (event : PoolEvent)

def PoolEvent.submits : PoolEvent → List JobSpec
  | .submit spec => [spec]
  | _ => []

def Queue.step (queue : Queue) : QueueEvent → Option Queue
  | .prepare jobs =>
    match queue.pool.runner.admit with
    | .ok _ => some { queue with requests := queue.requests ++ [jobs] }
    | .error _ => some queue
  | .submitNext request =>
    match queue.requests[request]? with
    | some (job :: rest) =>
      some
        { pool := { queue.pool with runner := (queue.pool.runner.submit job).1 }
          requests := queue.requests.set request rest
          submitted := queue.submitted ++ [job] }
    | _ => none
  | .giveUp request =>
    match queue.requests[request]? with
    | some _ => some { queue with requests := queue.requests.set request [] }
    | none => none
  | .work event =>
    match queue.pool.step event with
    | some pool => some { queue with pool, submitted := queue.submitted ++ event.submits }
    | none => none

/-- No jobs, no requests. -/
def Queue.fresh (workers : Nat) : Queue where
  pool := Pool.fresh workers

def JobRunner.BusyOnlyWhenFull (runner : JobRunner) : Prop :=
  ∀ retryAfterMs, runner.admit = .error (.busy retryAfterMs) →
    maxQueuedJobs ≤ runner.counters.active

/-! ### What the runner counts -/

theorem JobRunner.totalJobs_eq (runner : JobRunner) :
    runner.totalJobs = runner.counters.active + runner.counters.finished := by
  unfold totalJobs counters Counters.active Counters.finished countJobs
  induction runner.byKey.entries with
  | nil => rfl
  | cons entry rest ih =>
    obtain ⟨spec, status, sha⟩ := entry
    simp only [List.length_cons, List.countP_cons] at ih ⊢
    cases status <;> simp only [Bool.false_eq_true, if_true, if_false] <;> omega

theorem JobRunner.isSome_lookup_submit (runner : JobRunner) (spec other : JobSpec) :
    ((runner.submit spec).1.lookup other).isSome = true ↔
      (runner.lookup other).isSome = true ∨ other = spec := by
  rw [lookup_submit]
  split
  next same => exact iff_of_true rfl (Or.inr same)
  next apart => exact ⟨Or.inl, fun h => h.resolve_right apart⟩

theorem JobRunner.isSome_lookup_modify (runner : JobRunner) (spec other : JobSpec)
    (change : JobState → JobState) :
    ((runner.modify spec change).lookup other).isSome = (runner.lookup other).isSome := by
  rw [lookup_modify]
  split
  next same => rw [Option.isSome_map, same]
  · rfl

theorem JobRunner.isSome_lookup_report (runner : JobRunner) (spec other : JobSpec)
    (result : Except String JobOutcome) :
    ((runner.report spec result).lookup other).isSome = (runner.lookup other).isSome := by
  cases result <;> exact isSome_lookup_modify ..

theorem Pool.isSome_lookup_step {pool pool' : Pool} {event : PoolEvent} (other : JobSpec)
    (moved : pool.step event = some pool') :
    (pool'.runner.lookup other).isSome = true ↔
      (pool.runner.lookup other).isSome = true ∨ other ∈ event.submits := by
  have unchanged : event.submits = [] →
      (pool'.runner.lookup other).isSome = (pool.runner.lookup other).isSome →
      ((pool'.runner.lookup other).isSome = true ↔
        (pool.runner.lookup other).isSome = true ∨ other ∈ event.submits) := by
    intro nothing same
    rw [nothing, same]
    exact ⟨Or.inl, fun h => h.resolve_right (List.not_mem_nil)⟩
  cases event with
  | submit spec =>
    cases moved
    refine (pool.runner.isSome_lookup_submit spec other).trans ?_
    rw [PoolEvent.submits, List.mem_singleton]
  | pick w =>
    simp only [Pool.step] at moved
    split at moved <;> cases moved
    exact unchanged rfl rfl
  | start w =>
    simp only [Pool.step] at moved
    split at moved <;> cases moved
    exact unchanged rfl (JobRunner.isSome_lookup_modify ..)
  | resolve w sha =>
    simp only [Pool.step] at moved
    split at moved <;> cases moved
    exact unchanged rfl (JobRunner.isSome_lookup_modify ..)
  | finish w result =>
    simp only [Pool.step] at moved
    split at moved <;> cases moved
    exact unchanged rfl rfl
  | report w =>
    simp only [Pool.step] at moved
    split at moved <;> cases moved
    exact unchanged rfl (JobRunner.isSome_lookup_report ..)

def Queue.Filed (queue : Queue) : Prop :=
  ∀ spec, (queue.pool.runner.lookup spec).isSome = true ↔ spec ∈ queue.submitted

/-- **Every step keeps every job ever submitted in the runner.** -/
theorem Queue.Filed.step {queue queue' : Queue} {event : QueueEvent} (filed : queue.Filed)
    (moved : queue.step event = some queue') : queue'.Filed := by
  intro spec
  cases event with
  | prepare jobs =>
    simp only [Queue.step] at moved
    split at moved <;> cases moved <;> exact filed spec
  | submitNext request =>
    simp only [Queue.step] at moved
    split at moved <;> cases moved
    next job rest _ =>
    rw [JobRunner.isSome_lookup_submit, filed spec, List.mem_append, List.mem_singleton]
  | giveUp request =>
    simp only [Queue.step] at moved
    split at moved <;> cases moved
    exact filed spec
  | work event =>
    simp only [Queue.step] at moved
    split at moved <;> cases moved
    next pool stepped =>
    rw [Pool.isSome_lookup_step spec stepped, filed spec, List.mem_append]

theorem Queue.Filed.totalJobs_eq {queue : Queue} (filed : queue.Filed) :
    queue.pool.runner.totalJobs = queue.submitted.dedup.length := by
  have perm : queue.pool.runner.byKey.keys.Perm queue.submitted.dedup := by
    rw [List.perm_ext_iff_of_nodup (SortedMap.nodup_keys _) (List.nodup_dedup _)]
    intro spec
    rw [List.mem_dedup, SortedMap.mem_keys]
    exact filed spec
  rw [← perm.length_eq]
  exact (List.length_map Prod.fst).symm

/-- **When admission is right**: a request is turned away only while the queue is full, exactly
if fewer jobs were ever submitted than the queue may hold, or that many more were submitted than
have ended. -/
theorem busyOnlyWhenFull_iff {workers : Nat} {events : List QueueEvent} {queue : Queue}
    (run : Runs Queue.step (fun _ _ => True) (Queue.fresh workers) events queue) :
    queue.pool.runner.BusyOnlyWhenFull ↔
      queue.submitted.dedup.length < maxQueuedJobs ∨
        maxQueuedJobs + queue.pool.runner.counters.finished ≤ queue.submitted.dedup.length := by
  have filed : queue.Filed := by
    refine run.invariant (I := fun _ (queue : Queue) => queue.Filed) ?_
      fun filed _ moved => filed.step moved
    intro spec
    exact iff_of_false Bool.false_ne_true List.not_mem_nil
  have total := filed.totalJobs_eq
  have split := queue.pool.runner.totalJobs_eq
  unfold JobRunner.BusyOnlyWhenFull JobRunner.admit
  by_cases full : maxQueuedJobs ≤ queue.pool.runner.totalJobs
  · rw [if_pos full]
    refine ⟨fun fair => Or.inr ?_, fun room retryAfterMs _ => ?_⟩
    · have active := fair 1000 rfl
      omega
    · rcases room with few | spare <;> omega
  · rw [if_neg full]
    refine iff_of_true (fun retryAfterMs turnedAway => ?_) (Or.inl (by omega))
    cases turnedAway

/-! ### A queue that has drained -/

def servedJob (request : Nat) : JobSpec :=
  { ordersJob with sha := String.ofList (List.replicate request '0') }

def servedRequest (request : Nat) : List QueueEvent :=
  [.prepare [servedJob request], .submitNext request, .work (.pick 0), .work (.start 0),
    .work (.finish 0 (.ok ⟨42, []⟩)), .work (.report 0)]

/-- After one request the next one is admitted, as it should be. -/
theorem busyOnlyWhenFull_after_one :
    ∃ queue,
      execute Queue.step (fun _ _ => True) (Queue.fresh 1) (servedRequest 0) = some queue ∧
        queue.pool.runner.BusyOnlyWhenFull := by
  have run : ∃ queue, execute Queue.step (fun _ _ => True) (Queue.fresh 1) (servedRequest 0) =
      some queue ∧ queue.submitted.dedup.length < maxQueuedJobs := ⟨_, rfl, by decide⟩
  obtain ⟨queue, done, few⟩ := run
  exact ⟨queue, done, (busyOnlyWhenFull_iff (runs_of_execute done)).mpr (Or.inl few)⟩

theorem servedJob_injective : Function.Injective servedJob := by
  intro m n same
  have lengths := congrArg (fun spec => spec.sha.toList.length) same
  simpa [servedJob] using lengths

structure Queue.Served (queue : Queue) (served : Nat) : Prop where
  workers : queue.pool.workers = [.idle]
  requests : queue.requests.length = served
  submitted : queue.submitted = (List.range served).map servedJob
  filed : queue.Filed
  done : ∀ spec status, queue.pool.runner.status? spec = some status →
    ∃ outcome, status = .done outcome

namespace Queue.Served

variable {queue : Queue} {served : Nat}

theorem totalJobs (done : queue.Served served) : queue.pool.runner.totalJobs = served := by
  have nodup : queue.submitted.Nodup := by
    rw [done.submitted]
    exact List.nodup_range.map servedJob_injective
  rw [done.filed.totalJobs_eq, nodup.dedup, done.submitted, List.length_map, List.length_range]

theorem active (done : queue.Served served) : queue.pool.runner.counters.active = 0 := by
  have none : ∀ test : JobStatus → Bool, (∀ outcome, test (.done outcome) = false) →
      queue.pool.runner.countJobs test = 0 := by
    intro test undone
    refine List.countP_eq_zero.mpr fun ⟨spec, state⟩ member => ?_
    have found := SortedMap.mem_entries.mp member
    have shown : queue.pool.runner.status? spec = some state.status := congrArg _ found
    obtain ⟨outcome, isDone⟩ := done.done spec _ shown
    simp only [isDone, undone, Bool.false_eq_true, not_false_eq_true]
  unfold JobRunner.counters Counters.active
  simp only
  rw [none, none]
  · exact fun _ => rfl
  · exact fun _ => rfl

theorem next (done : queue.Served served) (room : served < maxQueuedJobs) :
    ∃ queue', execute Queue.step (fun _ _ => True) queue (servedRequest served) = some queue' ∧
      queue'.Served (served + 1) := by
  have total := done.totalJobs
  obtain ⟨⟨runner, workers, started, succeeded⟩, requests, submitted⟩ := queue
  obtain ⟨workersEq, requestsEq, submittedEq, filed, allDone⟩ := done
  simp only at workersEq requestsEq submittedEq allDone total
  subst workersEq
  have admitted : runner.admit = .ok () := if_neg (by omega)
  have found : (runner.submit (servedJob served)).1.nextQueued = some (servedJob served) := by
    have queued : (runner.submit (servedJob served)).1.status? (servedJob served) =
        some .queued := by
      rw [JobRunner.status?_submit, if_pos rfl]
      cases shown : runner.status? (servedJob served) with
      | none => rfl
      | some status =>
        have known : (runner.lookup (servedJob served)).isSome = true := by
          rw [← Option.isSome_map, show Option.map _ _ = some status from shown]
          rfl
        rw [filed, submittedEq, List.mem_map] at known
        obtain ⟨earlier, member, same⟩ := known
        rw [servedJob_injective same] at member
        exact absurd member List.not_mem_range_self
    obtain ⟨job, first⟩ := JobRunner.exists_nextQueued queued
    have isQueued := JobRunner.status?_nextQueued first
    rw [JobRunner.status?_submit] at isQueued
    split at isQueued
    next same => rw [first, same]
    next apart =>
        obtain ⟨outcome, isDone⟩ := allDone job _ isQueued
        cases isDone
  have new : (requests ++ [[servedJob served]])[served]? = some [servedJob served] := by
    rw [← requestsEq]
    exact List.getElem?_concat_length
  have executed : execute Queue.step (fun _ _ => True)
      ⟨⟨runner, [.idle], started, succeeded⟩, requests, submitted⟩ (servedRequest served) =
        some
          { pool :=
              { runner := ((runner.submit (servedJob served)).1.markIndexing
                  (servedJob served)).report (servedJob served) (.ok ⟨42, []⟩)
                workers := [.idle]
                started := started ++ [(0, servedJob served)]
                succeeded := succeeded ++ [servedJob served] }
            requests := (requests ++ [[servedJob served]]).set served []
            submitted := submitted ++ [servedJob served] } := by
    simp [execute, servedRequest, Queue.step, Pool.step, admitted, found, new,
      PoolEvent.submits, Except.isOk, Except.toBool]
  refine ⟨_, executed, rfl, ?_, ?_, ?_, ?_⟩
  · simp [requestsEq]
  · simp [submittedEq, List.range_succ]
  · exact (runs_of_execute executed).invariant (I := fun _ (queue : Queue) => queue.Filed) filed
      fun filed _ moved => filed.step moved
  · intro spec status shown
    rw [JobRunner.status?_report] at shown
    split at shown
    · rw [JobRunner.status?_markIndexing, JobRunner.status?_submit, if_pos rfl, if_pos rfl]
        at shown
      exact ⟨_, (Option.some.inj shown).symm⟩
    next apart =>
        rw [JobRunner.status?_markIndexing, if_neg apart, JobRunner.status?_submit,
          if_neg apart] at shown
        exact allDone spec status shown

end Queue.Served

theorem exists_served {served : Nat} (room : served ≤ maxQueuedJobs) :
    ∃ queue : Queue,
      Runs Queue.step (fun _ _ => True) (Queue.fresh 1)
          ((List.range served).flatMap servedRequest) queue ∧ queue.Served served := by
  induction served with
  | zero =>
    refine ⟨_, .start, rfl, rfl, rfl, fun spec => ?_, fun spec status shown => nomatch shown⟩
    exact iff_of_false Bool.false_ne_true List.not_mem_nil
  | succ served ih =>
    obtain ⟨queue, run, done⟩ := ih (by omega)
    obtain ⟨queue', executed, done'⟩ := done.next room
    refine ⟨queue', ?_, done'⟩
    rw [List.range_succ, List.flatMap_append, List.flatMap_singleton]
    exact run.append (runs_of_execute executed)

/-- After 64 requests whose jobs are all done, no request is admitted. -/
theorem busyOnlyWhenFull_fails :
    ∃ events queue,
      Runs Queue.step (fun _ _ => True) (Queue.fresh 1) events queue ∧
        queue.pool.runner.counters.active = 0 ∧
        queue.pool.runner.admit = .error (.busy 1000) ∧
        ¬ queue.pool.runner.BusyOnlyWhenFull := by
  obtain ⟨queue, run, done⟩ := exists_served (Nat.le_refl maxQueuedJobs)
  have busy : queue.pool.runner.admit = .error (.busy 1000) := if_pos done.totalJobs.ge
  refine ⟨_, queue, run, done.active, busy, fun fair => ?_⟩
  have full := fair 1000 busy
  rw [done.active] at full
  cases full

end Lain.Snapshots
