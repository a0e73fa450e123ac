import Lain.Snapshots.Jobs

/-!
# The worker pool

Any number of workers run the jobs of one runner.
-/

namespace Lain.Snapshots

open Foundation

inductive Worker where
  | idle
  | picked (job : JobSpec)
  | running (job : JobSpec)
  | finished (job : JobSpec) (result : Except String JobOutcome)
deriving DecidableEq

def Worker.job? : Worker → Option JobSpec
  | .idle => none
  | .picked job | .running job | .finished job _ => some job

/-- The status a job has while a worker holds it. -/
def Worker.shown : Worker → JobStatus
  | .idle | .picked _ => .queued
  | .running _ | .finished _ _ => .indexing

structure Pool where
  runner : JobRunner := {}
  workers : List Worker
  started : List (Nat × JobSpec) := []
  succeeded : List JobSpec := []
deriving DecidableEq

inductive PoolEvent where
  | submit (spec : JobSpec)
  | pick (worker : Nat)
  | start (worker : Nat)
  | resolve (worker : Nat) (sha : String)
  | finish (worker : Nat) (result : Except String JobOutcome)
  | report (worker : Nat)

def Pool.step (pool : Pool) : PoolEvent → Option Pool
  | .submit spec => some { pool with runner := (pool.runner.submit spec).1 }
  | .pick w =>
    match pool.workers[w]?, pool.runner.nextQueued with
    | some .idle, some job => some { pool with workers := pool.workers.set w (.picked job) }
    | _, _ => none
  | .start w =>
    match pool.workers[w]? with
    | some (.picked job) =>
      some
        { pool with
          runner := pool.runner.markIndexing job
          workers := pool.workers.set w (.running job)
          started := pool.started ++ [(w, job)] }
    | _ => none
  | .resolve w sha =>
    match pool.workers[w]? with
    | some (.running job) => some { pool with runner := pool.runner.publishSha job sha }
    | _ => none
  | .finish w result =>
    match pool.workers[w]? with
    | some (.running job) =>
      some
        { pool with
          workers := pool.workers.set w (.finished job result)
          succeeded := if result.isOk then pool.succeeded ++ [job] else pool.succeeded }
    | _ => none
  | .report w =>
    match pool.workers[w]? with
    | some (.finished job result) =>
      some
        { pool with
          runner := pool.runner.report job result
          workers := pool.workers.set w .idle }
    | _ => none

/-- A pool of idle workers with no jobs. -/
def Pool.fresh (workers : Nat) : Pool where
  workers := List.replicate workers .idle

def Pool.Careful (pool : Pool) : PoolEvent → Prop
  | .pick _ => ∀ job ∈ pool.runner.nextQueued, Worker.picked job ∉ pool.workers
  | _ => True

instance Pool.decidableCareful (pool : Pool) (event : PoolEvent) :
    Decidable (pool.Careful event) := by
  cases event <;> unfold Pool.Careful <;> infer_instance

def Pool.RunsOnce (pool : Pool) : Prop :=
  (pool.started.map Prod.snd).Nodup ∧
    ∀ job ∈ pool.succeeded, ∀ error, pool.runner.status? job ≠ some (.failed error)

/-! ### The invariant of careful runs -/

/-- A worker holds a job. -/
def Pool.Holds (pool : Pool) (w : Nat) (job : JobSpec) : Prop :=
  ∃ worker, pool.workers[w]? = some worker ∧ worker.job? = some job

structure Pool.Sound (pool : Pool) : Prop where
  heldOnce : ∀ {v w : Nat} {job : JobSpec}, pool.Holds v job → pool.Holds w job → v = w
  shown : ∀ {w : Nat} {worker : Worker} {job : JobSpec}, pool.workers[w]? = some worker →
    worker.job? = some job → pool.runner.status? job = some worker.shown
  begun : ∀ job ∈ pool.started.map Prod.snd,
    ∃ status, pool.runner.status? job = some status ∧ status ≠ .queued
  once : (pool.started.map Prod.snd).Nodup
  succeeded : ∀ job ∈ pool.succeeded,
    (∃ outcome, pool.runner.status? job = some (.done outcome)) ∨
      ∃ (w : Nat) (outcome : JobOutcome), pool.workers[w]? = some (.finished job (.ok outcome))

private theorem getElem?_moved {workers : List Worker} {v w : Nat} {moved worker : Worker}
    (found : (workers.set w moved)[v]? = some worker) :
    (v = w ∧ worker = moved) ∨ (v ≠ w ∧ workers[v]? = some worker) := by
  rw [List.getElem?_set] at found
  split at found
  next here =>
      split at found
      · exact Or.inl ⟨here.symm, (Option.some.inj found).symm⟩
      · cases found
  next elsewhere => exact Or.inr ⟨fun here => elsewhere here.symm, found⟩

namespace Pool.Sound

variable {pool : Pool} {job : JobSpec} {w : Nat}

theorem fresh (workers : Nat) : (Pool.fresh workers).Sound where
  heldOnce := by
    rintro v w job ⟨worker, found, held⟩ _
    obtain rfl := List.eq_of_mem_replicate (List.mem_of_getElem? found)
    cases held
  shown := by
    intro w worker job found held
    obtain rfl := List.eq_of_mem_replicate (List.mem_of_getElem? found)
    cases held
  begun := by
    intro job member
    cases member
  once := .nil
  succeeded := by
    intro job member
    cases member

theorem heldOnce_moved (sound : pool.Sound) {moved : Worker}
    (alone : ∀ v job, moved.job? = some job → pool.Holds v job → v = w) {u v : Nat}
    (first : ∃ worker, (pool.workers.set w moved)[u]? = some worker ∧ worker.job? = some job)
    (second : ∃ worker, (pool.workers.set w moved)[v]? = some worker ∧ worker.job? = some job) :
    u = v := by
  obtain ⟨_, foundU, heldU⟩ := first
  obtain ⟨_, foundV, heldV⟩ := second
  rcases getElem?_moved foundU with ⟨rfl, rfl⟩ | ⟨_, beforeU⟩ <;>
    rcases getElem?_moved foundV with ⟨rfl, rfl⟩ | ⟨_, beforeV⟩
  · rfl
  · exact (alone v job heldU ⟨_, beforeV, heldV⟩).symm
  · exact alone u job heldV ⟨_, beforeU, heldU⟩
  · exact sound.heldOnce ⟨_, beforeU, heldU⟩ ⟨_, beforeV, heldV⟩

theorem others {v : Nat} {worker mine : Worker} {other : JobSpec} (sound : pool.Sound)
    (held : pool.workers[w]? = some mine) (job? : mine.job? = some job) (elsewhere : v ≠ w)
    (found : pool.workers[v]? = some worker) (theirs : worker.job? = some other) :
    other ≠ job := by
  rintro rfl
  exact elsewhere (sound.heldOnce ⟨worker, found, theirs⟩ ⟨mine, held, job?⟩)

theorem submit (sound : pool.Sound) (spec : JobSpec) :
    Pool.Sound { pool with runner := (pool.runner.submit spec).1 } := by
  have kept : ∀ {other : JobSpec} {status : JobStatus},
      pool.runner.status? other = some status →
        (pool.runner.submit spec).1.status? other = some status := by
    intro other status shown
    rw [JobRunner.status?_submit]
    split
    next same => rw [← same, shown, Option.getD_some]
    · exact shown
  refine ⟨sound.heldOnce, fun found held => kept (sound.shown found held), ?_, sound.once, ?_⟩
  · intro other member
    obtain ⟨status, shown, past⟩ := sound.begun other member
    exact ⟨status, kept shown, past⟩
  · intro other member
    exact (sound.succeeded other member).imp_left fun ⟨outcome, shown⟩ => ⟨outcome, kept shown⟩

theorem pick (sound : pool.Sound) (idle : pool.workers[w]? = some .idle)
    (queued : pool.runner.status? job = some .queued)
    (careful : Worker.picked job ∉ pool.workers) :
    Pool.Sound { pool with workers := pool.workers.set w (.picked job) } := by
  have alone : ∀ v other, (Worker.picked job).job? = some other → pool.Holds v other → v = w := by
    rintro v _ ⟨⟩ ⟨worker, found, held⟩
    have shown := sound.shown found held
    rw [queued] at shown
    cases worker with
    | idle => cases held
    | picked other =>
      cases held
      exact absurd (List.mem_of_getElem? found) careful
    | running other => cases shown
    | finished other result => cases shown
  refine ⟨sound.heldOnce_moved alone, ?_, sound.begun, sound.once, ?_⟩
  · intro v worker other found held
    rcases getElem?_moved found with ⟨rfl, rfl⟩ | ⟨_, before⟩
    · cases held
      exact queued
    · exact sound.shown before held
  · intro other member
    refine (sound.succeeded other member).imp_right fun ⟨v, outcome, found⟩ => ⟨v, outcome, ?_⟩
    have elsewhere : w ≠ v := by
      rintro rfl
      rw [idle] at found
      cases found
    exact (List.getElem?_set_ne elsewhere).trans found

theorem start (sound : pool.Sound) (picked : pool.workers[w]? = some (.picked job)) :
    Pool.Sound
      { pool with
        runner := pool.runner.markIndexing job
        workers := pool.workers.set w (.running job)
        started := pool.started ++ [(w, job)] } := by
  have queued : pool.runner.status? job = some .queued := sound.shown picked rfl
  have unbegun : job ∉ pool.started.map Prod.snd := by
    intro member
    obtain ⟨status, shown, past⟩ := sound.begun job member
    rw [queued] at shown
    exact past (Option.some.inj shown).symm
  refine ⟨sound.heldOnce_moved ?_, ?_, ?_, ?_, ?_⟩
  · rintro v _ ⟨⟩ held
    exact sound.heldOnce held ⟨_, picked, rfl⟩
  · intro v worker other found held
    rw [JobRunner.status?_markIndexing]
    rcases getElem?_moved found with ⟨rfl, rfl⟩ | ⟨elsewhere, before⟩
    · cases held
      rw [if_pos rfl, queued]
      rfl
    · rw [if_neg (sound.others picked rfl elsewhere before held)]
      exact sound.shown before held
  · intro other member
    rw [JobRunner.status?_markIndexing]
    split
    · rw [queued]
      exact ⟨_, rfl, nofun⟩
    next apart =>
        rw [List.map_append, List.mem_append] at member
        rcases member with earlier | now
        · exact sound.begun other earlier
        · exact absurd (List.mem_singleton.mp now) apart
  · rw [List.map_append]
    refine sound.once.append (List.nodup_singleton _) ?_
    exact List.disjoint_singleton.mpr unbegun
  · intro other member
    rw [JobRunner.status?_markIndexing]
    rcases sound.succeeded other member with ⟨outcome, shown⟩ | ⟨v, outcome, found⟩
    · left
      split
      next same =>
          rw [same, queued] at shown
          cases shown
      · exact ⟨outcome, shown⟩
    · right
      have elsewhere : w ≠ v := by
        rintro rfl
        rw [picked] at found
        cases found
      exact ⟨v, outcome, (List.getElem?_set_ne elsewhere).trans found⟩

theorem resolve (sound : pool.Sound) (sha : String) :
    Pool.Sound { pool with runner := pool.runner.publishSha job sha } := by
  refine ⟨sound.heldOnce, ?_, ?_, sound.once, ?_⟩
  · intro v worker other found held
    rw [JobRunner.status?_publishSha]
    exact sound.shown found held
  · intro other member
    rw [JobRunner.status?_publishSha]
    exact sound.begun other member
  · intro other member
    rw [JobRunner.status?_publishSha]
    exact sound.succeeded other member

theorem finish (sound : pool.Sound) (running : pool.workers[w]? = some (.running job))
    (result : Except String JobOutcome) :
    Pool.Sound
      { pool with
        workers := pool.workers.set w (.finished job result)
        succeeded := if result.isOk then pool.succeeded ++ [job] else pool.succeeded } := by
  have inside : w < pool.workers.length := (List.getElem?_eq_some_iff.mp running).1
  have indexing : pool.runner.status? job = some .indexing := sound.shown running rfl
  have earlier : ∀ other ∈ pool.succeeded,
      (∃ outcome, pool.runner.status? other = some (.done outcome)) ∨
        ∃ (v : Nat) (outcome : JobOutcome),
          (pool.workers.set w (.finished job result))[v]? =
            some (.finished other (.ok outcome)) := by
    intro other member
    refine (sound.succeeded other member).imp_right fun ⟨v, outcome, found⟩ => ⟨v, outcome, ?_⟩
    have elsewhere : w ≠ v := by
      rintro rfl
      rw [running] at found
      cases found
    exact (List.getElem?_set_ne elsewhere).trans found
  refine ⟨sound.heldOnce_moved ?_, ?_, sound.begun, sound.once, ?_⟩
  · rintro v _ ⟨⟩ held
    exact sound.heldOnce held ⟨_, running, rfl⟩
  · intro v worker other found held
    rcases getElem?_moved found with ⟨rfl, rfl⟩ | ⟨_, before⟩
    · cases held
      exact indexing
    · exact sound.shown before held
  · intro other member
    cases result with
    | error error => exact earlier other member
    | ok outcome =>
      rcases List.mem_append.mp member with before | now
      · exact earlier other before
      · obtain rfl := List.mem_singleton.mp now
        exact Or.inr ⟨w, outcome, List.getElem?_set_self inside⟩

theorem report {result : Except String JobOutcome} (sound : pool.Sound)
    (finished : pool.workers[w]? = some (.finished job result)) :
    Pool.Sound
      { pool with
        runner := pool.runner.report job result
        workers := pool.workers.set w .idle } := by
  have indexing : pool.runner.status? job = some .indexing := sound.shown finished rfl
  refine ⟨sound.heldOnce_moved ?_, ?_, ?_, sound.once, ?_⟩
  · intro v other held
    cases held
  · intro v worker other found held
    rw [JobRunner.status?_report]
    rcases getElem?_moved found with ⟨rfl, rfl⟩ | ⟨elsewhere, before⟩
    · cases held
    · rw [if_neg (sound.others finished rfl elsewhere before held)]
      exact sound.shown before held
  · intro other member
    rw [JobRunner.status?_report]
    split
    · rw [indexing]
      refine ⟨_, rfl, ?_⟩
      cases result <;> nofun
    · exact sound.begun other member
  · intro other member
    rw [JobRunner.status?_report]
    rcases sound.succeeded other member with ⟨outcome, shown⟩ | ⟨v, outcome, found⟩
    · left
      split
      next same =>
          rw [same, indexing] at shown
          cases shown
      · exact ⟨outcome, shown⟩
    · by_cases here : v = w
      · subst here
        rw [finished] at found
        cases found
        rw [if_pos rfl, indexing]
        exact Or.inl ⟨outcome, rfl⟩
      · exact Or.inr ⟨v, outcome, (List.getElem?_set_ne fun h => here h.symm).trans found⟩

end Pool.Sound

/-- **Every careful step keeps the invariant.** -/
theorem Pool.Sound.step {pool pool' : Pool} {event : PoolEvent} (sound : pool.Sound)
    (careful : pool.Careful event) (moved : pool.step event = some pool') : pool'.Sound := by
  cases event with
  | submit spec =>
    cases moved
    exact sound.submit spec
  | pick w =>
    simp only [Pool.step] at moved
    split at moved
    next job idle found =>
        cases moved
        exact sound.pick idle (JobRunner.status?_nextQueued found) (careful job found)
    · cases moved
  | start w =>
    simp only [Pool.step] at moved
    split at moved
    next job picked =>
        cases moved
        exact sound.start picked
    · cases moved
  | resolve w sha =>
    simp only [Pool.step] at moved
    split at moved
    next job running =>
        cases moved
        exact sound.resolve sha
    · cases moved
  | finish w result =>
    simp only [Pool.step] at moved
    split at moved
    next job running =>
        cases moved
        exact sound.finish running result
    · cases moved
  | report w =>
    simp only [Pool.step] at moved
    split at moved
    next job result finished =>
        cases moved
        exact sound.report finished
    · cases moved

theorem Pool.Sound.runsOnce {pool : Pool} (sound : pool.Sound) : pool.RunsOnce := by
  refine ⟨sound.once, fun job member error failed => ?_⟩
  rcases sound.succeeded job member with ⟨outcome, shown⟩ | ⟨w, outcome, found⟩
  · rw [shown] at failed
    cases failed
  · have indexing := sound.shown found rfl
    rw [failed] at indexing
    cases indexing

/-- **Each job runs at most once and keeps its success**, in every run in which no worker picks
a job that another one has picked and not marked yet. -/
theorem careful_runsOnce {workers : Nat} {events : List PoolEvent} {pool : Pool}
    (run : Runs Pool.step Pool.Careful (Pool.fresh workers) events pool) : pool.RunsOnce :=
  (run.invariant (I := fun _ (pool : Pool) => pool.Sound) (Pool.Sound.fresh workers)
    fun sound careful moved => sound.step careful moved).runsOnce

def ordersJob : JobSpec where
  repo := "orders"
  sha := "0a1b2c"
  analyzerVersion := "0.9.0+c1"
  source := "/srv/orders"

/-- One of two workers runs the job to its end. -/
theorem careful_runsOnce_orders :
    ∃ pool,
      execute Pool.step Pool.Careful (Pool.fresh 2)
          [.submit ordersJob, .pick 0, .start 0, .submit ordersJob, .finish 0 (.ok ⟨42, []⟩),
            .report 0] = some pool ∧ pool.RunsOnce := by
  obtain ⟨pool, done⟩ := Option.isSome_iff_exists.mp
    (show (execute Pool.step Pool.Careful (Pool.fresh 2)
      [.submit ordersJob, .pick 0, .start 0, .submit ordersJob, .finish 0 (.ok ⟨42, []⟩),
        .report 0]).isSome = true by decide)
  exact ⟨pool, done, careful_runsOnce (runs_of_execute done)⟩

/-- Two workers pick the one job before either marks it. The second run fails and hides the
success of the first. -/
theorem runsOnce_fails :
    ∃ events pool,
      Runs Pool.step (fun _ _ => True) (Pool.fresh 2) events pool ∧
        pool.started = [(0, ordersJob), (1, ordersJob)] ∧ pool.succeeded = [ordersJob] ∧
        pool.runner.status? ordersJob = some (.failed "worktree replaced") ∧
        ¬ pool.RunsOnce := by
  have run : ∃ pool, execute Pool.step (fun _ _ => True) (Pool.fresh 2)
      [.submit ordersJob, .pick 0, .pick 1, .start 0, .start 1, .finish 0 (.ok ⟨42, []⟩),
        .report 0, .finish 1 (.error "worktree replaced"), .report 1] = some pool ∧
      pool.started = [(0, ordersJob), (1, ordersJob)] ∧ pool.succeeded = [ordersJob] ∧
      pool.runner.status? ordersJob = some (.failed "worktree replaced") :=
    ⟨_, rfl, by decide⟩
  obtain ⟨pool, done, started, succeeded, failed⟩ := run
  refine ⟨_, pool, runs_of_execute done, started, succeeded, failed, fun once => ?_⟩
  exact once.2 ordersJob (by rw [succeeded]; exact List.mem_singleton_self _) _ failed

end Lain.Snapshots
