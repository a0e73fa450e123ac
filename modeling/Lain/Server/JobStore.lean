import Mathlib
import Lain.Foundation.Least
import Lain.Foundation.Runs
import Lain.Foundation.SortedMap

/-!
# Background jobs

The registry of background jobs: a start counts the running jobs and adds one in a single step,
a finish records an outcome, and a restore takes over the jobs of an earlier process.
-/

namespace Lain.Server

open Foundation

inductive JobState where
  | running
  | completed (success : Bool) (output error : Option String)
  deriving DecidableEq, Repr

structure JobInfo where
  id : String
  createdAt : Nat
  state : JobState
  deriving DecidableEq, Repr

/-- The job has not finished. -/
def JobInfo.isRunning (job : JobInfo) : Bool :=
  match job.state with
  | .running => true
  | .completed .. => false

/-- The order in which completed jobs are dropped: by creation, then by id. -/
def JobInfo.age (job : JobInfo) : Nat ×ₗ String :=
  toLex (job.createdAt, job.id)

abbrev JobMap := SortedMap String JobInfo

def completedJobRetention : Nat := 1000

def interruptedError : String := "interrupted: the server restarted while this job was running"

def outcomeState : Except String String → JobState
  | .ok out => .completed true (some out) none
  | .error e => .completed false none (some e)

namespace JobMap

/-- The number of running jobs. -/
def running (jobs : JobMap) : Nat :=
  jobs.entries.countP fun entry => entry.2.isRunning

/-- The ages of the completed jobs. -/
def completed (jobs : JobMap) : List (Nat ×ₗ String) :=
  (jobs.entries.filter fun entry => !entry.2.isRunning).map fun entry => entry.2.age

def evictOldestCompleted (jobs : JobMap) (keep : Nat) : JobMap :=
  (surplus keep jobs.completed).foldl (fun map done => map.erase (ofLex done).2) jobs

/-- Start a job under a new id, unless `cap` jobs are running. -/
def tryStart (jobs : JobMap) (cap : Nat) (id : String) (now : Nat) :
    JobMap × Except Nat String :=
  if cap ≤ jobs.running then (jobs, .error jobs.running)
  else (jobs.insert id ⟨id, now, .running⟩, .ok id)

def record (jobs : JobMap) (id : String) (outcome : Except String String) : JobMap :=
  match jobs.get? id with
  | some job => jobs.insert id { job with state := outcomeState outcome }
  | none => jobs

/-- Record the outcome of a job, and drop the oldest completed ones. -/
def finish (jobs : JobMap) (id : String) (outcome : Except String String) : JobMap :=
  (jobs.record id outcome).evictOldestCompleted completedJobRetention

def restored (job : JobInfo) : JobInfo :=
  if job.isRunning then { job with state := .completed false none (some interruptedError) }
  else job

/-- Take over the jobs of an earlier process, and drop the oldest completed ones. -/
def restore (jobs : JobMap) (persisted : List JobInfo) : JobMap :=
  (persisted.foldl (fun map job => map.insert job.id (restored job)) jobs).evictOldestCompleted
    completedJobRetention

/-! ### What is dropped -/

def Filed (jobs : JobMap) : Prop :=
  ∀ id job, jobs.get? id = some job → job.id = id

/-- A job is known and has not finished. -/
def Runs (jobs : JobMap) (id : String) : Prop :=
  ∃ job, jobs.get? id = some job ∧ job.isRunning = true

variable {jobs : JobMap} {id : String}

theorem mem_completed {age : Nat ×ₗ String} :
    age ∈ jobs.completed ↔
      ∃ id job, jobs.get? id = some job ∧ job.isRunning = false ∧ job.age = age := by
  unfold completed
  rw [List.mem_map]
  constructor
  · rintro ⟨⟨id, job⟩, member, rfl⟩
    obtain ⟨listed, finished⟩ := List.mem_filter.mp member
    exact ⟨id, job, SortedMap.mem_entries.mp listed, by simpa using finished, rfl⟩
  · rintro ⟨id, job, found, finished, rfl⟩
    exact ⟨(id, job), List.mem_filter.mpr ⟨SortedMap.mem_entries.mpr found, by simp [finished]⟩,
      rfl⟩

theorem Filed.nodup_completed (filed : Filed jobs) : jobs.completed.Nodup := by
  refine List.Nodup.of_map (fun age : Nat ×ₗ String => (ofLex age).2) ?_
  have ids : jobs.completed.map (fun age => (ofLex age).2) =
      (jobs.entries.filter fun entry => !entry.2.isRunning).map Prod.fst := by
    unfold completed
    rw [List.map_map]
    refine List.map_congr_left fun entry member => ?_
    exact filed _ _ (SortedMap.mem_entries.mp (List.mem_filter.mp member).1)
  rw [ids]
  exact (List.filter_sublist.map Prod.fst).nodup jobs.nodup_keys

theorem Filed.get?_evict (filed : Filed jobs) (keep : Nat) (id : String) :
    (jobs.evictOldestCompleted keep).get? id =
      (jobs.get? id).filter fun job =>
        job.isRunning || decide (job.age ∉ surplus keep jobs.completed) := by
  unfold evictOldestCompleted
  rw [SortedMap.get?_foldl_erase fun done : Nat ×ₗ String => (ofLex done).2]
  cases found : jobs.get? id with
  | none => simp
  | some job =>
    have own : ∀ age ∈ jobs.completed, (ofLex age).2 = id →
        job.isRunning = false ∧ job.age = age := by
      intro age member same
      obtain ⟨id', job', found', finished, rfl⟩ := mem_completed.mp member
      obtain rfl : id' = id := (filed id' job' found').symm.trans same
      obtain rfl := Option.some.inj (found.symm.trans found')
      exact ⟨finished, rfl⟩
    have listed : id ∈ (surplus keep jobs.completed).map (fun done => (ofLex done).2) ↔
        job.isRunning = false ∧ job.age ∈ surplus keep jobs.completed := by
      rw [List.mem_map]
      constructor
      · rintro ⟨age, member, same⟩
        obtain ⟨finished, rfl⟩ := own age (surplus_subset member) same
        exact ⟨finished, member⟩
      · rintro ⟨_, member⟩
        exact ⟨job.age, member, filed id job found⟩
    rw [Option.filter_some]
    by_cases dropped : job.isRunning = false ∧ job.age ∈ surplus keep jobs.completed
    · rw [if_pos (listed.mpr dropped), if_neg (by simp [dropped.1, dropped.2])]
    · rw [if_neg (mt listed.mp dropped), if_pos]
      rw [Bool.or_eq_true, decide_eq_true_eq]
      by_cases runs : job.isRunning = true
      · exact Or.inl runs
      · exact Or.inr fun member => dropped ⟨by simpa using runs, member⟩

theorem Filed.evict (filed : Filed jobs) (keep : Nat) : Filed (jobs.evictOldestCompleted keep) := by
  intro id job found
  rw [filed.get?_evict, Option.filter_eq_some_iff] at found
  exact filed id job found.1

theorem Filed.length_completed_evict (filed : Filed jobs) (keep : Nat) :
    (jobs.evictOldestCompleted keep).completed.length ≤ keep := by
  refine le_trans ?_ (length_notMem_surplus filed.nodup_completed)
  refine (List.subperm_of_subset (filed.evict keep).nodup_completed fun age member => ?_).length_le
  obtain ⟨id, job, found, finished, rfl⟩ := mem_completed.mp member
  rw [filed.get?_evict, Option.filter_eq_some_iff, finished, Bool.false_or] at found
  exact List.mem_filter.mpr ⟨mem_completed.mpr ⟨id, job, found.1, finished, rfl⟩,
    by simpa using found.2⟩

theorem running_le {after : JobMap} (extra : List String)
    (more : ∀ id, Runs after id → id ∈ extra ∨ Runs jobs id) :
    after.running ≤ extra.length + jobs.running := by
  have ids : ∀ map : JobMap, map.running =
      ((map.entries.filter fun entry => entry.2.isRunning).map Prod.fst).length := by
    intro map
    rw [List.length_map]
    exact List.countP_eq_length_filter
  have listed : ∀ (map : JobMap) (id : String),
      id ∈ (map.entries.filter fun entry => entry.2.isRunning).map Prod.fst ↔ Runs map id := by
    intro map id
    simp [Runs, List.mem_map, List.mem_filter, SortedMap.mem_entries]
  have nodup : ((after.entries.filter fun entry => entry.2.isRunning).map Prod.fst).Nodup :=
    (List.filter_sublist.map Prod.fst).nodup after.nodup_keys
  rw [ids after, ids jobs, ← List.length_append]
  refine (List.subperm_of_subset nodup fun id member => ?_).length_le
  exact List.mem_append.mpr ((more id ((listed after id).mp member)).imp_right (listed jobs id).mpr)

/-! ### One call -/

theorem get?_record (jobs : JobMap) (id other : String) (outcome : Except String String) :
    (jobs.record id outcome).get? other =
      if other = id then
        (jobs.get? id).map fun job => { job with state := outcomeState outcome }
      else jobs.get? other := by
  unfold record
  split
  next job found => rw [SortedMap.get?_insert, found, Option.map_some]
  next missing =>
      rw [missing, Option.map_none]
      split
      next same => rw [same, missing]
      · rfl

theorem isRunning_outcomeState (job : JobInfo) (outcome : Except String String) :
    JobInfo.isRunning { job with state := outcomeState outcome } = false := by
  cases outcome <;> rfl

theorem isRunning_restored (job : JobInfo) : (restored job).isRunning = false := by
  unfold restored
  split
  · rfl
  next finished => simpa using finished

theorem id_restored (job : JobInfo) : (restored job).id = job.id := by
  unfold restored
  split <;> rfl

theorem Filed.record (filed : Filed jobs) (id : String) (outcome : Except String String) :
    Filed (jobs.record id outcome) := by
  intro other job found
  rw [get?_record] at found
  split at found
  next same =>
      obtain ⟨old, known, rfl⟩ := Option.map_eq_some_iff.mp found
      exact (filed id old known).trans same.symm
  · exact filed other job found

theorem get?_taken (jobs : JobMap) (persisted : List JobInfo) (id : String) :
    let taken := persisted.foldl (fun map job => map.insert job.id (restored job)) jobs
    (id ∉ persisted.map JobInfo.id → taken.get? id = jobs.get? id) ∧
      (id ∈ persisted.map JobInfo.id → ∃ job ∈ persisted, job.id = id ∧
        taken.get? id = some (restored job)) := by
  induction persisted using List.reverseRecOn with
  | nil => simp
  | append_singleton persisted job ih =>
    dsimp only at ih ⊢
    rw [List.foldl_append, List.foldl_cons, List.foldl_nil, SortedMap.get?_insert,
      List.map_append, List.mem_append]
    by_cases here : id = job.id
    · refine ⟨fun absent => absurd (Or.inr (by simp [here])) absent, fun _ => ?_⟩
      exact ⟨job, by simp, here.symm, if_pos here⟩
    · rw [if_neg here]
      refine ⟨fun absent => ih.1 fun early => absent (Or.inl early), fun member => ?_⟩
      obtain ⟨old, listed, rest⟩ := ih.2 (member.resolve_right (by simp [here]))
      exact ⟨old, List.mem_append_left _ listed, rest⟩

theorem Filed.taken (filed : Filed jobs) (persisted : List JobInfo) :
    Filed (persisted.foldl (fun map job => map.insert job.id (restored job)) jobs) := by
  intro id job found
  have taken := get?_taken jobs persisted id
  by_cases listed : id ∈ persisted.map JobInfo.id
  · obtain ⟨old, _, rfl, same⟩ := taken.2 listed
    obtain rfl := Option.some.inj (found.symm.trans same)
    exact id_restored old
  · exact filed id job ((taken.1 listed).symm.trans found)

end JobMap

/-! ### Runs -/

/-- A call of the registry. A start has the id and the time it draws. -/
inductive JobEvent where
  | tryStart (cap : Nat) (id : String) (now : Nat)
  | finish (id : String) (outcome : Except String String)
  | restore (persisted : List JobInfo)

namespace JobEvent

def touched : JobEvent → List String
  | .tryStart _ id _ => [id]
  | .finish id _ => [id]
  | .restore persisted => persisted.map JobInfo.id

def evicts : JobEvent → Bool
  | .tryStart .. => false
  | .finish .. => true
  | .restore _ => true

/-- What a call leaves. -/
def apply (jobs : JobMap) : JobEvent → JobMap
  | .tryStart cap id now => (jobs.tryStart cap id now).1
  | .finish id outcome => jobs.finish id outcome
  | .restore persisted => jobs.restore persisted

/-- Every start has the same cap and draws an id that is new. -/
def Allowed (cap : Nat) (jobs : JobMap) : JobEvent → Prop
  | .tryStart cap' id _ => cap' = cap ∧ jobs.get? id = none
  | _ => True

end JobEvent

/-- The registries reached from an empty one. -/
def JobRun (cap : Nat) : List JobEvent → JobMap → Prop :=
  Runs (fun jobs event => some (event.apply jobs)) (JobEvent.Allowed cap) ∅

/-- **What one call keeps**: the bounds, every running job it is not about, and of every other
job it is not about the outcome, as long as the job is held. -/
structure JobLaws (cap : Nat) (jobs : JobMap) (event : JobEvent) : Prop where
  capped : (event.apply jobs).running ≤ cap
  retained : event.evicts = true → (event.apply jobs).completed.length ≤ completedJobRetention
  runningKept : ∀ id ∉ event.touched, ∀ job, jobs.get? id = some job → job.isRunning = true →
    (event.apply jobs).get? id = some job
  othersKept : ∀ id ∉ event.touched, ∀ job, (event.apply jobs).get? id = some job →
    jobs.get? id = some job

/-- The outcome of a job that ran is held right after its finish. -/
def Shown (jobs : JobMap) (job : JobInfo) (outcome : Except String String) : Prop :=
  (jobs.finish job.id outcome).get? job.id = some { job with state := outcomeState outcome }

namespace JobMap

variable {cap : Nat} {jobs : JobMap} {id : String}

theorem Filed.apply (filed : Filed jobs) (event : JobEvent) : Filed (event.apply jobs) := by
  cases event with
  | tryStart cap' id now =>
    change Filed (jobs.tryStart cap' id now).1
    unfold tryStart
    split
    · exact filed
    · intro other job found
      rw [SortedMap.get?_insert] at found
      split at found
      next same =>
          obtain rfl := Option.some.inj found
          exact same.symm
      · exact filed other job found
  | finish id outcome => exact (filed.record id outcome).evict _
  | restore persisted => exact (filed.taken persisted).evict _

theorem running_finish_le (filed : Filed jobs) (id : String) (outcome : Except String String) :
    (jobs.finish id outcome).running ≤ jobs.running := by
  refine (running_le [] fun other runs => Or.inr ?_).trans_eq (Nat.zero_add _)
  obtain ⟨job, found, runs⟩ := runs
  rw [finish, (filed.record id outcome).get?_evict, Option.filter_eq_some_iff, get?_record] at found
  obtain ⟨found, _⟩ := found
  split at found
  · obtain ⟨old, _, rfl⟩ := Option.map_eq_some_iff.mp found
    rw [isRunning_outcomeState] at runs
    cases runs
  · exact ⟨job, found, runs⟩

theorem running_restore_le (filed : Filed jobs) (persisted : List JobInfo) :
    (jobs.restore persisted).running ≤ jobs.running := by
  refine (running_le [] fun other runs => Or.inr ?_).trans_eq (Nat.zero_add _)
  obtain ⟨job, found, runs⟩ := runs
  rw [restore, (filed.taken persisted).get?_evict, Option.filter_eq_some_iff] at found
  obtain ⟨found, _⟩ := found
  have taken := get?_taken jobs persisted other
  by_cases listed : other ∈ persisted.map JobInfo.id
  · obtain ⟨old, _, _, same⟩ := taken.2 listed
    obtain rfl := Option.some.inj (found.symm.trans same)
    rw [isRunning_restored] at runs
    cases runs
  · exact ⟨job, (taken.1 listed).symm.trans found, runs⟩

theorem running_tryStart_le (bounded : jobs.running ≤ cap) (now : Nat) :
    (jobs.tryStart cap id now).1.running ≤ cap := by
  unfold tryStart
  split
  · exact bounded
  next room =>
      refine (running_le [id] fun other runs => ?_).trans
        ((Nat.add_comm _ _).trans_le (not_le.mp room))
      obtain ⟨job, found, runs⟩ := runs
      rw [SortedMap.get?_insert] at found
      split at found
      next same => exact Or.inl (List.mem_singleton.mpr same)
      · exact Or.inr ⟨job, found, runs⟩

theorem jobLaws_of_filed (filed : Filed jobs) (bounded : jobs.running ≤ cap) {event : JobEvent}
    (allowed : event.Allowed cap jobs) : JobLaws cap jobs event := by
  cases event with
  | tryStart cap' id now =>
    obtain ⟨rfl, _⟩ := allowed
    have other : ∀ other ∉ [id], (jobs.tryStart cap' id now).1.get? other = jobs.get? other := by
      intro other apart
      unfold tryStart
      split
      · rfl
      · exact (SortedMap.get?_insert ..).trans (if_neg (List.mem_singleton.not.mp apart))
    exact ⟨running_tryStart_le bounded now, fun evicts => (Bool.false_ne_true evicts).elim,
      fun id' apart job found _ => (other id' apart).trans found,
      fun id' apart job found => (other id' apart).symm.trans found⟩
  | finish id outcome =>
    have other : ∀ other ∉ [id], (jobs.record id outcome).get? other = jobs.get? other :=
      fun other apart => (get?_record ..).trans (if_neg (List.mem_singleton.not.mp apart))
    refine ⟨(running_finish_le filed id outcome).trans bounded,
      fun _ => (filed.record id outcome).length_completed_evict _,
      fun id' apart job found runs => ?_, fun id' apart job found => ?_⟩
    · refine ((filed.record id outcome).get?_evict _ _).trans ?_
      rw [other id' apart, found, Option.filter_some, runs, Bool.true_or, if_pos rfl]
    · have left := ((filed.record id outcome).get?_evict _ _).symm.trans found
      exact (other id' apart).symm.trans (Option.filter_eq_some_iff.mp left).1
  | restore persisted =>
    refine ⟨(running_restore_le filed persisted).trans bounded,
      fun _ => (filed.taken persisted).length_completed_evict _,
      fun id' apart job found runs => ?_, fun id' apart job found => ?_⟩
    · refine ((filed.taken persisted).get?_evict _ _).trans ?_
      rw [(get?_taken jobs persisted id').1 apart, found, Option.filter_some, runs,
        Bool.true_or, if_pos rfl]
    · have left := ((filed.taken persisted).get?_evict _ _).symm.trans found
      exact ((get?_taken jobs persisted id').1 apart).symm.trans
        (Option.filter_eq_some_iff.mp left).1

theorem reachable {events : List JobEvent} (run : JobRun cap events jobs) :
    Filed jobs ∧ jobs.running ≤ cap := by
  refine Foundation.Runs.invariant (I := fun _ jobs => Filed jobs ∧ jobs.running ≤ cap) ?_ ?_ run
  · exact ⟨fun id job found => (by cases found), Nat.zero_le _⟩
  · intro events jobs event jobs' ⟨filed, bounded⟩ allowed moved
    obtain rfl := Option.some.inj moved
    exact ⟨filed.apply event, (jobLaws_of_filed filed bounded allowed).capped⟩

theorem completed_record (filed : Filed jobs) {job : JobInfo}
    (found : jobs.get? job.id = some job) (runs : job.isRunning = true)
    (outcome : Except String String) :
    (jobs.record job.id outcome).completed.Perm (job.age :: jobs.completed) := by
  have fresh : job.age ∉ jobs.completed := by
    intro member
    obtain ⟨id', job', found', finished, same⟩ := mem_completed.mp member
    have sameId : job'.id = job.id := congrArg (fun age => (ofLex age).2) same
    rw [← filed id' job' found', sameId, found] at found'
    obtain rfl := Option.some.inj found'
    rw [runs] at finished
    cases finished
  refine (List.perm_ext_iff_of_nodup (filed.record job.id outcome).nodup_completed
    (List.nodup_cons.mpr ⟨fresh, filed.nodup_completed⟩)).mpr fun age => ?_
  rw [List.mem_cons, mem_completed, mem_completed]
  constructor
  · rintro ⟨id, job', found', finished, rfl⟩
    rw [get?_record] at found'
    split at found'
    · rw [found, Option.map_some] at found'
      obtain rfl := Option.some.inj found'
      exact Or.inl rfl
    · exact Or.inr ⟨id, job', found', finished, rfl⟩
  · rintro (rfl | ⟨id, job', found', finished, rfl⟩)
    · refine ⟨job.id, { job with state := outcomeState outcome }, ?_,
        isRunning_outcomeState job outcome, rfl⟩
      rw [get?_record, if_pos rfl, found, Option.map_some]
    · refine ⟨id, job', ?_, finished, rfl⟩
      rw [get?_record, if_neg, found']
      rintro rfl
      rw [found] at found'
      obtain rfl := Option.some.inj found'
      rw [runs] at finished
      cases finished

theorem shown_iff (filed : Filed jobs) {job : JobInfo} (found : jobs.get? job.id = some job)
    (runs : job.isRunning = true) (outcome : Except String String) :
    Shown jobs job outcome ↔
      (jobs.completed.countP fun age => decide (job.age < age)) < completedJobRetention := by
  have perm := completed_record filed found runs outcome
  have listed : job.age ∈ (jobs.record job.id outcome).completed :=
    perm.mem_iff.mpr List.mem_cons_self
  have dropped : job.age ∈ surplus completedJobRetention _ ↔ completedJobRetention ≤ _ :=
    mem_surplus (filed.record job.id outcome).nodup_completed listed
  rw [perm.countP_eq, List.countP_cons_of_neg (by simp)] at dropped
  unfold Shown finish
  rw [(filed.record job.id outcome).get?_evict, get?_record, if_pos rfl, found, Option.map_some,
    Option.filter_some, isRunning_outcomeState, Bool.false_or, ← not_le, ← dropped]
  have same : JobInfo.age { job with state := outcomeState outcome } = job.age := rfl
  rw [same]
  by_cases old : job.age ∈ surplus completedJobRetention (jobs.record job.id outcome).completed
  · simp [old]
  · simp [old]

theorem not_shown_of_newer (filed : Filed jobs) {job : JobInfo}
    (found : jobs.get? job.id = some job) (runs : job.isRunning = true) {newer : List JobInfo}
    (distinct : (newer.map JobInfo.id).Nodup)
    (held : ∀ other ∈ newer, jobs.get? other.id = some other ∧ other.isRunning = false ∧
      job.age < other.age)
    (many : completedJobRetention ≤ newer.length) (outcome : Except String String) :
    ¬ Shown jobs job outcome := by
  rw [shown_iff filed found runs, not_lt, List.countP_eq_length_filter]
  have nodup : (newer.map JobInfo.age).Nodup := by
    refine List.Nodup.of_map (fun age : Nat ×ₗ String => (ofLex age).2) ?_
    rw [List.map_map]
    exact distinct
  rw [← List.length_map JobInfo.age] at many
  refine many.trans (List.subperm_of_subset nodup fun age member => ?_).length_le
  obtain ⟨other, listed, rfl⟩ := List.mem_map.mp member
  obtain ⟨present, finished, later⟩ := held other listed
  exact List.mem_filter.mpr ⟨mem_completed.mpr ⟨other.id, other, present, finished, rfl⟩,
    decide_eq_true later⟩

/-- **The registry of background jobs.** In every state reached at most `cap` jobs run, every
call keeps the laws, and the outcome of a running job is shown right after its finish exactly
when fewer completed jobs were created after it than are kept. -/
theorem registry_laws {events : List JobEvent} (run : JobRun cap events jobs) :
    jobs.running ≤ cap ∧
      (∀ event : JobEvent, event.Allowed cap jobs → JobLaws cap jobs event) ∧
      ∀ job outcome, jobs.get? job.id = some job → job.isRunning = true →
        (Shown jobs job outcome ↔
          (jobs.completed.countP fun age => decide (job.age < age)) < completedJobRetention) := by
  obtain ⟨filed, bounded⟩ := reachable run
  exact ⟨bounded, fun event allowed => jobLaws_of_filed filed bounded allowed,
    fun job outcome found runs => shown_iff filed found runs outcome⟩

theorem registry_laws_first :
    let jobs := (tryStart ∅ 1 "a" 7).1
    jobs.running ≤ 1 ∧
      (∀ event : JobEvent, event.Allowed 1 jobs → JobLaws 1 jobs event) ∧
      ∀ job outcome, jobs.get? job.id = some job → job.isRunning = true →
        (Shown jobs job outcome ↔
          (jobs.completed.countP fun age => decide (job.age < age)) < completedJobRetention) :=
  @registry_laws 1 (tryStart ∅ 1 "a" 7).1 [.tryStart 1 "a" 7] (.step .start ⟨rfl, rfl⟩ rfl)

def crowd : List JobInfo :=
  (List.range 1000).map fun i =>
    ⟨String.ofList (List.replicate i 'x'), 1, .completed true none none⟩

def oldJob : JobInfo := ⟨"old", 0, .running⟩

def crowded : JobMap :=
  restore (tryStart ∅ 1 "old" 0).1 crowd

theorem nodup_crowd : (crowd.map JobInfo.id).Nodup := by
  unfold crowd
  rw [List.map_map]
  refine List.Nodup.map (fun i j same => ?_) List.nodup_range
  have lengths := congrArg (fun id => id.toList.length) same
  simpa using lengths

theorem of_mem_crowd {job : JobInfo} (member : job ∈ crowd) :
    job.isRunning = false ∧ job.createdAt = 1 ∧ job.id ≠ "old" := by
  obtain ⟨i, _, rfl⟩ := List.mem_map.mp member
  refine ⟨rfl, rfl, fun same => ?_⟩
  have chars : List.replicate i 'x' = ['o', 'l', 'd'] := by
    simpa using congrArg String.toList same
  have first : 'o' ∈ List.replicate i 'x' := by simp [chars]
  exact absurd (List.eq_of_mem_replicate first) (by decide)

private theorem filed_started : Filed (tryStart ∅ 1 "old" 0).1 := by
  intro id job found
  obtain ⟨rfl, rfl⟩ : id = "old" ∧ job = ⟨"old", 0, .running⟩ := by
    change (SortedMap.insert ∅ "old" _).get? id = some job at found
    rw [SortedMap.get?_insert] at found
    split at found
    next same => exact ⟨same, (Option.some.inj found).symm⟩
    · cases found
  rfl

theorem held_crowded {job : JobInfo} (member : job ∈ crowd) :
    crowded.get? job.id = some job := by
  have taken := get?_taken (tryStart ∅ 1 "old" 0).1 crowd
  have same : ∀ id, ∀ other ∈ crowd, other.id = id → job.id = id → other = job :=
    fun id other listed here there =>
      List.inj_on_of_nodup_map nodup_crowd listed member (here.trans there.symm)
  have few : (crowd.foldl (fun map job => map.insert job.id (restored job))
      (tryStart ∅ 1 "old" 0).1).completed.length ≤ completedJobRetention := by
    have size : completedJobRetention = (crowd.map JobInfo.age).length := by
      simp [crowd, completedJobRetention]
    rw [size]
    refine (List.subperm_of_subset (filed_started.taken crowd).nodup_completed
      fun age listed => ?_).length_le
    obtain ⟨id, other, found, finished, rfl⟩ := mem_completed.mp listed
    by_cases inside : id ∈ crowd.map JobInfo.id
    · obtain ⟨old, here, _, found'⟩ := (taken id).2 inside
      obtain rfl := Option.some.inj (found.symm.trans found')
      refine List.mem_map.mpr ⟨old, here, ?_⟩
      unfold restored
      rw [if_neg (by simp [(of_mem_crowd here).1])]
    · rw [(taken id).1 inside] at found
      change (SortedMap.insert ∅ "old" _).get? id = some other at found
      rw [SortedMap.get?_insert] at found
      split at found
      · obtain rfl := Option.some.inj found
        cases finished
      · cases found
  unfold crowded restore
  rw [(filed_started.taken crowd).get?_evict, surplus_of_le few]
  obtain ⟨other, listed, here, found⟩ := (taken job.id).2 (List.mem_map_of_mem member)
  obtain rfl := same job.id other listed here rfl
  rw [found]
  simp [restored, (of_mem_crowd listed).1]

/-- A job that was created before a thousand completed ones is dropped when it finishes. -/
theorem finished_dropped :
    ∃ jobs job, JobRun 1 [.tryStart 1 "old" 0, .restore crowd] jobs ∧
      jobs.get? job.id = some job ∧ job.isRunning = true ∧
      ¬ Shown jobs job (.ok "result") := by
  have started : JobRun 1 [.tryStart 1 "old" 0] (tryStart ∅ 1 "old" 0).1 :=
    .step .start ⟨rfl, rfl⟩ rfl
  have run : JobRun 1 ([.tryStart 1 "old" 0] ++ [.restore crowd]) crowded :=
    .step started trivial rfl
  have running : crowded.get? oldJob.id = some oldJob := by
    have untouched : oldJob.id ∉ crowd.map JobInfo.id := by
      intro listed
      obtain ⟨job, member, same⟩ := List.mem_map.mp listed
      exact (of_mem_crowd member).2.2 same
    unfold crowded restore
    rw [(filed_started.taken crowd).get?_evict, (get?_taken _ crowd _).1 untouched]
    rfl
  have newer : ∀ other ∈ crowd, crowded.get? other.id = some other ∧
      other.isRunning = false ∧ oldJob.age < other.age := by
    intro other member
    obtain ⟨finished, created, _⟩ := of_mem_crowd member
    refine ⟨held_crowded member, finished, ?_⟩
    rw [JobInfo.age, JobInfo.age, created, Prod.Lex.toLex_lt_toLex]
    exact Or.inl Nat.zero_lt_one
  have many : completedJobRetention ≤ crowd.length := by
    simp [crowd, completedJobRetention]
  exact ⟨crowded, oldJob, run, running, rfl,
    not_shown_of_newer (reachable run).1 running rfl nodup_crowd newer many _⟩

end JobMap

end Lain.Server
