import Lain.Snapshots.Admission
import Lain.Snapshots.Records

/-!
# Readiness of snapshots

The manager keeps records on disk, jobs in memory and entries in the index cache.
-/

namespace Lain.Snapshots

open Foundation

structure SnapshotInput where
  repos : SortedMap String String
  excluded : List String
  refs : SortedMap String String
  configHash : String
deriving DecidableEq

/-- What the process does not change: the source of each repository, the version of the
analyzer, and the digest that names a request. -/
structure SnapshotEnv where
  sourceOf : String → Option String
  analyzerVersion : String
  snapshotIdFor : SnapshotInput → String

/-- The records and entries on disk, the jobs, and the jobs whose worker has written its entry
since the process started. -/
structure Manager where
  records : SortedMap String SnapshotRecord := ∅
  cache : CacheDisk := {}
  runner : JobRunner := {}
  written : List JobSpec := []

/-- What happens next. -/
inductive ManagerEvent where
  | prepare (input : SnapshotInput)
  | poll (id : String) (outOfTime : Bool)
  | expire (id : String)
  | restart
  | beginJob (spec : JobSpec) (resolved : Option String)
  | writeJob (spec : JobSpec) (entry : CacheEntry)
  | endJob (spec : JobSpec) (result : Except String JobOutcome)
  | evict (dir : Dir)

def pendingRepoStates (repos : SortedMap String String) (excluded : List String) :
    SortedMap String RepoSnapshotState :=
  excluded.foldl (fun m repo => m.insertNew repo .excluded)
    (repos.entries.foldl (fun m entry => m.insert entry.1 (.queued entry.2)) ∅)

/-- The record of a new request. -/
def SnapshotInput.pendingRecord (input : SnapshotInput) (env : SnapshotEnv) : SnapshotRecord where
  id := env.snapshotIdFor input
  repos := input.repos
  excluded := input.excluded
  refs := input.refs
  configHash := input.configHash
  analyzerVersion := env.analyzerVersion
  state := .pending
  repoStates := pendingRepoStates input.repos input.excluded

def submitJobs (env : SnapshotEnv) (runner : JobRunner) :
    List (String × String) → JobRunner × Except PrepareError Unit
  | [] => (runner, .ok ())
  | (repo, commit) :: rest =>
    match env.sourceOf repo with
    | none => (runner, .error (.repoNotRegistered repo))
    | some source =>
      submitJobs env (runner.submit ⟨repo, commit, env.analyzerVersion, source⟩).1 rest

namespace Manager

/-- Answer a request: a finished record is returned as it is; else the record is written if it
is new and its jobs are filed, and the request goes on to wait. -/
def prepare (m : Manager) (env : SnapshotEnv) (input : SnapshotInput) :
    Manager × Except PrepareError (Option SnapshotRecord) :=
  let wait (m : Manager) : Manager × Except PrepareError (Option SnapshotRecord) :=
    match m.runner.admit with
    | .error reason => (m, .error reason)
    | .ok _ =>
      match submitJobs env m.runner input.repos.entries with
      | (runner, .error reason) => ({ m with runner }, .error reason)
      | (runner, .ok _) => ({ m with runner }, .ok none)
  match m.records.get? (env.snapshotIdFor input) with
  | some record =>
    if record.state = .ready ∨ record.state = .failed then (m, .ok (some record)) else wait m
  | none =>
    wait
      { m with
        records := m.records.insert (env.snapshotIdFor input) (input.pendingRecord env) }

def refresh (m : Manager) (env : SnapshotEnv) (record : SnapshotRecord) : RefreshOutcome :=
  refreshRepoStates env.sourceOf m.cache m.runner record

def recoverFromDisk (m : Manager) (env : SnapshotEnv) : JobRunner :=
  m.records.entries.foldl (fun runner entry =>
    if entry.2.state = .pending ∨ entry.2.state = .indexing then
      entry.2.repos.entries.foldl (fun runner repo =>
        match env.sourceOf repo.1 with
        | none => runner
        | some source =>
          (runner.submit ⟨repo.1, repo.2, entry.2.analyzerVersion, source⟩).1) runner
    else runner) {}

/-- One step. A waiting request writes the record it rolled up once it is finished or the time
is up. -/
def step (env : SnapshotEnv) (m : Manager) : ManagerEvent → Option Manager
  | .prepare input => some (m.prepare env input).1
  | .poll id outOfTime =>
    match m.records.get? id with
    | none => none
    | some record =>
      let rolled := (m.refresh env record).record
      if rolled.state = .ready ∨ rolled.state = .failed ∨ outOfTime = true then
        some { m with records := m.records.insert id rolled }
      else some m
  | .expire id => some { m with records := m.records.erase id }
  | .restart => some { m with runner := m.recoverFromDisk env, written := [] }
  | .beginJob spec resolved =>
    if m.runner.status? spec = some .queued then
      match resolved with
      | none => some { m with runner := m.runner.markIndexing spec }
      | some sha => some { m with runner := (m.runner.markIndexing spec).publishSha spec sha }
    else none
  | .writeJob spec entry =>
    match m.runner.lookup spec with
    | some ⟨.indexing, some sha⟩ =>
      some
        { m with
          cache :=
            { m.cache with
              entries := m.cache.entries.insert
                (CacheKey.mk spec.repo sha spec.analyzerVersion).entryDir entry }
          written := m.written ++ [spec] }
    | _ => none
  | .endJob spec result =>
    if m.runner.status? spec = some .indexing ∧ (result.isOk = true → spec ∈ m.written) then
      some { m with runner := m.runner.report spec result }
    else none
  | .evict dir => some { m with cache := { m.cache with entries := m.cache.entries.erase dir } }

end Manager

/-- The key under which a job should leave its entry. -/
def JobSpec.key (spec : JobSpec) : CacheKey :=
  ⟨spec.repo, spec.sha, spec.analyzerVersion⟩

/-- Commits are full shas, a job resolves to its own sha, and an entry is evicted only while
every job filed for it is queued and every record that names it has its job filed. -/
def Manager.Careful (env : SnapshotEnv) (m : Manager) : ManagerEvent → Prop
  | .prepare input => ∀ entry ∈ input.repos.entries, looksLikeFullSha entry.2 = true
  | .beginJob spec resolved => ∀ sha ∈ resolved, sha = spec.sha
  | .evict dir =>
    (∀ entry ∈ m.runner.byKey.entries, entry.1.key.entryDir = dir → entry.2.status = .queued) ∧
      ∀ stored ∈ m.records.entries, ∀ entry ∈ stored.2.repos.entries,
        (stored.2.key entry.1 entry.2).entryDir = dir →
          (m.runner.lookup (jobSpec env.sourceOf (stored.2.key entry.1 entry.2))).isSome = true
  | _ => True

instance Manager.decidableCareful (env : SnapshotEnv) (m : Manager) (event : ManagerEvent) :
    Decidable (m.Careful env event) := by
  cases event <;> unfold Manager.Careful <;> infer_instance

/-- Every record that rolls up to ready has its entries on disk. -/
def Manager.ReadyUsable (env : SnapshotEnv) (m : Manager) : Prop :=
  ∀ id record, m.records.get? id = some record →
    (m.refresh env record).record.state = .ready → ∃ keys, openEntries m.cache record = .ok keys

/-- Evicting an entry sends every ready record that names it back to indexing, and its job is
queued until a worker begins it. -/
def Manager.EvictionReindexes (env : SnapshotEnv) (m : Manager) (dir : Dir) : Prop :=
  ∀ m', m.step env (.evict dir) = some m' →
    ∀ id record, m.records.get? id = some record →
      (m.refresh env record).record.state = .ready →
        ∀ entry ∈ record.repos.entries, (record.key entry.1 entry.2).entryDir = dir →
          (m'.refresh env record).record.state = .indexing ∧
            ∀ events m'', Runs (Manager.step env) (fun _ _ => True) m' events m'' →
              .restart ∉ events →
              (∀ resolved, .beginJob (jobSpec env.sourceOf (record.key entry.1 entry.2)) resolved ∉
                events) →
                m''.runner.status? (jobSpec env.sourceOf (record.key entry.1 entry.2)) =
                  some .queued

/-! ### What requests file -/

theorem grown_submitJobs (env : SnapshotEnv) (repos : List (String × String))
    (runner : JobRunner) : runner.Grown (submitJobs env runner repos).1 := by
  induction repos generalizing runner with
  | nil => exact .refl runner
  | cons entry rest ih =>
    obtain ⟨repo, commit⟩ := entry
    rw [submitJobs]
    split
    · exact .refl runner
    · exact (runner.grown_submit _).trans (ih _)

theorem Manager.grown_recoverFromDisk (m : Manager) (env : SnapshotEnv) :
    JobRunner.Grown {} (m.recoverFromDisk env) := by
  refine JobRunner.grown_foldl (fun runner entry => ?_) _ _
  split
  · refine JobRunner.grown_foldl (fun runner repo => ?_) _ _
    split
    · exact .refl runner
    · exact runner.grown_submit _
  · exact .refl runner

theorem Manager.prepare_spec (m : Manager) (env : SnapshotEnv) (input : SnapshotInput) :
    (m.prepare env input).1.cache = m.cache ∧ (m.prepare env input).1.written = m.written ∧
      m.runner.Grown (m.prepare env input).1.runner ∧
      ((m.prepare env input).1.records = m.records ∨
        (m.prepare env input).1.records =
          m.records.insert (env.snapshotIdFor input) (input.pendingRecord env)) := by
  unfold Manager.prepare
  simp only
  split
  · split
    · exact ⟨rfl, rfl, .refl _, Or.inl rfl⟩
    · split
      · exact ⟨rfl, rfl, .refl _, Or.inl rfl⟩
      · have grown := grown_submitJobs env input.repos.entries m.runner
        split
        next filed =>
            rw [filed] at grown
            exact ⟨rfl, rfl, grown, Or.inl rfl⟩
        next filed =>
            rw [filed] at grown
            exact ⟨rfl, rfl, grown, Or.inl rfl⟩
  · split
    · exact ⟨rfl, rfl, .refl _, Or.inr rfl⟩
    · have grown := grown_submitJobs env input.repos.entries m.runner
      split
      next filed =>
          rw [filed] at grown
          exact ⟨rfl, rfl, grown, Or.inr rfl⟩
      next filed =>
          rw [filed] at grown
          exact ⟨rfl, rfl, grown, Or.inr rfl⟩

/-! ### The invariant of careful runs -/

/-- What careful runs keep: records name full shas, jobs resolve to their own sha, a done job
has written its entry, and a written entry is on disk and its job past the queue. -/
structure Manager.Sound (m : Manager) : Prop where
  full : ∀ {id : String} {record : SnapshotRecord}, m.records.get? id = some record →
    ∀ entry ∈ record.repos.entries, looksLikeFullSha entry.2 = true
  resolved : ∀ {spec : JobSpec} {state : JobState} {sha : String},
    m.runner.lookup spec = some state → state.resolvedSha = some sha → sha = spec.sha
  done : ∀ {spec : JobSpec} {outcome : JobOutcome},
    m.runner.status? spec = some (.done outcome) → spec ∈ m.written
  written : ∀ spec ∈ m.written, m.cache.hasEntry spec.key = true ∧
    ∃ status, m.runner.status? spec = some status ∧ status ≠ .queued

namespace Manager.Sound

variable {m : Manager} {spec : JobSpec}

theorem fresh : Manager.Sound {} where
  full found := nomatch found
  resolved found := nomatch found
  done shown := nomatch shown
  written _ member := nomatch member

theorem grow {runner : JobRunner} (sound : m.Sound) (grown : m.runner.Grown runner) :
    Manager.Sound { m with runner } where
  full := sound.full
  resolved found published := sound.resolved (grown.resolvedSha found published) published
  done shown := sound.done (grown.status?_of_ne shown nofun)
  written spec member := by
    obtain ⟨present, status, shown, past⟩ := sound.written spec member
    exact ⟨present, status, grown.status? shown, past⟩

theorem rewrite {records : SortedMap String SnapshotRecord} (sound : m.Sound)
    (full : ∀ {id : String} {record : SnapshotRecord}, records.get? id = some record →
      ∀ entry ∈ record.repos.entries, looksLikeFullSha entry.2 = true) :
    Manager.Sound { m with records } where
  full := full
  resolved := sound.resolved
  done := sound.done
  written := sound.written

theorem insert {id : String} {record : SnapshotRecord} (sound : m.Sound)
    (full : ∀ entry ∈ record.repos.entries, looksLikeFullSha entry.2 = true) :
    Manager.Sound { m with records := m.records.insert id record } := by
  refine sound.rewrite fun {other} found found? => ?_
  rw [SortedMap.get?_insert] at found?
  split at found?
  · cases found?
    exact full
  · exact sound.full found?

theorem restart (sound : m.Sound) (env : SnapshotEnv) :
    Manager.Sound { m with runner := m.recoverFromDisk env, written := [] } where
  full := sound.full
  resolved found published := by
    have before := (m.grown_recoverFromDisk env).resolvedSha found published
    cases before
  done shown := by
    have before := (m.grown_recoverFromDisk env).status?_of_ne shown nofun
    cases before
  written _ member := nomatch member

theorem beginJob {resolved : Option String} {runner : JobRunner} (sound : m.Sound)
    (queued : m.runner.status? spec = some .queued) (own : ∀ sha ∈ resolved, sha = spec.sha)
    (others : ∀ other, other ≠ spec → runner.lookup other = m.runner.lookup other)
    (begun : ∃ state, runner.lookup spec = some state ∧ state.status = .indexing ∧
      ∀ sha, state.resolvedSha = some sha → sha ∈ resolved ∨
        ∃ before, m.runner.lookup spec = some before ∧ before.resolvedSha = some sha) :
    Manager.Sound { m with runner } := by
  obtain ⟨state, found, indexing, published⟩ := begun
  have elsewhere : ∀ {other}, other ≠ spec → runner.status? other = m.runner.status? other :=
    fun apart => congrArg (Option.map JobState.status) (others _ apart)
  have here : runner.status? spec = some .indexing := by
    unfold JobRunner.status?
    rw [found, Option.map_some, indexing]
  refine ⟨sound.full, ?_, ?_, ?_⟩
  · intro other state' sha known resolvedTo
    by_cases same : other = spec
    · subst same
      obtain rfl := Option.some.inj (found.symm.trans known)
      rcases published sha resolvedTo with now | ⟨before, was, then'⟩
      · exact own sha now
      · exact sound.resolved was then'
    · exact sound.resolved ((others other same).symm.trans known) resolvedTo
  · intro other outcome shown
    by_cases same : other = spec
    · rw [same, here] at shown
      cases shown
    · exact sound.done ((elsewhere same).symm.trans shown)
  · intro other member
    obtain ⟨present, status, shown, past⟩ := sound.written other member
    by_cases same : other = spec
    · rw [same, queued] at shown
      exact absurd (Option.some.inj shown).symm past
    · exact ⟨present, status, (elsewhere same).trans shown, past⟩

theorem writeJob {sha : String} (sound : m.Sound)
    (running : m.runner.lookup spec = some ⟨.indexing, some sha⟩) (entry : CacheEntry) :
    Manager.Sound
      { m with
        cache :=
          { m.cache with
            entries := m.cache.entries.insert
              (CacheKey.mk spec.repo sha spec.analyzerVersion).entryDir entry }
        written := m.written ++ [spec] } := by
  obtain rfl : sha = spec.sha := sound.resolved running rfl
  refine ⟨sound.full, sound.resolved, ?_, ?_⟩
  · intro other outcome shown
    exact List.mem_append_left _ (sound.done shown)
  · intro other member
    have kept : (∃ status, m.runner.status? other = some status ∧ status ≠ .queued) := by
      rcases List.mem_append.mp member with before | now
      · exact (sound.written other before).2
      · obtain rfl := List.mem_singleton.mp now
        exact ⟨.indexing, congrArg (Option.map JobState.status) running, nofun⟩
    refine ⟨?_, kept⟩
    unfold CacheDisk.hasEntry
    rw [SortedMap.get?_insert]
    split
    · rfl
    next apart =>
        rcases List.mem_append.mp member with before | now
        · exact (sound.written other before).1
        · obtain rfl := List.mem_singleton.mp now
          exact absurd rfl apart

theorem endJob {result : Except String JobOutcome} (sound : m.Sound)
    (indexing : m.runner.status? spec = some .indexing)
    (wrote : result.isOk = true → spec ∈ m.written) :
    Manager.Sound { m with runner := m.runner.report spec result } := by
  refine ⟨sound.full, ?_, ?_, ?_⟩
  · intro other state sha found published
    have before : ∃ state', m.runner.lookup other = some state' ∧
        state'.resolvedSha = some sha := by
      cases result with
      | ok outcome =>
        unfold JobRunner.report JobRunner.markDone at found
        rw [JobRunner.lookup_modify] at found
        split at found
        next same =>
            obtain ⟨state', was, rfl⟩ := Option.map_eq_some_iff.mp found
            exact ⟨state', same ▸ was, published⟩
        · exact ⟨state, found, published⟩
      | error error =>
        unfold JobRunner.report JobRunner.markFailed at found
        rw [JobRunner.lookup_modify] at found
        split at found
        next same =>
            obtain ⟨state', was, rfl⟩ := Option.map_eq_some_iff.mp found
            exact ⟨state', same ▸ was, published⟩
        · exact ⟨state, found, published⟩
    obtain ⟨state', was, published'⟩ := before
    exact sound.resolved was published'
  · intro other outcome shown
    rw [JobRunner.status?_report] at shown
    split at shown
    next same =>
        rw [indexing] at shown
        cases result with
        | ok outcome =>
          rw [same]
          exact wrote rfl
        | error error => cases shown
    · exact sound.done shown
  · intro other member
    obtain ⟨present, status, shown, past⟩ := sound.written other member
    rw [JobRunner.status?_report]
    split
    · rw [indexing]
      refine ⟨present, _, rfl, ?_⟩
      cases result <;> nofun
    · exact ⟨present, status, shown, past⟩

theorem evict {dir : Dir} (sound : m.Sound)
    (queued : ∀ entry ∈ m.runner.byKey.entries, entry.1.key.entryDir = dir →
      entry.2.status = .queued) :
    Manager.Sound { m with cache := { m.cache with entries := m.cache.entries.erase dir } } := by
  refine ⟨sound.full, sound.resolved, sound.done, ?_⟩
  intro other member
  obtain ⟨present, status, shown, past⟩ := sound.written other member
  refine ⟨?_, status, shown, past⟩
  obtain ⟨state, found, rfl⟩ := Option.map_eq_some_iff.mp shown
  unfold CacheDisk.hasEntry
  rw [SortedMap.get?_erase, if_neg]
  · exact present
  · intro same
    exact past (queued ⟨other, state⟩ (SortedMap.mem_entries.mpr found) same)

/-- **Every careful step keeps the invariant.** -/
theorem step {env : SnapshotEnv} {m' : Manager} {event : ManagerEvent} (sound : m.Sound)
    (careful : m.Careful env event) (moved : m.step env event = some m') : m'.Sound := by
  cases event with
  | prepare input =>
    cases moved
    obtain ⟨cache, written, grown, records⟩ := m.prepare_spec env input
    have filed : Manager.Sound { m with runner := (m.prepare env input).1.runner } :=
      sound.grow grown
    rcases records with same | new
    · have unchanged : (m.prepare env input).1 =
          { m with runner := (m.prepare env input).1.runner } := by
        rw [← cache, ← written, ← same]
      rw [unchanged]
      exact filed
    · have changed : (m.prepare env input).1 =
          { m with
            runner := (m.prepare env input).1.runner
            records := m.records.insert (env.snapshotIdFor input) (input.pendingRecord env) } := by
        rw [← cache, ← written, ← new]
      rw [changed]
      exact filed.insert careful
  | poll id outOfTime =>
    simp only [Manager.step] at moved
    split at moved
    · cases moved
    next record found =>
        split at moved
        · cases moved
          exact sound.insert fun entry member => sound.full found entry member
        · cases moved
          exact sound
  | expire id =>
    cases moved
    refine sound.rewrite fun {other} record found => ?_
    rw [SortedMap.get?_erase] at found
    split at found
    · cases found
    · exact sound.full found
  | restart =>
    cases moved
    exact sound.restart env
  | beginJob spec resolved =>
    simp only [Manager.step] at moved
    split at moved
    next queued =>
        obtain ⟨before, was, isQueued⟩ := Option.map_eq_some_iff.mp queued
        cases resolved with
        | none =>
          cases moved
          refine sound.beginJob queued careful (fun other apart => ?_)
            ⟨{ before with status := .indexing }, ?_, rfl, fun sha published =>
              Or.inr ⟨before, was, published⟩⟩
          · unfold JobRunner.markIndexing
            rw [JobRunner.lookup_modify, if_neg apart]
          · unfold JobRunner.markIndexing
            rw [JobRunner.lookup_modify, if_pos rfl]
            exact congrArg _ was
        | some sha =>
          cases moved
          refine sound.beginJob queued careful (fun other apart => ?_)
            ⟨⟨.indexing, some sha⟩, ?_, rfl, fun sha published => Or.inl published⟩
          · unfold JobRunner.publishSha JobRunner.markIndexing
            rw [JobRunner.lookup_modify, if_neg apart, JobRunner.lookup_modify,
              if_neg apart]
          · unfold JobRunner.publishSha JobRunner.markIndexing
            rw [JobRunner.lookup_modify, if_pos rfl, JobRunner.lookup_modify, if_pos rfl]
            unfold JobRunner.lookup at was ⊢
            rw [was]
            rfl
    · cases moved
  | writeJob spec entry =>
    simp only [Manager.step] at moved
    split at moved
    next sha running =>
        cases moved
        exact sound.writeJob running entry
    · cases moved
  | endJob spec result =>
    simp only [Manager.step] at moved
    split at moved
    next ending =>
        cases moved
        exact sound.endJob ending.1 ending.2
    · cases moved
  | evict dir =>
    cases moved
    exact sound.evict careful.1

end Manager.Sound

/-! ### Ready records and evictions -/

namespace Manager.Sound

variable {m : Manager} {env : SnapshotEnv} {key : CacheKey}

theorem effectiveSha_eq (sound : m.Sound) (full : looksLikeFullSha key.sha = true) :
    effectiveSha m.cache (m.runner.lookup (jobSpec env.sourceOf key)) key = key.sha := by
  unfold effectiveSha
  split
  next state found =>
      cases published : state.resolvedSha with
      | none => rfl
      | some sha => exact sound.resolved found published
  · split
    next found discovered => exact CacheDisk.discover_fullSha full discovered
    · rfl

theorem isCached_iff (sound : m.Sound) (full : looksLikeFullSha key.sha = true) :
    (refreshRepo env.sourceOf m.cache m.runner key).isCached = true ↔
      m.cache.hasEntry key = true := by
  unfold refreshRepo
  simp only [sound.effectiveSha_eq full]
  by_cases present : m.cache.hasEntry key = true
  · rw [if_pos present]
    exact iff_of_true rfl present
  · rw [if_neg present]
    refine iff_of_false (fun cached => ?_) present
    split at cached
    · cases cached
    next state found =>
        split at cached
        · cases cached
        · cases cached
        next outcome isDone =>
            have wrote : jobSpec env.sourceOf key ∈ m.written := by
              refine sound.done (?_ : m.runner.status? _ = some (.done outcome))
              unfold JobRunner.status?
              rw [found, Option.map_some, isDone]
            exact present (sound.written _ wrote).1
        · cases cached

theorem readyUsable (sound : m.Sound) : m.ReadyUsable env := by
  intro id record found ready
  refine openEntries_ok.mpr fun entry member => ?_
  have full : looksLikeFullSha entry.2 = true := sound.full found entry member
  exact (sound.isCached_iff full).mp (refreshRepoStates_ready.mp ready entry member)

end Manager.Sound

theorem Manager.queued_until_begun {env : SnapshotEnv} {m m' : Manager} {spec : JobSpec}
    {events : List ManagerEvent} (queued : m.runner.status? spec = some .queued)
    (run : Runs (Manager.step env) (fun _ _ => True) m events m') (stays : .restart ∉ events)
    (unbegun : ∀ resolved, .beginJob spec resolved ∉ events) :
    m'.runner.status? spec = some .queued := by
  induction run with
  | start => exact queued
  | @step events m₁ m₂ event _ _ moved ih =>
    rw [List.mem_append, not_or, List.mem_singleton] at stays
    have before := ih stays.1 fun resolved member =>
      unbegun resolved (List.mem_append_left _ member)
    have other : ∀ resolved, event ≠ .beginJob spec resolved := fun resolved same =>
      unbegun resolved (List.mem_append_right _ (List.mem_singleton.mpr same.symm))
    cases event with
    | prepare input =>
      cases moved
      exact (m₁.prepare_spec env input).2.2.1.status? before
    | poll id outOfTime =>
      simp only [Manager.step] at moved
      split at moved
      · cases moved
      · split at moved <;> cases moved <;> exact before
    | expire id =>
      cases moved
      exact before
    | restart => exact absurd rfl stays.2
    | beginJob begun resolved =>
      have apart : spec ≠ begun := fun same => other resolved (by rw [same])
      simp only [Manager.step] at moved
      split at moved
      · cases resolved with
        | none =>
          cases moved
          change (m₁.runner.markIndexing begun).status? spec = _
          rw [JobRunner.status?_markIndexing, if_neg apart, before]
        | some sha =>
          cases moved
          change ((m₁.runner.markIndexing begun).publishSha begun sha).status? spec = _
          rw [JobRunner.status?_publishSha, JobRunner.status?_markIndexing, if_neg apart,
            before]
      · cases moved
    | writeJob written entry =>
      simp only [Manager.step] at moved
      split at moved <;> cases moved
      exact before
    | endJob ended result =>
      simp only [Manager.step] at moved
      split at moved
      next ending =>
          cases moved
          have apart : spec ≠ ended := by
            rintro rfl
            rw [before] at ending
            cases ending.1
          change (m₁.runner.report ended result).status? spec = _
          rw [JobRunner.status?_report, if_neg apart, before]
      · cases moved
    | evict dir =>
      cases moved
      exact before

theorem Manager.Sound.evictionReindexes {env : SnapshotEnv} {m : Manager} {dir : Dir}
    (sound : m.Sound) (careful : m.Careful env (.evict dir)) : m.EvictionReindexes env dir := by
  intro m' moved id record found ready entry member same
  have sound' : m'.Sound := sound.step careful moved
  obtain ⟨allQueued, allFiled⟩ := careful
  have unchanged : m'.runner = m.runner ∧ m'.records = m.records := by
    cases moved
    exact ⟨rfl, rfl⟩
  have fulls := sound.full found
  -- The jobs of the entries under the directory are filed and queued.
  have queued : ∀ entry ∈ record.repos.entries, (record.key entry.1 entry.2).entryDir = dir →
      ∃ state, m'.runner.lookup (jobSpec env.sourceOf (record.key entry.1 entry.2)) = some state ∧
        state.status = .queued := by
    intro entry member same
    rw [unchanged.1]
    obtain ⟨state, filed⟩ := Option.isSome_iff_exists.mp
      (allFiled ⟨id, record⟩ (SortedMap.mem_entries.mpr found) entry member same)
    exact ⟨state, filed, allQueued ⟨_, state⟩ (SortedMap.mem_entries.mpr filed) same⟩
  -- The others keep their entries.
  have states : ∀ entry ∈ record.repos.entries,
      if (record.key entry.1 entry.2).entryDir = dir then
        refreshRepo env.sourceOf m'.cache m'.runner (record.key entry.1 entry.2) =
          .queued entry.2
      else
        (refreshRepo env.sourceOf m'.cache m'.runner (record.key entry.1 entry.2)).isCached =
          true := by
    intro entry member
    have full : looksLikeFullSha (record.key entry.1 entry.2).sha = true := fulls entry member
    have present := (sound.isCached_iff full).mp (refreshRepoStates_ready.mp ready entry member)
    split
    next same =>
        obtain ⟨state, filed, isQueued⟩ := queued entry member same
        have gone : ¬ m'.cache.hasEntry (record.key entry.1 entry.2) = true := by
          cases moved
          unfold CacheDisk.hasEntry
          rw [SortedMap.get?_erase, if_pos same]
          exact Bool.false_ne_true
        unfold refreshRepo
        simp only [sound'.effectiveSha_eq full]
        rw [if_neg gone, filed]
        simp only [isQueued]
        rfl
    next apart =>
        refine (sound'.isCached_iff full).mpr ?_
        cases moved
        unfold CacheDisk.hasEntry
        rw [SortedMap.get?_erase, if_neg apart]
        exact present
  constructor
  · refine refreshRepoStates_indexing (fun entry member => ?_) ⟨entry, member, ?_⟩
    · have state := states entry member
      split at state
      · rw [state]
        rfl
      · refine Bool.eq_false_iff.mpr fun failed => ?_
        rw [RepoSnapshotState.not_isCached_of_isFailed failed] at state
        cases state
    · have state := states entry member
      rw [if_pos same] at state
      rw [state]
      rfl
  · intro events m'' run stays unbegun
    obtain ⟨state, filed, isQueued⟩ := queued entry member same
    refine queued_until_begun ?_ run stays unbegun
    unfold JobRunner.status?
    rw [filed, Option.map_some, isQueued]

/-- **A ready snapshot is usable, and an eviction sends it back to indexing**, in every run whose
commits are full shas, whose jobs resolve to their own sha, and whose evictions spare the entries
of jobs that are not queued. -/
theorem careful_readyUsable {env : SnapshotEnv} {events : List ManagerEvent} {m : Manager}
    (run : Runs (Manager.step env) (Manager.Careful env) {} events m) :
    m.ReadyUsable env ∧ ∀ dir, m.Careful env (.evict dir) → m.EvictionReindexes env dir := by
  have sound : m.Sound := run.invariant (I := fun _ (m : Manager) => m.Sound) .fresh
    fun sound careful moved => sound.step careful moved
  exact ⟨sound.readyUsable, fun _ careful => sound.evictionReindexes careful⟩

/-! ### Two snapshots that are ready without their entry -/

def ordersEnv : SnapshotEnv where
  sourceOf repo := if repo = "orders" then some "/srv/orders" else none
  analyzerVersion := "0.9.0+c1"
  snapshotIdFor _ := "snap_0"

def ordersCommit : String := "0123456789abcdef0123456789abcdef01234567"

def ordersInput : SnapshotInput where
  repos := SortedMap.insert ∅ "orders" ordersCommit
  excluded := []
  refs := ∅
  configHash := "h"

def ordersCommitJob : JobSpec :=
  ⟨"orders", ordersCommit, "0.9.0+c1", "/srv/orders"⟩

/-- The request, and a worker that runs its job to a good end; the record is rolled up and
written. -/
def ordersServed (resolved : String) : List ManagerEvent :=
  [.prepare ordersInput, .beginJob ordersCommitJob (some resolved),
    .writeJob ordersCommitJob ⟨⟨"orders", resolved, "0.9.0+c1", [], ∅, 3, 0, 0⟩, [1, 2, 3]⟩,
    .endJob ordersCommitJob (.ok ⟨3, []⟩), .poll "snap_0" false]

theorem careful_readyUsable_orders :
    ∃ m, execute (Manager.step ordersEnv) (Manager.Careful ordersEnv) {}
        (ordersServed ordersCommit) = some m ∧
      m.ReadyUsable ordersEnv ∧
        ∀ dir, m.Careful ordersEnv (.evict dir) → m.EvictionReindexes ordersEnv dir := by
  have run : ∃ m, execute (Manager.step ordersEnv) (Manager.Careful ordersEnv) {}
      (ordersServed ordersCommit) = some m := Option.isSome_iff_exists.mp (by decide +kernel)
  obtain ⟨m, done⟩ := run
  exact ⟨m, done, careful_readyUsable (runs_of_execute done)⟩

/-- A snapshot whose entry was evicted, and one whose job resolved its sha to another one, are
ready and cannot be built. -/
theorem readyUsable_fails :
    (∃ m, Runs (Manager.step ordersEnv) (fun _ _ => True) {}
        (ordersServed ordersCommit ++ [.evict ordersCommitJob.key.entryDir]) m ∧
      ¬ m.ReadyUsable ordersEnv) ∧
    ∃ m, Runs (Manager.step ordersEnv) (fun _ _ => True) {}
        (ordersServed "89abcdef0123456789abcdef0123456789abcdef") m ∧
      ¬ m.ReadyUsable ordersEnv := by
  have unusable : ∀ {m : Manager}, (m.records.get? "snap_0").any (fun record =>
      decide ((m.refresh ordersEnv record).record.state = .ready) &&
        !(openEntries m.cache record).isOk) = true → ¬ m.ReadyUsable ordersEnv := by
    intro m checked usable
    obtain ⟨record, found, both⟩ := (Option.any_eq_true ..).mp checked
    obtain ⟨ready, failed⟩ := Bool.and_eq_true_iff.mp both
    obtain ⟨keys, opened⟩ := usable _ record found (of_decide_eq_true ready)
    rw [opened] at failed
    cases failed
  have evicted : (execute (Manager.step ordersEnv) (fun _ _ => True) {}
      (ordersServed ordersCommit ++ [.evict ordersCommitJob.key.entryDir])).any (fun m =>
        (m.records.get? "snap_0").any fun record =>
          decide ((m.refresh ordersEnv record).record.state = .ready) &&
            !(openEntries m.cache record).isOk) = true := by
    decide +kernel
  have peeled : (execute (Manager.step ordersEnv) (fun _ _ => True) {}
      (ordersServed "89abcdef0123456789abcdef0123456789abcdef")).any (fun m =>
        (m.records.get? "snap_0").any fun record =>
          decide ((m.refresh ordersEnv record).record.state = .ready) &&
            !(openEntries m.cache record).isOk) = true := by
    decide +kernel
  obtain ⟨m, done, checked⟩ := (Option.any_eq_true ..).mp evicted
  obtain ⟨m', done', checked'⟩ := (Option.any_eq_true ..).mp peeled
  exact ⟨⟨m, runs_of_execute done, unusable checked⟩,
    ⟨m', runs_of_execute done', unusable checked'⟩⟩

end Lain.Snapshots
