import Lain.Foundation.Text
import Lain.Graph.Database
import Lain.Snapshots.IndexCache
import Lain.Snapshots.Jobs

/-!
# Snapshot records

A record names a commit for each repository of a snapshot.
-/

namespace Lain.Snapshots

open Foundation Lain.Graph

/-- The states a snapshot walks through. -/
inductive SnapshotState where
  | pending
  | indexing
  | ready
  | failed
deriving DecidableEq

/-- The state of one repository of a snapshot. -/
inductive RepoSnapshotState where
  | cached (commit : String)
  | queued (commit : String)
  | indexing (commit : String)
  | failed (commit : String) (error : String)
  | excluded
deriving DecidableEq

def RepoSnapshotState.isFailed : RepoSnapshotState → Bool
  | .failed _ _ => true
  | _ => false

def RepoSnapshotState.isCached : RepoSnapshotState → Bool
  | .cached _ => true
  | _ => false

theorem RepoSnapshotState.not_isCached_of_isFailed {state : RepoSnapshotState}
    (failed : state.isFailed = true) : state.isCached = false := by
  cases state <;> first | rfl | cases failed

/-- A snapshot: the commit of each repository, the repositories left out, the references as the
caller gave them, and the state. -/
structure SnapshotRecord where
  id : String
  repos : SortedMap String String
  excluded : List String
  refs : SortedMap String String
  configHash : String
  analyzerVersion : String
  state : SnapshotState
  repoStates : SortedMap String RepoSnapshotState
deriving DecidableEq

/-- The key under which the commit of a repository is cached. -/
def SnapshotRecord.key (record : SnapshotRecord) (repo commit : String) : CacheKey :=
  ⟨repo, commit, record.analyzerVersion⟩

/-! ### Finding an entry -/

def isHexDigit (c : Char) : Bool :=
  c.isDigit || (decide ('a' ≤ c) && decide (c ≤ 'f')) || (decide ('A' ≤ c) && decide (c ≤ 'F'))

/-- Forty hexadecimal digits. -/
def looksLikeFullSha (s : String) : Bool :=
  decide (s.toList.length = 40) && s.toList.all isHexDigit

/-- The entries of a repository by the sha in their directory name, with the time of their last
use; a full sha as the hint admits no other. -/
def CacheDisk.candidates (disk : CacheDisk) (repo analyzerVersion refHint : String) :
    List (String × Int) :=
  disk.entries.entries.filterMap fun listed =>
    if (ofLex listed.1).1 = repo then
      match Text.stripSuffix (ofLex listed.1).2 ("-" ++ analyzerVersion) with
      | none => none
      | some sha =>
        match disk.entries.get? (CacheKey.mk repo sha analyzerVersion).entryDir with
        | none => none
        | some entry =>
          if looksLikeFullSha refHint && decide (sha ≠ refHint) then none
          else some (sha, entry.manifest.lastUsedUnix)
    else none

/-- The most recently used entry of a repository that the hint admits. -/
def CacheDisk.discover (disk : CacheDisk) (repo analyzerVersion refHint : String) :
    Option CacheKey :=
  (((disk.candidates repo analyzerVersion refHint).insertionSort fun a b => b.2 ≤ a.2).head?).map
    fun found => ⟨repo, found.1, analyzerVersion⟩

theorem CacheDisk.discover_fullSha {disk : CacheDisk} {repo analyzerVersion refHint : String}
    {found : CacheKey} (full : looksLikeFullSha refHint = true)
    (discovered : disk.discover repo analyzerVersion refHint = some found) :
    found.sha = refHint := by
  unfold discover at discovered
  obtain ⟨candidate, first, rfl⟩ := Option.map_eq_some_iff.mp discovered
  have member := (List.perm_insertionSort _ _).mem_iff.mp (List.mem_of_mem_head? first)
  unfold candidates at member
  obtain ⟨listed, _, accepted⟩ := List.mem_filterMap.mp member
  split at accepted
  · split at accepted
    · cases accepted
    · split at accepted
      · cases accepted
      · split at accepted
        · cases accepted
        next admitted =>
            cases accepted
            rw [full, Bool.true_and, decide_eq_true_eq] at admitted
            exact not_not.mp admitted
  · cases accepted

/-! ### Rolling a record up -/

/-- The job of a repository; a repository without a source has an empty one. -/
def jobSpec (sourceOf : String → Option String) (key : CacheKey) : JobSpec :=
  ⟨key.repo, key.sha, key.analyzerVersion, (sourceOf key.repo).getD ""⟩

def effectiveSha (cache : CacheDisk) (job : Option JobState) (key : CacheKey) : String :=
  match job with
  | some state => state.resolvedSha.getD key.sha
  | none =>
    match cache.discover key.repo key.analyzerVersion key.sha with
    | some found => found.sha
    | none => key.sha

def refreshRepo (sourceOf : String → Option String) (cache : CacheDisk) (runner : JobRunner)
    (key : CacheKey) : RepoSnapshotState :=
  let job := runner.lookup (jobSpec sourceOf key)
  let sha := effectiveSha cache job key
  if cache.hasEntry { key with sha } then .cached sha
  else
    match job with
    | none => .queued key.sha
    | some state =>
      match state.status with
      | .queued => .queued key.sha
      | .indexing => .indexing key.sha
      | .done _ => .cached sha
      | .failed error => .failed key.sha error

/-- The reference a failed job could not find, if that is why it failed. -/
def parseRefNotFound (error : String) : Option String :=
  (Text.stripPrefix error "snapshot job: ref \"").bind fun rest =>
    (Text.splitOnce rest "\"").map Prod.fst

/-- A record rolled up, and the references that were not found if nothing else failed. -/
structure RefreshOutcome where
  record : SnapshotRecord
  refNotFound : List (String × String)

def refreshedStates (sourceOf : String → Option String) (cache : CacheDisk) (runner : JobRunner)
    (record : SnapshotRecord) : List (String × RepoSnapshotState) :=
  record.repos.entries.map fun entry =>
    (entry.1, refreshRepo sourceOf cache runner (record.key entry.1 entry.2))

/-- Roll the states of the repositories up into the record. -/
def refreshRepoStates (sourceOf : String → Option String) (cache : CacheDisk) (runner : JobRunner)
    (record : SnapshotRecord) : RefreshOutcome :=
  let states := refreshedStates sourceOf cache runner record
  let repoStates := record.excluded.foldl (fun m repo => m.insertNew repo .excluded)
    (states.foldl (fun m entry => m.insert entry.1 entry.2) record.repoStates)
  let anyFailed := states.any fun entry => entry.2.isFailed
  let allCached := states.all fun entry => entry.2.isCached
  let refNotFound := states.filterMap fun entry =>
    match entry.2 with
    | .failed _ error => (parseRefNotFound error).map fun ref => (entry.1, ref)
    | _ => none
  let failures := repoStates.entries.countP fun entry => entry.2.isFailed
  let onlyRefNotFound := anyFailed && !refNotFound.isEmpty && decide (refNotFound.length = failures)
  { record :=
      { record with
        repoStates
        state := if anyFailed then .failed else if allCached then .ready else .indexing }
    refNotFound := if onlyRefNotFound then refNotFound else [] }

def openEntries (cache : CacheDisk) (record : SnapshotRecord) : Except LainError (List CacheKey) :=
  record.repos.entries.mapM fun entry =>
    if cache.hasEntry (record.key entry.1 entry.2) then .ok (record.key entry.1 entry.2)
    else
      .error (.notFound
        s!"snapshot {record.id}: cache entry missing for {entry.1}@{entry.2}")

theorem refreshRepoStates_ready {sourceOf : String → Option String} {cache : CacheDisk}
    {runner : JobRunner} {record : SnapshotRecord} :
    (refreshRepoStates sourceOf cache runner record).record.state = .ready ↔
      ∀ entry ∈ record.repos.entries,
        (refreshRepo sourceOf cache runner (record.key entry.1 entry.2)).isCached = true := by
  have allCached : ((refreshedStates sourceOf cache runner record).all fun entry =>
      entry.2.isCached) = true ↔ ∀ entry ∈ record.repos.entries,
        (refreshRepo sourceOf cache runner (record.key entry.1 entry.2)).isCached = true := by
    unfold refreshedStates
    rw [List.all_map, List.all_eq_true]
    rfl
  unfold refreshRepoStates
  simp only
  rw [← allCached]
  split
  next anyFailed =>
      refine iff_of_false nofun fun all => ?_
      obtain ⟨entry, member, failed⟩ := List.any_eq_true.mp anyFailed
      have cached := List.all_eq_true.mp all entry member
      rw [RepoSnapshotState.not_isCached_of_isFailed failed] at cached
      cases cached
  · split
    next all => exact iff_of_true rfl all
    next some => exact iff_of_false nofun some

theorem refreshRepoStates_indexing {sourceOf : String → Option String} {cache : CacheDisk}
    {runner : JobRunner} {record : SnapshotRecord}
    (unfailed : ∀ entry ∈ record.repos.entries,
      (refreshRepo sourceOf cache runner (record.key entry.1 entry.2)).isFailed = false)
    (uncached : ∃ entry ∈ record.repos.entries,
      (refreshRepo sourceOf cache runner (record.key entry.1 entry.2)).isCached = false) :
    (refreshRepoStates sourceOf cache runner record).record.state = .indexing := by
  have noneFailed : ¬ ((refreshedStates sourceOf cache runner record).any fun entry =>
      entry.2.isFailed) = true := by
    unfold refreshedStates
    rw [List.any_map, List.any_eq_true]
    rintro ⟨entry, member, failed⟩
    exact Bool.false_ne_true ((unfailed entry member).symm.trans failed)
  have notReady : (refreshRepoStates sourceOf cache runner record).record.state ≠ .ready := by
    intro ready
    obtain ⟨entry, member, missing⟩ := uncached
    have cached := refreshRepoStates_ready.mp ready entry member
    rw [missing] at cached
    cases cached
  unfold refreshRepoStates at notReady ⊢
  simp only at notReady ⊢
  rw [if_neg noneFailed] at notReady ⊢
  split at notReady
  · exact absurd rfl notReady
  next some => rw [if_neg some]

theorem openEntries_ok {cache : CacheDisk} {record : SnapshotRecord} :
    (∃ keys, openEntries cache record = .ok keys) ↔
      ∀ entry ∈ record.repos.entries, cache.hasEntry (record.key entry.1 entry.2) = true := by
  unfold openEntries
  induction record.repos.entries with
  | nil => exact iff_of_true ⟨[], rfl⟩ fun _ member => nomatch member
  | cons entry rest ih =>
    rw [List.mapM_cons, List.forall_mem_cons, ← ih]
    by_cases present : cache.hasEntry (record.key entry.1 entry.2) = true
    · rw [if_pos present]
      constructor
      · rintro ⟨keys, opened⟩
        refine ⟨present, ?_⟩
        cases later : rest.mapM fun entry =>
            if cache.hasEntry (record.key entry.1 entry.2) then
              Except.ok (record.key entry.1 entry.2)
            else
              .error (LainError.notFound
                s!"snapshot {record.id}: cache entry missing for {entry.1}@{entry.2}") with
        | ok keys => exact ⟨keys, rfl⟩
        | error reason =>
          rw [later] at opened
          cases opened
      · rintro ⟨_, keys, opened⟩
        exact ⟨_, by rw [opened]; rfl⟩
    · rw [if_neg present]
      exact iff_of_false (fun ⟨_, opened⟩ => nomatch opened) fun both => present both.1

end Lain.Snapshots
