import Lain.Foundation.Runs
import Lain.Foundation.SortedMap

/-!
# The job runner and its workers

Indexing jobs are filed under their specification, and filing the same one twice yields the
one job.
-/

namespace Lain.Snapshots

open Foundation

/-- What a single indexing job needs to run. -/
structure JobSpec where
  repo : String
  sha : String
  analyzerVersion : String
  source : String
deriving Repr

def JobSpec.code (spec : JobSpec) : String ×ₗ String ×ₗ String ×ₗ String :=
  toLex (spec.repo, toLex (spec.sha, toLex (spec.analyzerVersion, spec.source)))

theorem JobSpec.code_injective : Function.Injective JobSpec.code := by
  rintro ⟨_, _, _, _⟩ ⟨_, _, _, _⟩ same
  cases same
  rfl

instance : LinearOrder JobSpec := LinearOrder.lift' JobSpec.code JobSpec.code_injective

/-- What a successful job wrote: the size of the graph and the files indexed. -/
structure JobOutcome where
  bytes : Nat
  files : List String
deriving DecidableEq, Repr

/-- The state of a single job in the runner. -/
inductive JobStatus where
  | queued
  | indexing
  | done (outcome : JobOutcome)
  | failed (error : String)
deriving DecidableEq, Repr

/-- A job. Its resolved sha is published once the worker has resolved the reference. -/
structure JobState where
  status : JobStatus := .queued
  resolvedSha : Option String := none
deriving DecidableEq

/-- The runner: every job of the process, under its specification. -/
structure JobRunner where
  byKey : SortedMap JobSpec JobState := ∅
deriving DecidableEq

namespace JobRunner

/-- File a job, unless it is filed already; the flag says whether it is new. -/
def submit (runner : JobRunner) (spec : JobSpec) : JobRunner × Bool :=
  match runner.byKey.get? spec with
  | some _ => (runner, false)
  | none => (⟨runner.byKey.insert spec {}⟩, true)

/-- Look up a job. -/
def lookup (runner : JobRunner) (spec : JobSpec) : Option JobState :=
  runner.byKey.get? spec

/-- The number of jobs in the runner, whatever their state. -/
def totalJobs (runner : JobRunner) : Nat :=
  runner.byKey.entries.length

def modify (runner : JobRunner) (spec : JobSpec) (change : JobState → JobState) : JobRunner :=
  match runner.byKey.get? spec with
  | some state => ⟨runner.byKey.insert spec (change state)⟩
  | none => runner

/-- Mark a job as being indexed. -/
def markIndexing (runner : JobRunner) (spec : JobSpec) : JobRunner :=
  runner.modify spec fun state => { state with status := .indexing }

/-- Mark a job as done. -/
def markDone (runner : JobRunner) (spec : JobSpec) (outcome : JobOutcome) : JobRunner :=
  runner.modify spec fun state => { state with status := .done outcome }

/-- Mark a job as failed. -/
def markFailed (runner : JobRunner) (spec : JobSpec) (error : String) : JobRunner :=
  runner.modify spec fun state => { state with status := .failed error }

def publishSha (runner : JobRunner) (spec : JobSpec) (sha : String) : JobRunner :=
  runner.modify spec fun state => { state with resolvedSha := some sha }

/-- Show the result of a run. -/
def report (runner : JobRunner) (spec : JobSpec) : Except String JobOutcome → JobRunner
  | .ok outcome => runner.markDone spec outcome
  | .error error => runner.markFailed spec error

def nextQueued (runner : JobRunner) : Option JobSpec :=
  (runner.byKey.entries.find? fun entry => decide (entry.2.status = .queued)).map Prod.fst

def status? (runner : JobRunner) (spec : JobSpec) : Option JobStatus :=
  (runner.lookup spec).map JobState.status

variable {runner : JobRunner} {spec other : JobSpec}

theorem lookup_submit (runner : JobRunner) (spec other : JobSpec) :
    (runner.submit spec).1.lookup other =
      if other = spec then some ((runner.lookup spec).getD {}) else runner.lookup other := by
  unfold submit lookup
  split
  next state found =>
      split
      next same => rw [same, found, Option.getD_some]
      · rfl
  next missing => rw [SortedMap.get?_insert, missing, Option.getD_none]

theorem lookup_modify (runner : JobRunner) (spec other : JobSpec)
    (change : JobState → JobState) :
    (runner.modify spec change).lookup other =
      if other = spec then (runner.lookup spec).map change else runner.lookup other := by
  unfold modify lookup
  split
  next state found => rw [SortedMap.get?_insert, found, Option.map_some]
  next missing =>
      rw [missing, Option.map_none]
      split
      next same => rw [same, missing]
      · rfl

theorem status?_submit (runner : JobRunner) (spec other : JobSpec) :
    (runner.submit spec).1.status? other =
      if other = spec then some ((runner.status? spec).getD .queued)
      else runner.status? other := by
  unfold status?
  rw [lookup_submit]
  split
  · cases runner.lookup spec <;> rfl
  · rfl

theorem status?_markIndexing (runner : JobRunner) (spec other : JobSpec) :
    (runner.markIndexing spec).status? other =
      if other = spec then (runner.status? spec).map fun _ => .indexing
      else runner.status? other := by
  unfold status? markIndexing
  rw [lookup_modify]
  split
  · rw [Option.map_map, Option.map_map]
    rfl
  · rfl

theorem status?_report (runner : JobRunner) (spec other : JobSpec)
    (result : Except String JobOutcome) :
    (runner.report spec result).status? other =
      if other = spec then
        (runner.status? spec).map fun _ =>
          match result with
          | .ok outcome => .done outcome
          | .error error => .failed error
      else runner.status? other := by
  unfold status?
  cases result with
  | ok outcome =>
    unfold report markDone
    rw [lookup_modify]
    split
    · rw [Option.map_map, Option.map_map]
      rfl
    · rfl
  | error error =>
    unfold report markFailed
    rw [lookup_modify]
    split
    · rw [Option.map_map, Option.map_map]
      rfl
    · rfl

theorem status?_publishSha (runner : JobRunner) (spec other : JobSpec) (sha : String) :
    (runner.publishSha spec sha).status? other = runner.status? other := by
  unfold status? publishSha
  rw [lookup_modify]
  split
  next same =>
      rw [Option.map_map, same]
      rfl
  · rfl

theorem status?_nextQueued (found : runner.nextQueued = some spec) :
    runner.status? spec = some .queued := by
  unfold nextQueued at found
  obtain ⟨⟨key, state⟩, first, rfl⟩ := Option.map_eq_some_iff.mp found
  have member := SortedMap.mem_entries.mp (List.mem_of_find?_eq_some first)
  have queued := List.find?_some first
  unfold status? lookup
  rw [member, Option.map_some]
  exact congrArg some (of_decide_eq_true queued)

theorem exists_nextQueued (queued : runner.status? spec = some .queued) :
    ∃ job, runner.nextQueued = some job := by
  obtain ⟨state, found, isQueued⟩ := Option.map_eq_some_iff.mp queued
  have member := SortedMap.mem_entries.mpr found
  unfold nextQueued
  cases first : runner.byKey.entries.find? fun entry => decide (entry.2.status = .queued) with
  | some entry => exact ⟨entry.1, rfl⟩
  | none => exact absurd (decide_eq_true isQueued) (List.find?_eq_none.mp first _ member)

/-! ### Runners that have only gained queued jobs -/

def Grown (runner runner' : JobRunner) : Prop :=
  ∀ spec, runner'.lookup spec = runner.lookup spec ∨
    runner.lookup spec = none ∧ runner'.lookup spec = some {}

theorem Grown.refl (runner : JobRunner) : runner.Grown runner := fun _ => Or.inl rfl

theorem Grown.trans {runner' runner'' : JobRunner} (first : runner.Grown runner')
    (second : runner'.Grown runner'') : runner.Grown runner'' := by
  intro spec
  rcases second spec with same | ⟨missing, new⟩
  · rw [same]
    exact first spec
  · rcases first spec with same | ⟨_, present⟩
    · exact Or.inr ⟨same ▸ missing, new⟩
    · rw [present] at missing
      cases missing

theorem grown_submit (runner : JobRunner) (spec : JobSpec) :
    runner.Grown (runner.submit spec).1 := by
  intro other
  rw [lookup_submit]
  split
  next same =>
      subst same
      cases found : runner.lookup other with
      | none => exact Or.inr ⟨rfl, rfl⟩
      | some state => exact Or.inl rfl
  · exact Or.inl rfl

theorem grown_foldl {α : Type} {f : JobRunner → α → JobRunner}
    (grows : ∀ (runner : JobRunner) (a : α), runner.Grown (f runner a)) (as : List α) (runner : JobRunner) :
    runner.Grown (as.foldl f runner) := by
  induction as generalizing runner with
  | nil => exact Grown.refl runner
  | cons a rest ih => exact (grows runner a).trans (ih (f runner a))

theorem Grown.status? {runner' : JobRunner} {status : JobStatus} (grown : runner.Grown runner')
    (shown : runner.status? spec = some status) : runner'.status? spec = some status := by
  unfold JobRunner.status? at shown ⊢
  rcases grown spec with same | ⟨missing, _⟩
  · rw [same, shown]
  · rw [missing] at shown
    cases shown

theorem Grown.status?_of_ne {runner' : JobRunner} {status : JobStatus}
    (grown : runner.Grown runner') (shown : runner'.status? spec = some status)
    (past : status ≠ .queued) : runner.status? spec = some status := by
  unfold JobRunner.status? at shown ⊢
  rcases grown spec with same | ⟨_, new⟩
  · rw [← same, shown]
  · rw [new] at shown
    exact absurd (Option.some.inj shown).symm past

theorem Grown.resolvedSha {runner' : JobRunner} {state : JobState} {sha : String}
    (grown : runner.Grown runner') (found : runner'.lookup spec = some state)
    (published : state.resolvedSha = some sha) : runner.lookup spec = some state := by
  rcases grown spec with same | ⟨_, new⟩
  · rw [← same, found]
  · rw [new] at found
    cases found
    cases published

end JobRunner

end Lain.Snapshots
