import Mathlib
import Lain.Snapshots.Readiness
import Lain.Foundation.StableSort

/-!
# The input of a snapshot

A request names commits, repositories to leave out and perhaps a stored snapshot to start from.
-/

namespace Lain.Snapshots

open Foundation

variable {J : Type}

/-! ### Requests and stored records -/

structure StoredRecord (J : Type) extends SnapshotRecord where
  joinConfig : J
  lastAccessUnix : Int

abbrev RecordFiles (J : Type) := SortedMap String (Except String (StoredRecord J))

/-- A request for a snapshot, with the current configuration and its digest. -/
structure PrepareRequest (J : Type) where
  repos : SortedMap String String
  refs : SortedMap String String
  excluded : List String
  fromId : Option String
  maxBaseAgeS : Option Nat
  joinConfig : J
  configHash : String

/-- What a request is resolved with: the clock, the mirrors and the reader of configurations. -/
structure PrepareEnv (J : Type) extends SnapshotEnv where
  now : Int
  resolveRepoRef : String → String → String → Except PrepareError String
  parseJoinConfig : J → Except PrepareError Unit

/-- The repositories and exclusions of a request before its references are resolved. -/
structure Candidates (J : Type) where
  repos : SortedMap String String
  excluded : List String
  joinConfig : J
  configHash : String

/-! ### Resolving a request -/

def overrideRepos (repos overrides : SortedMap String String) : SortedMap String String :=
  overrides.entries.foldl (fun m entry => m.insert entry.1 entry.2) repos

def inheritRepos (repos inherited : SortedMap String String) : SortedMap String String :=
  inherited.entries.foldl (fun m entry => m.insertNew entry.1 entry.2) repos

def mergeExcluded (base excluded : List String) : List String :=
  sortByKey id (excluded.foldl (fun out e => if e ∈ out then out else out ++ [e]) base)

def saturatingSub (a b : Int) : Int :=
  max (-2 ^ 63) (min (2 ^ 63 - 1) (a - b))

def newerBase (best : Option (Int × SortedMap String String))
    (candidate : Int × SortedMap String String) : Option (Int × SortedMap String String) :=
  match best with
  | none => some candidate
  | some prev => if prev.1 < candidate.1 then some candidate else some prev

def StoredRecord.qualifies (record : StoredRecord J) (analyzerVersion configHash : String)
    (cutoff : Int) : Bool :=
  decide (record.state = .ready) && decide (record.configHash = configHash) &&
    decide (record.analyzerVersion = analyzerVersion) && record.excluded.isEmpty &&
    !decide (record.lastAccessUnix < cutoff)

/-- The repositories of a request with those of the newest record that qualifies. -/
def applyMaxBaseAge (env : PrepareEnv J) (files : RecordFiles J) (repos : SortedMap String String)
    (maxAge : Option Nat) (configHash : String) : SortedMap String String :=
  match maxAge with
  | none => repos
  | some age =>
    let cutoff := saturatingSub env.now ((age : Int).bmod (2 ^ 64))
    let best := files.entries.foldl (fun best file =>
      match file.2 with
      | .error _ => best
      | .ok record =>
        if record.qualifies env.analyzerVersion configHash cutoff then
          newerBase best (record.lastAccessUnix, record.repos)
        else best) none
    match best with
    | none => repos
    | some (_, inherited) => inheritRepos repos inherited

/-- What a request asks for, by itself or over its base. -/
def PrepareRequest.candidates (req : PrepareRequest J) (env : PrepareEnv J)
    (files : RecordFiles J) : Except PrepareError (Candidates J) :=
  match req.fromId with
  | some fromId =>
    match files.get? fromId with
    | some (.error reason) => .error (.other reason)
    | none => .error (.snapshotNotFound fromId)
    | some (.ok base) => .ok
        { repos := overrideRepos base.repos req.repos
          excluded := mergeExcluded base.excluded req.excluded
          joinConfig := base.joinConfig
          configHash := base.configHash }
  | none =>
    if req.maxBaseAgeS.isSome then
      .error (.invalidArgument "max_base_age_s is only valid without `from`")
    else .ok
      { repos := applyMaxBaseAge env files req.repos req.maxBaseAgeS req.configHash
        excluded := req.excluded
        joinConfig := req.joinConfig
        configHash := req.configHash }

def resolveRefs (env : PrepareEnv J) :
    List (String × String) → SortedMap String String → SortedMap String String →
      Except PrepareError (SortedMap String String × SortedMap String String)
  | [], resolved, displayRefs => .ok (resolved, displayRefs)
  | (repo, ref) :: later, resolved, displayRefs =>
    match env.sourceOf repo with
    | none => .error (.repoNotRegistered repo)
    | some source =>
      match env.resolveRepoRef repo ref source with
      | .error reason => .error reason
      | .ok sha => resolveRefs env later (resolved.insert repo sha)
          (displayRefs.insertNew repo ref)

/-- The input a request comes to. -/
def PrepareRequest.resolve (req : PrepareRequest J) (env : PrepareEnv J) (files : RecordFiles J) :
    Except PrepareError SnapshotInput := do
  let candidates ← req.candidates env files
  let (repos, refs) ← resolveRefs env candidates.repos.entries ∅ req.refs
  env.parseJoinConfig candidates.joinConfig
  return { repos, excluded := candidates.excluded, refs, configHash := candidates.configHash }

/-! ### What the maps hold -/

theorem isSome_overrideRepos {repos overrides : SortedMap String String} {repo : String} :
    ((overrideRepos repos overrides).get? repo).isSome ↔
      (repos.get? repo).isSome ∨ (overrides.get? repo).isSome := by
  rw [← SortedMap.mem_keys (m := overrides)]
  unfold overrideRepos SortedMap.keys
  induction overrides.entries generalizing repos with
  | nil => simp
  | cons entry later ih =>
    rw [List.foldl_cons, ih, SortedMap.get?_insert, List.map_cons, List.mem_cons]
    by_cases here : repo = entry.1
    · simp [here]
    · simp [here]

theorem mem_mergeExcluded {base excluded : List String} {repo : String} :
    repo ∈ mergeExcluded base excluded ↔ repo ∈ base ∨ repo ∈ excluded := by
  unfold mergeExcluded
  rw [(perm_sortByKey id _).mem_iff]
  induction excluded generalizing base with
  | nil => simp
  | cons e later ih =>
    rw [List.foldl_cons, ih, List.mem_cons]
    split
    next inside =>
        constructor
        · rintro (old | new)
          · exact Or.inl old
          · exact Or.inr (Or.inr new)
        · rintro (old | rfl | new)
          · exact Or.inl old
          · exact Or.inl inside
          · exact Or.inr new
    · rw [List.mem_append, List.mem_singleton, or_assoc]

theorem isSome_resolveRefs {env : PrepareEnv J} {repo : String} (entries : List (String × String)) :
    ∀ {resolved displayRefs out refs}, resolveRefs env entries resolved displayRefs = .ok (out, refs) →
      ((out.get? repo).isSome ↔ (resolved.get? repo).isSome ∨ repo ∈ entries.map Prod.fst) := by
  induction entries with
  | nil =>
    intro resolved displayRefs out refs done
    obtain ⟨rfl, -⟩ := Prod.mk.inj (Except.ok.inj done)
    simp
  | cons entry later ih =>
    obtain ⟨name, ref⟩ := entry
    intro resolved displayRefs out refs done
    rw [resolveRefs] at done
    split at done
    · cases done
    · split at done
      · cases done
      · rw [ih done, SortedMap.get?_insert, List.map_cons, List.mem_cons]
        by_cases here : repo = name
        · simp [here]
        · simp [here]

/-! ### Exclusions -/

/-- **Excluded repositories stay out** of the snapshot of a request, but for those the request
names; and what a direct request does not name comes from a ready record of the same configuration,
analyzer and exclusions. -/
structure ExcludedStayOut (env : PrepareEnv J) (files : RecordFiles J) (req : PrepareRequest J)
    (record : SnapshotRecord) : Prop where
  excluded : ∀ repo ∈ record.excluded, (record.repos.get? repo).isSome →
    (req.repos.get? repo).isSome
  inherited : req.fromId = none → ∀ repo, (record.repos.get? repo).isSome →
    (req.repos.get? repo).isSome ∨
      ∃ file ∈ files.entries, ∃ base : StoredRecord J, file.2 = .ok base ∧
        base.state = .ready ∧ base.configHash = record.configHash ∧
        base.analyzerVersion = record.analyzerVersion ∧
        (∀ name, name ∈ base.excluded ↔ name ∈ req.excluded) ∧ (base.repos.get? repo).isSome

/-- The request names every repository of its base that the base or the request excludes. -/
def NamesExcluded (files : RecordFiles J) (req : PrepareRequest J) : Prop :=
  ∀ fromId ∈ req.fromId, ∀ base, files.get? fromId = some (.ok base) →
    ∀ repo, repo ∈ base.excluded ∨ repo ∈ req.excluded → (base.repos.get? repo).isSome →
      (req.repos.get? repo).isSome

section

variable {env : PrepareEnv J} {files : RecordFiles J} {req : PrepareRequest J}
  {input : SnapshotInput}

theorem PrepareRequest.exists_candidates (resolved : req.resolve env files = .ok input) :
    ∃ candidates, req.candidates env files = .ok candidates ∧
      input.excluded = candidates.excluded ∧
      ∀ repo, (input.repos.get? repo).isSome ↔ (candidates.repos.get? repo).isSome := by
  unfold PrepareRequest.resolve at resolved
  cases asked : req.candidates env files with
  | error reason =>
    rw [asked] at resolved
    cases resolved
  | ok candidates =>
    rw [asked] at resolved
    cases refs : resolveRefs env candidates.repos.entries ∅ req.refs with
    | error reason =>
      simp only [bind, Except.bind, refs] at resolved
      cases resolved
    | ok out =>
      simp only [bind, Except.bind, refs] at resolved
      cases parsed : env.parseJoinConfig candidates.joinConfig with
      | error reason =>
        rw [parsed] at resolved
        cases resolved
      | ok _ =>
        rw [parsed] at resolved
        obtain rfl := Except.ok.inj resolved
        refine ⟨candidates, rfl, rfl, fun repo => ?_⟩
        rw [isSome_resolveRefs _ refs, SortedMap.get?_empty, ← SortedMap.mem_keys]
        simp [SortedMap.keys]

/-- **When exclusions stay out**: exactly when the request names whatever its base has and one of
the two excludes. -/
theorem excludedStayOut_iff (resolved : req.resolve env files = .ok input) :
    ExcludedStayOut env files req (input.pendingRecord env.toSnapshotEnv) ↔
      NamesExcluded files req := by
  obtain ⟨candidates, asked, excluded, repos⟩ := PrepareRequest.exists_candidates resolved
  have record : ∀ repo,
      ((input.pendingRecord env.toSnapshotEnv).repos.get? repo).isSome ↔
        (candidates.repos.get? repo).isSome := repos
  unfold PrepareRequest.candidates at asked
  cases origin : req.fromId with
  | none =>
    rw [origin] at asked
    dsimp only at asked
    split at asked
    · cases asked
    next ageless =>
        obtain rfl := Except.ok.inj asked
        have named : ∀ repo, ((input.pendingRecord env.toSnapshotEnv).repos.get? repo).isSome →
            (req.repos.get? repo).isSome := by
          intro repo present
          rw [record, Option.not_isSome_iff_eq_none.mp ageless] at present
          exact present
        refine iff_of_true ⟨fun repo _ => named repo, fun _ repo present => ?_⟩ ?_
        · exact Or.inl (named repo present)
        · intro fromId given
          rw [origin] at given
          cases given
  | some fromId =>
    rw [origin] at asked
    dsimp only at asked
    split at asked
    · cases asked
    · cases asked
    next base stored =>
        obtain rfl := Except.ok.inj asked
        have out : ∀ repo, repo ∈ (input.pendingRecord env.toSnapshotEnv).excluded ↔
            repo ∈ base.excluded ∨ repo ∈ req.excluded := by
          intro repo
          change repo ∈ input.excluded ↔ _
          rw [excluded, mem_mergeExcluded]
        constructor
        · intro stay given same other found repo excepted present
          rw [origin] at same
          obtain rfl := Option.some.inj same
          obtain rfl := Except.ok.inj (Option.some.inj (found.symm.trans stored))
          exact stay.excluded repo ((out repo).mpr excepted)
            ((record repo).mpr (isSome_overrideRepos.mpr (Or.inl present)))
        · intro names
          refine ⟨fun repo excepted present => ?_, fun direct => ?_⟩
          · rcases isSome_overrideRepos.mp ((record repo).mp present) with inBase | named
            · exact names fromId origin base stored repo ((out repo).mp excepted) inBase
            · exact named
          · rw [origin] at direct
            cases direct

end

/-! ### A derived snapshot -/

def shopBase : StoredRecord Unit where
  id := "snap_base"
  repos := ((∅ : SortedMap String String).insert "orders" "1f").insert "payments" "2e"
  excluded := []
  refs := ∅
  configHash := "h"
  analyzerVersion := "0.9.0+c1"
  state := .ready
  repoStates := ∅
  joinConfig := ()
  lastAccessUnix := 0

def shopFiles : RecordFiles Unit :=
  (∅ : RecordFiles Unit).insert "snap_base" (.ok shopBase)

def shopEnv : PrepareEnv Unit where
  sourceOf := some
  analyzerVersion := "0.9.0+c1"
  snapshotIdFor := fun input => "snap_" ++ ",".intercalate input.excluded
  now := 0
  resolveRepoRef := fun _ ref _ => .ok ref
  parseJoinConfig := fun _ => .ok ()

/-- A request that derives from the snapshot and leaves one repository out. -/
def withoutRepo (repo : String) : PrepareRequest Unit where
  repos := ∅
  refs := ∅
  excluded := [repo]
  fromId := some "snap_base"
  maxBaseAgeS := none
  joinConfig := ()
  configHash := "h"

/-- What such a request comes to. -/
def withoutRepoInput (repo : String) : SnapshotInput where
  repos := shopBase.repos
  excluded := [repo]
  refs := shopBase.repos
  configHash := "h"

theorem excludedStayOut_reports :
    (withoutRepo "reports").resolve shopEnv shopFiles = .ok (withoutRepoInput "reports") ∧
      (ExcludedStayOut shopEnv shopFiles (withoutRepo "reports")
          ((withoutRepoInput "reports").pendingRecord shopEnv.toSnapshotEnv) ↔
        NamesExcluded shopFiles (withoutRepo "reports")) :=
  ⟨by decide +kernel, excludedStayOut_iff (by decide +kernel)⟩

/-- A repository of the base that the derived request excludes stays in the snapshot. -/
theorem excludedStayOut_fails : ¬ ∀ (env : PrepareEnv Unit) files req input,
    req.resolve env files = .ok input →
      ExcludedStayOut env files req (input.pendingRecord env.toSnapshotEnv) := by
  intro always
  have stay := always shopEnv shopFiles (withoutRepo "payments") (withoutRepoInput "payments")
    (by decide +kernel)
  have named := stay.excluded "payments" (by decide +kernel) (by decide +kernel)
  cases named

end Lain.Snapshots
