import Mathlib
import Lain.Federation.ConfigFiles
import Lain.Foundation.SortedMap

/-!
# Hot reload

A live federation serves repositories, each from the source it was added with.
-/

namespace Lain.Server

open Foundation Contracts Federation

/-- What the two files hold: `repos.yaml`, and `workspaces.yaml` where there is one. -/
structure ConfigFiles where
  repos : Except String ReposYaml
  workspaces : Option (Except String WorkspacesFile) := none

/-- A federation server as far as a reload is concerned. -/
structure LiveServer where
  repos : SortedMap String SourceConfig := ∅
  scope : Option String := none
  workspaces : Option WorkspacesFile := none
  contract : Option ContractFederationConfig := none
  deriving DecidableEq

/-- What the code around the files answers: the rules of the contract configuration, whether the
source of a repository can be fetched and opened, whether it can be projected, and whether the
backend can remove the nodes of an id. -/
structure ReloadEnv where
  rules : ContractRules
  loads : RepoConfig → Bool
  projects : RepoConfig → Bool
  removes : String → Bool

inductive AddFailure where
  | source | load | project
  deriving DecidableEq

inductive ReloadError where
  | config (reason : ConfigError)
  | noRepos
  | nothingLoaded
  | addRepo (id : String) (failure : AddFailure)
  | removeRepo (id : String)
  deriving DecidableEq

/-! ### Reload -/

def ConfigFiles.loadWorkspaces (files : ConfigFiles) :
    Except ConfigError (Option WorkspacesFile) :=
  match files.workspaces with
  | none => .ok none
  | some file => (WorkspacesFile.load file).map some

def scopedRepos (config : FederationConfig) (workspaces : Option WorkspacesFile)
    (scope : Option String) (missing : MissingMembers) : Except ConfigError (List RepoConfig) :=
  match scope with
  | none => .ok config.repos
  | some name => reposForWorkspace config.repos (workspaces.getD {}) name missing

def readFiles (env : ReloadEnv) (files : ConfigFiles) (scope : Option String) :
    Except ConfigError (FederationConfig × Option WorkspacesFile × List RepoConfig) := do
  let config ← FederationConfig.load env.rules files.repos
  let workspaces ← files.loadWorkspaces
  let inScope ← scopedRepos config workspaces scope .drop
  return (config, workspaces, inScope)

namespace LiveServer

def serve (live : LiveServer) (repo : RepoConfig) : LiveServer :=
  { live with repos := live.repos.insert repo.id repo.source }

/-- Add one repository: a failure before it is registered leaves everything as it was, one of its
projection leaves it registered. -/
def addRepo (env : ReloadEnv) (live : LiveServer) (repo : RepoConfig) :
    LiveServer × Except AddFailure Unit :=
  if !repo.builds then (live, .error .source)
  else if !env.loads repo then (live, .error .load)
  else if !env.projects repo then (live.serve repo, .error .project)
  else (live.serve repo, .ok ())

def addRepos (env : ReloadEnv) (prev : List String) (live : LiveServer) :
    List RepoConfig → LiveServer × Except ReloadError Unit
  | [] => (live, .ok ())
  | repo :: rest =>
    if repo.id ∈ prev then addRepos env prev live rest
    else
      match live.addRepo env repo with
      | (live, .error failure) => (live, .error (.addRepo repo.id failure))
      | (live, .ok ()) => addRepos env prev live rest

def removeRepos (env : ReloadEnv) (live : LiveServer) :
    List String → LiveServer × Except ReloadError Unit
  | [] => (live, .ok ())
  | id :: rest =>
    if !env.removes id then (live, .error (.removeRepo id))
    else removeRepos env { live with repos := live.repos.erase id } rest

def setContract (env : ReloadEnv) (live : LiveServer) (file : Except String ReposYaml) :
    LiveServer :=
  match file with
  | .error _ => live
  | .ok file =>
    match env.rules (loadContract file) (file.repos.map RepoConfig.id) with
    | .error _ => live
    | .ok () => { live with contract := some (loadContract file) }

/-- Replace the workspaces, in a server that was started with some. -/
def setWorkspace (live : LiveServer) (workspaces : Option WorkspacesFile) : LiveServer :=
  match workspaces with
  | none => live
  | some file => { live with workspaces := live.workspaces.map fun _ => file }

end LiveServer

def outOfScope (prev : List String) (inScope : List RepoConfig) : List String :=
  prev.filter fun id => id ∉ inScope.map RepoConfig.id

/-- One reload. -/
def runRebuild (env : ReloadEnv) (live : LiveServer) (files : ConfigFiles) :
    LiveServer × Except ReloadError Unit :=
  match readFiles env files live.scope with
  | .error reason => (live, .error (.config reason))
  | .ok (_, workspaces, inScope) =>
    match live.addRepos env live.repos.keys inScope with
    | (added, .error reason) => (added, .error reason)
    | (added, .ok ()) =>
      match added.removeRepos env (outOfScope live.repos.keys inScope) with
      | (removed, .error reason) => (removed, .error reason)
      | (removed, .ok ()) =>
        ((removed.setContract env files.repos).setWorkspace workspaces, .ok ())

/-! ### Fresh start -/

def registered (env : ReloadEnv) (scope : Option String) (picked : List RepoConfig) :
    Except ReloadError (List RepoConfig) :=
  match picked.find? fun r => !r.builds with
  | some repo => .error (.addRepo repo.id .source)
  | none =>
    match scope, picked.find? fun r => !env.loads r with
    | some _, some repo => .error (.addRepo repo.id .load)
    | _, _ => .ok (picked.filter env.loads)

/-- Start a server from the files. -/
def freshStart (env : ReloadEnv) (files : ConfigFiles) (scope : Option String) :
    Except ReloadError LiveServer :=
  match FederationConfig.load env.rules files.repos with
  | .error reason => .error (.config reason)
  | .ok config =>
    let workspaces := files.workspaces.bind fun file => (WorkspacesFile.load file).toOption
    let picked : Except ConfigError (List RepoConfig) :=
      match scope with
      | none => .ok config.repos
      | some _ => do
        let workspaces ← files.loadWorkspaces
        scopedRepos config workspaces scope .refuse
    match picked with
    | .error reason => .error (.config reason)
    | .ok picked =>
      if scope.isNone && picked.isEmpty then .error .noRepos
      else
        match registered env scope picked with
        | .error reason => .error reason
        | .ok loaded =>
          if scope.isNone && loaded.isEmpty then .error .nothingLoaded
          else
            match loaded.find? fun r => !env.projects r with
            | some repo => .error (.addRepo repo.id .project)
            | none =>
              .ok { loaded.foldl LiveServer.serve {} with
                scope
                workspaces
                contract := some config.contract }

end Lain.Server

/-!
## A reload against a fresh start

What a reload serves afterwards, looked up by id: nothing out of scope, and in scope what
was served already, else what is written.
-/

namespace Lain.Server

open Foundation Contracts Federation

variable {env : ReloadEnv} {live : LiveServer} {files : ConfigFiles}

structure SameServing (a b : LiveServer) : Prop where
  repos : ∀ id, a.repos.get? id = b.repos.get? id
  workspaces : a.workspaces.getD {} = b.workspaces.getD {}
  contract : a.contract = b.contract

def StillConfigured (env : ReloadEnv) (files : ConfigFiles) (scope : Option String) (id : String) :
    Prop :=
  ∀ config workspaces inScope, readFiles env files scope = .ok (config, workspaces, inScope) →
    id ∈ inScope.map RepoConfig.id

/-- **What a reload is for**: if it succeeds the server is the one a fresh start builds, and if
not it has removed nothing that was served and is still configured. -/
structure ReloadsLikeStart (env : ReloadEnv) (live : LiveServer) (files : ConfigFiles) : Prop where
  ok : (runRebuild env live files).2 = .ok () → ∀ cold,
    freshStart env files live.scope = .ok cold → SameServing (runRebuild env live files).1 cold
  error : ∀ reason, (runRebuild env live files).2 = .error reason → ∀ id ∈ live.repos.keys,
    StillConfigured env files live.scope id → id ∈ (runRebuild env live files).1.repos.keys

/-- What is served and in scope is written as it is served and can still be loaded; without a
workspaces file the server has no workspaces, and with one it was started with some or the file
has none. -/
structure KeptAsWritten (env : ReloadEnv) (live : LiveServer) (files : ConfigFiles) : Prop where
  sources : ∀ config workspaces inScope,
    readFiles env files live.scope = .ok (config, workspaces, inScope) →
    ∀ r ∈ inScope, ∀ source, live.repos.get? r.id = some source →
      source = r.source ∧ env.loads r = true
  absent : files.workspaces = none → live.workspaces.getD {} = {}
  present : ∀ file, files.workspaces = some (.ok file) → live.workspaces.isSome = true ∨ file = {}

/-! ### Lookups -/

/-- No two repositories of a list share an id. -/
def Distinct (repos : List RepoConfig) : Prop :=
  ∀ r ∈ repos, ∀ r' ∈ repos, r.id = r'.id → r = r'

theorem of_repoOf {repos : List RepoConfig} {id : String} {r : RepoConfig}
    (found : repoOf repos id = some r) : r ∈ repos ∧ r.id = id := by
  unfold repoOf at found
  exact ⟨List.mem_of_find?_eq_some found, by simpa using List.find?_some found⟩

theorem repoOf_eq_some {repos : List RepoConfig} (distinct : Distinct repos) {r : RepoConfig}
    (member : r ∈ repos) : repoOf repos r.id = some r := by
  cases found : repoOf repos r.id with
  | none => exact absurd (List.find?_eq_none.mp found r member) (by simp)
  | some r' =>
    obtain ⟨member', same⟩ := of_repoOf found
    rw [distinct r' member' r member same]

theorem repoOf_eq_none {repos : List RepoConfig} {id : String}
    (absent : id ∉ repos.map RepoConfig.id) : repoOf repos id = none := by
  refine List.find?_eq_none.mpr fun r member => ?_
  exact fun same => absent (List.mem_map.mpr ⟨r, member, of_decide_eq_true same⟩)

theorem named_of_repoOf {repos : List RepoConfig} {id : String} {r : RepoConfig}
    (found : repoOf repos id = some r) : id ∈ repos.map RepoConfig.id :=
  List.mem_map.mpr ⟨r, of_repoOf found⟩

theorem repoOf_ne_none {repos : List RepoConfig} {id : String}
    (named : id ∈ repos.map RepoConfig.id) : repoOf repos id ≠ none := by
  obtain ⟨r, member, rfl⟩ := List.mem_map.mp named
  exact fun absent => List.find?_eq_none.mp absent r member (decide_eq_true rfl)

theorem mem_outOfScope {prev : List String} {inScope : List RepoConfig} {id : String} :
    id ∈ outOfScope prev inScope ↔ id ∈ prev ∧ id ∉ inScope.map RepoConfig.id := by
  unfold outOfScope
  rw [List.mem_filter, decide_eq_true_eq]

theorem repoOf_filter {repos : List RepoConfig} (distinct : Distinct repos)
    (p : RepoConfig → Bool) (id : String) :
    repoOf (repos.filter p) id = (repoOf repos id).filter p := by
  by_cases listed : id ∈ repos.map RepoConfig.id
  · obtain ⟨r, member, rfl⟩ := List.mem_map.mp listed
    rw [repoOf_eq_some distinct member]
    by_cases kept : p r = true
    · rw [Option.filter_some_pos kept]
      refine repoOf_eq_some (fun a left b right => ?_) (List.mem_filter.mpr ⟨member, kept⟩)
      exact distinct a (List.mem_filter.mp left).1 b (List.mem_filter.mp right).1
    · rw [Option.filter_some_neg (Bool.not_eq_true _ ▸ kept)]
      refine repoOf_eq_none fun named => ?_
      obtain ⟨r', passed, same⟩ := List.mem_map.mp named
      obtain ⟨member', passed⟩ := List.mem_filter.mp passed
      rw [distinct r' member' r member same] at passed
      exact kept passed
  · have absent : id ∉ (repos.filter p).map RepoConfig.id := fun named => by
      obtain ⟨r, passed, same⟩ := List.mem_map.mp named
      exact listed (List.mem_map.mpr ⟨r, (List.mem_filter.mp passed).1, same⟩)
    rw [repoOf_eq_none listed, repoOf_eq_none absent]
    rfl

theorem get?_foldl_serve {repos : List RepoConfig} (distinct : Distinct repos) (live : LiveServer)
    (id : String) :
    (repos.foldl LiveServer.serve live).repos.get? id =
      ((repoOf repos id).map RepoConfig.source).or (live.repos.get? id) := by
  induction repos generalizing live with
  | nil => rfl
  | cons r rest ih =>
    have tail : Distinct rest := fun a left b right =>
      distinct a (List.mem_cons_of_mem _ left) b (List.mem_cons_of_mem _ right)
    have served : (live.serve r).repos.get? id =
        if id = r.id then some r.source else live.repos.get? id :=
      SortedMap.get?_insert live.repos r.id id r.source
    rw [List.foldl_cons, ih tail, served]
    by_cases same : id = r.id
    · subst same
      rw [if_pos rfl, repoOf_eq_some distinct List.mem_cons_self]
      cases found : repoOf rest r.id with
      | none => rfl
      | some r' =>
        obtain ⟨member, named⟩ := of_repoOf found
        rw [distinct r' (List.mem_cons_of_mem r member) r List.mem_cons_self named]
        rfl
    · have skip : repoOf (r :: rest) id = repoOf rest id :=
        List.find?_cons_of_neg (by simpa using Ne.symm same)
      rw [if_neg same, skip]

theorem mem_keys_foldl_serve {id : String} (served : id ∈ live.repos.keys)
    (repos : List RepoConfig) : id ∈ (repos.foldl LiveServer.serve live).repos.keys := by
  induction repos generalizing live with
  | nil => exact served
  | cons r rest ih =>
    refine ih (SortedMap.mem_keys.mpr ?_)
    unfold LiveServer.serve
    rw [SortedMap.get?_insert]
    split_ifs
    · rfl
    · exact SortedMap.mem_keys.mp served

structure SameRest (a b : LiveServer) : Prop where
  scope : a.scope = b.scope
  workspaces : a.workspaces = b.workspaces
  contract : a.contract = b.contract

theorem sameRest_foldl_serve (repos : List RepoConfig) (live : LiveServer) :
    SameRest (repos.foldl LiveServer.serve live) live := by
  induction repos generalizing live with
  | nil => exact ⟨rfl, rfl, rfl⟩
  | cons r rest ih => exact ⟨(ih _).scope, (ih _).workspaces, (ih _).contract⟩

/-! ### Additions and removals -/

def unserved (prev : List String) (repos : List RepoConfig) : List RepoConfig :=
  repos.filter fun r => r.id ∉ prev

theorem addRepos_eq {prev : List String} {repos : List RepoConfig} {live' : LiveServer}
    {result : Except ReloadError Unit}
    (added : live.addRepos env prev repos = (live', result)) :
    ∃ front, front <+: unserved prev repos ∧ live' = front.foldl LiveServer.serve live ∧
      (result = .ok () → front = unserved prev repos ∧ ∀ r ∈ front, env.loads r = true) := by
  induction repos generalizing live with
  | nil =>
    obtain ⟨rfl, rfl⟩ := Prod.mk.inj added
    exact ⟨[], List.prefix_refl _, rfl, fun _ => ⟨rfl, fun _ member => by cases member⟩⟩
  | cons r rest ih =>
    rw [LiveServer.addRepos] at added
    split_ifs at added with known
    · have skip : unserved prev (r :: rest) = unserved prev rest :=
        List.filter_cons_of_neg (by simpa using known)
      rw [skip]
      exact ih added
    · have first : unserved prev (r :: rest) = r :: unserved prev rest :=
        List.filter_cons_of_pos (by simpa using known)
      rw [first]
      unfold LiveServer.addRepo at added
      split_ifs at added with source load project
      · obtain ⟨rfl, rfl⟩ := Prod.mk.inj added
        exact ⟨[], List.nil_prefix, rfl, fun done => by cases done⟩
      · obtain ⟨rfl, rfl⟩ := Prod.mk.inj added
        exact ⟨[], List.nil_prefix, rfl, fun done => by cases done⟩
      · obtain ⟨rfl, rfl⟩ := Prod.mk.inj added
        exact ⟨[r], List.prefix_cons_inj r |>.mpr List.nil_prefix, rfl, fun done => by cases done⟩
      · obtain ⟨front, initial, rfl, done⟩ := ih added
        refine ⟨r :: front, (List.prefix_cons_inj r).mpr initial, rfl, fun succeeded => ?_⟩
        obtain ⟨whole, loaded⟩ := done succeeded
        rw [whole] at loaded ⊢
        exact ⟨rfl, List.forall_mem_cons.mpr ⟨by simpa using load, loaded⟩⟩

theorem removeRepos_get? {ids : List String} {live' : LiveServer} {result : Except ReloadError Unit}
    (removed : live.removeRepos env ids = (live', result)) :
    SameRest live' live ∧ ∃ front, front <+: ids ∧ (result = .ok () → front = ids) ∧
      ∀ id, live'.repos.get? id = if id ∈ front then none else live.repos.get? id := by
  induction ids generalizing live with
  | nil =>
    obtain ⟨rfl, rfl⟩ := Prod.mk.inj removed
    exact ⟨⟨rfl, rfl, rfl⟩, [], List.prefix_refl _, fun _ => rfl, fun id => by simp⟩
  | cons first rest ih =>
    rw [LiveServer.removeRepos] at removed
    split_ifs at removed with stuck
    · obtain ⟨rfl, rfl⟩ := Prod.mk.inj removed
      exact ⟨⟨rfl, rfl, rfl⟩, [], List.nil_prefix, (fun done => by cases done), fun id => by simp⟩
    · obtain ⟨same, front, initial, whole, lookup⟩ := ih removed
      refine ⟨⟨same.scope, same.workspaces, same.contract⟩, first :: front,
        (List.prefix_cons_inj first).mpr initial, fun done => by rw [whole done], fun id => ?_⟩
      rw [lookup id, SortedMap.get?_erase]
      by_cases here : id = first
      · subst here
        simp
      · simp [here]

/-! ### Both outcomes -/

theorem readFiles_eq_ok {scope : Option String} {config : FederationConfig}
    {workspaces : Option WorkspacesFile} {inScope : List RepoConfig}
    (read : readFiles env files scope = .ok (config, workspaces, inScope)) :
    FederationConfig.load env.rules files.repos = .ok config ∧
      files.loadWorkspaces = .ok workspaces ∧
      scopedRepos config workspaces scope .drop = .ok inScope := by
  unfold readFiles at read
  cases loaded : FederationConfig.load env.rules files.repos with
  | error reason =>
    rw [loaded] at read
    cases read
  | ok config' =>
    rw [loaded] at read
    cases named : files.loadWorkspaces with
    | error reason =>
      rw [named] at read
      cases read
    | ok workspaces' =>
      rw [named] at read
      change (scopedRepos config' workspaces' scope .drop >>= _) = _ at read
      cases picked : scopedRepos config' workspaces' scope .drop with
      | error reason =>
        rw [picked] at read
        cases read
      | ok picked' =>
        rw [picked] at read
        cases read
        exact ⟨rfl, rfl, picked⟩

theorem distinct_of_readFiles {scope : Option String} {config : FederationConfig}
    {workspaces : Option WorkspacesFile} {inScope : List RepoConfig}
    (read : readFiles env files scope = .ok (config, workspaces, inScope)) : Distinct inScope := by
  obtain ⟨loaded, -, picked⟩ := readFiles_eq_ok read
  obtain ⟨raw, -, rfl, nodup, -⟩ := FederationConfig.load_eq_ok loaded
  have listed : ∀ r ∈ inScope, r ∈ raw.repos := by
    cases scope with
    | none =>
      obtain rfl := Except.ok.inj picked
      exact fun r member => member
    | some name =>
      have members : reposForWorkspace raw.repos (workspaces.getD {}) name .drop = .ok inScope :=
        picked
      exact mem_of_reposForWorkspace members
  exact fun r left r' right same =>
    List.inj_on_of_nodup_map nodup (listed r left) (listed r' right) same

inductive Stages (env : ReloadEnv) (live : LiveServer) (files : ConfigFiles) :
    LiveServer × Except ReloadError Unit → Prop where
  | unread {reason} : readFiles env files live.scope = .error reason →
      Stages env live files (live, .error (.config reason))
  | unadded {config workspaces inScope added reason} :
      readFiles env files live.scope = .ok (config, workspaces, inScope) →
      live.addRepos env live.repos.keys inScope = (added, .error reason) →
      Stages env live files (added, .error reason)
  | unremoved {config workspaces inScope added removed reason} :
      readFiles env files live.scope = .ok (config, workspaces, inScope) →
      live.addRepos env live.repos.keys inScope = (added, .ok ()) →
      added.removeRepos env (outOfScope live.repos.keys inScope) = (removed, .error reason) →
      Stages env live files (removed, .error reason)
  | through {config workspaces inScope added removed} :
      readFiles env files live.scope = .ok (config, workspaces, inScope) →
      live.addRepos env live.repos.keys inScope = (added, .ok ()) →
      added.removeRepos env (outOfScope live.repos.keys inScope) = (removed, .ok ()) →
      Stages env live files
        ((removed.setContract env files.repos).setWorkspace workspaces, .ok ())

theorem stages (env : ReloadEnv) (live : LiveServer) (files : ConfigFiles) :
    Stages env live files (runRebuild env live files) := by
  unfold runRebuild
  cases read : readFiles env files live.scope with
  | error reason => exact .unread read
  | ok plan =>
    obtain ⟨config, workspaces, inScope⟩ := plan
    dsimp only
    rcases added : live.addRepos env live.repos.keys inScope with ⟨added', reason | done⟩
    · exact .unadded read added
    · dsimp only
      rcases removed : added'.removeRepos env (outOfScope live.repos.keys inScope) with
        ⟨removed', reason | done⟩
      · exact .unremoved read added removed
      · exact .through read added removed

theorem get?_added {inScope : List RepoConfig} (distinct : Distinct inScope) (id : String) :
    ((unserved live.repos.keys inScope).foldl LiveServer.serve live).repos.get? id =
      (live.repos.get? id).or ((repoOf inScope id).map RepoConfig.source) := by
  have fresh : Distinct (unserved live.repos.keys inScope) := fun a left b right =>
    distinct a (List.mem_filter.mp left).1 b (List.mem_filter.mp right).1
  rw [get?_foldl_serve fresh, unserved, repoOf_filter distinct]
  cases found : repoOf inScope id with
  | none => simp
  | some r =>
    obtain ⟨-, rfl⟩ := of_repoOf found
    cases served : live.repos.get? r.id with
    | none =>
      have unknown : r.id ∉ live.repos.keys := fun known => by
        rw [SortedMap.mem_keys, served] at known
        cases known
      rw [Option.filter_some_pos (by simpa using unknown)]
      rfl
    | some source =>
      have known : r.id ∈ live.repos.keys := by
        rw [SortedMap.mem_keys, served]
        rfl
      rw [Option.filter_some_neg (by simpa using known)]
      rfl

theorem runRebuild_ok (done : (runRebuild env live files).2 = .ok ()) :
    ∃ config workspaces inScope,
      readFiles env files live.scope = .ok (config, workspaces, inScope) ∧
      (∀ r ∈ unserved live.repos.keys inScope, env.loads r = true) ∧
      (∀ id, (runRebuild env live files).1.repos.get? id =
        (repoOf inScope id).bind fun r => (live.repos.get? id).or (some r.source)) ∧
      (runRebuild env live files).1.workspaces = (live.setWorkspace workspaces).workspaces ∧
      (runRebuild env live files).1.contract = some config.contract := by
  generalize outcome : runRebuild env live files = after at done ⊢
  obtain ⟨⟩ := outcome ▸ stages env live files
  case unread => cases done
  case unadded => cases done
  case unremoved => cases done
  case through config workspaces inScope added removed read adds removes =>
    obtain ⟨loaded, -, -⟩ := readFiles_eq_ok read
    obtain ⟨raw, file, rfl, -, kept⟩ := FederationConfig.load_eq_ok loaded
    have distinct := distinct_of_readFiles read
    obtain ⟨front, -, rfl, whole⟩ := addRepos_eq adds
    obtain ⟨rfl, load⟩ := whole rfl
    obtain ⟨same, gone, -, all, lookup⟩ := removeRepos_get? removes
    obtain rfl := all rfl
    have rest := sameRest_foldl_serve (unserved live.repos.keys inScope) live
    have contract : removed.setContract env files.repos =
        { removed with contract := some (loadContract raw) } := by
      rw [file]
      unfold LiveServer.setContract
      dsimp only
      rw [kept]
    refine ⟨_, workspaces, inScope, read, load, fun id => ?_, ?_, ?_⟩
    · have unchanged : ((removed.setContract env files.repos).setWorkspace workspaces).repos =
          removed.repos := by
        rw [contract]
        cases workspaces <;> rfl
      rw [unchanged, lookup id, get?_added distinct]
      cases found : repoOf inScope id with
      | some r => exact if_neg fun out => (mem_outOfScope.mp out).2 (named_of_repoOf found)
      | none =>
        split_ifs with out
        · rfl
        · rw [Option.map_none, Option.or_none, Option.bind_none]
          by_contra served
          exact out (mem_outOfScope.mpr
            ⟨SortedMap.mem_keys.mpr (Option.isSome_iff_ne_none.mpr served),
              fun named => repoOf_ne_none named found⟩)
    · rw [contract]
      have kept : removed.workspaces = live.workspaces := same.workspaces.trans rest.workspaces
      cases workspaces with
      | none => exact kept
      | some file => exact congrArg (Option.map fun _ => file) kept
    · rw [contract]
      cases workspaces <;> rfl

theorem runRebuild_error {reason : ReloadError}
    (failed : (runRebuild env live files).2 = .error reason) {id : String}
    (served : id ∈ live.repos.keys) (configured : StillConfigured env files live.scope id) :
    id ∈ (runRebuild env live files).1.repos.keys := by
  generalize outcome : runRebuild env live files = after at failed ⊢
  obtain ⟨⟩ := outcome ▸ stages env live files
  case unread => exact served
  case unadded adds =>
    obtain ⟨front, -, rfl, -⟩ := addRepos_eq adds
    exact mem_keys_foldl_serve served front
  case unremoved read adds removes =>
    obtain ⟨front, -, rfl, -⟩ := addRepos_eq adds
    obtain ⟨-, gone, initial, -, lookup⟩ := removeRepos_get? removes
    have stays : id ∉ gone := fun member =>
      (mem_outOfScope.mp (initial.subset member)).2 (configured _ _ _ read)
    rw [SortedMap.mem_keys, lookup id, if_neg stays, ← SortedMap.mem_keys]
    exact mem_keys_foldl_serve served front
  case through => cases failed

theorem registered_eq_ok {scope : Option String} {picked loaded : List RepoConfig}
    (all : registered env scope picked = .ok loaded) : loaded = picked.filter env.loads := by
  unfold registered at all
  cases built : picked.find? fun r => !r.builds with
  | some r =>
    rw [built] at all
    cases all
  | none =>
    rw [built] at all
    cases scope with
    | none => exact (Except.ok.inj all).symm
    | some name =>
      cases stuck : picked.find? fun r => !env.loads r with
      | some r =>
        rw [stuck] at all
        cases all
      | none =>
        rw [stuck] at all
        exact (Except.ok.inj all).symm

theorem freshStart_ok {scope : Option String} {config : FederationConfig}
    {workspaces : Option WorkspacesFile} {inScope : List RepoConfig} {cold : LiveServer}
    (read : readFiles env files scope = .ok (config, workspaces, inScope))
    (up : freshStart env files scope = .ok cold) :
    (∀ id, cold.repos.get? id =
      ((repoOf inScope id).filter env.loads).map RepoConfig.source) ∧
      cold.workspaces = workspaces ∧ cold.contract = some config.contract := by
  obtain ⟨loaded, named, members⟩ := readFiles_eq_ok read
  have slot : (files.workspaces.bind fun file => (WorkspacesFile.load file).toOption) =
      workspaces := by
    unfold ConfigFiles.loadWorkspaces at named
    cases written : files.workspaces with
    | none =>
      rw [written] at named
      exact Except.ok.inj named
    | some file =>
      rw [written] at named
      change (WorkspacesFile.load file).map some = _ at named
      rw [Option.bind_some]
      cases content : WorkspacesFile.load file with
      | error reason =>
        rw [content] at named
        cases named
      | ok ws =>
        rw [content] at named
        exact Except.ok.inj named
  unfold freshStart at up
  rw [loaded] at up
  dsimp only at up
  split at up
  next => cases up
  next picked found =>
    have same : picked = inScope := by
      cases scope with
      | none => exact (Except.ok.inj found).symm.trans (Except.ok.inj members)
      | some name =>
        rw [named] at found
        have refused : reposForWorkspace config.repos (workspaces.getD {}) name .refuse =
            .ok picked := found
        have dropped : reposForWorkspace config.repos (workspaces.getD {}) name .drop =
            .ok inScope := members
        rw [reposForWorkspace_drop refused] at dropped
        exact Except.ok.inj dropped
    subst same
    split_ifs at up
    split at up
    next => cases up
    next registered_all all =>
      obtain rfl := registered_eq_ok all
      split_ifs at up
      split at up
      next => cases up
      next =>
        obtain rfl := Except.ok.inj up
        have distinct := distinct_of_readFiles read
        have kept : Distinct (picked.filter env.loads) := fun a left b right =>
          distinct a (List.mem_filter.mp left).1 b (List.mem_filter.mp right).1
        refine ⟨fun id => ?_, slot, rfl⟩
        change ((picked.filter env.loads).foldl LiveServer.serve {}).repos.get? id = _
        rw [get?_foldl_serve kept, repoOf_filter distinct]
        exact Option.or_none

theorem eq_of_load {file : Except String WorkspacesFile} {ws : WorkspacesFile}
    (loaded : WorkspacesFile.load file = .ok ws) : file = .ok ws := by
  unfold WorkspacesFile.load at loaded
  cases file with
  | error reason => cases loaded
  | ok content =>
    dsimp only at loaded
    split at loaded
    · cases loaded
    · exact congrArg Except.ok (Except.ok.inj loaded)

theorem workspaces_iff {workspaces : Option WorkspacesFile}
    (named : files.loadWorkspaces = .ok workspaces) :
    (live.setWorkspace workspaces).workspaces.getD {} = workspaces.getD {} ↔
      (files.workspaces = none → live.workspaces.getD {} = {}) ∧
        ∀ file, files.workspaces = some (.ok file) → live.workspaces.isSome = true ∨ file = {} := by
  unfold ConfigFiles.loadWorkspaces at named
  cases written : files.workspaces with
  | none =>
    rw [written] at named
    obtain rfl := Except.ok.inj named
    exact ⟨fun same => ⟨fun _ => same, fun file present => by cases present⟩,
      fun both => both.1 rfl⟩
  | some content =>
    rw [written] at named
    change (WorkspacesFile.load content).map some = _ at named
    cases loaded : WorkspacesFile.load content with
    | error reason =>
      rw [loaded] at named
      cases named
    | ok ws =>
      rw [loaded] at named
      obtain rfl := Except.ok.inj named
      obtain rfl := eq_of_load loaded
      unfold LiveServer.setWorkspace
      cases slot : live.workspaces with
      | none =>
        refine ⟨fun same => ⟨(fun absent => by cases absent), fun file present => ?_⟩,
          fun both => ?_⟩
        · obtain rfl := Except.ok.inj (Option.some.inj present)
          exact Or.inr same.symm
        · exact ((both.2 ws rfl).resolve_left (by simp)).symm
      | some before =>
        exact ⟨fun _ => ⟨(fun absent => by cases absent), fun _ _ => Or.inl rfl⟩, fun _ => rfl⟩

/-- **A reload is as good as a fresh start, wherever both come up, exactly when what is kept is
written as it is served**; and whatever happens it removes nothing that is still configured. -/
theorem reloadsLikeStart_iff (env : ReloadEnv) (live : LiveServer) (files : ConfigFiles) :
    ReloadsLikeStart env live files ↔
      ((runRebuild env live files).2 = .ok () → ∀ cold,
        freshStart env files live.scope = .ok cold → KeptAsWritten env live files) := by
  constructor
  · intro like done cold up
    have same := like.ok done cold up
    obtain ⟨config, workspaces, inScope, read, -, lookup, slot, -⟩ := runRebuild_ok done
    obtain ⟨cold_lookup, cold_slot, -⟩ := freshStart_ok read up
    have named := (readFiles_eq_ok read).2.1
    have places := same.workspaces
    rw [slot, cold_slot] at places
    obtain ⟨absent, present⟩ := (workspaces_iff named).mp places
    refine ⟨fun config' workspaces' inScope' read' r member source served => ?_, absent, present⟩
    cases read.symm.trans read'
    have here := same.repos r.id
    rw [lookup, cold_lookup, repoOf_eq_some (distinct_of_readFiles read) member,
      Option.bind_some, served, Option.some_or] at here
    by_cases loads : env.loads r = true
    · rw [Option.filter_some_pos loads, Option.map_some] at here
      exact ⟨Option.some.inj here, loads⟩
    · rw [Option.filter_some_neg (Bool.not_eq_true _ ▸ loads)] at here
      cases here
  · intro keeps
    refine ⟨fun done cold up => ?_, fun reason failed id served configured =>
      runRebuild_error failed served configured⟩
    have kept := keeps done cold up
    obtain ⟨config, workspaces, inScope, read, load, lookup, slot, contract⟩ := runRebuild_ok done
    obtain ⟨cold_lookup, cold_slot, cold_contract⟩ := freshStart_ok read up
    have named := (readFiles_eq_ok read).2.1
    refine ⟨fun id => ?_, ?_, contract.trans cold_contract.symm⟩
    · rw [lookup, cold_lookup]
      cases found : repoOf inScope id with
      | none => rfl
      | some r =>
        obtain ⟨member, rfl⟩ := of_repoOf found
        rw [Option.bind_some]
        cases served : live.repos.get? r.id with
        | none =>
          have new : r ∈ unserved live.repos.keys inScope := by
            refine List.mem_filter.mpr ⟨member, decide_eq_true fun known => ?_⟩
            rw [SortedMap.mem_keys, served] at known
            cases known
          rw [Option.filter_some_pos (load r new)]
          rfl
        | some source =>
          obtain ⟨rfl, loads⟩ := kept.sources _ _ _ read r member source served
          rw [Option.filter_some_pos loads]
          rfl
    · rw [slot, cold_slot]
      exact (workspaces_iff named).mpr ⟨kept.absent, kept.present⟩

/-! ### An edited source -/

def sampleEnv : ReloadEnv where
  rules _ _ := .ok ()
  loads _ := true
  projects _ := true
  removes _ := true

def sampleServer : LiveServer where
  repos := (∅ : SortedMap String SourceConfig).insert "orders" (.workspaceDir "/src/orders")
  contract := some {}

def editedFiles : ConfigFiles where
  repos := .ok { repos := [⟨"orders", .workspaceDir "/src/orders-v2"⟩] }

/-- **A source edited under the same id is not taken over**: the reload succeeds, and so would a
fresh start, and the old directory is served. -/
theorem not_reloadsLikeStart_edited : ¬ ReloadsLikeStart sampleEnv sampleServer editedFiles := by
  intro like
  have done : (runRebuild sampleEnv sampleServer editedFiles).2 = .ok () := by decide +kernel
  obtain ⟨cold, up⟩ : ∃ cold, freshStart sampleEnv editedFiles none = .ok cold := ⟨_, rfl⟩
  have same := (like.ok done cold up).repos "orders"
  cases up
  revert same
  decide +kernel

end Lain.Server
