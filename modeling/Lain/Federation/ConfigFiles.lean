import Mathlib
import Lain.Contracts.Config
import Lain.Federation.RepoId

/-!
# The configuration files

`repos.yaml` lists repositories and carries the contract sections, at the top level or in
a block of their own; `workspaces.yaml` names subsets of the repositories.
-/

namespace Lain.Federation

open Contracts

inductive SourceConfig where
  | localClone (url ref : String)
  | shallowClone (url ref : String) (refreshIntervalSecs : Nat)
  | workspaceDir (path : String)
  deriving DecidableEq

structure RepoConfig where
  id : String
  source : SourceConfig
  deriving DecidableEq

inductive WorkspaceSourceConfig where
  | workspaceDir (path : String)
  | workspaceClone (url : String) (ref : Option String) (refreshIntervalSecs : Option Nat)
  deriving DecidableEq

structure WorkspaceSpec where
  name : String
  description : Option String := none
  source : Option WorkspaceSourceConfig := none
  members : List String
  deriving DecidableEq

structure WorkspacesFile where
  default : Option String := none
  workspaces : List WorkspaceSpec := []
  deriving DecidableEq

inductive ConfigError where
  | unreadable (reason : String)
  | duplicateRepoId (id : String)
  | invalidContract (reason : String)
  | duplicateWorkspace (name : String)
  | emptyWorkspace (name : String)
  | invalidMember (workspace member : String)
  | unknownDefault (name : String)
  | unknownWorkspace (name : String)
  | noMembers (workspace : String)
  | missingMembers (workspace : String) (missing : List String)
  deriving DecidableEq

/-! ### `repos.yaml` -/

/-- The contents of `repos.yaml`: the contract sections of the `contract` block, and the ones
at the top level. -/
structure ReposYaml where
  repos : List RepoConfig := []
  contract : ContractFederationConfig := {}
  topLevel : ContractFederationConfig := {}

structure FederationConfig where
  repos : List RepoConfig
  contract : ContractFederationConfig

abbrev ContractRules := ContractFederationConfig → List String → Except String Unit

def fillSections (config other : ContractFederationConfig) : ContractFederationConfig where
  services := if config.services.isEmpty then other.services else config.services
  httpClients := if config.httpClients.isEmpty then other.httpClients else config.httpClients
  genericKeys := if config.genericKeys.isEmpty then other.genericKeys else config.genericKeys
  schemas := if config.schemas.isEmpty then other.schemas else config.schemas
  bindings := if config.bindings.isEmpty then other.bindings else config.bindings
  databases := if config.databases.isEmpty then other.databases else config.databases
  provides := if config.provides.isEmpty then other.provides else config.provides
  hostAliases := if config.hostAliases.isEmpty then other.hostAliases else config.hostAliases

def isContractBlockDefault (config : ContractFederationConfig) : Bool :=
  config.services.isEmpty && config.httpClients.isEmpty && config.genericKeys.isEmpty &&
    config.schemas.isEmpty && config.bindings.isEmpty && config.databases.isEmpty &&
    config.provides.isEmpty && config.hostAliases.isEmpty

def loadContract (file : ReposYaml) : ContractFederationConfig :=
  fillSections file.contract file.topLevel

def mergeContract (file : ReposYaml) : ContractFederationConfig :=
  let topLevelContract := loadContract file
  if isContractBlockDefault file.contract then topLevelContract
  else if !isContractBlockDefault topLevelContract then
    fillSections file.contract topLevelContract
  else file.contract

def firstRepeated (seen : List String) : List String → Option String
  | [] => none
  | id :: rest => if id ∈ seen then some id else firstRepeated (id :: seen) rest

/-- Load `repos.yaml`. -/
def FederationConfig.load (rules : ContractRules) (file : Except String ReposYaml) :
    Except ConfigError FederationConfig :=
  match file with
  | .error reason => .error (.unreadable reason)
  | .ok file =>
    let ids := file.repos.map RepoConfig.id
    match firstRepeated [] ids, rules (mergeContract file) ids with
    | some id, _ => .error (.duplicateRepoId id)
    | none, .error reason => .error (.invalidContract reason)
    | none, .ok () => .ok ⟨file.repos, mergeContract file⟩

def RepoConfig.builds (repo : RepoConfig) : Bool :=
  (repoIdNew repo.id).isSome &&
    match repo.source with
    | .localClone url _ => url ≠ ""
    | .shallowClone url _ _ => url ≠ ""
    | .workspaceDir path => path ≠ ""

/-! ### `workspaces.yaml` -/

namespace WorkspacesFile

def invalidMember (member : String) : Bool :=
  member = "" || Foundation.Text.contains member ':' || Foundation.Text.contains member '/'

def validateWorkspaces (seen : List String) : List WorkspaceSpec → Except ConfigError Unit
  | [] => .ok ()
  | ws :: rest =>
    if ws.name ∈ seen then .error (.duplicateWorkspace ws.name)
    else if ws.members.isEmpty && ws.source.isNone then .error (.emptyWorkspace ws.name)
    else
      match ws.members.find? invalidMember with
      | some m => .error (.invalidMember ws.name m)
      | none => validateWorkspaces (ws.name :: seen) rest

/-- Names are unique, members are given and are ids, and the default is listed. -/
def validate (file : WorkspacesFile) : Except ConfigError Unit :=
  match validateWorkspaces [] file.workspaces, file.default with
  | .error reason, _ => .error reason
  | .ok (), none => .ok ()
  | .ok (), some name =>
    if file.workspaces.any fun w => w.name = name then .ok () else .error (.unknownDefault name)

/-- Load `workspaces.yaml`. -/
def load (file : Except String WorkspacesFile) : Except ConfigError WorkspacesFile :=
  match file with
  | .error reason => .error (.unreadable reason)
  | .ok file =>
    match file.validate with
    | .error reason => .error reason
    | .ok () => .ok file

end WorkspacesFile

inductive MissingMembers where
  | refuse | drop
  deriving DecidableEq

/-- The repository of an id. -/
def repoOf (allRepos : List RepoConfig) (id : String) : Option RepoConfig :=
  allRepos.find? fun r => r.id = id

/-- The listed repositories of some members, all of which have to be listed. -/
def filterReposByWorkspace (allRepos : List RepoConfig) (name : String) (members : List String) :
    Except ConfigError (List RepoConfig) :=
  let missing := members.filter fun id => (repoOf allRepos id).isNone
  if missing.isEmpty then .ok (members.filterMap (repoOf allRepos))
  else .error (.missingMembers name missing)

def reposForWorkspace (allRepos : List RepoConfig) (workspaces : WorkspacesFile) (name : String)
    (missing : MissingMembers) : Except ConfigError (List RepoConfig) :=
  match workspaces.workspaces.find? fun w => w.name = name with
  | none => .error (.unknownWorkspace name)
  | some spec =>
    if spec.members.isEmpty then .error (.noMembers spec.name)
    else
      match missing with
      | .refuse => filterReposByWorkspace allRepos spec.name spec.members
      | .drop =>
        filterReposByWorkspace allRepos spec.name
          (spec.members.filter fun id => allRepos.any fun r => r.id = id)

/-! ### What loading gives -/

theorem fillSections_fillSections (config other : ContractFederationConfig) :
    fillSections config (fillSections config other) = fillSections config other := by
  unfold fillSections
  congr 1 <;> (split_ifs <;> rfl)

theorem isContractBlockDefault_fillSections {config other : ContractFederationConfig}
    (defined : isContractBlockDefault config = false) :
    isContractBlockDefault (fillSections config other) = false := by
  rw [← Bool.not_eq_true] at defined ⊢
  refine mt (fun empty => ?_) defined
  simp only [isContractBlockDefault, fillSections, Bool.and_eq_true] at empty ⊢
  have section_empty : ∀ {α : Type} {own rest : List α},
      (if own.isEmpty then rest else own).isEmpty = true → own.isEmpty = true := by
    intro α own rest filled
    by_contra nonempty
    rw [if_neg nonempty] at filled
    exact nonempty filled
  obtain ⟨⟨⟨⟨⟨⟨⟨a, b⟩, c⟩, d⟩, e⟩, f⟩, g⟩, h⟩ := empty
  exact ⟨⟨⟨⟨⟨⟨⟨section_empty a, section_empty b⟩, section_empty c⟩, section_empty d⟩,
    section_empty e⟩, section_empty f⟩, section_empty g⟩, section_empty h⟩

/-- **The two loaders of the contract sections agree.** -/
theorem mergeContract_eq (file : ReposYaml) : mergeContract file = loadContract file := by
  unfold mergeContract
  dsimp only
  split_ifs with empty defined
  · rfl
  · exact fillSections_fillSections file.contract file.topLevel
  · rw [Bool.not_eq_true] at empty
    rw [loadContract, isContractBlockDefault_fillSections empty] at defined
    exact absurd rfl defined

theorem nodup_of_firstRepeated {seen ids : List String} (distinct : firstRepeated seen ids = none) :
    ids.Nodup ∧ ∀ id ∈ ids, id ∉ seen := by
  induction ids generalizing seen with
  | nil => exact ⟨List.nodup_nil, fun _ member => absurd member List.not_mem_nil⟩
  | cons id rest ih =>
    rw [firstRepeated] at distinct
    split_ifs at distinct with known
    obtain ⟨nodup, fresh⟩ := ih distinct
    refine ⟨List.nodup_cons.mpr ⟨fun member => fresh id member List.mem_cons_self, nodup⟩, ?_⟩
    exact List.forall_mem_cons.mpr
      ⟨known, fun other member old => fresh other member (List.mem_cons_of_mem _ old)⟩

theorem FederationConfig.load_eq_ok {rules : ContractRules} {file : Except String ReposYaml}
    {config : FederationConfig} (loaded : FederationConfig.load rules file = .ok config) :
    ∃ raw, file = .ok raw ∧ config = ⟨raw.repos, loadContract raw⟩ ∧
      (raw.repos.map RepoConfig.id).Nodup ∧
      rules (loadContract raw) (raw.repos.map RepoConfig.id) = .ok () := by
  unfold FederationConfig.load at loaded
  cases file with
  | error reason => cases loaded
  | ok raw =>
    dsimp only at loaded
    cases distinct : firstRepeated [] (raw.repos.map RepoConfig.id) with
    | some id =>
      rw [distinct] at loaded
      cases loaded
    | none =>
      rw [distinct, mergeContract_eq] at loaded
      cases kept : rules (loadContract raw) (raw.repos.map RepoConfig.id) with
      | error reason =>
        rw [kept] at loaded
        cases loaded
      | ok checked =>
        rw [kept] at loaded
        exact ⟨raw, rfl, (Except.ok.inj loaded).symm, (nodup_of_firstRepeated distinct).1, kept⟩

theorem mem_of_filterRepos {allRepos picked : List RepoConfig} {name : String}
    {members : List String} (found : filterReposByWorkspace allRepos name members = .ok picked) :
    ∀ r ∈ picked, r ∈ allRepos := by
  unfold filterReposByWorkspace at found
  dsimp only at found
  split_ifs at found
  obtain rfl := Except.ok.inj found
  intro r member
  obtain ⟨id, -, listed⟩ := List.mem_filterMap.mp member
  exact List.mem_of_find?_eq_some listed

theorem mem_of_reposForWorkspace {allRepos picked : List RepoConfig} {workspaces : WorkspacesFile}
    {name : String} {missing : MissingMembers}
    (found : reposForWorkspace allRepos workspaces name missing = .ok picked) :
    ∀ r ∈ picked, r ∈ allRepos := by
  unfold reposForWorkspace at found
  cases listed : workspaces.workspaces.find? fun w => w.name = name with
  | none =>
    rw [listed] at found
    cases found
  | some spec =>
    rw [listed] at found
    dsimp only at found
    split_ifs at found
    cases missing with
    | refuse => exact mem_of_filterRepos found
    | drop => exact mem_of_filterRepos found

theorem reposForWorkspace_drop {allRepos picked : List RepoConfig} {workspaces : WorkspacesFile}
    {name : String} (found : reposForWorkspace allRepos workspaces name .refuse = .ok picked) :
    reposForWorkspace allRepos workspaces name .drop = .ok picked := by
  unfold reposForWorkspace at found ⊢
  cases listed : workspaces.workspaces.find? fun w => w.name = name with
  | none =>
    rw [listed] at found
    cases found
  | some spec =>
    rw [listed] at found
    dsimp only at found ⊢
    split_ifs at found ⊢ with empty
    have all : (spec.members.filter fun id => allRepos.any fun r => r.id = id) = spec.members := by
      refine List.filter_eq_self.mpr fun id member => ?_
      unfold filterReposByWorkspace at found
      dsimp only at found
      split_ifs at found with present
      rw [List.isEmpty_iff, List.filter_eq_nil_iff] at present
      have known := present id member
      rw [Option.isNone_iff_eq_none, repoOf, List.find?_eq_none] at known
      push Not at known
      obtain ⟨r, repo, named⟩ := known
      exact List.any_eq_true.mpr ⟨r, repo, named⟩
    rw [all]
    exact found

end Lain.Federation
