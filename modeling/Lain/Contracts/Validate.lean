import Mathlib
import Lain.Contracts.Normalize
import Lain.Contracts.RouteMatch
import Lain.Federation.RepoId

/-!
# Validation of a configuration

The rules a configuration is checked against when it is loaded, in their order; the first one that
is broken is reported.
-/

namespace Lain.Contracts

open Foundation Federation

/-! ### Searches of the rules -/

def pairsOf {α : Type*} : List α → List (α × α)
  | [] => []
  | a :: rest => rest.map (fun b => (a, b)) ++ pairsOf rest

def firstShared {ω : Type*} (seen : List (String × ω)) :
    List (String × ω) → Option (String × ω × ω)
  | [] => none
  | entry :: rest =>
    match seen.find? fun earlier => decide (earlier.1 = entry.1) with
    | some earlier => some (entry.1, earlier.2, entry.2)
    | none => firstShared (entry :: seen) rest

def firstRepeated (texts : List String) : Option String :=
  (firstShared [] (texts.map fun text => (text, ()))).map Prod.fst

theorem forall_pairsOf {α : Type*} {related : α → α → Prop} {l : List α} :
    (∀ pair ∈ pairsOf l, related pair.1 pair.2) ↔ l.Pairwise related := by
  induction l with
  | nil => simp [pairsOf]
  | cons a rest ih =>
    rw [pairsOf, List.forall_mem_append, ih, List.pairwise_cons, List.forall_mem_map]

/-! ### Names, paths and keys -/

/-- Lower-case letters, digits, and after the first place underscores and hyphens. -/
def serviceNameIsValid (s : String) : Bool :=
  match s.toList with
  | [] => false
  | first :: rest =>
    (first.isLower || first.isDigit) &&
      rest.all fun c => c.isLower || c.isDigit || c = '_' || c = '-'

def continuesAt (a b : String) : Bool :=
  match a.toList.isPrefixOf? b.toList with
  | some (c :: _) => Text.endsWith a "/" || decide (c = '/')
  | _ => false

/-- Two paths are equal, or one continues the other behind a slash. -/
def pathPrefixesOverlap (a b : String) : Bool :=
  decide (a = b) || continuesAt a b || continuesAt b a

def factKeyKinds : List String :=
  ["topic:", "rpc:", "ws:", "websocket:", "table:"]

/-- The largest place of a path among the arguments of a wrapper. -/
def maxPathArg : Nat := 5

section

variable (isAlphanumeric : Char → Bool)

/-- What is wrong with a key: one without a kind is an HTTP key in normal form. -/
def validateKey (field key : String) : Option String :=
  if Text.startsWith key "graphql:" then
    match ContractKey.fromStr key with
    | some (.graphql _ name) =>
      if name ≠ "" then none else some s!"{field}: '{key}' is not a graphql key"
    | some _ => some s!"{field}: '{key}' is not a graphql key"
    | none => some s!"{field} '{key}'"
  else if factKeyKinds.any (Text.startsWith key) then
    if (ContractKey.fromStr key).isSome then none else some s!"{field} '{key}'"
  else
    let body := (Text.stripPrefix key "http:").getD key
    match Text.splitOnce body " " with
    | none => some s!"{field} '{key}': missing space"
    | some (method, template) =>
      if method = "" ∨ template = "" then some s!"{field} '{key}': method or template empty"
      else if (ContractKey.fromStr s!"http:{body}").isNone then some s!"{field} '{key}'"
      else
        match (normalize isAlphanumeric [.literal template]).template with
        | some t =>
          if t = template then none
          else some s!"{field} '{key}': template normalized to '{t}'"
        | none => some s!"{field} '{key}': template became dynamic after normalization"

/-! ### Rules -/

namespace ContractFederationConfig

variable (config : ContractFederationConfig) (repoIds : List String)

def knownService (name : String) : Bool :=
  (config.services.map ServiceDecl.name).contains name || repoIds.contains name

def duplicateName : Option String :=
  (firstRepeated (config.services.map ServiceDecl.name)).map fun name =>
    s!"duplicate service name '{name}'"

def malformedName : Option String :=
  (config.services.find? fun s => !serviceNameIsValid s.name).map fun s =>
    s!"service name '{s.name}' does not match ^[a-z0-9][a-z0-9_-]*$"

def unknownRepo : Option String :=
  (config.services.find? fun s => !repoIds.contains s.repo).map fun s =>
    s!"service '{s.name}' references unknown repo '{s.repo}'"

def nameIsRepo : Option String :=
  (config.services.find? fun s => repoIds.any fun r => decide (r = s.name) && decide (r ≠ s.repo)).map
    fun s => s!"service name '{s.name}' collides with a configured repo id"

def overlapInService : Option String :=
  config.services.findSome? fun s =>
    ((pairsOf s.paths).find? fun pair => pathPrefixesOverlap pair.1 pair.2).map fun pair =>
      s!"service '{s.name}' has overlapping paths '{pair.1}' and '{pair.2}'"

def overlapInRepo : Option String :=
  (pairsOf config.services).findSome? fun pair =>
    if pair.1.repo = pair.2.repo then
      ((pair.1.paths.product pair.2.paths).find? fun paths =>
        pathPrefixesOverlap paths.1 paths.2).map fun paths =>
          s!"services '{pair.1.name}' and '{pair.2.name}' in repo '{pair.1.repo}'" ++
            s!" have overlapping paths '{paths.1}' and '{paths.2}'"
    else none

def upperCaseHost : Option String :=
  config.services.findSome? fun s =>
    (s.hosts.find? fun h => h.toList.any Char.isUpper).map fun h =>
      s!"service '{s.name}' host '{h}' contains upper-case characters"

def sharedEnv : Option String :=
  (firstShared [] (config.services.flatMap fun s => s.env.map fun e => (e, s.name))).map
    fun shared => s!"env var '{shared.1}' is listed by both service '{shared.2.1}'" ++
      s!" and '{shared.2.2}'"

def sharedHost : Option String :=
  (firstShared [] (config.services.flatMap fun s => s.hosts.map fun h => (h, s.name))).map
    fun shared => s!"host '{shared.1}' is listed by both service '{shared.2.1}'" ++
      s!" and '{shared.2.2}'"

def invalidProvider : Option String :=
  config.provides.zipIdx.findSome? fun entry =>
    if !config.knownService repoIds entry.1.service then
      some s!"provides[{entry.2}]: unknown service '{entry.1.service}'"
    else validateKey isAlphanumeric s!"provides[{entry.2}]" entry.1.key

def invalidAlias : Option String :=
  config.hostAliases.zipIdx.findSome? fun entry =>
    if entry.1.host.isNone ∧ entry.1.file.isNone then
      some s!"host_aliases[{entry.2}]: needs a host or a file"
    else if !config.knownService repoIds entry.1.service then
      some s!"host_aliases[{entry.2}]: unknown service '{entry.1.service}'"
    else none

def invalidPathArg : Option String :=
  config.httpClients.findSome? fun c =>
    (c.pathArg.filter fun p => decide (maxPathArg < p)).map fun p =>
      s!"http_clients entry '{c.call}' path_arg {p} > {maxPathArg}"

def unknownClientService : Option String :=
  (config.httpClients.find? fun c => !config.knownService repoIds c.service).map fun c =>
    s!"http_clients entry '{c.call}' references unknown service '{c.service}'"

def misplacedSite (consumer : ConfirmedBindingConsumer) : Option String :=
  match consumer.site with
  | none => none
  | some site =>
    match GlobalId.parse site with
    | none => some site
    | some id =>
      if id.repoId ≠ consumer.repo ∨ id.path ≠ some consumer.path then
        some "binding site must belong to its consumer repo/path"
      else none

def invalidBinding : Option String :=
  config.bindings.findSome? fun b =>
    ((validateKey isAlphanumeric "bindings.consumer.key" b.consumer.key).or
      (misplacedSite b.consumer)).or
      (validateKey isAlphanumeric "bindings.provider.key" b.provider.key)

def illFormedBinding : Option String :=
  config.bindings.zipIdx.findSome? fun entry =>
    match parseContractKey entry.1.consumer.key with
    | none => some s!"bindings[{entry.2}] consumer key '{entry.1.consumer.key}'"
    | some consumerKey =>
      match parseContractKey entry.1.provider.key with
      | none => some s!"bindings[{entry.2}] provider key '{entry.1.provider.key}'"
      | some providerKey =>
        if keysCompatible consumerKey providerKey then none
        else some (s!"bindings[{entry.2}]: consumer key '{entry.1.consumer.key}'" ++
          s!" and provider key '{entry.1.provider.key}' are not a well-formed pair — " ++
          "cross-kind or incompatible methods/templates")

def invalidGenericKey : Option String :=
  config.genericKeys.findSome? (validateKey isAlphanumeric "generic_keys")

def unknownBindingService : Option String :=
  (config.bindings.find? fun b => !config.knownService repoIds b.provider.service).map fun b =>
    s!"binding provider references unknown service '{b.provider.service}'"

def unknownBindingRepo : Option String :=
  (config.bindings.find? fun b => !repoIds.contains b.consumer.repo).map fun b =>
    s!"binding consumer references unknown repo '{b.consumer.repo}'"

def invalidSchema : Option String :=
  config.schemas.findSome? fun s =>
    if !repoIds.contains s.repo then
      some s!"schemas entry '{s.topic}' references unknown repo '{s.repo}'"
    else if !(config.services.any fun svc => decide (svc.repo = s.repo)) then
      some s!"schemas entry '{s.topic}' references repo '{s.repo}' with no configured service"
    else none

def invalidDatabase (earlier : List String) (db : DatabaseDecl) : Option String :=
  if db.name = "" then some "database declaration name cannot be empty"
  else if db.name ∈ earlier then some s!"duplicate database name '{db.name}'"
  else if !config.knownService repoIds db.service then
    some s!"database '{db.name}' references unknown service '{db.service}'"
  else
    ((db.sharedWith.find? fun shared => !config.knownService repoIds shared).map fun shared =>
      s!"database '{db.name}' shared_with references unknown service '{shared}'").or
    ((firstRepeated db.tables).map fun t =>
      s!"table '{t}' is listed more than once in database '{db.name}'")

def invalidDatabases : Option String :=
  config.databases.zipIdx.findSome? fun entry =>
    config.invalidDatabase repoIds
      ((config.databases.take entry.2).map DatabaseDecl.name) entry.1

def sharedTable : Option String :=
  (firstShared [] (config.databases.flatMap fun db => db.tables.map fun t => (t, db.name))).map
    fun shared => s!"table '{shared.1}' is listed by both database '{shared.2.1}'" ++
      s!" and '{shared.2.2}'"

def rules : List (Option String) :=
  [config.duplicateName, config.malformedName, config.unknownRepo repoIds,
    config.nameIsRepo repoIds, config.overlapInService, config.overlapInRepo,
    config.upperCaseHost, config.sharedEnv, config.sharedHost,
    config.invalidProvider isAlphanumeric repoIds, config.invalidAlias repoIds,
    config.invalidPathArg, config.unknownClientService repoIds,
    config.invalidBinding isAlphanumeric, config.illFormedBinding,
    config.invalidGenericKey isAlphanumeric, config.unknownBindingService repoIds,
    config.unknownBindingRepo repoIds, config.invalidSchema repoIds,
    config.invalidDatabases repoIds, config.sharedTable]

/-- Check a configuration against every rule. -/
def validate : Except String Unit :=
  match (config.rules isAlphanumeric repoIds).findSome? id with
  | some message => .error message
  | none => .ok ()

variable {isAlphanumeric config repoIds}

theorem validate_eq_ok :
    config.validate isAlphanumeric repoIds = .ok () ↔
      ∀ rule ∈ config.rules isAlphanumeric repoIds, rule = none := by
  have silent : (config.rules isAlphanumeric repoIds).findSome? id = none ↔
      ∀ rule ∈ config.rules isAlphanumeric repoIds, rule = none := by
    rw [List.findSome?_eq_none_iff]
    rfl
  unfold validate
  split
  next message found =>
      refine ⟨fun absurd => (by cases absurd), fun none => ?_⟩
      rw [silent.mpr none] at found
      cases found
  next none => exact ⟨fun _ => silent.mp none, fun _ => rfl⟩

end ContractFederationConfig

end

end Lain.Contracts
