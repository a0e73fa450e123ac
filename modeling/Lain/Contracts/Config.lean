import Lain.Contracts.Keys
import Mathlib.Data.List.Sort

/-!
# Federation configuration

The sections of the configuration the joiner reads.
-/

namespace Lain.Contracts

/-- A router mount: what to put before the templates of one file. -/
structure RoutePrefix where
  path : String
  front : String
  deriving DecidableEq

/-- A declared service; an empty list of paths covers its whole repository. -/
structure ServiceDecl where
  name : String
  repo : String
  paths : List String := []
  hosts : List String := []
  env : List String := []
  basePath : Option String := none
  routePrefixes : List RoutePrefix := []
  providesGraphql : Bool := true
  deriving DecidableEq

/-- A declared wrapper client and the service it calls; the path may be one of its arguments. -/
structure HttpClientDecl where
  call : String
  service : String
  pathArg : Option Nat := none
  deriving DecidableEq

/-- A declared payload schema of a topic. -/
structure SchemaDecl where
  topic : String
  repo : String
  file : String
  deriving DecidableEq

/-- The consumer side of a confirmed binding; `site` narrows it to one call. -/
structure ConfirmedBindingConsumer where
  repo : String
  path : String
  symbol : String
  key : String
  site : Option String := none
  deriving DecidableEq

/-- The provider side of a confirmed binding. -/
structure ConfirmedBindingProvider where
  service : String
  key : String
  deriving DecidableEq

/-- A binding a person confirmed. -/
structure ConfirmedBinding where
  consumer : ConfirmedBindingConsumer
  provider : ConfirmedBindingProvider
  deriving DecidableEq

/-- A database: who owns its tables and who shares them. -/
structure DatabaseDecl where
  name : String
  service : String
  tables : List String := []
  sharedWith : List String := []
  deriving DecidableEq

/-- A provider the analyzer cannot see. -/
structure ProviderDecl where
  service : String
  key : String
  deriving DecidableEq

/-- The service an unknown host dials, by host expression or by file. -/
structure HostAliasDecl where
  host : Option String := none
  file : Option String := none
  service : String
  deriving DecidableEq

/-- The configuration of a federation. -/
structure ContractFederationConfig where
  services : List ServiceDecl := []
  httpClients : List HttpClientDecl := []
  genericKeys : List String := []
  schemas : List SchemaDecl := []
  bindings : List ConfirmedBinding := []
  databases : List DatabaseDecl := []
  provides : List ProviderDecl := []
  hostAliases : List HostAliasDecl := []
  deriving DecidableEq

/-- The path of a declared provider's id begins with this. -/
def declaredProviderPathPrefix : String := "repos.yaml#provides["

/-- The keys no call binds to by its path alone. -/
def builtinGenericKeys : List String :=
  ["GET /", "GET /health", "GET /healthz", "GET /ready", "GET /readyz", "GET /live",
    "GET /livez", "GET /ping", "GET /status", "GET /version", "GET /metrics",
    "GET /favicon.ico"]

def appendNew {α : Type*} [DecidableEq α] (out : List α) (x : α) : List α :=
  if x ∈ out then out else out ++ [x]

namespace ContractFederationConfig

/-- The built-in generic keys and the configured ones, sorted. -/
def allGenericKeys (config : ContractFederationConfig) : List String :=
  (config.genericKeys.foldl appendNew builtinGenericKeys).insertionSort (· ≤ ·)

def service? (config : ContractFederationConfig) (name : ServiceName) : Option ServiceDecl :=
  config.services.find? fun s => decide (s.name = name)

end ContractFederationConfig

end Lain.Contracts
