import Lain.Contracts.Config
import Lain.Foundation.SortedMap

/-!
# Clients and hosts

Where the base of a wrapped client points, which service a host belongs to,
and what the environment files of the repositories say about a variable.
-/

namespace Lain.Contracts

open Foundation

/-! ### The host of a URL -/

inductive NormalizeUrlPart where
  | literal (text : String)
  | hole (expr : String)
  deriving DecidableEq

/-- The host of a URL without user and port, in lower case. -/
def hostFromText (s : String) : HostPart :=
  if s = "" then .none
  else
    let afterUserinfo := ((Text.split s '@').getLastD s).toList
    let host :=
      if afterUserinfo.contains ':' then
        (afterUserinfo.reverse.dropWhile (· ≠ ':')).tail.reverse
      else afterUserinfo
    .literal (String.ofList (host.map Char.toLower))

def takeHost : List NormalizeUrlPart → List NormalizeUrlPart × List NormalizeUrlPart
  | [] => ([], [])
  | .literal s :: later =>
    let front := s.toList.takeWhile fun c => !(c = '/' || c = '?' || c = '#')
    let tail := s.toList.drop front.length
    if tail.isEmpty then
      let (chunks, rest) := takeHost later
      (.literal s :: chunks, rest)
    else ([.literal (String.ofList front)], .literal (String.ofList tail) :: later)
  | .hole h :: later =>
    let (chunks, rest) := takeHost later
    (.hole h :: chunks, rest)

def NormalizeUrlPart.hostText : NormalizeUrlPart → String
  | .literal s => s
  | .hole _ => ""

/-- The host its chunks spell: the first expression, if there is one. -/
def buildHost (chunks : List NormalizeUrlPart) : HostPart :=
  match chunks.findSome? fun | .hole h => some h | .literal _ => none with
  | some h => .expr h
  | none => hostFromText (String.join (chunks.map NormalizeUrlPart.hostText))

def afterScheme : List NormalizeUrlPart → Option (List NormalizeUrlPart)
  | [] => none
  | .literal s :: later =>
    match Text.splitOnce s "://" with
    | some cut => some (.literal cut.2 :: later)
    | none => afterScheme later
  | .hole _ :: later => afterScheme later

/-- The host of a URL and the parts that follow it. -/
def extractHost (parts : List NormalizeUrlPart) : HostPart × List NormalizeUrlPart :=
  match parts with
  | [] => (.none, [])
  | first :: later =>
    if Text.startsWith first.hostText "/" then (.none, parts)
    else
      match afterScheme parts with
      | some tail => (buildHost (takeHost tail).1, (takeHost tail).2)
      | none =>
        match first with
        | .hole h => (.expr h, later)
        | .literal _ => (.none, parts)

/-! ### The client registry -/

/-- One piece of the base URL of a client. -/
inductive UrlPart where
  | literal (text : String)
  | env (names : List String)
  | expr (text : String)
  deriving DecidableEq

/-- What the normalizer reads of a base piece. -/
def UrlPart.asNormalizePart : UrlPart → NormalizeUrlPart
  | .literal s => .literal s
  | .env names => .hole (names.headD "")
  | .expr s => .hole s

/-- A declared HTTP client. -/
structure ClientDef where
  name : String
  module : String
  base : List UrlPart
  deriving DecidableEq

/-- The clients of a repository, by module and name. -/
structure ClientRegistry where
  defs : SortedMap String (SortedMap String ClientDef) := ∅

namespace ClientRegistry

/-- Every client with its name, by module and name. -/
def iter (registry : ClientRegistry) : List (String × ClientDef) :=
  registry.defs.entries.flatMap fun module => module.2.entries

def lookupName (registry : ClientRegistry) (queryName : String) : Option ClientDef :=
  (registry.iter.find? fun entry => decide (entry.1 = queryName)).map Prod.snd

end ClientRegistry

def composedHost (callPath base : List UrlPart) : HostPart :=
  (extractHost ((base ++ callPath).map UrlPart.asNormalizePart)).1

/-! ### The service of a host -/

/-- A pattern `*.suffix` covers the suffix and its subdomains. -/
def hostMatchesPattern (pattern host : String) : Bool :=
  match Text.stripPrefix pattern "*." with
  | some suffix => decide (host = suffix) || Text.endsWith host s!".{suffix}"
  | none => decide (pattern = host)

namespace ContractFederationConfig

variable (config : ContractFederationConfig)

def serviceOfEnv (envs : List String) : Option ServiceName :=
  envs.findSome? fun env =>
    (config.services.find? fun s => s.env.contains env).map ServiceDecl.name

def serviceOfHost (host : String) : Option ServiceName :=
  (config.services.find? fun s => s.hosts.any fun h => hostMatchesPattern h host).map
    ServiceDecl.name

end ContractFederationConfig

/-- The service a host belongs to. -/
def serviceFromHost (host : HostPart) (config : ContractFederationConfig) : Option ServiceName :=
  match host with
  | .env names => config.serviceOfEnv names
  | .literal h => config.serviceOfHost h
  | _ => none

/-- The service whose declared variables a call dials through. -/
def targetServiceFromEnv (consumer : ConsumerFact) (config : ContractFederationConfig) :
    Option ServiceName :=
  match consumer.url.host with
  | .env envs => config.serviceOfEnv envs
  | _ => none

/-- The service whose declared hosts a call dials. -/
def targetServiceFromHosts (consumer : ConsumerFact) (config : ContractFederationConfig) :
    Option ServiceName :=
  match consumer.url.host with
  | .literal host => config.serviceOfHost host
  | _ => none

/-! ### Environment bindings -/

/-- One value of a variable found in an environment file. -/
structure EnvBinding where
  host : String
  deriving DecidableEq

/-- The bindings of each variable. -/
structure EnvBindingIndex where
  byVar : SortedMap String (List EnvBinding) := ∅

/-- The distinct hosts of a variable, sorted. -/
def EnvBindingIndex.distinctHosts (env : EnvBindingIndex) (var : String) : List String :=
  ((((env.byVar.get? var).getD []).map EnvBinding.host).insertionSort (· ≤ ·)).dedup

/-- What the environment files say about the host of a call. -/
inductive EnvResolution where
  | service (name : ServiceName)
  | ambiguous (hosts : List String)
  | unmapped
  deriving DecidableEq

/-- Resolve the variables of a call; the second part lists the keys counted as
unresolved. -/
def resolveEnvConsumer (consumer : ConsumerFact) (env : EnvBindingIndex)
    (config : ContractFederationConfig) : Option (EnvResolution × List String) :=
  match consumer.url.host with
  | .env vars =>
    if vars.isEmpty then none
    else
      let unmapped := vars.filter fun var => (env.distinctHosts var).isEmpty
      if unmapped.isEmpty then
        match (vars.flatMap env.distinctHosts).foldl appendNew [] with
        | [host] =>
          match config.serviceOfHost host with
          | some name => some (.service name, [])
          | none => some (.unmapped, [s!"no_service:{host}"])
        | hosts => some (.ambiguous hosts, [])
      else some (.unmapped, unmapped)
  | _ => none

end Lain.Contracts
