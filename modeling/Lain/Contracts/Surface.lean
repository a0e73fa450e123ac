import Mathlib
import Lain.Contracts.Index

/-!
# Contract surfaces

What a revision of the federation shows to a comparison: its endpoints by
service and key, and its consumers by the function that calls and what it
calls.
-/

namespace Lain.Contracts

open Foundation Federation

def SymbolKey.code (symbol : SymbolKey) : String ×ₗ String ×ₗ List String ×ₗ String :=
  toLex (symbol.repo, toLex (symbol.path, toLex (symbol.container.toList, symbol.name)))

theorem SymbolKey.code_injective : Function.Injective SymbolKey.code := by
  intro a b same
  have repo := Prod.ext_iff.mp (congrArg ofLex same)
  have path := Prod.ext_iff.mp (congrArg ofLex repo.2)
  have container := Prod.ext_iff.mp (congrArg ofLex path.2)
  have containers : a.container = b.container := by
    cases left : a.container <;> cases right : b.container <;>
      simp_all [SymbolKey.code]
  cases a
  cases b
  simp_all [SymbolKey.code]

/-- What a consumer calls: the endpoint it was bound to, or the text of its call. -/
inductive ConsumerTargetKey where
  | contract (key : ContractKey)
  | urlExpr (text : String)
  deriving DecidableEq

def ConsumerTargetKey.code : ConsumerTargetKey → ℕ ×ₗ List ContractKey ×ₗ String
  | .contract key => toLex (0, toLex ([key], ""))
  | .urlExpr text => toLex (1, toLex ([], text))

theorem ConsumerTargetKey.code_injective : Function.Injective ConsumerTargetKey.code := by
  intro a b same
  have tag := Prod.ext_iff.mp (congrArg ofLex same)
  have rest := Prod.ext_iff.mp (congrArg ofLex tag.2)
  cases a <;> cases b <;> simp_all [ConsumerTargetKey.code]

/-- The key of a consumer on a surface. -/
structure ConsumerKey where
  caller : SymbolKey
  target : ConsumerTargetKey
  deriving DecidableEq

def ConsumerKey.code (key : ConsumerKey) :
    (String ×ₗ String ×ₗ List String ×ₗ String) ×ₗ ℕ ×ₗ List ContractKey ×ₗ String :=
  toLex (key.caller.code, key.target.code)

theorem ConsumerKey.code_injective : Function.Injective ConsumerKey.code := by
  intro a b same
  have parts := Prod.ext_iff.mp (congrArg ofLex same)
  have caller : a.caller = b.caller := SymbolKey.code_injective parts.1
  have target : a.target = b.target := ConsumerTargetKey.code_injective parts.2
  cases a
  cases b
  simp_all

instance : LinearOrder ConsumerKey :=
  LinearOrder.lift' ConsumerKey.code ConsumerKey.code_injective

/-- A provider of an endpoint on a surface. -/
structure ProviderRef where
  nodeId : GlobalId
  handler : Option SymbolKey
  operationId : Option String
  deriving DecidableEq

/-- An endpoint on a surface. -/
structure EndpointDef where
  providers : List ProviderRef
  schemas : SortedMap Direction (SortedMap JsonPath FieldMeta)
  hasSchema : Bool
  sourceFiles : Finset String
  deriving DecidableEq

/-- The joiner's verdict on a consumer of a surface. -/
inductive SurfaceResolution where
  | binds (endpoints : List EndpointId) (provenance : EdgeProvenance)
  | external (host : String)
  | unresolved (reason : UnresolvedReason) (targetService : Option ServiceName)
  deriving DecidableEq

/-- A consumer on a surface, with the paths its function reads of the answer. -/
structure ConsumerDef where
  call : GlobalId
  resolution : SurfaceResolution
  reads : Finset JsonPath
  readsComplete : Bool
  deriving DecidableEq

/-- What a revision of the federation shows to a comparison. -/
structure ContractSurface where
  endpoints : SortedMap EndpointId EndpointDef := ∅
  consumers : SortedMap ConsumerKey ConsumerDef := ∅
  deriving DecidableEq

/-- Every call site with each of its resolutions. -/
def ContractIndex.consumerResolutions (index : ContractIndex) :
    List (GlobalId × ConsumerResolution) :=
  index.consumers.entries.flatMap fun entry => entry.2.map fun resolution =>
    (entry.1, resolution)

/-- The file that implements a provider, or that declares it. -/
def EndpointProvider.file (provider : EndpointProvider) : Option String :=
  match provider.handler with
  | some handler => some handler.path
  | none => provider.nodeId.path

/-- An endpoint of the index as the surface shows it. -/
def endpointToDef (endpoint : Endpoint) : EndpointDef where
  providers := endpoint.providers.map fun provider =>
    ⟨provider.nodeId, provider.handler, provider.operationId⟩
  schemas := endpoint.schemas.mapEntries fun _ schema => schema.fields
  hasSchema := endpoint.schemas.entries.any fun entry => !entry.2.fields.entries.isEmpty
  sourceFiles :=
    (endpoint.providers.filterMap EndpointProvider.file).toFinset ∪
      (endpoint.schemas.entries.filterMap fun entry => entry.2.nodeId.path).toFinset

def readOf (fieldRef : GlobalId) (resolution : FieldRefResolution) :
    Option (GlobalId × JsonPath) :=
  if resolution.call = "" then none
  else do
    let call ← GlobalId.parse resolution.call
    let name ← fieldRef.name
    let path ← JsonPath.fromStr name
    return (call, path)

def readsByCall (index : ContractIndex) : SortedMap GlobalId (Finset JsonPath) :=
  index.fieldRefs.entries.foldl (fun reads entry =>
    match readOf entry.1 entry.2 with
    | some (call, path) => reads.alter call fun old => insert path (old.getD ∅)
    | none => reads) ∅

/-- The verdict on a consumer as the surface shows it. -/
def surfaceResolution (resolution : ConsumerResolution) : SurfaceResolution :=
  match resolution.target with
  | some (.binds provenance _ _ _) => .binds resolution.boundEndpoints provenance
  | some .internal => .binds resolution.boundEndpoints (.static .regex)
  | some (.external host) => .external host
  | some (.unresolved reason targetService) => .unresolved reason targetService
  | none => .unresolved .noMatch none

/-- A resolution of the index as a consumer of the surface. -/
def consumerToDef (call : GlobalId) (resolution : ConsumerResolution)
    (reads : SortedMap GlobalId (Finset JsonPath)) : ConsumerDef where
  call := call
  resolution := surfaceResolution resolution
  reads := (reads.get? call).getD ∅
  readsComplete := resolution.readsComplete

/-- What a resolved consumer calls: its first endpoint, its host, or the name of its call. -/
def consumerTargetKey (call : GlobalId) (resolution : ConsumerResolution) : ConsumerTargetKey :=
  let name := call.name.getD ""
  let bound := match resolution.boundEndpoints.head? with
    | some id => ConsumerTargetKey.contract id.key
    | none => .urlExpr name
  match resolution.target with
  | some (.binds ..) => bound
  | some .internal => bound
  | some (.external host) => .urlExpr host
  | some (.unresolved ..) => .urlExpr name
  | none => .urlExpr name

/-- The key a resolution is filed under. The line of the call is not part of it. -/
def consumerKey (call : GlobalId) (resolution : ConsumerResolution) : ConsumerKey where
  caller :=
    { repo := (repoIdNew call.repoId).getD "unknown"
      path := call.path.getD ""
      container := none
      name := call.name.getD "" }
  target := consumerTargetKey call resolution

/-- The surface of an index. A later resolution replaces an earlier one of its key. -/
def ContractSurface.fromIndex (index : ContractIndex) : ContractSurface where
  endpoints := index.endpoints.mapEntries fun _ endpoint => endpointToDef endpoint
  consumers := index.consumerResolutions.foldl (fun consumers entry =>
    consumers.insert (consumerKey entry.1 entry.2)
      (consumerToDef entry.1 entry.2 (readsByCall index))) ∅

end Lain.Contracts
