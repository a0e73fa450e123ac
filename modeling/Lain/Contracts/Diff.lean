import Mathlib
import Lain.Contracts.Surface
import Lain.Contracts.PathText

/-!
# Comparing two surfaces

The endpoints of two revisions are paired in one pass over the base, an
endpoint with itself where it can be, else with one that shares a handler or an
operation.
-/

namespace Lain.Contracts

open Foundation Federation

/-! ### Changes -/

/-- One way two surfaces differ. -/
inductive ChangeKind where
  | pathChanged (source target : ContractKey)
  | methodChanged (source target : ContractKey)
  | endpointRemoved (key : ContractKey)
  | endpointAdded (key : ContractKey)
  | fieldRemoved (endpoint : EndpointId) (direction : Direction) (path : JsonPath)
  | fieldAdded (endpoint : EndpointId) (direction : Direction) (path : JsonPath)
      (required : Bool)
  | fieldRenamed (endpoint : EndpointId) (direction : Direction) (source target : JsonPath)
      (required : Bool)
  | fieldTypeChanged (endpoint : EndpointId) (direction : Direction) (path : JsonPath)
      (source target : TypeDesc) (required : Bool)
  | requirednessChanged (endpoint : EndpointId) (direction : Direction) (path : JsonPath)
      (nowRequired : Bool)
  | nullabilityChanged (endpoint : EndpointId) (direction : Direction) (path : JsonPath)
      (nowNullable : Bool)
  | enumValueRemoved (endpoint : EndpointId) (direction : Direction) (path : JsonPath)
      (value : String)
  | enumValueAdded (endpoint : EndpointId) (direction : Direction) (path : JsonPath)
      (value : String)
  | changedWithoutSchema (endpoint : EndpointId)
  | handlerChanged (endpoint : EndpointId)
  | consumerEndpointUnmatched (consumer : ConsumerKey)
  | consumerFieldUnmatched (consumer : ConsumerKey) (field : JsonPath)
  | consumerRebound (consumer : ConsumerKey) (source target : EndpointId)
  deriving DecidableEq

/-- A difference and the service it belongs to. -/
structure Change where
  service : ServiceName
  kind : ChangeKind
  deriving DecidableEq

/-! ### The label a change is sorted by -/

/-- The name of a direction. -/
def directionLabel : Direction → String
  | .request => "request"
  | .response => "response"
  | .payload => "payload"

/-- The name of a consumer. -/
def consumerLabel (consumer : ConsumerKey) : String :=
  s!"{consumer.caller.path}:{consumer.caller.name}"

def fieldLabel (endpoint : EndpointId) (direction : Direction) (path : JsonPath) : String :=
  s!"{endpoint.key.display}:{directionLabel direction}:{JsonPath.display path}"

/-- The label of a change. -/
def kindLabel : ChangeKind → String
  | .pathChanged source target => s!"path:{source.display}->{target.display}"
  | .methodChanged source target => s!"method:{source.display}->{target.display}"
  | .endpointRemoved key => s!"removed:{key.display}"
  | .endpointAdded key => s!"added:{key.display}"
  | .fieldRemoved endpoint direction path =>
    s!"field-removed:{fieldLabel endpoint direction path}"
  | .fieldAdded endpoint direction path _ => s!"field-added:{fieldLabel endpoint direction path}"
  | .fieldRenamed endpoint direction source target _ =>
    s!"field-renamed:{fieldLabel endpoint direction source}->{JsonPath.display target}"
  | .fieldTypeChanged endpoint direction path _ _ _ =>
    s!"field-type:{fieldLabel endpoint direction path}"
  | .requirednessChanged endpoint direction path _ =>
    s!"requiredness:{fieldLabel endpoint direction path}"
  | .nullabilityChanged endpoint direction path _ =>
    s!"nullability:{fieldLabel endpoint direction path}"
  | .enumValueRemoved endpoint direction path value =>
    s!"enum-removed:{fieldLabel endpoint direction path}:{value}"
  | .enumValueAdded endpoint direction path value =>
    s!"enum-added:{fieldLabel endpoint direction path}:{value}"
  | .changedWithoutSchema endpoint => s!"changed-no-schema:{endpoint.key.display}"
  | .handlerChanged endpoint => s!"handler-changed:{endpoint.key.display}"
  | .consumerEndpointUnmatched consumer => s!"consumer-unmatched:{consumerLabel consumer}"
  | .consumerFieldUnmatched consumer field =>
    s!"consumer-field-unmatched:{consumerLabel consumer}:{JsonPath.display field}"
  | .consumerRebound consumer source target =>
    s!"consumer-rebound:{consumerLabel consumer}:{source.key.display}->{target.key.display}"

/-- What changes are sorted by. -/
def changeSortKey (change : Change) : String :=
  s!"{change.service}|{kindLabel change.kind}"

def sortChanges (changes : List Change) : List Change :=
  changes.mergeSort fun a b => decide (changeSortKey a ≤ changeSortKey b)

/-! ### Pairing endpoints -/

/-- Two endpoints have a handler in common, or an operation that is not empty. -/
def sharesHandlerOrOperationId (a b : EndpointDef) : Bool :=
  a.providers.any fun pa => b.providers.any fun pb =>
    (pa.handler.isSome && decide (pa.handler = pb.handler)) ||
      (pa.operationId.isSome && decide (pa.operationId = pb.operationId) &&
        decide (pa.operationId ≠ some ""))

structure Pairing where
  pairs : List (EndpointId × EndpointId) := []
  baseRemaining : SortedMap EndpointId EndpointDef
  headRemaining : SortedMap EndpointId EndpointDef

def replaces (base head : EndpointId × EndpointDef) : Bool :=
  decide (head.1.service = base.1.service) && sharesHandlerOrOperationId base.2 head.2

def partner (head : ContractSurface) (state : Pairing) (entry : EndpointId × EndpointDef) :
    Option EndpointId :=
  if (state.headRemaining.get? entry.1).isSome then some entry.1
  else
    (head.endpoints.entries.find? fun candidate =>
      (state.headRemaining.get? candidate.1).isSome && replaces entry candidate).map Prod.fst

def pairOne (head : ContractSurface) (state : Pairing) (entry : EndpointId × EndpointDef) :
    Pairing :=
  if (state.baseRemaining.get? entry.1).isNone then state
  else
    match partner head state entry with
    | some id =>
      { pairs := state.pairs ++ [(entry.1, id)]
        baseRemaining := state.baseRemaining.erase entry.1
        headRemaining := state.headRemaining.erase id }
    | none => state

def pairEndpoints (base head : ContractSurface) : Pairing :=
  base.endpoints.entries.foldl (pairOne head)
    { baseRemaining := base.endpoints, headRemaining := head.endpoints }

/-! ### Comparing fields -/

/-- A strict ancestor of a path is in one schema and not in the other. -/
def hasAncestorOnlyIn (path : JsonPath) (inside outside : SortedMap JsonPath FieldMeta) : Bool :=
  (List.range path.length).any fun i =>
    decide (0 < i) && (inside.get? (path.take i)).isSome && (outside.get? (path.take i)).isNone

/-- The topmost paths of one schema that the other lacks. -/
def onlyIn (inside outside : SortedMap JsonPath FieldMeta) : List JsonPath :=
  inside.keys.filter fun path =>
    (outside.get? path).isNone && !hasAncestorOnlyIn path inside outside

/-- A path without its last segment. -/
def parentOf (path : JsonPath) : JsonPath :=
  path.dropLast

def renames (base head : SortedMap JsonPath FieldMeta) (removed added : JsonPath) : Bool :=
  decide (parentOf removed = parentOf added) &&
    match base.get? removed, head.get? added with
    | some old, some new => decide (old.ty = new.ty)
    | _, _ => false

def findRenames (base head : SortedMap JsonPath FieldMeta) (removed added : List JsonPath) :
    List JsonPath × List JsonPath :=
  removed.foldl (fun found path =>
    match added.find? fun target =>
      renames base head path target && decide (path ∉ found.1) && decide (target ∉ found.2) with
    | some target => (found.1 ++ [path], found.2 ++ [target])
    | none => found) ([], [])

def enumChanges (endpoint : EndpointId) (direction : Direction) (path : JsonPath)
    (old new : FieldMeta) : List ChangeKind :=
  match old.enumValues, new.enumValues with
  | some before, some after =>
    ((SortedMap.ordered before).filter (· ∉ after)).map
        (.enumValueRemoved endpoint direction path) ++
      ((SortedMap.ordered after).filter (· ∉ before)).map
        (.enumValueAdded endpoint direction path)
  | none, none => []
  | _, _ => [.fieldTypeChanged endpoint direction path old.ty new.ty new.required]

def attributeChanges (endpoint : EndpointId) (direction : Direction) (path : JsonPath)
    (old new : FieldMeta) : List ChangeKind :=
  (if old.ty ≠ new.ty then
      [.fieldTypeChanged endpoint direction path old.ty new.ty new.required] else []) ++
  (if old.required ≠ new.required then
      [.requirednessChanged endpoint direction path new.required] else []) ++
  (if old.nullable ≠ new.nullable then
      [.nullabilityChanged endpoint direction path new.nullable] else []) ++
  enumChanges endpoint direction path old new

def partOfRename (endpoint : EndpointId) (direction : Direction)
    (renamed : List JsonPath × List JsonPath) : ChangeKind → Bool
  | .fieldRemoved e d path =>
    decide (e = endpoint) && decide (d = direction) && decide (path ∈ renamed.1)
  | .fieldAdded e d path _ =>
    decide (e = endpoint) && decide (d = direction) && decide (path ∈ renamed.2)
  | _ => false

/-- Compare the fields of one direction of an endpoint, after the changes found so far. -/
def diffFields (out : List Change) (endpoint : EndpointId) (direction : Direction)
    (base head : Option (SortedMap JsonPath FieldMeta)) : List Change :=
  let base := base.getD ∅
  let head := head.getD ∅
  let change := Change.mk endpoint.service
  let required path := ((head.get? path).map FieldMeta.required).getD false
  let removed := onlyIn base head
  let added := onlyIn head base
  let renamed := findRenames base head removed added
  let found := out ++
    (removed.filter fun path => (base.get? path).isSome).map
      (fun path => change (.fieldRemoved endpoint direction path)) ++
    added.map fun path => change (.fieldAdded endpoint direction path (required path))
  (found.filter fun c => !partOfRename endpoint direction renamed c.kind) ++
  ((SortedMap.ordered renamed.1).zip (SortedMap.ordered renamed.2)).map
    (fun rename => change
      (.fieldRenamed endpoint direction rename.1 rename.2 (required rename.2))) ++
  base.entries.flatMap fun entry =>
    match head.get? entry.1 with
    | some new => (attributeChanges endpoint direction entry.1 entry.2 new).map change
    | none => []

/-! ### Changed files -/

/-- The difference of one repository between two revisions. -/
inductive RepoDiffResult where
  | changed (files : Finset String)
  | unchanged
  | unavailable (reason : String)

/-- Where the comparison learns which files and lines changed. -/
structure ChangedFilesSource where
  changedFiles : String → String → Finset String
  changedLineRangesForRepo :
    String → String → String → Option (SortedMap String (List (Nat × Nat)))
  changedFilesForRepo : String → String → String → RepoDiffResult

def anchorsIn (base head : ContractSurface) (repo file : String) : List (EndpointId × Nat) :=
  (base.endpoints.entries ++ head.endpoints.entries).flatMap fun entry =>
    entry.2.providers.filterMap fun provider => do
      let handler ← provider.handler
      let line ← provider.nodeId.lineStart
      if provider.nodeId.path = some handler.path ∧ line ≠ 0 ∧
          provider.nodeId.repoId = repo ∧ handler.path = file then
        return (entry.1, line)
      else none

def handlerFiles (base head : EndpointDef) : List (String × String) :=
  (base.providers ++ head.providers).filterMap fun provider =>
    provider.handler.map fun handler => (provider.nodeId.repoId, handler.path)

/-- The repositories that provide either of two endpoints. -/
def endpointProviderRepos (base head : EndpointDef) : List String :=
  SortedMap.ordered <| (base.providers ++ head.providers).flatMap fun provider =>
    (if provider.nodeId.repoId ≠ "" then [provider.nodeId.repoId] else []) ++
      match provider.handler with
      | some handler => if handler.repo ≠ "" then [handler.repo] else []
      | none => []

def changedIn (files : ChangedFilesSource) (base head : EndpointDef) :
    List (String × Finset String) :=
  match endpointProviderRepos base head with
  | [] => [("", files.changedFiles "" "")]
  | repos => repos.filterMap fun repo =>
    match files.changedFilesForRepo repo "" "" with
    | .changed changed => some (repo, changed)
    | .unchanged => none
    | .unavailable _ => none

def sourceChanged (files : ChangedFilesSource) (base head : EndpointDef) : Bool :=
  (changedIn files base head).any fun note =>
    decide (∃ file ∈ base.sourceFiles ∪ head.sourceFiles, file ∈ note.2)

def spanLength (span : Nat × Nat) : Nat :=
  (span.2 + 2 ^ 32 - span.1) % 2 ^ 32 + 1

def touches (anchors : List (EndpointId × Nat)) (endpoint : EndpointId)
    (spans : List (Nat × Nat)) : Bool :=
  let mine := (anchors.filter fun anchor => decide (anchor.1 = endpoint)).map Prod.snd
  let points := (anchors.map Prod.snd).toFinset
  if mine.isEmpty then true
  else if (spans.map spanLength).sum > points.card then true
  else if !spans.all fun span =>
      (List.range' span.1 (span.2 + 1 - span.1)).all fun line => decide (line ∈ points) then true
  else mine.any fun line => spans.any fun span => decide (span.1 ≤ line ∧ line ≤ span.2)

def handlerChanged (files : ChangedFilesSource) (base head : ContractSurface)
    (endpoint : EndpointId) (baseDef headDef : EndpointDef) : Bool :=
  (handlerFiles baseDef headDef).any fun handler =>
    (changedIn files baseDef headDef).any (fun note =>
      decide (note.1 = handler.1) && decide (handler.2 ∈ note.2)) &&
    match (files.changedLineRangesForRepo handler.1 "" "").bind fun ranges =>
        ranges.get? handler.2 with
    | none => true
    | some spans => touches (anchorsIn base head handler.1 handler.2) endpoint spans

/-! ### The comparison -/

/-- The verb of an HTTP endpoint that spells it. -/
def methodOf (id : EndpointId) : Option HttpMethod :=
  match id.key with
  | .http (.known method) _ => some method
  | _ => none

def moved (pair : EndpointId × EndpointId) : List Change :=
  if pair.1.key ≠ pair.2.key then
    [⟨pair.2.service, .pathChanged pair.1.key pair.2.key⟩]
  else if methodOf pair.1 ≠ methodOf pair.2 then
    [⟨pair.2.service, .methodChanged pair.1.key pair.2.key⟩]
  else []

def diffPair (files : ChangedFilesSource) (base head : ContractSurface) (changes : List Change)
    (pair : EndpointId × EndpointId) : List Change :=
  match base.endpoints.get? pair.1, head.endpoints.get? pair.2 with
  | some baseDef, some headDef =>
    let compared := [Direction.request, .response, .payload].foldl (fun out direction =>
      diffFields out pair.2 direction (baseDef.schemas.get? direction)
        (headDef.schemas.get? direction)) (changes ++ moved pair)
    let explained := decide (changes.length < compared.length)
    if sourceChanged files baseDef headDef && !baseDef.hasSchema && !headDef.hasSchema then
      compared ++ [⟨pair.2.service, .changedWithoutSchema pair.2⟩]
    else if handlerChanged files base head pair.2 baseDef headDef && baseDef.hasSchema &&
        headDef.hasSchema && !explained then
      compared ++ [⟨pair.2.service, .handlerChanged pair.2⟩]
    else compared
  | _, _ => changes

def unpaired (pairing : Pairing) : List Change :=
  pairing.baseRemaining.keys.map (fun id => ⟨id.service, .endpointRemoved id.key⟩) ++
    pairing.headRemaining.keys.map fun id => ⟨id.service, .endpointAdded id.key⟩

/-- How the endpoints of two surfaces differ. -/
def diffContracts (base head : ContractSurface) (files : ChangedFilesSource) : List Change :=
  let pairing := pairEndpoints base head
  sortChanges (pairing.pairs.foldl (diffPair files base head) (unpaired pairing))

end Lain.Contracts
