import Mathlib
import Lain.Contracts.CouldMatch
import Lain.Contracts.Diff
import Lain.Snapshots.IndexCache

/-!
# Evaluating a change

The verdict on one change: the table of how compatible each kind of change is,
the trace of the consumers the base bound to the changed endpoint, the
could-match rule when none of them is affected, and last the coverage of every
repository of the scope, without which no change is waved through.
-/

namespace Lain.Contracts

open Foundation Federation

/-! ### The compatibility table -/

/-- How a change concerns consumers. -/
inductive Compat where
  | compatible | breaking | breakingIfRead | breakingIfSent | needsReview
  deriving DecidableEq

/-- The table of changes and directions. -/
def classify (kind : ChangeKind) (direction : Direction) : Compat :=
  match kind, direction with
  | .fieldRemoved .., .request => .compatible
  | .fieldRemoved .., _ => .breakingIfRead
  | .fieldAdded _ _ _ required, .request => if required then .breaking else .compatible
  | .fieldAdded .., _ => .compatible
  | .fieldRenamed _ _ _ _ required, .request => if required then .breaking else .needsReview
  | .fieldRenamed .., _ => .breakingIfRead
  | .fieldTypeChanged _ _ _ _ _ required, .request =>
    if required then .breaking else .breakingIfSent
  | .fieldTypeChanged .., _ => .breakingIfRead
  | .requirednessChanged _ _ _ nowRequired, .request =>
    if nowRequired then .breaking else .compatible
  | .requirednessChanged _ _ _ nowRequired, _ =>
    if nowRequired then .compatible else .breakingIfRead
  | .nullabilityChanged _ _ _ nowNullable, .request =>
    if nowNullable then .compatible else .breakingIfSent
  | .nullabilityChanged _ _ _ nowNullable, _ =>
    if nowNullable then .breakingIfRead else .compatible
  | .enumValueRemoved .., .request => .breakingIfSent
  | .enumValueRemoved .., _ => .compatible
  | .enumValueAdded .., .request => .compatible
  | .enumValueAdded .., _ => .needsReview
  | .endpointRemoved _, _ => .breaking
  | .pathChanged .., _ => .breaking
  | .methodChanged .., _ => .breaking
  | .endpointAdded _, _ => .compatible
  | .changedWithoutSchema _, _ => .needsReview
  | .handlerChanged _, _ => .needsReview
  | .consumerEndpointUnmatched _, _ => .breaking
  | .consumerFieldUnmatched .., _ => .breaking
  | .consumerRebound .., _ => .compatible

def ChangeKind.direction? : ChangeKind → Option Direction
  | .fieldRemoved _ direction _ => some direction
  | .fieldAdded _ direction _ _ => some direction
  | .fieldRenamed _ direction _ _ _ => some direction
  | .fieldTypeChanged _ direction _ _ _ _ => some direction
  | .requirednessChanged _ direction _ _ => some direction
  | .nullabilityChanged _ direction _ _ => some direction
  | .enumValueRemoved _ direction _ _ => some direction
  | .enumValueAdded _ direction _ _ => some direction
  | _ => none

/-- How compatible a change is, in its own direction. -/
def changeCompat (change : Change) : Compat :=
  classify change.kind (change.kind.direction?.getD .response)

/-- A change of a schema that the table calls compatible. -/
def isSchemaCompatibleChange (kind : ChangeKind) (compat : Compat) : Bool :=
  decide (compat = .compatible) &&
    match kind with
    | .fieldRemoved .. => true
    | .fieldAdded .. => true
    | .requirednessChanged .. => true
    | .nullabilityChanged .. => true
    | .enumValueAdded .. => true
    | .enumValueRemoved .. => true
    | _ => false

/-! ### Coverage -/

/-- One bucket of calls a sensor could not resolve. -/
structure UnresolvedRecord where
  reason : UnresolvedReason
  count : Nat
  sampleIds : List String

/-- Why a file was not analyzed. -/
inductive SkipReason where
  | unsupportedLanguage | unreadable | parseError | sizeCap
  deriving DecidableEq

/-- One bucket of files that were not analyzed. -/
structure SkipRecord where
  reason : SkipReason
  count : Nat
  samplePaths : List String

/-- What one sensor did for one language of a repository. -/
structure SensorLedger where
  filesSeen : Nat := 0
  filesAnalyzed : Nat := 0
  filesSkipped : List SkipRecord := []
  emitted : Nat := 0
  unresolved : List UnresolvedRecord := []
  error : Option String := none

/-- What is known of the analysis of one repository. -/
structure RepoCoverage where
  ledger : SortedMap String (SortedMap String SensorLedger)
  languagesPresent : Finset String
  sensorCounts : SortedMap String Nat := ∅
  cacheKey : Snapshots.CacheKey
  error : Option String

/-- The labels of the languages a sensor can read. -/
def consumerCapableLangs : List String :=
  ["python", "tsjs", "ts", "tsx", "rust", "go", "java", "csharp", "ruby", "kotlin"]

/-- The analysis of a repository succeeded, left nothing open, read every language present
that a sensor can read, and is of the analyzer version given. -/
def RepoCoverage.isComplete (cover : RepoCoverage) (langs : List String) (version : String) :
    Bool :=
  cover.error.isNone && decide (cover.cacheKey.analyzerVersion = version) &&
    (cover.ledger.entries.all fun sensor => sensor.2.entries.all fun entry =>
      entry.2.error.isNone && entry.2.unresolved.isEmpty) &&
    langs.all fun lang => decide (lang ∉ cover.languagesPresent) ||
      cover.ledger.entries.any fun sensor =>
        match sensor.2.get? lang with
        | some entry => decide (0 < entry.filesAnalyzed)
        | none => false

/-- A repository the analysis looked at. -/
structure ReviewedRepo where
  repo : String
  commit : Option String
  dirty : Bool

/-- A repository the analysis could not look at. -/
structure UnreviewedRepo where
  repo : String
  reason : String
  error : Option String

/-- The repositories an analysis speaks about. -/
structure Scope where
  reviewed : List ReviewedRepo := []
  unreviewed : List UnreviewedRepo := []
  configuredOnly : Bool := false

/-- What an analysis could and could not see. -/
structure Coverage where
  unresolvedConsumers : List ConsumerKey := []
  scope : Scope := {}
  repoCoverages : SortedMap String RepoCoverage := ∅

/-- The names of the repositories of a scope. -/
def scopeRepoNames (coverage : Coverage) : List String :=
  SortedMap.ordered <| coverage.scope.reviewed.map ReviewedRepo.repo ++
    coverage.scope.unreviewed.map UnreviewedRepo.repo

def incompleteRepos (coverage : Coverage) (version : String) : List String :=
  if (scopeRepoNames coverage).isEmpty || coverage.repoCoverages.entries.isEmpty then
    ["<uncovered_scope>"]
  else
    (scopeRepoNames coverage).filter fun repo =>
      match coverage.repoCoverages.get? repo with
      | some cover => !cover.isComplete consumerCapableLangs version
      | none => true

/-! ### The verdict -/

/-- How much a change matters. -/
inductive Class where
  | noKnownImpact | needsInvestigation | verified
  deriving DecidableEq

def Class.rank : Class → Nat
  | .noKnownImpact => 0
  | .needsInvestigation => 1
  | .verified => 2

/-- Why a change matters as much as it does. -/
inductive Reason where
  | staticBinding | confirmedBinding | heuristicBinding | sendsNotModeled
  | readsNotFullyTraced | needsReview | noSchema | unresolvedCandidates
  deriving DecidableEq

/-- A consumer a change affects. -/
structure Affected where
  service : ServiceName
  consumer : ConsumerKey
  impact : Class
  reason : Reason

/-- The verdict on a change. -/
structure Impact where
  service : ServiceName
  kind : ChangeKind
  impact : Class
  reason : Option Reason
  affected : List Affected
  scope : Scope
  coverage : Coverage
  compatibleChanges : Nat

/-- The service of a consumer is the repository of its caller. -/
def consumerService (key : ConsumerKey) : ServiceName :=
  key.caller.repo

/-- The endpoint a change of a provider is about. -/
def providerTargetEndpoint (change : Change) : Option EndpointId :=
  match change.kind with
  | .pathChanged _ target => some ⟨change.service, target⟩
  | .methodChanged _ target => some ⟨change.service, target⟩
  | .endpointAdded key => some ⟨change.service, key⟩
  | .fieldRemoved endpoint _ _ => some endpoint
  | .fieldAdded endpoint _ _ _ => some endpoint
  | .fieldRenamed endpoint _ _ _ _ => some endpoint
  | .fieldTypeChanged endpoint _ _ _ _ _ => some endpoint
  | .requirednessChanged endpoint _ _ _ => some endpoint
  | .nullabilityChanged endpoint _ _ _ => some endpoint
  | .enumValueRemoved endpoint _ _ _ => some endpoint
  | .enumValueAdded endpoint _ _ _ => some endpoint
  | .changedWithoutSchema endpoint => some endpoint
  | .handlerChanged endpoint => some endpoint
  | .endpointRemoved key => some ⟨change.service, key⟩
  | _ => none

def baseTargetKeys (change : Change) : List EndpointId :=
  (providerTargetEndpoint change).toList ++
    match change.kind with
    | .pathChanged source _ => [⟨change.service, source⟩]
    | .methodChanged source _ => [⟨change.service, source⟩]
    | _ => []

def ConsumerDef.boundTo (consumer : ConsumerDef) (endpoints : List EndpointId) : Bool :=
  match consumer.resolution with
  | .binds bound _ => endpoints.any fun endpoint => decide (endpoint ∈ bound)
  | _ => false

/-- A strict prefix. -/
def pathIsAncestor (parent descendant : JsonPath) : Bool :=
  decide (parent.length < descendant.length) && parent.isPrefixOf descendant

def ConsumerDef.readsAt (consumer : ConsumerDef) (path : JsonPath) : Bool :=
  decide (∃ read ∈ consumer.reads, pathIsAncestor path read = true ∨ read = path)

/-- A consumer is taken to read what a change is about. -/
def readsFieldFor (change : Change) (current former : ConsumerDef) : Bool :=
  match change.kind with
  | .fieldRenamed _ _ source target _ => current.readsAt target || former.readsAt source
  | .fieldRemoved _ _ path => current.readsAt path
  | .fieldAdded _ _ path _ => current.readsAt path
  | .fieldTypeChanged _ _ path _ _ _ => current.readsAt path
  | .requirednessChanged _ _ path _ => current.readsAt path
  | .nullabilityChanged _ _ path _ => current.readsAt path
  | .enumValueRemoved _ _ path _ => current.readsAt path
  | .enumValueAdded _ _ path _ => current.readsAt path
  | _ => false

/-- The reason that goes with how a consumer was bound. -/
def bindingReason (consumer : ConsumerDef) : Reason :=
  match consumer.resolution with
  | .binds _ (.static _) => .staticBinding
  | .binds _ (.confirmed _) => .confirmedBinding
  | _ => .heuristicBinding

/-- A consumer was bound by what the source says or by confirmation. -/
def isCertain (consumer : ConsumerDef) : Bool :=
  match consumer.resolution with
  | .binds _ (.static _) => true
  | .binds _ (.confirmed _) => true
  | _ => false

/-- What a change means for one bound consumer. -/
def perConsumerVerdict (compat : Compat) (change : Change) (reads readsComplete : Bool)
    (consumer : ConsumerDef) : Class × Reason :=
  let reason := bindingReason consumer
  let affected := if isCertain consumer then Class.verified else .needsInvestigation
  match compat with
  | .breaking => (affected, reason)
  | .breakingIfRead =>
    if reads then
      if readsComplete then (affected, reason) else (.needsInvestigation, .readsNotFullyTraced)
    else if readsComplete then (.noKnownImpact, reason)
    else (.needsInvestigation, .readsNotFullyTraced)
  | .breakingIfSent => (.needsInvestigation, .sendsNotModeled)
  | .needsReview =>
    match change.kind with
    | .enumValueAdded .. =>
      if reads then (.needsInvestigation, .needsReview)
      else if readsComplete then (.noKnownImpact, reason)
      else (.needsInvestigation, .readsNotFullyTraced)
    | .changedWithoutSchema _ => (.needsInvestigation, .noSchema)
    | _ => (.needsInvestigation, .needsReview)
  | .compatible => (.noKnownImpact, reason)

/-- The class of a change of a consumer itself. -/
def consumerSideClass (consumer : Option ConsumerDef) (coverage : Coverage) : Class :=
  match consumer with
  | none => .needsInvestigation
  | some consumer =>
    match consumer.resolution with
    | .binds (target :: _) _ =>
      if (coverage.scope.reviewed.any fun r => decide (r.repo = target.service)) &&
          isCertain consumer then .verified
      else .needsInvestigation
    | _ => .needsInvestigation

structure Verdict where
  impact : Class := .noKnownImpact
  reason : Option Reason := none
  affected : List Affected := []
  compatibleChanges : Nat := 0

def baseConsumers (change : Change) (base : ContractSurface) :
    List (ConsumerKey × ConsumerDef) :=
  base.consumers.entries.filter fun entry => entry.2.boundTo (baseTargetKeys change)

def currentDef (head : ContractSurface) (entry : ConsumerKey × ConsumerDef) : ConsumerDef :=
  (head.consumers.get? entry.1).getD entry.2

def consumerVerdict (change : Change) (head : ContractSurface)
    (entry : ConsumerKey × ConsumerDef) : Class × Reason :=
  let current := currentDef head entry
  perConsumerVerdict (changeCompat change) change (readsFieldFor change current entry.2)
    current.readsComplete current

def traceOne (change : Change) (head : ContractSurface) (verdict : Verdict)
    (entry : ConsumerKey × ConsumerDef) : Verdict :=
  let (impact, reason) := consumerVerdict change head entry
  if impact = .noKnownImpact then verdict
  else
    { verdict with
      impact := if verdict.impact.rank ≤ impact.rank then impact else verdict.impact
      reason := if verdict.impact.rank ≤ impact.rank then some reason else verdict.reason
      affected := verdict.affected ++ [⟨consumerService entry.1, entry.1, impact, reason⟩] }

def quietVerdict (change : Change) : Verdict :=
  match changeCompat change with
  | .compatible => { compatibleChanges := 1 }
  | .breakingIfSent => { impact := .needsInvestigation, reason := some .sendsNotModeled }
  | _ =>
    match change.kind with
    | .changedWithoutSchema _ => { impact := .needsInvestigation, reason := some .noSchema }
    | .handlerChanged _ => { impact := .needsInvestigation, reason := some .needsReview }
    | _ => {}

def unaffectedVerdict (change : Change) (head : ContractSurface) (coverage : Coverage) :
    Verdict :=
  match providerTargetEndpoint change with
  | none => quietVerdict change
  | some target =>
    let candidates := coverage.unresolvedConsumers.filter fun u => couldMatch u target head
    if !candidates.isEmpty && !isSchemaCompatibleChange change.kind (changeCompat change) then
      { impact := .needsInvestigation
        reason := some .unresolvedCandidates
        affected := candidates.map fun u =>
          ⟨consumerService u, u, .needsInvestigation, .unresolvedCandidates⟩ }
    else quietVerdict change

def coverageConsumer (repos : List String) : ConsumerKey where
  caller := ⟨"coverage", "<coverage>", none, "<incomplete_repo>"⟩
  target := .urlExpr ("incomplete:" ++ ",".intercalate repos)

def downgrade (change : Change) (coverage : Coverage) (version : String) (verdict : Verdict) :
    Verdict :=
  let incomplete := incompleteRepos coverage version
  if verdict.impact = .noKnownImpact ∧
      isSchemaCompatibleChange change.kind (changeCompat change) = false ∧
      incomplete.isEmpty = false then
    { verdict with
      impact := .needsInvestigation
      reason := some .unresolvedCandidates
      affected := verdict.affected ++
        [⟨change.service, coverageConsumer incomplete, .needsInvestigation,
          .unresolvedCandidates⟩] }
  else verdict

/-- A verdict with what it is about. -/
def finalizeImpact (change : Change) (coverage : Coverage) (verdict : Verdict) : Impact where
  service := change.service
  kind := change.kind
  impact := verdict.impact
  reason := verdict.reason
  affected := verdict.affected
  scope := coverage.scope
  coverage := coverage
  compatibleChanges := verdict.compatibleChanges

def ChangeKind.consumer? : ChangeKind → Option ConsumerKey
  | .consumerEndpointUnmatched consumer => some consumer
  | .consumerFieldUnmatched consumer _ => some consumer
  | .consumerRebound consumer _ _ => some consumer
  | _ => none

/-- The verdict on a change, for an analyzer version. -/
def evaluate (version : String) (change : Change) (base head : ContractSurface)
    (coverage : Coverage) : Impact :=
  match change.kind.consumer? with
  | some consumer =>
    let impact := consumerSideClass (head.consumers.get? consumer) coverage
    finalizeImpact change coverage
      { impact := impact
        reason := some .heuristicBinding
        affected := [⟨consumerService consumer, consumer, impact, .heuristicBinding⟩] }
  | none =>
    let traced := (baseConsumers change base).foldl (traceOne change head) {}
    let verdict :=
      if traced.affected.isEmpty then unaffectedVerdict change head coverage else traced
    finalizeImpact change coverage (downgrade change coverage version verdict)

end Lain.Contracts
