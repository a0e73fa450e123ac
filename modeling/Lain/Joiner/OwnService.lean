import Mathlib
import Lain.Joiner.Verdicts

/-!
# Binds inside one service

A bind is meant to join two services.
-/

namespace Lain.Joiner

open Foundation Contracts Federation

def foreignHost (consumer : ConsumerFact) : Option String :=
  match consumer.url.host with
  | .literal host => if hostIsExternalExempt host then none else some host
  | _ => none

def dialedByConfig (callId : GlobalId) (consumer : ConsumerFact)
    (config : ContractFederationConfig) : Option ServiceName :=
  match (targetServiceFromEnv consumer config).or (targetServiceFromHosts consumer config) with
  | some svc => some svc
  | none =>
    match foreignHost consumer with
    | some _ => none
    | none => (hostAlias callId consumer config).map HostAliasDecl.service

def dialedService (callId : GlobalId) (consumer : ConsumerFact)
    (config : ContractFederationConfig) (registry : ClientRegistry) (env : EnvBindingIndex) :
    Option ServiceName :=
  match (targetServiceViaRegistry consumer registry config).or
      (targetServiceFromHttpClient consumer config) with
  | some svc => some svc
  | none =>
    match resolveEnvConsumer consumer env config with
    | some (.service svc, _) => some svc
    | some (.ambiguous _, _) => none
    | some (.unmapped, _) => dialedByConfig callId consumer config
    | none => dialedByConfig callId consumer config

def readsTables : ContractFact → Bool
  | .tableConsumer _ => true
  | _ => false

namespace JoinInput

variable (input : JoinInput)

def dialsOf (site : Site) : Option ServiceName :=
  match GlobalId.parse site.1.id, site.2 with
  | some callId, .consumer consumer =>
    if isWrapperCandidate consumer && !input.registryHasDef consumer &&
        !input.httpClientsMatch consumer then none
    else dialedService callId consumer input.config input.registry input.env
  | _, _ => none

def ownRoute (site : Site) : List BindsEdge :=
  match GlobalId.parse site.1.id, site.2 with
  | some callId, .consumer consumer =>
    (matchOneService callId consumer (input.ownService site.1) (input.ownService site.1)
      input.endpoints).binds
  | _, _ => []

/-- No HTTP call that names its own service matches a route there, unless another bind takes
the place of its edge. -/
def DialsOthers : Prop :=
  ∀ site ∈ input.sites, input.dialsOf site = some (input.ownService site.1) →
    ∀ edge ∈ input.ownRoute site, ¬ input.Stays edge

/-- Every edge of the output that a fact other than a table reader emits joins two services. -/
def JoinsServices : Prop :=
  ∀ edge ∈ input.run.binds, ∀ site ∈ input.sites, readsTables site.2 = false →
    input.Emits site edge → edge.consumerService ≠ edge.providerService

end JoinInput

/-! ### Where each rung looks -/

section Rungs

variable {callId : GlobalId} {ownService : ServiceName} {endpoints : EndpointTable}
  {edge : BindsEdge}

theorem providerService_of_matchOneService {consumer : ConsumerFact} {svc : ServiceName}
    (emitted : edge ∈ (matchOneService callId consumer ownService svc endpoints).binds) :
    edge.providerService = svc := by
  have byOperation : edge ∈ (matchByOperationId callId consumer ownService svc endpoints).binds →
      edge.providerService = svc := by
    intro member
    unfold matchByOperationId at member
    dsimp only at member
    split at member
    · obtain rfl := List.mem_singleton.mp member
      rfl
    · cases member
  unfold matchOneService at emitted
  split at emitted
  · cases emitted
  · split at emitted
    · exact byOperation emitted
    · split_ifs at emitted
      · exact byOperation emitted
      · obtain rfl := List.mem_singleton.mp emitted
        rfl

theorem apart_of_resolveUnbound {consumer : ConsumerFact} {config : ContractFederationConfig}
    {template : String} {envUnmappedPending : Bool}
    (emitted : edge ∈ (resolveUnbound callId consumer ownService config endpoints template
      envUnmappedPending).binds) : edge.providerService ≠ ownService := by
  unfold resolveUnbound at emitted
  dsimp only at emitted
  split at emitted
  · cases emitted
  · obtain ⟨svc, hit, found⟩ := List.mem_filterMap.mp emitted
    unfold unboundEdge at found
    obtain ⟨best, _, rfl⟩ := Option.map_eq_some_iff.mp found
    unfold unboundHits at hit
    rw [List.mem_dedup, List.mem_insertionSort] at hit
    obtain ⟨entry, member, rfl⟩ := List.mem_map.mp hit
    exact of_decide_eq_true (Bool.and_eq_true_iff.mp (List.mem_filter.mp member).2).1

theorem apart_of_resolveByKey {candidateFilter : EndpointId → Bool} {policy : AmbiguityPolicy}
    (emitted : edge ∈ (resolveByKey callId endpoints candidateFilter policy ownService).binds) :
    edge.providerService ≠ ownService := by
  have apart : edge ∈ (bindAll callId ownService ((firstProviders endpoints candidateFilter).filter
      fun c => decide (c.1.service ≠ ownService))).binds → edge.providerService ≠ ownService := by
    intro member
    obtain ⟨c, candidate, rfl⟩ := List.mem_map.mp member
    exact of_decide_eq_true (List.mem_filter.mp candidate).2
  unfold resolveByKey at emitted
  dsimp only at emitted
  split at emitted
  · cases emitted
  · split at emitted <;> split at emitted
    · cases emitted
    · exact apart emitted
    · exact apart emitted
    · cases emitted
    · exact apart emitted
    · cases emitted

theorem binds_of_dialedByConfig {consumer : ConsumerFact} {config : ContractFederationConfig}
    {envUnmappedPending : Bool} {svc : ServiceName}
    (dialed : dialedByConfig callId consumer config = some svc) :
    (resolveByConfig callId consumer ownService config endpoints envUnmappedPending).binds =
      (matchOneService callId consumer ownService svc endpoints).binds := by
  unfold dialedByConfig at dialed
  unfold resolveByConfig
  dsimp only
  cases named : (targetServiceFromEnv consumer config).or
      (targetServiceFromHosts consumer config) with
  | some declared =>
    rw [named] at dialed
    obtain rfl := Option.some.inj dialed
    rfl
  | none =>
    rw [named] at dialed
    dsimp only at dialed ⊢
    split at dialed
    · cases dialed
    next unhosted =>
        unfold foreignHost at unhosted
        obtain ⟨aliased, known, rfl⟩ := Option.map_eq_some_iff.mp dialed
        split
        next host foreign =>
            exact absurd (foreign.symm.trans unhosted) (Option.some_ne_none host)
        · rw [known]

theorem apart_of_dialedByConfig {consumer : ConsumerFact} {config : ContractFederationConfig}
    {envUnmappedPending : Bool} (unnamed : dialedByConfig callId consumer config = none)
    (emitted : edge ∈ (resolveByConfig callId consumer ownService config endpoints
      envUnmappedPending).binds) : edge.providerService ≠ ownService := by
  unfold dialedByConfig at unnamed
  unfold resolveByConfig at emitted
  dsimp only at emitted
  cases named : (targetServiceFromEnv consumer config).or
      (targetServiceFromHosts consumer config) with
  | some declared =>
    rw [named] at unnamed
    cases unnamed
  | none =>
    rw [named] at unnamed emitted
    dsimp only at unnamed emitted
    split at emitted
    · cases emitted
    next foreign =>
        have unhosted : foreignHost consumer = none := foreign
        rw [unhosted] at unnamed
        have unaliased := Option.map_eq_none_iff.mp unnamed
        rw [unaliased] at emitted
        split at emitted
        next known => cases known
        · cases emitted
        · split at emitted
          · cases emitted
          · exact apart_of_resolveUnbound emitted

theorem binds_of_dialedService {consumer : ConsumerFact} {config : ContractFederationConfig}
    {registry : ClientRegistry} {env : EnvBindingIndex} {svc : ServiceName}
    (dialed : dialedService callId consumer config registry env = some svc) :
    (resolveConsumer callId consumer ownService config endpoints registry env).binds =
      (matchOneService callId consumer ownService svc endpoints).binds := by
  unfold dialedService at dialed
  unfold resolveConsumer
  cases named : (targetServiceViaRegistry consumer registry config).or
      (targetServiceFromHttpClient consumer config) with
  | some declared =>
    rw [named] at dialed
    obtain rfl := Option.some.inj dialed
    rfl
  | none =>
    rw [named] at dialed
    dsimp only at dialed ⊢
    rcases files : resolveEnvConsumer consumer env config with _ | ⟨found | hosts | _, counted⟩
      <;> rw [files] at dialed
    · exact binds_of_dialedByConfig dialed
    · obtain rfl := Option.some.inj dialed
      rfl
    · cases dialed
    · exact binds_of_dialedByConfig dialed

/-- **An HTTP call that names no service is bound to others only.** -/
theorem apart_of_dialedService {consumer : ConsumerFact} {config : ContractFederationConfig}
    {registry : ClientRegistry} {env : EnvBindingIndex}
    (unnamed : dialedService callId consumer config registry env = none)
    (emitted : edge ∈ (resolveConsumer callId consumer ownService config endpoints registry
      env).binds) : edge.providerService ≠ ownService := by
  unfold dialedService at unnamed
  unfold resolveConsumer at emitted
  cases named : (targetServiceViaRegistry consumer registry config).or
      (targetServiceFromHttpClient consumer config) with
  | some declared =>
    rw [named] at unnamed
    cases unnamed
  | none =>
    rw [named] at unnamed emitted
    dsimp only at unnamed emitted
    rcases files : resolveEnvConsumer consumer env config with _ | ⟨found | hosts | _, counted⟩
      <;> rw [files] at unnamed emitted
    · exact apart_of_dialedByConfig unnamed emitted
    · cases unnamed
    · cases emitted
    · exact apart_of_dialedByConfig unnamed emitted

theorem apart_of_dispatch {config : ContractFederationConfig} {fact : ContractFact} {r : Resolved}
    (unread : readsTables fact = false)
    (verdict : dispatch callId ownService endpoints config fact = some r)
    (emitted : edge ∈ r.binds) : edge.providerService ≠ ownService := by
  unfold dispatch at verdict
  split at verdict
  · split_ifs at verdict <;> obtain rfl := Option.some.inj verdict
    · cases emitted
    · exact apart_of_resolveByKey emitted
  · obtain rfl := Option.some.inj verdict
    unfold resolveRpcConsumer at emitted
    split at emitted
    · cases emitted
    · dsimp only at emitted
      split_ifs at emitted
      · exact apart_of_resolveByKey emitted
      · exact apart_of_resolveByKey emitted
  · obtain rfl := Option.some.inj verdict
    exact apart_of_resolveByKey emitted
  · obtain rfl := Option.some.inj verdict
    unfold resolveWebSocketConsumer at emitted
    dsimp only at emitted
    split at emitted
    · split at emitted
      · cases emitted
      · exact apart_of_resolveByKey emitted
    · exact apart_of_resolveByKey emitted
  · cases unread
  · cases verdict

end Rungs

namespace JoinInput

variable {input : JoinInput} {site : Site} {edge : BindsEdge}

theorem emits_consumer_iff {node : GraphNode} {consumer : ConsumerFact} :
    input.Emits (node, .consumer consumer) edge ↔
      ∃ callId, GlobalId.parse node.id = some callId ∧
        (isWrapperCandidate consumer && !input.registryHasDef consumer &&
          !input.httpClientsMatch consumer) = false ∧
        edge ∈ (resolveConsumer callId consumer (input.ownService node) input.config
          input.endpoints input.registry input.env).binds := by
  unfold Emits tierVerdict resolveFact resolveHttp
  dsimp only
  cases GlobalId.parse node.id with
  | none => simp
  | some callId =>
    rw [Option.bind_some]
    constructor
    · rintro ⟨r, verdict, member⟩
      split_ifs at verdict with passed bare
      · obtain rfl := Option.some.inj verdict
        cases member
      · obtain rfl := Option.some.inj verdict
        exact ⟨callId, rfl, Bool.eq_false_of_not_eq_true passed, member⟩
    · rintro ⟨_, same, kept, member⟩
      obtain rfl := Option.some.inj same
      rw [kept]
      exact ⟨_, rfl, member⟩

theorem providerService_of_ownRoute (member : edge ∈ input.ownRoute site) :
    edge.providerService = input.ownService site.1 := by
  unfold ownRoute at member
  split at member
  · exact providerService_of_matchOneService member
  · cases member

theorem emits_of_ownRoute (own : input.dialsOf site = some (input.ownService site.1))
    (member : edge ∈ input.ownRoute site) :
    readsTables site.2 = false ∧ input.Emits site edge := by
  obtain ⟨node, fact⟩ := site
  unfold dialsOf at own
  unfold ownRoute at member
  split at own
  next callId consumer parsed isConsumer =>
      dsimp only at parsed isConsumer own member
      subst isConsumer
      rw [parsed] at member
      refine ⟨rfl, emits_consumer_iff.mpr ⟨callId, parsed, ?_⟩⟩
      split_ifs at own with passed
      refine ⟨Bool.eq_false_of_not_eq_true passed, ?_⟩
      rw [binds_of_dialedService own]
      exact member
  · cases own

theorem ownRoute_of_emits (unread : readsTables site.2 = false) (emitted : input.Emits site edge)
    (inside : edge.providerService = input.ownService site.1) :
    input.dialsOf site = some (input.ownService site.1) ∧ edge ∈ input.ownRoute site := by
  obtain ⟨node, fact⟩ := site
  obtain ⟨r, verdict, bound⟩ := id emitted
  obtain ⟨ownId, named, resolved⟩ := Option.bind_eq_some_iff.mp verdict
  unfold resolveFact at resolved
  dsimp only at resolved
  split at resolved
  next consumer =>
      obtain ⟨callId, parsed, kept, member⟩ := emits_consumer_iff.mp emitted
      cases dialed : dialedService callId consumer input.config input.registry input.env with
      | none => exact absurd inside (apart_of_dialedService dialed member)
      | some svc =>
        rw [binds_of_dialedService dialed] at member
        obtain rfl : svc = input.ownService node :=
          (providerService_of_matchOneService member).symm.trans inside
        unfold dialsOf ownRoute
        dsimp only
        rw [parsed]
        dsimp only
        rw [kept]
        exact ⟨dialed, member⟩
  · exact absurd inside (apart_of_dispatch unread resolved bound)

/-- **Binds join two services** exactly when no call that dials its own service finds a route
there. -/
theorem joinsServices_iff : input.JoinsServices ↔ input.DialsOthers := by
  constructor
  · intro joins site member own edge found stays
    obtain ⟨unread, emitted⟩ := emits_of_ownRoute own found
    have tier : edge ∈ input.tierBinds := mem_tierBinds.mpr ⟨site, member, emitted⟩
    refine joins edge ((mem_run_binds_iff_stays tier).mpr stays) site member unread emitted ?_
    obtain ⟨r, verdict, bound⟩ := emitted
    obtain ⟨callId, _, ofTiers⟩ := ofTiers_of_tierVerdict verdict
    rw [(ofTiers.binds edge bound).consumerService, providerService_of_ownRoute found]
  · intro others edge member site here unread emitted inside
    have tier : edge ∈ input.tierBinds := mem_tierBinds.mpr ⟨site, here, emitted⟩
    have own : edge.consumerService = input.ownService site.1 := by
      obtain ⟨r, verdict, bound⟩ := emitted
      obtain ⟨callId, _, ofTiers⟩ := ofTiers_of_tierVerdict verdict
      exact (ofTiers.binds edge bound).consumerService
    obtain ⟨dials, found⟩ := ownRoute_of_emits unread emitted (inside.symm.trans own)
    exact others site here dials edge found ((mem_run_binds_iff_stays tier).mp member)

/-! ### A service that dials itself -/

def selfDialing : JoinInput where
  nodes :=
    [{ id := "orders:HttpRoute:api.rs:list:1"
       nodeType := .httpRoute
       name := "list"
       path := "api.rs"
       contract := [.provider ⟨.get, "/orders", none, none, .code⟩] },
     { id := "orders:HttpClientCall:job.rs:sync:3"
       nodeType := .httpClientCall
       name := "sync"
       path := "job.rs"
       contract :=
         [.consumer ⟨.known .get, ⟨.literal "orders.internal", some "/orders"⟩, .library "reqwest",
           "http://orders.internal/orders", true⟩] }]
  config := { services := [{ name := "orders", repo := "orders", hosts := ["orders.internal"] }] }

/-- A call of a service that dials its own host is bound to its own route. -/
theorem not_joinsServices_selfDialing : ¬ selfDialing.JoinsServices := by
  intro joins
  have inside : ∃ site ∈ selfDialing.sites, readsTables site.2 = false ∧
      ∃ r ∈ selfDialing.tierVerdict site, ∃ edge ∈ r.binds, edge ∈ selfDialing.run.binds ∧
        edge.consumerService = edge.providerService := by
    decide +kernel
  obtain ⟨site, here, unread, r, verdict, edge, bound, kept, same⟩ := inside
  exact joins edge kept site here unread ⟨r, verdict, bound⟩ same

end JoinInput

end Lain.Joiner
