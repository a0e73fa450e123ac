import Mathlib
import Lain.Joiner.Output
import Lain.Joiner.RpcKeys
import Lain.Foundation.Representatives

/-!
# What the output holds of the tiers and of the confirmations

The tiers give every consumer fact one verdict, and each confirmed binding puts one resolution
and one edge of its own for every call it confirms.
-/

namespace Lain.Joiner

open Foundation Contracts Federation

/-- A consumer fact with its node. -/
abbrev Site := GraphNode × ContractFact

abbrev Confirmation := CheckedBinding × (GlobalId × Bool)

def isConfirmedResolution (r : ConsumerResolution) : Bool :=
  match r.target with
  | some (.binds (.confirmed _) _ _ _) => true
  | _ => false

namespace Confirmation

/-- A confirmation is about a fact: of the node it confirms, and with its key. -/
def names (c : Confirmation) (site : Site) : Bool :=
  decide (GlobalId.parse site.1.id = some c.2.1) && (c.1.call? site.1).isSome &&
    site.2.consumerKeys.contains c.1.consumerKey

def providerKey (c : Confirmation) : ContractKey :=
  c.1.endpoint.key

end Confirmation

namespace JoinInput

variable (input : JoinInput)

def sites : List Site :=
  input.nodes.flatMap fun node => node.contract.map fun fact => (node, fact)

def tierVerdict (site : Site) : Option Resolved :=
  (GlobalId.parse site.1.id).bind fun callId =>
    input.resolveFact callId (input.ownService site.1) site.2

def applied : List CheckedBinding :=
  input.config.bindings.zipIdx.filterMap fun entry =>
    (checkBinding input.endpoints entry.2 entry.1).toOption

def confirmations : List Confirmation :=
  input.applied.flatMap fun binding => (binding.calls input.nodes).map fun call => (binding, call)

def confirmationsAt (callId : GlobalId) : List Confirmation :=
  input.confirmations.filter fun c => decide (c.2.1 = callId)

def confirmationsOf (site : Site) : List Confirmation :=
  input.confirmations.filter fun c => Confirmation.names c site

def isNamed (site : Site) : Bool :=
  input.confirmations.any fun c => Confirmation.names c site

def edgeOf (c : Confirmation) : BindsEdge :=
  c.1.edge input.assignments c.2.1

def resolutionOf (c : Confirmation) : ConsumerResolution :=
  c.1.resolution input.assignments c.2

def tierBinds : List BindsEdge :=
  input.resolved.flatMap Resolved.binds

def consumersOf (callId : GlobalId) : List ConsumerResolution :=
  (input.run.index.consumers.get? callId).getD []

def Emits (site : Site) (edge : BindsEdge) : Prop :=
  ∃ r, input.tierVerdict site = some r ∧ edge ∈ r.binds

end JoinInput

/-! ### What the tiers say -/

structure BindOfTiers (callId : GlobalId) (ownService : ServiceName) (endpoints : EndpointTable)
    (edge : BindsEdge) : Prop where
  consumer : edge.consumer = callId
  consumerService : edge.consumerService = ownService
  providerService : edge.providerService = edge.targetEndpoint.service
  provider : ∃ records, endpoints.get? edge.targetEndpoint = some records ∧
    ∃ p ∈ records, p.id = edge.provider
  unconfirmed : isConfirmed edge = false
  atMostOne : edge.confidence ≤ 1
  heuristic : isHeuristic edge.provenance = true ↔ edge.confidence < 1

structure Resolved.OfTiers (callId : GlobalId) (ownService : ServiceName)
    (endpoints : EndpointTable) (r : Resolved) : Prop where
  call : r.resolution.callId = callId
  target : r.resolution.target.isSome = true
  unconfirmed : isConfirmedResolution r.resolution = false
  binds : ∀ edge ∈ r.binds, BindOfTiers callId ownService endpoints edge

theorem mem_candidates {service : ServiceName} {method : MethodSpec} {template : String}
    {endpoints : EndpointTable} {best : ContractKey × MatchDetail} :
    best ∈ candidates service method template endpoints ↔
      ∃ records, endpoints.get? ⟨service, best.1⟩ = some records ∧
        records.findSome? (fun p => matchRoute method template p.method p.template) =
          some best.2 := by
  unfold candidates
  rw [List.mem_filterMap]
  constructor
  · rintro ⟨entry, member, found⟩
    split_ifs at found with here
    obtain ⟨detail, first, rfl⟩ := Option.map_eq_some_iff.mp found
    refine ⟨entry.2, ?_, first⟩
    rw [← SortedMap.mem_entries, ← here]
    exact member
  · rintro ⟨records, found, first⟩
    exact ⟨(⟨service, best.1⟩, records), SortedMap.mem_entries.mpr found, by simp [first]⟩

theorem mem_candidates_of_best {service : ServiceName} {method : MethodSpec} {template : String}
    {rule3 : Bool} {endpoints : EndpointTable} {best : ContractKey × MatchDetail}
    (found : bestProviderForIn service method template rule3 endpoints = some best) :
    best ∈ candidates service method template endpoints := by
  rw [← List.mem_insertionSort fun a b => keySpecificity b.1 ≤ keySpecificity a.1]
  unfold bestProviderForIn at found
  dsimp only at found
  split at found
  · exact List.mem_of_head? found
  · split at found
    next direct =>
        obtain rfl := Option.some.inj found
        exact List.mem_of_find?_eq_some (by assumption)
    · exact List.mem_of_head? found

theorem best_isSome {service : ServiceName} {method : MethodSpec} {template : String}
    (rule3 : Bool) {endpoints : EndpointTable} {c : ContractKey × MatchDetail}
    (member : c ∈ candidates service method template endpoints) :
    (bestProviderForIn service method template rule3 endpoints).isSome = true := by
  rw [← List.mem_insertionSort fun a b => keySpecificity b.1 ≤ keySpecificity a.1] at member
  unfold bestProviderForIn
  dsimp only
  split
  · exact List.isSome_head?.mpr (List.ne_nil_of_mem member)
  · split
    · rfl
    · exact List.isSome_head?.mpr (List.ne_nil_of_mem member)

theorem provider_of_best {service : ServiceName} {method : MethodSpec} {template : String}
    {rule3 : Bool} {endpoints : EndpointTable} {best : ContractKey × MatchDetail}
    (found : bestProviderForIn service method template rule3 endpoints = some best) :
    ∃ records, endpoints.get? ⟨service, best.1⟩ = some records ∧
      ∃ p ∈ records, p.id = providerNodeId endpoints service best.1 := by
  obtain ⟨records, here, first⟩ := mem_candidates.mp (mem_candidates_of_best found)
  cases records with
  | nil => cases first
  | cons p rest => exact ⟨p :: rest, here, p, List.mem_cons_self, by simp [providerNodeId, here]⟩

theorem confidence_of_matchRoute {cm : MethodSpec} {ct pt : String} {pm : HttpMethod}
    {detail : MatchDetail} (matched : matchRoute cm ct pm pt = some detail) :
    detail.confidence ≤ 1 ∧ (detail.kind = .prefixStripped → detail.confidence < 1) := by
  unfold matchRoute at matched
  split at matched
  · cases matched
  next conf allowed =>
      have bounded : conf ≤ 1 := by
        unfold methodConfidence at allowed
        split at allowed
        · cases allowed
          norm_num
        · split_ifs at allowed <;> cases allowed <;> exact le_rfl
      dsimp only at matched
      split_ifs at matched
      · cases matched
        exact ⟨bounded, fun stripped => by cases stripped⟩
      · cases matched
        exact ⟨bounded, fun stripped => by cases stripped⟩
      · obtain ⟨text, _, rfl⟩ := Option.map_eq_some_iff.mp matched
        have capped : min conf (5 / 10 : ℚ) < 1 := lt_of_le_of_lt (min_le_right _ _) (by norm_num)
        exact ⟨capped.le, fun _ => capped⟩

theorem confidence_of_best {service : ServiceName} {method : MethodSpec} {template : String}
    {rule3 : Bool} {endpoints : EndpointTable} {best : ContractKey × MatchDetail}
    (found : bestProviderForIn service method template rule3 endpoints = some best) :
    best.2.confidence ≤ 1 ∧ (best.2.kind = .prefixStripped → best.2.confidence < 1) := by
  obtain ⟨records, _, first⟩ := mem_candidates.mp (mem_candidates_of_best found)
  obtain ⟨p, _, matched⟩ := List.exists_of_findSome?_eq_some first
  exact confidence_of_matchRoute matched

theorem isHeuristic_provenanceForDetail {detail : MatchDetail} (bounded : detail.confidence ≤ 1)
    (stripped : detail.kind = .prefixStripped → detail.confidence < 1) :
    isHeuristic (provenanceForDetail detail) = true ↔ detail.confidence < 1 := by
  unfold provenanceForDetail
  split_ifs with isStripped certain unknown
  · exact ⟨fun _ => stripped isStripped, fun _ => rfl⟩
  · simp [isHeuristic, certain]
  · exact ⟨fun _ => unknown ▸ by norm_num, fun _ => rfl⟩
  · exact ⟨fun _ => lt_of_le_of_ne bounded certain, fun _ => rfl⟩

theorem provenanceForDetail_unconfirmed (detail : MatchDetail) (source : String) :
    provenanceForDetail detail ≠ .confirmed source := by
  unfold provenanceForDetail
  split_ifs <;> simp

namespace Resolved.OfTiers

variable {callId : GlobalId} {ownService : ServiceName} {endpoints : EndpointTable}

theorem unbound (readsComplete : Bool) {target : ConsumerTarget}
    (free : target.isBinds = false) :
    OfTiers callId ownService endpoints
      { resolution := Joiner.unbound callId ownService readsComplete target } where
  call := rfl
  target := rfl
  unconfirmed := by
    cases target with
    | binds => cases free
    | _ => rfl
  binds := by simp

theorem counted {r : Resolved} (tier : OfTiers callId ownService endpoints r)
    (external unresolvedEnv : List String) (ambiguousEnv : List (String × List String)) :
    OfTiers callId ownService endpoints
      ⟨r.resolution, r.binds, external, unresolvedEnv, ambiguousEnv⟩ :=
  ⟨tier.call, tier.target, tier.unconfirmed, tier.binds⟩

theorem bindOne (consumer : ConsumerFact) {targetService : ServiceName} {key : ContractKey}
    {provider : GlobalId} {provenance : EdgeProvenance} {confidence : ℚ}
    (routeMatch : RouteMatch) (strippedPrefix : Option String)
    (known : ∃ records, endpoints.get? ⟨targetService, key⟩ = some records ∧
      ∃ p ∈ records, p.id = provider)
    (unconfirmed : ∀ source, provenance ≠ .confirmed source) (bounded : confidence ≤ 1)
    (heuristic : isHeuristic provenance = true ↔ confidence < 1) :
    OfTiers callId ownService endpoints (Joiner.bindOne callId consumer ownService targetService
      key provider provenance confidence routeMatch strippedPrefix) where
  call := rfl
  target := rfl
  unconfirmed := by
    cases provenance with
    | confirmed source => exact absurd rfl (unconfirmed source)
    | _ => rfl
  binds := by
    intro edge member
    obtain rfl := List.mem_singleton.mp member
    refine ⟨rfl, rfl, rfl, known, ?_, bounded, heuristic⟩
    cases provenance with
    | confirmed source => exact absurd rfl (unconfirmed source)
    | _ => rfl

theorem matchByOperationId (consumer : ConsumerFact) (targetService : ServiceName) :
    OfTiers callId ownService endpoints
      (Joiner.matchByOperationId callId consumer ownService targetService endpoints) := by
  unfold Joiner.matchByOperationId
  dsimp only
  split
  next key provider found =>
      have known : ∃ records, endpoints.get? ⟨targetService, key⟩ = some records ∧
          ∃ p ∈ records, p.id = provider := by
        split at found
        · obtain ⟨entry, member, admitted⟩ := List.exists_of_findSome?_eq_some found
          split_ifs at admitted with here
          obtain ⟨p, first, same⟩ := Option.map_eq_some_iff.mp admitted
          obtain ⟨rfl, rfl⟩ := Prod.mk.inj same
          refine ⟨entry.2, ?_, p, List.mem_of_find?_eq_some first, rfl⟩
          rw [← SortedMap.mem_entries, ← here]
          exact member
        · cases found
      refine bindOne consumer _ _ known (fun source => by simp) ?_ ?_
      · norm_num [operationIdConfidence]
      · simp only [isHeuristic, operationIdConfidence, true_iff]
        norm_num
  · exact unbound _ rfl

theorem matchOneService (consumer : ConsumerFact) (targetService : ServiceName) :
    OfTiers callId ownService endpoints
      (Joiner.matchOneService callId consumer ownService targetService endpoints) := by
  unfold Joiner.matchOneService
  split
  · exact unbound _ rfl
  · split
    · exact matchByOperationId _ _
    next key detail found =>
        split_ifs
        · exact matchByOperationId _ _
        · obtain ⟨bounded, stripped⟩ := confidence_of_best found
          exact bindOne consumer _ _ (provider_of_best found)
            (provenanceForDetail_unconfirmed detail) bounded
            (isHeuristic_provenanceForDetail bounded stripped)

theorem unboundEdge_isSome {consumer : ConsumerFact} {config : ContractFederationConfig}
    {template : String} {svc : ServiceName} (heuristic : String × ℚ)
    (hit : svc ∈ unboundHits config ownService consumer.method template endpoints) :
    (unboundEdge callId consumer ownService template endpoints heuristic svc).isSome = true := by
  unfold unboundHits at hit
  rw [List.mem_dedup, List.mem_insertionSort] at hit
  obtain ⟨entry, member, rfl⟩ := List.mem_map.mp hit
  obtain ⟨listed, passes⟩ := List.mem_filter.mp member
  rw [Bool.and_eq_true] at passes
  obtain ⟨p, provides, strong⟩ := List.any_eq_true.mp passes.2
  unfold strongHit at strong
  rw [Bool.and_eq_true] at strong
  have matched : (entry.2.findSome? fun p =>
      matchRoute consumer.method template p.method p.template).isSome = true := by
    rw [List.findSome?_isSome_iff]
    refine ⟨p, provides, ?_⟩
    cases found : matchRoute consumer.method template p.method p.template with
    | none =>
      rw [found] at strong
      cases strong.2
    | some detail => rfl
  obtain ⟨detail, first⟩ := Option.isSome_iff_exists.mp matched
  have candidate : (entry.1.key, detail) ∈
      candidates entry.1.service consumer.method template endpoints :=
    mem_candidates.mpr ⟨entry.2, SortedMap.mem_entries.mp listed, first⟩
  unfold unboundEdge
  rw [Option.isSome_map]
  exact best_isSome false candidate

theorem resolveUnbound (consumer : ConsumerFact) (config : ContractFederationConfig)
    (template : String) (envUnmappedPending : Bool) :
    OfTiers callId ownService endpoints (Joiner.resolveUnbound callId consumer ownService config
      endpoints template envUnmappedPending) := by
  unfold Joiner.resolveUnbound
  dsimp only
  split
  · exact unbound _ (by split <;> rfl)
  next someHit =>
      refine ⟨rfl, ?_, ?_, fun edge member => ?_⟩
      · have hits := List.exists_mem_of_ne_nil _ (mt List.isEmpty_iff.mpr someHit)
        obtain ⟨svc, hit⟩ := hits
        have bound : ∀ heuristic, (unboundEdge callId consumer ownService template endpoints
            heuristic svc).isSome = true := fun heuristic => unboundEdge_isSome heuristic hit
        obtain ⟨edge, emitted⟩ := Option.isSome_iff_exists.mp (bound _)
        have member := List.mem_filterMap.mpr ⟨svc, hit, emitted⟩
        rw [if_neg (mt List.isEmpty_iff.mp (List.ne_nil_of_mem member))]
        rfl
      · unfold isConfirmedResolution
        split
        next emitted =>
            dsimp only at emitted
            split at emitted <;> cases emitted
        next => rfl
      · obtain ⟨svc, _, found⟩ := List.mem_filterMap.mp member
        unfold unboundEdge at found
        obtain ⟨best, chosen, rfl⟩ := Option.map_eq_some_iff.mp found
        refine ⟨rfl, rfl, rfl, provider_of_best chosen, rfl, ?_, ?_⟩
        · unfold heuristicProvenanceFor
          split <;> norm_num [ambiguousConfidence, unboundHostConfidence]
        · unfold heuristicProvenanceFor
          split <;> norm_num [ambiguousConfidence, unboundHostConfidence, isHeuristic]

theorem resolveByConfig (consumer : ConsumerFact) (config : ContractFederationConfig)
    (envUnmappedPending : Bool) :
    OfTiers callId ownService endpoints (Joiner.resolveByConfig callId consumer ownService config
      endpoints envUnmappedPending) := by
  unfold Joiner.resolveByConfig
  dsimp only
  split
  · exact matchOneService _ _
  · split
    · exact ⟨rfl, rfl, rfl, by simp⟩
    · split
      · exact matchOneService _ _
      · exact unbound _ rfl
      · split
        · exact ⟨rfl, rfl, rfl, by simp⟩
        · exact resolveUnbound _ _ _ _

theorem resolveConsumer (consumer : ConsumerFact) (config : ContractFederationConfig)
    (registry : ClientRegistry) (env : EnvBindingIndex) :
    OfTiers callId ownService endpoints (Joiner.resolveConsumer callId consumer ownService config
      endpoints registry env) := by
  unfold Joiner.resolveConsumer
  split
  · exact matchOneService _ _
  · split
    · exact (matchOneService _ _).counted _ _ _
    · exact ⟨rfl, rfl, rfl, by simp⟩
    · exact (resolveByConfig _ _ _).counted _ _ _
    · exact resolveByConfig _ _ _

theorem unresolved (reason : UnresolvedReason) (targetService : Option ServiceName) :
    OfTiers callId ownService endpoints
      (Joiner.unresolved callId ownService reason targetService) :=
  unbound _ rfl

theorem bindAll {candidates : List (EndpointId × GlobalId)}
    (known : ∀ c ∈ candidates, ∃ records, endpoints.get? c.1 = some records ∧
      ∃ p ∈ records, p.id = c.2) :
    OfTiers callId ownService endpoints (Joiner.bindAll callId ownService candidates) where
  call := rfl
  target := rfl
  unconfirmed := rfl
  binds := by
    intro edge member
    obtain ⟨c, candidate, rfl⟩ := List.mem_map.mp member
    exact ⟨rfl, rfl, rfl, known c candidate, rfl, le_rfl, by simp [keyEdge, keyProvenance,
      isHeuristic]⟩

theorem known_of_firstProviders {candidateFilter : EndpointId → Bool} {c : EndpointId × GlobalId}
    (admitted : c ∈ firstProviders endpoints candidateFilter) :
    ∃ records, endpoints.get? c.1 = some records ∧ ∃ p ∈ records, p.id = c.2 := by
  obtain ⟨_, first, rest, found, same⟩ := mem_firstProviders.mp admitted
  exact ⟨first :: rest, found, first, List.mem_cons_self, same⟩

theorem resolveByKey (candidateFilter : EndpointId → Bool) (policy : AmbiguityPolicy) :
    OfTiers callId ownService endpoints
      (Joiner.resolveByKey callId endpoints candidateFilter policy ownService) := by
  have all : OfTiers callId ownService endpoints (Joiner.bindAll callId ownService
      ((firstProviders endpoints candidateFilter).filter
        fun c => decide (c.1.service ≠ ownService))) :=
    bindAll fun c member => known_of_firstProviders (List.mem_filter.mp member).1
  unfold Joiner.resolveByKey
  dsimp only
  split
  · exact ⟨rfl, rfl, rfl, by simp⟩
  · split <;> split
    · exact unresolved _ _
    · exact all
    · exact all
    · exact unresolved _ _
    · exact all
    · exact unresolved _ _

theorem resolveTableConsumer (consumer : TableConsumerFact) :
    OfTiers callId ownService endpoints
      (Joiner.resolveTableConsumer callId consumer ownService endpoints) := by
  unfold Joiner.resolveTableConsumer
  dsimp only
  split
  · exact unresolved _ _
  · exact bindAll fun c member => known_of_firstProviders member

theorem resolveRpcConsumer (consumer : RpcConsumerFact) (config : ContractFederationConfig) :
    OfTiers callId ownService endpoints
      (Joiner.resolveRpcConsumer callId consumer ownService endpoints config) := by
  unfold Joiner.resolveRpcConsumer
  split
  · exact (unresolved _ _).counted _ _ _
  · dsimp only
    split
    · exact resolveByKey _ _
    · exact resolveByKey _ _

theorem resolveWebSocketConsumer (consumer : WebSocketConsumerFact)
    (config : ContractFederationConfig) :
    OfTiers callId ownService endpoints
      (Joiner.resolveWebSocketConsumer callId consumer ownService endpoints config) := by
  unfold Joiner.resolveWebSocketConsumer
  dsimp only
  split
  · split
    · exact unresolved _ _
    · exact resolveByKey _ _
  · exact resolveByKey _ _

/-- **A fact of one of the protocols gets a verdict of the tiers.** -/
theorem dispatch {config : ContractFederationConfig} {fact : ContractFact} {r : Resolved}
    (joined : Joiner.dispatch callId ownService endpoints config fact = some r) :
    OfTiers callId ownService endpoints r := by
  unfold Joiner.dispatch at joined
  split at joined
  · split at joined <;> cases joined
    · exact unresolved _ _
    · exact resolveByKey _ _
  · cases joined
    exact resolveRpcConsumer _ _
  · cases joined
    exact resolveByKey _ _
  · cases joined
    exact resolveWebSocketConsumer _ _
  · cases joined
    exact resolveTableConsumer _
  · cases joined

end Resolved.OfTiers

namespace JoinInput

variable {input : JoinInput}

/-- **A fact gets a verdict of the tiers**, if it gets one at all. -/
theorem ofTiers_of_resolveFact {callId : GlobalId} {ownService : ServiceName}
    {fact : ContractFact} {r : Resolved}
    (resolved : input.resolveFact callId ownService fact = some r) :
    r.OfTiers callId ownService input.endpoints := by
  unfold resolveFact at resolved
  split at resolved
  · unfold resolveHttp at resolved
    split_ifs at resolved
    · cases resolved
      exact .unbound _ rfl
    · cases resolved
      exact .resolveConsumer _ _ _ _
  · exact .dispatch resolved

theorem ofTiers_of_tierVerdict {site : Site} {r : Resolved}
    (resolved : input.tierVerdict site = some r) :
    ∃ callId, GlobalId.parse site.1.id = some callId ∧
      r.OfTiers callId (input.ownService site.1) input.endpoints := by
  obtain ⟨callId, parsed, fact⟩ := Option.bind_eq_some_iff.mp resolved
  exact ⟨callId, parsed, ofTiers_of_resolveFact fact⟩

theorem resolved_eq (input : JoinInput) :
    input.resolved = input.sites.filterMap input.tierVerdict := by
  unfold resolved sites
  rw [List.filterMap_flatMap]
  refine List.flatMap_congr fun node _ => ?_
  rw [List.filterMap_map]
  unfold resolveNode
  split
  next unparsed => simp [tierVerdict, unparsed, Function.comp_def]
  next callId parsed =>
      exact List.filterMap_congr fun fact _ => by simp [tierVerdict, parsed]

theorem mem_tierBinds {edge : BindsEdge} :
    edge ∈ input.tierBinds ↔ ∃ site ∈ input.sites, input.Emits site edge := by
  unfold tierBinds Emits
  rw [resolved_eq, List.mem_flatMap]
  constructor
  · rintro ⟨r, listed, member⟩
    obtain ⟨site, here, verdict⟩ := List.mem_filterMap.mp listed
    exact ⟨site, here, r, verdict, member⟩
  · rintro ⟨site, here, r, verdict, member⟩
    exact ⟨r, List.mem_filterMap.mpr ⟨site, here, verdict⟩, member⟩

/-! ### What the confirmations add -/

private def confirmationsBy (input : JoinInput) (entry : ConfirmedBinding × Nat) :
    List Confirmation :=
  match checkBinding input.endpoints entry.2 entry.1 with
  | .ok checked => (checked.calls input.nodes).map fun call => (checked, call)
  | .error _ => []

private theorem confirmations_eq (input : JoinInput) :
    input.confirmations = input.config.bindings.zipIdx.flatMap input.confirmationsBy := by
  unfold confirmations applied
  induction input.config.bindings.zipIdx with
  | nil => rfl
  | cons entry rest ih =>
    rw [List.flatMap_cons, ← ih, List.filterMap_cons]
    unfold confirmationsBy
    cases checkBinding input.endpoints entry.2 entry.1 with
    | ok checked => rfl
    | error reason => rfl

/-- The effect of one confirmation on the resolutions of its call. -/
def override (input : JoinInput) (out : List ConsumerResolution) (c : Confirmation) :
    List ConsumerResolution :=
  input.resolutionOf c :: out.filter fun existing => !c.1.overrides existing

private theorem binds_confirm (cs : List Confirmation) (out : Verdicts) :
    (cs.foldl (fun out c => out.confirm c.1 input.assignments c.2) out).binds =
      out.binds ++ cs.map input.edgeOf := by
  induction cs generalizing out with
  | nil => simp
  | cons c rest ih =>
    rw [List.foldl_cons, ih, List.map_cons]
    simp [Verdicts.confirm, edgeOf]

private theorem consumers_confirm (cs : List Confirmation) (out : Verdicts) (callId : GlobalId) :
    ((cs.foldl (fun out c => out.confirm c.1 input.assignments c.2) out).consumers.get?
        callId).getD [] =
      (cs.filter fun c => decide (c.2.1 = callId)).foldl input.override
        ((out.consumers.get? callId).getD []) := by
  induction cs generalizing out with
  | nil => rfl
  | cons c rest ih =>
    rw [List.foldl_cons, ih, List.filter_cons]
    simp only [Verdicts.confirm, SortedMap.get?_alter]
    by_cases here : c.2.1 = callId
    · subst here
      simp [override, resolutionOf]
    · have apart : ¬ callId = c.2.1 := fun h => here h.symm
      simp [here, apart]

private theorem applyConfirmedBinding_eq (entry : ConfirmedBinding × Nat) (out : Verdicts) :
    ∃ stale, applyConfirmedBinding input.nodes input.assignments input.endpoints out entry =
      { (input.confirmationsBy entry).foldl
          (fun out c => out.confirm c.1 input.assignments c.2) out with stale } := by
  unfold applyConfirmedBinding confirmationsBy
  cases checkBinding input.endpoints entry.2 entry.1 with
  | error reason =>
    cases reason with
    | none => exact ⟨_, rfl⟩
    | some reason => exact ⟨_, rfl⟩
  | ok checked =>
    dsimp only
    cases checked.calls input.nodes with
    | nil => exact ⟨_, rfl⟩
    | cons call rest =>
      rw [List.foldl_map]
      exact ⟨_, rfl⟩

private theorem verdicts_fold (entries : List (ConfirmedBinding × Nat)) (out : Verdicts) :
    let final := entries.foldl
      (applyConfirmedBinding input.nodes input.assignments input.endpoints) out
    let cs := entries.flatMap input.confirmationsBy
    final.binds = out.binds ++ cs.map input.edgeOf ∧
      ∀ callId, (final.consumers.get? callId).getD [] =
        (cs.filter fun c => decide (c.2.1 = callId)).foldl input.override
          ((out.consumers.get? callId).getD []) := by
  induction entries generalizing out with
  | nil => simp
  | cons entry rest ih =>
    obtain ⟨stale, applied⟩ := @applyConfirmedBinding_eq input entry out
    obtain ⟨binds, consumers⟩ :=
      ih (applyConfirmedBinding input.nodes input.assignments input.endpoints out entry)
    dsimp only at binds consumers ⊢
    rw [List.foldl_cons, List.flatMap_cons]
    refine ⟨?_, fun callId => ?_⟩
    · rw [binds, applied]
      simp [binds_confirm]
    · rw [consumers, applied, List.filter_append, List.foldl_append]
      dsimp only
      rw [consumers_confirm]

/-- **The edges before they are ordered**: those of the tiers, then the confirmed ones. -/
theorem binds_verdicts (input : JoinInput) :
    input.verdicts.binds = input.tierBinds ++ input.confirmations.map input.edgeOf := by
  rw [confirmations_eq]
  exact (@verdicts_fold input _ _).1

def tierResolutions (input : JoinInput) (callId : GlobalId) : List ConsumerResolution :=
  ((input.sites.filter fun site => decide (GlobalId.parse site.1.id = some callId)).filterMap
    input.tierVerdict).map Resolved.resolution

/-- **The resolutions of a call**: those of the tiers, overridden by each confirmation. -/
theorem consumersOf_eq (input : JoinInput) (callId : GlobalId) :
    input.consumersOf callId =
      (input.confirmationsAt callId).foldl input.override (input.tierResolutions callId) := by
  have fold := (@verdicts_fold input input.config.bindings.zipIdx input.tierVerdicts).2 callId
  rw [← confirmations_eq] at fold
  refine fold.trans ?_
  unfold confirmationsAt
  congr 1
  unfold tierVerdicts tierResolutions
  dsimp only
  rw [SortedMap.getD_group, List.filter_map, List.map_map, resolved_eq]
  have same : ∀ sites : List Site,
      ((sites.filterMap input.tierVerdict).filter fun r =>
        decide (r.resolution.callId = callId)) =
      (sites.filter fun site => decide (GlobalId.parse site.1.id = some callId)).filterMap
        input.tierVerdict := by
    intro sites
    induction sites with
    | nil => rfl
    | cons site rest ih =>
      rw [List.filterMap_cons, List.filter_cons]
      cases verdict : input.tierVerdict site with
      | none =>
        rw [ih]
        split
        · rw [List.filterMap_cons, verdict]
        · rfl
      | some r =>
        obtain ⟨own, parsed, tier⟩ := ofTiers_of_tierVerdict verdict
        rw [List.filter_cons, parsed, tier.call, ih]
        by_cases here : own = callId
        · simp [here, verdict]
        · simp [here]
  rw [← same]
  rfl

/-! ### The field binds -/

structure JoinsField (input : JoinInput) (fieldRef : GlobalId) (read : FieldReadFact)
    (call : String) (endpoint : EndpointId) (field : ResponseField) : Prop where
  node : ∃ node ∈ input.nodes, fieldRead? node = some (fieldRef, read)
  reads : (readsFrom input.edges).get? fieldRef = some call
  field : field ∈ (matchFields read (responseFields input.schemas endpoint)).1

def matchProvenance (input : JoinInput) (read : FieldReadFact) (endpoint : EndpointId) :
    EdgeProvenance :=
  (matchFields read (responseFields input.schemas endpoint)).2

def callBind (input : JoinInput) (call : String) (endpoint : EndpointId) :
    Option EndpointBindInfo :=
  ((callEndpoints input.verdicts.binds).get? call).bind fun endpoints => endpoints.get? endpoint

/-- **The field binds are one for each field a read is joined to.** -/
theorem mem_fieldRefs {edge : BindsEdge} :
    edge ∈ input.fieldRefs.2 ↔
      ∃ fieldRef read call endpoint field info,
        input.JoinsField fieldRef read call endpoint field ∧
          input.callBind call endpoint = some info ∧
            edge = fieldBind fieldRef endpoint info (input.matchProvenance read endpoint) field := by
  unfold fieldRefs resolveFieldRefs
  dsimp only
  rw [List.mem_insertionSort, List.mem_flatMap]
  constructor
  · rintro ⟨⟨fieldRef, read⟩, listed, member⟩
    obtain ⟨node, here, reads⟩ := List.mem_filterMap.mp listed
    unfold resolveFieldRef at member
    split at member
    · cases member
    next call from_ =>
        split at member
        · cases member
        next endpoints bound =>
            unfold joinRead at member
            dsimp only at member
            obtain ⟨⟨endpoint, info⟩, entry, joined⟩ := List.mem_flatMap.mp member
            obtain ⟨field, hit, rfl⟩ := List.mem_map.mp joined
            refine ⟨fieldRef, read, call, endpoint, field, info, ⟨⟨node, here, reads⟩, from_, hit⟩,
              ?_, rfl⟩
            simp [callBind, bound, SortedMap.mem_entries.mp entry]
  · rintro ⟨fieldRef, read, call, endpoint, field, info, joins, bound, rfl⟩
    obtain ⟨node, here, reads⟩ := joins.node
    obtain ⟨endpoints, known, entry⟩ := Option.bind_eq_some_iff.mp bound
    refine ⟨(fieldRef, read), List.mem_filterMap.mpr ⟨node, here, reads⟩, ?_⟩
    unfold resolveFieldRef
    simp only [joins.reads, known, joinRead]
    exact List.mem_flatMap.mpr ⟨(endpoint, info), SortedMap.mem_entries.mpr entry,
      List.mem_map.mpr ⟨field, joins.field, rfl⟩⟩

theorem unconfirmed_matchProvenance (read : FieldReadFact) (endpoint : EndpointId)
    (source : String) : input.matchProvenance read endpoint ≠ .confirmed source := by
  unfold matchProvenance matchFields
  split
  · unfold readProvenance
    split <;> simp
  · split <;> simp

theorem capFieldBind_cases (read : EdgeProvenance) (endpoint : EndpointBindInfo) :
    (capFieldBind read endpoint).1 = read ∨
      (capFieldBind read endpoint).1 = endpoint.provenance ∧
        isHeuristic endpoint.provenance = true := by
  unfold capFieldBind
  dsimp only
  split_ifs with both weaker weak
  · exact .inl rfl
  · exact .inr ⟨rfl, (Bool.and_eq_true_iff.mp both).2⟩
  · exact .inr ⟨rfl, weak⟩
  · exact .inl rfl

theorem unconfirmed_fieldRefs {edge : BindsEdge} (member : edge ∈ input.fieldRefs.2) :
    isConfirmed edge = false := by
  obtain ⟨fieldRef, read, call, endpoint, field, info, _, _, rfl⟩ := mem_fieldRefs.mp member
  unfold isConfirmed fieldBind
  split
  next source confirmed =>
      exfalso
      rcases capFieldBind_cases (input.matchProvenance read endpoint) info with same | ⟨same, weak⟩
      · exact unconfirmed_matchProvenance read endpoint source (same.symm.trans confirmed)
      · rw [← same] at weak
        have sure : (capFieldBind (input.matchProvenance read endpoint) info).1 =
            .confirmed source := confirmed
        rw [sure] at weak
        cases weak
  next => rfl

/-! ### What the order keeps -/

theorem unconfirmed_tierBinds {edge : BindsEdge} (member : edge ∈ input.tierBinds) :
    isConfirmed edge = false := by
  obtain ⟨site, _, r, verdict, emitted⟩ := mem_tierBinds.mp member
  obtain ⟨callId, _, tier⟩ := ofTiers_of_tierVerdict verdict
  exact (tier.binds edge emitted).unconfirmed

theorem mem_run_binds {edge : BindsEdge} :
    edge ∈ input.run.binds ↔
      (((input.confirmations.map input.edgeOf).find? fun b =>
            decide (bindPair b = bindPair edge)).or
        ((input.tierBinds.find? fun b => decide (bindPair b = bindPair edge)).or
          (input.fieldRefs.2.find? fun b => decide (bindPair b = bindPair edge)))) =
        some edge := by
  unfold run
  dsimp only
  rw [mem_sortBinds, pick_eq, binds_verdicts, List.filter_append, List.filter_append]
  have none : ∀ l : List BindsEdge, (∀ b ∈ l, isConfirmed b = false) →
      (l.filter fun b => decide (bindPair b = bindPair edge)).find? isConfirmed = none := by
    intro l unconfirmed
    refine List.find?_eq_none.mpr fun b member => ?_
    simp [unconfirmed b (List.mem_filter.mp member).1]
  have first : ((input.confirmations.map input.edgeOf).filter fun b =>
      decide (bindPair b = bindPair edge)).find? isConfirmed =
        (input.confirmations.map input.edgeOf).find? fun b =>
          decide (bindPair b = bindPair edge) := by
    rw [List.find?_filter]
    refine List.find?_congr fun b member => ?_
    obtain ⟨c, _, rfl⟩ := List.mem_map.mp member
    have sure : isConfirmed (input.edgeOf c) = true := rfl
    simp [sure]
  rw [List.find?_append, List.find?_append, none _ fun b => unconfirmed_tierBinds,
    none _ fun b => unconfirmed_fieldRefs, first]
  simp only [List.head?_append, List.head?_filter, Option.none_or, Option.or_none]
  cases (input.confirmations.map input.edgeOf).find? fun b =>
      decide (bindPair b = bindPair edge) with
  | none => simp
  | some confirmed => simp

/-- An edge of the tiers that no other takes the place of: the first of its pair, which no
confirmation joins. -/
def Stays (input : JoinInput) (edge : BindsEdge) : Prop :=
  edge ∈ firstPer bindPair input.tierBinds ∧
    ∀ c ∈ input.confirmations, bindPair (input.edgeOf c) ≠ bindPair edge

/-- **An edge the tiers emit is in the output exactly when no other takes its place.** -/
theorem mem_run_binds_iff_stays {edge : BindsEdge} (emitted : edge ∈ input.tierBinds) :
    edge ∈ input.run.binds ↔ input.Stays edge := by
  rw [mem_run_binds, Stays, mem_firstPer]
  have some_ : (input.tierBinds.find? fun b => decide (bindPair b = bindPair edge)).isSome = true :=
    List.find?_isSome.mpr ⟨edge, emitted, decide_eq_true rfl⟩
  obtain ⟨first, found⟩ := Option.isSome_iff_exists.mp some_
  rw [found, Option.some_or]
  cases confirmed : (input.confirmations.map input.edgeOf).find? fun b =>
      decide (bindPair b = bindPair edge) with
  | none =>
    have apart : ∀ c ∈ input.confirmations, bindPair (input.edgeOf c) ≠ bindPair edge := by
      intro c member same
      exact List.find?_eq_none.mp confirmed _ (List.mem_map_of_mem member) (decide_eq_true same)
    exact ⟨fun here => ⟨here, apart⟩, fun here => here.1⟩
  | some b =>
    obtain ⟨c, member, rfl⟩ := List.mem_map.mp (List.mem_of_find?_eq_some confirmed)
    have same : bindPair (input.edgeOf c) = bindPair edge := by
      simpa using List.find?_some confirmed
    constructor
    · intro here
      obtain rfl := Option.some.inj here
      exact absurd (unconfirmed_tierBinds emitted) (by simp [isConfirmed, edgeOf,
        CheckedBinding.edge])
    · exact fun stays => absurd same (stays.2 c member)

end JoinInput

end Lain.Joiner
