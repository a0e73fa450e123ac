import Mathlib
import Lain.Joiner.ConsumerProtocol

/-!
# RPC keys

A stub call looks for the services behind its channel address first.
-/

namespace Lain.Joiner

open Foundation Contracts Federation

/-- The outcome is open and binds nothing. -/
def Resolved.Open (outcome : Resolved) : Prop :=
  (∃ reason service, outcome.resolution.target = some (.unresolved reason service)) ∧
    outcome.binds = []

def Exposes (endpoints : EndpointTable) (key : ContractKey) (svc : ServiceName) : Prop :=
  ∃ first rest, endpoints.get? ⟨svc, key⟩ = some (first :: rest)

def Ambiguous (endpoints : EndpointTable) (key : ContractKey) (ownService : ServiceName)
    (among : ServiceName → Prop) : Prop :=
  ∃ a b, a ≠ b ∧ a ≠ ownService ∧ b ≠ ownService ∧ (among a ∧ Exposes endpoints key a) ∧
    among b ∧ Exposes endpoints key b

def rpcKey (consumer : RpcConsumerFact) : ContractKey :=
  .rpc consumer.system consumer.service consumer.method

def suffixFilter (consumer : RpcConsumerFact) (services : List ServiceName) (id : EndpointId) :
    Bool :=
  services.contains id.service && packageQualified consumer.service consumer.method id.key

def Settles (endpoints : EndpointTable) (candidateFilter : EndpointId → Bool)
    (ownService : ServiceName) : Prop :=
  let admitted := firstProviders endpoints candidateFilter
  let candidates := admitted.filter fun c => decide (c.1.service ≠ ownService)
  candidates.length = 1 ∨
    candidates = [] ∧ (admitted.filter fun c => decide (c.1.service = ownService)).length = 1

/-- **What the exact key decides**, among the services behind the channel address. -/
structure RpcSettled (callId : GlobalId) (consumer : RpcConsumerFact) (ownService : ServiceName)
    (endpoints : EndpointTable) (services : List ServiceName) (outcome : Resolved) : Prop where
  /-- Two other services leave the call open, unless the suffix settles it. -/
  ambiguous : Ambiguous endpoints (rpcKey consumer) ownService (· ∈ services) →
    ¬ Settles endpoints (suffixFilter consumer services) ownService → outcome.Open
  /-- One other service is bound to, by the exact key. -/
  single : ∀ a first rest, a ≠ ownService → a ∈ services →
    endpoints.get? ⟨a, rpcKey consumer⟩ = some (first :: rest) →
    (∀ b, b ≠ ownService → b ∈ services → Exposes endpoints (rpcKey consumer) b → b = a) →
    outcome = bindAll callId ownService [(⟨a, rpcKey consumer⟩, first.id)]
  /-- The own service alone makes the call internal, by the exact key. -/
  internal : ownService ∈ services → Exposes endpoints (rpcKey consumer) ownService →
    (∀ b ∈ services, Exposes endpoints (rpcKey consumer) b → b = ownService) →
    outcome.resolution.target = some .internal ∧
      outcome.resolution.boundEndpoints = [⟨ownService, rpcKey consumer⟩] ∧ outcome.binds = []
  /-- The suffix decides when no service exposes the exact key. -/
  loose : (∀ b ∈ services, ¬ Exposes endpoints (rpcKey consumer) b) →
    outcome = resolveByKey callId endpoints (suffixFilter consumer services) .rpcStubUnknown
      ownService

/-! ### Candidates -/

theorem mem_firstProviders {endpoints : EndpointTable} {candidateFilter : EndpointId → Bool}
    {id : EndpointId} {provider : GlobalId} :
    (id, provider) ∈ firstProviders endpoints candidateFilter ↔
      candidateFilter id = true ∧
        ∃ first rest, endpoints.get? id = some (first :: rest) ∧ first.id = provider := by
  unfold firstProviders
  rw [List.mem_filterMap]
  constructor
  · intro ⟨entry, member, admitted⟩
    split_ifs at admitted with passes
    obtain ⟨first, head, same⟩ := Option.map_eq_some_iff.mp admitted
    obtain ⟨rfl, rfl⟩ := Prod.mk.inj same
    obtain ⟨rest, spelled⟩ := List.head?_eq_some_iff.mp head
    exact ⟨passes, first, rest, spelled ▸ SortedMap.mem_entries.mp member, rfl⟩
  · rintro ⟨passes, first, rest, found, rfl⟩
    exact ⟨(id, first :: rest), SortedMap.mem_entries.mpr found, by simp [passes]⟩

theorem nodup_firstProviders (endpoints : EndpointTable) (candidateFilter : EndpointId → Bool) :
    ((firstProviders endpoints candidateFilter).map Prod.fst).Nodup := by
  refine List.Nodup.sublist ?_ endpoints.nodup_keys
  unfold firstProviders SortedMap.keys
  rw [List.map_filterMap]
  induction endpoints.entries with
  | nil => exact List.Sublist.refl _
  | cons entry rest ih =>
    rw [List.filterMap_cons, List.map_cons]
    split
    · exact ih.cons _
    next id found =>
      have same : id = entry.1 := by
        obtain ⟨pair, admitted, rfl⟩ := Option.map_eq_some_iff.mp found
        split_ifs at admitted
        obtain ⟨first, -, rfl⟩ := Option.map_eq_some_iff.mp admitted
        rfl
      rw [same]
      exact ih.cons_cons _

section Exact

variable {endpoints : EndpointTable} {consumer : RpcConsumerFact} {services : List ServiceName}
  {ownService : ServiceName} {callId : GlobalId}

def exactFilter (consumer : RpcConsumerFact) (services : List ServiceName) (id : EndpointId) :
    Bool :=
  services.contains id.service && decide (id.key = rpcKey consumer)

theorem exactFilter_iff {id : EndpointId} :
    exactFilter consumer services id = true ↔ id.service ∈ services ∧ id.key = rpcKey consumer := by
  simp [exactFilter]

def exactly (endpoints : EndpointTable) (consumer : RpcConsumerFact) (services : List ServiceName)
    (admits : ServiceName → Bool) : List (EndpointId × GlobalId) :=
  (firstProviders endpoints (exactFilter consumer services)).filter fun c => admits c.1.service

theorem mem_exactly {admits : ServiceName → Bool} {c : EndpointId × GlobalId} :
    c ∈ exactly endpoints consumer services admits ↔
      ∃ first rest, c = (⟨c.1.service, rpcKey consumer⟩, first.id) ∧
        endpoints.get? ⟨c.1.service, rpcKey consumer⟩ = some (first :: rest) ∧
        c.1.service ∈ services ∧ admits c.1.service = true := by
  obtain ⟨⟨svc, key⟩, provider⟩ := c
  rw [exactly, List.mem_filter, mem_firstProviders, exactFilter_iff]
  constructor
  · rintro ⟨⟨⟨inside, rfl⟩, first, rest, found, rfl⟩, admitted⟩
    exact ⟨first, rest, rfl, found, inside, admitted⟩
  · rintro ⟨first, rest, same, found, inside, admitted⟩
    obtain ⟨ids, rfl⟩ := Prod.mk.inj same
    obtain ⟨-, rfl⟩ := EndpointId.mk.inj ids
    exact ⟨⟨⟨inside, rfl⟩, first, rest, found, rfl⟩, admitted⟩

theorem nodup_exactly (admits : ServiceName → Bool) :
    (exactly endpoints consumer services admits).Nodup :=
  (List.Nodup.of_map _ (nodup_firstProviders endpoints _)).filter _

private theorem eq_singleton {α : Type*} {l : List α} {x : α} (distinct : l.Nodup) (member : x ∈ l)
    (only : ∀ y ∈ l, y = x) : l = [x] :=
  List.perm_singleton.mp <| (List.perm_ext_iff_of_nodup distinct (List.nodup_singleton x)).mpr
    fun y => ⟨fun inside => List.mem_singleton.mpr (only y inside),
      fun same => List.mem_singleton.mp same ▸ member⟩

theorem exactly_eq_singleton {admits : ServiceName → Bool} {a : ServiceName}
    {first : EndpointProviderRecord} {rest : List EndpointProviderRecord}
    (found : endpoints.get? ⟨a, rpcKey consumer⟩ = some (first :: rest)) (inside : a ∈ services)
    (admitted : admits a = true)
    (only : ∀ b ∈ services, admits b = true → Exposes endpoints (rpcKey consumer) b → b = a) :
    exactly endpoints consumer services admits = [(⟨a, rpcKey consumer⟩, first.id)] := by
  refine eq_singleton (nodup_exactly admits)
    (mem_exactly.mpr ⟨first, rest, rfl, found, inside, admitted⟩) fun c member => ?_
  obtain ⟨other, later, same, foundHere, insideHere, admittedHere⟩ := mem_exactly.mp member
  have service : c.1.service = a := only _ insideHere admittedHere ⟨other, later, foundHere⟩
  rw [service, found] at foundHere
  obtain ⟨rfl, -⟩ := List.cons.inj (Option.some.inj foundHere)
  rw [same, service]

theorem exactly_eq_nil {admits : ServiceName → Bool}
    (none : ∀ b ∈ services, admits b = true → ¬ Exposes endpoints (rpcKey consumer) b) :
    exactly endpoints consumer services admits = [] := by
  refine List.eq_nil_iff_forall_not_mem.mpr fun c member => ?_
  obtain ⟨first, rest, -, found, inside, admitted⟩ := mem_exactly.mp member
  exact none _ inside admitted ⟨first, rest, found⟩

theorem two_le_exactly
    (ambiguous : Ambiguous endpoints (rpcKey consumer) ownService (· ∈ services)) :
    2 ≤ (exactly endpoints consumer services fun svc => decide (svc ≠ ownService)).length := by
  obtain ⟨a, b, apart, foreignA, foreignB, ⟨insideA, firstA, restA, foundA⟩, insideB, firstB, restB,
    foundB⟩ := ambiguous
  have memberA : ((⟨a, rpcKey consumer⟩, firstA.id) : EndpointId × GlobalId) ∈
      exactly endpoints consumer services fun svc => decide (svc ≠ ownService) :=
    mem_exactly.mpr ⟨firstA, restA, rfl, foundA, insideA, decide_eq_true foreignA⟩
  have memberB : ((⟨b, rpcKey consumer⟩, firstB.id) : EndpointId × GlobalId) ∈
      exactly endpoints consumer services fun svc => decide (svc ≠ ownService) :=
    mem_exactly.mpr ⟨firstB, restB, rfl, foundB, insideB, decide_eq_true foreignB⟩
  by_contra few
  match shape : exactly endpoints consumer services fun svc => decide (svc ≠ ownService) with
  | [] => exact List.not_mem_nil (shape ▸ memberA)
  | [only] =>
    have sameA := List.mem_singleton.mp (shape ▸ memberA)
    have sameB := List.mem_singleton.mp (shape ▸ memberB)
    exact apart (congrArg (fun c => c.1.service) (sameA.trans sameB.symm))
  | _ :: _ :: _ => exact few (by rw [shape]; simp)

end Exact

/-! ### Outcomes -/

theorem resolveByKey_open {callId : GlobalId} {endpoints : EndpointTable}
    {candidateFilter : EndpointId → Bool} {ownService : ServiceName}
    (unsettled : ¬ Settles endpoints candidateFilter ownService) :
    resolveByKey callId endpoints candidateFilter .rpcStubUnknown ownService =
      unresolved callId ownService .rpcStubUnknown none := by
  obtain ⟨many, own⟩ := not_or.mp unsettled
  unfold resolveByKey
  rw [if_neg, if_neg many]
  intro alone
  rw [Bool.and_eq_true, List.isEmpty_iff, decide_eq_true_eq] at alone
  exact own alone

theorem resolveByKey_one {callId : GlobalId} {endpoints : EndpointTable}
    {candidateFilter : EndpointId → Bool} {ownService : ServiceName} {c : EndpointId × GlobalId}
    (one : (firstProviders endpoints candidateFilter).filter
      (fun c => decide (c.1.service ≠ ownService)) = [c]) :
    resolveByKey callId endpoints candidateFilter .rpcStubUnknown ownService =
      bindAll callId ownService [c] := by
  unfold resolveByKey
  simp only [one]
  rfl

theorem resolveByKey_own {callId : GlobalId} {endpoints : EndpointTable}
    {candidateFilter : EndpointId → Bool} {ownService : ServiceName} {c : EndpointId × GlobalId}
    (none : (firstProviders endpoints candidateFilter).filter
      (fun c => decide (c.1.service ≠ ownService)) = [])
    (one : (firstProviders endpoints candidateFilter).filter
      (fun c => decide (c.1.service = ownService)) = [c]) :
    resolveByKey callId endpoints candidateFilter .rpcStubUnknown ownService =
      { resolution :=
          { callId
            service := ownService
            target := some .internal
            boundEndpoints := [c.1]
            readsComplete := true } } := by
  unfold resolveByKey
  simp only [none, one]
  rfl

theorem unresolved_open (callId : GlobalId) (ownService : ServiceName)
    (reason : UnresolvedReason) (service : Option ServiceName) :
    (unresolved callId ownService reason service).Open :=
  ⟨⟨reason, service, rfl⟩, rfl⟩

section Outcome

variable {endpoints : EndpointTable} {consumer : RpcConsumerFact} {services : List ServiceName}
  {ownService : ServiceName} {callId : GlobalId} {config : ContractFederationConfig}

def exactPass (callId : GlobalId) (endpoints : EndpointTable) (consumer : RpcConsumerFact)
    (services : List ServiceName) (ownService : ServiceName) : Resolved :=
  resolveByKey callId endpoints (exactFilter consumer services) .rpcStubUnknown ownService

theorem resolveRpcConsumer_ok (named : channelServices config consumer.channelHostPart =
    .ok services) :
    resolveRpcConsumer callId consumer ownService endpoints config =
      if (exactPass callId endpoints consumer services ownService).resolution.boundEndpoints.isEmpty
      then resolveByKey callId endpoints (suffixFilter consumer services) .rpcStubUnknown ownService
      else exactPass callId endpoints consumer services ownService := by
  unfold resolveRpcConsumer
  rw [named]
  change (if (!(exactPass callId endpoints consumer services
    ownService).resolution.boundEndpoints.isEmpty) = true then _ else _) = _
  cases (exactPass callId endpoints consumer services
    ownService).resolution.boundEndpoints.isEmpty <;> rfl

theorem exactPass_unsettled
    (unsettled : ¬ Settles endpoints (exactFilter consumer services) ownService) :
    (exactPass callId endpoints consumer services ownService).resolution.boundEndpoints = [] := by
  rw [exactPass, resolveByKey_open unsettled]
  rfl

/-- **The exact key decides first.** A channel address that names no service
leaves a stub call open; among the services it names, the exact key decides. -/
theorem resolveRpcConsumer_settled (callId : GlobalId) (consumer : RpcConsumerFact)
    (ownService : ServiceName) (endpoints : EndpointTable) (config : ContractFederationConfig) :
    (∀ failure, channelServices config consumer.channelHostPart = .error failure →
      (resolveRpcConsumer callId consumer ownService endpoints config).Open) ∧
    ∀ services, channelServices config consumer.channelHostPart = .ok services →
      RpcSettled callId consumer ownService endpoints services
        (resolveRpcConsumer callId consumer ownService endpoints config) := by
  refine ⟨fun failure failed => ?_, fun services named => ?_⟩
  · unfold resolveRpcConsumer
    rw [failed]
    exact ⟨⟨failure.1, none, rfl⟩, rfl⟩
  rw [resolveRpcConsumer_ok named]
  constructor
  · intro ambiguous unsettled
    have several := two_le_exactly ambiguous
    have exactUnsettled : ¬ Settles endpoints (exactFilter consumer services) ownService := by
      rintro (one | ⟨none, -⟩)
      · exact absurd (several.trans_eq one) (by decide)
      · exact absurd (several.trans_eq (congrArg List.length none)) (by decide)
    rw [exactPass_unsettled exactUnsettled, if_pos List.isEmpty_nil, resolveByKey_open unsettled]
    exact unresolved_open _ _ _ _
  · intro a first rest foreign inside found only
    have candidates := exactly_eq_singleton found inside (decide_eq_true foreign)
      fun b member other exposed => only b (of_decide_eq_true other) member exposed
    rw [exactPass, resolveByKey_one candidates]
    rfl
  · intro inside exposed only
    obtain ⟨first, rest, found⟩ := exposed
    have own : exactly endpoints consumer services (fun svc => decide (svc = ownService)) =
        [(⟨ownService, rpcKey consumer⟩, first.id)] :=
      exactly_eq_singleton found inside (decide_eq_true rfl)
        fun b member _ exposed => only b member exposed
    have foreign : exactly endpoints consumer services (fun svc => decide (svc ≠ ownService)) = [] :=
      exactly_eq_nil fun b member other exposed =>
        of_decide_eq_true other (only b member exposed)
    rw [exactPass, resolveByKey_own foreign own]
    exact ⟨rfl, rfl, rfl⟩
  · intro absent
    have nothing : ∀ admits, exactly endpoints consumer services admits = [] := fun admits =>
      exactly_eq_nil fun b member _ => absent b member
    rw [exactPass_unsettled, if_pos List.isEmpty_nil]
    rintro (one | ⟨-, one⟩)
    · exact absurd ((congrArg List.length (nothing fun svc => decide (svc ≠ ownService))).symm.trans
        one) (by decide)
    · exact absurd ((congrArg List.length (nothing fun svc => decide (svc = ownService))).symm.trans
        one) (by decide)

end Outcome

def AmbiguousKeysOpen : Prop :=
  ∀ (callId : GlobalId) (consumer : RpcConsumerFact) (ownService : ServiceName)
    (endpoints : EndpointTable) (config : ContractFederationConfig),
    Ambiguous endpoints (rpcKey consumer) ownService (fun _ => True) →
      (resolveRpcConsumer callId consumer ownService endpoints config).Open

/-- A channel address picks one of two services that expose the key. -/
theorem ambiguousKeysOpen_fails : ¬ AmbiguousKeysOpen := by
  intro always
  let key : ContractKey := .rpc .grpc "shop.Orders" "Get"
  let record : EndpointProviderRecord := ⟨"orders:Function:a.proto:Get:1", none, "Get", .any⟩
  have nothing := (always "web:Function:a.ts:call:1"
    { system := .grpc, service := "shop.Orders", method := "Get", channelTarget := none
      channelHostPart := .literal "orders.internal" } "web"
    (.group [(⟨"billing", key⟩, record), (⟨"orders", key⟩, record)])
    { services := [{ name := "orders", repo := "orders", hosts := ["orders.internal"] }] }
    ⟨"billing", "orders", by decide, by decide, by decide, ⟨trivial, record, [], by decide⟩,
      trivial, record, [], by decide⟩).2
  revert nothing
  decide

end Lain.Joiner
