import Mathlib
import Lain.Joiner.Preference

/-!
# Direct routes of a known service

A call whose service is known should be bound to an endpoint it matches as it is whenever the
service has one.
-/

namespace Lain.Joiner

open Foundation Contracts Federation

variable {callId : GlobalId} {consumer : ConsumerFact} {ownService target : ServiceName}
  {endpoints : EndpointTable}

/-! ### What is promised -/

def DirectEndpoint (service : ServiceName) (method : MethodSpec) (template : String)
    (endpoints : EndpointTable) (key : ContractKey) : Prop :=
  ∃ records, endpoints.get? ⟨service, key⟩ = some records ∧ ∃ p ∈ records, ∃ detail,
    matchRoute method template p.method p.template = some detail ∧ detail.kind ≠ .prefixStripped

def OperationEndpoint (service : ServiceName) (consumer : ConsumerFact)
    (endpoints : EndpointTable) (key : ContractKey) : Prop :=
  ∃ receiver fnName base provider, consumer.via = .receiver receiver fnName base ∧
    findEndpointByOperationId service fnName endpoints = some (key, provider)

def IsHttp (key : ContractKey) : Prop :=
  ∃ method template, key = .http method template

/-- **A direct route of the service is found**: where an HTTP endpoint is matched as it is, the
call is bound to such an endpoint, and it is said to have no route only when nothing is matched as
it is and no operation id stands for it. -/
structure FindsDirect (callId : GlobalId) (consumer : ConsumerFact)
    (ownService target : ServiceName) (endpoints : EndpointTable) : Prop where
  bound : ∀ template, consumer.url.template = some template →
    (∃ key, IsHttp key ∧ DirectEndpoint target consumer.method template endpoints key) →
      ∃ key provenance confidence routeMatch stripped,
        DirectEndpoint target consumer.method template endpoints key ∧
        (matchOneService callId consumer ownService target endpoints).resolution.target =
          some (.binds provenance confidence routeMatch stripped) ∧
        (matchOneService callId consumer ownService target endpoints).resolution.boundEndpoints =
          [⟨target, key⟩]
  noRoute : ∀ service,
    (matchOneService callId consumer ownService target endpoints).resolution.target =
      some (.unresolved .noRouteInService service) →
    (∀ template, consumer.url.template = some template →
      ∀ key, ¬ DirectEndpoint target consumer.method template endpoints key) ∧
    ∀ key, ¬ OperationEndpoint target consumer endpoints key

def FirstDirect (service : ServiceName) (method : MethodSpec) (template : String)
    (endpoints : EndpointTable) : Prop :=
  ∃ best ∈ candidates service method template endpoints, Direct best ∧
    ∀ c ∈ candidates service method template endpoints, c = best ∨ MoreSpecific best c

def OperationDecides (service : ServiceName) (consumer : ConsumerFact) (template : String)
    (endpoints : EndpointTable) : Prop :=
  ((∀ key, ¬ OperationEndpoint service consumer endpoints key) ∧
    ∀ key, ¬ DirectEndpoint service consumer.method template endpoints key) ∨
  ∃ key, OperationEndpoint service consumer endpoints key ∧
    ((∃ other, IsHttp other ∧
        DirectEndpoint service consumer.method template endpoints other) →
      DirectEndpoint service consumer.method template endpoints key)

/-- The endpoints of the service do not hide a direct route. -/
def HidesNone (consumer : ConsumerFact) (target : ServiceName) (endpoints : EndpointTable) :
    Prop :=
  match consumer.url.template with
  | none => ∀ key, ¬ OperationEndpoint target consumer endpoints key
  | some template =>
    FirstDirect target consumer.method template endpoints ∨
      OperationDecides target consumer template endpoints

/-! ### What one service answers -/

theorem prefers_true_iff {a b : ContractKey × MatchDetail} :
    Prefers true a b ↔ MoreSpecific a b := by
  simp [Prefers]

theorem directEndpoint_of_mem_candidates {service : ServiceName} {method : MethodSpec}
    {template : String} {c : ContractKey × MatchDetail}
    (member : c ∈ candidates service method template endpoints) (direct : Direct c) :
    DirectEndpoint service method template endpoints c.1 := by
  obtain ⟨records, found, first⟩ := mem_candidates.mp member
  obtain ⟨p, listed, matched⟩ := List.exists_of_findSome?_eq_some first
  exact ⟨records, found, p, listed, c.2, matched, direct⟩

theorem OperationEndpoint.unique {service : ServiceName} {key key' : ContractKey}
    (here : OperationEndpoint service consumer endpoints key)
    (there : OperationEndpoint service consumer endpoints key') : key = key' := by
  obtain ⟨_, fnName, _, _, via, found⟩ := here
  obtain ⟨_, fnName', _, _, via', found'⟩ := there
  rw [via] at via'
  cases via'
  rw [found] at found'
  exact congrArg Prod.fst (Option.some_inj.mp found')

theorem matchByOperationId_of_none (callId : GlobalId) (ownService : ServiceName)
    (none : ∀ key, ¬ OperationEndpoint target consumer endpoints key) :
    (matchByOperationId callId consumer ownService target endpoints).resolution.target =
      some (.unresolved .noRouteInService (some target)) := by
  unfold matchByOperationId
  cases via : consumer.via with
  | library name => rfl
  | receiver receiver fnName base =>
    cases found : findEndpointByOperationId target fnName endpoints with
    | none => simp only [found, unbound]
    | some best => exact absurd ⟨receiver, fnName, base, best.2, via, found⟩ (none best.1)

theorem matchByOperationId_of_some (callId : GlobalId) (ownService : ServiceName)
    {key : ContractKey}
    (operation : OperationEndpoint target consumer endpoints key) :
    (∃ provenance confidence routeMatch stripped,
      (matchByOperationId callId consumer ownService target endpoints).resolution.target =
        some (.binds provenance confidence routeMatch stripped)) ∧
      (matchByOperationId callId consumer ownService target endpoints).resolution.boundEndpoints =
        [⟨target, key⟩] := by
  obtain ⟨receiver, fnName, base, provider, via, found⟩ := operation
  unfold matchByOperationId
  simp only [via, found, bindOne, and_true]
  exact ⟨_, _, _, _, rfl⟩

theorem matchOneService_of_direct (callId : GlobalId) (ownService : ServiceName)
    {template : String}
    (spelled : consumer.url.template = some template) {best : ContractKey × MatchDetail}
    (found : bestProviderForIn target consumer.method template true endpoints = Option.some best)
    (direct : Direct best) :
    (∃ provenance confidence routeMatch stripped,
      (matchOneService callId consumer ownService target endpoints).resolution.target =
        Option.some (.binds provenance confidence routeMatch stripped)) ∧
      (matchOneService callId consumer ownService target endpoints).resolution.boundEndpoints =
        [⟨target, best.1⟩] := by
  obtain ⟨key, detail⟩ := best
  have kind : detail.kind ≠ .prefixStripped := direct
  unfold matchOneService
  simp only [spelled, found, if_neg kind, bindOne, and_true]
  exact ⟨_, _, _, _, rfl⟩

theorem matchOneService_of_not_direct {template : String}
    (spelled : consumer.url.template = some template)
    (other : ∀ best,
      bestProviderForIn target consumer.method template true endpoints = Option.some best →
        ¬ Direct best) :
    matchOneService callId consumer ownService target endpoints =
      matchByOperationId callId consumer ownService target endpoints := by
  unfold matchOneService
  cases found : bestProviderForIn target consumer.method template true endpoints with
  | none => simp only [spelled, found]
  | some best =>
    have stripped : best.2.kind = .prefixStripped := not_not.mp (other best found)
    simp only [spelled, found, if_pos stripped]

/-! ### When direct routes are found -/

theorem findsDirect_iff_operationDecides {template : String}
    (spelled : consumer.url.template = some template)
    (asked : matchOneService callId consumer ownService target endpoints =
      matchByOperationId callId consumer ownService target endpoints) :
    FindsDirect callId consumer ownService target endpoints ↔
      OperationDecides target consumer template endpoints := by
  by_cases operation : ∃ key, OperationEndpoint target consumer endpoints key
  · obtain ⟨key, operation⟩ := operation
    obtain ⟨⟨provenance, confidence, routeMatch, stripped, binds⟩, bound⟩ :=
      matchByOperationId_of_some callId ownService operation
    rw [← asked] at binds bound
    constructor
    · intro finds
      refine Or.inr ⟨key, operation, fun direct => ?_⟩
      obtain ⟨key', _, _, _, _, matched, -, bound'⟩ := finds.bound template spelled direct
      rw [bound, List.singleton_inj] at bound'
      cases bound'
      exact matched
    · intro decides
      constructor
      · intro template' spelled' direct
        rw [spelled, Option.some_inj] at spelled'
        subst spelled'
        obtain ⟨none, -⟩ | ⟨key', operation', direct'⟩ := decides
        · exact absurd operation (none key)
        · rw [← operation.unique operation'] at direct'
          exact ⟨key, _, _, _, _, direct' direct, binds, bound⟩
      · intro service unresolved
        rw [binds] at unresolved
        cases unresolved
  · have none : ∀ key, ¬ OperationEndpoint target consumer endpoints key :=
      not_exists.mp operation
    have unresolved := matchByOperationId_of_none callId ownService none
    rw [← asked] at unresolved
    constructor
    · intro finds
      exact Or.inl ⟨none, (finds.noRoute _ unresolved).1 template spelled⟩
    · rintro (⟨-, nothing⟩ | ⟨key, operation', -⟩)
      · constructor
        · rintro template' spelled' ⟨key, -, direct⟩
          rw [spelled, Option.some_inj] at spelled'
          subst spelled'
          exact absurd direct (nothing key)
        · intro service _
          refine ⟨fun template' spelled' => ?_, none⟩
          rw [spelled, Option.some_inj] at spelled'
          subst spelled'
          exact nothing
      · exact absurd operation' (none key)

/-- **When a direct route is found**: the first candidate is matched as it is, or the operation id
decides as the direct routes would. -/
theorem findsDirect_iff (callId : GlobalId) (consumer : ConsumerFact)
    (ownService target : ServiceName) (endpoints : EndpointTable) :
    FindsDirect callId consumer ownService target endpoints ↔
      HidesNone consumer target endpoints := by
  unfold HidesNone
  cases spelled : consumer.url.template with
  | none =>
    have unresolved :
        (matchOneService callId consumer ownService target endpoints).resolution.target =
          Option.some (.unresolved .noRouteInService (Option.some target)) := by
      unfold matchOneService
      simp only [spelled, unbound]
    constructor
    · intro finds
      exact (finds.noRoute _ unresolved).2
    · intro none
      constructor
      · intro template spelled'
        rw [spelled] at spelled'
        cases spelled'
      · intro service _
        refine ⟨fun template spelled' => ?_, none⟩
        rw [spelled] at spelled'
        cases spelled'
  | some template =>
    dsimp only
    by_cases first : FirstDirect target consumer.method template endpoints
    · refine iff_of_true ?_ (Or.inl first)
      obtain ⟨best, member, direct, least⟩ := first
      have found : bestProviderForIn target consumer.method template true endpoints =
          Option.some best :=
        bestProviderForIn_eq_some.mpr
          ⟨member, fun c there => (least c there).imp_right prefers_true_iff.mpr⟩
      obtain ⟨⟨_, _, _, _, binds⟩, bound⟩ :=
        matchOneService_of_direct callId ownService spelled found direct
      constructor
      · intro template' spelled' _
        rw [spelled, Option.some_inj] at spelled'
        subst spelled'
        have matched := directEndpoint_of_mem_candidates member direct
        exact ⟨best.1, _, _, _, _, matched, binds, bound⟩
      · intro service unresolved
        rw [binds] at unresolved
        cases unresolved
    · have other : ∀ best, bestProviderForIn target consumer.method template true endpoints =
          Option.some best → ¬ Direct best := by
        intro best found direct
        obtain ⟨member, least⟩ := bestProviderForIn_eq_some.mp found
        exact first ⟨best, member, direct,
          fun c there => (least c there).imp_right prefers_true_iff.mp⟩
      rw [findsDirect_iff_operationDecides spelled (matchOneService_of_not_direct spelled other),
        or_iff_right first]

def prefixedCall : ConsumerFact :=
  { method := .known .get
    url := { host := .none, template := some "/api/orders" }
    via := .library "axios"
    urlExpr := "/api/orders"
    readsComplete := true }

/-- **A direct route is missed**: a service serves everything, but the call has no route, since
the more specific `/orders` is matched only after stripping the prefix. -/
theorem findsDirect_fails :
    ¬ ∀ (callId : GlobalId) (consumer : ConsumerFact) (ownService target : ServiceName)
        (endpoints : EndpointTable), FindsDirect callId consumer ownService target endpoints := by
  intro always
  have direct : DirectEndpoint "shop" (.known .get) "/api/orders" catchallTable
      (.http (.known .get) "/{**}") :=
    ⟨[⟨"shop:Function:orders.rs:fallback:9", none, "/{**}", .get⟩], by decide +kernel, _,
      List.mem_cons_self, ⟨.pattern, 1, none⟩, by decide +kernel, by decide⟩
  have missed : (matchOneService "web:HttpClientCall:a.ts:get:3" prefixedCall "web" "shop"
      catchallTable).resolution.target = some (.unresolved .noRouteInService (some "shop")) := by
    decide +kernel
  have finds := always "web:HttpClientCall:a.ts:get:3" prefixedCall "web" "shop" catchallTable
  exact (finds.noRoute _ missed).1 "/api/orders" rfl _ direct

end Lain.Joiner
