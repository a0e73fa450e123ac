import Mathlib
import Lain.Joiner.DirectRoutes
import Lain.Joiner.OwnService

/-!
# The kinds of the endpoints HTTP calls are bound to

An HTTP call is meant to be bound to an HTTP endpoint it matches as it is, or whose operation id is
the name of the called function.
-/

namespace Lain.Joiner

open Foundation Contracts Federation

/-! ### What is promised -/

def NamedOperation (consumer : ConsumerFact) (endpoints : EndpointTable) (id : EndpointId) :
    Prop :=
  ∃ receiver fnName base, consumer.via = .receiver receiver fnName base ∧
    ∃ records, endpoints.get? id = some records ∧ ∃ p ∈ records, p.operationId = some fnName

def IsMeant (consumer : ConsumerFact) (endpoints : EndpointTable) (id : EndpointId) : Prop :=
  (∃ template, consumer.url.template = some template ∧
      DirectEndpoint id.service consumer.method template endpoints id.key) ∨
    NamedOperation consumer endpoints id

def KindSafe (consumer : ConsumerFact) (endpoints : EndpointTable) (edge : BindsEdge) : Prop :=
  IsHttp edge.targetEndpoint.key ∧ IsMeant consumer endpoints edge.targetEndpoint

/-- **No bindings are invented**: every edge the tiers emit for an HTTP call goes to an HTTP
endpoint the call means. -/
def JoinInput.BindsHttpOnly (input : JoinInput) : Prop :=
  ∀ node consumer, (node, ContractFact.consumer consumer) ∈ input.sites →
    ∀ edge, input.Emits (node, .consumer consumer) edge → KindSafe consumer input.endpoints edge

/-! ### When it is kept -/

structure HttpFirst (consumer : ConsumerFact) (target : ServiceName) (template : String)
    (endpoints : EndpointTable) : Prop where
  route : ∀ other, MatchedAt target consumer.method template endpoints other → Direct other →
    ¬ IsHttp other.1 → ∃ c, MatchedAt target consumer.method template endpoints c ∧ c.1 < other.1
  operation : ¬ FirstDirect target consumer.method template endpoints →
    ∀ key, OperationEndpoint target consumer endpoints key → IsHttp key

def HttpMeant (consumer : ConsumerFact) (svc : ServiceName) (template : String)
    (endpoints : EndpointTable) : Prop :=
  (∃ c, MatchedAt svc consumer.method template endpoints c ∧ Direct c ∧ IsHttp c.1) ∨
    (∀ c, MatchedAt svc consumer.method template endpoints c → ¬ Direct c) ∧
      ∃ best, MatchedAt svc consumer.method template endpoints best ∧ IsHttp best.1 ∧
        IsMeant consumer endpoints ⟨svc, best.1⟩ ∧
        ∀ c, MatchedAt svc consumer.method template endpoints c → c = best ∨ MoreSpecific best c

def asksByConfig (callId : GlobalId) (consumer : ConsumerFact) (ownService : ServiceName)
    (config : ContractFederationConfig) (endpoints : EndpointTable) : Option String :=
  match dialedByConfig callId consumer config, foreignHost consumer, consumer.url.template with
  | none, none, some template =>
    match sameOrigin consumer ownService template endpoints with
    | some _ => none
    | none => some template
  | _, _, _ => none

def asksEveryone (callId : GlobalId) (consumer : ConsumerFact) (ownService : ServiceName)
    (config : ContractFederationConfig) (endpoints : EndpointTable) (registry : ClientRegistry)
    (env : EnvBindingIndex) : Option String :=
  match (targetServiceViaRegistry consumer registry config).or
      (targetServiceFromHttpClient consumer config) with
  | some _ => none
  | none =>
    match resolveEnvConsumer consumer env config with
    | some (.service _, _) => none
    | some (.ambiguous _, _) => none
    | some (.unmapped, _) => asksByConfig callId consumer ownService config endpoints
    | none => asksByConfig callId consumer ownService config endpoints

def KeepsKind (callId : GlobalId) (consumer : ConsumerFact) (ownService : ServiceName)
    (config : ContractFederationConfig) (endpoints : EndpointTable) (registry : ClientRegistry)
    (env : EnvBindingIndex) : Prop :=
  match dialedService callId consumer config registry env with
  | some target =>
    ∀ template, consumer.url.template = some template →
      HttpFirst consumer target template endpoints
  | none =>
    ∀ template, asksEveryone callId consumer ownService config endpoints registry env =
      some template → ∀ svc, MayMean config ownService consumer.method template endpoints svc →
        HttpMeant consumer svc template endpoints

/-- The endpoints keep every HTTP call to its protocol that is not passed over. -/
def JoinInput.KeepsKinds (input : JoinInput) : Prop :=
  ∀ node consumer, (node, ContractFact.consumer consumer) ∈ input.sites →
    ∀ callId, GlobalId.parse node.id = some callId →
      (isWrapperCandidate consumer && !input.registryHasDef consumer &&
        !input.httpClientsMatch consumer) = false →
      KeepsKind callId consumer (input.ownService node) input.config input.endpoints
        input.registry input.env

/-! ### Which endpoints come first -/

theorem lt_of_isHttp {a b : ContractKey} (http : IsHttp a) (other : ¬ IsHttp b) : a < b := by
  obtain ⟨method, template, rfl⟩ := http
  have first : ∀ {n : ℕ} {rest rest' : ℕ ×ₗ List String}, 0 < n →
      (toLex (0, rest) : ℕ ×ₗ ℕ ×ₗ List String) < toLex (n, rest') := fun positive =>
    Prod.Lex.toLex_lt_toLex.mpr (Or.inl positive)
  change ContractKey.code _ < ContractKey.code b
  cases b with
  | http method' template' => exact absurd ⟨method', template', rfl⟩ other
  | rpc system service method' =>
    cases system
    exact first (by decide)
  | _ => exact first (by decide)

theorem keySpecificity_of_not_isHttp {key : ContractKey} (other : ¬ IsHttp key) :
    keySpecificity key = [] := by
  have blank : templateSpecificity "" = [] := by decide +kernel
  cases key with
  | http method template => exact absurd ⟨method, template, rfl⟩ other
  | _ => exact blank

theorem MoreSpecific.lt_of_not_isHttp {a b : ContractKey × MatchDetail} (more : MoreSpecific a b)
    (other : ¬ IsHttp a.1) : a.1 < b.1 := by
  rcases more with less | ⟨-, before⟩
  · rw [keySpecificity_of_not_isHttp other] at less
    exact absurd less (List.not_lt_nil _)
  · exact before

section Endpoints

variable {callId : GlobalId} {consumer : ConsumerFact} {ownService target svc : ServiceName}
  {template : String} {endpoints : EndpointTable}

theorem MatchedAt.unique {method : MethodSpec} {a b : ContractKey × MatchDetail}
    (here : MatchedAt svc method template endpoints a)
    (there : MatchedAt svc method template endpoints b) (same : a.1 = b.1) : a = b := by
  obtain ⟨records, found, first⟩ := here
  obtain ⟨records', found', first'⟩ := there
  rw [same, found'] at found
  obtain rfl := Option.some_inj.mp found
  exact Prod.ext same (Option.some_inj.mp (first.symm.trans first'))

theorem isMeant_of_direct (spelled : consumer.url.template = some template)
    {c : ContractKey × MatchDetail} (matched : MatchedAt svc consumer.method template endpoints c)
    (direct : Direct c) : IsMeant consumer endpoints ⟨svc, c.1⟩ :=
  Or.inl ⟨template, spelled,
    directEndpoint_of_mem_candidates (mem_candidates.mpr matched) direct⟩

theorem isMeant_of_operation {key : ContractKey}
    (operation : OperationEndpoint target consumer endpoints key) :
    IsMeant consumer endpoints ⟨target, key⟩ := by
  obtain ⟨receiver, fnName, base, provider, via, found⟩ := operation
  unfold findEndpointByOperationId at found
  obtain ⟨entry, listed, here⟩ := List.exists_of_findSome?_eq_some found
  split_ifs at here with same
  obtain ⟨p, first, equal⟩ := Option.map_eq_some_iff.mp here
  obtain ⟨rfl, -⟩ := Prod.mk.inj equal
  refine Or.inr ⟨receiver, fnName, base, via, entry.2, ?_, p, List.mem_of_find?_eq_some first, ?_⟩
  · rw [← SortedMap.mem_entries, ← same]
    exact listed
  · simpa using List.find?_some first

/-! ### A named service -/

theorem binds_matchOneService_of_direct (spelled : consumer.url.template = some template)
    {best : ContractKey × MatchDetail}
    (found : bestProviderForIn target consumer.method template true endpoints = some best)
    (direct : Direct best) :
    ∃ edge, (matchOneService callId consumer ownService target endpoints).binds = [edge] ∧
      edge.targetEndpoint = ⟨target, best.1⟩ := by
  have kind : best.2.kind ≠ .prefixStripped := direct
  unfold matchOneService
  simp only [spelled, found, if_neg kind, bindOne]
  exact ⟨_, rfl, rfl⟩

theorem forall_binds_matchByOperationId {P : EndpointId → Prop} :
    (∀ edge ∈ (matchByOperationId callId consumer ownService target endpoints).binds,
        P edge.targetEndpoint) ↔
      ∀ key, OperationEndpoint target consumer endpoints key → P ⟨target, key⟩ := by
  constructor
  · rintro all key ⟨receiver, fnName, base, provider, via, found⟩
    unfold matchByOperationId at all
    simp only [via, found, bindOne, List.mem_singleton, forall_eq] at all
    exact all
  · intro all edge emitted
    unfold matchByOperationId at emitted
    dsimp only at emitted
    split at emitted
    next key provider found =>
        obtain rfl := List.mem_singleton.mp emitted
        cases via : consumer.via with
        | library name =>
          rw [via] at found
          cases found
        | receiver receiver fnName base =>
          rw [via] at found
          exact all key ⟨receiver, fnName, base, provider, via, found⟩
    · cases emitted

theorem binds_matchOneService_of_none (bare : consumer.url.template = none) :
    (matchOneService callId consumer ownService target endpoints).binds = [] := by
  unfold matchOneService
  rw [bare]

theorem kindSafe_matchOneService_iff (spelled : consumer.url.template = some template) :
    (∀ edge ∈ (matchOneService callId consumer ownService target endpoints).binds,
        KindSafe consumer endpoints edge) ↔ HttpFirst consumer target template endpoints := by
  by_cases first : FirstDirect target consumer.method template endpoints
  · obtain ⟨best, member, direct, least⟩ := id first
    have matched : MatchedAt target consumer.method template endpoints best :=
      mem_candidates.mp member
    have found : bestProviderForIn target consumer.method template true endpoints = some best :=
      bestProviderForIn_eq_some.mpr
        ⟨member, fun c there => (least c there).imp_right prefers_true_iff.mpr⟩
    obtain ⟨edge, binds, goal⟩ := @binds_matchOneService_of_direct callId consumer ownService target
      template endpoints spelled best found direct
    rw [binds]
    simp only [List.mem_singleton, forall_eq, KindSafe, goal]
    constructor
    · rintro ⟨http, -⟩
      exact ⟨fun other _ _ foreign => ⟨best, matched, lt_of_isHttp http foreign⟩,
        fun none => absurd first none⟩
    · rintro ⟨route, -⟩
      refine ⟨by_contra fun foreign => ?_, isMeant_of_direct spelled matched direct⟩
      obtain ⟨c, there, before⟩ := route best matched direct foreign
      rcases least c (mem_candidates.mpr there) with rfl | more
      · exact lt_irrefl _ before
      · exact (more.lt_of_not_isHttp foreign).asymm before
  · have other : ∀ best,
        bestProviderForIn target consumer.method template true endpoints = some best →
          ¬ Direct best := by
      intro best found direct
      obtain ⟨member, least⟩ := bestProviderForIn_eq_some.mp found
      exact first ⟨best, member, direct,
        fun c there => (least c there).imp_right prefers_true_iff.mp⟩
    rw [matchOneService_of_not_direct spelled other]
    refine (@forall_binds_matchByOperationId callId consumer ownService target endpoints
      fun id => IsHttp id.key ∧ IsMeant consumer endpoints id).trans ?_
    constructor
    · intro all
      refine ⟨fun c matched direct foreign => by_contra fun alone => first ?_,
        fun _ key operation => (all key operation).1⟩
      refine ⟨c, mem_candidates.mpr matched, direct, fun d there => or_iff_not_imp_left.mpr ?_⟩
      intro different
      have matched' := mem_candidates.mp there
      have after : c.1 < d.1 := by
        refine lt_of_le_of_ne (not_lt.mp fun before => alone ⟨d, matched', before⟩) fun same => ?_
        exact different (MatchedAt.unique matched' matched same.symm)
      have foreign' : ¬ IsHttp d.1 := fun http => (lt_of_isHttp http foreign).asymm after
      exact Or.inr ⟨by rw [keySpecificity_of_not_isHttp foreign,
        keySpecificity_of_not_isHttp foreign'], after⟩
    · rintro ⟨-, operation⟩ key named
      exact ⟨operation first key named, isMeant_of_operation named⟩

/-! ### A service an unknown host may mean -/

theorem kindSafe_best_iff (spelled : consumer.url.template = some template)
    {best : ContractKey × MatchDetail}
    (found : bestProviderForIn svc consumer.method template false endpoints = some best) :
    IsHttp best.1 ∧ IsMeant consumer endpoints ⟨svc, best.1⟩ ↔
      HttpMeant consumer svc template endpoints := by
  obtain ⟨member, preferred⟩ := bestProviderForIn_eq_some.mp found
  have matched : MatchedAt svc consumer.method template endpoints best :=
    mem_candidates.mp member
  -- the preferred endpoint is matched as it is if any is
  have direct_of : ∀ c, MatchedAt svc consumer.method template endpoints c → Direct c →
      Direct best := by
    intro c there direct
    rcases preferred c (mem_candidates.mpr there) with rfl | ⟨-, here, -⟩ | ⟨kinds, -⟩
    · exact direct
    · exact here
    · exact (kinds.resolve_left Bool.false_ne_true).mpr direct
  constructor
  · rintro ⟨http, meant⟩
    by_cases direct : Direct best
    · exact Or.inl ⟨best, matched, direct, http⟩
    · refine Or.inr ⟨fun c there here => direct (direct_of c there here), best, matched, http, meant,
        fun c there => (preferred c (mem_candidates.mpr there)).imp_right fun better => ?_⟩
      rcases better with ⟨-, here, -⟩ | ⟨-, more⟩
      · exact absurd here direct
      · exact more
  · rintro (⟨c, there, direct, http⟩ | ⟨none, first, there, http, meant, least⟩)
    · have here := direct_of c there direct
      refine ⟨by_contra fun foreign => ?_, isMeant_of_direct spelled matched here⟩
      rcases preferred c (mem_candidates.mpr there) with rfl | ⟨-, -, stripped⟩ | ⟨-, more⟩
      · exact foreign http
      · exact stripped direct
      · exact (more.lt_of_not_isHttp foreign).asymm (lt_of_isHttp http foreign)
    · have same : best = first := by
        rcases least best matched with same | less
        · exact same
        rcases preferred first (mem_candidates.mpr there) with same | ⟨-, here, -⟩ | ⟨-, more⟩
        · exact same.symm
        · exact absurd here (none best matched)
        · exact absurd less more.asymm
      rw [same]
      exact ⟨http, meant⟩

theorem kindSafe_resolveUnbound_iff (spelled : consumer.url.template = some template)
    {config : ContractFederationConfig} {envUnmappedPending : Bool} :
    (∀ edge ∈ (resolveUnbound callId consumer ownService config endpoints template
        envUnmappedPending).binds, KindSafe consumer endpoints edge) ↔
      ∀ svc, MayMean config ownService consumer.method template endpoints svc →
        HttpMeant consumer svc template endpoints := by
  constructor
  · intro all svc means
    have hit := mem_unboundHits.mpr means
    obtain ⟨edge, found⟩ := Option.isSome_iff_exists.mp (Resolved.OfTiers.unboundEdge_isSome _ hit)
    have safe := all edge (mem_binds_resolveUnbound.mpr ⟨svc, hit, found⟩)
    unfold unboundEdge at found
    obtain ⟨best, chosen, rfl⟩ := Option.map_eq_some_iff.mp found
    exact (kindSafe_best_iff spelled chosen).mp safe
  · intro all edge emitted
    obtain ⟨svc, hit, found⟩ := mem_binds_resolveUnbound.mp emitted
    unfold unboundEdge at found
    obtain ⟨best, chosen, rfl⟩ := Option.map_eq_some_iff.mp found
    exact (kindSafe_best_iff spelled chosen).mpr (all svc (mem_unboundHits.mp hit))

/-! ### The ladder -/

theorem template_of_asksByConfig {config : ContractFederationConfig}
    (asks : asksByConfig callId consumer ownService config endpoints = some template) :
    consumer.url.template = some template := by
  unfold asksByConfig at asks
  split at asks
  · split at asks
    · cases asks
    · obtain rfl := Option.some_inj.mp asks
      assumption
  · cases asks

theorem binds_of_asksByConfig {config : ContractFederationConfig} (envUnmappedPending : Bool)
    (unnamed : dialedByConfig callId consumer config = none) :
    (resolveByConfig callId consumer ownService config endpoints envUnmappedPending).binds =
      match asksByConfig callId consumer ownService config endpoints with
      | some template =>
        (resolveUnbound callId consumer ownService config endpoints template
          envUnmappedPending).binds
      | none => [] := by
  have named : (targetServiceFromEnv consumer config).or
      (targetServiceFromHosts consumer config) = none := by
    unfold dialedByConfig at unnamed
    split at unnamed
    · cases unnamed
    next named => exact named
  unfold asksByConfig
  rw [unnamed]
  unfold dialedByConfig at unnamed
  unfold resolveByConfig
  rw [named] at unnamed ⊢
  dsimp only at unnamed ⊢
  split
  next host here =>
      have foreign : foreignHost consumer = some host := here
      rw [foreign]
  next here =>
      have unhosted : foreignHost consumer = none := here
      rw [unhosted] at unnamed ⊢
      rw [Option.map_eq_none_iff.mp unnamed]
      cases spelled : consumer.url.template with
      | none => rfl
      | some template =>
        dsimp only
        cases sameOrigin consumer ownService template endpoints with
        | none => rfl
        | some key => rfl

theorem kindSafe_resolveConsumer_iff {config : ContractFederationConfig}
    {registry : ClientRegistry} {env : EnvBindingIndex} :
    (∀ edge ∈ (resolveConsumer callId consumer ownService config endpoints registry env).binds,
        KindSafe consumer endpoints edge) ↔
      KeepsKind callId consumer ownService config endpoints registry env := by
  unfold KeepsKind
  cases dialed : dialedService callId consumer config registry env with
  | some target =>
    rw [binds_of_dialedService dialed]
    dsimp only
    cases spelled : consumer.url.template with
    | none => simp [binds_matchOneService_of_none spelled]
    | some template =>
      rw [kindSafe_matchOneService_iff spelled]
      simp only [Option.some_inj, forall_eq']
  | none =>
    -- the rungs above the last are passed, so the call is bound there or to nothing
    have onLast : ∀ pending, dialedByConfig callId consumer config = none →
        ((∀ edge ∈ (resolveByConfig callId consumer ownService config endpoints
            pending).binds, KindSafe consumer endpoints edge) ↔
          ∀ template, asksByConfig callId consumer ownService config endpoints = some template →
            ∀ svc, MayMean config ownService consumer.method template endpoints svc →
              HttpMeant consumer svc template endpoints) := by
      intro pending unnamed
      rw [binds_of_asksByConfig pending unnamed]
      cases asks : asksByConfig callId consumer ownService config endpoints with
      | none => simp
      | some template =>
        dsimp only
        rw [kindSafe_resolveUnbound_iff (template_of_asksByConfig asks)]
        simp only [Option.some_inj, forall_eq']
    dsimp only
    unfold dialedService at dialed
    unfold resolveConsumer asksEveryone
    cases named : (targetServiceViaRegistry consumer registry config).or
        (targetServiceFromHttpClient consumer config) with
    | some declared =>
      rw [named] at dialed
      cases dialed
    | none =>
      rw [named] at dialed
      dsimp only at dialed ⊢
      rcases files : resolveEnvConsumer consumer env config with _ | ⟨found | hosts | _, counted⟩
        <;> rw [files] at dialed
      · exact onLast false dialed
      · cases dialed
      · simp
      · exact onLast true dialed

end Endpoints

/-- **HTTP calls are bound to HTTP endpoints they mean** exactly when the endpoints keep every call
to its protocol. -/
theorem JoinInput.bindsHttpOnly_iff (input : JoinInput) :
    input.BindsHttpOnly ↔ input.KeepsKinds := by
  refine forall₂_congr fun node consumer => forall_congr' fun _ => ?_
  simp only [emits_consumer_iff, forall_exists_index, and_imp]
  constructor
  · intro safe callId parsed kept
    exact kindSafe_resolveConsumer_iff.mp fun edge emitted => safe edge callId parsed kept emitted
  · intro keeps edge callId parsed kept emitted
    exact kindSafe_resolveConsumer_iff.mpr (keeps callId parsed kept) edge emitted

/-! ### A table with the name of a route -/

def ordersCall : ConsumerFact :=
  { method := .known .get
    url := ⟨.literal "shop.internal", some "/orders"⟩
    via := .library "fetch"
    urlExpr := "http://shop.internal/orders"
    readsComplete := true }

def ordersCaller : GraphNode :=
  { id := "web:HttpClientCall:app.ts:load:3"
    nodeType := .httpClientCall
    name := "load"
    path := "app.ts"
    contract := [.consumer ordersCall] }

def tableCall : JoinInput where
  nodes :=
    [{ id := "shop:Table:schema.sql:orders:1"
       nodeType := .table
       name := "orders"
       path := "schema.sql"
       contract := [.table ⟨"shop", "orders"⟩] },
     ordersCaller]
  config := { services := [{ name := "shop", repo := "shop", hosts := ["shop.internal"] }] }

/-- The HTTP call is bound to the table. -/
theorem JoinInput.bindsHttpOnly_fails :
    (tableCall.run.binds.map fun edge => (edge.consumer, edge.targetEndpoint)) =
        [("web:HttpClientCall:app.ts:load:3", ⟨"shop", .table "orders"⟩)] ∧
      ¬ tableCall.BindsHttpOnly := by
  refine ⟨by decide +kernel, fun safe => ?_⟩
  have bound : ∃ r ∈ tableCall.tierVerdict (ordersCaller, .consumer ordersCall), ∃ edge ∈ r.binds,
      edge.targetEndpoint.key = .table "orders" := by
    decide +kernel
  obtain ⟨r, verdict, edge, emitted, table⟩ := bound
  obtain ⟨⟨method, template, http⟩, -⟩ :=
    safe ordersCaller ordersCall (by decide +kernel) edge ⟨r, verdict, emitted⟩
  rw [table] at http
  cases http

end Lain.Joiner
