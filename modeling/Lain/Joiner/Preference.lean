import Mathlib
import Lain.Contracts.RoutePaths
import Lain.Joiner.Verdicts
import Lain.Foundation.StableSort

/-!
# Which endpoint a call prefers

Of the endpoints of a service that a call matches, the join takes one that is matched as it is
before one that is matched after stripping a prefix, then the more specific one, then the one that
comes first in the table.
-/

namespace Lain.Joiner

open Foundation Contracts Federation

/-! ### The order of the candidates -/

def Direct (c : ContractKey × MatchDetail) : Prop :=
  c.2.kind ≠ .prefixStripped

def MoreSpecific (a b : ContractKey × MatchDetail) : Prop :=
  keySpecificity b.1 < keySpecificity a.1 ∨ keySpecificity a.1 = keySpecificity b.1 ∧ a.1 < b.1

theorem MoreSpecific.asymm {a b : ContractKey × MatchDetail} (more : MoreSpecific a b) :
    ¬ MoreSpecific b a :=
  (show SortsBefore (fun c : ContractKey × MatchDetail => OrderDual.toDual (keySpecificity c.1))
    Prod.fst a b from more).asymm

def Prefers (rule3 : Bool) (a b : ContractKey × MatchDetail) : Prop :=
  rule3 = false ∧ Direct a ∧ ¬ Direct b ∨ (rule3 = true ∨ (Direct a ↔ Direct b)) ∧ MoreSpecific a b

theorem Prefers.asymm {rule3 : Bool} {a b : ContractKey × MatchDetail}
    (preferred : Prefers rule3 a b) : ¬ Prefers rule3 b a := by
  intro other
  rcases preferred with ⟨free, direct, stripped⟩ | ⟨kinds, more⟩
  · rcases other with ⟨-, direct', -⟩ | ⟨kinds, -⟩
    · exact stripped direct'
    · exact stripped ((kinds.resolve_left (by simp [free])).mpr direct)
  · rcases other with ⟨free, direct', stripped'⟩ | ⟨-, less⟩
    · exact stripped' ((kinds.resolve_left (by simp [free])).mpr direct')
    · exact more.asymm less

section Best

variable {service : ServiceName} {method : MethodSpec} {template : String} {rule3 : Bool}
  {endpoints : EndpointTable}

theorem pairwise_candidates :
    (candidates service method template endpoints).Pairwise fun a b => a.1 < b.1 := by
  unfold candidates
  rw [List.pairwise_filterMap]
  refine endpoints.sorted.imp fun {entry later} below c here d there => ?_
  split_ifs at here there with same same'
  obtain ⟨_, _, rfl⟩ := Option.map_eq_some_iff.mp here
  obtain ⟨_, _, rfl⟩ := Option.map_eq_some_iff.mp there
  have code : toLex (entry.1.service, entry.1.key) < toLex (later.1.service, later.1.key) := below
  rw [same, same', Prod.Lex.toLex_lt_toLex] at code
  exact (code.resolve_left (lt_irrefl _)).2

def ranked (service : ServiceName) (method : MethodSpec) (template : String)
    (endpoints : EndpointTable) : List (ContractKey × MatchDetail) :=
  sortByKey (fun c : ContractKey × MatchDetail => OrderDual.toDual (keySpecificity c.1))
    (candidates service method template endpoints)

theorem bestProviderForIn_eq :
    bestProviderForIn service method template rule3 endpoints =
      if rule3 then (ranked service method template endpoints).head?
      else ((ranked service method template endpoints).find? fun c =>
        decide (c.2.kind ≠ .prefixStripped)).or (ranked service method template endpoints).head? := by
  have sorted : ((candidates service method template endpoints).insertionSort fun a b =>
      keySpecificity b.1 ≤ keySpecificity a.1) = ranked service method template endpoints := rfl
  unfold bestProviderForIn
  rw [sorted]
  cases rule3 with
  | true => rfl
  | false =>
    cases found : (ranked service method template endpoints).find? fun c =>
        decide (c.2.kind ≠ .prefixStripped) with
    | some direct => simp only [Bool.false_eq_true, if_false, found, Option.some_or]
    | none => simp only [Bool.false_eq_true, if_false, found, Option.none_or]

theorem find?_ranked_eq_some {p : ContractKey × MatchDetail → Bool}
    {c : ContractKey × MatchDetail} :
    (ranked service method template endpoints).find? p = some c ↔
      c ∈ candidates service method template endpoints ∧ p c = true ∧
        ∀ b ∈ candidates service method template endpoints, p b = true →
          b = c ∨ MoreSpecific c b :=
  find?_sortByKey_eq_some pairwise_candidates

theorem head?_ranked_eq_some {c : ContractKey × MatchDetail} :
    (ranked service method template endpoints).head? = some c ↔
      c ∈ candidates service method template endpoints ∧
        ∀ b ∈ candidates service method template endpoints, b = c ∨ MoreSpecific c b := by
  have head : (ranked service method template endpoints).head? =
      (ranked service method template endpoints).find? fun _ => true := by
    cases ranked service method template endpoints <;> rfl
  rw [head, find?_ranked_eq_some]
  simp

/-- **The endpoint a call takes is the candidate it prefers to all others.** -/
theorem bestProviderForIn_eq_some {best : ContractKey × MatchDetail} :
    bestProviderForIn service method template rule3 endpoints = some best ↔
      best ∈ candidates service method template endpoints ∧
        ∀ c ∈ candidates service method template endpoints, c = best ∨ Prefers rule3 best c := by
  rw [bestProviderForIn_eq]
  cases rule3 with
  | true =>
    refine head?_ranked_eq_some.trans ?_
    simp [Prefers]
  | false =>
    rw [if_neg Bool.false_ne_true]
    cases found : (ranked service method template endpoints).find? fun c =>
        decide (c.2.kind ≠ .prefixStripped) with
    | some d =>
      obtain ⟨member, direct, least⟩ := find?_ranked_eq_some.mp found
      have direct : d.2.kind ≠ .prefixStripped := of_decide_eq_true direct
      rw [Option.some_or, Option.some_inj]
      constructor
      · rintro rfl
        refine ⟨member, fun c there => ?_⟩
        by_cases same : Direct c
        · refine (least c there (decide_eq_true same)).imp_right fun more => ?_
          exact Or.inr ⟨Or.inr (iff_of_true direct same), more⟩
        · exact Or.inr (Or.inl ⟨rfl, direct, same⟩)
      · rintro ⟨there, preferred⟩
        rcases preferred d member with same | ⟨-, -, other⟩ | ⟨stripped, more⟩
        · exact same
        · exact absurd direct other
        · have direct' : Direct best := (stripped.resolve_left (by simp)).mpr direct
          exact ((least best there (decide_eq_true direct')).resolve_right more.asymm).symm
    | none =>
      have stripped : ∀ c ∈ candidates service method template endpoints, ¬ Direct c := by
        intro c member direct
        refine List.find?_eq_none.mp found c ?_ (decide_eq_true direct)
        exact (perm_sortByKey _ _).mem_iff.mpr member
      rw [Option.none_or, head?_ranked_eq_some]
      refine and_congr_right fun member => forall₂_congr fun c there =>
        or_congr_right ⟨fun more => ?_, fun preferred => ?_⟩
      · exact Or.inr ⟨Or.inr (iff_of_false (stripped best member) (stripped c there)), more⟩
      · exact (preferred.resolve_left fun both => stripped best member both.2.1).2

end Best

/-! ### Specificity and the paths of routes -/

def catchallTable : EndpointTable :=
  ((∅ : EndpointTable).insert ⟨"shop", .http (.known .get) "/orders"⟩
    [⟨"shop:Function:orders.rs:list:1", none, "/orders", .get⟩]).insert
      ⟨"shop", .http (.known .get) "/{**}"⟩
        [⟨"shop:Function:orders.rs:fallback:9", none, "/{**}", .get⟩]

section Unbound

variable {callId : GlobalId} {consumer : ConsumerFact} {ownService : ServiceName}
  {config : ContractFederationConfig} {endpoints : EndpointTable} {template : String}
  {envUnmappedPending : Bool}

def MayMean (config : ContractFederationConfig) (ownService : ServiceName) (method : MethodSpec)
    (template : String) (endpoints : EndpointTable) (svc : ServiceName) : Prop :=
  svc ≠ ownService ∧ ∃ key records, endpoints.get? ⟨svc, key⟩ = some records ∧
    ∃ p ∈ records, strongHit config method template p = true

theorem mem_unboundHits {method : MethodSpec} {svc : ServiceName} :
    svc ∈ unboundHits config ownService method template endpoints ↔
      MayMean config ownService method template endpoints svc := by
  unfold unboundHits MayMean
  rw [List.mem_dedup, List.mem_insertionSort, List.mem_map]
  constructor
  · rintro ⟨⟨⟨svc, key⟩, records⟩, member, rfl⟩
    obtain ⟨listed, passes⟩ := List.mem_filter.mp member
    rw [Bool.and_eq_true, decide_eq_true_eq, List.any_eq_true] at passes
    exact ⟨passes.1, key, records, SortedMap.mem_entries.mp listed, passes.2⟩
  · rintro ⟨other, key, records, known, strong⟩
    refine ⟨(⟨svc, key⟩, records), List.mem_filter.mpr ⟨SortedMap.mem_entries.mpr known, ?_⟩, rfl⟩
    rw [Bool.and_eq_true, decide_eq_true_eq, List.any_eq_true]
    exact ⟨other, strong⟩

theorem mem_binds_resolveUnbound {edge : BindsEdge} :
    edge ∈ (resolveUnbound callId consumer ownService config endpoints template
        envUnmappedPending).binds ↔
      ∃ svc ∈ unboundHits config ownService consumer.method template endpoints,
        unboundEdge callId consumer ownService template endpoints
          (heuristicProvenanceFor
            (unboundHits config ownService consumer.method template endpoints).length) svc =
          some edge := by
  unfold resolveUnbound
  dsimp only
  split
  next empty => simp [List.isEmpty_iff.mp empty]
  · exact List.mem_filterMap

/-- **No generic route is bound**: no edge of a call of an unknown host goes to an endpoint with a
generic key. -/
def BindsNoGeneric (callId : GlobalId) (consumer : ConsumerFact) (ownService : ServiceName)
    (config : ContractFederationConfig) (endpoints : EndpointTable) (template : String)
    (envUnmappedPending : Bool) : Prop :=
  ∀ edge ∈ (resolveUnbound callId consumer ownService config endpoints template
    envUnmappedPending).binds, edge.targetEndpoint.key ∉ genericKeys config

def MatchedAt (svc : ServiceName) (method : MethodSpec) (template : String)
    (endpoints : EndpointTable) (c : ContractKey × MatchDetail) : Prop :=
  ∃ records, endpoints.get? ⟨svc, c.1⟩ = some records ∧
    records.findSome? (fun p => matchRoute method template p.method p.template) = some c.2

def PrefersOwn (config : ContractFederationConfig) (method : MethodSpec) (template : String)
    (endpoints : EndpointTable) (svc : ServiceName) : Prop :=
  ∃ c, MatchedAt svc method template endpoints c ∧ c.1 ∉ genericKeys config ∧
    ∀ g, MatchedAt svc method template endpoints g → g.1 ∈ genericKeys config → Prefers false c g

/-- **When no generic route is bound**: each service the call may mean has an endpoint that the
call prefers to its generic ones. -/
theorem bindsNoGeneric_iff :
    BindsNoGeneric callId consumer ownService config endpoints template envUnmappedPending ↔
      ∀ svc, MayMean config ownService consumer.method template endpoints svc →
        PrefersOwn config consumer.method template endpoints svc := by
  constructor
  · intro none svc means
    have hit := mem_unboundHits.mpr means
    obtain ⟨edge, found⟩ := Option.isSome_iff_exists.mp (Resolved.OfTiers.unboundEdge_isSome _ hit)
    have free := none edge (mem_binds_resolveUnbound.mpr ⟨svc, hit, found⟩)
    unfold unboundEdge at found
    obtain ⟨best, chosen, rfl⟩ := Option.map_eq_some_iff.mp found
    obtain ⟨member, preferred⟩ := bestProviderForIn_eq_some.mp chosen
    refine ⟨best, mem_candidates.mp member, free, fun g matched generic => ?_⟩
    refine (preferred g (mem_candidates.mpr matched)).resolve_left fun same => ?_
    exact free (same ▸ generic)
  · intro own edge emitted
    obtain ⟨svc, hit, found⟩ := mem_binds_resolveUnbound.mp emitted
    unfold unboundEdge at found
    obtain ⟨best, chosen, rfl⟩ := Option.map_eq_some_iff.mp found
    obtain ⟨member, preferred⟩ := bestProviderForIn_eq_some.mp chosen
    obtain ⟨c, matched, free, beats⟩ := own svc (mem_unboundHits.mp hit)
    intro generic
    have worse := beats best (mem_candidates.mp member) generic
    rcases preferred c (mem_candidates.mpr matched) with same | better
    · exact free (same ▸ generic)
    · exact worse.asymm better

def healthTable : EndpointTable :=
  ((∅ : EndpointTable).insert ⟨"shop", .http (.known .get) "/health"⟩
    [⟨"shop:Function:health.rs:health:1", none, "/health", .get⟩]).insert
      ⟨"shop", .http (.known .get) "/{}"⟩
        [⟨"shop:Function:pages.rs:page:1", none, "/{}", .get⟩]

def healthCall : ConsumerFact :=
  { method := .known .get
    url := ⟨.expr "base", some "/health"⟩
    via := .receiver "http" "get" none
    urlExpr := "base + '/health'"
    readsComplete := true }

/-- The route with a hole makes the service one the call may mean, and the health route is
bound. -/
theorem bindsNoGeneric_fails :
    resolveConsumer "web:Function:app.ts:load:3" healthCall "web" {} healthTable ⟨∅⟩ ⟨∅⟩ =
        resolveUnbound "web:Function:app.ts:load:3" healthCall "web" {} healthTable "/health"
          false ∧
      ¬ BindsNoGeneric "web:Function:app.ts:load:3" healthCall "web" {} healthTable "/health"
        false := by
  refine ⟨by decide +kernel, fun none => ?_⟩
  have bound : ∃ edge ∈ (resolveUnbound "web:Function:app.ts:load:3" healthCall "web" {}
      healthTable "/health" false).binds, edge.targetEndpoint.key ∈ genericKeys {} := by
    decide +kernel
  obtain ⟨edge, emitted, generic⟩ := bound
  exact none edge emitted generic

end Unbound

end Lain.Joiner
