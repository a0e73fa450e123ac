import Mathlib
import Lain.Joiner.Verdicts

/-!
# When a confirmation stands alone

A confirmed binding is meant to take the place of what the tiers said about the
facts it names.
-/

namespace Lain.Joiner

open Foundation Contracts Federation

namespace JoinInput

variable (input : JoinInput)

def confirms (site : Site) (r : ConsumerResolution) : Bool :=
  (input.confirmationsOf site).any fun c => decide (r = input.resolutionOf c)

def confirmsByEdge (site : Site) (edge : BindsEdge) : Bool :=
  (input.confirmationsOf site).any fun c => decide (edge = input.edgeOf c)

/-- The confirmations stand alone in the output. -/
structure ConfirmedAlone : Prop where
  /-- A confirmed fact has exactly one resolution that confirms it. -/
  once : ∀ site ∈ input.sites, ∀ callId, GlobalId.parse site.1.id = some callId →
    input.isNamed site = true → (input.consumersOf callId).countP (input.confirms site) = 1
  /-- What is left of the tiers is what they said about the facts not confirmed. -/
  others : ∀ callId, (input.consumersOf callId).filter (fun r => !isConfirmedResolution r) =
    ((input.sites.filter fun site => decide (GlobalId.parse site.1.id = some callId) &&
      !input.isNamed site).filterMap input.tierVerdict).map Resolved.resolution
  /-- A confirmed fact has exactly one edge that confirms it. -/
  bound : ∀ site ∈ input.sites, input.isNamed site = true →
    input.run.binds.countP (input.confirmsByEdge site) = 1
  /-- An edge of the tiers is left for a fact that is not confirmed only. -/
  derived : ∀ site ∈ input.sites, input.isNamed site = true → ∀ edge ∈ input.run.binds,
    input.Emits site edge →
      ∃ other ∈ input.sites, input.isNamed other = false ∧ input.Emits other edge

/-- The bindings confirm what they name and nothing else. -/
structure ConfirmsCleanly : Prop where
  /-- Of the last confirmations of a call under each provider key, one is about the fact. -/
  last : ∀ site ∈ input.sites, ∀ callId, GlobalId.parse site.1.id = some callId →
    input.isNamed site = true →
    (lastPer Confirmation.providerKey (input.confirmationsAt callId)).countP
      (fun c => Confirmation.names c site) = 1
  /-- A binding of the call overrides a verdict exactly when its fact is confirmed. -/
  overrides : ∀ site ∈ input.sites, ∀ callId, GlobalId.parse site.1.id = some callId →
    ∀ r, input.tierVerdict site = some r →
    (input.confirmationsAt callId).any (fun c => c.1.overrides r.resolution) =
      input.isNamed site
  /-- Of the first confirmations of a call at each provider, one is about the fact. -/
  first : ∀ site ∈ input.sites, ∀ callId, GlobalId.parse site.1.id = some callId →
    input.isNamed site = true →
    (firstPer (fun c : Confirmation => c.1.provider) (input.confirmationsAt callId)).countP
      (fun c => Confirmation.names c site) = 1
  /-- The first edge of a pair is confirmed, or of a fact that is not. -/
  covers : ∀ edge ∈ firstPer bindPair input.tierBinds,
    (∃ c ∈ input.confirmations, bindPair (input.edgeOf c) = bindPair edge) ∨
      ∃ site ∈ input.sites, input.isNamed site = false ∧ input.Emits site edge

/-! ### What tells confirmations apart -/

variable {input}

theorem source_injective {i j : Nat}
    (same : s!"repos.yaml#bindings[<{i}>]" = s!"repos.yaml#bindings[<{j}>]") : i = j := by
  have chars := congrArg String.toList same
  have digits : Nat.repr i = Nat.repr j :=
    congrArg String.ofList (by simpa [toString] using chars)
  exact Nat.repr_inj.mp digits

theorem applied_injective {b b' : CheckedBinding} (here : b ∈ input.applied)
    (there : b' ∈ input.applied) (same : b.source = b'.source) : b = b' := by
  have checked : ∀ {b : CheckedBinding}, b ∈ input.applied →
      ∃ entry ∈ input.config.bindings.zipIdx,
        checkBinding input.endpoints entry.2 entry.1 = .ok b ∧
          b.source = s!"repos.yaml#bindings[<{entry.2}>]" := by
    intro b member
    obtain ⟨entry, listed, ok⟩ := List.mem_filterMap.mp member
    cases found : checkBinding input.endpoints entry.2 entry.1 with
    | error reason =>
      rw [found] at ok
      cases ok
    | ok checked =>
      rw [found] at ok
      cases ok
      refine ⟨entry, listed, found, ?_⟩
      unfold checkBinding at found
      split at found
      · split_ifs at found
        split at found
        · cases found
          rfl
        · cases found
      · cases found
  obtain ⟨entry, listed, ok, source⟩ := checked here
  obtain ⟨entry', listed', ok', source'⟩ := checked there
  have place : entry.2 = entry'.2 := source_injective (source ▸ source' ▸ same)
  have whole : entry = entry' := by
    refine Prod.ext ?_ place
    rw [List.mem_zipIdx_iff_getElem?] at listed listed'
    rw [place] at listed
    exact Option.some_inj.mp (listed.symm.trans listed')
  rw [whole, ok'] at ok
  exact (Except.ok.inj ok).symm

theorem mem_applied_of_mem_confirmations {c : Confirmation} (member : c ∈ input.confirmations) :
    c.1 ∈ input.applied := by
  obtain ⟨b, applied, found⟩ := List.mem_flatMap.mp member
  obtain ⟨call, -, rfl⟩ := List.mem_map.mp found
  exact applied

theorem confirms_resolutionOf {c : Confirmation} (member : c ∈ input.confirmations)
    (site : Site) : input.confirms site (input.resolutionOf c) = Confirmation.names c site := by
  unfold confirms confirmationsOf
  rw [Bool.eq_iff_iff, List.any_eq_true]
  constructor
  · rintro ⟨c', listed, same⟩
    obtain ⟨listed, names⟩ := List.mem_filter.mp listed
    have equal := of_decide_eq_true same
    unfold resolutionOf CheckedBinding.resolution at equal
    simp only [ConsumerResolution.mk.injEq, Option.some.injEq, ConsumerTarget.binds.injEq,
      EdgeProvenance.confirmed.injEq] at equal
    obtain ⟨call, -, ⟨source, -⟩, -, reads⟩ := equal
    have binding := applied_injective (mem_applied_of_mem_confirmations member)
      (mem_applied_of_mem_confirmations listed) source
    have whole : c = c' := Prod.ext binding (Prod.ext call reads)
    rw [whole]
    exact names
  · exact fun names => ⟨c, List.mem_filter.mpr ⟨member, names⟩, decide_eq_true rfl⟩

theorem confirmsByEdge_edgeOf {c : Confirmation} (member : c ∈ input.confirmations)
    (site : Site) : input.confirmsByEdge site (input.edgeOf c) = Confirmation.names c site := by
  unfold confirmsByEdge confirmationsOf
  rw [Bool.eq_iff_iff, List.any_eq_true]
  constructor
  · rintro ⟨c', listed, same⟩
    obtain ⟨listed, names⟩ := List.mem_filter.mp listed
    have equal := of_decide_eq_true same
    unfold edgeOf CheckedBinding.edge at equal
    simp only [BindsEdge.mk.injEq, EdgeProvenance.confirmed.injEq] at equal
    obtain ⟨call, -, -, -, -, source, -⟩ := equal
    have binding := applied_injective (mem_applied_of_mem_confirmations member)
      (mem_applied_of_mem_confirmations listed) source
    unfold Confirmation.names at names ⊢
    rw [call, binding]
    exact names
  · exact fun names => ⟨c, List.mem_filter.mpr ⟨member, names⟩, decide_eq_true rfl⟩

/-! ### The resolutions of a call -/

def verdictsAt (input : JoinInput) (callId : GlobalId) : List (Site × ConsumerResolution) :=
  (input.sites.filter fun site => decide (GlobalId.parse site.1.id = some callId)).filterMap
    fun site => (input.tierVerdict site).map fun r => (site, r.resolution)

theorem consumersOf_split (callId : GlobalId) :
    input.consumersOf callId =
      (lastPer Confirmation.providerKey (input.confirmationsAt callId)).reverse.map
          input.resolutionOf ++
        ((input.verdictsAt callId).map Prod.snd).filter fun r =>
          !(input.confirmationsAt callId).any fun c => c.1.overrides r := by
  have own : ∀ c c' : Confirmation, c.1.overrides (input.resolutionOf c') =
      decide (c'.providerKey = c.providerKey) := by
    intro c c'
    simp only [CheckedBinding.overrides, resolutionOf, CheckedBinding.resolution, Option.any_some,
      ConsumerTarget.isBinds, List.head?_cons, Option.map_some, Option.some_inj, Bool.true_and]
    exact decide_eq_decide.mpr Iff.rfl
  have tiers : input.tierResolutions callId = (input.verdictsAt callId).map Prod.snd := by
    unfold tierResolutions verdictsAt
    rw [List.map_filterMap, List.map_filterMap]
    simp [Option.map_map, Function.comp_def]
  rw [consumersOf_eq, tiers]
  exact foldl_overriding own _ _

theorem isConfirmedResolution_resolutionOf (c : Confirmation) :
    isConfirmedResolution (input.resolutionOf c) = true :=
  rfl

theorem unconfirmed_verdictsAt {callId : GlobalId} {entry : Site × ConsumerResolution}
    (member : entry ∈ input.verdictsAt callId) : isConfirmedResolution entry.2 = false := by
  obtain ⟨site, -, found⟩ := List.mem_filterMap.mp member
  obtain ⟨r, verdict, rfl⟩ := Option.map_eq_some_iff.mp found
  obtain ⟨_, _, tier⟩ := ofTiers_of_tierVerdict verdict
  exact tier.unconfirmed

theorem mem_confirmations_of_mem_lastPer {callId : GlobalId} {c : Confirmation}
    (member : c ∈ lastPer Confirmation.providerKey (input.confirmationsAt callId)) :
    c ∈ input.confirmations :=
  (List.mem_filter.mp (mem_of_mem_lastPer member)).1

theorem countP_confirms (callId : GlobalId) (site : Site) :
    (input.consumersOf callId).countP (input.confirms site) =
      (lastPer Confirmation.providerKey (input.confirmationsAt callId)).countP
        fun c => Confirmation.names c site := by
  have tiers : (((input.verdictsAt callId).map Prod.snd).filter fun r =>
      !(input.confirmationsAt callId).any fun c => c.1.overrides r).countP
        (input.confirms site) = 0 := by
    refine List.countP_eq_zero.mpr fun r member confirms => ?_
    obtain ⟨entry, listed, rfl⟩ := List.mem_map.mp (List.mem_filter.mp member).1
    obtain ⟨c, -, same⟩ := List.any_eq_true.mp confirms
    have free := unconfirmed_verdictsAt listed
    rw [of_decide_eq_true same] at free
    cases free
  rw [consumersOf_split, List.countP_append, tiers, Nat.add_zero, List.countP_map,
    List.countP_reverse]
  exact List.countP_congr fun c member => by
    rw [Function.comp_apply, confirms_resolutionOf (mem_confirmations_of_mem_lastPer member)]

theorem filter_consumersOf (callId : GlobalId) :
    (input.consumersOf callId).filter (fun r => !isConfirmedResolution r) =
      ((input.verdictsAt callId).map Prod.snd).filter fun r =>
        !(input.confirmationsAt callId).any fun c => c.1.overrides r := by
  rw [consumersOf_split, List.filter_append]
  have confirmed : ((lastPer Confirmation.providerKey (input.confirmationsAt callId)).reverse.map
      input.resolutionOf).filter (fun r => !isConfirmedResolution r) = [] := by
    refine List.filter_eq_nil_iff.mpr fun r member => ?_
    obtain ⟨c, -, rfl⟩ := List.mem_map.mp member
    simp [isConfirmedResolution_resolutionOf]
  rw [confirmed, List.nil_append, List.filter_eq_self]
  intro r member
  obtain ⟨entry, listed, rfl⟩ := List.mem_map.mp (List.mem_filter.mp member).1
  rw [unconfirmed_verdictsAt listed]
  rfl

theorem unnamed_verdicts (callId : GlobalId) :
    ((input.sites.filter fun site => decide (GlobalId.parse site.1.id = some callId) &&
        !input.isNamed site).filterMap input.tierVerdict).map Resolved.resolution =
      ((input.verdictsAt callId).filter fun entry => !input.isNamed entry.1).map Prod.snd := by
  unfold verdictsAt
  have split_ : (input.sites.filter fun site =>
      decide (GlobalId.parse site.1.id = some callId) && !input.isNamed site) =
        (input.sites.filter fun site => decide (GlobalId.parse site.1.id = some callId)).filter
          fun site => !input.isNamed site := by
    rw [List.filter_filter]
    exact List.filter_congr fun site _ => Bool.and_comm _ _
  rw [split_]
  induction input.sites.filter fun site => decide (GlobalId.parse site.1.id = some callId) with
  | nil => rfl
  | cons site rest ih =>
    rw [List.filter_cons, List.filterMap_cons]
    cases named : input.isNamed site <;> cases verdict : input.tierVerdict site <;>
      simp [named, verdict, ih]

theorem others_iff (callId : GlobalId) :
    (input.consumersOf callId).filter (fun r => !isConfirmedResolution r) =
        ((input.sites.filter fun site => decide (GlobalId.parse site.1.id = some callId) &&
          !input.isNamed site).filterMap input.tierVerdict).map Resolved.resolution ↔
      ∀ site ∈ input.sites, GlobalId.parse site.1.id = some callId →
        ∀ r, input.tierVerdict site = some r →
          (input.confirmationsAt callId).any (fun c => c.1.overrides r.resolution) =
            input.isNamed site := by
  rw [filter_consumersOf, unnamed_verdicts, filter_map_eq_iff]
  constructor
  · intro agree site here parsed r verdict
    have member : (site, r.resolution) ∈ input.verdictsAt callId :=
      List.mem_filterMap.mpr ⟨site, List.mem_filter.mpr ⟨here, decide_eq_true parsed⟩,
        by rw [verdict]; rfl⟩
    exact Bool.not_inj (agree _ member)
  · intro agree entry member
    obtain ⟨site, listed, found⟩ := List.mem_filterMap.mp member
    obtain ⟨r, verdict, rfl⟩ := Option.map_eq_some_iff.mp found
    obtain ⟨here, parsed⟩ := List.mem_filter.mp listed
    exact congrArg _ (agree site here (of_decide_eq_true parsed) r verdict)

/-! ### The edges of a call -/

theorem mem_firstPer_confirmationsAt {callId : GlobalId} {c : Confirmation}
    (call : c.2.1 = callId) :
    c ∈ firstPer (fun c : Confirmation => c.1.provider) (input.confirmationsAt callId) ↔
      input.confirmations.find?
        (fun c' => decide (bindPair (input.edgeOf c') = bindPair (input.edgeOf c))) = some c := by
  rw [mem_firstPer, confirmationsAt, List.find?_filter]
  have agree : ∀ c' : Confirmation, decide (decide (c'.2.1 = callId) = true ∧
      decide (c'.1.provider = c.1.provider) = true) =
        decide (bindPair (input.edgeOf c') = bindPair (input.edgeOf c)) := by
    intro c'
    refine decide_eq_decide.mpr ?_
    rw [decide_eq_true_iff, decide_eq_true_iff, bindPair_eq_iff, ← call]
    exact Iff.rfl
  exact iff_of_eq (congrArg (fun p => input.confirmations.find? p = some c) (funext agree))

theorem countP_confirmsByEdge {site : Site} {callId : GlobalId}
    (parsed : GlobalId.parse site.1.id = some callId) :
    input.run.binds.countP (input.confirmsByEdge site) =
      (firstPer (fun c : Confirmation => c.1.provider) (input.confirmationsAt callId)).countP
        fun c => Confirmation.names c site := by
  have listed : ∀ edge, edge ∈ input.run.binds.filter (input.confirmsByEdge site) ↔
      edge ∈ ((firstPer (fun c : Confirmation => c.1.provider)
        (input.confirmationsAt callId)).filter fun c => Confirmation.names c site).map
          input.edgeOf := by
    intro edge
    rw [List.mem_filter, List.mem_map]
    constructor
    · rintro ⟨kept, confirms⟩
      obtain ⟨c', listed', same⟩ := List.any_eq_true.mp confirms
      obtain ⟨listed', names⟩ := List.mem_filter.mp listed'
      rw [mem_run_binds, List.find?_map] at kept
      have some_ : (input.confirmations.find? ((fun b => decide (bindPair b = bindPair edge)) ∘
          input.edgeOf)).isSome = true :=
        List.find?_isSome.mpr ⟨c', listed', by
          rw [of_decide_eq_true same]
          exact decide_eq_true rfl⟩
      obtain ⟨c, found⟩ := Option.isSome_iff_exists.mp some_
      rw [found, Option.map_some, Option.some_or, Option.some_inj] at kept
      subst kept
      have member := List.mem_of_find?_eq_some found
      have named : Confirmation.names c site = true :=
        (confirmsByEdge_edgeOf member site).symm.trans confirms
      have call : c.2.1 = callId := by
        unfold Confirmation.names at named
        simp only [Bool.and_eq_true, decide_eq_true_eq] at named
        exact Option.some_inj.mp (named.1.1.symm.trans parsed)
      exact ⟨c, List.mem_filter.mpr ⟨(mem_firstPer_confirmationsAt call).mpr found, named⟩, rfl⟩
    · rintro ⟨c, chosen, rfl⟩
      obtain ⟨first, named⟩ := List.mem_filter.mp chosen
      obtain ⟨member, call⟩ := List.mem_filter.mp (mem_of_mem_firstPer first)
      have found := (mem_firstPer_confirmationsAt (of_decide_eq_true call)).mp first
      refine ⟨?_, (confirmsByEdge_edgeOf member site).trans named⟩
      rw [mem_run_binds, List.find?_map]
      have found' : input.confirmations.find? ((fun b =>
          decide (bindPair b = bindPair (input.edgeOf c))) ∘ input.edgeOf) = some c := found
      rw [found']
      rfl
  have distinct : (((firstPer (fun c : Confirmation => c.1.provider)
      (input.confirmationsAt callId)).filter fun c => Confirmation.names c site).map
        input.edgeOf).Nodup := by
    have providers : (((firstPer (fun c : Confirmation => c.1.provider)
        (input.confirmationsAt callId)).filter fun c => Confirmation.names c site).map
          fun c => c.1.provider).Nodup :=
      (nodup_firstPer _ _).sublist (List.filter_sublist.map _)
    refine List.Nodup.of_map BindsEdge.provider ?_
    rw [List.map_map]
    exact providers
  have once : input.run.binds.Nodup := List.Nodup.of_map _ (nodup_bindPairs _)
  have same := (List.perm_ext_iff_of_nodup (once.filter _) distinct).mpr listed
  rw [List.countP_eq_length_filter, List.countP_eq_length_filter, same.length_eq, List.length_map]

theorem derived_iff :
    (∀ site ∈ input.sites, input.isNamed site = true → ∀ edge ∈ input.run.binds,
        input.Emits site edge →
          ∃ other ∈ input.sites, input.isNamed other = false ∧ input.Emits other edge) ↔
      ∀ edge ∈ firstPer bindPair input.tierBinds,
        (∃ c ∈ input.confirmations, bindPair (input.edgeOf c) = bindPair edge) ∨
          ∃ site ∈ input.sites, input.isNamed site = false ∧ input.Emits site edge := by
  constructor
  · intro derived edge first
    rw [or_iff_not_imp_left]
    intro alone
    obtain ⟨site, here, emits⟩ := mem_tierBinds.mp (mem_of_mem_firstPer first)
    cases named : input.isNamed site with
    | false => exact ⟨site, here, named, emits⟩
    | true =>
      have stays : input.Stays edge := ⟨first, fun c member same => alone ⟨c, member, same⟩⟩
      exact derived site here named edge
        ((mem_run_binds_iff_stays (mem_tierBinds.mpr ⟨site, here, emits⟩)).mpr stays) emits
  · intro covers site here _ edge kept emits
    obtain ⟨first, alone⟩ :=
      (mem_run_binds_iff_stays (mem_tierBinds.mpr ⟨site, here, emits⟩)).mp kept
    rcases covers edge first with ⟨c, member, same⟩ | other
    · exact absurd same (alone c member)
    · exact other

/-- **Confirmations stand alone exactly when they confirm cleanly.** -/
theorem confirmedAlone_iff (input : JoinInput) : input.ConfirmedAlone ↔ input.ConfirmsCleanly := by
  constructor
  · rintro ⟨once, others, bound, derived⟩
    exact {
      last := fun site here callId parsed named =>
        (countP_confirms callId site).symm.trans (once site here callId parsed named)
      overrides := fun site here callId parsed =>
        (others_iff callId).mp (others callId) site here parsed
      first := fun site here callId parsed named =>
        (countP_confirmsByEdge parsed).symm.trans (bound site here named)
      covers := derived_iff.mp derived }
  · rintro ⟨last, overrides, first, covers⟩
    exact {
      once := fun site here callId parsed named =>
        (countP_confirms callId site).trans (last site here callId parsed named)
      others := fun callId => (others_iff callId).mpr fun site here parsed =>
        overrides site here callId parsed
      bound := fun site here named => by
        obtain ⟨c, -, names⟩ := List.any_eq_true.mp named
        unfold Confirmation.names at names
        simp only [Bool.and_eq_true, decide_eq_true_eq] at names
        exact (countP_confirmsByEdge names.1.1).trans (first site here _ names.1.1 named)
      derived := derived_iff.mpr covers }

/-! ### A call with a version in front -/

def bridgedCall : JoinInput where
  nodes :=
    [{ id := "orders:HttpRoute:api.rs:list:1"
       nodeType := .httpRoute
       name := "list"
       path := "api.rs"
       contract := [.provider ⟨.get, "/orders", none, none, .code⟩] },
     { id := "web:HttpClientCall:app.ts:load:3"
       nodeType := .httpClientCall
       name := "load"
       path := "app.ts"
       contract :=
         [.consumer ⟨.known .get, ⟨.none, some "/v1/orders"⟩, .library "fetch", "/v1/orders",
           true⟩] }]
  config :=
    { bindings :=
        [{ consumer :=
             { repo := "web", path := "app.ts", symbol := "load", key := "GET /v1/orders" }
           provider := ⟨"orders", "GET /orders"⟩ }] }

/-- The call is confirmed, and stays unresolved beside the confirmation. -/
theorem confirmedAlone_fails :
    (bridgedCall.consumersOf "web:HttpClientCall:app.ts:load:3").map ConsumerResolution.target =
        [some (.binds (.confirmed "repos.yaml#bindings[<0>]") 1 .exact none),
          some (.unresolved .noMatch none)] ∧
      ¬ bridgedCall.ConfirmedAlone := by
  refine ⟨by decide +kernel, fun alone => ?_⟩
  exact absurd (alone.others "web:HttpClientCall:app.ts:load:3") (by decide +kernel)

end JoinInput

end Lain.Joiner
