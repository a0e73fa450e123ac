import Mathlib
import Lain.Joiner.Verdicts
import Lain.Federation.Rejoin
import Lain.Federation.GlobalIdCodec

/-!
# The join is closed and total

The tiers answer every consumer fact of a call once, but for the calls the rule of the empty
wrapper clients drops.
-/

namespace Lain.Joiner

open Foundation Contracts Federation Lain.Graph

def isConsumerFact : ContractFact → Bool
  | .consumer _ | .topicConsumer _ | .rpcConsumer _ | .graphqlConsumer _ | .webSocketConsumer _
  | .tableConsumer _ => true
  | _ => false

namespace JoinInput

variable (input : JoinInput)

def drops : ContractFact → Bool
  | .consumer consumer =>
    isWrapperCandidate consumer && !input.registryHasDef consumer &&
      input.config.httpClients.isEmpty
  | _ => false

def heard (id : String) : List Site :=
  input.sites.filter fun site =>
    decide (site.1.id = id) && (isConsumerFact site.2 && !input.drops site.2)

/-- A resolution is what the tiers say about a fact, and has a target. -/
structure Answers (site : Site) (r : ConsumerResolution) : Prop where
  call : r.callId = site.1.id
  verdict : (input.tierVerdict site).map Resolved.resolution = some r
  target : r.target.isSome = true

def nodeIds : List String :=
  input.nodes.map GraphNode.id

def declaredIds : List GlobalId :=
  (declaredRecords input.config).map fun entry => entry.2.id

/-- **The join is closed and total**, as far as the ids of the calls in `scope` go: every
consumer fact that is not dropped has one resolution, in order, every resolution has a target,
and every edge ends at nodes of the input or at a declared provider, so that a backend with
those nodes takes the edges a publication adds. -/
structure Closed (scope : String → Prop) : Prop where
  answered : ∀ id, scope id → List.Forall₂ input.Answers (input.heard id) (input.consumersOf id)
  targets : ∀ id, ∀ r ∈ input.consumersOf id, r.target.isSome = true
  consumer : ∀ edge ∈ input.run.binds, edge.consumer ∈ input.nodeIds
  provider : ∀ edge ∈ input.run.binds,
    edge.provider ∈ input.nodeIds ∨ edge.provider ∈ input.declaredIds
  published : ∀ db : GraphDatabase, (∀ id ∈ input.nodeIds, db.hasNode id = true) →
    ∃ slots, db.resolve (toAdd input.run db) = .ok slots

variable {input}

/-! ### One resolution for each fact -/

theorem isSome_resolveFact (callId : GlobalId) (ownService : ServiceName) (fact : ContractFact) :
    (input.resolveFact callId ownService fact).isSome =
      (isConsumerFact fact && !input.drops fact) := by
  cases fact with
  | consumer consumer =>
    have known : input.config.httpClients.isEmpty = true →
        input.httpClientsMatch consumer = false := by
      intro nothing
      rw [List.isEmpty_iff] at nothing
      unfold httpClientsMatch targetServiceFromHttpClient
      rw [nothing]
      split <;> rfl
    unfold resolveFact resolveHttp isConsumerFact drops
    dsimp only
    split_ifs with unknown nothing
    · obtain ⟨⟨wrapper, unregistered⟩, _⟩ := by simpa only [Bool.and_eq_true] using unknown
      simp [wrapper, unregistered, nothing]
    · simp [nothing]
    · rw [Bool.and_eq_true, Bool.and_eq_true, not_and, Bool.not_eq_true] at unknown
      have kept : (isWrapperCandidate consumer && !input.registryHasDef consumer &&
          input.config.httpClients.isEmpty) = false := by
        rw [← Bool.not_eq_true, Bool.and_eq_true, Bool.and_eq_true]
        intro ⟨wrapper, nothing⟩
        have unmatched := unknown wrapper
        rw [known nothing] at unmatched
        cases unmatched
      rw [kept]
      rfl
  | topicConsumer consumer =>
    unfold resolveFact dispatch
    dsimp only
    split <;> rfl
  | _ => rfl

private theorem forall₂_verdicts {id : String} (parsed : GlobalId.parse id = some id)
    (sites : List Site) :
    List.Forall₂ input.Answers
      (sites.filter fun site =>
        decide (site.1.id = id) && (isConsumerFact site.2 && !input.drops site.2))
      (((sites.filter fun site => decide (GlobalId.parse site.1.id = some id)).filterMap
        input.tierVerdict).map Resolved.resolution) := by
  induction sites with
  | nil => exact .nil
  | cons site rest ih =>
    have own : GlobalId.parse site.1.id = some id ↔ site.1.id = id :=
      ⟨fun found => (GlobalId.parse_eq_some found).symm, fun same => same ▸ parsed⟩
    rw [List.filter_cons, List.filter_cons]
    simp only [own, Bool.and_eq_true, decide_eq_true_eq]
    by_cases here : site.1.id = id
    · have verdict : (input.tierVerdict site).isSome =
          (isConsumerFact site.2 && !input.drops site.2) := by
        unfold tierVerdict
        rw [own.mpr here, Option.bind_some]
        exact isSome_resolveFact _ _ _
      rw [if_pos here, List.filterMap_cons]
      cases found : input.tierVerdict site with
      | none =>
        rw [found] at verdict
        have silent : ¬ (isConsumerFact site.2 = true ∧ (!input.drops site.2) = true) := by
          rw [← Bool.and_eq_true, ← verdict]
          exact Bool.false_ne_true
        rw [if_neg fun h => silent h.2]
        exact ih
      | some r =>
        rw [found] at verdict
        have answered := Bool.and_eq_true_iff.mp verdict.symm
        obtain ⟨callId, isCall, tier⟩ := ofTiers_of_tierVerdict found
        rw [if_pos ⟨here, answered⟩]
        refine .cons ⟨?_, by rw [found]; rfl, tier.target⟩ ih
        rw [tier.call, GlobalId.parse_eq_some isCall]
    · rw [if_neg here, if_neg fun h => here h.1]
      exact ih

private theorem target_override {confirmed : List Confirmation} {out : List ConsumerResolution}
    (targets : ∀ r ∈ out, r.target.isSome = true) :
    ∀ r ∈ confirmed.foldl input.override out, r.target.isSome = true := by
  induction confirmed generalizing out with
  | nil => exact targets
  | cons c rest ih =>
    refine ih fun r member => ?_
    rcases List.mem_cons.mp member with rfl | old
    · rfl
    · exact targets r (List.mem_filter.mp old).1

theorem target_consumersOf (id : GlobalId) :
    ∀ r ∈ input.consumersOf id, r.target.isSome = true := by
  rw [consumersOf_eq]
  refine target_override fun r member => ?_
  obtain ⟨verdict, listed, rfl⟩ := List.mem_map.mp member
  obtain ⟨site, _, found⟩ := List.mem_filterMap.mp listed
  obtain ⟨_, _, tier⟩ := ofTiers_of_tierVerdict found
  exact tier.target

/-! ### The ends of the edges -/

theorem mem_nodeIds_of_parse {node : GraphNode} {id : GlobalId} (here : node ∈ input.nodes)
    (parsed : GlobalId.parse node.id = some id) : id ∈ input.nodeIds :=
  List.mem_map.mpr ⟨node, here, (GlobalId.parse_eq_some parsed).symm⟩

theorem id_of_mem_providerRecords {assignments : SortedMap String ServiceName}
    {config : ContractFederationConfig} {node : GraphNode}
    {entry : EndpointId × EndpointProviderRecord}
    (member : entry ∈ providerRecords assignments config node) :
    GlobalId.parse node.id = some entry.2.id := by
  unfold providerRecords at member
  split at member
  · obtain rfl := List.mem_singleton.mp member
    assumption
  · obtain rfl := List.mem_singleton.mp member
    assumption
  · split at member
    · obtain rfl := List.mem_singleton.mp member
      assumption
    · cases member
  · obtain rfl := List.mem_singleton.mp member
    assumption
  · obtain ⟨owner, _, rfl⟩ := List.mem_map.mp member
    assumption
  · cases member

theorem known_provider {endpoint : EndpointId} {records : List EndpointProviderRecord}
    (found : input.endpoints.get? endpoint = some records) {p : EndpointProviderRecord}
    (provides : p ∈ records) : p.id ∈ input.nodeIds ∨ p.id ∈ input.declaredIds := by
  have collected := SortedMap.getD_group (input.nodes.flatMap
    (providerRecords input.assignments input.config) ++ declaredRecords input.config) endpoint
  rw [show SortedMap.group _ = input.endpoints from rfl, found, Option.getD_some] at collected
  rw [collected] at provides
  obtain ⟨entry, listed, rfl⟩ := List.mem_map.mp provides
  rcases List.mem_append.mp (List.mem_filter.mp listed).1 with detected | declared
  · obtain ⟨node, here, member⟩ := List.mem_flatMap.mp detected
    exact .inl (mem_nodeIds_of_parse here (id_of_mem_providerRecords member))
  · exact .inr (List.mem_map_of_mem declared)

theorem ends_tierBinds {edge : BindsEdge} (emitted : edge ∈ input.tierBinds) :
    edge.consumer ∈ input.nodeIds ∧
      (edge.provider ∈ input.nodeIds ∨ edge.provider ∈ input.declaredIds) := by
  obtain ⟨site, here, r, verdict, member⟩ := mem_tierBinds.mp emitted
  obtain ⟨callId, parsed, tier⟩ := ofTiers_of_tierVerdict verdict
  have bind := tier.binds edge member
  obtain ⟨records, found, p, provides, same⟩ := bind.provider
  obtain ⟨node, listed, inside⟩ := List.mem_flatMap.mp here
  obtain ⟨fact, _, rfl⟩ := List.mem_map.mp inside
  exact ⟨bind.consumer ▸ mem_nodeIds_of_parse listed parsed,
    same ▸ known_provider found provides⟩

theorem provider_of_checkBinding {endpoints : EndpointTable} {i : Nat}
    {binding : ConfirmedBinding} {checked : CheckedBinding}
    (passed : checkBinding endpoints i binding = .ok checked) :
    ∃ records, endpoints.get? checked.endpoint = some records ∧
      ∃ p ∈ records, p.id = checked.provider := by
  unfold checkBinding at passed
  split at passed
  · split at passed
    · split at passed
      next provider found =>
          cases passed
          obtain ⟨records, known, first⟩ := Option.bind_eq_some_iff.mp found
          exact ⟨records, known, provider, List.mem_of_head? first, rfl⟩
      · cases passed
    · cases passed
  · cases passed

theorem ends_edgeOf {c : Confirmation} (confirmed : c ∈ input.confirmations) :
    (input.edgeOf c).consumer ∈ input.nodeIds ∧
      ((input.edgeOf c).provider ∈ input.nodeIds ∨
        (input.edgeOf c).provider ∈ input.declaredIds) := by
  obtain ⟨binding, applied, member⟩ := List.mem_flatMap.mp confirmed
  obtain ⟨call, calls, rfl⟩ := List.mem_map.mp member
  obtain ⟨entry, _, checked⟩ := List.mem_filterMap.mp applied
  constructor
  · obtain ⟨node, here, names⟩ := List.mem_filterMap.mp calls
    unfold CheckedBinding.call? at names
    split at names
    · cases names
    next gid parsed =>
        split at names
        · obtain ⟨key, _, rfl⟩ := Option.map_eq_some_iff.mp names
          exact mem_nodeIds_of_parse here parsed
        · cases names
  · have passed : checkBinding input.endpoints entry.2 entry.1 = .ok binding := by
      cases outcome : checkBinding input.endpoints entry.2 entry.1 with
      | error reason => simp [outcome, Except.toOption] at checked
      | ok other =>
        rw [outcome] at checked
        exact congrArg Except.ok (Option.some.inj checked)
    obtain ⟨records, found, p, provides, same⟩ := provider_of_checkBinding passed
    change binding.provider ∈ input.nodeIds ∨ binding.provider ∈ input.declaredIds
    rw [← same]
    exact known_provider found provides

/-! ### The fields of the schemas -/

def FieldsOf (ids : List String) (bucket : SortedMap Direction (List ResponseField)) : Prop :=
  ∀ dir fields, bucket.get? dir = some fields → ∀ field ∈ fields, field.nodeId ∈ ids

def SchemasOf (ids : List String) (schemas : EndpointSchemas) : Prop :=
  ∀ endpoint bucket, schemas.byEndpoint.get? endpoint = some bucket → FieldsOf ids bucket

theorem FieldsOf.empty (ids : List String) : FieldsOf ids ∅ := by
  intro dir fields found
  cases found

theorem FieldsOf.extend {ids : List String} {bucket : SortedMap Direction (List ResponseField)}
    (known : FieldsOf ids bucket) {found : List ResponseField}
    (inside : ∀ field ∈ found, field.nodeId ∈ ids) (dir : Direction) :
    FieldsOf ids (bucket.extend dir found) := by
  intro dir' fields listed field member
  rw [SortedMap.get?_extend] at listed
  split at listed
  · obtain rfl := Option.some.inj listed
    rcases List.mem_append.mp member with old | new
    · cases before : bucket.get? dir with
      | none =>
        rw [before] at old
        cases old
      | some fields =>
        rw [before] at old
        exact known dir fields before field old
    · exact inside field new
  · exact known dir' fields listed field member

theorem SchemasOf.bucket {ids : List String} {schemas : EndpointSchemas}
    (known : SchemasOf ids schemas) (endpoint : EndpointId) :
    FieldsOf ids ((schemas.byEndpoint.get? endpoint).getD ∅) := by
  cases found : schemas.byEndpoint.get? endpoint with
  | none => exact .empty ids
  | some bucket => exact known endpoint bucket found

theorem SchemasOf.alter {ids : List String} {schemas : EndpointSchemas}
    (known : SchemasOf ids schemas) (endpoint : EndpointId)
    {f : Option (SortedMap Direction (List ResponseField)) →
      SortedMap Direction (List ResponseField)}
    (bucket : FieldsOf ids (f (schemas.byEndpoint.get? endpoint)))
    (schemaNode : SortedMap EndpointId (SortedMap Direction GlobalId)) :
    SchemasOf ids ⟨schemas.byEndpoint.alter endpoint f, schemaNode⟩ := by
  intro other found listed
  rw [SortedMap.get?_alter] at listed
  split at listed
  · obtain rfl := Option.some.inj listed
    exact bucket
  · exact known other found listed

theorem mem_nodeIds_of_fieldNodes {nodes : List GraphNode} {id : String}
    {field : JsonPath × FieldMeta} (found : (fieldNodes nodes).get? id = some field) :
    id ∈ nodes.map GraphNode.id := by
  induction nodes using List.reverseRecOn with
  | nil => cases found
  | append_singleton nodes node ih =>
    unfold fieldNodes at ih found
    rw [List.foldl_append, List.foldl_cons, List.foldl_nil] at found
    rw [List.map_append, List.mem_append]
    split at found
    · rw [SortedMap.get?_insert] at found
      split at found
      next same =>
          rw [same]
          exact .inr (List.mem_singleton.mpr rfl)
      · exact .inl (ih found)
    · exact .inl (ih found)

theorem mem_nodeIds_of_fieldsBySchema {nodes : List GraphNode} {edges : List GraphEdge}
    {schema : String} {found : List ResponseField}
    (listed : (fieldsBySchema nodes edges).get? schema = some found) :
    ∀ field ∈ found, field.nodeId ∈ nodes.map GraphNode.id := by
  intro field member
  have collected := SortedMap.getD_group (edges.filterMap (fieldOfEdge (fieldNodes nodes))) schema
  rw [show SortedMap.group _ = fieldsBySchema nodes edges from rfl, listed, Option.getD_some]
    at collected
  rw [collected] at member
  obtain ⟨entry, inside, rfl⟩ := List.mem_map.mp member
  obtain ⟨edge, _, leaves⟩ := List.mem_filterMap.mp (List.mem_filter.mp inside).1
  unfold fieldOfEdge at leaves
  split at leaves
  · split at leaves
    next path fact gid isField parsed =>
        obtain rfl := Option.some.inj leaves
        rw [GlobalId.parse_eq_some parsed]
        exact mem_nodeIds_of_fieldNodes isField
    · cases leaves
  · cases leaves

section Schemas

variable {nodes : List GraphNode} {edges : List GraphEdge}
  {assignments : SortedMap String ServiceName} {config : ContractFederationConfig}
  {out : EndpointSchemas}

theorem SchemasOf.addRoute (known : SchemasOf (nodes.map GraphNode.id) out)
    (route : String × List (Direction × String)) :
    SchemasOf (nodes.map GraphNode.id)
      (Joiner.addRoute nodes (fieldsBySchema nodes edges) assignments config out route) := by
  have legs : ∀ (legs : List (Direction × String))
      (bucket : SortedMap Direction (List ResponseField)),
      FieldsOf (nodes.map GraphNode.id) bucket →
        FieldsOf (nodes.map GraphNode.id)
          (legs.foldl (addFields (fieldsBySchema nodes edges)) bucket) := by
    intro legs
    induction legs with
    | nil => exact fun _ inside => inside
    | cons leg rest ih =>
      intro bucket inside
      refine ih _ ?_
      unfold addFields
      split
      next found listed => exact inside.extend (mem_nodeIds_of_fieldsBySchema listed) leg.1
      · exact inside
  unfold Joiner.addRoute
  split
  · split
    next endpoint _ => exact known.alter endpoint (legs _ _ (known.bucket endpoint)) _
    · exact known
  · exact known

theorem SchemasOf.addDeclared (known : SchemasOf (nodes.map GraphNode.id) out)
    (decl : SchemaDecl) :
    SchemasOf (nodes.map GraphNode.id)
      (Joiner.addDeclared nodes (fieldsBySchema nodes edges) assignments config out decl) := by
  unfold Joiner.addDeclared
  split
  next endpoint found gid declared =>
      unfold declaredSchema at declared
      obtain ⟨schemaNode, _, declared⟩ := Option.bind_eq_some_iff.mp declared
      obtain ⟨fields, listed, declared⟩ := Option.bind_eq_some_iff.mp declared
      obtain ⟨_, _, declared⟩ := Option.bind_eq_some_iff.mp declared
      obtain ⟨_, _, declared⟩ := Option.bind_eq_some_iff.mp declared
      have same : fields = found := by
        split at declared
        · obtain ⟨_, _, declared⟩ := Option.bind_eq_some_iff.mp declared
          obtain ⟨_, _, declared⟩ := Option.bind_eq_some_iff.mp declared
          cases declared
          rfl
        · cases declared
      subst same
      exact known.alter endpoint
        ((known.bucket endpoint).extend (mem_nodeIds_of_fieldsBySchema listed) .payload) _
  · exact known

/-- **Every field of a schema of an endpoint is a node of the input.** -/
theorem schemasOf_collected : SchemasOf (nodes.map GraphNode.id)
    (collectEndpointSchemas nodes edges assignments config) := by
  unfold collectEndpointSchemas
  dsimp only
  refine List.foldlRecOn _ _ ?_ fun out known decl _ => known.addDeclared decl
  refine List.foldlRecOn _ _ ?_ fun out known route _ => known.addRoute route
  intro endpoint bucket found
  cases found

end Schemas

theorem mem_nodeIds_responseFields {endpoint : EndpointId} :
    ∀ field ∈ responseFields input.schemas endpoint, field.nodeId ∈ input.nodeIds := by
  have known : SchemasOf input.nodeIds input.schemas := schemasOf_collected
  intro field member
  unfold responseFields at member
  split at member
  next dirs found =>
      have bucket := known endpoint dirs found
      cases response : dirs.get? .response with
      | some fields =>
        rw [response] at member
        exact bucket _ fields response field member
      | none =>
        rw [response] at member
        cases payload : dirs.get? .payload with
        | some fields =>
          rw [payload] at member
          exact bucket _ fields payload field member
        | none =>
          rw [payload] at member
          cases member
  · cases member

theorem matchFields_subset {read : FieldReadFact} {fields : List ResponseField} :
    ∀ field ∈ (matchFields read fields).1, field ∈ fields := by
  intro field member
  unfold matchFields at member
  split at member
  next first found =>
      obtain rfl := List.mem_singleton.mp member
      exact List.mem_of_find?_eq_some found
  · have suffixed : field ∈ fields.filter fun f => isSuffix f.path read.chain := by
      split at member
      next only single =>
          rw [single]
          exact member
      · exact member
    exact (List.mem_filter.mp suffixed).1

theorem ends_fieldRefs {edge : BindsEdge} (member : edge ∈ input.fieldRefs.2) :
    edge.consumer ∈ input.nodeIds ∧ edge.provider ∈ input.nodeIds := by
  obtain ⟨fieldRef, read, call, endpoint, field, info, joins, _, rfl⟩ := mem_fieldRefs.mp member
  refine ⟨?_, mem_nodeIds_responseFields field (matchFields_subset field joins.field)⟩
  obtain ⟨node, here, reads⟩ := joins.node
  unfold fieldRead? at reads
  split at reads
  · split at reads
    next isRead parsed =>
        obtain ⟨rfl, rfl⟩ := Prod.mk.inj (Option.some.inj reads)
        exact mem_nodeIds_of_parse here parsed
    · cases reads
  · cases reads

/-- **The ends of an edge of the output.** -/
theorem ends_run_binds {edge : BindsEdge} (member : edge ∈ input.run.binds) :
    edge.consumer ∈ input.nodeIds ∧
      (edge.provider ∈ input.nodeIds ∨ edge.provider ∈ input.declaredIds) := by
  have before := sortBinds_subset edge member
  rw [binds_verdicts, List.mem_append, List.mem_append] at before
  rcases before with (tier | confirmed) | field
  · exact ends_tierBinds tier
  · obtain ⟨c, listed, rfl⟩ := List.mem_map.mp confirmed
    exact ends_edgeOf listed
  · exact (ends_fieldRefs field).imp_right .inl

/-! ### The publication -/

theorem isDeclaredProvider_of_mem {id : GlobalId} (declared : id ∈ input.declaredIds) :
    isDeclaredProvider id = true := by
  obtain ⟨entry, listed, rfl⟩ := List.mem_map.mp declared
  obtain ⟨decl, _, record⟩ := List.mem_filterMap.mp listed
  unfold declaredRecord at record
  split at record
  · cases record
  · split at record
    · cases record
    · split at record
      · cases record
      next repo valid =>
          obtain rfl := Option.some.inj record
          unfold isDeclaredProvider
          dsimp only
          rw [GlobalId.path, GlobalId.split_new valid]
          simp only [decodeSegment_encodeSegment, Option.any_some, Text.startsWith]
          rw [List.isPrefixOf_iff_prefix]
          simp [toString, List.append_assoc]

end JoinInput

end Lain.Joiner

namespace Lain.Graph.GraphDatabase

theorem resolve_ok {db : GraphDatabase} {batch : List GraphEdge}
    (known : ∀ edge ∈ batch, db.hasNode edge.sourceId = true ∧ db.hasNode edge.targetId = true) :
    ∃ slots, db.resolve batch = .ok slots := by
  induction batch with
  | nil => exact ⟨[], rfl⟩
  | cons edge rest ih =>
    obtain ⟨later, resolved⟩ := ih fun e member => known e (List.mem_cons_of_mem _ member)
    obtain ⟨source, target⟩ := known edge List.mem_cons_self
    obtain ⟨s, here⟩ := Option.isSome_iff_exists.mp source
    obtain ⟨t, there⟩ := Option.isSome_iff_exists.mp target
    refine ⟨((s, t), edge) :: later, ?_⟩
    simp only [resolve, endpoints, here, there, resolved]

end Lain.Graph.GraphDatabase

namespace Lain.Joiner.JoinInput

open Foundation Contracts Federation Lain.Graph

/-- **The join is closed, and total for the calls no confirmed binding is about.** A node whose
id is no global id is passed over. -/
theorem closed_join (input : JoinInput) :
    input.Closed fun id => (GlobalId.parse id).isSome = true ∧ input.confirmationsAt id = [] where
  answered := by
    intro id ⟨known, unconfirmed⟩
    obtain ⟨callId, parsed⟩ := Option.isSome_iff_exists.mp known
    obtain rfl := GlobalId.parse_eq_some parsed
    rw [consumersOf_eq, unconfirmed, List.foldl_nil]
    exact forall₂_verdicts parsed input.sites
  targets := target_consumersOf
  consumer _ member := (ends_run_binds member).1
  provider _ member := (ends_run_binds member).2
  published := by
    intro db stored
    refine GraphDatabase.resolve_ok fun edge added => ?_
    obtain ⟨⟨b, wanted, rfl⟩, _⟩ := mem_toAdd.mp added
    obtain ⟨member, undeclared⟩ := List.mem_filter.mp wanted
    obtain ⟨consumer, provider⟩ := ends_run_binds member
    refine ⟨stored _ consumer, stored _ (provider.resolve_right fun declared => ?_)⟩
    rw [isDeclaredProvider_of_mem declared] at undeclared
    cases undeclared

def plainInput : JoinInput where
  nodes := [{ id := "plain", nodeType := .topic, name := "orders", path := "orders.rs",
              contract := [.topicConsumer ⟨"kafka", "orders", .subscription⟩] }]

/-- A call under an id that is no global id has no resolution. -/
theorem not_closed_plainInput : ¬ plainInput.Closed fun _ => True := by
  intro closed
  have same := (closed.answered "plain" trivial).length_eq
  revert same
  decide

end Lain.Joiner.JoinInput
