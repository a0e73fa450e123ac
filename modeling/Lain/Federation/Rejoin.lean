import Lain.Federation.GraphBackend
import Lain.Joiner.Output

/-!
# Rejoining the contracts

A rejoin computes the join of everything projected and brings the `binds` edges
of the backend towards it: pairs the join no longer has are removed, pairs the
backend does not have are added.
-/

namespace Lain.Federation

open Foundation Contracts Lain.Graph Joiner

/-- What a rejoin publishes beside the edges. -/
structure ContractSnapshot where
  index : ContractIndex
  binds : List (String × String)

structure RejoinContext where
  contractConfig : Option ContractFederationConfig
  repos : List RepoId := []
  rustNodes : Except LainError (List GraphNode) := .ok []
  registry : ClientRegistry := {}
  env : EnvBindingIndex := {}
  addFailure : Option LainError := none
  removeFailure : Option LainError := none

abbrev ContractNodeIds := List (RepoId × List String)

structure Rejoined where
  contractNodeIds : ContractNodeIds
  snapshot : Option ContractSnapshot

/-- The names of the stub calls whose nodes the Rust resolver replaces begin with this. -/
def rustRpcPrefix : String := "rpc-call:rust:"

def contractNodes (db : GraphDatabase) (ids : List String) (rustNodes : List GraphNode) :
    List GraphNode :=
  ((ids.filterMap db.getNode).filter fun n => !Text.startsWith n.name rustRpcPrefix) ++
    rustNodes.filter fun n => !n.contract.isEmpty

def isContractEdge : EdgeType → Bool
  | .hasField | .requestSchema | .responseSchema | .payloadSchema | .readsFrom => true
  | _ => false

def contractEdges (db : GraphDatabase) (ids : List String) : List GraphEdge :=
  (db.edges.filter fun e => isContractEdge e.edgeType).filter fun e =>
    ids.contains e.sourceId || ids.contains e.targetId

def joinInput (context : RejoinContext) (config : ContractFederationConfig)
    (ids : List String) (rustNodes : List GraphNode) (db : GraphDatabase) : JoinInput where
  nodes := contractNodes db ids rustNodes
  edges := contractEdges db ids
  config
  registry := context.registry
  env := context.env

/-- A declared provider has no node a bind could end at. -/
def isDeclaredProvider (provider : GlobalId) : Bool :=
  (GlobalId.path provider).any fun path => Text.startsWith path declaredProviderPathPrefix

def desired (out : JoinOutput) : List BindsEdge :=
  out.binds.filter fun b => !isDeclaredProvider b.provider

/-- The edge of a bind. -/
def bindEdge (b : BindsEdge) : GraphEdge where
  edgeType := .binds
  sourceId := b.consumer
  targetId := b.provider
  weight := some b.confidence
  crossRepo := decide (b.consumerService ≠ b.providerService) &&
    decide (GlobalId.repoId b.consumer ≠ GlobalId.repoId b.provider)
  provenance := some b.provenance
  site := none
  detail := some ⟨some b.routeMatch, b.strippedPrefix⟩

def edgePair (e : GraphEdge) : String × String :=
  (e.sourceId, e.targetId)

def storedBinds (db : GraphDatabase) : List GraphEdge :=
  db.edges.filter fun e => decide (e.edgeType = .binds)

def toAdd (out : JoinOutput) (db : GraphDatabase) : List GraphEdge :=
  ((desired out).map bindEdge).filter fun e =>
    !((storedBinds db).map edgePair).contains (edgePair e)

def toRemove (out : JoinOutput) (db : GraphDatabase) : List GraphEdge :=
  (storedBinds db).filter fun e =>
    !((desired out).map fun b => edgePair (bindEdge b)).contains (edgePair e)

/-- Bring the backend towards a join. -/
def publish (context : RejoinContext) (out : JoinOutput) (db : GraphDatabase) : Outcome Unit :=
  andThen (GraphBackend.upsertEdgesBatch db context.addFailure (toAdd out db)) fun added _ =>
    if (toRemove out db).isEmpty then .ok added ()
    else
      andThen (GraphBackend.removeEdges added context.removeFailure (toRemove out db))
        fun removed _ => .ok removed ()

/-- Rejoin the contracts. Without a configuration there is nothing to join. -/
def rejoinContracts (context : RejoinContext) (db : GraphDatabase)
    (contractNodeIds : ContractNodeIds) : Outcome Rejoined :=
  match context.contractConfig with
  | none => .ok db ⟨contractNodeIds, none⟩
  | some config =>
    match context.rustNodes with
    | .error reason => .error db reason
    | .ok rustNodes =>
      let ids := contractNodeIds.flatMap Prod.snd
      let out := (joinInput context config ids rustNodes db).run
      andThen (publish context out db) fun after _ =>
        .ok after
          { contractNodeIds := contractNodeIds.filter fun entry =>
              context.repos.contains entry.1
            snapshot := some
              ⟨out.index, (desired out).map fun b => edgePair (bindEdge b)⟩ }

/-! ### What a rejoin leaves -/

structure BindRecord where
  pair : String × String
  weight : Option ℚ
  provenance : Option EdgeProvenance
  detail : Option EdgeDetail
  deriving DecidableEq

def bindRecord (e : GraphEdge) : BindRecord :=
  ⟨edgePair e, e.weight, e.provenance, e.detail⟩

def desiredRecords (out : JoinOutput) : List BindRecord :=
  (desired out).map fun b => bindRecord (bindEdge b)

def Publishes (out : JoinOutput) (db : GraphDatabase) : Prop :=
  ∀ record, record ∈ (storedBinds db).map bindRecord ↔ record ∈ desiredRecords out

/-- Whatever a backend stores for a pair of the join is what the join says of it. -/
def Current (out : JoinOutput) (db : GraphDatabase) : Prop :=
  ∀ e ∈ storedBinds db, edgePair e ∈ (desiredRecords out).map BindRecord.pair →
    bindRecord e ∈ desiredRecords out

def Unambiguous (out : JoinOutput) : Prop :=
  (out.binds.map fun b => edgePair (bindEdge b)).Nodup

theorem unambiguous_run (input : JoinInput) : Unambiguous input.run := by
  have nodup := nodup_bindPairs (input.verdicts.binds ++ input.fieldRefs.2)
  refine List.Nodup.of_map toLex ?_
  rw [List.map_map]
  exact nodup

section Effects

variable {context : RejoinContext} {db db' : GraphDatabase} {out : JoinOutput}

theorem mem_desiredPairs {pair : String × String} :
    pair ∈ (desiredRecords out).map BindRecord.pair ↔
      ∃ b ∈ desired out, edgePair (bindEdge b) = pair := by
  unfold desiredRecords
  rw [List.map_map, List.mem_map]
  rfl

theorem Unambiguous.eq (unambiguous : Unambiguous out) {a b : BindsEdge} (here : a ∈ desired out)
    (there : b ∈ desired out) (same : edgePair (bindEdge a) = edgePair (bindEdge b)) : a = b :=
  List.inj_on_of_nodup_map unambiguous (List.mem_filter.mp here).1 (List.mem_filter.mp there).1 same

theorem mem_toAdd {e : GraphEdge} :
    e ∈ toAdd out db ↔
      (∃ b ∈ desired out, bindEdge b = e) ∧ edgePair e ∉ (storedBinds db).map edgePair := by
  unfold toAdd
  rw [List.mem_filter, List.mem_map]
  simp only [Bool.not_eq_true', List.contains_eq_mem, decide_eq_false_iff_not]

theorem mem_toRemove {e : GraphEdge} :
    e ∈ toRemove out db ↔
      e ∈ storedBinds db ∧ edgePair e ∉ (desiredRecords out).map BindRecord.pair := by
  unfold toRemove
  rw [List.mem_filter, mem_desiredPairs]
  simp only [Bool.not_eq_true', List.contains_eq_mem, decide_eq_false_iff_not, List.mem_map]

theorem mem_storedBinds {e : GraphEdge} :
    e ∈ storedBinds db ↔ e ∈ db.edges ∧ e.edgeType = .binds := by
  unfold storedBinds
  rw [List.mem_filter, decide_eq_true_eq]

theorem freshEdges_toAdd (unambiguous : Unambiguous out) :
    freshEdges db.storedKeys (toAdd out db) = toAdd out db := by
  refine freshEdges_eq_self ?_ fun e member known => ?_
  · refine List.Nodup.of_map (fun key => (key.sourceId, key.targetId)) ?_
    rw [List.map_map]
    have whole : ((desired out).map fun b => edgePair (bindEdge b)).Nodup :=
      (List.filter_sublist.map _).nodup unambiguous
    have part : ((toAdd out db).map edgePair).Sublist (((desired out).map bindEdge).map edgePair) :=
      List.filter_sublist.map edgePair
    rw [List.map_map] at part
    exact part.nodup whole
  · obtain ⟨⟨b, _, rfl⟩, fresh⟩ := mem_toAdd.mp member
    unfold GraphDatabase.storedKeys at known
    obtain ⟨old, stored, same⟩ := List.mem_map.mp known
    have isBinds : old.edgeType = .binds := congrArg EdgeKey.edgeType same
    refine fresh (List.mem_map.mpr ⟨old, mem_storedBinds.mpr ⟨stored, isBinds⟩, ?_⟩)
    exact Prod.ext (congrArg EdgeKey.sourceId same) (congrArg EdgeKey.targetId same)

theorem publish_ok (consistent : Consistent db) (unambiguous : Unambiguous out)
    (done : publish context out db = .ok db' ()) :
    EdgesBecome db (withoutTriples (toRemove out db) (db.edges ++ toAdd out db)) db' := by
  unfold publish at done
  rcases GraphBackend.upsertEdgesBatch_spec context.addFailure consistent
    (toAdd out db) with ⟨reason, failed⟩ | ⟨added, become, ended | ⟨reason, failed⟩⟩
  · rw [failed] at done
    cases done
  · rw [freshEdges_toAdd unambiguous] at become
    rw [ended] at done
    simp only [andThen] at done
    split at done
    next nothing =>
        cases done
        rw [List.isEmpty_iff.mp nothing]
        refine ⟨become.consistent, become.mode, become.nodes, ?_⟩
        rw [become.edges]
        exact (List.filter_eq_self.mpr fun e _ => rfl).symm
    · rcases GraphBackend.removeEdges_spec context.removeFailure become.consistent
        (toRemove out db) with ⟨reason, failed⟩ | ⟨after, removed, ⟨count, ended⟩ | ⟨reason, failed⟩⟩
      · rw [failed] at done
        cases done
      · rw [ended] at done
        cases done
        refine ⟨removed.consistent, removed.mode.trans become.mode,
          fun id => (removed.nodes id).trans (become.nodes id), ?_⟩
        rw [removed.edges, become.edges]
      · rw [failed] at done
        cases done
  · rw [failed] at done
    cases done

theorem filter_published {keep : GraphEdge → Bool}
    (others : ∀ e, keep e = true → e.edgeType ≠ .binds) :
    (withoutTriples (toRemove out db) (db.edges ++ toAdd out db)).filter keep =
      db.edges.filter keep := by
  unfold withoutTriples
  rw [List.filter_filter, List.filter_append]
  have noneAdded : (toAdd out db).filter (fun e => keep e &&
      !((toRemove out db).map GraphEdge.triple).contains e.triple) = [] := by
    refine List.filter_eq_nil_iff.mpr fun e member => ?_
    obtain ⟨⟨b, _, rfl⟩, _⟩ := mem_toAdd.mp member
    rw [Bool.and_eq_true]
    exact fun ⟨kept, _⟩ => others _ kept rfl
  rw [noneAdded, List.append_nil]
  refine List.filter_congr fun e _ => ?_
  by_cases kept : keep e = true
  · have untouched : e.triple ∉ (toRemove out db).map GraphEdge.triple := by
      intro listed
      obtain ⟨r, removed, same⟩ := List.mem_map.mp listed
      have isBinds := (mem_storedBinds.mp (mem_toRemove.mp removed).1).2
      have sameType : r.edgeType = e.edgeType := congrArg (fun t => t.2.2) same
      exact others e kept (sameType.symm.trans isBinds)
    simp [kept, untouched]
  · simp [kept]

theorem mem_storedBinds_published
    (edges : db'.edges = withoutTriples (toRemove out db) (db.edges ++ toAdd out db))
    {e : GraphEdge} :
    e ∈ storedBinds db' ↔
      (e ∈ storedBinds db ∧ edgePair e ∈ (desiredRecords out).map BindRecord.pair) ∨
        e ∈ toAdd out db := by
  have kept_iff : ∀ e : GraphEdge, e.edgeType = .binds →
      (e.triple ∈ (toRemove out db).map GraphEdge.triple ↔
        edgePair e ∈ (toRemove out db).map edgePair) := by
    intro e isBinds
    rw [List.mem_map, List.mem_map]
    refine exists_congr fun r => and_congr_right fun removed => ?_
    have isBinds' := (mem_storedBinds.mp (mem_toRemove.mp removed).1).2
    simp [GraphEdge.triple, edgePair, isBinds, isBinds']
  rw [mem_storedBinds, edges]
  unfold withoutTriples
  rw [List.mem_filter, List.mem_append]
  simp only [Bool.not_eq_true', List.contains_eq_mem, decide_eq_false_iff_not]
  constructor
  · rintro ⟨⟨old | new, untouched⟩, isBinds⟩
    · have stored := mem_storedBinds.mpr ⟨old, isBinds⟩
      refine Or.inl ⟨stored, ?_⟩
      by_contra undesired
      rw [kept_iff e isBinds] at untouched
      exact untouched (List.mem_map_of_mem (mem_toRemove.mpr ⟨stored, undesired⟩))
    · exact Or.inr new
  · have survives : ∀ e : GraphEdge, e.edgeType = .binds →
        edgePair e ∈ (desiredRecords out).map BindRecord.pair →
          e.triple ∉ (toRemove out db).map GraphEdge.triple := by
      intro e isBinds wanted listed
      obtain ⟨r, removed, same⟩ := List.mem_map.mp ((kept_iff e isBinds).mp listed)
      exact (mem_toRemove.mp removed).2 (same ▸ wanted)
    rintro (⟨stored, wanted⟩ | new)
    · obtain ⟨old, isBinds⟩ := mem_storedBinds.mp stored
      exact ⟨⟨Or.inl old, survives e isBinds wanted⟩, isBinds⟩
    · obtain ⟨⟨b, wanted, rfl⟩, _⟩ := mem_toAdd.mp new
      exact ⟨⟨Or.inr new, survives _ rfl (mem_desiredPairs.mpr ⟨b, wanted, rfl⟩)⟩, rfl⟩

theorem desired_stored
    (edges : db'.edges = withoutTriples (toRemove out db) (db.edges ++ toAdd out db))
    {b : BindsEdge} (wanted : b ∈ desired out) :
    edgePair (bindEdge b) ∈ (storedBinds db').map edgePair := by
  by_cases stored : edgePair (bindEdge b) ∈ (storedBinds db).map edgePair
  · obtain ⟨e, old, same⟩ := List.mem_map.mp stored
    refine List.mem_map.mpr ⟨e, (mem_storedBinds_published edges).mpr (Or.inl ⟨old, ?_⟩), same⟩
    exact mem_desiredPairs.mpr ⟨b, wanted, same.symm⟩
  · refine List.mem_map_of_mem ((mem_storedBinds_published edges).mpr (Or.inr ?_))
    exact mem_toAdd.mpr ⟨⟨b, wanted, rfl⟩, stored⟩

theorem publish_again
    (edges : db'.edges = withoutTriples (toRemove out db) (db.edges ++ toAdd out db)) :
    publish context out db' = .ok db' () := by
  have nothingToAdd : toAdd out db' = [] := by
    refine List.eq_nil_iff_forall_not_mem.mpr fun e member => ?_
    obtain ⟨⟨b, wanted, rfl⟩, missing⟩ := mem_toAdd.mp member
    exact missing (desired_stored edges wanted)
  have nothingToRemove : toRemove out db' = [] := by
    refine List.eq_nil_iff_forall_not_mem.mpr fun e member => ?_
    obtain ⟨stored, undesired⟩ := mem_toRemove.mp member
    rcases (mem_storedBinds_published edges).mp stored with ⟨_, wanted⟩ | new
    · exact undesired wanted
    · obtain ⟨⟨b, wanted, rfl⟩, _⟩ := mem_toAdd.mp new
      exact undesired (mem_desiredPairs.mpr ⟨b, wanted, rfl⟩)
  unfold publish
  rw [nothingToAdd, nothingToRemove]
  rfl

theorem publishes_iff_current (unambiguous : Unambiguous out)
    (edges : db'.edges = withoutTriples (toRemove out db) (db.edges ++ toAdd out db)) :
    Publishes out db' ↔ Current out db := by
  constructor
  · intro published e stored wanted
    refine (published _).mp (List.mem_map_of_mem ?_)
    exact (mem_storedBinds_published edges).mpr (Or.inl ⟨stored, wanted⟩)
  · intro current record
    constructor
    · intro member
      obtain ⟨e, stored, rfl⟩ := List.mem_map.mp member
      rcases (mem_storedBinds_published edges).mp stored with ⟨old, wanted⟩ | new
      · exact current e old wanted
      · obtain ⟨⟨b, wanted, rfl⟩, _⟩ := mem_toAdd.mp new
        exact List.mem_map_of_mem wanted
    · intro member
      obtain ⟨b, wanted, rfl⟩ := List.mem_map.mp member
      obtain ⟨e, stored, same⟩ := List.mem_map.mp (desired_stored edges wanted)
      refine List.mem_map.mpr ⟨e, stored, ?_⟩
      -- The edge stored for the pair is current, and the join has one bind for the pair.
      have recorded : bindRecord e ∈ desiredRecords out := by
        rcases (mem_storedBinds_published edges).mp stored with ⟨old, desiredPair⟩ | new
        · exact current e old desiredPair
        · obtain ⟨⟨c, chosen, rfl⟩, _⟩ := mem_toAdd.mp new
          exact List.mem_map_of_mem chosen
      obtain ⟨c, chosen, record⟩ := List.mem_map.mp recorded
      have samePair : edgePair (bindEdge c) = edgePair (bindEdge b) :=
        (congrArg BindRecord.pair record).trans same
      rw [← record, unambiguous.eq chosen wanted samePair]

end Effects

/-! ### The whole rejoin -/

def joinOf (context : RejoinContext) (config : ContractFederationConfig)
    (rustNodes : List GraphNode) (contractNodeIds : ContractNodeIds) (db : GraphDatabase) :
    JoinOutput :=
  (joinInput context config (contractNodeIds.flatMap Prod.snd) rustNodes db).run

section Rejoin

variable {context : RejoinContext} {config : ContractFederationConfig}
variable {rustNodes : List GraphNode} {contractNodeIds : ContractNodeIds}
variable {db db' : GraphDatabase} {result : Rejoined}

theorem joinOf_published {out : JoinOutput}
    (become : EdgesBecome db (withoutTriples (toRemove out db) (db.edges ++ toAdd out db)) db') :
    joinOf context config rustNodes contractNodeIds db' =
      joinOf context config rustNodes contractNodeIds db := by
  have sameNodes : db'.getNode = db.getNode := funext become.nodes
  have sameEdges : db'.edges.filter (fun e => isContractEdge e.edgeType) =
      db.edges.filter fun e => isContractEdge e.edgeType := by
    rw [become.edges]
    refine filter_published fun e kept isBinds => ?_
    rw [isBinds] at kept
    cases kept
  unfold joinOf joinInput contractNodes contractEdges
  rw [sameNodes, sameEdges]

/-- **A rejoin publishes the whole join exactly when nothing stored is out of date.** After
a rejoin that succeeds, the backend holds exactly the desired binds with the weight,
provenance and detail of the join, and rejoining changes nothing, if and only if every
`binds` edge that was stored for a desired pair already had those of the join. -/
theorem rejoinContracts_publishes_iff (consistent : Consistent db)
    (configured : context.contractConfig = some config) (resolved : context.rustNodes = .ok rustNodes)
    (done : rejoinContracts context db contractNodeIds = .ok db' result) :
    (Publishes (joinOf context config rustNodes contractNodeIds db) db' ∧
        rejoinContracts context db' contractNodeIds = .ok db' result) ↔
      Current (joinOf context config rustNodes contractNodeIds db) db := by
  have unambiguous : Unambiguous (joinOf context config rustNodes contractNodeIds db) :=
    unambiguous_run _
  have unfolded : ∀ start : GraphDatabase, rejoinContracts context start contractNodeIds =
      andThen (publish context (joinOf context config rustNodes contractNodeIds start) start)
        fun after _ => .ok after
          { contractNodeIds := contractNodeIds.filter fun entry => context.repos.contains entry.1
            snapshot := some
              ⟨(joinOf context config rustNodes contractNodeIds start).index,
                (desired (joinOf context config rustNodes contractNodeIds start)).map
                  fun b => edgePair (bindEdge b)⟩ } := by
    intro start
    unfold rejoinContracts joinOf
    rw [configured, resolved]
  rw [unfolded] at done
  cases published : publish context (joinOf context config rustNodes contractNodeIds db) db with
  | error after reason =>
    rw [published] at done
    cases done
  | panicked =>
    rw [published] at done
    cases done
  | ok after value =>
    rw [published] at done
    have become := publish_ok consistent unambiguous published
    cases done
    have again : publish context _ db' = .ok db' () := publish_again become.edges
    rw [publishes_iff_current unambiguous become.edges]
    refine ⟨And.left, fun current => ⟨current, ?_⟩⟩
    rw [unfolded, joinOf_published become, again]
    rfl

end Rejoin

/-! ### A bind confirmed later -/

def ordersRoute : GraphNode where
  id := "orders:HttpRoute:api.rs:list:1"
  nodeType := .httpRoute
  name := "list"
  path := "api.rs"
  contract := [.provider ⟨.get, "/orders", none, none, .code⟩]

def ordersCall : GraphNode where
  id := "web:HttpClientCall:app.ts:load:3"
  nodeType := .httpClientCall
  name := "load"
  path := "app.ts"
  contract :=
    [.consumer ⟨.known .get, ⟨.none, some "/orders"⟩, .library "fetch", "/orders", true⟩]

def ordersBinding : ConfirmedBinding where
  consumer := { repo := "web", path := "app.ts", symbol := "load", key := "GET /orders" }
  provider := ⟨"orders", "GET /orders"⟩

def bindingsOnly (bindings : List ConfirmedBinding) : RejoinContext where
  contractConfig := some { bindings }
  repos := ["orders", "web"]

def ordersIds : ContractNodeIds :=
  [("orders", [ordersRoute.id]), ("web", [ordersCall.id])]

def ordersGraph : GraphDatabase :=
  stateAfter (GraphBackend.upsertNodesBatch {} none [ordersRoute, ordersCall])

def unconfirmedGraph : GraphDatabase :=
  stateAfter (rejoinContracts (bindingsOnly []) ordersGraph ordersIds)

def confirmedGraph : GraphDatabase :=
  stateAfter (rejoinContracts (bindingsOnly [ordersBinding]) unconfirmedGraph ordersIds)

/-- The first rejoin publishes the whole join. -/
theorem rejoinContracts_publishes_orders :
    ∃ result,
      Publishes (joinOf (bindingsOnly []) { bindings := [] } [] ordersIds ordersGraph)
          unconfirmedGraph ∧
        rejoinContracts (bindingsOnly []) unconfirmedGraph ordersIds =
          .ok unconfirmedGraph result := by
  have published : succeeds (rejoinContracts (bindingsOnly []) ordersGraph ordersIds) = true := by
    decide +kernel
  obtain ⟨result, done⟩ := eq_ok_of_succeeds published
  have nothingStored : storedBinds ordersGraph = [] := by decide +kernel
  have consistent : Consistent ordersGraph :=
    (consistent_empty.insertNodesBatch [ordersRoute, ordersCall]).1.consistent
  refine ⟨result, (rejoinContracts_publishes_iff consistent rfl rfl done).mpr ?_⟩
  intro e stored
  rw [nothingStored] at stored
  cases stored

/-- A bind confirmed after its first rejoin keeps the weight and the provenance of the
heuristic that found it. -/
theorem rejoinContracts_keeps_heuristic :
    ∃ first second,
      rejoinContracts (bindingsOnly []) ordersGraph ordersIds = .ok unconfirmedGraph first ∧
      rejoinContracts (bindingsOnly [ordersBinding]) unconfirmedGraph ordersIds =
        .ok confirmedGraph second ∧
      ¬ Publishes
        (joinOf (bindingsOnly [ordersBinding]) { bindings := [ordersBinding] } [] ordersIds
          unconfirmedGraph)
        confirmedGraph := by
  have published : succeeds (rejoinContracts (bindingsOnly []) ordersGraph ordersIds) = true := by
    decide +kernel
  have rejoined : succeeds
      (rejoinContracts (bindingsOnly [ordersBinding]) unconfirmedGraph ordersIds) = true := by
    decide +kernel
  obtain ⟨first, done⟩ := eq_ok_of_succeeds published
  obtain ⟨second, done'⟩ := eq_ok_of_succeeds rejoined
  refine ⟨first, second, done, done', fun published => ?_⟩
  have wanted := (published
    ⟨(ordersCall.id, ordersRoute.id), some 1, some (.confirmed "repos.yaml#bindings[<0>]"),
      some ⟨some .exact, none⟩⟩).mpr (by decide +kernel)
  exact absurd wanted (by decide +kernel)

end Lain.Federation
