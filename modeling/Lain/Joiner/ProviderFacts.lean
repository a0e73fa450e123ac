import Mathlib
import Lain.Contracts.Validate
import Lain.Joiner.Closed

/-!
# The endpoints of provider facts

A provider fact names the key its endpoint should have: a route in normal form behind the base path
and the mounts of its service, a topic by its own name.
-/

namespace Lain.Joiner

open Foundation Contracts Federation

def fragments (config : ContractFederationConfig) (svc : ServiceName) (node : GraphNode) :
    List String :=
  let service := resolveServiceDecl svc config
  service.basePath.toList ++
    (service.routePrefixes.filter fun rp => decide (rp.path = node.path)).map RoutePrefix.front

def joinedPath (parts : List String) : String :=
  "/" ++ "/".intercalate parts

/-- **The key of a provider fact**: a route in normal form, a topic by its own name, and the names
of the other protocols; a service may keep its GraphQL operations to itself. -/
def ownKey (isAlphanumeric : Char → Bool) (config : ContractFederationConfig) (svc : ServiceName)
    (node : GraphNode) : ContractFact → Option ContractKey
  | .provider p =>
    if node.nodeType = .topic then some (.topic (defaultBrokerFor node) p.template)
    else (normalize isAlphanumeric
      [.literal (joinedPath (fragments config svc node ++ [p.template]))]).template.map
        (.http (.known p.method))
  | .rpcProvider rpc => some (.rpc rpc.system rpc.service rpc.method)
  | .graphqlProvider g =>
    if serviceProvidesGraphql config svc then some (.graphql g.op g.field) else none
  | .webSocketProvider ws => some (.webSocket ws.route)
  | .table tbl => some (.table tbl.name)
  | _ => none

/-- **Every provider fact becomes its endpoint**: the table holds a record with the id of its node
under its own key. -/
def EveryFactKept (isAlphanumeric : Char → Bool) (nodes : List GraphNode)
    (assignments : SortedMap String ServiceName) (config : ContractFederationConfig) : Prop :=
  ∀ node ∈ nodes, ∀ svc, assignments.get? node.id = some svc → ∀ fact ∈ node.contract, ∀ key,
    ownKey isAlphanumeric config svc node fact = some key →
      ∃ owner, ∃ record ∈ ((buildEndpoints nodes assignments config).get? ⟨owner, key⟩).getD [],
        record.id = node.id

def GivesKey (config : ContractFederationConfig) (svc : ServiceName) (node : GraphNode)
    (key : ContractKey) : ContractFact → Prop
  | .provider p =>
    let whole := String.join (fragments config svc node ++ [p.template])
    (if node.nodeType = .topic then .topic (defaultBrokerFor node) whole
      else .http (.known p.method) whole) = key
  | .rpcProvider rpc => .rpc rpc.system rpc.service rpc.method = key
  | .graphqlProvider g => serviceProvidesGraphql config svc = true ∧ .graphql g.op g.field = key
  | .webSocketProvider ws => .webSocket ws.route = key
  | .table tbl => .table tbl.name = key
  | _ => False

/-- The first fact of some node of an id gives a key. -/
def FirstGives (nodes : List GraphNode) (assignments : SortedMap String ServiceName)
    (config : ContractFederationConfig) (id : String) (key : ContractKey) : Prop :=
  (GlobalId.parse id).isSome = true ∧ ∃ node ∈ nodes, node.id = id ∧
    ∃ svc, assignments.get? id = some svc ∧
      ∃ first, node.contract.head? = some first ∧ GivesKey config svc node key first

/-- A declared provider of a key goes by an id. -/
def DeclaredUnder (config : ContractFederationConfig) (id : String) (key : ContractKey) : Prop :=
  ∃ entry ∈ declaredRecords config, entry.2.id = id ∧ entry.1.key = key

/-! ### Records -/

theorem endpointTemplateFor_eq (p : ProviderFact) (node : GraphNode) (svc : ServiceName)
    (config : ContractFederationConfig) :
    endpointTemplateFor p node.path (resolveServiceDecl svc config) =
      String.join (fragments config svc node ++ [p.template]) := by
  have join : ∀ l m : List String, String.join (l ++ m) = String.join l ++ String.join m := by
    intro l m
    refine String.toList_injective ?_
    simp
  unfold endpointTemplateFor fragments
  dsimp only
  rw [join, join]
  cases (resolveServiceDecl svc config).basePath <;> simp

theorem exists_providerRecords {assignments : SortedMap String ServiceName}
    {config : ContractFederationConfig} {node : GraphNode} {key : ContractKey} :
    (∃ entry ∈ providerRecords assignments config node, entry.1.key = key) ↔
      (GlobalId.parse node.id).isSome = true ∧ ∃ svc, assignments.get? node.id = some svc ∧
        ∃ first, node.contract.head? = some first ∧ GivesKey config svc node key first := by
  unfold providerRecords
  cases parsed : GlobalId.parse node.id with
  | none => simp
  | some gid =>
    cases assigned : assignments.get? node.id with
    | none => simp
    | some svc =>
      cases first : node.contract.head? with
      | none => simp
      | some fact =>
        cases fact with
        | provider p =>
          simp only [GivesKey, ← endpointTemplateFor_eq p node svc config, routeKey,
            List.mem_singleton, exists_eq_left, Option.isSome_some, true_and,
            Option.some.injEq, exists_eq_left']
        | rpcProvider rpc => simp [GivesKey]
        | graphqlProvider g =>
          cases provides : serviceProvidesGraphql config svc
          · simp [GivesKey, provides]
          · simp [GivesKey, provides]
        | webSocketProvider ws => simp [GivesKey]
        | table tbl =>
          cases owner : databaseOf config tbl.name <;>
            simp [GivesKey, owner]
        | _ => simp [GivesKey]

theorem exists_record {nodes : List GraphNode} {assignments : SortedMap String ServiceName}
    {config : ContractFederationConfig} {id : String} {key : ContractKey} :
    (∃ owner, ∃ record ∈ ((buildEndpoints nodes assignments config).get? ⟨owner, key⟩).getD [],
      record.id = id) ↔
      ∃ entry ∈ nodes.flatMap (providerRecords assignments config) ++ declaredRecords config,
        entry.2.id = id ∧ entry.1.key = key := by
  unfold buildEndpoints
  simp only [SortedMap.getD_group, List.mem_map, List.mem_filter, decide_eq_true_eq]
  constructor
  · rintro ⟨owner, _, ⟨entry, ⟨member, same⟩, rfl⟩, own⟩
    exact ⟨entry, member, own, by rw [same]⟩
  · rintro ⟨⟨⟨owner, key⟩, record⟩, member, own, rfl⟩
    exact ⟨owner, record, ⟨_, ⟨member, rfl⟩, rfl⟩, own⟩

theorem exists_record_iff_gives {nodes : List GraphNode}
    {assignments : SortedMap String ServiceName} {config : ContractFederationConfig} {id : String}
    {key : ContractKey} :
    (∃ owner, ∃ record ∈ ((buildEndpoints nodes assignments config).get? ⟨owner, key⟩).getD [],
      record.id = id) ↔
      FirstGives nodes assignments config id key ∨ DeclaredUnder config id key := by
  rw [exists_record]
  constructor
  · rintro ⟨entry, member, own, same⟩
    obtain detected | declared := List.mem_append.mp member
    · obtain ⟨node, here, inside⟩ := List.mem_flatMap.mp detected
      have named := GlobalId.parse_eq_some (JoinInput.id_of_mem_providerRecords inside)
      obtain ⟨valid, gives⟩ := exists_providerRecords.mp ⟨entry, inside, same⟩
      rw [← named, own] at valid gives
      exact .inl ⟨valid, node, here, named.symm.trans own, gives⟩
    · exact .inr ⟨entry, declared, own, same⟩
  · rintro (⟨valid, node, here, rfl, gives⟩ | ⟨entry, declared, own, same⟩)
    · obtain ⟨entry, inside, same⟩ := exists_providerRecords.mpr ⟨valid, gives⟩
      have named := GlobalId.parse_eq_some (JoinInput.id_of_mem_providerRecords inside)
      exact ⟨entry, List.mem_append_left _ (List.mem_flatMap.mpr ⟨node, here, inside⟩), named,
        same⟩
    · exact ⟨entry, List.mem_append_right _ declared, own, same⟩

/-- **When every provider fact becomes its endpoint.** This is so exactly when the key of every
provider fact is the one that the first fact of a node of its id gives, with the fragments and the
template put together as they stand, or that of a declared provider of this id. -/
theorem everyFactKept_iff (isAlphanumeric : Char → Bool) (nodes : List GraphNode)
    (assignments : SortedMap String ServiceName) (config : ContractFederationConfig) :
    EveryFactKept isAlphanumeric nodes assignments config ↔
      ∀ node ∈ nodes, ∀ svc, assignments.get? node.id = some svc → ∀ fact ∈ node.contract, ∀ key,
        ownKey isAlphanumeric config svc node fact = some key →
          FirstGives nodes assignments config node.id key ∨ DeclaredUnder config node.id key := by
  unfold EveryFactKept
  simp only [exists_record_iff_gives]

def apiService : ContractFederationConfig where
  services := [{ name := "api", repo := "shop", basePath := some "/api" }]

def rootRoute : GraphNode :=
  { id := "shop:HttpRoute:app.py:GET /:0", nodeType := .httpRoute, name := "GET /",
    path := "app.py", repoId := some "shop",
    contract := [.provider ⟨.get, "/", none, none, .code⟩] }

def ordersTopic : GraphNode :=
  { id := "shop:Topic:app.py:orders:0", nodeType := .topic, name := "orders", path := "app.py",
    repoId := some "shop", contract := [.provider ⟨.any, "orders", none, none, .code⟩] }

def twoSockets : GraphNode :=
  { id := "shop:HttpRoute:app.py:sockets:3", nodeType := .httpRoute, name := "sockets",
    path := "app.py", repoId := some "shop",
    contract := [.webSocketProvider ⟨"/feed", none⟩, .webSocketProvider ⟨"/chat", none⟩] }

/-- **Not every provider fact becomes its endpoint**: a root route behind a base path keeps a slash
at its end, a topic gets the base path before its name, and a second fact is not read. -/
theorem apiService_lost :
    apiService.validate Char.isAlphanum ["shop"] = .ok () ∧
      ∀ node ∈ [rootRoute, ordersTopic, twoSockets],
        ¬EveryFactKept Char.isAlphanum [node] (assignServices [node] apiService) apiService := by
  refine ⟨by decide +kernel, ?_⟩
  intro node member kept
  simp only [List.mem_cons, List.not_mem_nil, or_false] at member
  obtain rfl | rfl | rfl := member
  · have record := exists_record.mp (kept rootRoute List.mem_cons_self "api" (by decide +kernel)
      (.provider ⟨.get, "/", none, none, .code⟩) (by decide +kernel) (.http (.known .get) "/api")
      (by decide +kernel))
    exact absurd record (by decide +kernel)
  · have record := exists_record.mp (kept ordersTopic List.mem_cons_self "api" (by decide +kernel)
      (.provider ⟨.any, "orders", none, none, .code⟩) (by decide +kernel) (.topic "kafka" "orders")
      (by decide +kernel))
    exact absurd record (by decide +kernel)
  · have record := exists_record.mp (kept twoSockets List.mem_cons_self "api" (by decide +kernel)
      (.webSocketProvider ⟨"/chat", none⟩) (by decide +kernel) (.webSocket "/chat")
      (by decide +kernel))
    exact absurd record (by decide +kernel)

end Lain.Joiner
