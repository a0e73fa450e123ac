import Mathlib
import Lain.Contracts.Validate
import Lain.Joiner.FieldJoin

/-!
# Schemas and endpoints

The endpoint table and the schemas of the endpoints are keyed apart: a provider node has the
endpoints of its records, a schema lands at the one endpoint its route is keyed to.
-/

namespace Lain.Joiner

open Foundation Contracts Federation

section

variable (nodes : List GraphNode) (edges : List GraphEdge)
  (assignments : SortedMap String ServiceName) (config : ContractFederationConfig)

/-! ### Links -/

def FieldOf (schema : String) (f : ResponseField) : Prop :=
  ∃ edge ∈ edges, fieldOfEdge (fieldNodes nodes) edge = some (schema, f)

def SchemaLink (route : String) (dir : Direction) (schema : String) : Prop :=
  ∃ edge ∈ edges, schemaDirection edge.edgeType = some dir ∧ edge.sourceId = route ∧
    edge.targetId = schema

def routeEndpoint (route : String) : Option EndpointId := do
  let svc ← assignments.get? route
  let node ← nodes.find? fun n => decide (n.id = route)
  contractKeyForProvider node svc config

def declaredNodes (decl : SchemaDecl) : Option (GraphNode × ServiceName × GraphNode) := do
  let schemaNode ← pickSchemaNode nodes decl.repo decl.file
  let svc ← assignments.get? schemaNode.id
  if (config.service? svc).any (fun s => decide (s.repo = decl.repo)) then
    (pickTopicNode nodes assignments svc decl.topic).map fun topicNode =>
      (schemaNode, svc, topicNode)
  else none

def DeclaredLands (endpoint : EndpointId) (schema : String) : Prop :=
  ∃ decl ∈ config.schemas, ∃ schemaNode svc topicNode,
    declaredNodes nodes assignments config decl = some (schemaNode, svc, topicNode) ∧
      schemaNode.id = schema ∧ (GlobalId.parse schema).isSome = true ∧
      contractKeyForProvider topicNode svc config = some endpoint

def Lands (endpoint : EndpointId) (dir : Direction) (schema : String) : Prop :=
  (∃ route, routeEndpoint nodes assignments config route = some endpoint ∧
    SchemaLink edges route dir schema) ∨
  dir = .payload ∧ DeclaredLands nodes assignments config endpoint schema

def recordEndpoints (node : GraphNode) : List EndpointId :=
  (providerRecords assignments config node).map Prod.fst

def Belongs (endpoint : EndpointId) (dir : Direction) (schema : String) : Prop :=
  (∃ node ∈ nodes, endpoint ∈ recordEndpoints assignments config node ∧
    SchemaLink edges node.id dir schema ∧
      ∃ schemaNode ∈ nodes, schemaNode.id = schema ∧ schemaNode.nodeType = .schema) ∨
  dir = .payload ∧ ∃ decl ∈ config.schemas, ∃ schemaNode svc topicNode,
    declaredNodes nodes assignments config decl = some (schemaNode, svc, topicNode) ∧
      schemaNode.id = schema ∧ endpoint ∈ recordEndpoints assignments config topicNode

/-! ### What is collected -/

def EndpointSchemas.fieldsAt (schemas : EndpointSchemas) (endpoint : EndpointId)
    (dir : Direction) : List ResponseField :=
  (((schemas.byEndpoint.get? endpoint).getD ∅).get? dir).getD []

def EndpointSchemas.nodeAt (schemas : EndpointSchemas) (endpoint : EndpointId)
    (dir : Direction) : Option GlobalId :=
  (schemas.schemaNode.get? endpoint).bind fun nodeMap => nodeMap.get? dir

/-- **The schemas land on existing endpoints**: an endpoint with fields is in the table, its fields
are those of the schema nodes of its providers, and where there are fields a schema node is
recorded that lands there. -/
structure SchemasLand : Prop where
  listed : ∀ endpoint dir,
    (collectEndpointSchemas nodes edges assignments config).fieldsAt endpoint dir ≠ [] →
      ((buildEndpoints nodes assignments config).get? endpoint).isSome = true
  exact : ∀ endpoint dir f,
    f ∈ (collectEndpointSchemas nodes edges assignments config).fieldsAt endpoint dir ↔
      ∃ schema, Belongs nodes edges assignments config endpoint dir schema ∧
        FieldOf nodes edges schema f
  recorded : ∀ endpoint dir,
    (collectEndpointSchemas nodes edges assignments config).fieldsAt endpoint dir ≠ [] →
      ∃ gid, (collectEndpointSchemas nodes edges assignments config).nodeAt endpoint dir =
        some gid ∧ Lands nodes edges assignments config endpoint dir gid

def ReadableRoute (endpoint : EndpointId) (route : String) (dir : Direction) : Prop :=
  routeEndpoint nodes assignments config route = some endpoint ∧
    ∃ schema, SchemaLink edges route dir schema ∧ (GlobalId.parse schema).isSome = true

/-- **When the schemas land**: a schema that lands elsewhere than where it belongs, or belongs
where it does not land, has each of its fields there by another schema too; and where there are
fields, there is a declared payload or the last route of the endpoint that has any readable schema
has one of this direction. -/
structure LandsWhereItBelongs : Prop where
  strayed : ∀ endpoint dir schema f, Lands nodes edges assignments config endpoint dir schema →
    ¬Belongs nodes edges assignments config endpoint dir schema → FieldOf nodes edges schema f →
      ∃ other, Belongs nodes edges assignments config endpoint dir other ∧
        FieldOf nodes edges other f
  missed : ∀ endpoint dir schema f, Belongs nodes edges assignments config endpoint dir schema →
    ¬Lands nodes edges assignments config endpoint dir schema → FieldOf nodes edges schema f →
      ∃ other, Lands nodes edges assignments config endpoint dir other ∧
        FieldOf nodes edges other f
  last : ∀ endpoint dir schema f, Lands nodes edges assignments config endpoint dir schema →
    FieldOf nodes edges schema f →
      (dir = .payload ∧ ∃ other f', DeclaredLands nodes assignments config endpoint other ∧
        FieldOf nodes edges other f') ∨
      ∃ route, ReadableRoute nodes edges assignments config endpoint route dir ∧
        ∀ later dir', ReadableRoute nodes edges assignments config endpoint later dir' →
          later ≤ route

end

/-! ### The maps of the edges -/

section Maps

variable {nodes : List GraphNode} {edges : List GraphEdge}

theorem mem_fieldsBySchema {schema : String} {f : ResponseField} :
    f ∈ ((fieldsBySchema nodes edges).get? schema).getD [] ↔ FieldOf nodes edges schema f := by
  unfold fieldsBySchema FieldOf
  rw [SortedMap.getD_group, List.mem_map]
  constructor
  · rintro ⟨⟨_, _⟩, member, rfl⟩
    obtain ⟨inside, same⟩ := List.mem_filter.mp member
    obtain ⟨edge, here, leaves⟩ := List.mem_filterMap.mp inside
    obtain rfl := of_decide_eq_true same
    exact ⟨edge, here, leaves⟩
  · rintro ⟨edge, here, leaves⟩
    exact ⟨(schema, f), List.mem_filter.mpr
      ⟨List.mem_filterMap.mpr ⟨edge, here, leaves⟩, decide_eq_true rfl⟩, rfl⟩

theorem exists_fieldsBySchema {schema : String} {found : List ResponseField}
    (listed : (fieldsBySchema nodes edges).get? schema = some found) :
    ∃ f, FieldOf nodes edges schema f := by
  obtain ⟨pair, inside, rfl⟩ := (SortedMap.isSome_group _ schema).mp
    (Option.isSome_iff_exists.mpr ⟨found, listed⟩)
  obtain ⟨edge, here, leaves⟩ := List.mem_filterMap.mp inside
  exact ⟨pair.2, edge, here, leaves⟩

theorem exists_schemasByRoute {route : String} {dir : Direction} {schema : String} :
    (∃ legs, (route, legs) ∈ (schemasByRoute edges).entries ∧ (dir, schema) ∈ legs) ↔
      SchemaLink edges route dir schema := by
  have legs : (dir, schema) ∈ ((schemasByRoute edges).get? route).getD [] ↔
      SchemaLink edges route dir schema := by
    unfold schemasByRoute SchemaLink
    rw [SortedMap.getD_group, List.mem_map]
    constructor
    · rintro ⟨⟨_, _⟩, member, rfl⟩
      obtain ⟨inside, same⟩ := List.mem_filter.mp member
      obtain ⟨edge, here, leaves⟩ := List.mem_filterMap.mp inside
      obtain ⟨dir', direction, pair⟩ := Option.map_eq_some_iff.mp leaves
      obtain rfl := of_decide_eq_true same
      cases pair
      exact ⟨edge, here, direction, rfl, rfl⟩
    · rintro ⟨edge, here, direction, rfl, rfl⟩
      refine ⟨(edge.sourceId, (dir, edge.targetId)), List.mem_filter.mpr
        ⟨List.mem_filterMap.mpr ⟨edge, here, ?_⟩, decide_eq_true rfl⟩, rfl⟩
      rw [direction]
      rfl
  rw [← legs]
  constructor
  · rintro ⟨legs, member, inside⟩
    rw [SortedMap.mem_entries.mp member]
    exact inside
  · intro inside
    cases found : (schemasByRoute edges).get? route with
    | none =>
      rw [found] at inside
      cases inside
    | some legs =>
      rw [found] at inside
      exact ⟨legs, SortedMap.mem_entries.mpr found, inside⟩

end Maps

/-! ### Fields -/

section Collected

variable {nodes : List GraphNode} {edges : List GraphEdge}
  {assignments : SortedMap String ServiceName} {config : ContractFederationConfig}
  {endpoint : EndpointId} {dir : Direction} {f : ResponseField}

theorem mem_addFields {fields : SortedMap String (List ResponseField)}
    {bucket : SortedMap Direction (List ResponseField)} {legs : List (Direction × String)} :
    f ∈ ((legs.foldl (addFields fields) bucket).get? dir).getD [] ↔
      f ∈ (bucket.get? dir).getD [] ∨
        ∃ schema, (dir, schema) ∈ legs ∧ f ∈ (fields.get? schema).getD [] := by
  induction legs generalizing bucket with
  | nil => simp
  | cons leg rest ih =>
    have here : f ∈ ((addFields fields bucket leg).get? dir).getD [] ↔
        f ∈ (bucket.get? dir).getD [] ∨ leg.1 = dir ∧ f ∈ (fields.get? leg.2).getD [] := by
      unfold addFields
      cases found : fields.get? leg.2 with
      | none => simp
      | some listed =>
        dsimp only
        rw [SortedMap.get?_extend]
        by_cases same : dir = leg.1
        · simp [same]
        · simp [same, Ne.symm same]
    rw [List.foldl_cons, ih, here, or_assoc]
    refine or_congr_right ?_
    constructor
    · rintro (⟨rfl, member⟩ | ⟨schema, later, member⟩)
      · exact ⟨leg.2, List.mem_cons_self, member⟩
      · exact ⟨schema, List.mem_cons_of_mem _ later, member⟩
    · rintro ⟨schema, listed, member⟩
      obtain rfl | later := List.mem_cons.mp listed
      · exact .inl ⟨rfl, member⟩
      · exact .inr ⟨schema, later, member⟩

theorem addRoute_eq {fields : SortedMap String (List ResponseField)} {out : EndpointSchemas}
    {route : String × List (Direction × String)} :
    addRoute nodes fields assignments config out route =
      match routeEndpoint nodes assignments config route.1 with
      | some endpoint =>
        { byEndpoint := out.byEndpoint.alter endpoint fun bucket =>
            route.2.foldl (addFields fields) (bucket.getD ∅)
          schemaNode :=
            if (route.2.foldl addNode ∅).entries.isEmpty then out.schemaNode
            else out.schemaNode.insert endpoint (route.2.foldl addNode ∅) }
      | none => out := by
  unfold addRoute routeEndpoint
  cases assignments.get? route.1 with
  | none => rfl
  | some svc =>
    cases nodes.find? fun n => decide (n.id = route.1) with
    | none => rfl
    | some node => cases contractKeyForProvider node svc config <;> rfl

theorem mem_fieldsAt_addRoute {out : EndpointSchemas}
    {route : String × List (Direction × String)} :
    f ∈ (addRoute nodes (fieldsBySchema nodes edges) assignments config out route).fieldsAt
        endpoint dir ↔
      f ∈ out.fieldsAt endpoint dir ∨
        routeEndpoint nodes assignments config route.1 = some endpoint ∧
          ∃ schema, (dir, schema) ∈ route.2 ∧ FieldOf nodes edges schema f := by
  rw [addRoute_eq]
  cases keyed : routeEndpoint nodes assignments config route.1 with
  | none => simp
  | some own =>
    unfold EndpointSchemas.fieldsAt
    dsimp only
    rw [SortedMap.get?_alter]
    by_cases same : endpoint = own
    · subst same
      rw [if_pos rfl, Option.getD_some, mem_addFields]
      simp only [mem_fieldsBySchema, true_and]
    · have apart : ¬some own = some endpoint := fun equal =>
        same (Option.some.inj equal).symm
      rw [if_neg same]
      simp only [apart, false_and, or_false]

theorem declaredSchema_eq_some {decl : SchemaDecl} {found : List ResponseField} {gid : GlobalId} :
    declaredSchema nodes (fieldsBySchema nodes edges) assignments config decl =
        some (endpoint, found, gid) ↔
      ∃ schemaNode svc topicNode,
        declaredNodes nodes assignments config decl = some (schemaNode, svc, topicNode) ∧
          (fieldsBySchema nodes edges).get? schemaNode.id = some found ∧
          GlobalId.parse schemaNode.id = some gid ∧
          contractKeyForProvider topicNode svc config = some endpoint := by
  unfold declaredSchema declaredNodes
  cases pickSchemaNode nodes decl.repo decl.file with
  | none => simp
  | some schemaNode =>
    cases assigned : assignments.get? schemaNode.id with
    | none => simp [assigned]
    | some svc =>
      by_cases own : (config.service? svc).any (fun s => decide (s.repo = decl.repo)) = true
      · cases topic : pickTopicNode nodes assignments svc decl.topic with
        | none => simp [assigned, own, topic]
        | some topicNode =>
          simp only [Option.bind_eq_bind, Option.bind_some, assigned, own, if_pos, topic,
            Option.map_some, Option.bind_eq_some_iff, Option.pure_def, Option.some.injEq,
            Prod.mk.injEq, ← and_assoc]
          grind
      · simp [assigned, own]

theorem mem_fieldsAt_addDeclared {out : EndpointSchemas} {decl : SchemaDecl} :
    f ∈ (addDeclared nodes (fieldsBySchema nodes edges) assignments config out decl).fieldsAt
        endpoint dir ↔
      f ∈ out.fieldsAt endpoint dir ∨
        dir = .payload ∧ ∃ found gid, declaredSchema nodes (fieldsBySchema nodes edges) assignments
          config decl = some (endpoint, found, gid) ∧ f ∈ found := by
  unfold addDeclared
  cases declared : declaredSchema nodes (fieldsBySchema nodes edges) assignments config decl with
  | none => simp
  | some entry =>
    obtain ⟨own, found, gid⟩ := entry
    unfold EndpointSchemas.fieldsAt
    dsimp only
    rw [SortedMap.get?_alter]
    by_cases same : endpoint = own
    · subst same
      rw [if_pos rfl, Option.getD_some, SortedMap.get?_extend]
      by_cases payload : dir = .payload
      · simp [payload]
      · simp [payload]
    · rw [if_neg same]
      simp [Ne.symm same]

theorem mem_fieldsAt_collected :
    f ∈ (collectEndpointSchemas nodes edges assignments config).fieldsAt endpoint dir ↔
      ∃ schema, Lands nodes edges assignments config endpoint dir schema ∧
        FieldOf nodes edges schema f := by
  have routes : ∀ (l : List (String × List (Direction × String))) (out : EndpointSchemas),
      f ∈ (l.foldl (addRoute nodes (fieldsBySchema nodes edges) assignments config) out).fieldsAt
          endpoint dir ↔
        f ∈ out.fieldsAt endpoint dir ∨ ∃ route ∈ l,
          routeEndpoint nodes assignments config route.1 = some endpoint ∧
            ∃ schema, (dir, schema) ∈ route.2 ∧ FieldOf nodes edges schema f := by
    intro l
    induction l with
    | nil => simp
    | cons route rest ih =>
      intro out
      rw [List.foldl_cons, ih, mem_fieldsAt_addRoute, or_assoc]
      simp only [List.mem_cons, or_and_right, exists_or, exists_eq_left]
  have decls : ∀ (l : List SchemaDecl) (out : EndpointSchemas),
      f ∈ (l.foldl (addDeclared nodes (fieldsBySchema nodes edges) assignments config)
          out).fieldsAt endpoint dir ↔
        f ∈ out.fieldsAt endpoint dir ∨ ∃ decl ∈ l, dir = .payload ∧ ∃ found gid,
          declaredSchema nodes (fieldsBySchema nodes edges) assignments config decl =
            some (endpoint, found, gid) ∧ f ∈ found := by
    intro l
    induction l with
    | nil => simp
    | cons decl rest ih =>
      intro out
      rw [List.foldl_cons, ih, mem_fieldsAt_addDeclared, or_assoc]
      simp only [List.mem_cons, or_and_right, exists_or, exists_eq_left]
  have bare : f ∉ (({} : EndpointSchemas).fieldsAt endpoint dir) := List.not_mem_nil
  unfold collectEndpointSchemas
  dsimp only
  rw [decls, routes]
  constructor
  · rintro ((none | ⟨⟨route, legs⟩, member, keyed, schema, leg, field⟩) |
      ⟨decl, member, payload, found, gid, declared, field⟩)
    · exact absurd none bare
    · exact ⟨schema, .inl ⟨route, keyed, exists_schemasByRoute.mp ⟨legs, member, leg⟩⟩, field⟩
    · obtain ⟨schemaNode, svc, topicNode, picked, listed, parsed, lands⟩ :=
        declaredSchema_eq_some.mp declared
      refine ⟨schemaNode.id, .inr ⟨payload, decl, member, schemaNode, svc, topicNode, picked, rfl,
        by rw [parsed]; rfl, lands⟩, mem_fieldsBySchema.mp ?_⟩
      rw [listed]
      exact field
  · rintro ⟨schema, ⟨route, keyed, link⟩ | ⟨payload, decl, member, schemaNode, svc, topicNode,
      picked, rfl, readable, lands⟩, field⟩
    · obtain ⟨legs, listed, leg⟩ := exists_schemasByRoute.mpr link
      exact .inl (.inr ⟨(route, legs), listed, keyed, schema, leg, field⟩)
    · obtain ⟨gid, parsed⟩ := Option.isSome_iff_exists.mp readable
      have inside := mem_fieldsBySchema.mpr field
      cases listed : (fieldsBySchema nodes edges).get? schemaNode.id with
      | none =>
        rw [listed] at inside
        cases inside
      | some found =>
        rw [listed] at inside
        exact .inr ⟨decl, member, payload, found, gid, declaredSchema_eq_some.mpr
          ⟨schemaNode, svc, topicNode, picked, listed, parsed, lands⟩, inside⟩

end Collected

/-! ### Schema nodes -/

private theorem getLast?_filter {α : Type*} {key : α → String} {l : List α}
    (sorted : l.Pairwise fun a b => key a < key b) {keep : α → Bool} {a : α} :
    (l.filter keep).getLast? = some a ↔
      a ∈ l ∧ keep a = true ∧ ∀ b ∈ l, keep b = true → key b ≤ key a := by
  have order := sorted.filter keep
  rw [List.getLast?_eq_some_iff]
  constructor
  · rintro ⟨front, whole⟩
    have member : a ∈ l.filter keep := by simp [whole]
    refine ⟨(List.mem_filter.mp member).1, (List.mem_filter.mp member).2, fun b inside kept => ?_⟩
    have listed : b ∈ front ++ [a] := whole ▸ List.mem_filter.mpr ⟨inside, kept⟩
    rw [whole] at order
    obtain before | last := List.mem_append.mp listed
    · exact ((List.pairwise_append.mp order).2.2 b before a List.mem_cons_self).le
    · rw [List.mem_singleton.mp last]
  · rintro ⟨inside, kept, most⟩
    have member : a ∈ l.filter keep := List.mem_filter.mpr ⟨inside, kept⟩
    obtain ⟨front, last, whole⟩ : ∃ front last, l.filter keep = front ++ [last] :=
      ⟨_, _, (List.dropLast_append_getLast (List.ne_nil_of_mem member)).symm⟩
    rw [whole] at order member
    obtain before | same := List.mem_append.mp member
    · have above : last ∈ l.filter keep := by simp [whole]
      have least := most last (List.mem_filter.mp above).1 (List.mem_filter.mp above).2
      exact absurd ((List.pairwise_append.mp order).2.2 a before last List.mem_cons_self)
        (not_lt.mpr least)
    · exact ⟨front, by rw [whole, List.mem_singleton.mp same]⟩

section Recorded

variable {nodes : List GraphNode} {edges : List GraphEdge}
  {assignments : SortedMap String ServiceName} {config : ContractFederationConfig}
  {endpoint : EndpointId} {dir : Direction}

theorem get?_addNode (legs : List (Direction × String)) (before : SortedMap Direction GlobalId) :
    (legs.foldl addNode before).get? dir = (before.get? dir).or
      (legs.findSome? fun leg => if leg.1 = dir then GlobalId.parse leg.2 else none) := by
  induction legs generalizing before with
  | nil => simp
  | cons leg rest ih =>
    rw [List.foldl_cons, ih, List.findSome?_cons]
    unfold addNode
    cases parsed : GlobalId.parse leg.2 with
    | none => by_cases same : leg.1 = dir <;> simp [same]
    | some gid =>
      dsimp only
      rw [SortedMap.get?_insertNew]
      by_cases same : leg.1 = dir
      · subst same
        cases before.get? leg.1 <;> simp
      · simp [same, Ne.symm same]

theorem get?_addNode_isSome {legs : List (Direction × String)} :
    ((legs.foldl addNode ∅).get? dir).isSome = true ↔
      ∃ schema, (dir, schema) ∈ legs ∧ (GlobalId.parse schema).isSome = true := by
  rw [get?_addNode]
  change ((legs.findSome? _).isSome = true) ↔ _
  rw [List.isSome_findSome?, List.any_eq_true]
  constructor
  · rintro ⟨⟨dir', schema⟩, member, readable⟩
    by_cases same : dir' = dir
    · subst same
      exact ⟨schema, member, by simpa using readable⟩
    · simp [same] at readable
  · rintro ⟨schema, member, readable⟩
    exact ⟨(dir, schema), member, by simpa using readable⟩

theorem mem_of_get?_addNode {legs : List (Direction × String)} {gid : GlobalId}
    (kept : (legs.foldl addNode ∅).get? dir = some gid) : (dir, gid) ∈ legs := by
  rw [get?_addNode] at kept
  change legs.findSome? _ = some gid at kept
  obtain ⟨⟨dir', schema⟩, member, found⟩ := List.exists_of_findSome?_eq_some kept
  by_cases same : dir' = dir
  · subst same
    rw [if_pos rfl] at found
    rw [GlobalId.parse_eq_some found]
    exact member
  · rw [if_neg same] at found
    cases found

theorem addNode_empty {legs : List (Direction × String)} :
    (legs.foldl addNode ∅).entries.isEmpty = false ↔
      ∃ dir schema, (dir, schema) ∈ legs ∧ (GlobalId.parse schema).isSome = true := by
  simp only [← get?_addNode_isSome]
  cases entries : (legs.foldl addNode ∅).entries with
  | nil =>
    refine ⟨fun absurd => (by cases absurd), fun ⟨dir, kept⟩ => ?_⟩
    rw [← SortedMap.mem_keys] at kept
    unfold SortedMap.keys at kept
    rw [entries] at kept
    cases kept
  | cons entry rest =>
    refine ⟨fun _ => ⟨entry.1, SortedMap.mem_keys.mp ?_⟩, fun _ => rfl⟩
    unfold SortedMap.keys
    rw [entries]
    exact List.mem_cons_self

theorem schemaNode_foldl_addRoute {fields : SortedMap String (List ResponseField)}
    (l : List (String × List (Direction × String))) :
    (l.foldl (addRoute nodes fields assignments config) {}).schemaNode.get? endpoint =
      ((l.filter fun route =>
        decide (routeEndpoint nodes assignments config route.1 = some endpoint) &&
          !(route.2.foldl addNode ∅).entries.isEmpty).getLast?).map fun route =>
            route.2.foldl addNode ∅ := by
  induction l using List.reverseRecOn with
  | nil => rfl
  | append_singleton l route ih =>
    rw [List.foldl_append, List.foldl_cons, List.foldl_nil, List.filter_append, addRoute_eq]
    cases keyed : routeEndpoint nodes assignments config route.1 with
    | none => simp [ih, keyed]
    | some own =>
      dsimp only
      by_cases bare : (route.2.foldl addNode ∅).entries.isEmpty = true
      · rw [if_pos bare, ih]
        simp [bare]
      · rw [if_neg bare, SortedMap.get?_insert]
        by_cases same : endpoint = own
        · subst same
          rw [if_pos rfl]
          simp [keyed, bare]
        · rw [if_neg same, ih]
          simp [keyed, Ne.symm same]

theorem readableRoute_iff {route : String} :
    ReadableRoute nodes edges assignments config endpoint route dir ↔
      ∃ legs, (route, legs) ∈ (schemasByRoute edges).entries ∧
        routeEndpoint nodes assignments config route = some endpoint ∧
        ((legs.foldl addNode ∅).get? dir).isSome = true := by
  constructor
  · rintro ⟨keyed, schema, link, readable⟩
    obtain ⟨legs, listed, leg⟩ := exists_schemasByRoute.mpr link
    exact ⟨legs, listed, keyed, get?_addNode_isSome.mpr ⟨schema, leg, readable⟩⟩
  · rintro ⟨legs, listed, keyed, kept⟩
    obtain ⟨schema, leg, readable⟩ := get?_addNode_isSome.mp kept
    exact ⟨keyed, schema, exists_schemasByRoute.mp ⟨legs, listed, leg⟩, readable⟩

private theorem last_route {route : String} {legs : List (Direction × String)} :
    ((schemasByRoute edges).entries.filter fun route =>
      decide (routeEndpoint nodes assignments config route.1 = some endpoint) &&
        !(route.2.foldl addNode ∅).entries.isEmpty).getLast? = some (route, legs) ↔
      (route, legs) ∈ (schemasByRoute edges).entries ∧
        (∃ dir, ReadableRoute nodes edges assignments config endpoint route dir) ∧
        ∀ later dir, ReadableRoute nodes edges assignments config endpoint later dir →
          later ≤ route := by
  rw [getLast?_filter (schemasByRoute edges).sorted]
  have kept : ∀ entry ∈ (schemasByRoute edges).entries,
      (decide (routeEndpoint nodes assignments config entry.1 = some endpoint) &&
        !(entry.2.foldl addNode ∅).entries.isEmpty) = true ↔
      ∃ dir, ReadableRoute nodes edges assignments config endpoint entry.1 dir := by
    rintro ⟨route, legs⟩ member
    rw [Bool.and_eq_true, decide_eq_true_eq, Bool.not_eq_true', addNode_empty]
    constructor
    · rintro ⟨keyed, dir, schema, leg, readable⟩
      exact ⟨dir, keyed, schema, exists_schemasByRoute.mp ⟨legs, member, leg⟩, readable⟩
    · rintro ⟨dir, keyed, schema, link, readable⟩
      obtain ⟨legs', listed, leg⟩ := exists_schemasByRoute.mpr link
      have same : legs' = legs :=
        Option.some.inj ((SortedMap.mem_entries.mp listed).symm.trans
          (SortedMap.mem_entries.mp member))
      exact ⟨keyed, dir, schema, same ▸ leg, readable⟩
  constructor
  · rintro ⟨member, last, most⟩
    refine ⟨member, (kept _ member).mp last, fun later dir readable => ?_⟩
    obtain ⟨legs', listed, _⟩ := readableRoute_iff.mp readable
    exact most (later, legs') listed ((kept _ listed).mpr ⟨dir, readable⟩)
  · rintro ⟨member, readable, most⟩
    refine ⟨member, (kept _ member).mpr readable, fun entry listed last => ?_⟩
    obtain ⟨dir, readable⟩ := (kept _ listed).mp last
    exact most entry.1 dir readable

theorem nodeAt_routes {fields : SortedMap String (List ResponseField)} {gid : GlobalId} :
    ((schemasByRoute edges).entries.foldl (addRoute nodes fields assignments config) {}).nodeAt
        endpoint dir = some gid ↔
      ∃ route legs, (route, legs) ∈ (schemasByRoute edges).entries ∧
        ReadableRoute nodes edges assignments config endpoint route dir ∧
        (∀ later dir', ReadableRoute nodes edges assignments config endpoint later dir' →
          later ≤ route) ∧ (legs.foldl addNode ∅).get? dir = some gid := by
  unfold EndpointSchemas.nodeAt
  rw [schemaNode_foldl_addRoute]
  constructor
  · intro found
    obtain ⟨nodeMap, taken, kept⟩ := Option.bind_eq_some_iff.mp found
    obtain ⟨⟨route, legs⟩, last, rfl⟩ := Option.map_eq_some_iff.mp taken
    obtain ⟨member, ⟨_, keyed, _⟩, most⟩ := last_route.mp last
    exact ⟨route, legs, member,
      readableRoute_iff.mpr ⟨legs, member, keyed, Option.isSome_iff_exists.mpr ⟨gid, kept⟩⟩, most,
      kept⟩
  · rintro ⟨route, legs, member, readable, most, kept⟩
    rw [last_route.mpr ⟨member, ⟨dir, readable⟩, most⟩]
    exact kept

theorem nodeAt_addDeclared {out : EndpointSchemas} {decl : SchemaDecl} {gid : GlobalId} :
    (addDeclared nodes (fieldsBySchema nodes edges) assignments config out decl).nodeAt endpoint
        dir = some gid →
      out.nodeAt endpoint dir = some gid ∨ dir = .payload ∧ ∃ found,
        declaredSchema nodes (fieldsBySchema nodes edges) assignments config decl =
          some (endpoint, found, gid) := by
  unfold addDeclared
  cases declared : declaredSchema nodes (fieldsBySchema nodes edges) assignments config decl with
  | none => exact .inl
  | some entry =>
    obtain ⟨own, found, new⟩ := entry
    unfold EndpointSchemas.nodeAt
    dsimp only
    rw [SortedMap.get?_alter]
    by_cases same : endpoint = own
    · subst same
      rw [if_pos rfl, Option.bind_some, SortedMap.get?_insert]
      by_cases payload : dir = .payload
      · rw [if_pos payload]
        intro equal
        obtain rfl := Option.some.inj equal
        exact .inr ⟨payload, found, rfl⟩
      · rw [if_neg payload]
        cases out.schemaNode.get? endpoint with
        | none => exact fun absurd => (by cases absurd)
        | some nodeMap => exact .inl
    · rw [if_neg same]
      exact .inl

theorem nodeAt_addDeclared_isSome {out : EndpointSchemas} {decl : SchemaDecl}
    (before : (out.nodeAt endpoint dir).isSome = true ∨ dir = .payload ∧ ∃ found gid,
      declaredSchema nodes (fieldsBySchema nodes edges) assignments config decl =
        some (endpoint, found, gid)) :
    ((addDeclared nodes (fieldsBySchema nodes edges) assignments config out decl).nodeAt endpoint
      dir).isSome = true := by
  unfold addDeclared
  cases declared : declaredSchema nodes (fieldsBySchema nodes edges) assignments config decl with
  | none =>
    obtain old | ⟨_, found, gid, new⟩ := before
    · exact old
    · rw [declared] at new
      cases new
  | some entry =>
    obtain ⟨own, found, new⟩ := entry
    unfold EndpointSchemas.nodeAt at before ⊢
    dsimp only
    rw [SortedMap.get?_alter]
    by_cases same : endpoint = own
    · subst same
      rw [if_pos rfl, Option.bind_some, SortedMap.get?_insert]
      by_cases payload : dir = .payload
      · rw [if_pos payload]
        rfl
      · rw [if_neg payload]
        obtain old | ⟨isPayload, _⟩ := before
        · cases nodeMap : out.schemaNode.get? endpoint with
          | none => simp [nodeMap] at old
          | some nodeMap' =>
            rw [nodeMap] at old
            exact old
        · exact absurd isPayload payload
    · rw [if_neg same]
      obtain old | ⟨_, _, _, new⟩ := before
      · exact old
      · rw [declared] at new
        exact absurd (Prod.ext_iff.mp (Option.some.inj new)).1.symm same

theorem declaredLands_of_schema {decl : SchemaDecl} {found : List ResponseField} {gid : GlobalId}
    (member : decl ∈ config.schemas)
    (declared : declaredSchema nodes (fieldsBySchema nodes edges) assignments config decl =
      some (endpoint, found, gid)) :
    DeclaredLands nodes assignments config endpoint gid ∧ ∃ f, FieldOf nodes edges gid f := by
  obtain ⟨schemaNode, svc, topicNode, picked, listed, parsed, lands⟩ :=
    declaredSchema_eq_some.mp declared
  obtain rfl := GlobalId.parse_eq_some parsed
  exact ⟨⟨decl, member, schemaNode, svc, topicNode, picked, rfl, by rw [parsed]; rfl, lands⟩,
    exists_fieldsBySchema listed⟩

theorem schema_of_declaredLands {schema : String} {f : ResponseField}
    (lands : DeclaredLands nodes assignments config endpoint schema)
    (field : FieldOf nodes edges schema f) :
    ∃ decl ∈ config.schemas, ∃ found gid,
      declaredSchema nodes (fieldsBySchema nodes edges) assignments config decl =
        some (endpoint, found, gid) := by
  obtain ⟨decl, member, schemaNode, svc, topicNode, picked, rfl, readable, keyed⟩ := lands
  obtain ⟨gid, parsed⟩ := Option.isSome_iff_exists.mp readable
  have inside := mem_fieldsBySchema.mpr field
  cases listed : (fieldsBySchema nodes edges).get? schemaNode.id with
  | none =>
    rw [listed] at inside
    cases inside
  | some found =>
    exact ⟨decl, member, found, gid, declaredSchema_eq_some.mpr
      ⟨schemaNode, svc, topicNode, picked, listed, parsed, keyed⟩⟩

theorem lands_of_nodeAt {gid : GlobalId}
    (recorded : (collectEndpointSchemas nodes edges assignments config).nodeAt endpoint dir =
      some gid) : Lands nodes edges assignments config endpoint dir gid := by
  have routes : ∀ gid, ((schemasByRoute edges).entries.foldl
      (addRoute nodes (fieldsBySchema nodes edges) assignments config) {}).nodeAt endpoint dir =
        some gid → Lands nodes edges assignments config endpoint dir gid := by
    intro gid found
    obtain ⟨route, legs, member, readable, _, kept⟩ := nodeAt_routes.mp found
    exact .inl ⟨route, readable.1, exists_schemasByRoute.mp ⟨legs, member,
      mem_of_get?_addNode kept⟩⟩
  unfold collectEndpointSchemas at recorded
  dsimp only at recorded
  refine List.foldlRecOn (motive := fun out : EndpointSchemas => ∀ gid,
    out.nodeAt endpoint dir = some gid → Lands nodes edges assignments config endpoint dir gid)
    config.schemas _ routes (fun out lands decl member gid found => ?_) gid recorded
  obtain before | ⟨payload, fields, declared⟩ := nodeAt_addDeclared found
  · exact lands gid before
  · exact .inr ⟨payload, (declaredLands_of_schema member declared).1⟩

theorem nodeAt_isSome_iff :
    ((collectEndpointSchemas nodes edges assignments config).nodeAt endpoint dir).isSome = true ↔
      (dir = .payload ∧ ∃ other f, DeclaredLands nodes assignments config endpoint other ∧
        FieldOf nodes edges other f) ∨
      ∃ route, ReadableRoute nodes edges assignments config endpoint route dir ∧
        ∀ later dir', ReadableRoute nodes edges assignments config endpoint later dir' →
          later ≤ route := by
  have routes : (((schemasByRoute edges).entries.foldl
      (addRoute nodes (fieldsBySchema nodes edges) assignments config) {}).nodeAt endpoint
        dir).isSome = true ↔
      ∃ route, ReadableRoute nodes edges assignments config endpoint route dir ∧
        ∀ later dir', ReadableRoute nodes edges assignments config endpoint later dir' →
          later ≤ route := by
    rw [Option.isSome_iff_exists]
    constructor
    · rintro ⟨gid, found⟩
      obtain ⟨route, _, _, readable, most, _⟩ := nodeAt_routes.mp found
      exact ⟨route, readable, most⟩
    · rintro ⟨route, readable, most⟩
      obtain ⟨legs, member, _, kept⟩ := readableRoute_iff.mp readable
      obtain ⟨gid, found⟩ := Option.isSome_iff_exists.mp kept
      exact ⟨gid, nodeAt_routes.mpr ⟨route, legs, member, readable, most, found⟩⟩
  have decls : ∀ (l : List SchemaDecl) (out : EndpointSchemas),
      ((l.foldl (addDeclared nodes (fieldsBySchema nodes edges) assignments config) out).nodeAt
        endpoint dir).isSome = true ↔
      (dir = .payload ∧ ∃ decl ∈ l, ∃ found gid, declaredSchema nodes
        (fieldsBySchema nodes edges) assignments config decl = some (endpoint, found, gid)) ∨
      (out.nodeAt endpoint dir).isSome = true := by
    intro l
    induction l with
    | nil => simp
    | cons decl rest ih =>
      intro out
      rw [List.foldl_cons, ih]
      constructor
      · rintro (⟨payload, other, member, declared⟩ | recorded)
        · exact .inl ⟨payload, other, List.mem_cons_of_mem _ member, declared⟩
        · obtain ⟨gid, found⟩ := Option.isSome_iff_exists.mp recorded
          obtain before | ⟨payload, fields, declared⟩ := nodeAt_addDeclared found
          · exact .inr (Option.isSome_iff_exists.mpr ⟨gid, before⟩)
          · exact .inl ⟨payload, decl, List.mem_cons_self, fields, gid, declared⟩
      · rintro (⟨payload, other, member, declared⟩ | recorded)
        · obtain rfl | later := List.mem_cons.mp member
          · exact .inr (nodeAt_addDeclared_isSome (.inr ⟨payload, declared⟩))
          · exact .inl ⟨payload, other, later, declared⟩
        · exact .inr (nodeAt_addDeclared_isSome (.inl recorded))
  unfold collectEndpointSchemas
  dsimp only
  rw [decls, routes]
  refine or_congr_left (and_congr_right fun _ => ?_)
  constructor
  · rintro ⟨decl, member, found, gid, declared⟩
    obtain ⟨lands, f, field⟩ := declaredLands_of_schema member declared
    exact ⟨gid, f, lands, field⟩
  · rintro ⟨other, f, lands, field⟩
    exact schema_of_declaredLands lands field

theorem mem_of_declaredNodes {decl : SchemaDecl} {schemaNode topicNode : GraphNode}
    {svc : ServiceName}
    (picked : declaredNodes nodes assignments config decl = some (schemaNode, svc, topicNode)) :
    schemaNode ∈ nodes ∧ topicNode ∈ nodes := by
  unfold declaredNodes at picked
  obtain ⟨schemaNode', chosen, picked⟩ := Option.bind_eq_some_iff.mp picked
  obtain ⟨_, _, picked⟩ := Option.bind_eq_some_iff.mp picked
  split at picked
  · obtain ⟨topic, found, same⟩ := Option.map_eq_some_iff.mp picked
    obtain ⟨rfl, _, rfl⟩ : schemaNode' = schemaNode ∧ _ ∧ topic = topicNode := by
      simpa using same
    unfold pickTopicNode at found
    refine ⟨(List.mem_filter.mp (List.argmin_mem chosen)).1, ?_⟩
    obtain first | ⟨_, second⟩ := Option.or_eq_some_iff.mp found
    · exact (List.mem_filter.mp (List.argmin_mem first)).1
    · exact (List.mem_filter.mp (List.argmin_mem second)).1
  · cases picked

theorem Belongs.listed {schema : String}
    (belongs : Belongs nodes edges assignments config endpoint dir schema) :
    ((buildEndpoints nodes assignments config).get? endpoint).isSome = true := by
  have table : ∀ node ∈ nodes, endpoint ∈ recordEndpoints assignments config node →
      ((buildEndpoints nodes assignments config).get? endpoint).isSome = true := by
    intro node here own
    obtain ⟨entry, member, rfl⟩ := List.mem_map.mp own
    exact (SortedMap.isSome_group _ _).mpr ⟨entry,
      List.mem_append_left _ (List.mem_flatMap.mpr ⟨node, here, member⟩), rfl⟩
  obtain ⟨node, here, own, _⟩ | ⟨_, decl, _, schemaNode, svc, topicNode, picked, _, own⟩ := belongs
  · exact table node here own
  · exact table topicNode (mem_of_declaredNodes picked).2 own

end Recorded

/-! ### Plain providers -/

/-- **When the schemas land on existing endpoints.** They do exactly when each field of a schema
that strays or is missed is there by another schema too, and the schema nodes of each endpoint with
fields are recorded by a declaration or by the last of its routes. -/
theorem schemasLand_iff (nodes : List GraphNode) (edges : List GraphEdge)
    (assignments : SortedMap String ServiceName) (config : ContractFederationConfig) :
    SchemasLand nodes edges assignments config ↔
      LandsWhereItBelongs nodes edges assignments config := by
  have filled : ∀ endpoint dir,
      (collectEndpointSchemas nodes edges assignments config).fieldsAt endpoint dir ≠ [] ↔
        ∃ schema f, Lands nodes edges assignments config endpoint dir schema ∧
          FieldOf nodes edges schema f := by
    intro endpoint dir
    constructor
    · intro some
      obtain ⟨f, member⟩ := List.exists_mem_of_ne_nil _ some
      obtain ⟨schema, lands, field⟩ := mem_fieldsAt_collected.mp member
      exact ⟨schema, f, lands, field⟩
    · rintro ⟨schema, f, lands, field⟩
      exact List.ne_nil_of_mem (mem_fieldsAt_collected.mpr ⟨schema, lands, field⟩)
  constructor
  · intro land
    refine ⟨fun endpoint dir schema f lands _ field => ?_,
      fun endpoint dir schema f belongs _ field => ?_, fun endpoint dir schema f lands field => ?_⟩
    · exact (land.exact endpoint dir f).mp (mem_fieldsAt_collected.mpr ⟨schema, lands, field⟩)
    · exact mem_fieldsAt_collected.mp ((land.exact endpoint dir f).mpr ⟨schema, belongs, field⟩)
    · obtain ⟨gid, recorded, _⟩ := land.recorded endpoint dir
        ((filled endpoint dir).mpr ⟨schema, f, lands, field⟩)
      exact nodeAt_isSome_iff.mp (Option.isSome_iff_exists.mpr ⟨gid, recorded⟩)
  · intro condition
    have exact : ∀ endpoint dir f,
        f ∈ (collectEndpointSchemas nodes edges assignments config).fieldsAt endpoint dir ↔
          ∃ schema, Belongs nodes edges assignments config endpoint dir schema ∧
            FieldOf nodes edges schema f := by
      intro endpoint dir f
      rw [mem_fieldsAt_collected]
      constructor
      · rintro ⟨schema, lands, field⟩
        by_cases belongs : Belongs nodes edges assignments config endpoint dir schema
        · exact ⟨schema, belongs, field⟩
        · exact condition.strayed endpoint dir schema f lands belongs field
      · rintro ⟨schema, belongs, field⟩
        by_cases lands : Lands nodes edges assignments config endpoint dir schema
        · exact ⟨schema, lands, field⟩
        · exact condition.missed endpoint dir schema f belongs lands field
    refine ⟨fun endpoint dir some => ?_, exact, fun endpoint dir some => ?_⟩
    · obtain ⟨f, member⟩ := List.exists_mem_of_ne_nil _ some
      obtain ⟨schema, belongs, _⟩ := (exact endpoint dir f).mp member
      exact belongs.listed
    · obtain ⟨schema, f, lands, field⟩ := (filled endpoint dir).mp some
      obtain ⟨gid, recorded⟩ := Option.isSome_iff_exists.mp
        (nodeAt_isSome_iff.mpr (condition.last endpoint dir schema f lands field))
      exact ⟨gid, recorded, lands_of_nodeAt recorded⟩

def numberField (id name : String) : GraphNode :=
  { id := id, nodeType := .field, name := name, path := "app.py", repoId := some "shop",
    contract := [.field ⟨.number, true, false, none⟩] }

def schemaNodeOf (id : String) (direction : Direction) : GraphNode :=
  { id := id, nodeType := .schema, name := id, path := "app.py", repoId := some "shop",
    contract := [.schema direction] }

def routeNodeOf (id : String) : GraphNode :=
  { id := id, nodeType := .httpRoute, name := id, path := "app.py", repoId := some "shop",
    contract := [.provider ⟨.post, "/orders", none, none, .code⟩] }

def describedTwice : List GraphNode × List GraphEdge :=
  ([routeNodeOf "shop:HttpRoute:app.py:a:0", routeNodeOf "shop:HttpRoute:app.py:b:0",
    schemaNodeOf "shop:Schema:app.py:in:0" .request,
    schemaNodeOf "shop:Schema:app.py:out:0" .response,
    numberField "shop:Field:app.py:total:0" "total", numberField "shop:Field:app.py:id:0" "id"],
   [{ edgeType := .requestSchema, sourceId := "shop:HttpRoute:app.py:a:0",
      targetId := "shop:Schema:app.py:in:0" },
    { edgeType := .responseSchema, sourceId := "shop:HttpRoute:app.py:b:0",
      targetId := "shop:Schema:app.py:out:0" },
    { edgeType := .hasField, sourceId := "shop:Schema:app.py:in:0",
      targetId := "shop:Field:app.py:total:0" },
    { edgeType := .hasField, sourceId := "shop:Schema:app.py:out:0",
      targetId := "shop:Field:app.py:id:0" }])

def copiedSchema : List GraphNode × List GraphEdge :=
  ([{ id := "shop:HttpRoute:schema.graphql:orders:0", nodeType := .httpRoute, name := "orders",
      path := "schema.graphql", repoId := some "shop",
      contract := [.graphqlProvider ⟨.query, "orders", "Order"⟩] },
    schemaNodeOf "shop:Schema:app.py:out:0" .response,
    numberField "shop:Field:app.py:id:0" "id"],
   [{ edgeType := .responseSchema, sourceId := "shop:HttpRoute:schema.graphql:orders:0",
      targetId := "shop:Schema:app.py:out:0" },
    { edgeType := .hasField, sourceId := "shop:Schema:app.py:out:0",
      targetId := "shop:Field:app.py:id:0" }])

def copyingService : ContractFederationConfig where
  services := [{ name := "api", repo := "shop", providesGraphql := false }]

/-- **The schemas do not always land on existing endpoints**: those of a GraphQL operation that is
not provided land on none, and of two routes of an endpoint only the last one's schema nodes are
recorded. -/
theorem schemas_astray :
    copyingService.validate Char.isAlphanum ["shop"] = .ok () ∧
      ∀ input ∈ [describedTwice, copiedSchema], ¬SchemasLand input.1 input.2
        (assignServices input.1 copyingService) copyingService := by
  refine ⟨by decide +kernel, ?_⟩
  intro input member land
  simp only [List.mem_cons, List.not_mem_nil, or_false] at member
  obtain rfl | rfl := member
  · obtain ⟨gid, recorded, _⟩ := land.recorded ⟨"api", .http (.known .post) "/orders"⟩ .request
      (by decide +kernel)
    have none : (collectEndpointSchemas describedTwice.1 describedTwice.2
        (assignServices describedTwice.1 copyingService) copyingService).nodeAt
          ⟨"api", .http (.known .post) "/orders"⟩ .request = none := by decide +kernel
    rw [none] at recorded
    cases recorded
  · have listed := land.listed ⟨"api", .graphql .query "orders"⟩ .response (by decide +kernel)
    exact absurd listed (by decide +kernel)

end Lain.Joiner
