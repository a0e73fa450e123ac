import Mathlib
import Lain.Joiner.Verdicts

/-!
# The certainty of a field bind

A read of a response is capped by the bind of its call.
-/

namespace Lain.Joiner

open Foundation Contracts Federation

/-! ### Capping -/

theorem isHeuristic_capFieldBind (read : EdgeProvenance) (endpoint : EndpointBindInfo) :
    isHeuristic (capFieldBind read endpoint).1 =
      (isHeuristic read || isHeuristic endpoint.provenance) := by
  unfold capFieldBind
  dsimp only
  split_ifs with both weaker weak
  · rw [(Bool.and_eq_true_iff.mp both).1, Bool.true_or]
  · rw [(Bool.and_eq_true_iff.mp both).2, Bool.or_true]
  · rw [weak, Bool.or_true]
  · rw [Bool.eq_false_of_not_eq_true weak, Bool.or_false]

namespace JoinInput

variable {input : JoinInput} {call : String} {endpoint : EndpointId}

theorem isHeuristic_matchProvenance (read : FieldReadFact) :
    provConfidence (input.matchProvenance read endpoint) ≤ 1 ∧
      (isHeuristic (input.matchProvenance read endpoint) = true ↔
        provConfidence (input.matchProvenance read endpoint) < 1) := by
  unfold matchProvenance matchFields
  split
  · unfold readProvenance
    split_ifs <;> norm_num [provConfidence, isHeuristic]
  · split <;> norm_num [provConfidence, isHeuristic]

/-! ### The binds of a call -/

def callBinds (input : JoinInput) (call : String) (endpoint : EndpointId) : List BindsEdge :=
  input.verdicts.binds.filter fun b => decide (b.consumer = call ∧ b.targetEndpoint = endpoint)

def Survives (input : JoinInput) (b : BindsEdge) : Prop :=
  ((input.confirmations.map input.edgeOf).find? fun c => decide (bindPair c = bindPair b)).or
    (input.tierBinds.find? fun c => decide (bindPair c = bindPair b)) = some b

theorem isHeuristic_verdicts {b : BindsEdge} (member : b ∈ input.verdicts.binds) :
    isHeuristic b.provenance = true ↔ b.confidence < 1 := by
  rw [binds_verdicts] at member
  rcases List.mem_append.mp member with tier | confirmed
  · obtain ⟨site, _, r, verdict, emitted⟩ := mem_tierBinds.mp tier
    obtain ⟨callId, _, ofTiers⟩ := ofTiers_of_tierVerdict verdict
    exact (ofTiers.binds b emitted).heuristic
  · obtain ⟨c, _, rfl⟩ := List.mem_map.mp confirmed
    norm_num [edgeOf, CheckedBinding.edge, isHeuristic]

/-- **A bind of a call is in the output exactly when the merge keeps it.** -/
theorem mem_run_binds_iff_survives {b : BindsEdge} (member : b ∈ input.verdicts.binds) :
    b ∈ input.run.binds ↔ input.Survives b := by
  rw [mem_run_binds, Survives, ← Option.or_assoc]
  have some_ : (((input.confirmations.map input.edgeOf).find? fun c =>
      decide (bindPair c = bindPair b)).or
        (input.tierBinds.find? fun c => decide (bindPair c = bindPair b))).isSome = true := by
    rw [Option.isSome_or, Bool.or_eq_true, List.find?_isSome, List.find?_isSome]
    rw [binds_verdicts] at member
    rcases List.mem_append.mp member with tier | confirmed
    · exact .inr ⟨b, tier, decide_eq_true rfl⟩
    · exact .inl ⟨b, confirmed, decide_eq_true rfl⟩
  obtain ⟨first, found⟩ := Option.isSome_iff_exists.mp some_
  rw [found, Option.some_or]

theorem get?_getD_empty {endpoints : Option (SortedMap EndpointId EndpointBindInfo)} :
    (endpoints.getD ∅).get? endpoint = endpoints.bind fun endpoints => endpoints.get? endpoint := by
  cases endpoints <;> rfl

theorem some_weaker (info : EndpointBindInfo) (entry : Option EndpointBindInfo) :
    some (info.weaker entry) = List.argAux (fun b c => b.rank < c.rank) entry info := by
  cases entry with
  | none => rfl
  | some entry =>
    unfold EndpointBindInfo.weaker List.argAux
    dsimp only
    split_ifs <;> rfl

theorem callEndpoints_fold {binds : List BindsEdge}
    {out : SortedMap String (SortedMap EndpointId EndpointBindInfo)} :
    (((binds.foldl
        (fun out b => out.alter b.consumer fun endpoints =>
          (endpoints.getD ∅).alter b.targetEndpoint (EndpointBindInfo.of b).weaker)
        out).get? call).bind fun endpoints => endpoints.get? endpoint) =
      ((binds.filter fun b => decide (b.consumer = call ∧ b.targetEndpoint = endpoint)).map
          EndpointBindInfo.of).foldl
        (List.argAux fun b c => b.rank < c.rank)
        ((out.get? call).bind fun endpoints => endpoints.get? endpoint) := by
  induction binds generalizing out with
  | nil => rfl
  | cons b rest ih =>
    rw [List.foldl_cons, ih, List.filter_cons, SortedMap.get?_alter]
    by_cases caller : b.consumer = call
    · subst caller
      rw [if_pos rfl, Option.bind_some, SortedMap.get?_alter]
      by_cases target : b.targetEndpoint = endpoint
      · subst target
        rw [if_pos rfl, if_pos (decide_eq_true ⟨rfl, rfl⟩), List.map_cons, List.foldl_cons,
          some_weaker, get?_getD_empty]
      · rw [if_neg fun same => target same.symm,
          if_neg fun both => target (of_decide_eq_true both).2, get?_getD_empty]
    · rw [if_neg fun same => caller same.symm,
        if_neg fun both => caller (of_decide_eq_true both).1]

/-- **The cap of the reads of a call**: the weakest of its binds to the endpoint. -/
theorem callBind_eq : input.callBind call endpoint =
    ((input.callBinds call endpoint).map EndpointBindInfo.of).argmin EndpointBindInfo.rank := by
  unfold callBind callEndpoints callBinds
  rw [callEndpoints_fold]
  rfl

theorem of_callBind {info : EndpointBindInfo} (bound : input.callBind call endpoint = some info) :
    (∃ b ∈ input.callBinds call endpoint, info = EndpointBindInfo.of b) ∧
      ∀ b ∈ input.callBinds call endpoint, info.confidence ≤ b.confidence := by
  rw [callBind_eq] at bound
  constructor
  · obtain ⟨b, member, rfl⟩ := List.mem_map.mp (List.argmin_mem bound)
    exact ⟨b, member, rfl⟩
  · intro b member
    have least : info.rank ≤ (EndpointBindInfo.of b).rank :=
      List.le_of_mem_argmin (List.mem_map_of_mem member) bound
    rcases Prod.Lex.le_iff.mp least with below | ⟨same, _⟩
    · exact below.le
    · exact same.le

/-! ### The reads of a call -/

structure IsFieldBind (input : JoinInput) (edge : BindsEdge) (call : String)
    (endpoint : EndpointId) (matched : EdgeProvenance) : Prop where
  kept : edge ∈ input.run.binds
  joins : ∃ fieldRef read field info,
    input.JoinsField fieldRef read call endpoint field ∧
      input.callBind call endpoint = some info ∧
        matched = input.matchProvenance read endpoint ∧
          edge = fieldBind fieldRef endpoint info matched field

structure CappedBy (edge : BindsEdge) (matched : EdgeProvenance) (b : BindsEdge) : Prop where
  confidence : edge.confidence = min (provConfidence matched) b.confidence
  heuristic : isHeuristic edge.provenance = true ↔
    isHeuristic matched = true ∨ isHeuristic b.provenance = true

/-- Every field bind of the output is as certain as its match and the bind of its call in the
same output. -/
def CapsReads (input : JoinInput) : Prop :=
  ∀ edge call endpoint matched, input.IsFieldBind edge call endpoint matched →
    (∃ b ∈ input.callBinds call endpoint, b ∈ input.run.binds) ∧
      ∀ b ∈ input.callBinds call endpoint, b ∈ input.run.binds → CappedBy edge matched b

/-- For every read the output joins, the merge keeps a bind of its call, and drops none that is
weaker than both the match and a bind it keeps. -/
def MergeKeepsWeakest (input : JoinInput) : Prop :=
  ∀ edge call endpoint matched, input.IsFieldBind edge call endpoint matched →
    (∃ b ∈ input.callBinds call endpoint, input.Survives b) ∧
      ∀ b ∈ input.callBinds call endpoint, input.Survives b →
        ∀ other ∈ input.callBinds call endpoint,
          min (provConfidence matched) b.confidence ≤ other.confidence

/-- **Field binds are as certain as their calls** exactly when the merge drops no weaker bind of
a call. -/
theorem capsReads_iff : input.CapsReads ↔ input.MergeKeepsWeakest := by
  have inVerdicts : ∀ {call endpoint b}, b ∈ input.callBinds call endpoint →
      b ∈ input.verdicts.binds := fun member => (List.mem_filter.mp member).1
  constructor
  · intro caps edge call endpoint matched isField
    obtain ⟨⟨b, member, kept⟩, capped⟩ := caps edge call endpoint matched isField
    refine ⟨⟨b, member, (mem_run_binds_iff_survives (inVerdicts member)).mp kept⟩, ?_⟩
    intro b member survives other listed
    have cap := capped b member ((mem_run_binds_iff_survives (inVerdicts member)).mpr survives)
    obtain ⟨fieldRef, read, field, info, _, bound, _, rfl⟩ := isField.joins
    calc min (provConfidence matched) b.confidence
        = (fieldBind fieldRef endpoint info matched field).confidence := cap.confidence.symm
      _ ≤ info.confidence := min_le_right _ _
      _ ≤ other.confidence := (of_callBind bound).2 other listed
  · intro keeps edge call endpoint matched isField
    obtain ⟨⟨b, member, survives⟩, weakest⟩ := keeps edge call endpoint matched isField
    refine ⟨⟨b, member, (mem_run_binds_iff_survives (inVerdicts member)).mpr survives⟩, ?_⟩
    intro b member kept
    have survives := (mem_run_binds_iff_survives (inVerdicts member)).mp kept
    obtain ⟨fieldRef, read, field, info, _, bound, same, rfl⟩ := isField.joins
    obtain ⟨⟨least, listed, rfl⟩, below⟩ := of_callBind bound
    have equal : min (provConfidence matched) least.confidence =
        min (provConfidence matched) b.confidence :=
      le_antisymm (min_le_min_left _ (below b member))
        (le_min (min_le_left _ _) (weakest b member survives least listed))
    refine ⟨equal, ?_⟩
    have certain := (@isHeuristic_matchProvenance input endpoint read).2
    rw [← same] at certain
    -- Below one exactly when the match or the bind is, on both sides.
    calc isHeuristic (capFieldBind matched (EndpointBindInfo.of least)).1 = true
        ↔ isHeuristic matched = true ∨ isHeuristic least.provenance = true := by
          rw [isHeuristic_capFieldBind, Bool.or_eq_true]
          rfl
      _ ↔ min (provConfidence matched) least.confidence < 1 := by
          rw [min_lt_iff, certain, isHeuristic_verdicts (inVerdicts listed)]
      _ ↔ isHeuristic matched = true ∨ isHeuristic b.provenance = true := by
          rw [equal, min_lt_iff, certain, isHeuristic_verdicts (inVerdicts member)]

/-! ### A call that is also confirmed -/

def confirmedRead : JoinInput where
  nodes :=
    [{ id := "orders:HttpRoute:api.rs:list:1"
       nodeType := .httpRoute
       name := "list"
       path := "api.rs"
       contract := [.provider ⟨.get, "/orders", none, none, .code⟩] },
     { id := "orders:Schema:api.rs:Order:9", nodeType := .schema, name := "Order", path := "api.rs" },
     { id := "orders:Field:api.rs:total:10"
       nodeType := .field
       name := "total"
       path := "api.rs"
       contract := [.field ⟨.integer, true, false, none⟩] },
     { id := "web:HttpClientCall:app.ts:load:3"
       nodeType := .httpClientCall
       name := "load"
       path := "app.ts"
       contract :=
         [.consumer ⟨.known .get, ⟨.none, some "/orders"⟩, .library "fetch", "/orders", true⟩] },
     { id := "web:FieldRef:app.ts:total:4"
       nodeType := .fieldRef
       name := "total"
       path := "app.ts"
       contract := [.fieldRead ⟨[.name "total"], true, .fieldAccess⟩] }]
  edges :=
    [{ sourceId := "orders:HttpRoute:api.rs:list:1"
       targetId := "orders:Schema:api.rs:Order:9"
       edgeType := .responseSchema },
     { sourceId := "orders:Schema:api.rs:Order:9"
       targetId := "orders:Field:api.rs:total:10"
       edgeType := .hasField },
     { sourceId := "web:FieldRef:app.ts:total:4"
       targetId := "web:HttpClientCall:app.ts:load:3"
       edgeType := .readsFrom }]
  config :=
    { bindings :=
        [{ consumer := { repo := "web", path := "app.ts", symbol := "load", key := "GET /orders" }
           provider := ⟨"orders", "GET /orders"⟩ }] }

def confirmedEndpoint : EndpointId := ⟨"orders", .http (.known .get) "/orders"⟩

/-- The confirmed bind is certain, and the bind of the read below it stays capped by the bind the
confirmed one takes the place of. -/
theorem not_capsReads_confirmedRead : ¬ confirmedRead.CapsReads := by
  intro caps
  have weak : ∃ edge ∈ confirmedRead.run.binds, edge ∈ confirmedRead.fieldRefs.2 ∧
      isHeuristic edge.provenance = true ∧ edge.targetEndpoint = confirmedEndpoint ∧
        (readsFrom confirmedRead.edges).get? edge.consumer =
          some "web:HttpClientCall:app.ts:load:3" := by
    decide +kernel
  have sure : ∃ b ∈ confirmedRead.callBinds "web:HttpClientCall:app.ts:load:3" confirmedEndpoint,
      b ∈ confirmedRead.run.binds ∧ isHeuristic b.provenance = false := by
    decide +kernel
  have exactly : ∀ node ∈ confirmedRead.nodes, ∀ entry ∈ fieldRead? node,
      isHeuristic (confirmedRead.matchProvenance entry.2 confirmedEndpoint) = false := by
    decide +kernel
  obtain ⟨edge, kept, joined, heuristic, target, from_⟩ := weak
  obtain ⟨b, listed, survives, certain⟩ := sure
  obtain ⟨fieldRef, read, call, endpoint, field, info, joins, bound, rfl⟩ := mem_fieldRefs.mp joined
  obtain rfl : endpoint = confirmedEndpoint := target
  obtain rfl : call = "web:HttpClientCall:app.ts:load:3" :=
    Option.some.inj (joins.reads.symm.trans from_)
  have cap := (caps _ _ _ _ ⟨kept, fieldRef, read, field, info, joins, bound, rfl, rfl⟩).2
    b listed survives
  obtain ⟨node, here, reads⟩ := joins.node
  rcases cap.heuristic.mp heuristic with matched | called
  · rw [exactly node here _ reads] at matched
    cases matched
  · rw [certain] at called
    cases called

end JoinInput

end Lain.Joiner
