import Mathlib
import Lain.Foundation.Runs
import Lain.Foundation.SortedMap
import Lain.Foundation.StableSort
import Lain.Schema

/-!
# Runtime edges of traces

A batch of spans is turned into edges from the node of a parent span to the node of its child.
-/

namespace Lain.Server

open Foundation

inductive SpanKind where
  | internal | server | client | producer | consumer
  deriving DecidableEq, Repr

inductive AttributeValue where
  | str (value : String)
  | bool (value : Bool)
  | i64 (value : Int)
  | f64 (bits : Nat)
  deriving DecidableEq, Repr

structure SpanRecord where
  traceId : String
  spanId : String
  parentSpanId : Option String
  name : String := ""
  kind : SpanKind := .internal
  attributes : List (String × AttributeValue) := []
  endUnix : Int := 0
  deriving DecidableEq, Repr

abbrev TraceKey := String ×ₗ String ×ₗ String

structure RuntimeEdge where
  edge : GraphEdge
  traceId : String
  lastSeenUnix : Int
  deriving DecidableEq

abbrev TraceEdges := SortedMap TraceKey RuntimeEdge

abbrev Resolver := SpanRecord → Option String

def spanIds (spans : List SpanRecord) : SortedMap String SpanRecord :=
  spans.foldl (fun out s => out.insert s.spanId s) ∅

def edgeToMint (spans : List SpanRecord) (resolve : Resolver) (s : SpanRecord) :
    Option (String × String × SpanRecord) := do
  let calleeId ← resolve s
  let parentId ← s.parentSpanId
  let parent ← (spanIds spans).get? parentId
  let callerId ← resolve parent
  if callerId = calleeId then none else some (callerId, calleeId, s)

def edgesToMint (spans : List SpanRecord) (resolve : Resolver) :
    List (String × String × SpanRecord) :=
  spans.filterMap (edgeToMint spans resolve)

def mintKey (minted : String × String × SpanRecord) : TraceKey :=
  toLex (minted.2.2.traceId, toLex (minted.1, minted.2.1))

def runtimeEdge (now : Int) (key : TraceKey) : RuntimeEdge where
  edge :=
    { edgeType := .runtimeCall
      sourceId := (ofLex (ofLex key).2).1
      targetId := (ofLex (ofLex key).2).2
      weight := none
      crossRepo := false
      provenance := some (.runtime (ofLex key).1 now)
      site := none
      detail := none }
  traceId := (ofLex key).1
  lastSeenUnix := now

namespace TraceEdges

def put (now : Int) (state : TraceEdges × Nat) (key : TraceKey) : TraceEdges × Nat :=
  (state.1.insert key (runtimeEdge now key),
    if (state.1.get? key).isNone then state.2 + 1 else state.2)

def putAll (now : Int) (edges : TraceEdges) (keys : List TraceKey) : TraceEdges × Nat :=
  keys.foldl (put now) (edges, 0)

/-- Drop the edges seen longest ago above a capacity; `iteration` is the order in which the map
happens to give its entries. -/
def evict (maxEdges : Nat) (iteration : List (TraceKey × RuntimeEdge)) (edges : TraceEdges) :
    TraceEdges :=
  ((sortByKey (fun entry : TraceKey × RuntimeEdge => entry.2.lastSeenUnix) iteration).take
    (edges.entries.length - maxEdges)).foldl (fun out entry => out.erase entry.1) edges

end TraceEdges

/-- A call of `ingest`: its batch, its resolver, the time, and the order in which each map gives
its entries. -/
structure Ingest where
  spans : List SpanRecord
  resolve : Resolver
  now : Int
  iterate : TraceEdges → List (TraceKey × RuntimeEdge)
  iterates : ∀ edges, (iterate edges).Perm edges.entries

namespace Ingest

/-- The keys of the edges of the batch. -/
def keys (batch : Ingest) : List TraceKey :=
  (edgesToMint batch.spans batch.resolve).map mintKey

def inserted (batch : Ingest) (edges : TraceEdges) : TraceEdges × Nat :=
  edges.putAll batch.now batch.keys

/-- The edges after the batch. -/
def apply (maxEdges : Nat) (batch : Ingest) (edges : TraceEdges) : TraceEdges :=
  (batch.inserted edges).1.evict maxEdges (batch.iterate (batch.inserted edges).1)

/-- The number of edges the call returns. -/
def count (batch : Ingest) (edges : TraceEdges) : Nat :=
  (batch.inserted edges).2

/-- A key comes from a span and its parent in one trace of the batch. -/
def Derives (batch : Ingest) (key : TraceKey) : Prop :=
  ∃ parent ∈ batch.spans, ∃ child ∈ batch.spans,
    child.parentSpanId = some parent.spanId ∧ parent.traceId = child.traceId ∧
      ∃ caller callee, batch.resolve parent = some caller ∧ batch.resolve child = some callee ∧
        key = toLex (child.traceId, toLex (caller, callee))

structure Links (batch : Ingest) (parent child : SpanRecord) (caller callee : String) : Prop where
  member : child ∈ batch.spans
  last : ∃ id, child.parentSpanId = some id ∧
    batch.spans.reverse.find? (fun s => decide (s.spanId = id)) = some parent
  resolvedParent : batch.resolve parent = some caller
  resolvedChild : batch.resolve child = some callee
  apart : caller ≠ callee

/-- **No parent of the batch is found in another trace, and no edge of the batch is kept
already.** -/
def Clean (edges : TraceEdges) (batch : Ingest) : Prop :=
  ∀ parent child caller callee, batch.Links parent child caller callee →
    parent.traceId = child.traceId ∧
      edges.get? (toLex (child.traceId, toLex (caller, callee))) = none

end Ingest

/-- **What an ingest promises**: every edge it puts comes from a span and its parent in one trace,
it returns the number of edges it put, no more than the capacity are kept, and what is dropped was
seen no later than what is kept. -/
structure IngestLaws (maxEdges : Nat) (edges : TraceEdges) (batch : Ingest) : Prop where
  derived : ∀ key ∈ batch.keys, batch.Derives key
  counted : batch.count edges = batch.keys.toFinset.card
  bounded : (batch.apply maxEdges edges).entries.length ≤ maxEdges
  eldest : ∀ key old, (batch.inserted edges).1.get? key = some old →
    (batch.apply maxEdges edges).get? key = none →
    ∀ key' kept, (batch.apply maxEdges edges).get? key' = some kept →
      old.lastSeenUnix ≤ kept.lastSeenUnix

/-! ### Parents -/

theorem get?_spanIds (spans : List SpanRecord) (id : String) :
    (spanIds spans).get? id = spans.reverse.find? fun s => decide (s.spanId = id) := by
  induction spans using List.reverseRecOn with
  | nil => rfl
  | append_singleton spans s ih =>
    unfold spanIds at ih ⊢
    rw [List.foldl_append, List.foldl_cons, List.foldl_nil, SortedMap.get?_insert, ih,
      List.reverse_append, List.reverse_singleton, List.singleton_append, List.find?_cons]
    by_cases here : id = s.spanId
    · rw [if_pos here, decide_eq_true here.symm]
    · rw [if_neg here, decide_eq_false fun same => here same.symm]

namespace Ingest

variable {batch : Ingest} {edges : TraceEdges} {maxEdges : Nat}

theorem mem_keys {key : TraceKey} :
    key ∈ batch.keys ↔ ∃ parent child caller callee, batch.Links parent child caller callee ∧
      key = toLex (child.traceId, toLex (caller, callee)) := by
  unfold keys edgesToMint
  rw [List.mem_map]
  constructor
  · rintro ⟨minted, member, rfl⟩
    obtain ⟨child, inside, found⟩ := List.mem_filterMap.mp member
    unfold edgeToMint at found
    obtain ⟨callee, resolved, found⟩ := Option.bind_eq_some_iff.mp found
    obtain ⟨id, isChild, found⟩ := Option.bind_eq_some_iff.mp found
    obtain ⟨parent, isLast, found⟩ := Option.bind_eq_some_iff.mp found
    obtain ⟨caller, resolved', found⟩ := Option.bind_eq_some_iff.mp found
    rw [get?_spanIds] at isLast
    split at found
    · cases found
    next apart =>
        obtain rfl := Option.some.inj found
        exact ⟨parent, child, caller, callee,
          ⟨inside, ⟨id, isChild, isLast⟩, resolved', resolved, apart⟩, rfl⟩
  · rintro ⟨parent, child, caller, callee, links, rfl⟩
    obtain ⟨id, isChild, isLast⟩ := links.last
    refine ⟨(caller, callee, child), List.mem_filterMap.mpr ⟨child, links.member, ?_⟩, rfl⟩
    unfold edgeToMint
    simp [links.resolvedChild, isChild, get?_spanIds, isLast, links.resolvedParent, links.apart]

theorem Clean.derives (clean : batch.Clean edges) {key : TraceKey} (member : key ∈ batch.keys) :
    batch.Derives key := by
  obtain ⟨parent, child, caller, callee, links, rfl⟩ := mem_keys.mp member
  obtain ⟨id, isChild, isLast⟩ := links.last
  have named : parent.spanId = id := by simpa using List.find?_some isLast
  exact ⟨parent, List.mem_reverse.mp (List.mem_of_find?_eq_some isLast), child, links.member,
    named ▸ isChild, (clean parent child caller callee links).1, caller, callee,
    links.resolvedParent, links.resolvedChild, rfl⟩

theorem Clean.fresh (clean : batch.Clean edges) {key : TraceKey} (member : key ∈ batch.keys) :
    edges.get? key = none := by
  obtain ⟨parent, child, caller, callee, links, rfl⟩ := mem_keys.mp member
  exact (clean parent child caller callee links).2

end Ingest

/-! ### What is put and dropped -/

namespace TraceEdges

variable {edges : TraceEdges} {now : Int}

theorem get?_putAll (edges : TraceEdges) (keys : List TraceKey) (key : TraceKey) :
    (edges.putAll now keys).1.get? key =
      if key ∈ keys then some (runtimeEdge now key) else edges.get? key := by
  induction keys using List.reverseRecOn with
  | nil => simp [putAll]
  | append_singleton keys k ih =>
    unfold putAll at ih ⊢
    rw [List.foldl_append, List.foldl_cons, List.foldl_nil, put, SortedMap.get?_insert, ih]
    by_cases here : key = k
    · simp [here]
    · simp [here]

theorem count_putAll {keys : List TraceKey} (fresh : ∀ key ∈ keys, edges.get? key = none) :
    (edges.putAll now keys).2 = keys.toFinset.card := by
  induction keys using List.reverseRecOn with
  | nil => rfl
  | append_singleton keys k ih =>
    have before := ih fun key member => fresh key (List.mem_append_left _ member)
    have present : (edges.putAll now keys).1.get? k =
        if k ∈ keys then some (runtimeEdge now k) else none := by
      rw [get?_putAll, fresh k (List.mem_append_right _ List.mem_cons_self)]
    have whole : edges.putAll now (keys ++ [k]) = put now (edges.putAll now keys) k := by
      unfold putAll
      rw [List.foldl_append, List.foldl_cons, List.foldl_nil]
    rw [whole, put, present, before, List.toFinset_append]
    by_cases again : k ∈ keys
    · have same : keys.toFinset ∪ [k].toFinset = keys.toFinset :=
        Finset.union_eq_left.mpr (by simpa using again)
      rw [if_pos again, same]
      rfl
    · have one : Disjoint keys.toFinset [k].toFinset := by simpa using again
      rw [if_neg again, Finset.card_union_of_disjoint one]
      rfl

variable {maxEdges : Nat} {iteration : List (TraceKey × RuntimeEdge)}

private def aged (iteration : List (TraceKey × RuntimeEdge)) : List (TraceKey × RuntimeEdge) :=
  sortByKey (fun entry : TraceKey × RuntimeEdge => entry.2.lastSeenUnix) iteration

private theorem mem_aged (complete : iteration.Perm edges.entries)
    {entry : TraceKey × RuntimeEdge} :
    entry ∈ aged iteration ↔ edges.get? entry.1 = some entry.2 :=
  ((perm_sortByKey _ iteration).trans complete).mem_iff.trans SortedMap.mem_entries

private theorem get?_evict (complete : iteration.Perm edges.entries) (key : TraceKey)
    (record : RuntimeEdge) :
    (edges.evict maxEdges iteration).get? key = some record ↔
      edges.get? key = some record ∧
        (key, record) ∉ (aged iteration).take (edges.entries.length - maxEdges) := by
  unfold evict
  rw [SortedMap.get?_foldl_erase fun entry : TraceKey × RuntimeEdge => entry.1]
  have first : key ∈ ((aged iteration).take (edges.entries.length - maxEdges)).map Prod.fst ↔
      ∃ record, edges.get? key = some record ∧
        (key, record) ∈ (aged iteration).take (edges.entries.length - maxEdges) := by
    rw [List.mem_map]
    constructor
    · rintro ⟨entry, member, rfl⟩
      exact ⟨entry.2, (mem_aged complete).mp (List.mem_of_mem_take member), member⟩
    · rintro ⟨record, _, member⟩
      exact ⟨_, member, rfl⟩
  split
  next dropped =>
      obtain ⟨record', found, member⟩ := first.mp dropped
      refine ⟨fun absurd => (by cases absurd), fun ⟨found', stays⟩ => ?_⟩
      obtain rfl := Option.some.inj (found.symm.trans found')
      exact absurd member stays
  next kept =>
      refine ⟨fun found => ⟨found, fun member => kept ?_⟩, And.left⟩
      exact first.mpr ⟨record, found, member⟩

theorem length_evict (complete : iteration.Perm edges.entries) :
    (edges.evict maxEdges iteration).entries.length ≤ maxEdges := by
  have inside : (edges.evict maxEdges iteration).entries ⊆
      (aged iteration).drop (edges.entries.length - maxEdges) := by
    intro entry member
    obtain ⟨found, stays⟩ := (get?_evict complete entry.1 entry.2).mp
      (SortedMap.mem_entries.mp member)
    have listed := (mem_aged complete).mpr found
    rw [← List.take_append_drop (edges.entries.length - maxEdges) (aged iteration)] at listed
    exact (List.mem_append.mp listed).resolve_left stays
  have nodup : (edges.evict maxEdges iteration).entries.Nodup :=
    List.Nodup.of_map Prod.fst (edges.evict maxEdges iteration).nodup_keys
  have size : (aged iteration).length = edges.entries.length :=
    ((perm_sortByKey _ iteration).trans complete).length_eq
  have short := (List.subperm_of_subset nodup inside).length_le
  rw [List.length_drop, size] at short
  omega

theorem evict_eldest (complete : iteration.Perm edges.entries) {key key' : TraceKey}
    {old kept : RuntimeEdge} (present : edges.get? key = some old)
    (gone : (edges.evict maxEdges iteration).get? key = none)
    (stays : (edges.evict maxEdges iteration).get? key' = some kept) :
    old.lastSeenUnix ≤ kept.lastSeenUnix := by
  have dropped : (key, old) ∈ (aged iteration).take (edges.entries.length - maxEdges) := by
    by_contra inside
    rw [(get?_evict complete key old).mpr ⟨present, inside⟩] at gone
    cases gone
  obtain ⟨found, outside⟩ := (get?_evict complete key' kept).mp stays
  have ordered := sorted_sortByKey
    (fun entry : TraceKey × RuntimeEdge => entry.2.lastSeenUnix) iteration
  change (aged iteration).Pairwise _ at ordered
  have listed : (key', kept) ∈ aged iteration := (mem_aged complete).mpr found
  rw [← List.take_append_drop (edges.entries.length - maxEdges) (aged iteration)] at ordered listed
  exact (List.pairwise_append.mp ordered).2.2 _ dropped _
    ((List.mem_append.mp listed).resolve_left outside)

theorem get?_of_evict (complete : iteration.Perm edges.entries) {key : TraceKey}
    {record : RuntimeEdge} (kept : (edges.evict maxEdges iteration).get? key = some record) :
    edges.get? key = some record :=
  ((get?_evict complete key record).mp kept).1

end TraceEdges

/-! ### Runs -/

/-- The stores reached from an empty one by batches that meet a condition. -/
def TraceRun (maxEdges : Nat) (meets : TraceEdges → Ingest → Prop) :
    List Ingest → TraceEdges → Prop :=
  Runs (fun edges batch => some (batch.apply maxEdges edges)) meets ∅

/-- Every edge comes from a span and its parent in one trace of one batch. -/
def Genuine (batches : List Ingest) (edges : TraceEdges) : Prop :=
  ∀ key record, edges.get? key = some record →
    ∃ batch ∈ batches, batch.Derives key ∧ record = runtimeEdge batch.now key

namespace Ingest

variable {batch : Ingest} {edges : TraceEdges} {maxEdges : Nat}

theorem Clean.laws (clean : batch.Clean edges) (maxEdges : Nat) :
    IngestLaws maxEdges edges batch where
  derived _ member := clean.derives member
  counted := TraceEdges.count_putAll fun _ member => clean.fresh member
  bounded := TraceEdges.length_evict (batch.iterates _)
  eldest _ _ present gone _ _ stays := TraceEdges.evict_eldest (batch.iterates _) present gone stays

theorem Clean.genuine {batches : List Ingest} (genuine : Genuine batches edges)
    (clean : batch.Clean edges) : Genuine (batches ++ [batch]) (batch.apply maxEdges edges) := by
  intro key record kept
  have put := TraceEdges.get?_of_evict (batch.iterates _) kept
  unfold inserted at put
  rw [TraceEdges.get?_putAll] at put
  split at put
  next member =>
      obtain rfl := Option.some.inj put
      exact ⟨batch, List.mem_append_right _ List.mem_cons_self, clean.derives member, rfl⟩
  · obtain ⟨earlier, member, derives⟩ := genuine key record put
    exact ⟨earlier, List.mem_append_left _ member, derives⟩

end Ingest

/-- **Runtime edges of clean batches.** Along every run of clean batches every edge that is held
comes from a span and its parent in one trace of one batch, and every further clean batch keeps
the promises of an ingest. -/
theorem genuine_run {maxEdges : Nat} {batches : List Ingest} {edges : TraceEdges}
    (run : TraceRun maxEdges (fun edges batch => batch.Clean edges) batches edges) :
    Genuine batches edges ∧
      ∀ batch : Ingest, batch.Clean edges → IngestLaws maxEdges edges batch := by
  refine ⟨?_, fun batch clean => clean.laws maxEdges⟩
  refine Foundation.Runs.invariant (I := Genuine) ?_ ?_ run
  · intro key record found
    cases found
  · intro batches edges batch edges' genuine clean moved
    obtain rfl := Option.some.inj moved
    exact clean.genuine genuine

def singleTrace : Ingest where
  spans := [{ traceId := "t1", spanId := "1", parentSpanId := none },
    { traceId := "t1", spanId := "2", parentSpanId := some "1" }]
  resolve s := some s.spanId
  now := 5
  iterate := SortedMap.entries
  iterates _ := .refl _

theorem clean_singleTrace : singleTrace.Clean ∅ := by
  rintro parent child caller callee ⟨member, ⟨id, isChild, isLast⟩, _, _, _⟩
  refine ⟨?_, rfl⟩
  have named : parent.spanId = id := by simpa using List.find?_some isLast
  have inside := List.mem_reverse.mp (List.mem_of_find?_eq_some isLast)
  simp only [singleTrace, List.mem_cons, List.not_mem_nil, or_false] at member inside
  obtain rfl | rfl := inside <;> obtain rfl | rfl := member <;> rfl

theorem genuine_run_singleTrace :
    Genuine [singleTrace] (singleTrace.apply 8 ∅) ∧
      ∀ batch : Ingest, batch.Clean (singleTrace.apply 8 ∅) →
        IngestLaws 8 (singleTrace.apply 8 ∅) batch :=
  genuine_run (.step .start clean_singleTrace rfl)

def mixedTraces : Ingest where
  spans := [{ traceId := "t1", spanId := "1", parentSpanId := none },
    { traceId := "t1", spanId := "2", parentSpanId := some "1" },
    { traceId := "t2", spanId := "1", parentSpanId := none }]
  resolve s := some (s.traceId ++ s.spanId)
  now := 5
  iterate := SortedMap.entries
  iterates _ := .refl _

theorem not_derives_mixedTraces :
    (mixedTraces.apply 8 ∅).get? (toLex ("t1", toLex ("t21", "t12"))) =
        some (runtimeEdge 5 (toLex ("t1", toLex ("t21", "t12")))) ∧
      ¬mixedTraces.Derives (toLex ("t1", toLex ("t21", "t12"))) := by
  refine ⟨by decide +kernel, ?_⟩
  rintro ⟨parent, inside, child, _, _, sameTrace, caller, callee, isCaller, _, same⟩
  have trace : child.traceId = "t1" := (congrArg (fun key => (ofLex key).1) same).symm
  have called : caller = "t21" := (congrArg (fun key => (ofLex (ofLex key).2).1) same).symm
  have resolved : parent.traceId ++ parent.spanId = "t21" := called ▸ Option.some.inj isCaller
  rw [sameTrace.trans trace] at resolved
  simp only [mixedTraces, List.mem_cons, List.not_mem_nil, or_false] at inside
  obtain rfl | rfl | rfl := inside <;> exact absurd resolved (by decide)

/-- **Not every run is genuine, and not every edge a batch refreshes is counted.** -/
theorem not_genuine_mixedTraces :
    (∃ batches edges, TraceRun 8 (fun _ _ => True) batches edges ∧ ¬Genuine batches edges) ∧
      ∃ (batches : List Ingest) (edges : TraceEdges) (batch : Ingest),
        TraceRun 8 (fun _ _ => True) batches edges ∧
          batch.count edges ≠ batch.keys.toFinset.card := by
  refine ⟨⟨[mixedTraces], _, .step .start trivial rfl, fun genuine => ?_⟩,
    [singleTrace], _, singleTrace, .step .start trivial rfl, by decide +kernel⟩
  obtain ⟨batch, member, derives, _⟩ := genuine _ _ not_derives_mixedTraces.1
  obtain rfl := List.mem_singleton.mp member
  exact not_derives_mixedTraces.2 derives

end Lain.Server
