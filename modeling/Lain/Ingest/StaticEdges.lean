import Mathlib
import Lain.Foundation.Representatives
import Lain.Foundation.SortedMap
import Lain.Foundation.TextEnds
import Lain.Schema

/-!
# Static references

A reference that a parser saw in a file becomes an edge from the innermost definition around its
line to a definition of its name.
-/

namespace Lain.Ingest

open Foundation

/-- Method names that containers, strings and promises share across languages. -/
def commonMethodNames : List String :=
  ["get", "set", "has", "add", "update", "delete", "remove", "discard", "pop", "push", "append",
    "extend", "insert", "clear", "copy", "items", "keys", "values", "entries", "setdefault", "map",
    "filter", "reduce", "forEach", "find", "findIndex", "some", "every", "includes", "indexOf",
    "slice", "splice", "concat", "sort", "reverse", "split", "replace", "strip", "lstrip",
    "rstrip", "lower", "upper", "toLowerCase", "toUpperCase", "startswith", "endswith",
    "startsWith", "endsWith", "format", "encode", "decode", "then", "catch", "finally", "toString",
    "equals", "hashCode", "contains", "containsKey", "put", "size", "length", "isEmpty", "stream",
    "collect", "include?", "each", "each_value", "each_key", "each_pair", "each_with_index",
    "each_with_object", "key?", "has_key?", "member?", "fetch", "select", "reject", "detect",
    "inject", "any?", "all?", "none?", "empty?", "count", "first", "last", "merge", "merge!",
    "dup", "freeze", "compact", "flatten", "uniq", "sort_by", "group_by", "min", "max", "sum",
    "join", "to_s", "to_a", "to_h", "to_sym", "to_i", "gsub", "sub", "match", "downcase", "upcase",
    "start_with?", "end_with?", "delete_if", "keep_if", "tap", "send", "respond_to?", "is_a?",
    "nil?", "addAll", "removeAll", "getOrDefault", "getOrPut", "joinToString", "flatMap",
    "firstOrNull", "lastOrNull", "toList", "toMap", "toSet", "trim", "clone", "len", "is_empty",
    "iter", "iter_mut", "into_iter", "unwrap", "expect", "as_ref", "as_str", "to_string",
    "to_owned", "borrow", "lock"]

def languageGroup (path : String) : Option String :=
  match Text.rsplitOnce path '.' with
  | none => none
  | some (_, ext) =>
    if ext = "rs" then some "rust"
    else if ext ∈ ["py", "pyi"] then some "python"
    else if ext ∈ ["ts", "tsx", "mts", "cts", "js", "jsx", "mjs", "cjs", "vue", "svelte"] then
      some "js"
    else if ext = "go" then some "go"
    else if ext = "java" then some "java"
    else if ext ∈ ["c", "h", "cpp", "hpp", "cc", "cxx", "hh", "hxx"] then some "c"
    else if ext = "cs" then some "csharp"
    else if ext ∈ ["rb", "rake"] then some "ruby"
    else if ext = "swift" then some "swift"
    else if ext ∈ ["kt", "kts"] then some "kotlin"
    else if ext ∈ ["scala", "sc"] then some "scala"
    else if ext = "php" then some "php"
    else none

/-- A name in one file may mean a definition in another: their languages are of one family, or
their extensions are the same. -/
def mayLinkAcross (source target : String) : Bool :=
  match languageGroup source, languageGroup target with
  | some a, some b => decide (a = b)
  | _, _ =>
    decide ((Text.rsplitOnce source '.').map Prod.snd = (Text.rsplitOnce target '.').map Prod.snd)

/-- A reference to a name, as a parser saw it. -/
structure StaticFileRef where
  filePath : String
  sourceLine : Nat
  targetName : String
  edgeType : EdgeType
  foreignReceiver : Bool := false
  selfReceiver : Bool := false
  qualifier : Option String := none
  deriving DecidableEq

structure Candidate where
  id : String
  nodeType : NodeType
  path : String
  deriving DecidableEq

def isTypeLevelTarget (type : NodeType) : Bool :=
  decide (type ∈ [NodeType.struct, .enum, .trait, .class, .interface])

def isContainerType (type : NodeType) : Bool :=
  decide (type ∈ [NodeType.module, .namespace, .package, .file])

def isStub (path : String) : Bool :=
  Text.endsWith path ".pyi" || Text.endsWith path ".d.ts"

def implicitThisLanguages : List String :=
  ["java", "csharp", "kotlin", "swift", "c", "scala", "ruby"]

def overloadLanguages : List String :=
  ["java", "csharp", "kotlin", "scala", "swift", "c"]

section Resolve

variable (nodes : List GraphNode)

def spansAt (path : String) (line : Nat) : List GraphNode :=
  nodes.filter fun n => decide (n.nodeType ≠ .file ∧ n.path = path ∧
    n.lineStart.getD 0 ≤ line ∧ line ≤ n.lineEnd.getD 0)

def spanSize (n : GraphNode) : Nat :=
  n.lineEnd.getD 0 - n.lineStart.getD 0

def sourceOf (sr : StaticFileRef) : Option GraphNode :=
  ((spansAt nodes sr.filePath sr.sourceLine).argmin spanSize).or
    (nodes.find? fun n => decide (n.nodeType = .file ∧ n.path = sr.filePath))

def containerOf (id : String) : Option String :=
  ((nodes.foldl (fun m n => m.insert n.id n.container) (∅ : SortedMap String (Option String))).get?
    id).join

def definitionsOf (name : String) : List Candidate :=
  (nodes.filter fun n => decide (n.name = name)).map fun n => ⟨n.id, n.nodeType, n.path⟩

def linkable (sr : StaticFileRef) : List Candidate :=
  (definitionsOf nodes sr.targetName).filter fun c => mayLinkAcross sr.filePath c.path &&
    (decide (sr.edgeType ≠ .calls) || !isContainerType c.nodeType)

def withoutStubs (candidates : List Candidate) : List Candidate :=
  if candidates.any fun c => !isStub c.path then candidates.filter fun c => !isStub c.path
  else candidates

def byReceiver (sr : StaticFileRef) (source : String) (candidates : List Candidate) :
    Option (List Candidate) :=
  let sourceContainer := containerOf nodes source
  if sr.edgeType ≠ .calls then some candidates
  else
    match sr.qualifier with
    | some q =>
      let own := candidates.filter fun c => decide (containerOf nodes c.id = some q)
      if !own.isEmpty then some own
      else if (q.toList.head?.any fun c => decide ('A' ≤ c ∧ c ≤ 'Z')) &&
          candidates.any fun c => (containerOf nodes c.id).isSome then none
      else some candidates
    | none =>
      if sr.selfReceiver then
        let own := candidates.filter fun c =>
          sourceContainer.isSome && decide (containerOf nodes c.id = sourceContainer)
        some (if own.isEmpty then candidates else own)
      else if sr.foreignReceiver then
        some ((candidates.filter fun c =>
          !(decide (c.path = sr.filePath) && (containerOf nodes c.id).isNone)).filter fun c =>
            decide (c.id ≠ source) || sourceContainer.isSome)
      else
        let implicitThis :=
          (languageGroup sr.filePath).any fun group => decide (group ∈ implicitThisLanguages)
        let own := candidates.filter fun c => implicitThis && sourceContainer.isSome &&
          decide (containerOf nodes c.id = sourceContainer)
        let free := candidates.filter fun c => (containerOf nodes c.id).isNone &&
          decide (c.nodeType ∈ [NodeType.function, .method])
        some (if !own.isEmpty then own
          else if !free.isEmpty && decide (free.length < candidates.length) then free
          else candidates)

def narrowed (sr : StaticFileRef) (source : String) : List Candidate :=
  match byReceiver nodes sr source (withoutStubs (linkable nodes sr)) with
  | none => []
  | some candidates =>
    -- Recursion through another instance links nowhere.
    if sr.edgeType = .calls && sr.foreignReceiver && (containerOf nodes source).isSome &&
        candidates.any fun c => decide (c.id = source) then []
    else candidates

def isOverloadGroup (candidates : List Candidate) : Bool :=
  match candidates.head? with
  | none => false
  | some first => (candidates.all fun c => decide (c.path = first.path)) &&
      (languageGroup first.path).any fun group => decide (group ∈ overloadLanguages)

/-- The definitions a reference means: the only candidate, or those of its own file, or a group
of overloads. -/
def resolved (sr : StaticFileRef) (candidates : List Candidate) : List Candidate :=
  let builtin := sr.foreignReceiver && decide (sr.targetName ∈ commonMethodNames)
  let sameFile := candidates.filter fun c => decide (c.path = sr.filePath)
  if candidates.length = 1 then if builtin then sameFile else candidates
  else if sameFile.isEmpty && !builtin && isOverloadGroup candidates then candidates
  else sameFile

def linksFrom (sr : StaticFileRef) (source : String) : List GraphEdge :=
  ((resolved sr (narrowed nodes sr source)).filter fun c => decide (c.id ≠ source) &&
    (decide (sr.edgeType ≠ .uses) || isTypeLevelTarget c.nodeType)).map fun c =>
      { edgeType := sr.edgeType, sourceId := source, targetId := c.id }

/-- The edges a reference stands for. -/
def links (sr : StaticFileRef) : List GraphEdge :=
  match sourceOf nodes sr with
  | none => []
  | some source => linksFrom nodes sr source.id

local instance lawfulPairs : LawfulBEq (String × String) := inferInstance

def addLink (state : List (String × String) × List GraphEdge) (e : GraphEdge) :
    List (String × String) × List GraphEdge :=
  if (e.sourceId, e.targetId) ∈ state.1 then state
  else (state.1 ++ [(e.sourceId, e.targetId)], state.2 ++ [e])

/-- The edges of all references. -/
def resolveStaticEdges (refs : List StaticFileRef) : List GraphEdge :=
  (refs.foldl (fun state sr => (links nodes sr).foldl addLink state) ([], [])).2

def Innermost (sr : StaticFileRef) (a : GraphNode) : Prop :=
  (a ∈ spansAt nodes sr.filePath sr.sourceLine ∧
      ∀ b ∈ spansAt nodes sr.filePath sr.sourceLine, spanSize a ≤ spanSize b) ∨
    (spansAt nodes sr.filePath sr.sourceLine = [] ∧ a ∈ nodes ∧ a.nodeType = .file ∧
      a.path = sr.filePath)

/-- A reference accounts for a call: it is a call from its innermost node to another node of its
name, in a language that may be meant and no container; in another file than the reference it is
the only candidate that is left, or all of them lie in one file of a language that overloads. -/
def Accounts (sr : StaticFileRef) (e : GraphEdge) : Prop :=
  sr.edgeType = .calls ∧ ∃ source d, Innermost nodes sr source ∧ source.id = e.sourceId ∧
    d ∈ nodes ∧ d.id = e.targetId ∧ d.name = sr.targetName ∧ d.id ≠ source.id ∧
      isContainerType d.nodeType = false ∧ mayLinkAcross sr.filePath d.path = true ∧
        (d.path ≠ sr.filePath →
          narrowed nodes sr source.id = [⟨d.id, d.nodeType, d.path⟩] ∨
            ((∃ group ∈ overloadLanguages, languageGroup d.path = some group) ∧
              ∀ c ∈ narrowed nodes sr source.id, c.path = d.path))

end Resolve

/-! ## Candidates -/

section Candidates

variable {nodes nodes' : List GraphNode}

theorem subset_of_byReceiver {sr : StaticFileRef} {source : String}
    {candidates kept : List Candidate} (left : byReceiver nodes sr source candidates = some kept) :
    kept ⊆ candidates := by
  unfold byReceiver at left
  dsimp only at left
  split at left
  · cases left
    exact List.Subset.refl _
  · split at left
    · split_ifs at left
      · cases left
        exact List.filter_subset_self _
      · cases left
        exact List.Subset.refl _
    · split_ifs at left <;> cases left
      · exact List.Subset.refl _
      · exact List.filter_subset_self _
      · exact List.Subset.trans (List.filter_subset_self _) (List.filter_subset_self _)
      · exact List.filter_subset_self _
      · exact List.filter_subset_self _
      · exact List.Subset.refl _

theorem narrowed_subset (sr : StaticFileRef) (source : String) :
    narrowed nodes sr source ⊆ linkable nodes sr := by
  intro c member
  unfold narrowed at member
  split at member
  · cases member
  · next kept left =>
      have inside : c ∈ kept := by
        split_ifs at member
        · cases member
        · exact member
      have among := subset_of_byReceiver left inside
      unfold withoutStubs at among
      split_ifs at among
      · exact List.mem_of_mem_filter among
      · exact among

theorem mem_resolved {sr : StaticFileRef} {candidates : List Candidate} {c : Candidate}
    (meant : c ∈ resolved sr candidates) :
    c ∈ candidates ∧ (c.path ≠ sr.filePath → candidates = [c] ∨
      isOverloadGroup candidates = true) := by
  unfold resolved at meant
  dsimp only at meant
  have own : ∀ {P : Prop}, c ∈ candidates.filter (fun c => decide (c.path = sr.filePath)) →
      c ∈ candidates ∧ (c.path ≠ sr.filePath → P) := by
    intro P same
    exact ⟨List.mem_of_mem_filter same,
      fun differs => absurd (of_decide_eq_true (List.mem_filter.mp same).2) differs⟩
  split_ifs at meant with single builtin group
  · exact own meant
  · obtain ⟨only, rfl⟩ := List.length_eq_one_iff.mp single
    rw [List.mem_singleton] at meant
    exact ⟨List.mem_singleton.mpr meant, fun _ => Or.inl (by rw [meant])⟩
  · rw [Bool.and_eq_true] at group
    exact ⟨meant, fun _ => Or.inr group.2⟩
  · exact own meant

theorem of_isOverloadGroup {candidates : List Candidate}
    (group : isOverloadGroup candidates = true) {c : Candidate} (member : c ∈ candidates) :
    (∃ family ∈ overloadLanguages, languageGroup c.path = some family) ∧
      ∀ other ∈ candidates, other.path = c.path := by
  unfold isOverloadGroup at group
  split at group
  · cases group
  · next first _ =>
      rw [Bool.and_eq_true, List.all_eq_true] at group
      have paths : ∀ other ∈ candidates, other.path = first.path :=
        fun other inside => of_decide_eq_true (group.1 other inside)
      refine ⟨?_, fun other inside => (paths other inside).trans (paths c member).symm⟩
      obtain ⟨family, named, overloads⟩ := (Option.any_eq_true _ _).mp group.2
      rw [paths c member]
      exact ⟨family, of_decide_eq_true overloads, named⟩

/-- **An edge of a reference** leaves the given node for a linkable definition. -/
theorem mem_linksFrom {sr : StaticFileRef} {source : String} {e : GraphEdge} :
    e ∈ linksFrom nodes sr source ↔ ∃ c ∈ resolved sr (narrowed nodes sr source),
      c.id ≠ source ∧ (sr.edgeType = .uses → isTypeLevelTarget c.nodeType = true) ∧
        e = { edgeType := sr.edgeType, sourceId := source, targetId := c.id } := by
  unfold linksFrom
  simp only [List.mem_map, List.mem_filter, Bool.and_eq_true, Bool.or_eq_true, decide_eq_true_eq]
  constructor
  · rintro ⟨c, ⟨meant, other, kind⟩, rfl⟩
    exact ⟨c, meant, other, fun uses => kind.resolve_left (not_not_intro uses), rfl⟩
  · rintro ⟨c, meant, other, kind, rfl⟩
    exact ⟨c, ⟨meant, other, (em _).symm.imp_right kind⟩, rfl⟩

end Candidates

/-! ## Sources -/

section Sources

variable {nodes nodes' : List GraphNode}

theorem innermost_of_sourceOf {sr : StaticFileRef} {a : GraphNode}
    (source : sourceOf nodes sr = some a) : Innermost nodes sr a := by
  unfold sourceOf at source
  cases chosen : (spansAt nodes sr.filePath sr.sourceLine).argmin spanSize with
  | some b =>
    rw [chosen, Option.some_or] at source
    cases source
    exact Or.inl ⟨List.argmin_mem chosen, fun b inside => List.le_of_mem_argmin inside chosen⟩
  | none =>
    rw [chosen, Option.none_or] at source
    have file : a.nodeType = .file ∧ a.path = sr.filePath := by
      simpa only [decide_eq_true_eq] using List.find?_some source
    exact Or.inr ⟨List.argmin_eq_none.mp chosen, List.mem_of_find?_eq_some source, file⟩

theorem exists_sourceOf {sr : StaticFileRef} {a : GraphNode} (inner : Innermost nodes sr a) :
    ∃ b, sourceOf nodes sr = some b := by
  unfold sourceOf
  cases chosen : (spansAt nodes sr.filePath sr.sourceLine).argmin spanSize with
  | some b => exact ⟨b, rfl⟩
  | none =>
    rw [Option.none_or, ← Option.isSome_iff_exists, List.find?_isSome]
    rcases inner with ⟨inside, -⟩ | ⟨-, member, file, path⟩
    · rw [List.argmin_eq_none.mp chosen] at inside
      cases inside
    · exact ⟨a, member, decide_eq_true ⟨file, path⟩⟩

theorem Innermost.perm {sr : StaticFileRef} {a : GraphNode} (inner : Innermost nodes sr a)
    (order : nodes.Perm nodes') : Innermost nodes' sr a := by
  have spans : (spansAt nodes sr.filePath sr.sourceLine).Perm
      (spansAt nodes' sr.filePath sr.sourceLine) := order.filter _
  rcases inner with ⟨inside, least⟩ | ⟨none, member, file, path⟩
  · exact Or.inl ⟨spans.mem_iff.mp inside, fun b listed => least b (spans.mem_iff.mpr listed)⟩
  · exact Or.inr ⟨List.nil_perm.mp (none ▸ spans), order.mem_iff.mp member, file, path⟩

end Sources

/-! ## The order of the nodes -/

section Order

variable {nodes nodes' : List GraphNode}

theorem containerOf_eq_some (distinct : (nodes.map GraphNode.id).Nodup) {id container : String} :
    containerOf nodes id = some container ↔
      ∃ n ∈ nodes, n.id = id ∧ n.container = some container := by
  have entries : nodes.foldl (fun m n => m.insert n.id n.container)
        (∅ : SortedMap String (Option String)) =
      (nodes.map fun n => (n.id, n.container)).foldl (fun m e => m.insert e.1 e.2) ∅ := by
    rw [List.foldl_map]
  have apart : (nodes.map fun n => (n.id, n.container)).Pairwise fun e e' => e.1 ≠ e'.1 := by
    rw [List.pairwise_map]
    exact List.pairwise_map.mp distinct
  unfold containerOf
  rw [entries, Option.join_eq_some_iff, SortedMap.get?_foldl_insert_of_distinct apart, List.mem_map]
  constructor
  · rintro ⟨n, member, same⟩
    obtain ⟨own, named⟩ := Prod.mk.inj same
    exact ⟨n, member, own, named⟩
  · rintro ⟨n, member, rfl, named⟩
    exact ⟨n, member, by rw [named]⟩

theorem containerOf_perm (distinct : (nodes.map GraphNode.id).Nodup) (order : nodes.Perm nodes') :
    containerOf nodes = containerOf nodes' := by
  have distinct' : (nodes'.map GraphNode.id).Nodup := (order.map _).nodup_iff.mp distinct
  funext id
  refine Option.ext fun container => ?_
  rw [containerOf_eq_some distinct, containerOf_eq_some distinct']
  simp only [order.mem_iff]

theorem linkable_perm (order : nodes.Perm nodes') (sr : StaticFileRef) :
    (linkable nodes sr).Perm (linkable nodes' sr) :=
  ((order.filter _).map _).filter _

theorem withoutStubs_perm {l l' : List Candidate} (order : l.Perm l') :
    (withoutStubs l).Perm (withoutStubs l') := by
  unfold withoutStubs
  rw [order.any_eq]
  split
  · exact order.filter _
  · exact order

theorem perm_ite {l l' m m' : List Candidate} {p p' : Prop} [Decidable p] [Decidable p']
    (same : p ↔ p') (yes : l.Perm l') (no : m.Perm m') :
    (if p then l else m).Perm (if p' then l' else m') := by
  by_cases holds : p
  · rw [if_pos holds, if_pos (same.mp holds)]
    exact yes
  · rw [if_neg holds, if_neg (mt same.mpr holds)]
    exact no

theorem byReceiver_perm (same : containerOf nodes = containerOf nodes') (sr : StaticFileRef)
    (source : String) {l l' : List Candidate} (order : l.Perm l') :
    Option.Rel List.Perm (byReceiver nodes sr source l) (byReceiver nodes' sr source l') := by
  have empty : ∀ p : Candidate → Bool, (l.filter p).isEmpty = (l'.filter p).isEmpty :=
    fun p => (order.filter p).isEmpty_eq
  unfold byReceiver
  rw [same]
  dsimp only
  split
  · exact .some order
  · split
    · simp only [empty, order.any_eq]
      split_ifs
      · exact .some (order.filter _)
      · exact .none
      · exact .some order
    · by_cases self : sr.selfReceiver = true
      · rw [if_pos self, if_pos self]
        exact .some (perm_ite (by rw [empty]) order (order.filter _))
      · rw [if_neg self, if_neg self]
        by_cases foreign : sr.foreignReceiver = true
        · rw [if_pos foreign, if_pos foreign]
          exact .some ((order.filter _).filter _)
        rw [if_neg foreign, if_neg foreign]
        refine .some (perm_ite (by rw [empty]) (order.filter _) (perm_ite ?_ (order.filter _) order))
        rw [empty, (order.filter _).length_eq, order.length_eq]

theorem narrowed_perm (distinct : (nodes.map GraphNode.id).Nodup) (order : nodes.Perm nodes')
    (sr : StaticFileRef) (source : String) :
    (narrowed nodes sr source).Perm (narrowed nodes' sr source) := by
  have same := containerOf_perm distinct order
  have left := byReceiver_perm same sr source (withoutStubs_perm (linkable_perm order sr))
  unfold narrowed
  rw [same]
  revert left
  cases byReceiver nodes sr source (withoutStubs (linkable nodes sr)) with
  | none =>
    cases byReceiver nodes' sr source (withoutStubs (linkable nodes' sr)) with
    | none => exact fun _ => List.Perm.refl _
    | some l' => exact fun left => nomatch left
  | some l =>
    cases byReceiver nodes' sr source (withoutStubs (linkable nodes' sr)) with
    | none => exact fun left => nomatch left
    | some l' =>
      rintro ⟨alike⟩
      exact perm_ite (by rw [alike.any_eq]) (List.Perm.refl _) alike

theorem isOverloadGroup_iff {l : List Candidate} :
    isOverloadGroup l = true ↔ l ≠ [] ∧ ∀ c ∈ l,
      ((∃ family ∈ overloadLanguages, languageGroup c.path = some family) ∧
        ∀ other ∈ l, other.path = c.path) := by
  constructor
  · intro group
    refine ⟨?_, fun c member => of_isOverloadGroup group member⟩
    rintro rfl
    cases group
  · rintro ⟨inhabited, alike⟩
    cases l with
    | nil => exact absurd rfl inhabited
    | cons first rest =>
      obtain ⟨⟨family, overloads, named⟩, paths⟩ := alike first List.mem_cons_self
      change ((first :: rest).all (fun c => decide (c.path = first.path)) &&
        (languageGroup first.path).any fun group => decide (group ∈ overloadLanguages)) = true
      rw [Bool.and_eq_true, List.all_eq_true, named]
      exact ⟨fun other member => decide_eq_true (paths other member), decide_eq_true overloads⟩

theorem isOverloadGroup_perm {l l' : List Candidate} (order : l.Perm l') :
    isOverloadGroup l = isOverloadGroup l' := by
  rw [Bool.eq_iff_iff, isOverloadGroup_iff, isOverloadGroup_iff]
  have empty : l = [] ↔ l' = [] := by rw [← List.length_eq_zero_iff, order.length_eq,
    List.length_eq_zero_iff]
  simp only [order.mem_iff, ne_eq, empty]

theorem resolved_perm (sr : StaticFileRef) {l l' : List Candidate} (order : l.Perm l') :
    (resolved sr l).Perm (resolved sr l') := by
  unfold resolved
  dsimp only
  refine perm_ite (by rw [order.length_eq]) ?_ ?_
  · exact perm_ite Iff.rfl (order.filter _) order
  · refine perm_ite ?_ order (order.filter _)
    rw [(order.filter _).isEmpty_eq, isOverloadGroup_perm order]

/-- **The edges of a reference** from a node do not depend on the order of the nodes. -/
theorem mem_linksFrom_perm (distinct : (nodes.map GraphNode.id).Nodup)
    (order : nodes.Perm nodes') {sr : StaticFileRef} {source : String} {e : GraphEdge} :
    e ∈ linksFrom nodes sr source ↔ e ∈ linksFrom nodes' sr source := by
  rw [mem_linksFrom, mem_linksFrom]
  simp only [(resolved_perm sr (narrowed_perm distinct order sr source)).mem_iff]

end Order

/-! ## All references -/

section References

variable {nodes nodes' : List GraphNode} {refs refs' : List StaticFileRef}

/-- The two nodes that an edge links. -/
def pairOf (e : GraphEdge) : String × String :=
  (e.sourceId, e.targetId)

theorem foldl_addLink (l : List GraphEdge) :
    l.foldl addLink ([], []) = ((firstPer pairOf l).map pairOf, firstPer pairOf l) := by
  induction l using List.reverseRecOn with
  | nil => rfl
  | append_singleton l e ih =>
    rw [List.foldl_append, List.foldl_cons, List.foldl_nil, ih, firstPer_concat, addLink]
    have known : (e.sourceId, e.targetId) ∈ (firstPer pairOf l).map pairOf ↔
        pairOf e ∈ l.map pairOf := mem_map_firstPer
    by_cases again : pairOf e ∈ l.map pairOf
    · rw [if_pos (known.mpr again), if_pos again]
    · rw [if_neg (mt known.mp again), if_neg again, List.map_append]
      rfl

theorem resolveStaticEdges_eq (nodes : List GraphNode) (refs : List StaticFileRef) :
    resolveStaticEdges nodes refs = firstPer pairOf (refs.flatMap (links nodes)) := by
  unfold resolveStaticEdges
  rw [← List.foldl_flatMap, foldl_addLink]

theorem mem_links {sr : StaticFileRef} {e : GraphEdge} :
    e ∈ links nodes sr ↔ ∃ a, sourceOf nodes sr = some a ∧ e ∈ linksFrom nodes sr a.id := by
  unfold links
  cases sourceOf nodes sr with
  | none => simp
  | some a => simp

/-- No reference has two innermost nodes. -/
def Untied (nodes : List GraphNode) (refs : List StaticFileRef) : Prop :=
  ∀ sr ∈ refs, ∀ a b, Innermost nodes sr a → Innermost nodes sr b → a = b

/-- No two references stand for edges of different types between the same two nodes. -/
def OneType (nodes : List GraphNode) (refs : List StaticFileRef) : Prop :=
  ∀ sr ∈ refs, ∀ sr' ∈ refs, ∀ e ∈ links nodes sr, ∀ e' ∈ links nodes sr',
    pairOf e = pairOf e' → sr.edgeType = sr'.edgeType

theorem mem_links_perm (distinct : (nodes.map GraphNode.id).Nodup) (untied : Untied nodes refs)
    (order : nodes.Perm nodes') {sr : StaticFileRef} (listed : sr ∈ refs) {e : GraphEdge} :
    e ∈ links nodes' sr ↔ e ∈ links nodes sr := by
  have same : sourceOf nodes' sr = sourceOf nodes sr := by
    cases found : sourceOf nodes sr with
    | some a =>
      have inner := innermost_of_sourceOf found
      obtain ⟨b, found'⟩ := exists_sourceOf (inner.perm order)
      rw [found', untied sr listed b a ((innermost_of_sourceOf found').perm order.symm) inner]
    | none =>
      cases found' : sourceOf nodes' sr with
      | none => rfl
      | some b =>
        obtain ⟨a, found''⟩ :=
          exists_sourceOf ((innermost_of_sourceOf found').perm order.symm)
        rw [found] at found''
        cases found''
  rw [mem_links, mem_links, same]
  exact exists_congr fun a => and_congr_right fun _ => (mem_linksFrom_perm distinct order).symm

theorem edgeType_of_mem_links {sr : StaticFileRef} {e : GraphEdge} (member : e ∈ links nodes sr) :
    e.edgeType = sr.edgeType := by
  obtain ⟨a, -, linked⟩ := mem_links.mp member
  obtain ⟨c, -, -, -, rfl⟩ := mem_linksFrom.mp linked
  rfl

theorem eq_of_mem_links {sr sr' : StaticFileRef} {e e' : GraphEdge} (member : e ∈ links nodes sr)
    (member' : e' ∈ links nodes sr') (types : e.edgeType = e'.edgeType)
    (pairs : pairOf e = pairOf e') : e = e' := by
  obtain ⟨a, -, linked⟩ := mem_links.mp member
  obtain ⟨a', -, linked'⟩ := mem_links.mp member'
  obtain ⟨c, -, -, -, rfl⟩ := mem_linksFrom.mp linked
  obtain ⟨c', -, -, -, rfl⟩ := mem_linksFrom.mp linked'
  obtain ⟨sources, targets⟩ := Prod.mk.inj pairs
  dsimp only at types sources targets
  rw [types, sources, targets]

/-- **A call that is found is accounted for** by some reference. -/
theorem accounts_of_mem_links {sr : StaticFileRef} {e : GraphEdge} (member : e ∈ links nodes sr)
    (call : e.edgeType = .calls) : Accounts nodes sr e := by
  have type : sr.edgeType = .calls := (edgeType_of_mem_links member).symm.trans call
  obtain ⟨a, source, linked⟩ := mem_links.mp member
  obtain ⟨c, meant, other, -, rfl⟩ := mem_linksFrom.mp linked
  obtain ⟨candidate, elsewhere⟩ := mem_resolved meant
  obtain ⟨named, rule⟩ := List.mem_filter.mp (narrowed_subset sr a.id candidate)
  obtain ⟨d, defined, rfl⟩ := List.mem_map.mp named
  obtain ⟨inside, name⟩ := List.mem_filter.mp defined
  rw [type, Bool.and_eq_true] at rule
  refine ⟨type, a, d, innermost_of_sourceOf source, rfl, inside, rfl, of_decide_eq_true name, other,
    by simpa using rule.2, rule.1, fun differs => (elsewhere differs).imp_right fun group => ?_⟩
  exact of_isOverloadGroup group candidate

theorem mem_resolveStaticEdges {e : GraphEdge} :
    e ∈ resolveStaticEdges nodes refs ↔ ∃ before sr after, refs = before ++ sr :: after ∧
      e ∈ links nodes sr ∧ ∀ sr' ∈ before, ∀ e' ∈ links nodes sr', pairOf e' ≠ pairOf e := by
  rw [resolveStaticEdges_eq, mem_firstPer, List.find?_flatMap, List.findSome?_eq_some_iff]
  refine exists_congr fun before => exists_congr fun sr => exists_congr fun after =>
    and_congr_right fun _ => and_congr ?_ ?_
  · constructor
    · exact List.mem_of_find?_eq_some
    · intro member
      cases found : (links nodes sr).find? fun b => decide (pairOf b = pairOf e) with
      | none => exact absurd (decide_eq_true rfl) (List.find?_eq_none.mp found e member)
      | some b =>
        have listed := List.mem_of_find?_eq_some found
        have pairs : pairOf b = pairOf e := by simpa using List.find?_some found
        have types := (edgeType_of_mem_links listed).trans (edgeType_of_mem_links member).symm
        rw [eq_of_mem_links listed member types pairs]
  · simp only [List.find?_eq_none, decide_eq_true_eq, ne_eq]

theorem mem_pairs {p : String × String} :
    p ∈ (resolveStaticEdges nodes refs).map pairOf ↔
      ∃ sr ∈ refs, ∃ e ∈ links nodes sr, pairOf e = p := by
  rw [resolveStaticEdges_eq, mem_map_firstPer, List.mem_map]
  simp only [List.mem_flatMap]
  exact ⟨fun ⟨e, ⟨sr, listed, linked⟩, same⟩ => ⟨sr, listed, e, linked, same⟩,
    fun ⟨sr, listed, e, linked, same⟩ => ⟨e, ⟨sr, listed, linked⟩, same⟩⟩

theorem nodup_pairs (nodes : List GraphNode) (refs : List StaticFileRef) :
    ((resolveStaticEdges nodes refs).map pairOf).Nodup := by
  rw [resolveStaticEdges_eq]
  exact nodup_firstPer _ _

theorem mem_resolveStaticEdges_perm (distinct : (nodes.map GraphNode.id).Nodup)
    (untied : Untied nodes refs) (order : nodes.Perm nodes') {e : GraphEdge} :
    e ∈ resolveStaticEdges nodes' refs ↔ e ∈ resolveStaticEdges nodes refs := by
  rw [mem_resolveStaticEdges, mem_resolveStaticEdges]
  refine exists_congr fun before => exists_congr fun sr => exists_congr fun after =>
    and_congr_right fun split => ?_
  subst split
  refine and_congr (mem_links_perm distinct untied order (by simp)) ?_
  refine forall_congr' fun sr' => forall_congr' fun early => forall_congr' fun e' => ?_
  rw [mem_links_perm distinct untied order (by simp [early])]

theorem mem_resolveStaticEdges_of_oneType (alike : OneType nodes refs) {e : GraphEdge} :
    e ∈ resolveStaticEdges nodes refs ↔ ∃ sr ∈ refs, e ∈ links nodes sr := by
  constructor
  · intro found
    obtain ⟨before, sr, after, rfl, linked, -⟩ := mem_resolveStaticEdges.mp found
    exact ⟨sr, by simp, linked⟩
  · rintro ⟨sr, listed, linked⟩
    obtain ⟨e', found, same⟩ := List.mem_map.mp (mem_pairs.mpr ⟨sr, listed, e, linked, rfl⟩)
    obtain ⟨before, sr', after, split, linked', -⟩ := mem_resolveStaticEdges.mp found
    have types := alike sr' (split ▸ by simp) sr listed e' linked' e linked same
    rw [← edgeType_of_mem_links linked, ← edgeType_of_mem_links linked'] at types
    rwa [← eq_of_mem_links linked' linked types same]

theorem mem_resolveStaticEdges_first {sr : StaticFileRef} {e : GraphEdge}
    (linked : e ∈ links nodes sr) : e ∈ resolveStaticEdges nodes (sr :: refs) :=
  mem_resolveStaticEdges.mpr ⟨[], sr, refs, rfl, linked, fun _ none => absurd none List.not_mem_nil⟩

/-- Calls are settled: every one is accounted for, and no order changes the edges. -/
def SettledCalls (nodes : List GraphNode) (refs : List StaticFileRef) : Prop :=
  (∀ e ∈ resolveStaticEdges nodes refs, e.edgeType = .calls → ∃ sr ∈ refs, Accounts nodes sr e) ∧
    ∀ nodes' refs', nodes.Perm nodes' → refs.Perm refs' →
      ∀ e, e ∈ resolveStaticEdges nodes' refs' ↔ e ∈ resolveStaticEdges nodes refs

theorem orderFree_iff_oneType (distinct : (nodes.map GraphNode.id).Nodup)
    (untied : Untied nodes refs) :
    (∀ nodes' refs', nodes.Perm nodes' → refs.Perm refs' →
      ∀ e, e ∈ resolveStaticEdges nodes' refs' ↔ e ∈ resolveStaticEdges nodes refs) ↔
        OneType nodes refs := by
  constructor
  · intro free sr listed sr' listed' e linked e' linked' same
    -- Each of the two references may be the first one.
    have found : ∀ {sr e}, sr ∈ refs → e ∈ links nodes sr → e ∈ resolveStaticEdges nodes refs := by
      intro sr e listed linked
      exact (free nodes (sr :: refs.erase sr) (List.Perm.refl _) (List.perm_cons_erase listed) e).mp
        (mem_resolveStaticEdges_first linked)
    have equal : e = e' := by
      exact List.inj_on_of_nodup_map (nodup_pairs nodes refs) (found listed linked)
        (found listed' linked') same
    rw [← edgeType_of_mem_links linked, ← edgeType_of_mem_links linked', equal]
  · intro alike nodes' refs' order orderRefs e
    have alike' : OneType nodes refs' := fun sr listed sr' listed' =>
      alike sr (orderRefs.mem_iff.mpr listed) sr' (orderRefs.mem_iff.mpr listed')
    have untied' : Untied nodes refs' := fun sr listed => untied sr (orderRefs.mem_iff.mpr listed)
    rw [mem_resolveStaticEdges_perm distinct untied' order,
      mem_resolveStaticEdges_of_oneType alike', mem_resolveStaticEdges_of_oneType alike]
    simp only [orderRefs.mem_iff]

/-- **Static calls.** Every call is accounted for by a reference. Every pair of nodes is linked
once, by the first reference that stands for an edge between them. Without ties, which pairs are
linked does not depend on any order, the edges do not depend on the order of the nodes, and they
do not depend on the order of the references just when no two of them differ in type about the same
two nodes. -/
theorem staticCalls_accounted (distinct : (nodes.map GraphNode.id).Nodup) :
    (∀ e ∈ resolveStaticEdges nodes refs, e.edgeType = .calls →
      ∃ sr ∈ refs, Accounts nodes sr e) ∧
    ((resolveStaticEdges nodes refs).map pairOf).Nodup ∧
    (∀ e, e ∈ resolveStaticEdges nodes refs ↔ ∃ before sr after, refs = before ++ sr :: after ∧
      e ∈ links nodes sr ∧ ∀ sr' ∈ before, ∀ e' ∈ links nodes sr', pairOf e' ≠ pairOf e) ∧
    (Untied nodes refs →
      (∀ nodes', nodes.Perm nodes' →
        ∀ e, e ∈ resolveStaticEdges nodes' refs ↔ e ∈ resolveStaticEdges nodes refs) ∧
      (∀ nodes' refs', nodes.Perm nodes' → refs.Perm refs' →
        ∀ p, p ∈ (resolveStaticEdges nodes' refs').map pairOf ↔
          p ∈ (resolveStaticEdges nodes refs).map pairOf) ∧
      ((∀ nodes' refs', nodes.Perm nodes' → refs.Perm refs' →
        ∀ e, e ∈ resolveStaticEdges nodes' refs' ↔ e ∈ resolveStaticEdges nodes refs) ↔
          OneType nodes refs)) := by
  refine ⟨fun e found call => ?_, nodup_pairs nodes refs, fun e => mem_resolveStaticEdges,
    fun untied => ⟨fun nodes' order e => mem_resolveStaticEdges_perm distinct untied order,
      fun nodes' refs' order orderRefs p => ?_, orderFree_iff_oneType distinct untied⟩⟩
  · obtain ⟨before, sr, after, rfl, linked, -⟩ := mem_resolveStaticEdges.mp found
    exact ⟨sr, by simp, accounts_of_mem_links linked call⟩
  · rw [mem_pairs, mem_pairs]
    simp only [← orderRefs.mem_iff]
    refine exists_congr fun sr => and_congr_right fun listed => exists_congr fun e => ?_
    rw [mem_links_perm distinct untied order listed]

def typeAndConstructor : List GraphNode :=
  [{ id := "f", nodeType := .function, name := "build", path := "a.py", lineStart := some 1,
      lineEnd := some 9 },
    { id := "t", nodeType := .class, name := "Tree", path := "a.py", lineStart := some 20,
      lineEnd := some 30 }]

def typeThenCall : List StaticFileRef :=
  [{ filePath := "a.py", sourceLine := 2, targetName := "Tree", edgeType := .uses },
    { filePath := "a.py", sourceLine := 3, targetName := "Tree", edgeType := .calls }]

/-- The call is hidden where the type is named first, and it alone is found where it comes first. -/
theorem settledCalls_fails : ¬ ∀ (nodes : List GraphNode) (refs : List StaticFileRef),
    (nodes.map GraphNode.id).Nodup → SettledCalls nodes refs := by
  intro settled
  have free := (settled typeAndConstructor typeThenCall (by decide)).2 typeAndConstructor
    typeThenCall.reverse (List.Perm.refl _) (List.reverse_perm _).symm
    { edgeType := .calls, sourceId := "f", targetId := "t" }
  revert free
  decide +kernel

theorem staticCalls_accounted_hidden :
    (typeAndConstructor.map GraphNode.id).Nodup ∧
      ((resolveStaticEdges typeAndConstructor typeThenCall).map pairOf).Nodup ∧
      ∃ before sr after, typeThenCall = before ++ sr :: after ∧
        ({ edgeType := .uses, sourceId := "f", targetId := "t" } : GraphEdge) ∈
          links typeAndConstructor sr := by
  have held := @staticCalls_accounted typeAndConstructor typeThenCall (by decide)
  refine ⟨by decide, held.2.1, ?_⟩
  obtain ⟨before, sr, after, split, linked, -⟩ :=
    (held.2.2.1 { edgeType := .uses, sourceId := "f", targetId := "t" }).mp (by decide +kernel)
  exact ⟨before, sr, after, split, linked⟩

end References

end Lain.Ingest
