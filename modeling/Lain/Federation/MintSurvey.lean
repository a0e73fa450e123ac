import Mathlib
import Lain.Federation.MintedEdges

/-!
# What a second pass sees

A pass makes file nodes for the files it has sightings in.
-/

namespace Lain.Federation

open Foundation Contracts Lain.Graph

/-! ### The file nodes of a pass -/

def fileId (repo : RepoId) (path : String) : GlobalId :=
  GlobalId.new repo .file path ((fileName path).getD "") none

theorem repoId_fileId {text : String} {repo : RepoId} (valid : repoIdNew text = some repo)
    (path : String) : GlobalId.repoId (fileId repo path) = text := by
  unfold fileId
  rw [GlobalId.repoId, GlobalId.split_new valid]
  exact (repoIdNew_eq_some valid).1

theorem fileId_injective {text text' : String} {repo repo' : RepoId}
    (valid : repoIdNew text = some repo) (valid' : repoIdNew text' = some repo')
    {path path' : String} (same : fileId repo path = fileId repo' path') : path = path' := by
  unfold fileId at same
  have pieces := congrArg (Text.split · ':') same
  simp only [GlobalId.split_new valid, GlobalId.split_new valid', List.cons.injEq] at pieces
  exact encodeSegment_injective pieces.2.2.1

inductive Makes (first : Resolving) : Resolving → Prop where
  | start : Makes first first
  | next {state : Resolving} {text path : String} {repo : RepoId} : Makes first state →
      repoIdNew text = some repo → state.index.files.get? (toLex (text, path)) = none →
      Makes first
        { index := { state.index with
            files := state.index.files.insert (toLex (text, path)) (fileId repo path) }
          newFileNodes :=
            state.newFileNodes ++ [(fileId repo path, path, (fileName path).getD "")] }

theorem Makes.trans {first middle last : Resolving} (before : Makes first middle)
    (after : Makes middle last) : Makes first last := by
  induction after with
  | start => exact before
  | next _ valid absent ih => exact .next ih valid absent

theorem Makes.index {first last : Resolving} (makes : Makes first last) :
    last.index = { first.index with files := last.index.files } := by
  induction makes with
  | start => rfl
  | next _ _ _ ih => rw [ih]

theorem Makes.kept {first last : Resolving} (makes : Makes first last)
    {place : String ×ₗ String} {id : String} (found : first.index.files.get? place = some id) :
    last.index.files.get? place = some id := by
  induction makes with
  | start => exact found
  | @next state text path repo _ _ absent ih =>
    rw [SortedMap.get?_insert, if_neg]
    · exact ih
    · rintro rfl
      rw [ih] at absent
      cases absent

theorem Makes.unmade {first last : Resolving} (makes : Makes first last)
    {place : String ×ₗ String} (invalid : repoIdNew (ofLex place).1 = none)
    (absent : first.index.files.get? place = none) : last.index.files.get? place = none := by
  induction makes with
  | start => exact absent
  | @next state text path repo _ valid _ ih =>
    rw [SortedMap.get?_insert, if_neg]
    · exact ih
    · rintro rfl
      exact absurd (invalid.symm.trans valid) (Option.some_ne_none _).symm

theorem makes_resolveEndpoint (state : Resolving) (occ : AnchorOccurrence) :
    Makes state (resolveEndpoint state occ).1 := by
  unfold resolveEndpoint
  split
  · exact .start
  next nothing =>
      dsimp only
      split
      · exact .start
      next repo valid => exact .next .start valid (Option.or_eq_none_iff.mp nothing).2

/-! ### Resolving again -/

def Resolving.settled (state : Resolving) : Resolving where
  index := state.index

/-- **A sighting is resolved as before** when the files are there. -/
theorem resolveEndpoint_again {state last : Resolving} {occ : AnchorOccurrence}
    (later : Makes (resolveEndpoint state occ).1 last) :
    resolveEndpoint last.settled occ = (last.settled, (resolveEndpoint state occ).2) := by
  have whole := (makes_resolveEndpoint state occ).trans later
  have same : last.settled.index.resolve occ = state.index.resolve occ := by
    change last.index.resolve occ = _
    rw [whole.index]
    rfl
  unfold resolveEndpoint at later ⊢
  rw [same]
  cases resolved : state.index.resolve occ with
  | some id => rfl
  | none =>
    rw [resolved] at later
    rw [Option.none_or, Option.none_or] at *
    cases found : state.index.files.get? (toLex (occ.repo, occ.path)) with
    | some id =>
      have kept : last.settled.index.files.get? (toLex (occ.repo, occ.path)) = some id :=
        whole.kept found
      rw [kept]
    | none =>
      rw [found] at later
      dsimp only at later ⊢
      cases valid : repoIdNew occ.repo with
      | none =>
        have absent : last.settled.index.files.get? (toLex (occ.repo, occ.path)) = none :=
          whole.unmade valid found
        rw [absent]
      | some repo =>
        rw [valid] at later
        have made : last.settled.index.files.get? (toLex (occ.repo, occ.path)) =
            some (fileId repo occ.path) := by
          refine later.kept ?_
          dsimp only
          rw [SortedMap.get?_insert, if_pos rfl]
          rfl
        rw [made]
        rfl

theorem resolveGroup_concat (state : Resolving) (occs : List AnchorOccurrence)
    (occ : AnchorOccurrence) :
    resolveGroup state (occs ++ [occ]) =
      ((resolveEndpoint (resolveGroup state occs).1 occ).1,
        (resolveEndpoint (resolveGroup state occs).1 occ).2.elim (resolveGroup state occs).2
          fun id => (resolveGroup state occs).2.extend occ.repo [id]) := by
  unfold resolveGroup
  rw [List.foldl_append, List.foldl_cons, List.foldl_nil]
  rw [← resolveGroup]
  rcases resolveEndpoint (resolveGroup state occs).1 occ with ⟨last, _ | id⟩ <;> rfl

theorem makes_resolveGroup (state : Resolving) (occs : List AnchorOccurrence) :
    Makes state (resolveGroup state occs).1 := by
  induction occs using List.reverseRecOn with
  | nil => exact .start
  | append_singleton occs occ ih =>
    rw [resolveGroup_concat]
    exact ih.trans (makes_resolveEndpoint _ occ)

theorem resolveGroup_again {state last : Resolving} {occs : List AnchorOccurrence}
    (later : Makes (resolveGroup state occs).1 last) :
    resolveGroup last.settled occs = (last.settled, (resolveGroup state occs).2) := by
  induction occs using List.reverseRecOn with
  | nil => rfl
  | append_singleton occs occ ih =>
    rw [resolveGroup_concat] at later
    rw [resolveGroup_concat, resolveGroup_concat,
      ih ((makes_resolveEndpoint _ occ).trans later)]
    dsimp only at later ⊢
    rw [resolveEndpoint_again later]

theorem makes_addGroup (survey : Survey)
    (group : (AnchorKind ×ₗ String) × List AnchorOccurrence) :
    Makes survey.state (survey.addGroup group).state := by
  unfold Survey.addGroup
  dsimp only
  split_ifs
  · exact makes_resolveGroup survey.state group.2
  · exact makes_resolveGroup survey.state group.2

theorem makes_foldl_addGroup (survey : Survey)
    (groups : List ((AnchorKind ×ₗ String) × List AnchorOccurrence)) :
    Makes survey.state (groups.foldl Survey.addGroup survey).state := by
  induction groups generalizing survey with
  | nil => exact .start
  | cons group groups ih => exact (makes_addGroup survey group).trans (ih _)

theorem addGroup_again {survey : Survey} {last : Resolving}
    {group : (AnchorKind ×ₗ String) × List AnchorOccurrence}
    (later : Makes (survey.addGroup group).state last) :
    ({ survey with state := last.settled } : Survey).addGroup group =
      { survey.addGroup group with state := last.settled } := by
  have onward : Makes (resolveGroup survey.state group.2).1 last := by
    unfold Survey.addGroup at later
    dsimp only at later
    split_ifs at later
    · exact later
    · exact later
  unfold Survey.addGroup
  dsimp only
  rw [resolveGroup_again onward]
  dsimp only
  split_ifs
  · rfl
  · rfl

theorem foldl_addGroup_again {last : Resolving}
    (groups : List ((AnchorKind ×ₗ String) × List AnchorOccurrence)) :
    ∀ {survey : Survey}, Makes (groups.foldl Survey.addGroup survey).state last →
      groups.foldl Survey.addGroup { survey with state := last.settled } =
        { groups.foldl Survey.addGroup survey with state := last.settled } := by
  induction groups with
  | nil => exact fun _ => rfl
  | cons group groups ih =>
    intro survey later
    rw [List.foldl_cons, List.foldl_cons,
      addGroup_again ((makes_foldl_addGroup _ groups).trans later)]
    exact ih later

section Survey

variable {text : MinerText} {nodes again : List GraphNode}

theorem makes_takeSurvey (groups : AnchorGroups) :
    Makes { index := nodeIndex text nodes } (takeSurvey text nodes groups).state :=
  makes_foldl_addGroup { state := { index := nodeIndex text nodes } } groups.entries

theorem takeSurvey_again {groups : AnchorGroups}
    (indexed : nodeIndex text again = (takeSurvey text nodes groups).state.index) :
    takeSurvey text again groups =
      { takeSurvey text nodes groups with
        state := (takeSurvey text nodes groups).state.settled } := by
  have folded := @foldl_addGroup_again (takeSurvey text nodes groups).state groups.entries
    { state := { index := nodeIndex text nodes } } .start
  have started : takeSurvey text again groups = groups.entries.foldl Survey.addGroup
      { state := (takeSurvey text nodes groups).state.settled } := by
    unfold Resolving.settled
    rw [← indexed]
    rfl
  exact started.trans folded

end Survey

/-! ### The index of nodes -/

def filePlace (n : GraphNode) : Option (String ×ₗ String) :=
  if n.nodeType = .file then (GlobalId.parse n.id).map fun gid => toLex (gid.repoId, n.path)
  else none

def indexFile (files : SortedMap (String ×ₗ String) String) (n : GraphNode) :
    SortedMap (String ×ₗ String) String :=
  match filePlace n with
  | some place => files.insertNew place n.id
  | none => files

theorem addNode_file {text : MinerText} {index : NodeIndex} {n : GraphNode}
    (file : n.nodeType = .file) :
    index.addNode text n = { index with files := indexFile index.files n } := by
  unfold NodeIndex.addNode indexFile filePlace
  rw [if_pos file]
  cases GlobalId.parse n.id with
  | none => rfl
  | some gid =>
    rw [file]
    rfl

theorem addNode_other {text : MinerText} {index : NodeIndex} {n : GraphNode}
    (other : n.nodeType ≠ .file) (files : SortedMap (String ×ₗ String) String) :
    ({ index with files } : NodeIndex).addNode text n =
      { index.addNode text n with files } := by
  unfold NodeIndex.addNode
  cases GlobalId.parse n.id with
  | none => rfl
  | some gid =>
    dsimp only
    split
    next file => exact absurd file other
    next => split <;> rfl
    next => rfl
    next => split <;> rfl

theorem indexFile_other {files : SortedMap (String ×ₗ String) String} {n : GraphNode}
    (other : n.nodeType ≠ .file) : indexFile files n = files := by
  unfold indexFile filePlace
  rw [if_neg other]

/-- **An index is that of the other nodes, with the files.** -/
theorem foldl_addNode (text : MinerText) (nodes : List GraphNode) :
    ∀ index : NodeIndex, nodes.foldl (NodeIndex.addNode text) index =
      { (nodes.filter fun n => decide (n.nodeType ≠ .file)).foldl (NodeIndex.addNode text) index
        with files := nodes.foldl indexFile index.files } := by
  induction nodes with
  | nil => exact fun _ => rfl
  | cons n nodes ih =>
    intro index
    by_cases file : n.nodeType = .file
    · rw [List.foldl_cons, ih, addNode_file file, List.filter_cons_of_neg (by simp [file]),
        List.foldl_cons]
      have apart : ∀ (later : List GraphNode) (index : NodeIndex)
          (files : SortedMap (String ×ₗ String) String),
          (∀ m ∈ later, m.nodeType ≠ .file) →
          later.foldl (NodeIndex.addNode text) { index with files } =
            { later.foldl (NodeIndex.addNode text) index with files } := by
        intro later
        induction later with
        | nil => exact fun _ _ _ => rfl
        | cons m later rest =>
          intro index files others
          rw [List.foldl_cons, List.foldl_cons, addNode_other (others m List.mem_cons_self)]
          exact rest _ files fun m' member => others m' (List.mem_cons_of_mem _ member)
      rw [apart _ _ _ fun m member => of_decide_eq_true (List.mem_filter.mp member).2]
    · rw [List.foldl_cons, ih, List.filter_cons_of_pos (by simpa using file), List.foldl_cons,
        List.foldl_cons, indexFile_other file]
      have kept : (index.addNode text n).files = index.files := by
        have same := congrArg NodeIndex.files (@addNode_other text index n file index.files)
        exact same
      rw [kept]

theorem get?_foldl_indexFile (nodes : List GraphNode) (place : String ×ₗ String) :
    ∀ files : SortedMap (String ×ₗ String) String,
      (nodes.foldl indexFile files).get? place =
        (files.get? place).or ((nodes.find? fun n => decide (filePlace n = some place)).map
          GraphNode.id) := by
  induction nodes with
  | nil => exact fun files => (Option.or_none).symm
  | cons n nodes ih =>
    intro files
    rw [List.foldl_cons, ih]
    unfold indexFile
    by_cases here : filePlace n = some place
    · rw [List.find?_cons_of_pos (by simpa using here), here]
      dsimp only
      rw [SortedMap.get?_insertNew, if_pos rfl]
      cases files.get? place <;> rfl
    · rw [List.find?_cons_of_neg (by simpa using here)]
      cases elsewhere : filePlace n with
      | none => rfl
      | some other =>
        dsimp only
        rw [SortedMap.get?_insertNew, if_neg]
        rintro rfl
        exact here elsewhere

/-- **A new file node is indexed at its place**, whatever slot it takes. -/
theorem nodeIndex_insert {text : MinerText} {front back : List GraphNode} {n : GraphNode}
    {place : String ×ₗ String} (file : filePlace n = some place)
    (absent : (nodeIndex text (front ++ back)).files.get? place = none) :
    nodeIndex text (front ++ n :: back) =
      { nodeIndex text (front ++ back) with
        files := (nodeIndex text (front ++ back)).files.insert place n.id } := by
  have isFile : n.nodeType = .file := by
    by_contra other
    unfold filePlace at file
    rw [if_neg other] at file
    cases file
  have others : (front ++ n :: back).filter (fun n => decide (n.nodeType ≠ .file)) =
      (front ++ back).filter fun n => decide (n.nodeType ≠ .file) := by
    rw [List.filter_append, List.filter_append, List.filter_cons_of_neg (by simp [isFile])]
  have files : ∀ nodes : List GraphNode, (nodeIndex text nodes).files =
      nodes.foldl indexFile ∅ := by
    intro nodes
    unfold nodeIndex
    rw [foldl_addNode]
    rfl
  have whole : ∀ nodes : List GraphNode, nodeIndex text nodes =
      { nodeIndex text (nodes.filter fun n => decide (n.nodeType ≠ .file)) with
        files := nodes.foldl indexFile ∅ } := by
    intro nodes
    unfold nodeIndex
    rw [foldl_addNode]
    rfl
  rw [files] at absent
  rw [whole (front ++ n :: back), whole (front ++ back), others]
  refine congrArg (fun files => { nodeIndex text ((front ++ back).filter fun n =>
    decide (n.nodeType ≠ .file)) with files }) (SortedMap.ext_get? fun other => ?_)
  rw [SortedMap.get?_insert, get?_foldl_indexFile, get?_foldl_indexFile]
  rw [get?_foldl_indexFile] at absent
  have empty : (∅ : SortedMap (String ×ₗ String) String).get? other = none := rfl
  have empty' : (∅ : SortedMap (String ×ₗ String) String).get? place = none := rfl
  rw [empty', Option.none_or, Option.map_eq_none_iff, List.find?_append,
    Option.or_eq_none_iff] at absent
  rw [empty, Option.none_or, Option.none_or, List.find?_append, List.find?_append]
  by_cases same : other = place
  · subst same
    rw [if_pos rfl, absent.1, List.find?_cons_of_pos (by simpa using file)]
    rfl
  · rw [if_neg same, List.find?_cons_of_neg]
    rw [file]
    simpa using fun equal => same equal.symm

theorem topicLabels_insert {front back : List GraphNode} {n : GraphNode}
    (file : n.nodeType = .file) :
    topicLabels (front ++ n :: back) = topicLabels (front ++ back) := by
  have other : n.nodeType ≠ .topic := by
    rw [file]
    exact fun same => by cases same
  unfold topicLabels
  rw [List.foldl_append, List.foldl_append, List.foldl_cons, if_neg other]

/-! ### The nodes that a pass adds -/

theorem exists_slots_addNode {N E : Type*} (g : StableGraph N E) (n : N) :
    ∃ front back, g.slots.filterMap id = front ++ back ∧
      (g.addNode n).slots.filterMap id = front ++ n :: back := by
  unfold StableGraph.addNode
  split
  next vacant =>
      refine ⟨g.slots.filterMap id, [], (List.append_nil _).symm, ?_⟩
      dsimp only
      rw [List.filterMap_append]
      rfl
  next j rest vacant =>
      have hole : g.slots[j]? = some none :=
        (g.mem_free j).mp (by rw [vacant]; exact List.mem_cons_self)
      obtain ⟨inside, empty⟩ := List.getElem?_eq_some_iff.mp hole
      refine ⟨(g.slots.take j).filterMap id, (g.slots.drop (j + 1)).filterMap id, ?_, ?_⟩
      · conv_lhs => rw [← List.take_append_drop j g.slots, List.drop_eq_getElem_cons inside, empty]
        rw [List.filterMap_append, List.filterMap_cons]
        rfl
      · dsimp only
        rw [List.set_eq_take_append_cons_drop, if_pos inside, List.filterMap_append,
          List.filterMap_cons]
        rfl

theorem nodesOf_putNode {db after : GraphDatabase} {n : GraphNode}
    (unknown : db.indexMap.lookup n.id = none) (put : db.putNode n = some after) :
    ∃ front back, nodesOf db = front ++ back ∧ nodesOf after = front ++ n :: back := by
  unfold GraphDatabase.putNode at put
  rw [unknown] at put
  obtain rfl := Option.some.inj put
  exact exists_slots_addNode db.graph n

def fileNode (file : String × String × String) : GraphNode where
  id := file.1
  nodeType := .file
  name := file.2.2
  path := file.2.1

/-- **The ids of files are spelled by their paths**: a node with the id of a file is that file. -/
def SpelledFiles (db : GraphDatabase) : Prop :=
  ∀ n ∈ nodesOf db, ∀ text repo path, repoIdNew text = some repo → n.id = fileId repo path →
    n.nodeType = .file ∧ n.path = path

theorem filePlace_file {n : GraphNode} {text path : String} {repo : RepoId}
    (valid : repoIdNew text = some repo) (file : n.nodeType = .file) (there : n.path = path)
    (named : n.id = fileId repo path) : filePlace n = some (toLex (text, path)) := by
  unfold filePlace
  have parsed : GlobalId.parse n.id = some n.id := by
    rw [named]
    exact GlobalId.parse_new valid .file path _ none
  rw [if_pos file, parsed, Option.map_some, there, named, repoId_fileId valid]

theorem lookup_eq_none_of_absent {db : GraphDatabase} {text : MinerText} {name path : String}
    {repo : RepoId} (consistent : Consistent db) (spelled : SpelledFiles db)
    (valid : repoIdNew name = some repo)
    (absent : (nodeIndex text (nodesOf db)).files.get? (toLex (name, path)) = none) :
    db.indexMap.lookup (fileId repo path) = none := by
  cases located : db.indexMap.lookup (fileId repo path) with
  | none => rfl
  | some i =>
    obtain ⟨n, live, named⟩ := consistent.live_of_lookup located
    have listed : n ∈ nodesOf db := by
      refine List.mem_filterMap.mpr ⟨some n, ?_, rfl⟩
      exact List.mem_of_getElem? (StableGraph.nodeWeight_eq_some.mp live)
    obtain ⟨file, there⟩ := spelled n listed name repo path valid named
    have files : (nodeIndex text (nodesOf db)).files = (nodesOf db).foldl indexFile ∅ := by
      unfold nodeIndex
      rw [foldl_addNode]
      rfl
    rw [files, get?_foldl_indexFile] at absent
    have nowhere := (Option.or_eq_none_iff.mp absent).2
    rw [Option.map_eq_none_iff, List.find?_eq_none] at nowhere
    exact absurd (decide_eq_true (filePlace_file valid file there named)) (nowhere n listed)

/-- What a pass over a graph makes up is indexed once it is there. -/
structure Indexed (text : MinerText) (db after : GraphDatabase) (state : Resolving) : Prop where
  consistent : Consistent after
  spelled : SpelledFiles after
  index : nodeIndex text (nodesOf after) = state.index
  labels : topicLabels (nodesOf after) = topicLabels (nodesOf db)

/-- **The file nodes of a pass are indexed** in the graph that it leaves. -/
theorem indexed_of_makes {text : MinerText} {db : GraphDatabase} {state : Resolving}
    (consistent : Consistent db) (spelled : SpelledFiles db)
    (makes : Makes { index := nodeIndex text (nodesOf db) } state) {after : GraphDatabase}
    (put : (state.newFileNodes.map fileNode).foldlM GraphDatabase.putNode db = some after) :
    Indexed text db after state := by
  induction makes generalizing after with
  | start =>
    obtain rfl := Option.some.inj put
    exact ⟨consistent, spelled, rfl, rfl⟩
  | @next state name path repo makes valid absent ih =>
    dsimp only at put
    rw [List.map_append, List.foldlM_append] at put
    obtain ⟨middle, before, one⟩ := Option.bind_eq_some_iff.mp put
    obtain ⟨consistent', spelled', index, labels⟩ := ih before
    rw [List.map_singleton, List.foldlM_cons] at one
    obtain ⟨last, stored, same⟩ := Option.bind_eq_some_iff.mp one
    obtain rfl := Option.some.inj same
    have absent' : (nodeIndex text (nodesOf middle)).files.get? (toLex (name, path)) = none := by
      rw [index]
      exact absent
    have kept : Consistent last := by
      obtain ⟨last', step, steps, -⟩ := Steps.putNode consistent'
        (fileNode (fileId repo path, path, (fileName path).getD ""))
      obtain rfl := Option.some.inj (stored.symm.trans step)
      exact steps.consistent
    obtain ⟨front, back, nodes_middle, nodes_last⟩ :=
      nodesOf_putNode (lookup_eq_none_of_absent consistent' spelled' valid absent') stored
    have place : filePlace (fileNode (fileId repo path, path, (fileName path).getD "")) =
        some (toLex (name, path)) := filePlace_file valid rfl rfl rfl
    rw [nodes_middle] at index labels absent'
    refine ⟨kept, ?_, ?_, ?_⟩
    · intro n listed text' repo' path' valid' named
      rw [nodes_last] at listed
      rcases List.mem_append.mp listed with inFront | inBack
      · exact spelled' n (nodes_middle ▸ List.mem_append_left _ inFront) text' repo' path' valid'
          named
      · rcases List.mem_cons.mp inBack with rfl | inBack
        · exact ⟨rfl, fileId_injective valid valid' named⟩
        · exact spelled' n (nodes_middle ▸ List.mem_append_right _ inBack) text' repo' path'
            valid' named
    · rw [nodes_last, nodeIndex_insert place absent', index]
      rfl
    · rw [nodes_last, topicLabels_insert rfl, labels]

end Lain.Federation
