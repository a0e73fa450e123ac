import Mathlib
import Lain.Federation.GlobalIdCodec
import Lain.Foundation.ByteCursor
import Lain.Graph.Interleaving
import Lain.Server.Overlay

/-!
# Handles

A tool is told which node is meant by a handle: an id, a global id, a name or a path.
-/

namespace Lain.Server.HandleResolution

open Foundation Lain.Graph
open Contracts (RepoId)
open Federation (GlobalId repoIdNew)

/-- What is asked of the system: whether there is a file at a path, what its canonical path is, and
a text in lower case. -/
structure World where
  isFile : String → Bool
  canonicalize : String → Option String
  toLowercase : String → String

def isExplicitPath (handle : String) : Bool :=
  let text := ByteCursor.bytes handle.toList
  Text.startsWith handle "/" || Text.startsWith handle "./" || Text.startsWith handle "../" ||
    Text.startsWith handle "~/" || Text.contains handle '/' || Text.contains handle '\\' ||
    (decide (text[1]? = some 58) && (decide (text[2]? = some 92) || decide (text[2]? = some 47)))

def canonicalHandle (world : World) (handle : String) : String :=
  if isExplicitPath handle && world.isFile handle then (world.canonicalize handle).getD handle
  else handle

/-- The nodes of the overlay whose names contain a text, in any case. -/
def findNodesByName (world : World) (overlay : VolatileOverlay) (name : String) : List GraphNode :=
  overlay.getAllNodes.filter fun n =>
    decide ((world.toLowercase name).toList <:+: (world.toLowercase n.name).toList)

def byPath (db : GraphDatabase) (name path : String) : List GraphNode :=
  (db.findAllNodesByName name).filter fun n => n.path = path

/-- The first node at a line, else the first node. -/
def pick (nodes : List GraphNode) (line : Option Nat) : Option GraphNode :=
  (nodes.find? fun n => line = n.lineStart).or nodes.head?

def byGlobalId (db : GraphDatabase) (handle : String) : Option GraphNode :=
  (GlobalId.parse handle).bind fun gid =>
    match gid.name, gid.path with
    | some gname, some gpath => pick (byPath db gname gpath) gid.lineStart
    | _, _ => none

def overlayNamed (world : World) (db : GraphDatabase) (overlay : VolatileOverlay)
    (handle : String) : Option GraphNode :=
  ((findNodesByName world overlay handle).find? fun n => n.name = handle).map fun n =>
    ((db.findAllNodesByName handle).find? fun g =>
      g.path = n.path ∧ g.nodeType = n.nodeType).getD n

def findNodeByName (db : GraphDatabase) (name : String) : Option GraphNode :=
  (db.findAllNodesByName name).head?

/-- What a handle is tried as, one after the other. -/
def lookup (world : World) (db : GraphDatabase) (overlay : VolatileOverlay) (handle : String) :
    Option GraphNode :=
  (overlay.getNode handle).or <| (byGlobalId db handle).or <| (db.getNode handle).or <|
    (overlayNamed world db overlay handle).or <| (findNodeByName db handle).or <|
      (db.findNodeByPath handle).or (db.findNodeByPath (canonicalHandle world handle))

def nodeCount (db : GraphDatabase) : Nat :=
  db.graph.slots.countP Option.isSome

def resolveNode (world : World) (db : GraphDatabase) (overlay : VolatileOverlay)
    (handle : String) : Except LainError GraphNode :=
  if handle = "" then
    .error (.notFound "Handle is empty — pass a symbol name, path, or node id")
  else
    match lookup world db overlay handle with
    | some n => .ok n
    | none =>
      if nodeCount db = 0 ∧ overlay.graph.nodeCount = 0 then
        .error (.notFound (s!"Node not found for handle: {handle} — but the graph being " ++
          "searched is empty (0 nodes), so nothing would resolve. The " ++
          "workspace has probably not finished indexing; check " ++
          "`get_health`. In federation mode, pass `repo_id` (or a symbol " ++
          "that resolves to one repo) so the call binds to that repo's " ++
          "graph rather than the staging placeholder."))
      else
        .error (.notFound (s!"Node not found for handle: {handle} — the graph indexes " ++
          "committed code, so a symbol added since the last commit will not appear until it is " ++
          "committed and re-indexed"))

/-- A node as the federation has it: under its global id. -/
def projected (repo : RepoId) (n : GraphNode) : GraphNode :=
  { n with
    id := GlobalId.new repo n.nodeType n.path n.name n.lineStart
    repoId := some repo }

/-! ### What is asked of handles -/

/-- A node of a graph. -/
def Stored (db : GraphDatabase) (n : GraphNode) : Prop :=
  ∃ i, db.graph.nodeWeight i = some n

/-- The line of a node fits 32 bits. -/
def Fits (n : GraphNode) : Prop :=
  ∃ line : Option UInt32, n.lineStart = line.map UInt32.toNat

/-- **The global id of a node leads back to it**, or to a node that looks the same. -/
def RoundTrips (world : World) (db : GraphDatabase) (overlay : VolatileOverlay) (repo : RepoId)
    (n : GraphNode) : Prop :=
  ∃ m, resolveNode world db overlay (projected repo n).id = .ok m ∧ m.nodeType = n.nodeType ∧
    m.name = n.name ∧ m.path = n.path ∧ m.lineStart = n.lineStart

/-- **The global id of a node of another repository leads to no node of the graph.** -/
def KeptOut (world : World) (db : GraphDatabase) (overlay : VolatileOverlay) (other : RepoId)
    (foreign : GraphNode) : Prop :=
  ∀ m, resolveNode world db overlay (projected other foreign).id = .ok m → ¬Stored db m

structure Homonym (db : GraphDatabase) (name path : String) (m : GraphNode) : Prop where
  stored : Stored db m
  named : m.name = name
  placed : m.path = path

structure LeastId (among : GraphNode → Prop) (m : GraphNode) : Prop where
  member : among m
  le : ∀ m', among m' → m.id ≤ m'.id

/-- **The first homonym looks like the node**: the one of the least id among those at its line, which
is line zero for a node without one, and among all of them if none is there. -/
def FirstIsAlike (db : GraphDatabase) (n : GraphNode) : Prop :=
  ∀ m, LeastId (fun m => Homonym db n.name n.path m ∧
      (m.lineStart = some (n.lineStart.getD 0) ∨
        ∀ m', Homonym db n.name n.path m' → m'.lineStart ≠ some (n.lineStart.getD 0))) m →
    m.nodeType = n.nodeType ∧ m.lineStart = n.lineStart

/-- **A graph knows a foreign node**: a node of it has its name and path, or has the foreign id for
its id, its name or its path, or is at the canonical path of a file called like that. -/
def Knows (world : World) (db : GraphDatabase) (id : GlobalId) (foreign : GraphNode) : Prop :=
  ∃ m, Stored db m ∧ (m.name = foreign.name ∧ m.path = foreign.path ∨ m.id = id ∨ m.name = id ∨
    m.path = id ∨ m.path = canonicalHandle world id)

/-! ### Lookups -/

section Lookups

variable {naming : Naming} {db : GraphDatabase} {world : World} {name path handle : String}
  {m n : GraphNode}

theorem mem_findAllNodesByName (indexed : Indexed naming db) :
    m ∈ db.findAllNodesByName name ↔ Stored db m ∧ m.name = name := by
  have filed (i : Nat) : i ∈ db.nameIndex.bucket name ↔
      ∃ n, db.graph.nodeWeight i = some n ∧ n.name = name :=
    ((indexed.aligned.names name).2 i).trans slotKey_eq_some
  unfold GraphDatabase.findAllNodesByName
  rw [List.mem_mergeSort, List.mem_filterMap]
  constructor
  · rintro ⟨i, member, here⟩
    obtain ⟨n, live, named⟩ := (filed i).mp member
    rw [live] at here
    cases here
    exact ⟨⟨i, live⟩, named⟩
  · rintro ⟨⟨i, live⟩, named⟩
    exact ⟨i, (filed i).mpr ⟨m, live, named⟩, live⟩

theorem mem_byPath (indexed : Indexed naming db) :
    m ∈ byPath db name path ↔ Homonym db name path m := by
  unfold byPath
  rw [List.mem_filter, mem_findAllNodesByName indexed, decide_eq_true_iff]
  exact ⟨fun found => ⟨found.1.1, found.1.2, found.2⟩,
    fun homonym => ⟨⟨homonym.stored, homonym.named⟩, homonym.placed⟩⟩

theorem pairwise_byPath (db : GraphDatabase) (name path : String) :
    (byPath db name path).Pairwise fun a b => a.id ≤ b.id := by
  have sorted : (db.findAllNodesByName name).Pairwise fun a b =>
      a.path < b.path ∨ a.path = b.path ∧ a.id ≤ b.id := by
    unfold GraphDatabase.findAllNodesByName
    refine (List.pairwise_mergeSort ?_ ?_ _).imp fun {a b} ordered => of_decide_eq_true ordered
    · intro a b c first second
      rw [decide_eq_true_iff] at first second ⊢
      rcases first with first | ⟨same, first⟩ <;> rcases second with second | ⟨same', second⟩
      · exact .inl (first.trans second)
      · exact .inl (same' ▸ first)
      · exact .inl (same ▸ second)
      · exact .inr ⟨same.trans same', first.trans second⟩
    · intro a b
      rw [Bool.or_eq_true, decide_eq_true_iff, decide_eq_true_iff]
      rcases lt_trichotomy a.path b.path with below | same | above
      · exact .inl (.inl below)
      · rcases le_total a.id b.id with first | second
        · exact .inl (.inr ⟨same, first⟩)
        · exact .inr (.inr ⟨same.symm, second⟩)
      · exact .inr (.inl above)
  refine List.Pairwise.imp_of_mem ?_ (sorted.filter _)
  intro a b inA inB ordered
  have placedA := of_decide_eq_true (List.mem_filter.mp inA).2
  have placedB := of_decide_eq_true (List.mem_filter.mp inB).2
  rcases ordered with apart | ⟨-, ordered⟩
  · exact absurd (placedA.trans placedB.symm) (ne_of_lt apart)
  · exact ordered

theorem eq_of_id (indexed : Indexed naming db) (left : Stored db m) (right : Stored db n)
    (same : m.id = n.id) : m = n := by
  obtain ⟨i, here⟩ := left
  obtain ⟨j, there⟩ := right
  have first := (indexed.aligned.ids m.id i).mpr (slotKey_eq_some.mpr ⟨m, here, rfl⟩)
  have second := (indexed.aligned.ids m.id j).mpr (slotKey_eq_some.mpr ⟨n, there, same.symm⟩)
  rw [first] at second
  cases second
  rw [here] at there
  exact Option.some_inj.mp there

theorem leastId_of_find? {l : List GraphNode} (sorted : l.Pairwise fun a b => a.id ≤ b.id)
    {p : GraphNode → Bool} (found : l.find? p = some m) :
    LeastId (fun m => m ∈ l ∧ p m = true) m := by
  obtain ⟨holds, front, rest, rfl, before⟩ := List.find?_eq_some_iff_append.mp found
  refine ⟨⟨List.mem_append_right _ List.mem_cons_self, holds⟩, ?_⟩
  rintro m' ⟨member, holds'⟩
  rcases List.mem_append.mp member with early | late
  · have fails := before m' early
    rw [holds'] at fails
    cases fails
  · rcases List.mem_cons.mp late with rfl | late
    · exact le_rfl
    · exact List.rel_of_pairwise_cons (List.pairwise_append.mp sorted).2.1 late

theorem pick_eq_some (indexed : Indexed naming db) {line : Nat}
    (picked : pick (byPath db name path) (some line) = some m) :
    LeastId (fun m => Homonym db name path m ∧ (m.lineStart = some line ∨
      ∀ m', Homonym db name path m' → m'.lineStart ≠ some line)) m := by
  have sorted := pairwise_byPath db name path
  unfold pick at picked
  cases found : (byPath db name path).find? fun n => some line = n.lineStart with
  | some exact_ =>
    rw [found, Option.some_or, Option.some_inj] at picked
    subst picked
    have least := leastId_of_find? sorted found
    have there := (mem_byPath indexed).mp least.member.1
    have at_ := (of_decide_eq_true least.member.2).symm
    refine ⟨⟨there, .inl at_⟩, ?_⟩
    rintro m' ⟨homonym, here | nowhere⟩
    · exact least.le m' ⟨(mem_byPath indexed).mpr homonym, decide_eq_true here.symm⟩
    · exact absurd at_ (nowhere _ there)
  | none =>
    rw [found, Option.none_or] at picked
    have nowhere : ∀ m', Homonym db name path m' → m'.lineStart ≠ some line :=
      fun m' homonym here => absurd (decide_eq_true here.symm)
        (List.find?_eq_none.mp found m' ((mem_byPath indexed).mpr homonym))
    have first : (byPath db name path).find? (fun _ => true) = some m := by
      rw [← picked]
      cases byPath db name path <;> rfl
    have least := leastId_of_find? sorted first
    exact ⟨⟨(mem_byPath indexed).mp least.member.1, .inr nowhere⟩, fun m' member =>
      least.le m' ⟨(mem_byPath indexed).mpr member.1, rfl⟩⟩

theorem exists_pick {l : List GraphNode} (member : m ∈ l) (line : Option Nat) :
    ∃ n, pick l line = some n := by
  unfold pick
  cases l with
  | nil => cases member
  | cons first rest =>
    cases (first :: rest).find? fun n => line = n.lineStart with
    | none => exact ⟨first, rfl⟩
    | some n => exact ⟨n, rfl⟩

theorem mem_of_pick {l : List GraphNode} {line : Option Nat} (picked : pick l line = some m) :
    m ∈ l := by
  unfold pick at picked
  rcases Option.or_eq_some_iff.mp picked with found | ⟨-, first⟩
  · exact List.mem_of_find?_eq_some found
  · exact List.mem_of_head? first

theorem getNode_of_empty {overlay : VolatileOverlay} (empty : overlay.getAllNodes = [])
    (id : String) : overlay.getNode id = none := by
  have bare (i : Nat) : overlay.graph.nodeWeight i = none := by
    unfold DiGraph.nodeWeight
    rw [show overlay.graph.nodes = [] from empty]
    rfl
  unfold VolatileOverlay.getNode
  split
  · rfl
  · rw [Option.bind_eq_none_iff]
    exact fun i _ => bare i

theorem overlayNamed_of_empty {overlay : VolatileOverlay} (empty : overlay.getAllNodes = [])
    (handle : String) : overlayNamed world db overlay handle = none := by
  unfold overlayNamed findNodesByName
  rw [empty]
  rfl

end Lookups

/-! ### Global ids as handles -/

section Handles

variable {naming : Naming} {db : GraphDatabase} {world : World} {overlay : VolatileOverlay}
  {m n : GraphNode} {text : String} {repo : RepoId}

theorem findNodeByPath_eq_none (indexed : Indexed naming db) {path : String} :
    db.findNodeByPath path = none ↔ ∀ m, Stored db m → m.path ≠ path := by
  have filed (i : Nat) : i ∈ db.pathIndex.bucket path ↔
      ∃ n, db.graph.nodeWeight i = some n ∧ n.path = path :=
    ((indexed.paths path).2 i).trans slotKey_eq_some
  unfold GraphDatabase.findNodeByPath
  rw [List.findSome?_eq_none_iff]
  constructor
  · rintro none_ m ⟨i, live⟩ placed
    exact Option.some_ne_none m (live.symm.trans (none_ i ((filed i).mpr ⟨m, live, placed⟩)))
  · intro absent i member
    obtain ⟨m, live, placed⟩ := (filed i).mp member
    exact absurd placed (absent m ⟨i, live⟩)

theorem findNodeByName_eq_none (indexed : Indexed naming db) {name : String} :
    findNodeByName db name = none ↔ ∀ m, Stored db m → m.name ≠ name := by
  unfold findNodeByName
  rw [List.head?_eq_none_iff, List.eq_nil_iff_forall_not_mem]
  exact forall_congr' fun m => by
    rw [mem_findAllNodesByName indexed, not_and]

theorem getNode_eq_none (indexed : Indexed naming db) {id : String} :
    db.getNode id = none ↔ ∀ m, Stored db m → m.id ≠ id := by
  unfold GraphDatabase.getNode
  rw [Option.bind_eq_none_iff]
  constructor
  · rintro none_ m ⟨i, live⟩ named
    have located := (indexed.aligned.ids id i).mpr (slotKey_eq_some.mpr ⟨m, live, named⟩)
    exact Option.some_ne_none m (live.symm.trans (none_ i located))
  · intro absent i located
    obtain ⟨m, live, named⟩ := slotKey_eq_some.mp ((indexed.aligned.ids id i).mp located)
    exact absurd named (absent m ⟨i, live⟩)

theorem stored_of_lookup (indexed : Indexed naming db) (empty : overlay.getAllNodes = [])
    {handle : String} (found : lookup world db overlay handle = some m) : Stored db m := by
  unfold lookup at found
  rw [getNode_of_empty empty, overlayNamed_of_empty empty, Option.none_or, Option.none_or]
    at found
  simp only [Option.or_eq_some_iff] at found
  rcases found with byId | ⟨-, byId | ⟨-, byName | ⟨-, byPath_ | ⟨-, byPath_⟩⟩⟩⟩
  · obtain ⟨gid, -, read⟩ := Option.bind_eq_some_iff.mp byId
    split at read
    · exact ((mem_byPath indexed).mp (mem_of_pick read)).stored
    · cases read
  · obtain ⟨i, -, live⟩ := Option.bind_eq_some_iff.mp byId
    exact ⟨i, live⟩
  · exact ((mem_findAllNodesByName indexed).mp (List.mem_of_head? byName)).1
  · obtain ⟨i, -, live⟩ := List.exists_of_findSome?_eq_some byPath_
    exact ⟨i, live⟩
  · obtain ⟨i, -, live⟩ := List.exists_of_findSome?_eq_some byPath_
    exact ⟨i, live⟩

theorem byGlobalId_projected (db : GraphDatabase) (valid : repoIdNew text = some repo)
    (fits : Fits n) :
    byGlobalId db (projected repo n).id =
      pick (byPath db n.name n.path) (some (n.lineStart.getD 0)) := by
  obtain ⟨line, spelled⟩ := fits
  have id_ : (projected repo n).id =
      GlobalId.new repo n.nodeType n.path n.name (line.map UInt32.toNat) := by
    rw [← spelled]
    rfl
  have read : (line.getD 0).toNat = n.lineStart.getD 0 := by
    rw [spelled]
    cases line <;> rfl
  unfold byGlobalId
  rw [id_, GlobalId.parse_new valid, Option.bind_some, GlobalId.name_new valid,
    GlobalId.path_new valid, GlobalId.lineStart_new valid, read]

theorem id_projected_ne (valid : repoIdNew text = some repo) (n : GraphNode) :
    (projected repo n).id ≠ "" := by
  intro none_
  have pieces := GlobalId.split_new valid n.nodeType n.path n.name n.lineStart
  rw [show GlobalId.new repo n.nodeType n.path n.name n.lineStart = "" from none_] at pieces
  cases pieces

theorem resolveNode_eq_ok {handle : String} (filled : handle ≠ "") :
    resolveNode world db overlay handle = .ok m ↔ lookup world db overlay handle = some m := by
  unfold resolveNode
  rw [if_neg filled]
  cases lookup world db overlay handle with
  | some found => exact ⟨fun same => by cases same; rfl, fun same => by cases same; rfl⟩
  | none =>
    dsimp only
    split_ifs <;> simp

/-- **A global id leads back** exactly if the first homonym looks like its node. -/
theorem roundTrips_iff (indexed : Indexed naming db) (empty : overlay.getAllNodes = [])
    (valid : repoIdNew text = some repo) (stored : Stored db n) (fits : Fits n) :
    RoundTrips world db overlay repo n ↔ FirstIsAlike db n := by
  obtain ⟨first, picked⟩ := exists_pick ((mem_byPath indexed).mpr ⟨stored, rfl, rfl⟩)
    (some (n.lineStart.getD 0))
  have least := pick_eq_some indexed picked
  have found : lookup world db overlay (projected repo n).id = some first := by
    unfold lookup
    rw [getNode_of_empty empty, Option.none_or, byGlobalId_projected db valid fits, picked,
      Option.some_or]
  have resolved := (resolveNode_eq_ok (id_projected_ne valid n)).mpr found
  constructor
  · rintro ⟨m, also, kind, -, -, line⟩ m' least'
    rw [resolved] at also
    cases also
    have same : m' = first := eq_of_id indexed least'.member.1.stored least.member.1.stored
      (le_antisymm (least'.le _ least.member) (least.le _ least'.member))
    rw [same]
    exact ⟨kind, line⟩
  · intro alike
    obtain ⟨kind, line⟩ := alike first least
    exact ⟨first, resolved, kind, least.member.1.named, least.member.1.placed, line⟩

theorem keptOut_iff (indexed : Indexed naming db) (empty : overlay.getAllNodes = [])
    (valid : repoIdNew text = some repo) (fits : Fits n) :
    KeptOut world db overlay repo n ↔ ¬Knows world db (projected repo n).id n := by
  have nothing : KeptOut world db overlay repo n ↔
      lookup world db overlay (projected repo n).id = none := by
    unfold KeptOut
    constructor
    · intro kept
      refine Option.eq_none_iff_forall_ne_some.mpr fun m found => ?_
      exact kept m ((resolveNode_eq_ok (id_projected_ne valid n)).mpr found)
        (stored_of_lookup indexed empty found)
    · intro none_ m resolved
      rw [(resolveNode_eq_ok (id_projected_ne valid n)).mp resolved] at none_
      cases none_
  have picked : byGlobalId db (projected repo n).id = none ↔
      ∀ m, Stored db m → m.name = n.name → m.path ≠ n.path := by
    rw [byGlobalId_projected db valid fits]
    constructor
    · intro none_ m stored named placed
      obtain ⟨first, some_⟩ := exists_pick ((mem_byPath indexed).mpr ⟨stored, named, placed⟩)
        (some (n.lineStart.getD 0))
      exact Option.some_ne_none first (some_.symm.trans none_)
    · intro absent
      refine Option.eq_none_iff_forall_ne_some.mpr fun m found => ?_
      have homonym := (mem_byPath indexed).mp (mem_of_pick found)
      exact absent m homonym.stored homonym.named homonym.placed
  rw [nothing]
  unfold lookup Knows
  rw [getNode_of_empty empty, overlayNamed_of_empty empty, Option.none_or, Option.none_or]
  simp only [Option.or_eq_none_iff, picked, getNode_eq_none indexed,
    findNodeByName_eq_none indexed, findNodeByPath_eq_none indexed]
  push Not
  constructor
  · rintro ⟨apart, ids, names, paths, canonical⟩ m stored
    exact ⟨apart m stored, ids m stored, names m stored, paths m stored, canonical m stored⟩
  · intro unknown
    exact ⟨fun m stored => (unknown m stored).1,
      fun m stored => (unknown m stored).2.1, fun m stored => (unknown m stored).2.2.1,
      fun m stored => (unknown m stored).2.2.2.1, fun m stored => (unknown m stored).2.2.2.2⟩

end Handles

/-- **Global ids as handles.** The id of a node leads back to it exactly if the first homonym at its
line looks like it, and the id of a node of another repository leads to no node exactly if the graph
does not know that node. -/
theorem resolveNode_iff {naming : Naming} {db : GraphDatabase} (indexed : Indexed naming db)
    {overlay : VolatileOverlay} (empty : overlay.getAllNodes = []) (world : World)
    {text other : String} {repo repo' : RepoId} (valid : repoIdNew text = some repo)
    (valid' : repoIdNew other = some repo') {n foreign : GraphNode} (stored : Stored db n)
    (fits : Fits n) (fits' : Fits foreign) :
    (RoundTrips world db overlay repo n ↔ FirstIsAlike db n) ∧
      (KeptOut world db overlay repo' foreign ↔
        ¬Knows world db (projected repo' foreign).id foreign) :=
  ⟨roundTrips_iff indexed empty valid stored fits, keptOut_iff indexed empty valid' fits'⟩

/-! ### A class and its constructor -/

def classNode : GraphNode :=
  { id := "1", nodeType := .«class», name := "Lamp", path := "Lamp.java", lineStart := some 0 }

def constructorNode : GraphNode :=
  { id := "2", nodeType := .method, name := "Lamp", path := "Lamp.java", lineStart := some 0 }

def lampGraph : GraphDatabase :=
  (([classNode, constructorNode].foldlM GraphDatabase.putNode {}).getD {})

def bareWorld : World :=
  ⟨fun _ => false, fun _ => none, id⟩

theorem indexed_lampGraph :
    Indexed ⟨fun _ => "Lamp.java", fun _ => "Lamp"⟩ lampGraph := by
  have canonical : ∀ n ∈ [classNode, constructorNode],
      (⟨fun _ => "Lamp.java", fun _ => "Lamp"⟩ : Naming).Canonical n := by
    intro n member
    simp only [List.mem_cons, List.not_mem_nil, or_false] at member
    rcases member with rfl | rfl <;> exact ⟨rfl, rfl⟩
  obtain ⟨db, made, indexed⟩ := Indexed.putNodes canonical (Indexed.empty _)
  unfold lampGraph
  rw [made]
  exact indexed

theorem stored_classNode : Stored lampGraph classNode := ⟨0, by decide +kernel⟩

theorem stored_constructorNode : Stored lampGraph constructorNode := ⟨1, by decide +kernel⟩

theorem stored_lampGraph {m : GraphNode} (stored : Stored lampGraph m) :
    m = classNode ∨ m = constructorNode := by
  obtain ⟨i, live⟩ := stored
  match i with
  | 0 => exact .inl (Option.some_inj.mp (live.symm.trans (by decide +kernel)))
  | 1 => exact .inr (Option.some_inj.mp (live.symm.trans (by decide +kernel)))
  | i + 2 => cases live

theorem resolveNode_iff_class :
    (RoundTrips bareWorld lampGraph .new "shop" classNode ↔ FirstIsAlike lampGraph classNode) ∧
      (KeptOut bareWorld lampGraph .new "tools" { classNode with path := "Desk.java" } ↔
        ¬Knows bareWorld lampGraph
          (projected "tools" { classNode with path := "Desk.java" }).id
          { classNode with path := "Desk.java" }) :=
  resolveNode_iff indexed_lampGraph rfl bareWorld (by decide +kernel : repoIdNew "shop" = some _)
    (by decide +kernel : repoIdNew "tools" = some _) stored_classNode ⟨some 0, rfl⟩ ⟨some 0, rfl⟩

/-- The id of the constructor leads to the class, and so does the id of a class of another
repository. -/
theorem resolveNode_fails :
    ¬RoundTrips bareWorld lampGraph .new "shop" constructorNode ∧
      ¬KeptOut bareWorld lampGraph .new "tools" classNode := by
  constructor
  · rw [roundTrips_iff indexed_lampGraph rfl (by decide +kernel : repoIdNew "shop" = some _)
      stored_constructorNode ⟨some 0, rfl⟩]
    intro alike
    have first : LeastId (fun m => Homonym lampGraph "Lamp" "Lamp.java" m ∧
        (m.lineStart = some 0 ∨
          ∀ m', Homonym lampGraph "Lamp" "Lamp.java" m' → m'.lineStart ≠ some 0)) classNode := by
      refine ⟨⟨⟨stored_classNode, rfl, rfl⟩, .inl rfl⟩, ?_⟩
      rintro m ⟨homonym, -⟩
      rcases stored_lampGraph homonym.stored with rfl | rfl
      · exact le_rfl
      · exact of_decide_eq_true (by decide +kernel)
    exact absurd (alike classNode first).1 (by decide)
  · rw [keptOut_iff indexed_lampGraph rfl (by decide +kernel : repoIdNew "tools" = some _)
      ⟨some 0, rfl⟩, not_not]
    exact ⟨classNode, stored_classNode, .inl ⟨rfl, rfl⟩⟩

end Lain.Server.HandleResolution
