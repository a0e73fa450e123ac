import Mathlib
import Lain.Foundation.DeferredIndex
import Lain.Foundation.Runs
import Lain.Graph.IndexRuns

/-!
# Removals beside writers

`removeNodesByIds` frees the slots of its nodes under the graph lock and cleans the three indexes
after it has released it, one access at a time.
-/

namespace Lain.Graph

open Foundation GraphDatabase

namespace GraphDatabase

/-- The nodes filed under a path, as a reader that holds the graph lock finds them. -/
def getNodesInPath (db : GraphDatabase) (path : String) : List GraphNode :=
  (db.pathIndex.bucket path).filterMap db.graph.nodeWeight

/-- The first node filed under a path. -/
def findNodeByPath (db : GraphDatabase) (path : String) : Option GraphNode :=
  (db.pathIndex.bucket path).findSome? db.graph.nodeWeight

/-- The nodes filed under a name, by path and then by id. -/
def findAllNodesByName (db : GraphDatabase) (name : String) : List GraphNode :=
  ((db.nameIndex.bucket name).filterMap db.graph.nodeWeight).mergeSort fun a b =>
    decide (a.path < b.path ∨ a.path = b.path ∧ a.id ≤ b.id)

structure ReadsTrue (db : GraphDatabase) : Prop where
  ids : ∀ id n, db.getNode id = some n → n.id = id
  paths : ∀ path, ∀ n ∈ db.getNodesInPath path, n.path = path
  first : ∀ path n, db.findNodeByPath path = some n → n.path = path
  names : ∀ name, ∀ n ∈ db.findAllNodesByName name, n.name = name

end GraphDatabase

/-- The state a call ends in, unless it panics. -/
def Outcome.after {α : Type} : Outcome α → Option GraphDatabase
  | .ok db _ => some db
  | .error db _ => some db
  | .panicked => none

structure Cleanup where
  ids : List String
  paths : Unfiling String
  names : Unfiling String

namespace Cleanup

/-- The next index access: forget an id, then unfile the paths, then the names. -/
def next (db : GraphDatabase) (c : Cleanup) : Option (GraphDatabase × Cleanup) :=
  match c.ids with
  | id :: rest => some ({ db with indexMap := db.indexMap.erase id }, { c with ids := rest })
  | [] =>
    match c.paths.next db.pathIndex with
    | some (pathIndex, paths) => some ({ db with pathIndex }, { c with paths })
    | none =>
      match c.names.next db.nameIndex with
      | some (nameIndex, names) => some ({ db with nameIndex }, { c with names })
      | none => none

def Done (c : Cleanup) : Prop :=
  c.ids = [] ∧ c.paths.Done ∧ c.names.Done

instance (c : Cleanup) : Decidable c.Done :=
  inferInstanceAs (Decidable (_ ∧ _))

theorem next_ids {db db' : GraphDatabase} {c c' : Cleanup} (moved : c.next db = some (db', c')) :
    db'.graph = db.graph ∧
      ((∃ id, c.ids = id :: c'.ids ∧ db'.indexMap = db.indexMap.erase id) ∨
        c'.ids = c.ids ∧ db'.indexMap = db.indexMap) := by
  unfold next at moved
  split at moved
  next id rest shape =>
      obtain ⟨rfl, rfl⟩ := Prod.mk.inj (Option.some.inj moved)
      exact ⟨rfl, .inl ⟨id, shape, rfl⟩⟩
  next shape =>
      split at moved
      · obtain ⟨rfl, rfl⟩ := Prod.mk.inj (Option.some.inj moved)
        exact ⟨rfl, .inr ⟨rfl, rfl⟩⟩
      · split at moved
        · obtain ⟨rfl, rfl⟩ := Prod.mk.inj (Option.some.inj moved)
          exact ⟨rfl, .inr ⟨rfl, rfl⟩⟩
        · cases moved

end Cleanup

/-- A database with the removals that have released its lock. -/
structure World where
  db : GraphDatabase
  cleanups : List Cleanup := []

inductive World.Event where
  | removeNodesByIds (ids : List String)
  | upsertNode (node : GraphNode)
  | insertNodesBatch (nodes : List GraphNode)
  | clean (removal : Nat)

namespace World

def step (w : World) : Event → Option World
  | .removeNodesByIds ids =>
    if w.db.readOnly then some w
    else
      let r := w.db.removeLocked ids
      some
        { db := { w.db with graph := r.graph }
          cleanups := w.cleanups ++
            [{ ids, paths := ⟨r.clearedPaths, none⟩, names := ⟨r.clearedNames, none⟩ }] }
  | .upsertNode node =>
    (w.db.upsertNode node).outcome.after.map fun db => { w with db }
  | .insertNodesBatch nodes =>
    (w.db.insertNodesBatch nodes).outcome.after.map fun db => { w with db }
  | .clean removal =>
    match w.cleanups[removal]? with
    | none => none
    | some c =>
      match c.next w.db with
      | none => none
      | some (db, c') => some { db, cleanups := w.cleanups.set removal c' }

def Quiet (w : World) : Prop :=
  ∀ c ∈ w.cleanups, c.Done

instance quietDecidable (w : World) : Decidable w.Quiet :=
  inferInstanceAs (Decidable (∀ c ∈ w.cleanups, c.Done))

end World

/-- An insertion that no unfinished removal will undo or be misled by: its id is not to be
forgotten, and where it takes a slot, that slot is not to be unfiled and its path and name are
not about to be removed. -/
structure Clear (cleanups : List Cleanup) (db : GraphDatabase) (node : GraphNode) : Prop where
  id : ∀ c ∈ cleanups, node.id ∉ c.ids
  slot : db.indexMap.lookup node.id = none → ∀ c ∈ cleanups,
    ∀ entry ∈ c.paths.slots ++ c.names.slots, entry.2 ≠ db.graph.nextIndex
  keys : db.indexMap.lookup node.id = none → ∀ c ∈ cleanups,
    c.paths.emptied ≠ some node.path ∧ c.names.emptied ≠ some node.name

instance clearDecidable (cleanups : List Cleanup) (db : GraphDatabase) (node : GraphNode) :
    Decidable (Clear cleanups db node) :=
  decidable_of_iff (_ ∧ _ ∧ _)
    ⟨fun clear => ⟨clear.1, clear.2.1, clear.2.2⟩,
      fun clear => ⟨clear.id, clear.slot, clear.keys⟩⟩

def ClearAll (cleanups : List Cleanup) : GraphDatabase → List GraphNode → Prop
  | _, [] => True
  | db, node :: rest =>
    Clear cleanups db node ∧
      match db.putNode node with
      | none => True
      | some db' => ClearAll cleanups db' rest

instance clearAllDecidable (cleanups : List Cleanup) :
    (db : GraphDatabase) → (nodes : List GraphNode) → Decidable (ClearAll cleanups db nodes)
  | _, [] => .isTrue trivial
  | db, node :: rest =>
    @instDecidableAnd _ _ (clearDecidable cleanups db node)
      (match db.putNode node with
      | none => .isTrue trivial
      | some db' => clearAllDecidable cleanups db' rest)

/-- The nodes a step inserts. -/
def World.Event.nodes : World.Event → List GraphNode
  | .upsertNode node => [node]
  | .insertNodesBatch nodes => nodes
  | _ => []

/-- A step that inserts only nodes with the path and name of their id. -/
def World.Event.Canonical (naming : Naming) (event : World.Event) : Prop :=
  ∀ n ∈ event.nodes, naming.Canonical n

instance canonicalDecidable (naming : Naming) (event : World.Event) :
    Decidable (event.Canonical naming) :=
  inferInstanceAs (Decidable (∀ n ∈ event.nodes, _ ∧ _))

/-- A step whose insertions are clear of the removals under way. -/
def World.Event.Clear (naming : Naming) (w : World) (event : World.Event) : Prop :=
  event.Canonical naming ∧ ClearAll w.cleanups w.db event.nodes

instance eventClearDecidable (naming : Naming) (w : World) (event : World.Event) :
    Decidable (event.Clear naming w) :=
  inferInstanceAs (Decidable (_ ∧ _))

/-- The indexes of a database with unfinished removals: exact, but for entries of vacated slots
that one of the removals will take out. -/
structure Kept (naming : Naming) (cleanups : List Cleanup) (db : GraphDatabase) : Prop where
  canonical : ∀ i n, db.graph.nodeWeight i = some n → naming.Canonical n
  located : ∀ id i, slotKey db.graph GraphNode.id i = some id →
    db.indexMap.lookup id = some i
  /-- The id of a node in the graph is not to be forgotten. -/
  unforgotten : ∀ id i, slotKey db.graph GraphNode.id i = some id →
    ∀ c ∈ cleanups, id ∉ c.ids
  /-- An id leads to its node, or to a vacated slot that the removal of the id has still to
  unfile. -/
  led : ∀ id i, db.indexMap.lookup id = some i →
    slotKey db.graph GraphNode.id i = some id ∨
      slotKey db.graph GraphNode.id i = none ∧
        ∃ c ∈ cleanups, id ∈ c.ids ∧ ∃ path, (path, i) ∈ c.paths.slots
  paths : db.pathIndex.Filed (slotKey db.graph GraphNode.path) (cleanups.map Cleanup.paths)
  names : db.nameIndex.Filed (slotKey db.graph GraphNode.name) (cleanups.map Cleanup.names)

namespace Kept

variable {naming : Naming} {cleanups : List Cleanup} {db : GraphDatabase}

theorem of_indexed (indexed : Indexed naming db) : Kept naming [] db where
  canonical := indexed.aligned.canonical
  located := fun id i held => (indexed.aligned.ids id i).mpr held
  unforgotten := fun id i _ c member => by cases member
  led := fun id i located => .inl ((indexed.aligned.ids id i).mp located)
  paths := .of_indexes indexed.paths
  names := .of_indexes indexed.aligned.names

theorem exact (kept : Kept naming cleanups db) (quiet : ∀ c ∈ cleanups, c.Done) :
    db.IndexesExact where
  ids := by
    intro id i
    refine ⟨fun located => ?_, kept.located id i⟩
    rcases kept.led id i located with held | ⟨_, c, member, forgotten, _⟩
    · exact held
    · rw [(quiet c member).1] at forgotten
      cases forgotten
  paths := kept.paths.indexes fun u member => by
    obtain ⟨c, here, rfl⟩ := List.mem_map.mp member
    exact (quiet c here).2.1
  names := kept.names.indexes fun u member => by
    obtain ⟨c, here, rfl⟩ := List.mem_map.mp member
    exact (quiet c here).2.2

private theorem key_of_filed {m : SlotIndex String} {key : GraphNode → String}
    {pending : List (Unfiling String)} (filed : m.Filed (slotKey db.graph key) pending)
    {k : String} {i : Nat} {n : GraphNode} (member : i ∈ m.bucket k)
    (live : db.graph.nodeWeight i = some n) : key n = k := by
  rcases filed.explained k i member with held | due
  · obtain ⟨m, weight, named⟩ := slotKey_eq_some.mp held
    rw [live] at weight
    cases weight
    exact named
  · have gone := filed.vacated k i due
    simp [slotKey, live] at gone

theorem readsTrue (kept : Kept naming cleanups db) : db.ReadsTrue where
  ids := by
    intro id n found
    obtain ⟨i, located, live⟩ := Option.bind_eq_some_iff.mp found
    rcases kept.led id i located with held | ⟨gone, _⟩
    · obtain ⟨m, weight, named⟩ := slotKey_eq_some.mp held
      rw [live] at weight
      cases weight
      exact named
    · simp [slotKey, live] at gone
  paths := by
    intro path n found
    obtain ⟨i, member, live⟩ := List.mem_filterMap.mp found
    exact key_of_filed kept.paths member live
  first := by
    intro path n found
    obtain ⟨i, member, live⟩ := List.exists_of_findSome?_eq_some found
    exact key_of_filed kept.paths member live
  names := by
    intro name n found
    obtain ⟨i, member, live⟩ := List.mem_filterMap.mp (List.mem_mergeSort.mp found)
    exact key_of_filed kept.names member live

theorem putNode (kept : Kept naming cleanups db) {node : GraphNode}
    (canonical : naming.Canonical node) (clear : Clear cleanups db node) :
    ∃ db', db.putNode node = some db' ∧ Kept naming cleanups db' := by
  unfold GraphDatabase.putNode
  cases located : db.indexMap.lookup node.id with
  | none =>
    obtain ⟨vacant, filled, others⟩ := Aligned.slotKey_addNode db.graph GraphNode.id node
    have undue : ∀ key,
        ¬ SlotIndex.Due (cleanups.map Cleanup.paths) key db.graph.nextIndex ∧
          ¬ SlotIndex.Due (cleanups.map Cleanup.names) key db.graph.nextIndex := by
      intro key
      constructor
      · rintro ⟨u, member, due⟩
        obtain ⟨c, here, rfl⟩ := List.mem_map.mp member
        exact clear.slot located c here _ (List.mem_append_left _ due) rfl
      · rintro ⟨u, member, due⟩
        obtain ⟨c, here, rfl⟩ := List.mem_map.mp member
        exact clear.slot located c here _ (List.mem_append_right _ due) rfl
    refine ⟨_, rfl, ?_, ?_, ?_, ?_, ?_, ?_⟩
    · intro i n weight
      rw [StableGraph.nodeWeight_addNode] at weight
      split at weight
      · cases weight
        exact canonical
      · exact kept.canonical i n weight
    · intro id i held
      by_cases here : i = db.graph.nextIndex
      · subst here
        obtain rfl : node.id = id := Option.some.inj (filled.symm.trans held)
        exact AList.lookup_insert _
      · have old := kept.located id i (others i here ▸ held)
        have apart : id ≠ node.id := by
          rintro rfl
          rw [located] at old
          cases old
        exact (AList.lookup_insert_ne apart).trans old
    · intro id i held c member
      by_cases here : i = db.graph.nextIndex
      · subst here
        obtain rfl : node.id = id := Option.some.inj (filled.symm.trans held)
        exact clear.id c member
      · exact kept.unforgotten id i (others i here ▸ held) c member
    · intro id i found
      by_cases same : id = node.id
      · subst same
        obtain rfl := Option.some.inj ((AList.lookup_insert _).symm.trans found)
        exact .inl filled
      · have old := (AList.lookup_insert_ne same).symm.trans found
        rcases kept.led id i old with held | ⟨gone, c, member, forgotten, path, due⟩
        · have apart : i ≠ db.graph.nextIndex := by
            rintro rfl
            rw [vacant] at held
            cases held
          exact .inl ((others i apart).trans held)
        · have apart : i ≠ db.graph.nextIndex := by
            rintro rfl
            exact (undue path).1 ⟨c.paths, List.mem_map_of_mem member, due⟩
          exact .inr ⟨(others i apart).trans gone, c, member, forgotten, path, due⟩
    · obtain ⟨free, filed, rest⟩ := Aligned.slotKey_addNode db.graph GraphNode.path node
      refine kept.paths.push free filed rest (fun key => (undue key).1) ?_
      rintro ⟨u, member, wiped⟩
      obtain ⟨c, here, rfl⟩ := List.mem_map.mp member
      exact (clear.keys located c here).1 wiped
    · obtain ⟨free, filed, rest⟩ := Aligned.slotKey_addNode db.graph GraphNode.name node
      refine kept.names.push free filed rest (fun key => (undue key).2) ?_
      rintro ⟨u, member, wiped⟩
      obtain ⟨c, here, rfl⟩ := List.mem_map.mp member
      exact (clear.keys located c here).2 wiped
  | some i =>
    have held : slotKey db.graph GraphNode.id i = some node.id := by
      rcases kept.led node.id i located with held | ⟨_, c, member, forgotten, _⟩
      · exact held
      · exact absurd forgotten (clear.id c member)
    obtain ⟨existing, live, sameId⟩ := slotKey_eq_some.mp held
    simp only [live]
    split
    · obtain ⟨samePath, sameName⟩ := Aligned.canonical_agree canonical
        (kept.canonical i existing live) sameId.symm
      have ids := Aligned.slotKey_setNode GraphNode.id live sameId.symm
      refine ⟨_, rfl, ?_, ?_, ?_, ?_, ?_, ?_⟩
      · intro j n weight
        rw [StableGraph.nodeWeight_setNode] at weight
        split at weight
        · cases weight
          exact canonical
        · exact kept.canonical j n weight
      · exact fun id j there => kept.located id j (ids j ▸ there)
      · exact fun id j there => kept.unforgotten id j (ids j ▸ there)
      · intro id j found
        rw [ids j]
        exact kept.led id j found
      · exact kept.paths.congr (Aligned.slotKey_setNode GraphNode.path live samePath)
      · exact kept.names.congr (Aligned.slotKey_setNode GraphNode.name live sameName)
    · exact ⟨db, rfl, kept⟩

theorem putNodes (nodes : List GraphNode) (canonical : ∀ n ∈ nodes, naming.Canonical n) :
    ∀ {db : GraphDatabase}, Kept naming cleanups db → ClearAll cleanups db nodes →
      ∃ db', nodes.foldlM GraphDatabase.putNode db = some db' ∧ Kept naming cleanups db' := by
  induction nodes with
  | nil => exact fun kept _ => ⟨_, rfl, kept⟩
  | cons node rest ih =>
    intro db kept clear
    obtain ⟨middle, put, keptMiddle⟩ := kept.putNode (canonical node (by simp)) clear.1
    have later := clear.2
    simp only [put] at later
    obtain ⟨final, run, keptFinal⟩ :=
      ih (fun n member => canonical n (by simp [member])) keptMiddle later
    exact ⟨final, by simp [List.foldlM_cons, put, run], keptFinal⟩

end Kept

def Leads (db : GraphDatabase) (ids : List String) (i : Nat) : Prop :=
  ∃ id ∈ ids, db.indexMap.lookup id = some i

structure Vacates (db : GraphDatabase) (ids : List String) (r : Removal) : Prop where
  gone : ∀ i, Leads db ids i → r.graph.nodeWeight i = none
  left : ∀ i, ¬ Leads db ids i → r.graph.nodeWeight i = db.graph.nodeWeight i
  paths : ∀ path i, (path, i) ∈ r.clearedPaths ↔
    Leads db ids i ∧ slotKey db.graph GraphNode.path i = some path
  names : ∀ name i, (name, i) ∈ r.clearedNames ↔
    Leads db ids i ∧ slotKey db.graph GraphNode.name i = some name

private theorem leads_append (db : GraphDatabase) (ids : List String) (id : String) (i : Nat) :
    Leads db (ids ++ [id]) i ↔ Leads db ids i ∨ db.indexMap.lookup id = some i := by
  simp [Leads, or_and_right, exists_or]

private theorem Vacates.idle {db : GraphDatabase} {ids : List String} {r : Removal}
    (vacates : Vacates db ids r) {id : String}
    (absent : ∀ i, db.indexMap.lookup id = some i → r.graph.nodeWeight i = none) :
    Vacates db (ids ++ [id]) r := by
  have noted : ∀ (key : GraphNode → String) (listed : List (String × Nat)),
      (∀ k i, (k, i) ∈ listed ↔ Leads db ids i ∧ slotKey db.graph key i = some k) →
        ∀ k i, (k, i) ∈ listed ↔
          Leads db (ids ++ [id]) i ∧ slotKey db.graph key i = some k := by
    intro key listed exactly k i
    rw [exactly, leads_append]
    constructor
    · exact fun ⟨led, held⟩ => ⟨.inl led, held⟩
    · rintro ⟨led | here, held⟩
      · exact ⟨led, held⟩
      · by_contra other
        have gone := absent i here
        rw [vacates.left i fun led => other ⟨led, held⟩] at gone
        simp [slotKey, gone] at held
  refine ⟨?_, ?_, noted _ _ vacates.paths, noted _ _ vacates.names⟩
  · intro i led
    exact ((leads_append db ids id i).mp led).elim (vacates.gone i) (absent i)
  · exact fun i other => vacates.left i fun led => other ((leads_append db ids id i).mpr (.inl led))

private theorem Vacates.one {db : GraphDatabase} {ids : List String} {r : Removal}
    (vacates : Vacates db ids r) {id : String} {idx : Nat} {node : GraphNode}
    (located : db.indexMap.lookup id = some idx) (weight : r.graph.nodeWeight idx = some node) :
    Vacates db (ids ++ [id])
      { graph := r.graph.removeNode idx
        clearedPaths := r.clearedPaths ++ [(node.path, idx)]
        clearedNames := r.clearedNames ++ [(node.name, idx)]
        removed := r.removed + 1 } := by
  have fresh : ¬ Leads db ids idx := by
    intro led
    rw [vacates.gone idx led] at weight
    cases weight
  have original := (vacates.left idx fresh).symm.trans weight
  have here : ∀ i, db.indexMap.lookup id = some i ↔ i = idx := by
    intro i
    rw [located, Option.some.injEq, eq_comm]
  have noted : ∀ (key : GraphNode → String) (listed : List (String × Nat)),
      (∀ k i, (k, i) ∈ listed ↔ Leads db ids i ∧ slotKey db.graph key i = some k) →
        ∀ k i, (k, i) ∈ listed ++ [(key node, idx)] ↔
          Leads db (ids ++ [id]) i ∧ slotKey db.graph key i = some k := by
    intro key listed exactly k i
    have mine : (k = key node ∧ i = idx) ↔ i = idx ∧ slotKey db.graph key i = some k := by
      constructor
      · rintro ⟨rfl, rfl⟩
        exact ⟨rfl, by simp [slotKey, original]⟩
      · rintro ⟨rfl, held⟩
        simp only [slotKey, original, Option.map_some, Option.some.injEq] at held
        exact ⟨held.symm, rfl⟩
    rw [List.mem_append, exactly, List.mem_singleton, Prod.mk.injEq, mine, leads_append, here,
      or_and_right]
  refine ⟨?_, ?_, noted _ _ vacates.paths, noted _ _ vacates.names⟩
  · intro i led
    rw [StableGraph.nodeWeight_removeNode]
    split
    · rfl
    next other =>
        exact vacates.gone i (((leads_append db ids id i).mp led).resolve_right fun same =>
          other ((here i).mp same))
  · intro i other
    have apart : i ≠ idx := fun same =>
      other ((leads_append db ids id i).mpr (.inr ((here i).mpr same)))
    rw [StableGraph.nodeWeight_removeNode, if_neg apart]
    exact vacates.left i fun led => other ((leads_append db ids id i).mpr (.inl led))

theorem removeLocked_vacates (db : GraphDatabase) (ids : List String) :
    Vacates db ids (db.removeLocked ids) := by
  induction ids using List.reverseRecOn with
  | nil => refine ⟨?_, fun i _ => rfl, ?_, ?_⟩ <;> simp [Leads, removeLocked]
  | append_singleton ids id ih =>
    have step : db.removeLocked (ids ++ [id]) =
        (db.removeLocked ids).remove db.indexMap id := by
      simp [removeLocked]
    rw [step]
    unfold Removal.remove
    cases located : db.indexMap.lookup id with
    | none => exact ih.idle fun i here => by rw [located] at here; cases here
    | some idx =>
      cases weight : (db.removeLocked ids).graph.nodeWeight idx with
      | none =>
        simp only [weight]
        refine ih.idle fun i here => ?_
        obtain rfl := Option.some.inj (located.symm.trans here)
        exact weight
      | some node =>
        simp only [weight]
        exact ih.one located weight

namespace Kept

variable {naming : Naming} {cleanups : List Cleanup} {db : GraphDatabase}

theorem remove (kept : Kept naming cleanups db) {ids : List String} {r : Removal}
    (vacates : Vacates db ids r) :
    Kept naming
      (cleanups ++ [{ ids, paths := ⟨r.clearedPaths, none⟩, names := ⟨r.clearedNames, none⟩ }])
      { db with graph := r.graph } := by
  have live : ∀ i n, r.graph.nodeWeight i = some n →
      db.graph.nodeWeight i = some n ∧ ¬ Leads db ids i := by
    intro i n weight
    have other : ¬ Leads db ids i := by
      intro led
      rw [vacates.gone i led] at weight
      cases weight
    exact ⟨(vacates.left i other).symm.trans weight, other⟩
  have held : ∀ key : GraphNode → String, ∀ i k, slotKey r.graph key i = some k →
      slotKey db.graph key i = some k ∧ ¬ Leads db ids i := by
    intro key i k here
    obtain ⟨n, weight, named⟩ := slotKey_eq_some.mp here
    exact ⟨slotKey_eq_some.mpr ⟨n, (live i n weight).1, named⟩, (live i n weight).2⟩
  have gone : ∀ key : GraphNode → String, ∀ i, Leads db ids i → slotKey r.graph key i = none :=
    fun key i led => by simp [slotKey, vacates.gone i led]
  have left : ∀ key : GraphNode → String, ∀ i,
      slotKey r.graph key i = none ∨ slotKey r.graph key i = slotKey db.graph key i := by
    intro key i
    by_cases led : Leads db ids i
    · exact .inl (gone key i led)
    · exact .inr (by simp [slotKey, vacates.left i led])
  -- A slot of the graph that is vacated is one that an id of the removal leads to.
  have cleared : ∀ (key : GraphNode → String) (noted : List (String × Nat)),
      (∀ k i, (k, i) ∈ noted ↔ Leads db ids i ∧ slotKey db.graph key i = some k) →
        ∀ k i, (k, i) ∈ noted ↔
          slotKey db.graph key i = some k ∧ slotKey r.graph key i = none := by
    intro key noted exactly k i
    rw [exactly]
    constructor
    · rintro ⟨led, filed⟩
      exact ⟨filed, gone key i led⟩
    · rintro ⟨filed, vacated⟩
      refine ⟨?_, filed⟩
      by_contra other
      have same : slotKey r.graph key i = slotKey db.graph key i := by
        simp [slotKey, vacates.left i other]
      rw [same, filed] at vacated
      cases vacated
  refine ⟨fun i n weight => kept.canonical i n (live i n weight).1,
    fun id i here => kept.located id i (held _ i id here).1, ?_, ?_, ?_, ?_⟩
  · intro id i here c member
    obtain ⟨old, other⟩ := held _ i id here
    rcases List.mem_append.mp member with earlier | new
    · exact kept.unforgotten id i old c earlier
    · obtain rfl := List.mem_singleton.mp new
      exact fun listed => other ⟨id, listed, kept.located id i old⟩
  · intro id i found
    rcases kept.led id i found with old | ⟨vacant, c, member, forgotten, path, due⟩
    · by_cases led : Leads db ids i
      · obtain ⟨other, listed, leads⟩ := led
        have same : other = id := by
          rcases kept.led other i leads with there | ⟨vacant, _⟩
          · exact Option.some.inj (there.symm.trans old)
          · rw [vacant] at old
            cases old
        subst same
        obtain ⟨n, weight, _⟩ := slotKey_eq_some.mp old
        refine .inr ⟨gone _ i ⟨other, listed, leads⟩, _,
          List.mem_append_right _ (List.mem_singleton_self _), listed, n.path, ?_⟩
        exact (vacates.paths n.path i).mpr
          ⟨⟨other, listed, leads⟩, slotKey_eq_some.mpr ⟨n, weight, rfl⟩⟩
      · refine .inl ?_
        simpa [slotKey, vacates.left i led] using old
    · refine .inr ⟨?_, c, List.mem_append_left _ member, forgotten, path, due⟩
      exact (left _ i).elim (fun gone => gone) fun same => same.trans vacant
  · rw [List.map_append]
    exact kept.paths.vacate (cleared _ _ vacates.paths) (left _)
  · rw [List.map_append]
    exact kept.names.vacate (cleared _ _ vacates.names) (left _)

theorem clean {before after : List Cleanup} {c c' : Cleanup} {db' : GraphDatabase}
    (kept : Kept naming (before ++ c :: after) db) (moved : c.next db = some (db', c')) :
    Kept naming (before ++ c' :: after) db' := by
  have mine : c ∈ before ++ c :: after := by simp
  -- With no id left to forget, this removal explains no entry of the id index.
  have others : c.ids = [] → ∀ id i, db.indexMap.lookup id = some i →
      slotKey db.graph GraphNode.id i = some id ∨
        slotKey db.graph GraphNode.id i = none ∧
          ∃ d ∈ before ++ c' :: after, id ∈ d.ids ∧ ∃ path, (path, i) ∈ d.paths.slots := by
    intro finished id i found
    refine (kept.led id i found).imp_right fun ⟨gone, d, member, forgotten, due⟩ => ?_
    rcases mem_replaced (b := c') member with rfl | there
    · rw [finished] at forgotten
      cases forgotten
    · exact ⟨gone, d, there, forgotten, due⟩
  have unforgotten : (∀ id ∈ c'.ids, id ∈ c.ids) → ∀ id i,
      slotKey db.graph GraphNode.id i = some id → ∀ d ∈ before ++ c' :: after, id ∉ d.ids := by
    intro fewer id i held d member
    rcases mem_replaced (b := c) member with rfl | there
    · exact fun listed => kept.unforgotten id i held c mine (fewer id listed)
    · exact kept.unforgotten id i held d there
  unfold Cleanup.next at moved
  split at moved
  next id rest shape =>
      obtain ⟨rfl, rfl⟩ := Prod.mk.inj (Option.some.inj moved)
      refine ⟨kept.canonical, ?_, unforgotten fun other listed => ?_, ?_, ?_, ?_⟩
      · intro other i held
        have apart : other ≠ id := by
          rintro rfl
          exact kept.unforgotten other i held c mine (by simp [shape])
        exact (AList.lookup_erase_ne apart).trans (kept.located other i held)
      · simp only [shape]
        exact List.mem_cons_of_mem _ listed
      · intro other i found
        have apart : other ≠ id := by
          rintro rfl
          rw [AList.lookup_erase] at found
          cases found
        rw [AList.lookup_erase_ne apart] at found
        refine (kept.led other i found).imp_right fun ⟨gone, d, member, forgotten, due⟩ => ?_
        rcases mem_replaced (b := { c with ids := rest }) member with rfl | there
        · rw [shape] at forgotten
          exact ⟨gone, _, List.mem_append_right _ List.mem_cons_self,
            (List.mem_cons.mp forgotten).resolve_left apart, due⟩
        · exact ⟨gone, d, there, forgotten, due⟩
      · simpa using kept.paths
      · simpa using kept.names
  next finished =>
      split at moved
      next pathIndex paths access =>
          obtain ⟨rfl, rfl⟩ := Prod.mk.inj (Option.some.inj moved)
          refine ⟨kept.canonical, kept.located, unforgotten fun _ listed => listed,
            others finished, ?_, by simpa using kept.names⟩
          have filed := kept.paths
          rw [List.map_append, List.map_cons] at filed ⊢
          exact filed.next access
      next =>
          split at moved
          next nameIndex names access =>
              obtain ⟨rfl, rfl⟩ := Prod.mk.inj (Option.some.inj moved)
              refine ⟨kept.canonical, kept.located, unforgotten fun _ listed => listed,
                others finished, by simpa using kept.paths, ?_⟩
              have filed := kept.names
              rw [List.map_append, List.map_cons] at filed ⊢
              exact filed.next access
          next => cases moved

end Kept

namespace World

variable {naming : Naming} {w w' : World}

/-- **A step whose insertions are clear of the removals under way keeps the indexes.** -/
theorem kept_step (kept : Kept naming w.cleanups w.db) {event : Event}
    (clear : event.Clear naming w) (moved : w.step event = some w') :
    Kept naming w'.cleanups w'.db := by
  obtain ⟨canonical, clear⟩ := clear
  cases event with
  | removeNodesByIds ids =>
    simp only [step] at moved
    split at moved
    · cases moved
      exact kept
    · cases moved
      exact kept.remove (removeLocked_vacates w.db ids)
  | upsertNode node =>
    simp only [step, GraphDatabase.upsertNode] at moved
    split at moved
    · cases moved
      exact kept
    · obtain ⟨db', put, keptAfter⟩ := kept.putNode (canonical node (by simp [Event.nodes]))
        clear.1
      simp only [put, settle, Outcome.after, Option.map_some, Option.some.injEq] at moved
      subst moved
      exact keptAfter
  | insertNodesBatch nodes =>
    simp only [step, GraphDatabase.insertNodesBatch] at moved
    split at moved
    · cases moved
      exact kept
    · obtain ⟨db', put, keptAfter⟩ := Kept.putNodes nodes canonical kept clear
      simp only [put, settle, Outcome.after, Option.map_some, Option.some.injEq] at moved
      subst moved
      exact keptAfter
  | clean removal =>
    simp only [step] at moved
    split at moved
    · cases moved
    next c here =>
        split at moved
        · cases moved
        next db' c' access =>
            cases moved
            obtain ⟨bound, rfl⟩ := List.getElem?_eq_some_iff.mp here
            obtain ⟨before, after, same, _, set⟩ := @List.exists_of_set _ _ c' _ bound
            rw [set]
            rw [same] at kept
            exact kept.clean access

/-- **Along every run whose insertions are clear of the removals under way, no reader is led to
a foreign node, and the indexes agree with the nodes whenever no removal is in progress.** -/
theorem removal_atomic {db : GraphDatabase} (indexed : Indexed naming db)
    {events : List Event} (run : Runs step (fun w event => event.Clear naming w) { db } events w) :
    w.db.ReadsTrue ∧ (w.Quiet → w.db.IndexesExact) := by
  have kept : Kept naming w.cleanups w.db :=
    run.invariant (I := fun _ w => Kept naming w.cleanups w.db) (Kept.of_indexed indexed)
      fun kept clear moved => kept_step kept clear moved
  exact ⟨kept.readsTrue, kept.exact⟩

/-- A node is refreshed while another one is being removed. -/
theorem removal_atomic_refreshed :
    ∃ w, Runs step (fun w event => event.Clear ownNaming w) { db := {} }
        [.insertNodesBatch [namedNode "main", namedNode "other"], .removeNodesByIds ["main"],
          .clean 0, .upsertNode (namedNode "other"), .clean 0, .clean 0, .clean 0] w ∧
      w.Quiet ∧ w.db.getNode "other" = some (namedNode "other") ∧
        w.db.ReadsTrue ∧ (w.Quiet → w.db.IndexesExact) := by
  have run : Runs step (fun w event => event.Clear ownNaming w) { db := {} }
      [.insertNodesBatch [namedNode "main", namedNode "other"], .removeNodesByIds ["main"],
        .clean 0, .upsertNode (namedNode "other"), .clean 0, .clean 0, .clean 0] _ :=
    runs_of_execute rfl
  exact ⟨_, run, by decide, by decide, removal_atomic (Indexed.empty ownNaming) run⟩

/-- A node upserted again while its removal is in progress ends under its id, but under neither
its path nor its name. -/
theorem removal_interrupted :
    ¬ ∀ (naming : Naming) (db : GraphDatabase), Indexed naming db → ∀ events w,
      Runs step (fun _ event => event.Canonical naming) { db } events w →
        w.db.ReadsTrue ∧ (w.Quiet → w.db.IndexesExact) := by
  intro atomic
  have exact := (atomic ownNaming {} (Indexed.empty ownNaming)
    [.upsertNode (namedNode "main"), .removeNodesByIds ["main"], .clean 0,
      .upsertNode (namedNode "main"), .clean 0, .clean 0, .clean 0, .clean 0] _
    (runs_of_execute rfl)).2 (by decide)
  have filed := ((exact.paths "src/main.rs").2 0).mpr (by decide)
  revert filed
  decide

end World

end Lain.Graph
