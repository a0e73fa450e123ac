import Lain.Graph.Recovery

/-!
# The indexes over whole runs

A handle calls the mutators in any order, is saved and is loaded from the files
those saves and logs left.
-/

namespace Lain.Graph

open Foundation GraphDatabase

variable {naming : Naming} {codec : Codec}

structure GraphDatabase.IndexesExact (db : GraphDatabase) : Prop where
  ids : db.indexMap.Locates db.idAt
  paths : db.pathIndex.Indexes db.pathAt
  names : db.nameIndex.Indexes db.nameAt

theorem Indexed.exact {db : GraphDatabase} (indexed : Indexed naming db) : db.IndexesExact :=
  ⟨indexed.aligned.ids, indexed.paths, indexed.aligned.names⟩

inductive Operation where
  | logged (command : Command)
  | replaceNodesForPaths (paths : List String) (nodes : List GraphNode)
  | pruneOrphans (tracked : List String)
  | replaceSensorOutput (owner : SensorOwner) (nodes : List GraphNode) (edges : List GraphEdge)
  | reset

/-- Call a mutator. -/
def Operation.call (db : GraphDatabase) : Operation → Call Unit
  | .logged command => command.call db
  | .replaceNodesForPaths paths nodes => (db.replaceNodesForPaths paths nodes).void
  | .pruneOrphans tracked => (db.pruneOrphans tracked).void
  | .replaceSensorOutput owner nodes edges => (db.replaceSensorOutput owner nodes edges).void
  | .reset => db.reset

/-- The nodes a mutator is given. -/
def Operation.nodes : Operation → List GraphNode
  | .logged (.upsertNode node) => [node]
  | .logged (.insertNodesBatch nodes) => nodes
  | .replaceNodesForPaths _ nodes => nodes
  | .replaceSensorOutput _ nodes _ => nodes
  | _ => []

/-- A handle on a graph, with the databases that were saved through it and the
operations it logged. -/
structure Handle where
  db : GraphDatabase
  saved : List GraphDatabase := []
  logged : List GraphOp := []

structure Handle.Wrote (codec : Codec) (h : Handle) (disk : Disk) : Prop where
  main : ∀ state, disk.main = some (.encoded state) → ∃ db ∈ h.saved, state = db.buildState
  prev : ∀ op ∈ (FrameLog.scan (walFormat codec) (disk.prev.getD [])).ops, op ∈ h.logged
  live : ∀ op ∈ (FrameLog.scan (walFormat codec) (disk.live.getD [])).ops, op ∈ h.logged

inductive Action where
  | call (operation : Operation)
  | save
  | load (disk : Disk)

inductive Handle.Step (codec : Codec) : Handle → Action → Handle → Prop where
  | call {h : Handle} {operation : Operation} {db : GraphDatabase} :
      (operation.call h.db).outcome.state = some db →
      Step codec h (.call operation)
        { h with db, logged := h.logged ++ (operation.call h.db).logged }
  | save {h : Handle} : Step codec h .save { h with saved := h.db :: h.saved }
  | load {h : Handle} {disk : Disk} {db : GraphDatabase} :
      h.Wrote codec disk → (loadFromDisk codec disk h.db).2.state = some db →
      Step codec h (.load disk) { h with db, saved := db :: h.saved }

/-- The nodes an action brings in have the path and name of their id. -/
def Action.Canonical (naming : Naming) : Action → Prop
  | .call operation => ∀ n ∈ operation.nodes, naming.Canonical n
  | _ => True

def Action.SparesNodes (db : GraphDatabase) : Action → Prop
  | .call .reset => db.readOnly = false → ∀ i, db.graph.nodeWeight i = none
  | _ => True

/-- A run of a new handle whose every action meets a condition. -/
inductive Handle.Run (codec : Codec) (meets : Handle → Action → Prop) : Handle → Prop where
  | start (readOnly : Bool) : Run codec meets { db := { readOnly } }
  | step {h h' : Handle} (action : Action) :
      Run codec meets h → meets h action → Step codec h action h' → Run codec meets h'

/-! ### Calls -/

theorem Outcome.All.void {α : Type} {call : Call α} {P : GraphDatabase → Prop}
    (all : call.outcome.All P) : call.void.outcome.All P := by
  unfold Call.void
  cases ended : call.outcome <;> rw [ended] at all <;> exact all

theorem Outcome.All.state {α : Type} {outcome : Outcome α} {P : GraphDatabase → Prop}
    (all : outcome.All P) {db : GraphDatabase} (ended : outcome.state = some db) : P db := by
  cases outcome with
  | ok db' value =>
    cases ended
    exact all
  | error db' reason =>
    cases ended
    exact all
  | panicked => cases ended

section Calls

variable {db : GraphDatabase}

theorem Indexed.command (indexed : Indexed naming db) (command : Command)
    (canonical : ∀ n ∈ (Operation.logged command).nodes, naming.Canonical n) :
    (command.call db).outcome.All (Indexed naming) := by
  cases command with
  | upsertNode node => exact indexed.upsertNode (canonical node (List.mem_singleton_self node))
  | insertNodesBatch nodes => exact indexed.insertNodesBatch canonical
  | upsertEdge edge => exact indexed.upsertEdge edge
  | insertEdgesBatch edges => exact (indexed.insertEdgesBatch edges).void
  | upsertEdgesBatchStrict edges => exact indexed.upsertEdgesBatchStrict edges
  | removeNodesByIds ids => exact (indexed.removeNodesByIds ids).void
  | removeEdges edges => exact (indexed.removeEdges edges).void

theorem Indexed.reset (indexed : Indexed naming db)
    (spares : db.readOnly = false → ∀ i, db.graph.nodeWeight i = none) :
    db.reset.outcome.All (Indexed naming) := by
  cases mode : db.readOnly with
  | true =>
    unfold GraphDatabase.reset
    rw [if_pos mode]
    exact indexed
  | false =>
    refine (Indexed.reset_iff mode).mpr fun name => List.eq_nil_iff_forall_not_mem.mpr ?_
    intro i filed
    obtain ⟨n, live, _⟩ := slotKey_eq_some.mp ((indexed.aligned.names name).2 i |>.mp filed)
    rw [spares mode i] at live
    cases live

/-- **Every mutator keeps the indexes exact**, whatever it ends with. -/
theorem Indexed.call (indexed : Indexed naming db) {operation : Operation}
    (canonical : (Action.call operation).Canonical naming)
    (spares : (Action.call operation).SparesNodes db) :
    (operation.call db).outcome.All (Indexed naming) := by
  cases operation with
  | logged command => exact indexed.command command canonical
  | replaceNodesForPaths paths nodes =>
    exact (indexed.replaceNodesForPaths paths canonical).void
  | pruneOrphans tracked => exact (indexed.pruneOrphans tracked).void
  | replaceSensorOutput owner nodes edges =>
    exact (indexed.replaceSensorOutput owner canonical edges).void
  | reset => exact indexed.reset spares

end Calls

/-! ### What the log records -/

section Logged

variable {db : GraphDatabase}

theorem Naming.canonicalOp_upserts {nodes : List GraphNode}
    (canonical : ∀ n ∈ nodes, naming.Canonical n) :
    ∀ op ∈ nodes.map GraphOp.upsertNode, naming.CanonicalOp op := by
  intro op member
  obtain ⟨n, given, rfl⟩ := List.mem_map.mp member
  exact canonical n given

theorem Naming.canonicalOp_edges (edges : List GraphEdge) :
    ∀ op ∈ edges.map GraphOp.upsertEdge, naming.CanonicalOp op := by
  intro op member
  obtain ⟨e, _, rfl⟩ := List.mem_map.mp member
  trivial

private theorem logged_insertNodesBatch {nodes : List GraphNode}
    (canonical : ∀ n ∈ nodes, naming.Canonical n) :
    ∀ op ∈ (db.insertNodesBatch nodes).logged, naming.CanonicalOp op := by
  unfold GraphDatabase.insertNodesBatch
  split
  · simp
  · exact Naming.canonicalOp_upserts canonical

private theorem logged_insertEdgesBatch (edges : List GraphEdge) :
    ∀ op ∈ (db.insertEdgesBatch edges).logged, naming.CanonicalOp op := by
  unfold GraphDatabase.insertEdgesBatch
  split
  · simp
  · exact Naming.canonicalOp_edges _

private theorem logged_insertEdge (edge : GraphEdge) :
    ∀ op ∈ (db.insertEdge edge).logged, naming.CanonicalOp op := by
  unfold GraphDatabase.insertEdge
  split
  · simp
  · split
    · simp
    · exact Naming.canonicalOp_edges [edge]

private theorem logged_upsertEdgesBatchStrict (edges : List GraphEdge) :
    ∀ op ∈ (db.upsertEdgesBatchStrict edges).logged, naming.CanonicalOp op := by
  unfold GraphDatabase.upsertEdgesBatchStrict
  split
  · simp
  · split
    · simp
    · split
      · simp
      next resolved _ =>
          intro op member
          obtain ⟨entry, _, rfl⟩ := List.mem_map.mp member
          trivial

private theorem logged_replaceSensorOutput {owner : SensorOwner} {nodes : List GraphNode}
    (canonical : ∀ n ∈ nodes, naming.Canonical n) (edges : List GraphEdge) :
    ∀ op ∈ (db.replaceSensorOutput owner nodes edges).logged, naming.CanonicalOp op := by
  unfold GraphDatabase.replaceSensorOutput
  split
  · simp
  · generalize db.retractOwned owner = state
    obtain ⟨base, removedIds⟩ := state
    dsimp only
    have removal : ∀ op ∈ (if removedIds.isEmpty then [] else [GraphOp.removeNodesByIds removedIds]),
        naming.CanonicalOp op := by
      split <;> simp [Naming.CanonicalOp]
    have upserts : ∀ op ∈ (if nodes.isEmpty then (⟨[], .ok base ()⟩ : Call Unit)
        else base.insertNodesBatch nodes).logged, naming.CanonicalOp op := by
      split
      · simp
      · exact logged_insertNodesBatch canonical
    have both := List.forall_mem_append.mpr ⟨removal, upserts⟩
    split
    next => exact both
    next => exact both
    next after _ _ =>
        refine List.forall_mem_append.mpr ⟨both, ?_⟩
        split
        · simp
        · exact logged_insertEdgesBatch edges

theorem Operation.logged_canonical {operation : Operation}
    (canonical : (Action.call operation).Canonical naming) :
    ∀ op ∈ (operation.call db).logged, naming.CanonicalOp op := by
  cases operation with
  | logged command =>
    cases command with
    | upsertNode node =>
      change ∀ op ∈ (db.upsertNode node).logged, _
      unfold GraphDatabase.upsertNode
      split
      · simp
      · exact Naming.canonicalOp_upserts canonical
    | insertNodesBatch nodes => exact logged_insertNodesBatch canonical
    | upsertEdge edge =>
      change ∀ op ∈ (db.upsertEdge edge).logged, _
      unfold GraphDatabase.upsertEdge
      split
      · split
        · simp
        · exact logged_insertEdge edge
      · exact logged_insertEdge edge
    | insertEdgesBatch edges => exact logged_insertEdgesBatch edges
    | upsertEdgesBatchStrict edges => exact logged_upsertEdgesBatchStrict edges
    | removeNodesByIds ids =>
      change ∀ op ∈ (db.removeNodesByIds ids).logged, _
      unfold GraphDatabase.removeNodesByIds
      split <;> simp [Naming.CanonicalOp]
    | removeEdges edges =>
      change ∀ op ∈ (db.removeEdges edges).logged, _
      unfold GraphDatabase.removeEdges
      split <;> simp [Naming.CanonicalOp]
  | replaceNodesForPaths paths nodes =>
    change ∀ op ∈ (db.replaceNodesInner paths nodes false).logged, _
    unfold GraphDatabase.replaceNodesInner
    split <;> simp
  | pruneOrphans tracked =>
    change ∀ op ∈ (db.pruneOrphans tracked).logged, _
    unfold GraphDatabase.pruneOrphans
    split <;> simp
  | replaceSensorOutput owner nodes edges => exact logged_replaceSensorOutput canonical edges
  | reset =>
    change ∀ op ∈ db.reset.logged, _
    unfold GraphDatabase.reset
    split <;> simp

end Logged

/-! ### Loads -/

theorem Outcome.All.skipNotFound {α : Type} {outcome : Outcome α} {P : GraphDatabase → Prop}
    (all : outcome.All P) : (skipNotFound outcome).All P := by
  unfold Graph.skipNotFound
  split <;> exact all

theorem Indexed.replayOp {db : GraphDatabase} (indexed : Indexed naming db) {op : GraphOp}
    (canonical : naming.CanonicalOp op) : (replayOp db op).All (Indexed naming) := by
  cases op with
  | upsertNode node => exact (indexed.upsertNode canonical).skipNotFound
  | upsertEdge edge => exact (indexed.upsertEdge edge).skipNotFound
  | removeNodesByIds ids => exact (indexed.removeNodesByIds ids).skipNotFound
  | removeEdges endpoints => exact (indexed.removeEdges (endpoints.map tripleEdge)).skipNotFound
  | commitIndexMap version => exact indexed

theorem Indexed.replayOps {ops : List GraphOp} (canonical : ∀ op ∈ ops, naming.CanonicalOp op) :
    ∀ {db : GraphDatabase}, Indexed naming db → (replayOps ops db).All (Indexed naming) := by
  induction ops with
  | nil => exact fun indexed => indexed
  | cons op rest ih =>
    intro db indexed
    obtain ⟨first, later⟩ := List.forall_mem_cons.mp canonical
    have step := indexed.replayOp first
    unfold Graph.replayOps
    cases ended : Graph.replayOp db op <;> rw [ended] at step
    case ok after value => exact ih later step
    case error after reason => exact step
    case panicked => exact step

theorem Indexed.replayAndRepair {db : GraphDatabase} (indexed : Indexed naming db)
    {file : Option Bytes}
    (canonical : ∀ op ∈ (FrameLog.scan (walFormat codec) (file.getD [])).ops,
      naming.CanonicalOp op) :
    (replayAndRepair codec file db).2.All (Indexed naming) := by
  cases file with
  | none => exact indexed
  | some bytes =>
    have replayed := indexed.replayOps canonical
    unfold Graph.replayAndRepair
    simp only [Option.getD_some] at replayed
    cases ended : Graph.replayOps (FrameLog.scan (walFormat codec) bytes).ops db <;>
      rw [ended] at replayed
    case ok after value =>
      simp only [ended]
      split <;> exact replayed
    case error after reason =>
      simp only [ended]
      exact replayed
    case panicked => exact replayed.elim

theorem Indexed.loaded {saved : GraphDatabase} (indexed : Indexed naming saved)
    (db : GraphDatabase) :
    Indexed naming
      (db.applyStateLoaded { saved.buildState with graph := saved.graph.relink }) :=
  loaded_indexed db indexed.aligned.canonical indexed.aligned.ids

structure Handle.Exact (naming : Naming) (h : Handle) : Prop where
  db : Indexed naming h.db
  saved : ∀ db ∈ h.saved, Indexed naming db
  logged : ∀ op ∈ h.logged, naming.CanonicalOp op

variable {h : Handle} {disk : Disk}

theorem Handle.Exact.decoded (exact : h.Exact naming) (wrote : h.Wrote codec disk)
    {snapshot : Snapshot} {state : GraphState} (main : disk.main = some snapshot)
    (decoded : snapshot.decodeState = some state) :
    Indexed naming (h.db.applyStateLoaded state) := by
  cases snapshot with
  | unreadable reason => cases decoded
  | encoded written =>
    obtain ⟨db, member, rfl⟩ := wrote.main written main
    cases decoded
    exact (exact.saved db member).loaded h.db

theorem Handle.Exact.recover (exact : h.Exact naming) (wrote : h.Wrote codec disk) :
    (recover codec disk h.db).2.All (Indexed naming) := by
  have prevOps := fun op found => exact.logged op (wrote.prev op found)
  have liveOps := fun op found => exact.logged op (wrote.live op found)
  unfold Graph.recover
  split
  · exact exact.db
  next snapshot main =>
      split
      · exact exact.db
      next state decoded =>
          split
          · exact exact.db
          · have first := (exact.decoded wrote main decoded).replayAndRepair prevOps
            split
            next ended =>
                rw [ended] at first
                exact first
            next ended =>
                rw [ended] at first
                exact first
            next prev middle count ended =>
                rw [ended] at first
                have second :=
                  Indexed.replayAndRepair (show Indexed naming middle from first) liveOps
                split
                next finished =>
                    rw [finished] at second
                    exact second
                next finished =>
                    rw [finished] at second
                    exact second
                next finished =>
                    rw [finished] at second
                    exact second

/-- **A load of what a handle wrote** leaves exact indexes, also when it fails. -/
theorem Handle.Exact.load (exact : h.Exact naming) (wrote : h.Wrote codec disk) :
    (loadFromDisk codec disk h.db).2.All (Indexed naming) := by
  have recovered := exact.recover wrote
  unfold loadFromDisk
  split
  next ended =>
      rw [ended] at recovered
      exact recovered
  next ended =>
      rw [ended] at recovered
      exact recovered
  next ended =>
      rw [ended] at recovered
      split <;> exact recovered

theorem Handle.wrote_saved {db : GraphDatabase} (member : db ∈ h.saved) :
    h.Wrote codec { main := some (.encoded db.buildState) } where
  main := by
    intro state found
    cases found
    exact ⟨db, member, rfl⟩
  prev := by simp
  live := by simp

/-! ### Runs -/

def Handle.Spares (naming : Naming) (h : Handle) (action : Action) : Prop :=
  action.Canonical naming ∧ action.SparesNodes h.db

theorem Handle.Exact.step (exact : h.Exact naming) {action : Action} {h' : Handle}
    (spares : h.Spares naming action) (step : Step codec h action h') : h'.Exact naming := by
  obtain ⟨canonical, spared⟩ := spares
  cases step with
  | call ended =>
    exact
      { db := (exact.db.call canonical spared).state ended
        saved := exact.saved
        logged :=
          List.forall_mem_append.mpr ⟨exact.logged, Operation.logged_canonical canonical⟩ }
  | save =>
    exact { exact with saved := List.forall_mem_cons.mpr ⟨exact.db, exact.saved⟩ }
  | load wrote ended =>
    have loaded := (exact.load wrote).state ended
    exact
      { db := loaded
        saved := List.forall_mem_cons.mpr ⟨loaded, exact.saved⟩
        logged := exact.logged }

theorem Handle.Run.exact (run : h.Run codec (Handle.Spares naming)) : h.Exact naming := by
  induction run with
  | start readOnly =>
    exact
      { db := (Indexed.empty naming).congr (fun _ => rfl) rfl rfl rfl
        saved := by simp
        logged := by simp }
  | step action run spares step ih => exact ih.step spares step

/-- **The indexes are exact in every state** a handle reaches while its resets find no
nodes: each maps a key to the live nodes with that key, once each, and to nothing
else. -/
theorem Handle.indexesExact (run : h.Run codec (Handle.Spares naming)) :
    h.db.IndexesExact :=
  run.exact.db.exact

def namedNode (name : String) : GraphNode where
  id := name
  nodeType := .function
  name := name
  path := "src/main.rs"

def ownNaming : Naming where
  pathOf := fun _ => "src/main.rs"
  nameOf := id

theorem namedNode_canonical (name : String) : ownNaming.Canonical (namedNode name) :=
  ⟨rfl, rfl⟩

/-- A reset of an empty graph, an upsert, a save and a load of the saved file. -/
theorem indexesExact_reloaded :
    ∃ h : Handle, h.Run (removalCodec "main") (Handle.Spares ownNaming) ∧
      h.db.getNode "main" = some (namedNode "main") ∧ h.db.IndexesExact := by
  have canonical : ∀ n ∈ [namedNode "main"], ownNaming.Canonical n :=
    List.forall_mem_singleton.mpr (namedNode_canonical "main")
  have new : Handle.Run (removalCodec "main") (Handle.Spares ownNaming)
      { db := { readOnly := false } } := .start false
  have wiped := new.step (.call .reset) ⟨by simp [Action.Canonical, Operation.nodes],
    fun _ _ => rfl⟩ (.call rfl)
  have stored := wiped.step (.call (.logged (.upsertNode (namedNode "main"))))
    ⟨canonical, trivial⟩ (.call rfl)
  have saved := stored.step .save ⟨trivial, trivial⟩ .save
  have loaded := saved.step (.load _) ⟨trivial, trivial⟩
    (.load (Handle.wrote_saved (List.mem_singleton_self _)) rfl)
  exact ⟨_, loaded, by decide, Handle.indexesExact loaded⟩

/-- A reset leaves a slot filed under the name of the node that was in it, and the
next node gets that slot. -/
theorem reset_misnames_slot :
    ¬ ∀ (codec : Codec) (naming : Naming) (h : Handle),
      h.Run codec (fun _ action => action.Canonical naming) → h.db.IndexesExact := by
  intro exact
  have new : Handle.Run (removalCodec "main") (fun _ action => action.Canonical ownNaming)
      { db := { readOnly := false } } := .start false
  have stored := new.step (.call (.logged (.upsertNode (namedNode "main"))))
    (List.forall_mem_singleton.mpr (namedNode_canonical "main")) (.call rfl)
  have wiped := stored.step (.call .reset) (by simp [Action.Canonical, Operation.nodes])
    (.call rfl)
  have reused := wiped.step (.call (.logged (.upsertNode (namedNode "other"))))
    (List.forall_mem_singleton.mpr (namedNode_canonical "other")) (.call rfl)
  have names := (exact _ ownNaming _ reused).names "main"
  have filed := (names.2 0).mp (by decide)
  revert filed
  decide

end Lain.Graph
