import Mathlib
import Lain.Foundation.Paths

/-!
# The git sensor

The three lists of paths the scanner is given: every tracked file, the uncommitted changes,
and the files changed since a commit.
-/

namespace Lain.Server

open Foundation

/-! ### Containment -/

def rootReal (fs : FileSystem) (root : Path) : Path :=
  match fs.canonicalize root with
  | some place => place.path
  | none => root.lexicalNormalize

def resolvesFrom (fs : FileSystem) (base : Path) (absolute dotted : Bool) :
    List Component → List OsName → Bool
  | existing, tail =>
    match fs.canonicalize ⟨absolute, existing.reverse⟩ with
    | some real => (Location.path (real ++ tail)).lexicalNormalize.startsWith base
    | none =>
      match existing with
      | .normal name :: parent =>
        if !absolute && !dotted && parent.isEmpty then false
        else resolvesFrom fs base absolute dotted parent (name :: tail)
      | _ => false

/-- A path leads, with every link followed, to a place inside the root. -/
def resolvesInside (fs : FileSystem) (root path : Path) : Bool :=
  let existing := if path.absolute then path else root.join path
  resolvesFrom fs (rootReal fs root) existing.absolute root.components.isEmpty
    existing.components.reverse []

/-! ### The repository -/

/-- A tree: the content of each path. -/
abbrev Tree (β : Type*) := AList fun _ : Path => β

/-- A commit. -/
structure Commit (κ β : Type*) where
  parents : List κ
  tree : Tree β
  time : ℤ
  message : Option String := none
  author : Option String := none

structure History (κ β : Type*) where
  commit : κ → Commit κ β
  acyclic : WellFounded fun parent child => parent ∈ (commit child).parents

/-- What git says about one path. -/
structure Status where
  indexNew : Bool := false
  indexModified : Bool := false
  indexDeleted : Bool := false
  indexRenamed : Bool := false
  indexTypechange : Bool := false
  wtNew : Bool := false
  wtModified : Bool := false
  wtDeleted : Bool := false
  wtRenamed : Bool := false
  wtTypechange : Bool := false

structure Repository (κ β : Type*) where
  index : List Path
  statuses : List (Path × Status)
  history : History κ β
  walk : List κ

/-- How a path changed. -/
inductive ChangeType where
  | added | modified | deleted
  deriving DecidableEq

/-- An uncommitted change. -/
structure FileChange where
  path : Path
  changeType : ChangeType
  staged : Bool

/-- A commit as the sensor reports it. -/
structure CommitInfo (κ : Type*) where
  id : κ
  message : String
  files : List Path
  time : ℤ
  author : String

/-! ### Paths of git -/

def isTextComponent : Component → Bool
  | .normal (.bytes _) => false
  | _ => true

def isText (p : Path) : Bool :=
  p.components.all isTextComponent

def spelledComponent (lossy : List UInt8 → String) : Component → Component
  | .normal (.bytes bs) => .normal (.text (lossy bs))
  | c => c

def spelled (lossy : List UInt8 → String) (p : Path) : Path :=
  { p with components := p.components.map (spelledComponent lossy) }

def diffTreeToTree {β : Type*} [DecidableEq β] (old : Option (Tree β)) (new : Tree β) :
    List Path :=
  ((old.map AList.keys).getD [] ++ new.keys).dedup.filter fun p =>
    decide (old.bind (AList.lookup p) ≠ new.lookup p)

namespace History

variable {κ β : Type*} [DecidableEq κ] [DecidableEq β] (history : History κ β)

def touched (c : κ) : List Path :=
  diffTreeToTree ((history.commit c).parents.head?.map fun p => (history.commit p).tree)
    (history.commit c).tree

def firstLine (message : String) : String :=
  String.ofList (message.toList.takeWhile fun c => decide (c ≠ '\n'))

def info (lossy : List UInt8 → String) (c : κ) : CommitInfo κ where
  id := c
  message := firstLine ((history.commit c).message.getD "")
  files := (history.touched c).map (spelled lossy)
  time := (history.commit c).time
  author := (history.commit c).author.getD ""

end History

def visited {κ : Type*} [DecidableEq κ] (walk : List κ) (since : κ) : List κ :=
  walk.takeWhile fun c => decide (c ≠ since)

/-- The sensor: a workspace and the repository in it. -/
structure GitSensor (κ β : Type*) where
  workspace : Path
  repo : Repository κ β

namespace GitSensor

variable {κ β : Type*} [DecidableEq κ] [DecidableEq β]
variable (sensor : GitSensor κ β) (fs : FileSystem) (lossy : List UInt8 → String)

/-- Open the repository at a path; the workspace is its real location, if it has one. -/
def new (fs : FileSystem) (workspace : Path) (repo : Repository κ β) : GitSensor κ β where
  workspace := ((fs.canonicalize workspace).map Location.path).getD workspace
  repo := repo

/-- The tracked files that are on disk and inside the workspace. -/
def getAllTrackedFiles : List Path :=
  ((sensor.repo.index.filter isText).map sensor.workspace.join).filter fun full =>
    fs.isFile full && resolvesInside fs sensor.workspace full

def staged (st : Status) : Bool :=
  st.indexNew || st.indexModified || st.indexDeleted || st.indexRenamed || st.indexTypechange

def unstaged (st : Status) : Bool :=
  st.wtNew || st.wtModified || st.wtDeleted || st.wtRenamed || st.wtTypechange

/-- The change a status amounts to. -/
def changeType (st : Status) : ChangeType :=
  if st.wtDeleted || (st.indexDeleted && !st.wtNew) then .deleted
  else if st.wtNew || st.indexNew then .added
  else .modified

/-- The uncommitted changes inside the workspace. -/
def getUncommittedChanges : List FileChange :=
  sensor.repo.statuses.filterMap fun entry =>
    let full := sensor.workspace.join entry.1
    if isText entry.1 && (staged entry.2 || unstaged entry.2) &&
        resolvesInside fs sensor.workspace full then
      some { path := full, changeType := changeType entry.2, staged := staged entry.2 }
    else none

/-- The commits newer than a given one: those the walk comes to before it. -/
def getNewCommitsSince (since : κ) : List (CommitInfo κ) :=
  (visited sensor.repo.walk since).map (sensor.repo.history.info lossy)

/-- The files on disk that commits newer than a given one touched, each once. -/
def getChangedFilesSince (since : κ) : List Path :=
  ((((sensor.getNewCommitsSince lossy since).flatMap CommitInfo.files).map
    sensor.workspace.join).filter fs.isFile).dedup

end GitSensor

/-! ### No list leaves the workspace -/

theorem resolvesInside_of_canonicalize {fs : FileSystem} {root path : Path} {place : Location}
    (absolute : path.absolute = true) (leads : fs.canonicalize path = some place) :
    resolvesInside fs root path = place.path.startsWith (rootReal fs root) := by
  unfold resolvesInside
  rw [if_pos absolute]
  unfold resolvesFrom
  dsimp only
  rw [List.reverse_reverse, leads]
  dsimp only
  rw [List.append_nil, Location.path, Path.lexicalNormalize_of_names]

namespace GitSensor

variable {κ β : Type*} [DecidableEq κ] [DecidableEq β]

structure Contained (sensor : GitSensor κ β) (fs : FileSystem) (lossy : List UInt8 → String)
    (since : κ) : Prop where
  tracked : ∀ p ∈ sensor.getAllTrackedFiles fs, resolvesInside fs sensor.workspace p = true
  uncommitted : ∀ change ∈ sensor.getUncommittedChanges fs,
    resolvesInside fs sensor.workspace change.path = true
  changed : ∀ p ∈ sensor.getChangedFilesSince fs lossy since,
    resolvesInside fs sensor.workspace p = true

def NoneLeadsOut (sensor : GitSensor κ β) (fs : FileSystem) (lossy : List UInt8 → String)
    (since : κ) : Prop :=
  ∀ c ∈ visited sensor.repo.walk since, ∀ p ∈ sensor.repo.history.touched c,
    ∀ place, fs.canonicalize (sensor.workspace.join (spelled lossy p)) = some place →
      fs.entry place = some .file → place.path.startsWith (rootReal fs sensor.workspace) = true

theorem mem_getChangedFilesSince {sensor : GitSensor κ β} {fs : FileSystem}
    {lossy : List UInt8 → String} {since : κ} {full : Path} :
    full ∈ sensor.getChangedFilesSince fs lossy since ↔
      (∃ c ∈ visited sensor.repo.walk since, ∃ p ∈ sensor.repo.history.touched c,
        sensor.workspace.join (spelled lossy p) = full) ∧ fs.isFile full = true := by
  unfold getChangedFilesSince getNewCommitsSince
  rw [List.mem_dedup, List.mem_filter, List.mem_map, List.flatMap_map]
  refine and_congr_left fun _ => ⟨?_, ?_⟩
  · rintro ⟨q, listed, rfl⟩
    obtain ⟨c, newer, inside⟩ := List.mem_flatMap.mp listed
    obtain ⟨p, differs, rfl⟩ := List.mem_map.mp inside
    exact ⟨c, newer, p, differs, rfl⟩
  · rintro ⟨c, newer, p, differs, rfl⟩
    exact ⟨_, List.mem_flatMap.mpr ⟨c, newer, List.mem_map_of_mem differs⟩, rfl⟩

omit [DecidableEq κ] [DecidableEq β] in
private theorem absolute_of_canonicalize {fs : FileSystem} {given p : Path} {place : Location}
    {repo : Repository κ β}
    (leads : fs.canonicalize ((GitSensor.new fs given repo).workspace.join p) = some place) :
    ((GitSensor.new fs given repo).workspace.join p).absolute = true := by
  unfold Path.join at leads ⊢
  split at leads
  next absolute => rw [if_pos absolute, absolute]
  next relative =>
      rw [if_neg relative]
      unfold GitSensor.new at leads ⊢
      cases real : fs.canonicalize given with
      | some workspace => rfl
      | none =>
        rw [real] at leads
        have nowhere : fs.canonicalize { given with
            components := given.components ++ p.components } = none :=
          FileSystem.follow_append real
        rw [Option.map_none, Option.getD_none, nowhere] at leads
        cases leads

/-- **The lists stay in the workspace exactly when no path that a newer commit touched leads to
a file outside.** The tracked files and the uncommitted changes are judged by where they lead;
the changed files only by being files. -/
theorem contained_iff (fs : FileSystem) (lossy : List UInt8 → String) (given : Path)
    (repo : Repository κ β) (since : κ) :
    (GitSensor.new fs given repo).Contained fs lossy since ↔
      (GitSensor.new fs given repo).NoneLeadsOut fs lossy since := by
  constructor
  · intro contained c newer p differs place leads isFile
    have absolute := absolute_of_canonicalize leads
    rw [← resolvesInside_of_canonicalize absolute leads]
    exact contained.changed _ (mem_getChangedFilesSince.mpr
      ⟨⟨c, newer, p, differs, rfl⟩, FileSystem.isFile_iff.mpr ⟨place, leads, isFile⟩⟩)
  · intro inside
    refine ⟨fun p listed => ?_, fun change listed => ?_, fun full listed => ?_⟩
    · have tested := (List.mem_filter.mp listed).2
      exact (Bool.and_eq_true _ _ ▸ tested).2
    · unfold getUncommittedChanges at listed
      obtain ⟨entry, _, made⟩ := List.mem_filterMap.mp listed
      obtain ⟨tested, made⟩ := Option.ite_none_right_eq_some.mp made
      cases made
      exact (Bool.and_eq_true _ _ ▸ tested).2
    · obtain ⟨⟨c, newer, p, differs, rfl⟩, file⟩ := mem_getChangedFilesSince.mp listed
      obtain ⟨place, leads, isFile⟩ := FileSystem.isFile_iff.mp file
      rw [resolvesInside_of_canonicalize (absolute_of_canonicalize leads) leads]
      exact inside c newer p differs place leads isFile

def linkCommitted : Repository (Fin 2) ℕ where
  index := []
  statuses := []
  history :=
    { commit := fun c =>
        if c = 0 then { parents := [], tree := ∅, time := 0 }
        else
          { parents := [0]
            tree := AList.insert ⟨false, [.normal (.text "creds.rs")]⟩ 7 ∅
            time := 1 }
      acyclic := by
        refine Subrelation.wf (r := fun a b : Fin 2 => a < b) (fun {a b} parent => ?_)
          wellFounded_lt
        revert a b
        decide }
  walk := [1, 0]

def linkOutside : FileSystem where
  entry := fun l =>
    if l = [.text "ws"] then some .directory
    else if l = [.text "ws", .text "creds.rs"] then
      some (.link ⟨true, [.normal (.text "secret")]⟩)
    else if l = [.text "secret"] then some .file
    else none
  current := []
  maxLinks := 40

/-- A committed link to a file outside is among the changed files. -/
theorem contained_fails :
    ¬ ∀ (fs : FileSystem) (lossy : List UInt8 → String) (given : Path)
      (repo : Repository (Fin 2) ℕ) (since : Fin 2),
      (GitSensor.new fs given repo).Contained fs lossy since := by
  intro claim
  have listed := (claim linkOutside (fun _ => "") ⟨true, [.normal (.text "ws")]⟩
    linkCommitted 0).changed ⟨true, [.normal (.text "ws"), .normal (.text "creds.rs")]⟩
      (by decide +kernel)
  revert listed
  decide +kernel

end GitSensor

end Lain.Server
