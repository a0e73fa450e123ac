import Mathlib
import Lain.Foundation.StableSort
import Lain.Graph.Database
import Lain.Snapshots.CacheHolds

/-!
# Eviction

An eviction lists the directories of the cache and removes the least recently used entries until
the rest fits the budget.
-/

namespace Lain.Snapshots

open Foundation
open Lain.Graph (LainError)

/-! ### The cache directory -/

structure CacheDir where
  manifest : Option CacheManifest
  graph : Option Bytes
deriving DecidableEq

def CacheDir.size (content : CacheDir) : Nat :=
  (content.graph.map List.length).getD 0

abbrev CacheTree : Type := SortedMap Dir CacheDir

def stageDir (key : CacheKey) : Dir :=
  toLex (key.repo, "." ++ key.dirName ++ ".staging")

/-- An entry as a listing finds it: its key is the one of its manifest. -/
structure CacheEntryOnDisk where
  key : CacheKey
  bytes : Nat
  manifest : CacheManifest
  path : Dir
deriving DecidableEq

def entryIn (path : Dir) (content : CacheDir) : Option CacheEntryOnDisk :=
  match content.manifest, content.graph with
  | some manifest, some graph => some
      { key := ⟨(ofLex path).1, manifest.commit, manifest.analyzerVersion⟩
        bytes := graph.length
        manifest
        path }
  | _, _ => none

/-- The entries of the cache. -/
def collectEntries (tree : CacheTree) : List CacheEntryOnDisk :=
  tree.entries.filterMap fun dir => entryIn dir.1 dir.2

/-- Remove the directory of a key that is not held. -/
def removeEntry (registry : HoldRegistry) (tree : CacheTree) (key : CacheKey) :
    Except LainError CacheTree :=
  if registry.isHeld key then
    .error (.other ("cannot remove held cache entry " ++ key.repo ++ "@" ++ key.dirName))
  else .ok (tree.erase key.entryDir)

/-! ### The pass -/

structure EvictionPass where
  tree : CacheTree
  current : Nat
  removed : Nat := 0
  freed : Nat := 0
deriving DecidableEq

def evictLoop (registry : HoldRegistry) (budgetBytes : Nat) :
    List CacheEntryOnDisk → EvictionPass → Except LainError EvictionPass
  | [], pass => .ok pass
  | entry :: rest, pass =>
    if pass.current ≤ budgetBytes then .ok pass
    else if registry.isHeld entry.key then evictLoop registry budgetBytes rest pass
    else
      match removeEntry registry pass.tree entry.key with
      | .error reason => .error reason
      | .ok tree => evictLoop registry budgetBytes rest
          { tree
            current := pass.current - entry.bytes
            removed := pass.removed + 1
            freed := min (pass.freed + entry.bytes) u64Max }

def bytesOf (entries : List CacheEntryOnDisk) : Nat :=
  (entries.map CacheEntryOnDisk.bytes).sum

def byLastUsed (listing : List CacheEntryOnDisk) : List CacheEntryOnDisk :=
  sortByKey (fun entry => entry.manifest.lastUsedUnix) listing

def budgetBytes (budgetMb : Nat) : Nat :=
  min (budgetMb * mib) u64Max

/-- Evict what the listing of the directories found. The sizes are summed up in 64 bits. -/
def evictLru (registry : HoldRegistry) (tree : CacheTree) (listing : List CacheEntryOnDisk)
    (budgetMb : Nat) : Except LainError EvictionPass :=
  evictLoop registry (budgetBytes budgetMb) (byLastUsed listing)
    { tree, current := bytesOf listing % 2 ^ 64 }

def unheld (registry : HoldRegistry) (entries : List CacheEntryOnDisk) : List CacheEntryOnDisk :=
  entries.filter fun entry => !registry.isHeld entry.key

def removeAll (tree : CacheTree) (entries : List CacheEntryOnDisk) : CacheTree :=
  entries.foldl (fun tree entry => tree.erase entry.key.entryDir) tree

structure Evicted (registry : HoldRegistry) (budget : Nat) (pass after : EvictionPass)
    (visited later : List CacheEntryOnDisk) : Prop where
  stopped : later = [] ∨ after.current ≤ budget
  needed : ∀ early entry rest, visited = early ++ entry :: rest →
    budget < pass.current - bytesOf (unheld registry early)
  tree : after.tree = removeAll pass.tree (unheld registry visited)
  current : after.current = pass.current - bytesOf (unheld registry visited)
  freed : pass.freed + bytesOf (unheld registry visited) ≤ u64Max →
    after.freed = pass.freed + bytesOf (unheld registry visited)

namespace Evicted

variable {registry : HoldRegistry} {budget : Nat} {pass after : EvictionPass}
  {visited later : List CacheEntryOnDisk} {entry : CacheEntryOnDisk}

theorem stop (stopped : later = [] ∨ pass.current ≤ budget) :
    Evicted registry budget pass pass [] later where
  stopped := stopped
  needed := fun early entry rest none => absurd none (by simp)
  tree := rfl
  current := rfl
  freed := fun _ => rfl

theorem skip (run : Evicted registry budget pass after visited later)
    (full : budget < pass.current) (held : registry.isHeld entry.key = true) :
    Evicted registry budget pass after (entry :: visited) later := by
  have skipped : ∀ early, unheld registry (entry :: early) = unheld registry early :=
    fun early => List.filter_cons_of_neg (by simp [held])
  refine
    { stopped := run.stopped
      needed := ?_
      tree := by rw [skipped, run.tree]
      current := by rw [skipped, run.current]
      freed := by rw [skipped]; exact run.freed }
  intro early other rest whole
  cases early with
  | nil => exact full
  | cons head early =>
    obtain ⟨rfl, tail⟩ := List.cons.inj whole
    rw [skipped]
    exact run.needed early other rest tail

theorem take {removed : Nat} (full : budget < pass.current)
    (free : ¬ registry.isHeld entry.key = true)
    (run : Evicted registry budget
      { tree := pass.tree.erase entry.key.entryDir
        current := pass.current - entry.bytes
        removed
        freed := min (pass.freed + entry.bytes) u64Max } after visited later) :
    Evicted registry budget pass after (entry :: visited) later := by
  have taken : ∀ early, unheld registry (entry :: early) = entry :: unheld registry early :=
    fun early => List.filter_cons_of_pos (by simp [free])
  have size : ∀ early, bytesOf (unheld registry (entry :: early)) =
      entry.bytes + bytesOf (unheld registry early) := by
    intro early
    rw [taken]
    rfl
  refine
    { stopped := run.stopped
      needed := ?_
      tree := by rw [taken]; exact run.tree
      current := by rw [size, run.current, Nat.sub_sub]
      freed := ?_ }
  · intro early other rest whole
    cases early with
    | nil => exact full
    | cons head early =>
      obtain ⟨rfl, tail⟩ := List.cons.inj whole
      rw [size, ← Nat.sub_sub]
      exact run.needed early other rest tail
  · intro small
    rw [size] at small ⊢
    have counted := run.freed
    dsimp only at counted
    rw [min_eq_left (by omega)] at counted
    rw [counted (by omega)]
    omega

end Evicted

theorem evictLoop_spec (registry : HoldRegistry) (budget : Nat) (todo : List CacheEntryOnDisk) :
    ∀ pass : EvictionPass, ∃ visited later after, todo = visited ++ later ∧
      evictLoop registry budget todo pass = .ok after ∧
      Evicted registry budget pass after visited later := by
  induction todo with
  | nil => exact fun pass => ⟨[], [], pass, rfl, rfl, .stop (Or.inl rfl)⟩
  | cons entry todo ih =>
    intro pass
    rw [evictLoop]
    by_cases fits : pass.current ≤ budget
    · rw [if_pos fits]
      exact ⟨[], entry :: todo, pass, rfl, rfl, .stop (Or.inr fits)⟩
    · rw [if_neg fits]
      by_cases held : registry.isHeld entry.key = true
      · rw [if_pos held]
        obtain ⟨visited, later, after, rfl, done, run⟩ := ih pass
        exact ⟨entry :: visited, later, after, rfl, done, run.skip (Nat.lt_of_not_le fits) held⟩
      · rw [if_neg held, removeEntry, if_neg held]
        obtain ⟨visited, later, after, rfl, done, run⟩ := ih _
        exact ⟨entry :: visited, later, after, rfl, done,
          .take (Nat.lt_of_not_le fits) held run⟩

/-! ### What is left -/

def totalBytes (tree : CacheTree) : Nat :=
  (tree.entries.map fun dir => dir.2.size).sum

theorem path_of_entryIn {path : Dir} {content : CacheDir} {entry : CacheEntryOnDisk}
    (found : entryIn path content = some entry) : entry.path = path := by
  unfold entryIn at found
  split at found
  · rw [← Option.some.inj found]
  · cases found

theorem mem_collectEntries {tree : CacheTree} {entry : CacheEntryOnDisk} :
    entry ∈ collectEntries tree ↔
      ∃ content, tree.get? entry.path = some content ∧
        entryIn entry.path content = some entry := by
  unfold collectEntries
  rw [List.mem_filterMap]
  constructor
  · rintro ⟨⟨path, content⟩, member, found⟩
    obtain rfl := path_of_entryIn found
    exact ⟨content, SortedMap.mem_entries.mp member, found⟩
  · rintro ⟨content, stored, found⟩
    exact ⟨(entry.path, content), SortedMap.mem_entries.mpr stored, found⟩

theorem eq_of_path {tree : CacheTree} {entry other : CacheEntryOnDisk}
    (first : entry ∈ collectEntries tree) (second : other ∈ collectEntries tree)
    (same : entry.path = other.path) : entry = other := by
  obtain ⟨content, stored, read⟩ := mem_collectEntries.mp first
  obtain ⟨content', stored', read'⟩ := mem_collectEntries.mp second
  rw [same, stored'] at stored
  obtain rfl := Option.some.inj stored
  rw [same] at read
  exact Option.some.inj (read.symm.trans read')

theorem size_of_entryIn {path : Dir} {content : CacheDir} {entry : CacheEntryOnDisk}
    (found : entryIn path content = some entry) : entry.bytes = content.size := by
  unfold entryIn at found
  unfold CacheDir.size
  split at found
  next manifest graph hasManifest hasGraph =>
      rw [← Option.some.inj found, hasGraph]
      rfl
  · cases found

theorem nodup_paths (tree : CacheTree) : ((collectEntries tree).map CacheEntryOnDisk.path).Nodup := by
  have paths : ∀ dirs : List (Dir × CacheDir),
      ((dirs.filterMap fun dir => entryIn dir.1 dir.2).map CacheEntryOnDisk.path).Sublist
        (dirs.map Prod.fst) := by
    intro dirs
    induction dirs with
    | nil => exact .slnil
    | cons dir dirs ih =>
      rw [List.filterMap_cons]
      cases found : entryIn dir.1 dir.2 with
      | none => exact ih.cons _
      | some entry =>
        rw [List.map_cons, List.map_cons, path_of_entryIn found]
        exact ih.cons_cons _
  exact (paths tree.entries).nodup tree.nodup_keys

theorem totalBytes_erase {tree : CacheTree} {path : Dir} {content : CacheDir}
    (stored : tree.get? path = some content) :
    totalBytes (tree.erase path) + content.size = totalBytes tree := by
  have sum : ∀ dirs : List (Dir × CacheDir), (dirs.map Prod.fst).Nodup →
      (path, content) ∈ dirs →
      ((dirs.filter fun dir => decide (dir.1 ≠ path)).map fun dir => dir.2.size).sum +
        content.size = (dirs.map fun dir => dir.2.size).sum := by
    intro dirs
    induction dirs with
    | nil => exact fun _ none => absurd none List.not_mem_nil
    | cons dir dirs ih =>
      intro nodup member
      obtain ⟨apart, nodup⟩ := List.nodup_cons.mp nodup
      rcases List.mem_cons.mp member with rfl | inside
      · have others : dirs.filter (fun dir => decide (dir.1 ≠ path)) = dirs := by
          refine List.filter_eq_self.mpr fun other among => decide_eq_true fun same => apart ?_
          exact List.mem_map.mpr ⟨other, among, same⟩
        rw [List.filter_cons_of_neg (by simp), others, List.map_cons, List.sum_cons, Nat.add_comm]
      · have other : dir.1 ≠ path := fun same =>
          apart (List.mem_map.mpr ⟨_, inside, same.symm⟩)
        rw [List.filter_cons_of_pos (by simpa using other), List.map_cons, List.sum_cons,
          Nat.add_assoc, ih nodup inside, List.map_cons, List.sum_cons]
  exact sum tree.entries tree.nodup_keys (SortedMap.mem_entries.mpr stored)

/-- The key of the manifest names the directory the entry lies in. -/
def CacheEntryOnDisk.Named (entry : CacheEntryOnDisk) : Prop :=
  entry.key.entryDir = entry.path

instance (entry : CacheEntryOnDisk) : Decidable entry.Named :=
  inferInstanceAs (Decidable (entry.key.entryDir = entry.path))

theorem totalBytes_removeAll {entries : List CacheEntryOnDisk} :
    ∀ {tree : CacheTree}, (∀ entry ∈ entries, entry ∈ collectEntries tree) →
      (entries.map CacheEntryOnDisk.path).Nodup →
      (∀ entry ∈ entries, entry.Named ∨ tree.get? entry.key.entryDir = none) →
      totalBytes (removeAll tree entries) +
        bytesOf (entries.filter fun entry => decide entry.Named) = totalBytes tree := by
  induction entries with
  | nil => exact fun _ _ _ => rfl
  | cons entry entries ih =>
    intro tree found nodup clear
    obtain ⟨apart, nodup⟩ := List.nodup_cons.mp nodup
    obtain ⟨here, clear⟩ := List.forall_mem_cons.mp clear
    obtain ⟨content, stored, read⟩ := mem_collectEntries.mp (found entry List.mem_cons_self)
    have present := fun other member => found other (List.mem_cons_of_mem entry member)
    change totalBytes (removeAll (tree.erase entry.key.entryDir) entries) + _ = _
    by_cases named : entry.Named
    · have rest := @ih (tree.erase entry.key.entryDir)
        (fun other member => by
          obtain ⟨content, stored, read⟩ := mem_collectEntries.mp (present other member)
          refine mem_collectEntries.mpr ⟨content, ?_, read⟩
          rw [SortedMap.get?_erase, named, if_neg, stored]
          exact fun same => apart (List.mem_map.mpr ⟨other, member, same⟩))
        nodup
        (fun other member => (clear other member).imp_right fun none => by
          rw [SortedMap.get?_erase, none, ite_self])
      have freed := totalBytes_erase (named ▸ stored)
      have size : bytesOf ((entry :: entries).filter fun entry => decide entry.Named) =
          entry.bytes + bytesOf (entries.filter fun entry => decide entry.Named) := by
        rw [List.filter_cons_of_pos (by simpa using named)]
        rfl
      rw [size_of_entryIn read] at size
      omega
    · have same : tree.erase entry.key.entryDir = tree := by
        refine SortedMap.ext_get? fun path => ?_
        rw [SortedMap.get?_erase]
        split
        next there => rw [there, here.resolve_left named]
        · rfl
      rw [same, List.filter_cons_of_neg (by simpa using named)]
      exact ih present nodup clear

theorem get?_removeAll {tree : CacheTree} {entries : List CacheEntryOnDisk} {path : Dir}
    (named : ∀ entry ∈ entries, entry.Named) :
    (removeAll tree entries).get? path =
      if path ∈ entries.map CacheEntryOnDisk.path then none else tree.get? path := by
  have erased := tree.get?_foldl_erase (fun entry => entry.key.entryDir) entries path
  rw [List.map_congr_left named] at erased
  unfold removeAll
  by_cases gone : path ∈ entries.map CacheEntryOnDisk.path
  · rw [if_pos gone, erased, if_pos gone]
  · rw [if_neg gone, erased, if_neg gone]

theorem bytesOf_collectEntries {tree : CacheTree}
    (readable : ∀ path content, tree.get? path = some content → content.manifest = none →
      content.size = 0) : bytesOf (collectEntries tree) = totalBytes tree := by
  have sum : ∀ dirs : List (Dir × CacheDir),
      (∀ dir ∈ dirs, dir.2.manifest = none → dir.2.size = 0) →
      bytesOf (dirs.filterMap fun dir => entryIn dir.1 dir.2) =
        (dirs.map fun dir => dir.2.size).sum := by
    intro dirs
    induction dirs with
    | nil => exact fun _ => rfl
    | cons dir dirs ih =>
      intro readable
      obtain ⟨here, later⟩ := List.forall_mem_cons.mp readable
      rw [List.filterMap_cons, List.map_cons, List.sum_cons, ← ih later]
      cases found : entryIn dir.1 dir.2 with
      | none =>
        have none : dir.2.size = 0 := by
          unfold entryIn at found
          cases manifest : dir.2.manifest with
          | none => exact here manifest
          | some m =>
            cases graph : dir.2.graph with
            | none => rw [CacheDir.size, graph]; rfl
            | some g => rw [manifest, graph] at found; cases found
        rw [none, Nat.zero_add]
      | some entry =>
        rw [← size_of_entryIn found]
        rfl
  exact sum tree.entries fun dir member => readable dir.1 dir.2 (SortedMap.mem_entries.mp member)

/-! ### Eviction in order -/

def DirHeld (registry : HoldRegistry) (path : Dir) : Prop :=
  ∃ key, registry.isHeld key = true ∧ key.entryDir = path

/-- **An eviction meets its budget in order of use**: what is left fits the budget unless all of it
is held, held entries stay, no entry goes before one that was used earlier and is not held, and the
bytes it counts are those that went. -/
structure EvictsInOrder (registry : HoldRegistry) (tree : CacheTree) (budgetMb : Nat)
    (after : EvictionPass) : Prop where
  fits : totalBytes after.tree ≤ budgetBytes budgetMb ∨
    ∀ entry ∈ collectEntries after.tree, DirHeld registry entry.path
  kept : ∀ path, DirHeld registry path → after.tree.get? path = tree.get? path
  oldest : ∀ gone ∈ collectEntries tree, after.tree.get? gone.path = none →
    ∀ left ∈ collectEntries after.tree, ¬ DirHeld registry left.path →
      gone.manifest.lastUsedUnix ≤ left.manifest.lastUsedUnix
  counted : after.freed + totalBytes after.tree = totalBytes tree

/-- A pass comes to the entry: it is not yet within its budget when those before are gone. -/
def Reached (registry : HoldRegistry) (listing : List CacheEntryOnDisk) (budgetMb : Nat)
    (entry : CacheEntryOnDisk) : Prop :=
  ∃ early later, byLastUsed listing = early ++ entry :: later ∧
    budgetBytes budgetMb < bytesOf listing - bytesOf (unheld registry early)

/-- **An orderly cache**: what a pass comes to is held exactly under the key in its manifest, or
lies in the directory that key names; and no graph lies beside a manifest that is missing or cannot
be read, unless all graphs fit the budget. -/
structure Orderly (registry : HoldRegistry) (tree : CacheTree) (listing : List CacheEntryOnDisk)
    (budgetMb : Nat) : Prop where
  small : totalBytes tree < 2 ^ 64
  named : ∀ entry, Reached registry listing budgetMb entry →
    ¬ registry.isHeld entry.key = true → entry.Named
  spelled : ∀ entry, Reached registry listing budgetMb entry →
    (DirHeld registry entry.path ↔ registry.isHeld entry.key = true)
  readable : totalBytes tree ≤ budgetBytes budgetMb ∨
    ∀ path content, tree.get? path = some content → content.manifest = none → content.size = 0

/-- No manifest names the directory of another one, every graph has a size, and the sizes fit into
64 bits. -/
structure Clear (tree : CacheTree) : Prop where
  small : totalBytes tree < 2 ^ 64
  apart : ∀ entry ∈ collectEntries tree, entry.Named ∨ tree.get? entry.key.entryDir = none
  filled : ∀ entry ∈ collectEntries tree, 0 < entry.bytes

section

variable {registry : HoldRegistry} {tree : CacheTree} {listing : List CacheEntryOnDisk}
  {budgetMb : Nat}

theorem perm_byLastUsed (listing : List CacheEntryOnDisk) : (byLastUsed listing).Perm listing :=
  perm_sortByKey _ listing

theorem bytesOf_perm {entries others : List CacheEntryOnDisk} (same : entries.Perm others) :
    bytesOf entries = bytesOf others :=
  (same.map _).sum_eq

theorem bytesOf_le_totalBytes (tree : CacheTree) :
    bytesOf (collectEntries tree) ≤ totalBytes tree := by
  unfold bytesOf collectEntries totalBytes
  induction tree.entries with
  | nil => exact Nat.le_refl 0
  | cons dir dirs ih =>
    rw [List.filterMap_cons, List.map_cons, List.sum_cons]
    cases found : entryIn dir.1 dir.2 with
    | none => exact ih.trans (Nat.le_add_left _ _)
    | some entry =>
      rw [List.map_cons, List.sum_cons, size_of_entryIn found]
      exact Nat.add_le_add_left ih _

private structure Visit (registry : HoldRegistry) (tree : CacheTree)
    (listing : List CacheEntryOnDisk) (budgetMb : Nat) (after : EvictionPass)
    (visited later : List CacheEntryOnDisk) : Prop where
  whole : byLastUsed listing = visited ++ later
  order : (visited ++ later).Perm (collectEntries tree)
  run : Evicted registry (budgetBytes budgetMb) { tree, current := bytesOf listing } after visited
    later
  reached : ∀ entry ∈ visited, Reached registry listing budgetMb entry

private theorem exists_visit (listed : listing.Perm (collectEntries tree))
    (small : totalBytes tree < 2 ^ 64) :
    ∃ after visited later, evictLru registry tree listing budgetMb = .ok after ∧
      Visit registry tree listing budgetMb after visited later := by
  obtain ⟨visited, later, after, whole, done, run⟩ := evictLoop_spec registry
    (budgetBytes budgetMb) (byLastUsed listing) { tree, current := bytesOf listing % 2 ^ 64 }
  have atMost := bytesOf_le_totalBytes tree
  have bytes := bytesOf_perm listed
  rw [Nat.mod_eq_of_lt (by omega)] at run
  refine ⟨after, visited, later, done, whole, ?_, run, fun entry member => ?_⟩
  · exact whole ▸ (perm_byLastUsed listing).trans listed
  · obtain ⟨early, rest, split⟩ := List.append_of_mem member
    refine ⟨early, rest ++ later, ?_, run.needed early entry rest split⟩
    rw [whole, split, List.append_assoc]
    rfl

namespace Visit

variable {after : EvictionPass} {visited later : List CacheEntryOnDisk}

private theorem found (visit : Visit registry tree listing budgetMb after visited later) :
    ∀ entry ∈ unheld registry visited, entry ∈ collectEntries tree := fun _ member =>
  visit.order.mem_iff.mp (List.mem_append_left later (List.mem_filter.mp member).1)

private theorem apart (visit : Visit registry tree listing budgetMb after visited later) :
    ((unheld registry visited).map CacheEntryOnDisk.path).Nodup := by
  have all := (visit.order.map CacheEntryOnDisk.path).nodup_iff.mpr (nodup_paths tree)
  exact all.sublist ((List.filter_sublist.trans (List.sublist_append_left _ _)).map _)

private theorem freed (visit : Visit registry tree listing budgetMb after visited later)
    (small : totalBytes tree < 2 ^ 64) : after.freed = bytesOf (unheld registry visited) := by
  have fewer : bytesOf (unheld registry visited) ≤ bytesOf (visited ++ later) :=
    ((List.filter_sublist.trans (List.sublist_append_left _ _)).map _).sum_le_sum
      fun _ _ => Nat.zero_le _
  have atMost := bytesOf_le_totalBytes tree
  rw [bytesOf_perm visit.order] at fewer
  have counted := visit.run.freed
  dsimp only at counted
  rw [Nat.zero_add] at counted
  exact counted (by unfold u64Max; omega)

private theorem mem_of_reached (visit : Visit registry tree listing budgetMb after visited later)
    {entry : CacheEntryOnDisk} (due : Reached registry listing budgetMb entry) :
    entry ∈ visited := by
  obtain ⟨early, rest, whole, need⟩ := due
  rw [visit.whole] at whole
  rcases List.append_eq_append_iff.mp whole with ⟨middle, longer, tail⟩ | ⟨middle, longer, tail⟩
  · -- the pass stopped before the entry, so it was within its budget there
    have stopped := visit.run.stopped.resolve_left (by rw [tail]; simp)
    rw [visit.run.current] at stopped
    have more : bytesOf (unheld registry early) =
        bytesOf (unheld registry visited) + bytesOf (unheld registry middle) := by
      rw [longer]
      unfold bytesOf unheld
      rw [List.filter_append, List.map_append, List.sum_append]
    dsimp only at stopped
    omega
  · cases middle with
    | nil =>
      rw [List.append_nil] at longer
      have stopped := visit.run.stopped.resolve_left (by rw [← List.nil_append later, ← tail]; simp)
      rw [visit.run.current, longer] at stopped
      dsimp only at stopped
      omega
    | cons head middle =>
      obtain ⟨rfl, -⟩ := List.cons.inj tail
      rw [longer]
      exact List.mem_append_right early List.mem_cons_self

private theorem evictsInOrder (visit : Visit registry tree listing budgetMb after visited later)
    (orderly : Orderly registry tree listing budgetMb) :
    EvictsInOrder registry tree budgetMb after := by
  have own : ∀ entry ∈ unheld registry visited, entry.Named := by
    intro entry member
    obtain ⟨inside, free⟩ := List.mem_filter.mp member
    exact orderly.named entry (visit.reached entry inside) (by simpa using free)
  have sizes : totalBytes after.tree + bytesOf (unheld registry visited) = totalBytes tree := by
    have removed := totalBytes_removeAll visit.found visit.apart fun entry member =>
      Or.inl (own entry member)
    have all : (unheld registry visited).filter (fun entry => decide entry.Named) =
        unheld registry visited :=
      List.filter_eq_self.mpr fun entry member => decide_eq_true (own entry member)
    rw [all] at removed
    rw [visit.run.tree]
    exact removed
  have lookup : ∀ path, after.tree.get? path =
      if path ∈ (unheld registry visited).map CacheEntryOnDisk.path then none
      else tree.get? path := by
    intro path
    rw [visit.run.tree]
    exact get?_removeAll own
  -- an entry that is left was not removed, and was there before
  have stays : ∀ entry ∈ collectEntries after.tree, entry ∈ visited ++ later ∧
      (entry ∈ visited → DirHeld registry entry.path) := by
    intro entry member
    obtain ⟨content, stored, read⟩ := mem_collectEntries.mp member
    rw [lookup] at stored
    split at stored
    · cases stored
    next remains =>
        refine ⟨visit.order.mem_iff.mpr (mem_collectEntries.mpr ⟨content, stored, read⟩), ?_⟩
        intro inside
        by_cases held : registry.isHeld entry.key = true
        · exact (orderly.spelled entry (visit.reached entry inside)).mpr held
        · exact absurd (List.mem_map_of_mem
            (List.mem_filter.mpr ⟨inside, by simpa using held⟩)) remains
  refine { fits := ?_, kept := ?_, oldest := ?_, counted := ?_ }
  · rcases orderly.readable with enough | readable
    · exact Or.inl (by omega)
    · rcases visit.run.stopped with none | fits
      · right
        intro entry member
        obtain ⟨inside, held⟩ := stays entry member
        rw [none, List.append_nil] at inside
        exact held inside
      · have left := visit.run.current
        have listed := bytesOf_perm (visit.whole ▸ perm_byLastUsed listing)
        dsimp only at left
        rw [← listed, bytesOf_perm visit.order, bytesOf_collectEntries readable] at left
        exact Or.inl (by omega)
  · intro path held
    rw [lookup, if_neg]
    intro gone
    obtain ⟨entry, member, rfl⟩ := List.mem_map.mp gone
    obtain ⟨inside, free⟩ := List.mem_filter.mp member
    rw [(orderly.spelled entry (visit.reached entry inside)).mp held] at free
    cases free
  · intro gone before removed left member free
    have taken : gone.path ∈ (unheld registry visited).map CacheEntryOnDisk.path := by
      by_contra remains
      obtain ⟨content, stored, -⟩ := mem_collectEntries.mp before
      rw [lookup, if_neg remains, stored] at removed
      cases removed
    obtain ⟨entry, inside, same⟩ := List.mem_map.mp taken
    obtain rfl : entry = gone := eq_of_path (visit.found entry inside) before same
    obtain ⟨among, held⟩ := stays left member
    rcases List.mem_append.mp among with early | next
    · exact absurd (held early) free
    · have sorted := sorted_sortByKey (fun entry : CacheEntryOnDisk => entry.manifest.lastUsedUnix)
        listing
      change (byLastUsed listing).Pairwise _ at sorted
      rw [visit.whole] at sorted
      exact (List.pairwise_append.mp sorted).2.2 entry (List.mem_filter.mp inside).1 left next
  · rw [visit.freed orderly.small]
    omega

private theorem named (visit : Visit registry tree listing budgetMb after visited later)
    (clear : Clear tree) (counted : after.freed + totalBytes after.tree = totalBytes tree)
    {entry : CacheEntryOnDisk} (due : Reached registry listing budgetMb entry)
    (free : ¬ registry.isHeld entry.key = true) : entry.Named := by
  by_contra misnamed
  have removed := totalBytes_removeAll visit.found visit.apart fun entry member =>
    clear.apart entry (visit.found entry member)
  rw [← visit.run.tree] at removed
  rw [visit.freed clear.small] at counted
  have member : entry ∈ unheld registry visited :=
    List.mem_filter.mpr ⟨visit.mem_of_reached due, by simpa using free⟩
  have less : bytesOf ((unheld registry visited).filter fun entry => decide entry.Named) +
      entry.bytes ≤ bytesOf (unheld registry visited) := by
    have parts := bytesOf_perm (List.filter_append_perm (fun entry => decide entry.Named)
      (unheld registry visited))
    have own : entry.bytes ≤ bytesOf ((unheld registry visited).filter
        fun entry => !decide entry.Named) :=
      List.le_sum_of_mem (List.mem_map_of_mem
        (List.mem_filter.mpr ⟨member, by simpa using misnamed⟩))
    rw [← parts]
    unfold bytesOf at own ⊢
    rw [List.map_append, List.sum_append]
    omega
  have positive := clear.filled entry (visit.found entry member)
  omega

end Visit

/-- **When evictions meet their budget in order of use**: in an orderly cache. Conversely, where no
manifest names the directory of another one, whatever is evicted has to be named by its own. -/
theorem evictsInOrder_of_orderly (listed : listing.Perm (collectEntries tree)) :
    (Orderly registry tree listing budgetMb →
      ∃ after, evictLru registry tree listing budgetMb = .ok after ∧
        EvictsInOrder registry tree budgetMb after) ∧
    (Clear tree → ∀ after, evictLru registry tree listing budgetMb = .ok after →
      EvictsInOrder registry tree budgetMb after →
        ∀ entry, Reached registry listing budgetMb entry →
          ¬ registry.isHeld entry.key = true → entry.Named) := by
  constructor
  · intro orderly
    obtain ⟨after, visited, later, done, visit⟩ := exists_visit listed orderly.small
    exact ⟨after, done, visit.evictsInOrder orderly⟩
  · intro clear after returned order entry due free
    obtain ⟨_, visited, later, done, visit⟩ := exists_visit listed clear.small
    obtain rfl := Except.ok.inj (returned.symm.trans done)
    exact visit.named clear order.counted due free

end

/-! ### A directory left in staging -/

/-- A cache of one complete entry, in the directory given. -/
def ordersTree (path : Dir) : CacheTree :=
  (∅ : CacheTree).insert path
    { manifest := some ⟨"orders", "0a1b2c", "0.9.0+c1", [], ∅, 3, 0, 0⟩
      graph := some [1, 2, 3] }

theorem evictsInOrder_orders :
    ∃ after, evictLru ∅ (ordersTree ordersKey.entryDir)
        (collectEntries (ordersTree ordersKey.entryDir)) 0 = .ok after ∧
      EvictsInOrder ∅ (ordersTree ordersKey.entryDir) 0 after := by
  refine (evictsInOrder_of_orderly (.refl _)).1
    { small := by decide +kernel
      named := fun entry due _ => ?_
      spelled := fun entry _ => ?_
      readable := Or.inr fun path content stored none => ?_ }
  · obtain ⟨early, later, whole, -⟩ := due
    have all : ∀ entry ∈ byLastUsed (collectEntries (ordersTree ordersKey.entryDir)),
        entry.Named := by decide +kernel
    exact all entry (whole ▸ List.mem_append_right early List.mem_cons_self)
  · refine iff_of_false ?_ ?_
    · rintro ⟨key, held, -⟩
      cases held
    · intro held
      cases held
  · unfold ordersTree at stored
    rw [SortedMap.get?_insert] at stored
    split at stored
    · obtain rfl := Option.some.inj stored
      cases none
    · cases stored

/-- A complete directory left in staging is counted as removed and stays. -/
theorem evictsInOrder_fails : ¬ ∀ (registry : HoldRegistry) (tree : CacheTree)
    (listing : List CacheEntryOnDisk) (budgetMb : Nat), listing.Perm (collectEntries tree) →
      ∀ after, evictLru registry tree listing budgetMb = .ok after →
        EvictsInOrder registry tree budgetMb after := by
  intro always
  have order := always ∅ (ordersTree (stageDir ordersKey))
    (collectEntries (ordersTree (stageDir ordersKey))) 0 (.refl _)
    ⟨ordersTree (stageDir ordersKey), 0, 1, 3⟩ (by decide +kernel)
  exact absurd order.counted (by decide +kernel)

end Lain.Snapshots
