import Lain.Foundation.FrameLog
import Lain.Foundation.SortedMap

/-!
# The index cache on disk

Indexed commits are kept as directories, one per repository, commit and analyzer version.
-/

namespace Lain.Snapshots

open Foundation

/-- What names a cache entry. -/
structure CacheKey where
  repo : String
  sha : String
  analyzerVersion : String
deriving Repr

def CacheKey.code (key : CacheKey) : String ×ₗ String ×ₗ String :=
  toLex (key.repo, toLex (key.sha, key.analyzerVersion))

theorem CacheKey.code_injective : Function.Injective CacheKey.code := by
  rintro ⟨_, _, _⟩ ⟨_, _, _⟩ same
  cases same
  rfl

instance : LinearOrder CacheKey := LinearOrder.lift' CacheKey.code CacheKey.code_injective

abbrev Dir : Type := String ×ₗ String

/-- The directory name of an entry; a sha is hexadecimal. -/
def CacheKey.dirName (key : CacheKey) : String :=
  String.ofList (key.sha.toList.map Char.toLower) ++ "-" ++ key.analyzerVersion

/-- The directory of an entry. -/
def CacheKey.entryDir (key : CacheKey) : Dir :=
  toLex (key.repo, key.dirName)

/-- What a cache entry says about itself. -/
structure CacheManifest where
  repo : String
  commit : String
  analyzerVersion : String
  files : List String
  sensorCounts : SortedMap String Nat
  bytes : Nat
  createdUnix : Int
  lastUsedUnix : Int
deriving DecidableEq

structure CacheEntry where
  manifest : CacheManifest
  graph : Bytes
deriving DecidableEq

structure CacheDisk where
  entries : SortedMap Dir CacheEntry := ∅
  staging : SortedMap Dir CacheEntry := ∅
deriving DecidableEq

namespace CacheDisk

/-- The entry is on disk. -/
def hasEntry (disk : CacheDisk) (key : CacheKey) : Bool :=
  (disk.entries.get? key.entryDir).isSome

/-- Remove an entry, if it is there. -/
def remove (disk : CacheDisk) (key : CacheKey) : CacheDisk :=
  { disk with entries := disk.entries.erase key.entryDir }

def stage (disk : CacheDisk) (key : CacheKey) (entry : CacheEntry) : CacheDisk :=
  { disk with staging := disk.staging.insert key.entryDir entry }

/-- Move a staged entry into place; the move fails on a directory that is there already, and
then what was staged is removed. -/
def rename (disk : CacheDisk) (key : CacheKey) : CacheDisk :=
  match disk.staging.get? key.entryDir, disk.entries.get? key.entryDir with
  | some entry, none =>
    { entries := disk.entries.insert key.entryDir entry
      staging := disk.staging.erase key.entryDir }
  | _, _ => { disk with staging := disk.staging.erase key.entryDir }

/-- What a listing of the directories yields: the key the manifest gives and the size of the
graph. -/
def collectEntries (disk : CacheDisk) : List (CacheKey × CacheEntry) :=
  (disk.entries.entries ++ disk.staging.entries).map fun listed =>
    (⟨(ofLex listed.1).1, listed.2.manifest.commit, listed.2.manifest.analyzerVersion⟩, listed.2)

end CacheDisk

end Lain.Snapshots
