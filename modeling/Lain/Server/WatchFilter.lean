import Mathlib
import Lain.Foundation.LossyText
import Lain.Foundation.TextLines

/-!
# What the source watcher passes on

An event of the file system names paths.
-/

namespace Lain.Server.WatchFilter

open Foundation

abbrev Component := List UInt8

/-- A path as its components; the root is the component of a slash. -/
abbrev Path := List Component

inductive CreateKind where
  | any | file | folder | other
  deriving DecidableEq

inductive EventKind where
  | any | access | create (kind : CreateKind) | modify | remove | other
  deriving DecidableEq

/-- An event of the file system. -/
structure Event where
  kind : EventKind
  paths : List Path
  deriving DecidableEq

/-- What the file system and git answer about paths, and whether the system can watch one; git may
fail to answer. -/
structure World where
  isDir : Path → Bool
  canonicalize : Path → Option Path
  isIgnored : Path → Option Bool
  watches : Path → Bool

def stripPrefix (base path : Path) : Option Path :=
  if base.isPrefixOf path then some (path.drop base.length) else none

def fileName (path : Path) : Option Component :=
  path.getLast?.filter fun c => c ≠ [47] ∧ c ≠ [46] ∧ c ≠ [46, 46]

def extension (path : Path) : Option Component :=
  (fileName path).bind fun name =>
    match name.reverse.dropWhile fun b => b ≠ 46 with
    | [] => none
    | [_] => none
    | _ :: _ :: _ => some (name.reverse.takeWhile fun b => b ≠ 46).reverse

section Rule

variable {world : World} {workspace rel path : Path} {event : Event} {watched : List Path}

theorem stripPrefix_append (base rel : Path) : stripPrefix base (base ++ rel) = some rel := by
  unfold stripPrefix
  rw [if_pos (List.isPrefixOf_iff_prefix.mpr (List.prefix_append base rel)), List.drop_left]

end Rule

def component (name : String) : Component :=
  ByteCursor.bytes name.toList

end Lain.Server.WatchFilter
