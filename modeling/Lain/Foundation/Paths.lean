import Mathlib

/-!
# Paths and links

Paths as lists of components, and a file system of directories, files and symbolic links.
-/

namespace Lain.Foundation

inductive OsName where
  | text (s : String)
  | bytes (bs : List UInt8)
  deriving DecidableEq

def OsName.toStr : OsName → Option String
  | .text s => some s
  | .bytes _ => none

/-- A component of a path. -/
inductive Component where
  | parent
  | normal (name : OsName)
  deriving DecidableEq

/-- A path; one that is not absolute starts wherever it is used. -/
structure Path where
  absolute : Bool
  components : List Component
  deriving DecidableEq

namespace Path

/-- The last component, if it is a name. -/
def fileName (p : Path) : Option OsName :=
  match p.components.getLast? with
  | some (.normal name) => some name
  | _ => none

/-- A path below another; an absolute one stays as it is. -/
def join (p q : Path) : Path :=
  if q.absolute then q else { p with components := p.components ++ q.components }

def pushLexical (p : Path) (c : Component) : Path :=
  match c with
  | .normal _ => { p with components := p.components ++ [c] }
  | .parent =>
    match p.components.getLast? with
    | some (.normal _) => { p with components := p.components.dropLast }
    | some .parent => { p with components := p.components ++ [c] }
    | none => if p.absolute then p else { p with components := [c] }

/-- A path without `..` after a name, whatever the file system holds. -/
def lexicalNormalize (p : Path) : Path :=
  p.components.foldl pushLexical { p with components := [] }

def startsWith (p base : Path) : Bool :=
  decide (p.absolute = base.absolute) && base.components.isPrefixOf p.components

end Path

/-- A place in the file system: plain names from the root. -/
abbrev Location := List OsName

/-- The absolute path of a location. -/
def Location.path (l : Location) : Path where
  absolute := true
  components := l.map .normal

/-- What a location holds. -/
inductive Entry where
  | directory
  | file
  | link (target : Path)
  deriving DecidableEq

structure FileSystem where
  entry : Location → Option Entry
  current : Location
  maxLinks : Nat

namespace FileSystem

variable (fs : FileSystem)

def advance : Location → List Component → Option (Location × Option (Path × List Component))
  | at_, [] => some (at_, none)
  | at_, .parent :: rest => advance at_.dropLast rest
  | at_, .normal name :: rest =>
    match fs.entry (at_ ++ [name]) with
    | some .directory => advance (at_ ++ [name]) rest
    | some .file => if rest = [] then some (at_ ++ [name], none) else none
    | some (.link target) => some (at_, some (target, rest))
    | none => none

def follow : Nat → Location → List Component → Option Location
  | links, at_, components =>
    match fs.advance at_ components with
    | none => none
    | some (place, none) => some place
    | some (directory, some (target, rest)) =>
      match links with
      | 0 => none
      | links + 1 =>
        follow links (if target.absolute then [] else directory) (target.components ++ rest)

def canonicalize (p : Path) : Option Location :=
  fs.follow fs.maxLinks (if p.absolute then [] else fs.current) p.components

def isFile (p : Path) : Bool :=
  match fs.canonicalize p with
  | some place => decide (fs.entry place = some .file)
  | none => false

end FileSystem

/-! ### What follows a part of a path -/

namespace FileSystem

theorem advance_append {fs : FileSystem} {later : List Component} :
    ∀ {components : List Component} {at_ : Location},
      (fs.advance at_ components = none → fs.advance at_ (components ++ later) = none) ∧
      ∀ directory target rest, fs.advance at_ components = some (directory, some (target, rest)) →
        fs.advance at_ (components ++ later) = some (directory, some (target, rest ++ later)) := by
  intro components
  induction components with
  | nil =>
    intro at_
    exact ⟨fun stuck => (by cases stuck), fun _ _ _ link => (by cases link)⟩
  | cons c components ih =>
    intro at_
    cases c with
    | parent => exact ih
    | normal name =>
      rw [List.cons_append]
      unfold FileSystem.advance
      cases fs.entry (at_ ++ [name]) with
      | none => exact ⟨fun _ => rfl, fun _ _ _ link => (by cases link)⟩
      | some entry =>
        cases entry with
        | directory => exact ih
        | file =>
          dsimp only
          refine ⟨fun stuck => ?_, fun _ _ _ link => ?_⟩
          · have more : components ≠ [] := fun none_ => by
              rw [if_pos none_] at stuck
              cases stuck
            rw [if_neg fun none_ => more (List.append_eq_nil_iff.mp none_).1]
          · split at link
            · cases link
            · cases link
        | link target =>
          refine ⟨fun stuck => (by cases stuck), fun _ _ _ link => ?_⟩
          cases link
          rfl

theorem follow_append {fs : FileSystem} {later : List Component} :
    ∀ {links : Nat} {at_ : Location} {components : List Component},
      fs.follow links at_ components = none → fs.follow links at_ (components ++ later) = none := by
  intro links
  induction links with
  | zero =>
    intro at_ components stuck
    have further := @advance_append fs later components at_
    unfold FileSystem.follow at stuck ⊢
    cases first : fs.advance at_ components with
    | none => rw [further.1 first]
    | some reached =>
      obtain ⟨place, _ | ⟨target, rest⟩⟩ := reached
      · rw [first] at stuck
        cases stuck
      · rw [further.2 _ _ _ first]
  | succ links ih =>
    intro at_ components stuck
    have further := @advance_append fs later components at_
    unfold FileSystem.follow at stuck ⊢
    cases first : fs.advance at_ components with
    | none => rw [further.1 first]
    | some reached =>
      obtain ⟨place, _ | ⟨target, rest⟩⟩ := reached
      · rw [first] at stuck
        cases stuck
      · rw [first] at stuck
        rw [further.2 _ _ _ first]
        dsimp only at stuck ⊢
        rw [← List.append_assoc]
        exact ih stuck

end FileSystem

/-! ### Normal forms -/

theorem Path.lexicalNormalize_of_names (absolute : Bool) (names : List OsName) :
    Path.lexicalNormalize ⟨absolute, names.map .normal⟩ = ⟨absolute, names.map .normal⟩ := by
  have push : ∀ (rest : List OsName) (front : List Component),
      (rest.map Component.normal).foldl pushLexical ⟨absolute, front⟩ =
        ⟨absolute, front ++ rest.map .normal⟩ := by
    intro rest
    induction rest with
    | nil => simp
    | cons name rest ih =>
      intro front
      rw [List.map_cons, List.foldl_cons]
      change List.foldl pushLexical ⟨absolute, front ++ [.normal name]⟩ _ = _
      rw [ih, List.append_assoc]
      rfl
  exact push names []

theorem Location.startsWith_path (l base : Location) :
    l.path.startsWith base.path = true ↔ base <+: l := by
  unfold Path.startsWith Location.path
  rw [Bool.and_eq_true, decide_eq_true_eq, eq_self, true_and, List.isPrefixOf_iff_prefix]
  exact List.prefix_map_iff_of_injective (fun a b same => Component.normal.inj same)

theorem FileSystem.isFile_iff {fs : FileSystem} {p : Path} :
    fs.isFile p = true ↔ ∃ place, fs.canonicalize p = some place ∧ fs.entry place = some .file := by
  unfold FileSystem.isFile
  cases fs.canonicalize p with
  | none => simp
  | some place => simp

end Lain.Foundation
