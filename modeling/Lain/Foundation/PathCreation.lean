import Mathlib
import Lain.Foundation.Paths

/-!
# Paths that are created

Following a path whose missing parts are created on the way: where nothing is, a directory or a
file comes to be, and a link is followed even when what it leads to is missing.
-/

namespace Lain.Foundation.FileSystem

variable (fs : FileSystem)

/-- The locations form a tree: something is only in a directory. -/
structure IsTree : Prop where
  root : fs.entry [] = some .directory
  parent : ∀ l name, fs.entry (l ++ [name]) ≠ none → fs.entry l = some .directory
  current : fs.entry fs.current = some .directory

def advanceCreating :
    Location → List Component → Option (Location × Option (Path × List Component))
  | at_, [] => some (at_, none)
  | at_, .parent :: rest => advanceCreating at_.dropLast rest
  | at_, .normal name :: rest =>
    match fs.entry (at_ ++ [name]) with
    | some .directory => advanceCreating (at_ ++ [name]) rest
    | some .file => if rest = [] then some (at_ ++ [name], none) else none
    | some (.link target) => some (at_, some (target, rest))
    | none => advanceCreating (at_ ++ [name]) rest

def followCreating : Nat → Location → List Component → Option Location
  | links, at_, components =>
    match fs.advanceCreating at_ components with
    | none => none
    | some (place, none) => some place
    | some (directory, some (target, rest)) =>
      match links with
      | 0 => none
      | links + 1 =>
        followCreating links (if target.absolute then [] else directory)
          (target.components ++ rest)

/-- Where a path leads when its missing parts are created. -/
def land (p : Path) : Option Location :=
  fs.followCreating fs.maxLinks (if p.absolute then [] else fs.current) p.components

variable {fs}

/-! ### Trees -/

theorem IsTree.dropLast (tree : fs.IsTree) {l : Location} (here : fs.entry l = some .directory) :
    fs.entry l.dropLast = some .directory := by
  rcases List.eq_nil_or_concat l with rfl | ⟨front, name, rfl⟩
  · exact tree.root
  · rw [List.concat_eq_append] at here ⊢
    rw [List.dropLast_concat]
    exact tree.parent front name (by rw [here]; simp)

theorem IsTree.entry_append (tree : fs.IsTree) {l : Location} (missing : fs.entry l = none)
    (name : OsName) : fs.entry (l ++ [name]) = none := by
  by_contra there
  rw [tree.parent l name there] at missing
  cases missing

theorem IsTree.advanceCreating_missing (tree : fs.IsTree) (names : List OsName) {l : Location}
    (missing : fs.entry l = none) :
    fs.advanceCreating l (names.map .normal) = some (l ++ names, none) := by
  induction names generalizing l with
  | nil => rw [List.map_nil, advanceCreating, List.append_nil]
  | cons name names ih =>
    have next := tree.entry_append missing name
    rw [List.map_cons, advanceCreating, next]
    simp only
    rw [ih next, List.append_assoc, List.singleton_append]

theorem IsTree.advance_entry (tree : fs.IsTree) {components : List Component} {at_ : Location}
    (start : fs.entry at_ = some .directory) {place : Location}
    {more : Option (Path × List Component)} (reached : fs.advance at_ components = some (place, more)) :
    fs.entry place = some .directory ∨ more = none ∧ fs.entry place = some .file := by
  induction components generalizing at_ with
  | nil =>
    rw [advance, Option.some_inj, Prod.mk.injEq] at reached
    exact .inl (reached.1 ▸ start)
  | cons c components ih =>
    cases c with
    | parent => exact ih (tree.dropLast start) reached
    | normal name =>
      rw [advance] at reached
      cases here : fs.entry (at_ ++ [name]) with
      | none =>
        rw [here] at reached
        cases reached
      | some entry =>
        rw [here] at reached
        cases entry with
        | directory => exact ih here reached
        | file =>
          dsimp only at reached
          split_ifs at reached
          obtain ⟨rfl, rfl⟩ := Prod.mk.inj (Option.some_inj.mp reached)
          exact .inr ⟨rfl, here⟩
        | link target =>
          obtain ⟨rfl, -⟩ := Prod.mk.inj (Option.some_inj.mp reached)
          exact .inl start

/-! ### Creating nothing -/

theorem advanceCreating_of_advance {components : List Component} {at_ : Location}
    {reached : Location × Option (Path × List Component)}
    (followed : fs.advance at_ components = some reached) :
    fs.advanceCreating at_ components = some reached := by
  induction components generalizing at_ with
  | nil => exact followed
  | cons c components ih =>
    cases c with
    | parent => exact ih followed
    | normal name =>
      rw [advance] at followed
      rw [advanceCreating]
      cases here : fs.entry (at_ ++ [name]) with
      | none =>
        rw [here] at followed
        cases followed
      | some entry =>
        rw [here] at followed
        cases entry with
        | directory => exact ih followed
        | file => exact followed
        | link target => exact followed

theorem followCreating_of_follow {links : Nat} {components : List Component}
    {at_ place : Location} (reached : fs.follow links at_ components = some place) :
    fs.followCreating links at_ components = some place := by
  induction links generalizing at_ components with
  | zero =>
    unfold follow at reached
    split at reached
    · cases reached
    · next here =>
        rw [followCreating, advanceCreating_of_advance here]
        exact reached
    · cases reached
  | succ links ih =>
    unfold follow at reached
    split at reached
    · cases reached
    · next here =>
        rw [followCreating, advanceCreating_of_advance here]
        exact reached
    · next here =>
        rw [followCreating, advanceCreating_of_advance here]
        exact ih reached

theorem land_of_canonicalize {p : Path} {place : Location}
    (reached : fs.canonicalize p = some place) : fs.land p = some place :=
  followCreating_of_follow reached

/-! ### Behind a part that leads somewhere -/

theorem advance_append_place {components : List Component} {at_ place : Location}
    (reached : fs.advance at_ components = some (place, none))
    (noFile : fs.entry place ≠ some .file) (later : List Component) :
    fs.advance at_ (components ++ later) = fs.advance place later ∧
      fs.advanceCreating at_ (components ++ later) = fs.advanceCreating place later := by
  induction components generalizing at_ with
  | nil =>
    rw [advance, Option.some_inj, Prod.mk.injEq] at reached
    rw [List.nil_append, reached.1]
    exact ⟨rfl, rfl⟩
  | cons c components ih =>
    cases c with
    | parent => exact ih reached
    | normal name =>
      rw [advance] at reached
      rw [List.cons_append, advance, advanceCreating]
      cases here : fs.entry (at_ ++ [name]) with
      | none =>
        rw [here] at reached
        cases reached
      | some entry =>
        rw [here] at reached
        cases entry with
        | directory => exact ih reached
        | file =>
          dsimp only at reached
          split_ifs at reached
          obtain ⟨rfl, -⟩ := Prod.mk.inj (Option.some_inj.mp reached)
          exact absurd here noFile
        | link target => cases reached

theorem advanceCreating_append_link {components later : List Component} {at_ directory : Location}
    {target : Path} {rest : List Component}
    (reached : fs.advance at_ components = some (directory, some (target, rest))) :
    fs.advanceCreating at_ (components ++ later) =
      some (directory, some (target, rest ++ later)) := by
  induction components generalizing at_ with
  | nil => cases reached
  | cons c components ih =>
    cases c with
    | parent => exact ih reached
    | normal name =>
      rw [advance] at reached
      rw [List.cons_append, advanceCreating]
      cases here : fs.entry (at_ ++ [name]) with
      | none =>
        rw [here] at reached
        cases reached
      | some entry =>
        rw [here] at reached
        cases entry with
        | directory => exact ih reached
        | file =>
          dsimp only at reached
          split_ifs at reached
          cases reached
        | link target =>
          cases reached
          rfl

theorem IsTree.advanceCreating_file (tree : fs.IsTree) {components later : List Component}
    {at_ place : Location} (start : fs.entry at_ = some .directory)
    (reached : fs.advance at_ components = some (place, none))
    (file : fs.entry place = some .file) (more : later ≠ []) :
    fs.advanceCreating at_ (components ++ later) = none := by
  induction components generalizing at_ with
  | nil =>
    rw [advance, Option.some_inj, Prod.mk.injEq] at reached
    rw [← reached.1, start] at file
    cases file
  | cons c components ih =>
    cases c with
    | parent => exact ih (tree.dropLast start) reached
    | normal name =>
      rw [advance] at reached
      rw [List.cons_append, advanceCreating]
      cases here : fs.entry (at_ ++ [name]) with
      | none =>
        rw [here] at reached
        cases reached
      | some entry =>
        rw [here] at reached
        cases entry with
        | directory => exact ih here reached
        | file =>
          dsimp only
          exact if_neg fun none => more (List.append_eq_nil_iff.mp none).2
        | link target => cases reached

theorem follow_append_place {links : Nat} {components : List Component} {at_ place : Location}
    (reached : fs.follow links at_ components = some place)
    (noFile : fs.entry place ≠ some .file) :
    ∃ left, ∀ later, fs.follow links at_ (components ++ later) = fs.follow left place later ∧
      fs.followCreating links at_ (components ++ later) =
        fs.followCreating left place later := by
  induction links generalizing at_ components with
  | zero =>
    unfold follow at reached
    split at reached
    · cases reached
    · next here =>
        cases reached
        refine ⟨0, fun later => ?_⟩
        obtain ⟨plain, creating⟩ := advance_append_place here noFile later
        constructor
        · rw [follow, plain, follow]
        · rw [followCreating, creating, followCreating]
    · cases reached
  | succ links ih =>
    unfold follow at reached
    split at reached
    · cases reached
    · next here =>
        cases reached
        refine ⟨links + 1, fun later => ?_⟩
        obtain ⟨plain, creating⟩ := advance_append_place here noFile later
        constructor
        · rw [follow, plain, follow]
        · rw [followCreating, creating, followCreating]
    · next directory target rest here =>
        obtain ⟨left, goesOn⟩ := ih reached
        refine ⟨left, fun later => ?_⟩
        rw [follow, followCreating, (@advance_append fs later components at_).2 _ _ _ here,
          advanceCreating_append_link here]
        dsimp only
        rw [← List.append_assoc]
        exact goesOn later

theorem IsTree.followCreating_file (tree : fs.IsTree) {links : Nat}
    {components later : List Component} {at_ place : Location}
    (start : fs.entry at_ = some .directory)
    (reached : fs.follow links at_ components = some place)
    (file : fs.entry place = some .file) (more : later ≠ []) :
    fs.followCreating links at_ (components ++ later) = none := by
  induction links generalizing at_ components with
  | zero =>
    unfold follow at reached
    split at reached
    · cases reached
    · next here =>
        cases reached
        rw [followCreating, tree.advanceCreating_file start here file more]
    · cases reached
  | succ links ih =>
    unfold follow at reached
    split at reached
    · cases reached
    · next here =>
        cases reached
        rw [followCreating, tree.advanceCreating_file start here file more]
    · next directory target rest here =>
        have inside : fs.entry directory = some .directory :=
          (tree.advance_entry start here).resolve_right fun file => by cases file.1
        rw [followCreating, advanceCreating_append_link here]
        dsimp only
        rw [← List.append_assoc]
        refine ih ?_ reached
        split_ifs
        · exact tree.root
        · exact inside

theorem IsTree.follow_entry (tree : fs.IsTree) {links : Nat} {components : List Component}
    {at_ place : Location} (start : fs.entry at_ = some .directory)
    (reached : fs.follow links at_ components = some place) :
    fs.entry place = some .directory ∨ fs.entry place = some .file := by
  induction links generalizing at_ components with
  | zero =>
    unfold follow at reached
    split at reached
    · cases reached
    · next here =>
        cases reached
        exact (tree.advance_entry start here).imp_right And.right
    · cases reached
  | succ links ih =>
    unfold follow at reached
    split at reached
    · cases reached
    · next here =>
        cases reached
        exact (tree.advance_entry start here).imp_right And.right
    · next directory target rest here =>
        have inside : fs.entry directory = some .directory :=
          (tree.advance_entry start here).resolve_right fun file => by cases file.1
        refine ih ?_ reached
        split_ifs
        · exact tree.root
        · exact inside

end Lain.Foundation.FileSystem
