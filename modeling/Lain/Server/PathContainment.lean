import Mathlib
import Lain.Foundation.PathCreation
import Lain.Server.Git

/-!
# Where a path judged inside leads

The containment check judges a path that does not exist by its deepest part that does.
-/

namespace Lain.Server

open Foundation

section Containment

variable {fs : FileSystem} {root path : Path} {base : Location}

/-- A path leads somewhere up to a place, and no further: not to the name behind it. -/
def StopsAt (fs : FileSystem) (p : Path) (place : Location) (name : OsName)
    (later : List OsName) : Prop :=
  ∃ front, p.components = front ++ .normal name :: later.map .normal ∧
    fs.canonicalize ⟨p.absolute, front⟩ = some place ∧
    fs.canonicalize ⟨p.absolute, front ++ [.normal name]⟩ = none

/-- The check follows the file system: a path judged inside lands inside when its missing parts
are created, and a path that exists inside is judged so. -/
structure FollowsFiles (fs : FileSystem) (root path : Path) (base : Location) : Prop where
  lands : resolvesInside fs root path = true →
    ∃ place, fs.land (root.join path) = some place ∧ base <+: place
  accepts : ∀ place, fs.canonicalize (root.join path) = some place → base <+: place →
    resolvesInside fs root path = true

/-! ### The walk up to a part that exists -/

private theorem startsWith_of_names {l : Location} :
    l.path.lexicalNormalize.startsWith base.path = true ↔ base <+: l := by
  rw [Location.path, Path.lexicalNormalize_of_names]
  exact Location.startsWith_path l base

theorem resolvesFrom_of_place {absolute dotted : Bool} {existing : List Component}
    {tail : List OsName} {real : Location}
    (leads : fs.canonicalize ⟨absolute, existing.reverse⟩ = some real) :
    resolvesFrom fs base.path absolute dotted existing tail = true ↔ base <+: real ++ tail := by
  unfold resolvesFrom
  rw [leads]
  exact startsWith_of_names

theorem resolvesFrom_elim {absolute dotted : Bool} {existing : List Component}
    {tail : List OsName}
    (inside : resolvesFrom fs base.path absolute dotted existing tail = true) :
    (∃ real, fs.canonicalize ⟨absolute, existing.reverse⟩ = some real ∧ base <+: real ++ tail) ∨
      ∃ real name later, StopsAt fs ⟨absolute, existing.reverse⟩ real name later ∧
        base <+: real ++ name :: (later ++ tail) := by
  induction existing generalizing tail with
  | nil =>
    cases leads : fs.canonicalize ⟨absolute, [].reverse⟩ with
    | some real => exact .inl ⟨real, rfl, (resolvesFrom_of_place leads).mp inside⟩
    | none =>
      unfold resolvesFrom at inside
      rw [leads] at inside
      cases inside
  | cons c parent ih =>
    cases leads : fs.canonicalize ⟨absolute, (c :: parent).reverse⟩ with
    | some real => exact .inl ⟨real, rfl, (resolvesFrom_of_place leads).mp inside⟩
    | none =>
      unfold resolvesFrom at inside
      rw [leads] at inside
      cases c with
      | parent => cases inside
      | normal name =>
        dsimp only at inside
        split_ifs at inside
        rw [List.reverse_cons] at leads ⊢
        obtain ⟨real, found, below⟩ | ⟨real, first, later, stops, below⟩ := ih inside
        · exact .inr ⟨real, name, [], ⟨parent.reverse, rfl, found, leads⟩, below⟩
        · obtain ⟨front, split, found, missing⟩ := stops
          dsimp only at split
          refine .inr ⟨real, first, later ++ [name], ⟨front, ?_, found, missing⟩, ?_⟩
          · dsimp only
            rw [split, List.append_assoc, List.cons_append, List.map_append]
            rfl
          · rw [List.append_assoc]
            exact below

theorem resolvesFrom_of_stops {absolute dotted : Bool} {existing : List Component}
    {tail later : List OsName} {real : Location} {name : OsName} {front : List Component}
    (split : existing.reverse = front ++ .normal name :: later.map .normal)
    (found : fs.canonicalize ⟨absolute, front⟩ = some real)
    (missing : fs.canonicalize ⟨absolute, front ++ [.normal name]⟩ = none)
    (room : absolute = false → dotted = false → front ≠ []) :
    resolvesFrom fs base.path absolute dotted existing tail = true ↔
      base <+: real ++ name :: (later ++ tail) := by
  -- The walk cuts the last name off first, so the induction goes through `later` from its end.
  induction later using List.reverseRecOn generalizing existing tail with
  | nil =>
    obtain ⟨rfl⟩ : existing = .normal name :: front.reverse := by
      rw [← List.reverse_reverse existing, split]
      simp
    unfold resolvesFrom
    rw [List.reverse_cons, List.reverse_reverse, missing]
    dsimp only
    rw [if_neg, resolvesFrom_of_place (by rw [List.reverse_reverse]; exact found),
      List.nil_append]
    intro guard
    simp only [Bool.and_eq_true, Bool.not_eq_true', List.isEmpty_iff,
      List.reverse_eq_nil_iff] at guard
    exact room guard.1.1 guard.1.2 guard.2
  | append_singleton later last ih =>
    obtain ⟨shorter, rfl, shortSplit⟩ : ∃ shorter, existing = .normal last :: shorter ∧
        shorter.reverse = front ++ .normal name :: later.map .normal := by
      refine ⟨(front ++ Component.normal name :: later.map Component.normal).reverse, ?_,
        List.reverse_reverse _⟩
      rw [← List.reverse_reverse existing, split]
      simp
    have gone : fs.canonicalize ⟨absolute, (.normal last :: shorter).reverse⟩ = none := by
      rw [List.reverse_cons, shortSplit, List.append_cons front, List.append_assoc]
      exact FileSystem.follow_append missing
    unfold resolvesFrom
    rw [gone]
    dsimp only
    rw [if_neg, ih shortSplit, List.append_assoc, List.singleton_append]
    intro guard
    simp only [Bool.and_eq_true, List.isEmpty_iff] at guard
    rw [guard.2] at shortSplit
    simp at shortSplit

/-! ### The check below an existing root -/

private theorem canonicalize_of_prefix {absolute : Bool} {front components : List Component}
    {place : Location} (leads : fs.canonicalize ⟨absolute, components⟩ = some place)
    (begins : front <+: components) : fs.canonicalize ⟨absolute, front⟩ ≠ none := by
  obtain ⟨rest, rfl⟩ := begins
  intro gone
  rw [show fs.canonicalize ⟨absolute, front ++ rest⟩ = none from
    FileSystem.follow_append gone] at leads
  cases leads

private theorem resolvesInside_eq (real : fs.canonicalize root = some base) :
    resolvesInside fs root path = resolvesFrom fs base.path (root.join path).absolute
      root.components.isEmpty (root.join path).components.reverse [] := by
  unfold resolvesInside rootReal Path.join
  rw [real]
  split_ifs <;> rfl

theorem resolvesInside_of_place (real : fs.canonicalize root = some base) {place : Location}
    (leads : fs.canonicalize (root.join path) = some place) :
    resolvesInside fs root path = true ↔ base <+: place := by
  rw [resolvesInside_eq real, resolvesFrom_of_place (by rw [List.reverse_reverse]; exact leads),
    List.append_nil]

theorem resolvesInside_of_stops (real : fs.canonicalize root = some base) {place : Location}
    {name : OsName} {later : List OsName} (stops : StopsAt fs (root.join path) place name later) :
    resolvesInside fs root path = true ↔ base <+: place ++ name :: later := by
  obtain ⟨front, split, found, missing⟩ := stops
  rw [resolvesInside_eq real, resolvesFrom_of_stops ((List.reverse_reverse _).trans split)
    found missing, List.append_nil]
  intro relative named nothing
  -- The root exists, so a relative path goes on at least to its end.
  rw [nothing] at split missing
  have relativePath : path.absolute = false := by
    by_contra absolutePath
    rw [Bool.not_eq_false] at absolutePath
    rw [Path.join, if_pos absolutePath, absolutePath] at relative
    cases relative
  rw [Path.join, if_neg (by rw [relativePath]; decide)] at split relative missing
  dsimp only at split relative missing
  obtain ⟨c, rest, shape⟩ : ∃ c rest, root.components = c :: rest := by
    rw [← List.ne_nil_iff_exists_cons, ne_eq, ← List.isEmpty_iff, named]
    decide
  rw [shape, List.nil_append, List.cons_append, List.cons.injEq] at split
  refine canonicalize_of_prefix (real : fs.canonicalize ⟨root.absolute, root.components⟩ = _)
    ?_ missing
  rw [shape, split.1, List.nil_append]
  exact List.prefix_append [_] rest

theorem resolvesInside_elim (real : fs.canonicalize root = some base)
    (inside : resolvesInside fs root path = true) :
    (∃ place, fs.canonicalize (root.join path) = some place ∧ base <+: place) ∨
      ∃ place name later, StopsAt fs (root.join path) place name later ∧
        base <+: place ++ name :: later := by
  rw [resolvesInside_eq real] at inside
  have found := resolvesFrom_elim inside
  simpa only [List.reverse_reverse, List.append_nil] using found

/-! ### Where a path that stops lands -/

theorem StopsAt.lands (tree : fs.IsTree) {p : Path} {place : Location} {name : OsName}
    {later : List OsName} (stops : StopsAt fs p place name later)
    (here : fs.entry place = some .directory)
    (noLink : ∀ target, fs.entry (place ++ [name]) ≠ some (.link target)) :
    fs.land p = some (place ++ name :: later) := by
  obtain ⟨front, split, found, missing⟩ := stops
  obtain ⟨left, goesOn⟩ := FileSystem.follow_append_place found (by rw [here]; decide)
  have gone : fs.entry (place ++ [name]) = none := by
    have stuck : fs.follow left place [.normal name] = none :=
      (goesOn [.normal name]).1.symm.trans missing
    unfold FileSystem.follow FileSystem.advance at stuck
    cases entry : fs.entry (place ++ [name]) with
    | none => rfl
    | some found =>
      rw [entry] at stuck
      cases found with
      | directory => cases stuck
      | file => cases stuck
      | link target => exact absurd entry (noLink target)
  rw [FileSystem.land, split]
  refine (goesOn (.normal name :: later.map .normal)).2.trans ?_
  unfold FileSystem.followCreating
  rw [FileSystem.advanceCreating, gone]
  dsimp only
  rw [tree.advanceCreating_missing later gone, List.append_assoc, List.singleton_append]

theorem StopsAt.land_file (tree : fs.IsTree) {p : Path} {place : Location} {name : OsName}
    {later : List OsName} (stops : StopsAt fs p place name later)
    (here : fs.entry place = some .file) : fs.land p = none := by
  obtain ⟨front, split, found, -⟩ := stops
  rw [FileSystem.land, split]
  refine tree.followCreating_file ?_ found here (by simp)
  split_ifs
  · exact tree.root
  · exact tree.current

/-- **The check follows the file system exactly when** no path judged inside stops at a file or
at a link whose target, created, is outside. -/
theorem followsFiles_iff (tree : fs.IsTree) (real : fs.canonicalize root = some base) :
    FollowsFiles fs root path base ↔
      ∀ place name later, StopsAt fs (root.join path) place name later →
        base <+: place ++ name :: later →
          fs.entry place = some .directory ∧
            ∀ target, fs.entry (place ++ [name]) = some (.link target) →
              ∃ end_, fs.land (root.join path) = some end_ ∧ base <+: end_ := by
  constructor
  · intro follows place name later stops below
    have lands := follows.lands ((resolvesInside_of_stops real stops).mpr below)
    refine ⟨?_, fun _ _ => lands⟩
    obtain ⟨front, -, found, -⟩ := id stops
    have start : fs.entry (if (root.join path).absolute then [] else fs.current) =
        some .directory := by
      split_ifs
      · exact tree.root
      · exact tree.current
    refine (tree.follow_entry start found).resolve_right fun file => ?_
    rw [stops.land_file tree file] at lands
    obtain ⟨_, nowhere, -⟩ := lands
    cases nowhere
  · intro good
    refine ⟨fun inside => ?_, fun place leads below =>
      (resolvesInside_of_place real leads).mpr below⟩
    obtain ⟨place, leads, below⟩ | ⟨place, name, later, stops, below⟩ :=
      resolvesInside_elim real inside
    · exact ⟨place, FileSystem.land_of_canonicalize leads, below⟩
    · obtain ⟨here, links⟩ := good place name later stops below
      by_cases link : ∃ target, fs.entry (place ++ [name]) = some (.link target)
      · exact links link.choose link.choose_spec
      · exact ⟨_, stops.lands tree here (not_exists.mp link), below⟩

end Containment

/-! ### A link that leads nowhere -/

namespace PathContainment

/-- A workspace with a link to a place outside that does not exist, and the one with a link to a
place inside. -/
def workspaceLink (target : List String) : FileSystem where
  entry := fun l =>
    if l = [] then some .directory
    else if l = [.text "ws"] then some .directory
    else if l = [.text "ws", .text "out"] then
      some (.link ⟨true, target.map fun name => .normal (.text name)⟩)
    else none
  current := []
  maxLinks := 40

theorem workspaceLink_isTree (target : List String) : (workspaceLink target).IsTree where
  root := rfl
  parent := by
    intro l name there
    unfold workspaceLink at there
    dsimp only at there
    split_ifs at there with top ws link
    · simp at top
    · have up := congrArg List.dropLast ws
      rw [List.dropLast_concat] at up
      rw [up]
      rfl
    · have up := congrArg List.dropLast link
      rw [List.dropLast_concat] at up
      rw [up]
      rfl
    · exact absurd rfl there
  current := rfl

theorem followsFiles_iff_within :
    FollowsFiles (workspaceLink ["ws", "new"]) ⟨true, [.normal (.text "ws")]⟩
      ⟨true, [.normal (.text "ws"), .normal (.text "out")]⟩ [.text "ws"] := by
  refine (followsFiles_iff (workspaceLink_isTree _) (by decide)).mpr ?_
  rintro place name later ⟨front, split, found, missing⟩ -
  rw [Path.join, if_pos rfl] at split found missing ⊢
  rcases front with _ | ⟨first, _ | ⟨second, front⟩⟩
  · rw [List.nil_append, List.cons.injEq] at split
    rw [← split.1] at missing
    exact absurd missing (by decide)
  · rw [List.cons_append, List.cons.injEq, List.nil_append, List.cons.injEq] at split
    obtain ⟨rfl, -, -⟩ := split
    obtain ⟨rfl⟩ : place = [.text "ws"] := (Option.some_inj.mp found).symm
    exact ⟨by decide, fun _ _ => ⟨[.text "ws", .text "new"], by decide, by decide⟩⟩
  · have long := congrArg List.length split
    simp at long

/-- A link to a missing place outside is judged inside, and a file written through it is
outside. -/
theorem followsFiles_fails :
    (workspaceLink ["secret"]).IsTree ∧
      (workspaceLink ["secret"]).canonicalize ⟨true, [.normal (.text "ws")]⟩ =
        some [.text "ws"] ∧
      resolvesInside (workspaceLink ["secret"]) ⟨true, [.normal (.text "ws")]⟩
        ⟨false, [.normal (.text "out")]⟩ = true ∧
      (workspaceLink ["secret"]).land ⟨true, [.normal (.text "ws"), .normal (.text "out")]⟩ =
        some [.text "secret"] ∧
      ¬ FollowsFiles (workspaceLink ["secret"]) ⟨true, [.normal (.text "ws")]⟩
        ⟨false, [.normal (.text "out")]⟩ [.text "ws"] := by
  have inside : resolvesInside (workspaceLink ["secret"]) ⟨true, [.normal (.text "ws")]⟩
      ⟨false, [.normal (.text "out")]⟩ = true := by decide
  have lands : (workspaceLink ["secret"]).land
      ⟨true, [.normal (.text "ws"), .normal (.text "out")]⟩ = some [.text "secret"] := by decide
  refine ⟨workspaceLink_isTree _, by decide, inside, lands, fun follows => ?_⟩
  obtain ⟨place, leads, below⟩ := follows.lands inside
  rw [show Path.join ⟨true, [.normal (.text "ws")]⟩ ⟨false, [.normal (.text "out")]⟩ =
    ⟨true, [.normal (.text "ws"), .normal (.text "out")]⟩ from rfl, lands] at leads
  cases leads
  revert below
  decide

end PathContainment

end Lain.Server
