import Mathlib
import Lain.Server.Git

/-!
# What an incremental scan covers

The walk from HEAD stops where it meets the commit the last scan was made at, and each commit
it visits is compared with its first parent only.
-/

namespace Lain.Server

open Foundation

namespace History

variable {κ β : Type*} [DecidableEq κ] (history : History κ β)

def frontier (head : κ) (walk : List κ) : List κ :=
  (head :: walk.flatMap fun c => (history.commit c).parents).filter fun c => decide (c ∉ walk)

inductive Walked (head : κ) : List κ → Prop where
  | start : Walked head []
  | next {walk : List κ} {c : κ} : Walked head walk → c ∈ history.frontier head walk →
      (∀ d ∈ history.frontier head walk, (history.commit d).time ≤ (history.commit c).time) →
        Walked head (walk ++ [c])

/-- A walk from HEAD to the end. -/
structure IsWalk (head : κ) (walk : List κ) : Prop where
  walked : history.Walked head walk
  finished : history.frontier head walk = []

inductive LineExit (seen : List κ) : κ → Option κ → Prop where
  | here {c : κ} : c ∉ seen → LineExit seen c (some c)
  | root {c : κ} : c ∈ seen → (history.commit c).parents.head? = none → LineExit seen c none
  | onward {c parent : κ} {exit : Option κ} : c ∈ seen →
      (history.commit c).parents.head? = some parent → LineExit seen parent exit →
        LineExit seen c exit

def contentAt (c : Option κ) (p : Path) : Option β :=
  c.bind fun c => (history.commit c).tree.lookup p

/-- A commit has a path as its first-parent line brings it from outside given commits. -/
def Carried (seen : List κ) (c : κ) (p : Path) : Prop :=
  ∃ exit, history.LineExit seen c exit ∧
    history.contentAt exit p = history.contentAt (some c) p

variable {history} {seen : List κ} {c : κ} {p : Path}

omit [DecidableEq κ] in
theorem mem_touched [DecidableEq β] :
    p ∈ history.touched c ↔
      history.contentAt (history.commit c).parents.head? p ≠ history.contentAt (some c) p := by
  unfold touched diffTreeToTree
  rw [List.mem_filter, List.mem_dedup, List.mem_append, decide_eq_true_eq, Option.bind_map]
  refine and_iff_right_of_imp fun differs => ?_
  by_cases present : p ∈ (history.commit c).tree
  · exact Or.inr (AList.mem_keys.mp present)
  · refine Or.inl ?_
    cases line : (history.commit c).parents.head? with
    | none =>
      rw [line] at differs
      exact absurd (AList.lookup_eq_none.mpr present).symm differs
    | some parent =>
      rw [line] at differs
      change (history.commit parent).tree.lookup p ≠ _ at differs
      rw [AList.lookup_eq_none.mpr present] at differs
      by_contra absent
      exact differs (AList.lookup_eq_none.mpr fun there => absent (AList.mem_keys.mp there))

omit [DecidableEq κ] in
theorem LineExit.unique {first second : Option κ} (left : history.LineExit seen c first)
    (right : history.LineExit seen c second) : first = second := by
  induction left with
  | here outside =>
    cases right with
    | here => rfl
    | root inside => exact absurd inside outside
    | onward inside => exact absurd inside outside
  | root inside ends =>
    cases right with
    | here outside => exact absurd inside outside
    | root => rfl
    | onward _ line =>
      rw [ends] at line
      cases line
  | onward inside line _ ih =>
    cases right with
    | here outside => exact absurd inside outside
    | root _ ends =>
      rw [ends] at line
      cases line
    | onward _ line' rest =>
      rw [line] at line'
      cases line'
      exact ih rest

omit [DecidableEq κ] in
theorem carried_of_not_mem (outside : c ∉ seen) : history.Carried seen c p :=
  ⟨some c, .here outside, rfl⟩

theorem touched_or_carried [DecidableEq β] (seen : List κ) (p : Path) (c : κ) :
    (∃ d ∈ seen, p ∈ history.touched d) ∨ history.Carried seen c p := by
  induction c using history.acyclic.induction with
  | _ c ih =>
    by_cases inside : c ∈ seen
    · by_cases differs : p ∈ history.touched c
      · exact Or.inl ⟨c, inside, differs⟩
      · rw [mem_touched, not_not] at differs
        cases line : (history.commit c).parents.head? with
        | none =>
          rw [line] at differs
          exact Or.inr ⟨none, .root inside line, differs⟩
        | some parent =>
          rw [line] at differs
          refine (ih parent (List.mem_of_mem_head? line)).imp_right ?_
          rintro ⟨exit, left, same⟩
          exact ⟨exit, .onward inside line left, same.trans differs⟩
    · exact Or.inr (carried_of_not_mem inside)

theorem exists_touched_iff [DecidableEq β] :
    (∃ d ∈ seen, p ∈ history.touched d) ↔ ∃ d ∈ seen, ¬ history.Carried seen d p := by
  constructor
  · rintro ⟨d, inside, differs⟩
    by_contra all
    have carried : ∀ e ∈ seen, history.Carried seen e p := fun e there =>
      not_not.mp fun not_ => all ⟨e, there, not_⟩
    obtain ⟨exit, left, same⟩ := carried d inside
    refine mem_touched.mp differs ?_
    cases left with
    | here outside => exact absurd inside outside
    | root _ ends =>
      rw [ends]
      exact same
    | @onward _ parent _ _ line rest =>
      rw [line, ← same]
      by_cases there : parent ∈ seen
      · obtain ⟨exit', left', same'⟩ := carried parent there
        rw [← same', rest.unique left']
      · rw [rest.unique (.here there)]
  · rintro ⟨d, _, uncarried⟩
    exact (touched_or_carried seen p d).resolve_right uncarried

end History

theorem spelled_of_isText {lossy : List UInt8 → String} {p : Path} (text : isText p = true) :
    spelled lossy p = p := by
  have same : ∀ c ∈ p.components, spelledComponent lossy c = id c := by
    intro c inside
    have textual := List.all_eq_true.mp text c inside
    cases c with
    | parent => rfl
    | normal name =>
      cases name with
      | text name => rfl
      | bytes bs => cases textual
  unfold spelled
  rw [List.map_congr_left same, List.map_id]

namespace GitSensor

variable {κ β : Type*} [DecidableEq κ] [DecidableEq β]

/-- Every file on disk that HEAD's tree has otherwise than the tree of an earlier commit is
among the files changed since. -/
def Covers (sensor : GitSensor κ β) (fs : FileSystem) (lossy : List UInt8 → String)
    (head since : κ) : Prop :=
  ∀ p ∈ (sensor.repo.history.commit head).tree, fs.isFile (sensor.workspace.join p) = true →
    (sensor.repo.history.commit head).tree.lookup p ≠
        (sensor.repo.history.commit since).tree.lookup p →
      sensor.workspace.join p ∈ sensor.getChangedFilesSince fs lossy since

/-- A file whose first-parent line does not tell that it changed: its name is no text, or HEAD
has it as the line brings it from outside the commits visited. -/
def AtRisk (repo : Repository κ β) (head since : κ) (p : Path) : Prop :=
  isText p = false ∨ repo.history.Carried (visited repo.walk since) head p

/-- **An incremental scan covers the difference of the trees exactly when it covers the files at
risk**: for each there must be a visited commit that has it, or a path read the same,
otherwise than its own first-parent line brings it from outside. -/
theorem covers_iff (sensor : GitSensor κ β) (fs : FileSystem) (lossy : List UInt8 → String)
    (head since : κ) :
    sensor.Covers fs lossy head since ↔
      ∀ p ∈ (sensor.repo.history.commit head).tree, fs.isFile (sensor.workspace.join p) = true →
        (sensor.repo.history.commit head).tree.lookup p ≠
            (sensor.repo.history.commit since).tree.lookup p →
          AtRisk sensor.repo head since p →
            ∃ q, sensor.workspace.join (spelled lossy q) = sensor.workspace.join p ∧
              ∃ c ∈ visited sensor.repo.walk since,
                ¬ sensor.repo.history.Carried (visited sensor.repo.walk since) c q := by
  constructor
  · intro covers p present file differs _
    obtain ⟨c, seen, q, touched, same⟩ :=
      (mem_getChangedFilesSince.mp (covers p present file differs)).1
    exact ⟨q, same, History.exists_touched_iff.mp ⟨c, seen, touched⟩⟩
  · intro risky p present file differs
    refine mem_getChangedFilesSince.mpr ⟨?_, file⟩
    have touched_at_risk (risk : AtRisk sensor.repo head since p) :
        ∃ c ∈ visited sensor.repo.walk since, ∃ q ∈ sensor.repo.history.touched c,
          sensor.workspace.join (spelled lossy q) = sensor.workspace.join p := by
      obtain ⟨q, same, uncarried⟩ := risky p present file differs risk
      obtain ⟨c, seen, touched⟩ := History.exists_touched_iff.mpr uncarried
      exact ⟨c, seen, q, touched, same⟩
    cases text : isText p with
    | false => exact touched_at_risk (Or.inl text)
    | true =>
      have along : (∃ c ∈ visited sensor.repo.walk since, p ∈ sensor.repo.history.touched c) ∨
          sensor.repo.history.Carried (visited sensor.repo.walk since) head p :=
        History.touched_or_carried _ p head
      rcases along with ⟨c, seen, touched⟩ | carried
      · refine ⟨c, seen, p, touched, ?_⟩
        rw [spelled_of_isText text]
      · exact touched_at_risk (Or.inr carried)

def mergedLate : Repository (Fin 4) ℕ where
  index := []
  statuses := []
  history :=
    { commit := fun c =>
        if c = 0 then { parents := [], tree := ∅, time := 0 }
        else if c = 1 then { parents := [0], tree := ∅, time := 10 }
        else
          { parents := if c = 2 then [0] else [2, 1]
            tree := AList.insert ⟨false, [.normal (.text "b.rs")]⟩ 7 ∅
            time := if c = 2 then 5 else 20 }
      acyclic := by
        refine Subrelation.wf (r := fun a b : Fin 4 => a < b) (fun {a b} parent => ?_)
          wellFounded_lt
        revert a b
        decide }
  walk := [3, 1, 2, 0]

theorem mergedLate_walk : mergedLate.history.IsWalk 3 mergedLate.walk where
  walked := by
    have first : mergedLate.history.Walked 3 [3] := .next .start (by decide) (by decide)
    have second : mergedLate.history.Walked 3 [3, 1] := .next first (by decide) (by decide)
    have third : mergedLate.history.Walked 3 [3, 1, 2] := .next second (by decide) (by decide)
    exact .next third (by decide) (by decide)
  finished := by decide

/-- The walk comes to the last scan's commit before the merged one, and the merge itself is
compared with the merged one: its file is not among the changed ones. -/
theorem covers_fails :
    ¬ ∀ (fs : FileSystem) (lossy : List UInt8 → String) (sensor : GitSensor (Fin 4) ℕ)
      (head since : Fin 4), sensor.repo.history.IsWalk head sensor.repo.walk →
        sensor.Covers fs lossy head since := by
  intro claim
  have missed := claim
    { entry := fun l =>
        if l = [.text "ws"] then some .directory
        else if l = [.text "ws", .text "b.rs"] then some .file
        else none
      current := []
      maxLinks := 40 }
    (fun _ => "") ⟨⟨true, [.normal (.text "ws")]⟩, mergedLate⟩ 3 1 mergedLate_walk
    ⟨false, [.normal (.text "b.rs")]⟩ (by decide) (by decide +kernel) (by decide +kernel)
  revert missed
  decide +kernel

end GitSensor

end Lain.Server
