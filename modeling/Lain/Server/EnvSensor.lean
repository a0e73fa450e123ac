import Mathlib
import Lain.Foundation.Paths
import Lain.Foundation.Runs
import Lain.Foundation.StableSort
import Lain.Contracts.Clients
import Lain.Contracts.Evaluate

/-!
# The environment sensor

One table for the whole process holds what each repository's environment files bind and
which variables the joiner found no binding for.
-/

namespace Lain.Server.EnvSensor

open Foundation
open Contracts (UnresolvedRecord)

inductive EnvSource where
  | dotEnv | dockerCompose | helmValues | k8sEnv
  deriving DecidableEq

structure EnvBinding extends Contracts.EnvBinding where
  var : String
  source : EnvSource
  deriving DecidableEq

structure ScalarBinding where
  var : String
  value : String
  source : EnvSource
  deriving DecidableEq

structure EnvScan where
  urls : List EnvBinding := []
  scalars : List ScalarBinding := []

structure RepoEnv where
  bindings : SortedMap String (List EnvBinding) := ∅
  scalars : SortedMap String (List ScalarBinding) := ∅
  unmapped : SortedMap String Nat := ∅

abbrev Index := SortedMap String RepoEnv

def repoKey (root : Path) : String :=
  (root.fileName.bind OsName.toStr).getD ""

def envBindingsFor (index : Index) (root : Path) : SortedMap String (List EnvBinding) :=
  match index.get? (repoKey root) with
  | none => ∅
  | some repo => repo.bindings

def scalarBindingsFor (index : Index) (root : Path) : SortedMap String (List ScalarBinding) :=
  match index.get? (repoKey root) with
  | none => ∅
  | some repo => repo.scalars

def countUp (count : Option Nat) : Nat :=
  (count.getD 0 + 1) % 2 ^ 32

def recordUnmappedVar (index : Index) (root : Path) (var : String) : Index :=
  index.alter (repoKey root) fun entry =>
    let repo := entry.getD {}
    { repo with unmapped := repo.unmapped.alter var countUp }

def unmappedRecord (var : String) (count : Nat) : UnresolvedRecord where
  reason := .envUnmapped
  count := count
  sampleIds := [var]

def takeUnmappedRecords (index : Index) (root : Path) : List UnresolvedRecord × Index :=
  match index.get? (repoKey root) with
  | none => ([], index)
  | some repo =>
    (sortByKey UnresolvedRecord.sampleIds
        (repo.unmapped.entries.map fun entry => unmappedRecord entry.1 entry.2),
      index.insert (repoKey root) { repo with unmapped := ∅ })

def scanWorkspaceEnv (index : Index) (root : Path) (found : EnvScan) : Index :=
  let byVar := SortedMap.group (found.urls.map fun b => (b.var, b))
  let scalars := SortedMap.group (found.scalars.map fun b => (b.var, b))
  if byVar.entries.isEmpty && scalars.entries.isEmpty then index.erase (repoKey root)
  else
    index.alter (repoKey root) fun entry =>
      { entry.getD {} with bindings := byVar, scalars := scalars }

/-- The calls that change the table; a scan comes with what it found. -/
inductive Call where
  | scan (root : Path) (found : EnvScan)
  | record (root : Path) (var : String)
  | take (root : Path)

def Call.root : Call → Path
  | .scan root _ | .record root _ | .take root => root

/-- The table after a call. -/
def step (index : Index) : Call → Option Index
  | .scan root found => some (scanWorkspaceEnv index root found)
  | .record root var => some (recordUnmappedVar index root var)
  | .take root => some (takeUnmappedRecords index root).2

/-! ### What the calls say about a root -/

def scanned (root : Path) (last : EnvScan) : Call → EnvScan
  | .scan root' found => if root' = root then found else last
  | _ => last

def lastScan (calls : List Call) (root : Path) : EnvScan :=
  calls.foldl (scanned root) {}

def noted (root : Path) (recorded : List String) : Call → List String
  | .record root' var => if root' = root then recorded ++ [var] else recorded
  | .take root' => if root' = root then [] else recorded
  | _ => recorded

def recordedSince (calls : List Call) (root : Path) : List String :=
  calls.foldl (noted root) []

theorem scanned_of_other {root : Path} {call : Call} (other : call.root ≠ root) (last : EnvScan) :
    scanned root last call = last := by
  cases call with
  | scan root' found => exact if_neg other
  | record root' var => rfl
  | take root' => rfl

theorem noted_of_other {root : Path} {call : Call} (other : call.root ≠ root)
    (recorded : List String) : noted root recorded call = recorded := by
  cases call with
  | scan root' found => rfl
  | record root' var => exact if_neg other
  | take root' => exact if_neg other

/-- The bindings of one variable in a list of them, if there are any. -/
def bound {α : Type} (nameOf : α → String) (found : List α) (var : String) : Option (List α) :=
  match found.filter fun b => decide (nameOf b = var) with
  | [] => none
  | some_ => some some_

/-- The table answers for a root with what the calls about that root brought. -/
structure Exact (calls : List Call) (index : Index) (root : Path) : Prop where
  bindings : ∀ var, (envBindingsFor index root).get? var =
    bound EnvBinding.var (lastScan calls root).urls var
  scalars : ∀ var, (scalarBindingsFor index root).get? var =
    bound ScalarBinding.var (lastScan calls root).scalars var
  unmapped : (takeUnmappedRecords index root).1 =
    (SortedMap.ordered (recordedSince calls root)).map fun var =>
      unmappedRecord var ((recordedSince calls root).count var % 2 ^ 32)

/-- A call about one of the roots that harms none: no other root has the same key, and a scan
that finds nothing comes when no noted variable waits to be taken. -/
structure Harmless (roots : Set Path) (index : Index) (call : Call) : Prop where
  member : call.root ∈ roots
  alone : ∀ other ∈ roots, repoKey other = repoKey call.root → other = call.root
  waiting : ∀ root repo, call = .scan root {} → index.get? (repoKey root) = some repo →
    repo.unmapped = ∅

/-! ### The entry of a root -/

/-- The entry of a root, the empty one if there is none. -/
def repoOf (index : Index) (root : Path) : RepoEnv :=
  (index.get? (repoKey root)).getD {}

theorem envBindingsFor_eq (index : Index) (root : Path) :
    envBindingsFor index root = (repoOf index root).bindings := by
  unfold envBindingsFor repoOf
  cases index.get? (repoKey root) with
  | none => rfl
  | some repo => rfl

theorem scalarBindingsFor_eq (index : Index) (root : Path) :
    scalarBindingsFor index root = (repoOf index root).scalars := by
  unfold scalarBindingsFor repoOf
  cases index.get? (repoKey root) with
  | none => rfl
  | some repo => rfl

private theorem take_fst (index : Index) (root : Path) :
    (takeUnmappedRecords index root).1 =
      sortByKey UnresolvedRecord.sampleIds
        ((repoOf index root).unmapped.entries.map fun entry => unmappedRecord entry.1 entry.2) := by
  unfold takeUnmappedRecords repoOf
  cases index.get? (repoKey root) with
  | none => rfl
  | some repo => rfl

theorem repoOf_of_other {index after : Index} {call : Call} {root : Path}
    (moved : step index call = some after) (apart : repoKey root ≠ repoKey call.root) :
    repoOf after root = repoOf index root := by
  unfold repoOf
  cases call with
  | scan root' found =>
    cases moved
    change repoKey root ≠ repoKey root' at apart
    unfold scanWorkspaceEnv
    dsimp only
    split
    · rw [SortedMap.get?_erase, if_neg apart]
    · rw [SortedMap.get?_alter, if_neg apart]
  | record root' var =>
    cases moved
    change repoKey root ≠ repoKey root' at apart
    rw [recordUnmappedVar, SortedMap.get?_alter, if_neg apart]
  | take root' =>
    cases moved
    change repoKey root ≠ repoKey root' at apart
    unfold takeUnmappedRecords
    cases index.get? (repoKey root') with
    | none => rfl
    | some repo => rw [SortedMap.get?_insert, if_neg apart]

def counted (vars : List String) : SortedMap String Nat :=
  vars.foldl (fun unmapped var => unmapped.alter var countUp) ∅

def expected (calls : List Call) (root : Path) : RepoEnv where
  bindings := SortedMap.group ((lastScan calls root).urls.map fun b => (b.var, b))
  scalars := SortedMap.group ((lastScan calls root).scalars.map fun b => (b.var, b))
  unmapped := counted (recordedSince calls root)

private theorem group_isEmpty {α : Type} (nameOf : α → String) (found : List α) :
    (SortedMap.group (found.map fun b => (nameOf b, b))).entries.isEmpty = found.isEmpty := by
  cases found with
  | nil => rfl
  | cons b rest =>
    have present := (SortedMap.isSome_group (((b :: rest)).map fun b => (nameOf b, b))
      (nameOf b)).mpr ⟨(nameOf b, b), List.mem_cons_self, rfl⟩
    obtain ⟨found, here⟩ := Option.isSome_iff_exists.mp present
    rw [List.isEmpty_eq_false_iff.mpr (List.ne_nil_of_mem (SortedMap.mem_entries.mpr here))]
    rfl

private theorem repoOf_scan {index : Index} {root : Path} {found : EnvScan}
    (waiting : ∀ repo, found = {} → index.get? (repoKey root) = some repo → repo.unmapped = ∅) :
    repoOf (scanWorkspaceEnv index root found) root =
      { repoOf index root with
        bindings := SortedMap.group (found.urls.map fun b => (b.var, b))
        scalars := SortedMap.group (found.scalars.map fun b => (b.var, b)) } := by
  unfold scanWorkspaceEnv repoOf
  dsimp only
  rw [group_isEmpty EnvBinding.var, group_isEmpty ScalarBinding.var]
  split
  next nothing =>
      rw [Bool.and_eq_true, List.isEmpty_iff, List.isEmpty_iff] at nothing
      have empty : found = {} := by
        cases found
        simp only [EnvScan.mk.injEq]
        exact nothing
      rw [SortedMap.get?_erase, if_pos rfl, nothing.1, nothing.2]
      cases here : index.get? (repoKey root) with
      | none => rfl
      | some repo =>
        change RepoEnv.mk ∅ ∅ ∅ = RepoEnv.mk ∅ ∅ repo.unmapped
        rw [waiting repo empty here]
  next =>
      rw [SortedMap.get?_alter, if_pos rfl]
      rfl

private theorem repoOf_record (index : Index) (root : Path) (var : String) :
    repoOf (recordUnmappedVar index root var) root =
      { repoOf index root with
        unmapped := (repoOf index root).unmapped.alter var countUp } := by
  unfold recordUnmappedVar repoOf
  rw [SortedMap.get?_alter, if_pos rfl]
  rfl

private theorem repoOf_take (index : Index) (root : Path) :
    repoOf (takeUnmappedRecords index root).2 root = { repoOf index root with unmapped := ∅ } := by
  unfold takeUnmappedRecords repoOf
  cases here : index.get? (repoKey root) with
  | none => simp only [here, Option.getD_none]
  | some repo => rw [SortedMap.get?_insert, if_pos rfl, Option.getD_some, Option.getD_some]

private theorem repoOf_step {roots : Set Path} {calls : List Call} {index after : Index}
    {call : Call} {root : Path} (held : repoOf index root = expected calls root)
    (inside : root ∈ roots) (harmless : Harmless roots index call)
    (moved : step index call = some after) :
    repoOf after root = expected (calls ++ [call]) root := by
  unfold expected lastScan recordedSince
  rw [List.foldl_append, List.foldl_append, List.foldl_cons, List.foldl_cons, List.foldl_nil,
    List.foldl_nil]
  by_cases same : root = call.root
  · subst same
    cases call with
    | scan root found =>
      cases moved
      rw [show Call.root (.scan root found) = root from rfl] at held ⊢
      rw [repoOf_scan fun repo empty => harmless.waiting root repo (congrArg _ empty), held,
        scanned, if_pos rfl]
      rfl
    | record root var =>
      cases moved
      rw [show Call.root (.record root var) = root from rfl] at held ⊢
      rw [repoOf_record, held, noted, if_pos rfl, counted, List.foldl_append]
      rfl
    | take root =>
      cases moved
      rw [show Call.root (.take root) = root from rfl] at held ⊢
      rw [repoOf_take, held, noted, if_pos rfl]
      rfl
  · have apart : repoKey root ≠ repoKey call.root := fun clash =>
      same (harmless.alone root inside clash)
    rw [repoOf_of_other moved apart, held]
    have other : call.root ≠ root := fun h => same h.symm
    rw [scanned_of_other other, noted_of_other other]
    rfl

/-! ### What the entry says -/

private theorem get?_group (α : Type) (nameOf : α → String) (found : List α) (var : String) :
    (SortedMap.group (found.map fun b => (nameOf b, b))).get? var = bound nameOf found var := by
  have values := SortedMap.getD_group (found.map fun b => (nameOf b, b)) var
  have present := SortedMap.isSome_group (found.map fun b => (nameOf b, b)) var
  rw [List.filter_map, List.map_map] at values
  change _ = (found.filter fun b => decide (nameOf b = var)).map id at values
  rw [List.map_id] at values
  unfold bound
  cases here : (SortedMap.group (found.map fun b => (nameOf b, b))).get? var with
  | none =>
    rw [here] at values
    rw [← values]
    rfl
  | some bindings =>
    rw [here] at values present
    change bindings = _ at values
    obtain ⟨p, member, name⟩ := present.mp rfl
    obtain ⟨b, found_, rfl⟩ := List.mem_map.mp member
    have some_ : b ∈ bindings := by
      rw [values]
      exact List.mem_filter.mpr ⟨found_, decide_eq_true name⟩
    rw [← values]
    cases bindings with
    | nil => cases some_
    | cons first rest => rfl

private theorem get?_counted (vars : List String) (var : String) :
    (counted vars).get? var = if var ∈ vars then some (vars.count var % 2 ^ 32) else none := by
  induction vars using List.reverseRecOn with
  | nil => rfl
  | append_singleton vars last ih =>
    unfold counted at ih ⊢
    rw [List.foldl_append, List.foldl_cons, List.foldl_nil, SortedMap.get?_alter, List.count_append]
    by_cases here : var = last
    · subst here
      rw [if_pos rfl, ih, if_pos (List.mem_append_right _ List.mem_cons_self), List.count_singleton]
      unfold countUp
      split
      next => simp
      next absent =>
          rw [List.count_eq_zero.mpr absent]
          simp
    · rw [if_neg here, ih, List.count_singleton]
      simp [here, Ne.symm here]

private theorem take_of_counted {index : Index} {root : Path} {vars : List String}
    (held : (repoOf index root).unmapped = counted vars) :
    (takeUnmappedRecords index root).1 =
      (SortedMap.ordered vars).map fun var => unmappedRecord var (vars.count var % 2 ^ 32) := by
  have same : counted vars =
      (SortedMap.tally vars).mapEntries fun var _ => vars.count var % 2 ^ 32 := by
    refine SortedMap.ext_get? fun var => ?_
    have listed := @SortedMap.mem_ordered _ _ vars var
    unfold SortedMap.ordered at listed
    rw [SortedMap.mem_keys] at listed
    rw [get?_counted, SortedMap.get?_mapEntries]
    by_cases here : var ∈ vars
    · obtain ⟨count, found⟩ := Option.isSome_iff_exists.mp (listed.mpr here)
      rw [if_pos here, found]
      rfl
    · rw [if_neg here]
      cases found : (SortedMap.tally vars).get? var with
      | none => rfl
      | some count => exact absurd (listed.mp (by rw [found]; rfl)) here
  rw [take_fst, held, same]
  unfold SortedMap.mapEntries SortedMap.ordered SortedMap.keys sortByKey
  rw [List.map_map, List.map_map]
  refine List.Pairwise.insertionSort_eq (List.pairwise_map.mpr ?_)
  refine (SortedMap.tally vars).sorted.imp fun {a b} before => ?_
  change [a.1] ≤ [b.1]
  exact le_of_lt (List.Lex.rel before : [a.1] < [b.1])

/-- **While no harmful call is made, the table answers for each root with what the calls about
that root brought**: the bindings of its last scan and the variables noted since the last
take. -/
theorem exact_of_harmless {roots : Set Path} {calls : List Call} {index : Index}
    (run : Runs step (Harmless roots) ∅ calls index) (root : Path) (inside : root ∈ roots) :
    Exact calls index root := by
  have held : repoOf index root = expected calls root := by
    refine Runs.invariant (I := fun calls index => repoOf index root = expected calls root)
      rfl (fun held harmless moved => ?_) run
    exact repoOf_step held inside harmless moved
  exact
    { bindings := fun var => by
        rw [envBindingsFor_eq, held]
        exact get?_group _ EnvBinding.var _ var
      scalars := fun var => by
        rw [scalarBindingsFor_eq, held]
        exact get?_group _ ScalarBinding.var _ var
      unmapped := take_of_counted (congrArg RepoEnv.unmapped held) }

/-- The root of one of two workspaces with the same name. -/
def twin (parent : String) : Path where
  absolute := true
  components := [.normal (.text parent), .normal (.text "api")]

def ordersUrl : EnvBinding where
  host := "orders.internal"
  var := "ORDERS_URL"
  source := .dotEnv

theorem exact_of_harmless_alone :
    Exact [.scan (twin "shop") { urls := [ordersUrl] }, .record (twin "shop") "PAY_URL"]
      (recordUnmappedVar (scanWorkspaceEnv ∅ (twin "shop") { urls := [ordersUrl] }) (twin "shop")
        "PAY_URL") (twin "shop") := by
  have only : twin "shop" ∈ ({twin "shop"} : Set Path) := rfl
  refine exact_of_harmless ?_ (twin "shop") only
  have began : Runs step (Harmless {twin "shop"}) (∅ : Index) [] ∅ := .start
  refine (began.step ?_ rfl).step ?_ rfl
  · exact ⟨rfl, fun other inside _ => inside, fun root repo same => by cases same⟩
  · exact ⟨rfl, fun other inside _ => inside, fun root repo same => by cases same⟩

/-- Two roots of one name share an entry: the second, never scanned, is given the bindings of
the first. -/
theorem exact_fails_of_twins :
    ¬ ∀ (roots : Set Path) (calls : List Call) (index : Index),
      Runs step (fun _ call => call.root ∈ roots) ∅ calls index →
        ∀ root ∈ roots, Exact calls index root := by
  intro claim
  have run : Runs step (fun _ call => call.root ∈ ({twin "shop", twin "blog"} : Set Path))
      (∅ : Index) [.scan (twin "shop") { urls := [ordersUrl] }]
      (scanWorkspaceEnv ∅ (twin "shop") { urls := [ordersUrl] }) :=
    Runs.start.step (Or.inl rfl) rfl
  have leaked := (claim _ _ _ run (twin "blog") (Or.inr rfl)).bindings "ORDERS_URL"
  revert leaked
  decide +kernel

end Lain.Server.EnvSensor
