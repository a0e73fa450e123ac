import Mathlib
import Lain.Foundation.MergedPages
import Lain.Server.Annotations

/-!
# Listing annotations

Each repository's rows are selected, sorted and read one after another, an open row whose target
is gone as a stale one; the lists of several repositories are put together, newest first.
-/

namespace Lain.Server.Annotations

open Foundation

structure Row where
  id : String
  targetKind : String
  targetId : String
  kind : String
  body : String
  author : String
  createdAt : Int
  updatedAt : Int
  status : String
  resolvedBy : Option String
  resolvedAt : Option Int
  refs : List AnnotationTarget

structure Store where
  rows : List Row
  keyed : (rows.map Row.id).Nodup

structure ListFilter where
  target : Option AnnotationTarget := none
  author : Option String := none
  kind : Option AnnotationKind := none
  status : Option AnnotationStatus := none
  limit : Option Nat := none

/-- A row as an annotation; a time before the beginning is the beginning. -/
def rowToAnnotation (row : Row) : Annotation where
  id := row.id
  targetKind := row.targetKind
  targetId := row.targetId
  kind := row.kind
  body := row.body
  author := row.author
  createdAtUnixMs := row.createdAt.toNat
  updatedAtUnixMs := row.updatedAt.toNat
  status := row.status
  resolvedBy := row.resolvedBy
  resolvedAtUnixMs := row.resolvedAt.map Int.toNat
  refs := row.refs

def rowOrder (row : Row) : ℤᵒᵈ ×ₗ String :=
  toLex (OrderDual.toDual row.createdAt, row.id)

/-- The order of a merged list: newest first. -/
def newest (a : Annotation) : ℕᵒᵈ :=
  OrderDual.toDual a.createdAtUnixMs

variable (separator : Char) (filter : ListFilter) (existsNow : AnnotationTarget → Bool)

/-- A row is about the target, by the author and of the kind that are asked for. -/
def ListFilter.fits (row : Row) : Bool :=
  (match filter.target with
    | none => true
    | some target =>
      row.targetKind == target.targetKindStr &&
        row.targetId == canonicalTargetId separator target) &&
  (match filter.author with
    | none => true
    | some author => row.author == author) &&
  (match filter.kind with
    | none => true
    | some kind => row.kind == kind.asStr)

def ListFilter.statusSelected (row : Row) : Bool :=
  match filter.status with
  | some .resolved => row.status == AnnotationStatus.resolved.asStr
  | some .open => row.status != AnnotationStatus.resolved.asStr
  | some .stale => row.status != AnnotationStatus.resolved.asStr
  | none => true

def ListFilter.postFiltered : Bool :=
  filter.status == some .open || filter.status == some .stale

def ListFilter.pageLimit : Nat :=
  min (filter.limit.getD 100) 1000

def reclassify (a : Annotation) : Annotation :=
  if a.status = AnnotationStatus.open.asStr then
    match annotationTargetFromRow a with
    | some target =>
      if existsNow target then a else { a with status := AnnotationStatus.stale.asStr }
    | none => { a with status := AnnotationStatus.stale.asStr }
  else a

def readRow (row : Row) : Annotation :=
  reclassify existsNow ( rowToAnnotation row)

def ListFilter.statusMatches (a : Annotation) : Bool :=
  match filter.status with
  | none => true
  | some requested => a.status == requested.asStr

/-- Read rows one after another; after a page of rows of the status asked for, stop. -/
def collect : List Annotation → List Row → List Annotation
  | out, [] => out
  | out, row :: rows =>
    if filter.statusMatches (readRow existsNow row) then
      if filter.postFiltered &&
          decide (filter.pageLimit ≤ (out ++ [readRow existsNow row]).length) then
        out ++ [readRow existsNow row]
      else collect (out ++ [readRow existsNow row]) rows
    else collect out rows

def listWithStaleness (store : Store) : List Annotation :=
  let rows := sortByKey rowOrder
    (store.rows.filter fun row => filter.fits separator row && filter.statusSelected row)
  collect filter existsNow [] (if filter.postFiltered then rows else rows.take filter.pageLimit)

/-- The annotations of several tables. -/
def listAll {ρ : Type*} (stores : ρ → Store) (repos : List ρ) : List Annotation :=
  let out := sortByKey newest
    (repos.flatMap fun repo => listWithStaleness separator filter existsNow (stores repo))
  match filter.limit with
  | some limit => out.take limit
  | none => out

/-! ### What a listing is about -/

/-- The annotations of a table that match, newest first and then by name: an open row counts as
what it is now. -/
def matching (store : Store) : List Annotation :=
  ((sortByKey rowOrder (store.rows.filter (filter.fits separator))).map
    (readRow existsNow)).filter filter.statusMatches

/-! ### What is read of one table -/

theorem collect_of_all (all : filter.postFiltered = false) (out : List Annotation)
    (rows : List Row) :
    collect filter existsNow out rows =
      out ++ (rows.map (readRow existsNow)).filter filter.statusMatches := by
  induction rows generalizing out with
  | nil => simp [collect]
  | cons row rows ih =>
    rw [collect, List.map_cons, List.filter_cons, all, Bool.false_and,
      if_neg (fun full => Bool.false_ne_true full), ih, ih]
    split_ifs
    · rw [List.append_assoc]
      rfl
    · rfl

theorem collect_of_post (post : filter.postFiltered = true) (out : List Annotation)
    (rows : List Row) (room : out.length < max 1 filter.pageLimit) :
    collect filter existsNow out rows =
      (out ++ (rows.map (readRow existsNow)).filter filter.statusMatches).take
        (max 1 filter.pageLimit) := by
  induction rows generalizing out with
  | nil => simp [collect, List.take_of_length_le room.le]
  | cons row rows ih =>
    have size : (out ++ [readRow existsNow row]).length = out.length + 1 := by simp
    rw [collect, List.map_cons, List.filter_cons]
    by_cases fits : filter.statusMatches (readRow existsNow row) = true
    · rw [if_pos fits, if_pos fits, size, post, Bool.true_and,
        List.append_cons out (readRow existsNow row) (List.filter _ _)]
      by_cases full : filter.pageLimit ≤ out.length + 1
      · rw [if_pos (decide_eq_true full), List.take_append_of_le_length (by omega),
          List.take_of_length_le (by omega)]
      · rw [if_neg (by simpa using full)]
        exact ih _ (by omega)
    · rw [if_neg fits, if_neg fits]
      exact ih out room

theorem readRow_status (row : Row) :
    (readRow existsNow row).status =
      if row.status = AnnotationStatus.open.asStr then
        if ((annotationTargetFromRow ( rowToAnnotation row)).map existsNow).getD false then
          AnnotationStatus.open.asStr
        else AnnotationStatus.stale.asStr
      else row.status := by
  unfold readRow reclassify
  by_cases isOpen : row.status = AnnotationStatus.open.asStr
  · rw [if_pos isOpen, if_pos (show ( rowToAnnotation row).status = _ from isOpen)]
    cases annotationTargetFromRow ( rowToAnnotation row) with
    | none => rfl
    | some target =>
      simp only [Option.map_some, Option.getD_some]
      split
      · exact isOpen
      · rfl
  · rw [if_neg isOpen, if_neg (show ¬( rowToAnnotation row).status = _ from isOpen)]
    rfl

theorem readRow_resolved (row : Row) :
    (readRow existsNow row).status = AnnotationStatus.resolved.asStr ↔
      row.status = AnnotationStatus.resolved.asStr := by
  rw [readRow_status]
  split_ifs with isOpen present
  · rw [isOpen]
  · rw [isOpen]
    decide
  · rfl

theorem statusSelected_of_statusMatches {row : Row}
    (fits : filter.statusMatches (readRow existsNow row) = true) :
    filter.statusSelected row = true := by
  have resolved := readRow_resolved existsNow row
  unfold ListFilter.statusMatches at fits
  unfold ListFilter.statusSelected
  cases asked : filter.status with
  | none => rfl
  | some status =>
    simp only [asked, beq_iff_eq] at fits
    cases status with
    | resolved => exact beq_iff_eq.mpr (resolved.mp fits)
    | «open» =>
      rw [bne_iff_ne, ne_eq, ← resolved, fits]
      decide
    | stale =>
      rw [bne_iff_ne, ne_eq, ← resolved, fits]
      decide

theorem statusMatches_of_statusSelected (all : filter.postFiltered = false) {row : Row}
    (selected : filter.statusSelected row = true) :
    filter.statusMatches (readRow existsNow row) = true := by
  have resolved := readRow_resolved existsNow row
  unfold ListFilter.postFiltered at all
  unfold ListFilter.statusSelected at selected
  unfold ListFilter.statusMatches
  cases asked : filter.status with
  | none => rfl
  | some status =>
    simp only [asked] at all selected
    cases status with
    | resolved => exact beq_iff_eq.mpr (resolved.mpr (beq_iff_eq.mp selected))
    | «open» => exact absurd all (by decide)
    | stale => exact absurd all (by decide)

theorem matching_eq (store : Store) :
    matching separator filter existsNow store =
      (sortByKey rowOrder (store.rows.filter fun row =>
        filter.fits separator row && filter.statusMatches (readRow existsNow row))).map
          (readRow existsNow) := by
  unfold matching
  rw [List.filter_map, ← sortByKey_filter, List.filter_filter]
  congr 3
  funext row
  exact Bool.and_comm _ _

/-- **What is listed of one table** are the first of its matching rows. -/
theorem listWithStaleness_eq (store : Store) :
    listWithStaleness separator filter existsNow store =
      (matching separator filter existsNow store).take
        (if filter.postFiltered then max 1 filter.pageLimit else filter.pageLimit) := by
  unfold listWithStaleness
  rw [matching_eq]
  cases post : filter.postFiltered with
  | true =>
    simp only [if_true]
    rw [collect_of_post filter existsNow post [] _ (by simp), List.nil_append, List.filter_map,
      ← sortByKey_filter, List.filter_filter]
    congr 4
    funext row
    have implied : filter.statusMatches (readRow existsNow row) = true →
        filter.statusSelected row = true := statusSelected_of_statusMatches filter existsNow
    grind
  | false =>
    simp only [Bool.false_eq_true, if_false]
    have same : (fun row => filter.fits separator row && filter.statusSelected row) =
        fun row => filter.fits separator row && filter.statusMatches (readRow existsNow row) := by
      funext row
      have implied : filter.statusMatches (readRow existsNow row) = true →
          filter.statusSelected row = true := statusSelected_of_statusMatches filter existsNow
      have implies : filter.statusSelected row = true →
          filter.statusMatches (readRow existsNow row) = true :=
        statusMatches_of_statusSelected filter existsNow post
      grind
    rw [collect_of_all filter existsNow post, List.nil_append, same, List.filter_eq_self.mpr,
      List.map_take]
    intro a member
    obtain ⟨row, taken, rfl⟩ := List.mem_map.mp member
    have kept := (perm_sortByKey rowOrder _).mem_iff.mp (List.mem_of_mem_take taken)
    exact (Bool.and_eq_true_iff.mp (List.mem_filter.mp kept).2).2

theorem sorted_matching (store : Store) :
    (matching separator filter existsNow store).Pairwise fun a b => newest a ≤ newest b := by
  have created (row : Row) : newest (readRow existsNow row) =
      OrderDual.toDual row.createdAt.toNat := by
    unfold newest readRow reclassify
    split
    · split
      · split <;> rfl
      · rfl
    · rfl
  rw [matching_eq, List.pairwise_map]
  refine (sorted_sortByKey rowOrder _).imp fun {a b} before => ?_
  rw [created, created, OrderDual.toDual_le_toDual]
  rcases Prod.Lex.toLex_le_toLex.mp before with later | ⟨same, -⟩
  · exact Int.toNat_le_toNat (OrderDual.toDual_lt_toDual.mp later).le
  · rw [OrderDual.toDual_inj.mp same]

/-! ### What is listed of several tables -/

section Several

variable {ρ : Type*} (stores : ρ → Store) (repos : List ρ)

def allMatching : List Annotation :=
  sortByKey newest (repos.flatMap fun repo => matching separator filter existsNow (stores repo))

theorem listAll_eq_take {limit : Nat} (asked : filter.limit = some limit) :
    listAll separator filter existsNow stores repos =
      (sortByKey newest (repos.flatMap fun repo =>
        (matching separator filter existsNow (stores repo)).take (min limit 1000))).take limit := by
  unfold listAll
  simp only [asked]
  cases limit with
  | zero => simp
  | succ limit =>
    have cap : (if filter.postFiltered = true then max 1 filter.pageLimit
        else filter.pageLimit) = min (limit + 1) 1000 := by
      unfold ListFilter.pageLimit
      rw [asked, Option.getD_some]
      split_ifs <;> omega
    simp only [listWithStaleness_eq, cap]

/-- **A listing is a page of the matching annotations.** A limit of at most a thousand gives the
first matching annotations of all the repositories, and shows none while a newer one is left out;
a larger limit gives the first of what is put together from at most a thousand of each. -/
theorem listAll_isPage {limit : Nat} (asked : filter.limit = some limit) :
    (limit ≤ 1000 →
      listAll separator filter existsNow stores repos =
          (allMatching separator filter existsNow stores repos).take limit ∧
        ∀ a ∈ allMatching separator filter existsNow stores repos,
          a ∉ listAll separator filter existsNow stores repos →
            ∀ b ∈ listAll separator filter existsNow stores repos,
              a.createdAtUnixMs ≤ b.createdAtUnixMs) ∧
      (1000 < limit →
        listAll separator filter existsNow stores repos =
          (sortByKey newest (repos.flatMap fun repo =>
            (matching separator filter existsNow (stores repo)).take 1000)).take limit) := by
  have pages := listAll_eq_take separator filter existsNow stores repos asked
  refine ⟨fun small => ?_, fun large => ?_⟩
  · have whole : listAll separator filter existsNow stores repos =
        (allMatching separator filter existsNow stores repos).take limit := by
      rw [pages, Nat.min_eq_left small]
      exact take_sortByKey_flatMap le_rfl _ repos fun repo _ =>
        sorted_matching separator filter existsNow (stores repo)
    refine ⟨whole, fun a member left b shown => ?_⟩
    rw [whole] at left shown
    exact OrderDual.toDual_le_toDual.mp
      (le_of_notMem_take (sorted_sortByKey newest _) member left shown)
  · rw [pages, Nat.min_eq_right large.le]

end Several

def sampleRow (name : String) (created : Int) : Row where
  id := name
  targetKind := "symbol"
  targetId := "symbol:f"
  kind := "note"
  body := "b"
  author := "alice"
  createdAt := created
  updatedAt := created
  status := "open"
  resolvedBy := none
  resolvedAt := none
  refs := []

def sampleStore (name : String) : Store where
  rows := [sampleRow name 1]
  keyed := List.nodup_singleton _

theorem listAll_isPage_single :
    listAll '/' { limit := some 1 } (fun _ => true) sampleStore ["a", "b"] =
      (allMatching '/' { limit := some 1 } (fun _ => true) sampleStore ["a", "b"]).take 1 :=
  ((listAll_isPage '/' { limit := some 1 } (fun _ => true) sampleStore ["a", "b"]
    rfl).1 (by decide)).1

def longStore : Store where
  rows := (List.range 1001).map fun i => sampleRow (String.ofList (List.replicate i 'a')) i
  keyed := by
    rw [List.map_map]
    refine List.Nodup.map (fun i j same => ?_) List.nodup_range
    have sizes := congrArg (fun name : String => name.toList.length) same
    simpa [sampleRow] using sizes

theorem length_matching_longStore (limit : Nat) :
    (matching '/' { limit := some limit } (fun _ => true) longStore).length = 1001 := by
  rw [matching_eq, List.length_map, (perm_sortByKey rowOrder _).length_eq,
    List.filter_eq_self.mpr]
  · rw [longStore, List.length_map, List.length_range]
  · exact fun _ _ => rfl

/-- Rows of one time follow the order of the repositories, and a limit beyond a thousand leaves
out a row that matches. -/
theorem listAll_isPage_fails :
    (listAll '/' { limit := some 2 } (fun _ => true) sampleStore ["a", "b"] ≠
      listAll '/' { limit := some 2 } (fun _ => true) sampleStore ["b", "a"]) ∧
      listAll '/' { limit := some 1001 } (fun _ => true) (fun _ => longStore) [()] ≠
        (allMatching '/' { limit := some 1001 } (fun _ => true) (fun _ => longStore) [()]).take
          1001 := by
  constructor
  · decide +kernel
  · intro same
    have sizes := congrArg List.length same
    rw [listAll_eq_take '/' _ _ _ _ rfl, allMatching, List.length_take, List.length_take,
      (perm_sortByKey newest _).length_eq, (perm_sortByKey newest _).length_eq] at sizes
    simp [length_matching_longStore] at sizes

end Lain.Server.Annotations
