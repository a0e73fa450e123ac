import Mathlib
import Lain.Contracts.Diff

/-!
# Where a comparison learns which lines changed

The differences of every repository are read from its mirror.
-/

namespace Lain.Contracts

open Foundation

/-! ### Spans of lines -/

def mergeSpan (merged : List (Nat × Nat)) (span : Nat × Nat) : List (Nat × Nat) :=
  match merged.getLast? with
  | some last =>
    if span.1 ≤ min (last.2 + 1) (2 ^ 32 - 1) then
      merged.dropLast ++ [(last.1, max last.2 span.2)]
    else merged ++ [span]
  | none => [span]

/-- Spans in order, adjacent ones folded together. -/
def mergeSpans (spans : List (Nat × Nat)) : List (Nat × Nat) :=
  (spans.mergeSort fun a b => decide (toLex a ≤ toLex b)).foldl mergeSpan []

def pointSpans (numbers : List Nat) : List (Nat × Nat) :=
  numbers.map fun number => (number, number)

/-- What spans merged from some numbers satisfy. -/
structure Merged (numbers : List Nat) (spans : List (Nat × Nat)) : Prop where
  covers : ∀ n, (∃ span ∈ spans, span.1 ≤ n ∧ n ≤ span.2) ↔ n ∈ numbers
  proper : ∀ span ∈ spans, span.1 ≤ span.2 ∧ span.2 < 2 ^ 32
  length : (spans.map spanLength).sum = numbers.toFinset.card
  last : ∀ span, spans.getLast? = some span → ∀ n ∈ numbers, n ≤ span.2

theorem spanLength_eq {first last : Nat} (proper : first ≤ last) (bound : last < 2 ^ 32) :
    spanLength (first, last) = last - first + 1 := by
  change (last + 2 ^ 32 - first) % 2 ^ 32 + 1 = last - first + 1
  omega

theorem Merged.push {numbers : List Nat} {spans : List (Nat × Nat)} (merged : Merged numbers spans)
    {number : Nat} (bound : number < 2 ^ 32) (largest : ∀ n ∈ numbers, n ≤ number) :
    Merged (numbers ++ [number]) (mergeSpan spans (number, number)) := by
  have single : spanLength (number, number) = 1 := by
    rw [spanLength_eq le_rfl bound, Nat.sub_self]
  have grown : number ∉ numbers →
      (numbers ++ [number]).toFinset.card = numbers.toFinset.card + 1 := by
    intro new
    rw [List.toFinset_append, List.toFinset_cons, List.toFinset_nil, insert_empty_eq,
      Finset.union_comm, Finset.singleton_union,
      Finset.card_insert_of_notMem (by rwa [List.mem_toFinset])]
  rcases List.eq_nil_or_concat spans with rfl | ⟨before, last, rfl⟩
  · have none : numbers = [] := by
      refine List.eq_nil_iff_forall_not_mem.mpr fun n member => ?_
      obtain ⟨_, inside, _⟩ := (merged.covers n).mpr member
      cases inside
    subst none
    exact
      { covers := fun n => by
          simpa [mergeSpan] using ⟨fun h => le_antisymm h.2 h.1, fun h => ⟨h.ge, h.le⟩⟩
        proper := fun span inside => by
          obtain rfl := List.mem_singleton.mp inside
          exact ⟨le_rfl, bound⟩
        length := by simp [mergeSpan, single]
        last := fun span here n member => by
          simp only [mergeSpan, List.getLast?_nil, List.getLast?_singleton,
            Option.some.injEq] at here
          subst here
          exact (List.mem_singleton.mp member).le }
  · obtain ⟨first, stop⟩ := last
    have top : ∀ n ∈ numbers, n ≤ stop :=
      merged.last (first, stop) (by rw [List.concat_eq_append, List.getLast?_concat])
    obtain ⟨ordered, small⟩ := merged.proper (first, stop) (by simp)
    dsimp only at ordered small
    have present : stop ∈ numbers :=
      (merged.covers stop).mp ⟨(first, stop), by simp, ordered, le_rfl⟩
    have reached : stop ≤ number := largest stop present
    have covers := merged.covers
    have length := merged.length
    unfold mergeSpan
    rw [List.concat_eq_append] at *
    rw [List.getLast?_concat]
    dsimp only
    split
    next near =>
        rw [List.dropLast_concat, max_eq_right reached]
        refine
          { covers := fun n => ?_
            proper := fun span inside => ?_
            length := ?_
            last := fun span here n member => ?_ }
        · have old := covers n
          simp only [List.mem_append, List.mem_singleton, or_and_right, exists_or,
            exists_eq_left] at old ⊢
          rw [← old]
          constructor
          · rintro (inside | ⟨after, upto⟩)
            · exact Or.inl (Or.inl inside)
            · by_cases within : n ≤ stop
              · exact Or.inl (Or.inr ⟨after, within⟩)
              · exact Or.inr (by omega)
          · rintro ((inside | ⟨after, upto⟩) | rfl)
            · exact Or.inl inside
            · exact Or.inr ⟨after, upto.trans reached⟩
            · exact Or.inr ⟨ordered.trans reached, le_rfl⟩
        · rcases List.mem_append.mp inside with old | here
          · exact merged.proper span (List.mem_append_left _ old)
          · obtain rfl := List.mem_singleton.mp here
            exact ⟨ordered.trans reached, bound⟩
        · simp only [List.map_append, List.sum_append, List.map_cons, List.map_nil,
            List.sum_cons, List.sum_nil, Nat.add_zero] at length ⊢
          rw [spanLength_eq ordered small] at length
          rw [spanLength_eq (ordered.trans reached) bound]
          by_cases same : number = stop
          · subst same
            rw [length, List.toFinset_append, List.toFinset_cons, List.toFinset_nil,
              insert_empty_eq, Finset.union_eq_left.mpr]
            simpa using present
          · have new : number ∉ numbers := fun member => same
              (le_antisymm (top number member) reached)
            rw [grown new, ← length]
            omega
        · rw [List.getLast?_concat, Option.some.injEq] at here
          subst here
          rcases List.mem_append.mp member with old | new
          · exact largest n old
          · exact (List.mem_singleton.mp new).le
    next far =>
        have new : number ∉ numbers := fun member => far (by have := top number member; omega)
        refine
          { covers := fun n => ?_
            proper := fun span inside => ?_
            length := ?_
            last := fun span here n member => ?_ }
        · rw [List.mem_append, ← covers n]
          simp only [List.mem_append, List.mem_singleton, or_and_right, exists_or,
            exists_eq_left]
          refine or_congr_right ⟨fun h => le_antisymm h.2 h.1, fun h => ⟨h.ge, h.le⟩⟩
        · rcases List.mem_append.mp inside with old | here
          · exact merged.proper span old
          · obtain rfl := List.mem_singleton.mp here
            exact ⟨le_rfl, bound⟩
        · rw [List.map_append, List.sum_append, length, grown new]
          simp [single]
        · rw [List.getLast?_concat, Option.some.injEq] at here
          subst here
          rcases List.mem_append.mp member with old | new
          · exact largest n old
          · exact (List.mem_singleton.mp new).le

/-- **Merged spans cover the numbers they were made of, each once.** -/
theorem merged_mergeSpans {numbers : List Nat} (bound : ∀ n ∈ numbers, n < 2 ^ 32) :
    Merged numbers (mergeSpans (pointSpans numbers)) := by
  have fold : ∀ later seen spans, Merged seen spans → (∀ n ∈ later, n < 2 ^ 32) →
      (seen ++ later).Pairwise (· ≤ ·) →
        Merged (seen ++ later) ((pointSpans later).foldl mergeSpan spans) := by
    intro later
    induction later with
    | nil =>
      intro seen spans merged _ _
      rwa [List.append_nil]
    | cons number later ih =>
      intro seen spans merged small sorted
      have largest : ∀ n ∈ seen, n ≤ number := fun n member =>
        (List.pairwise_append.mp sorted).2.2 n member number List.mem_cons_self
      have next := ih (seen ++ [number]) _
        (merged.push (small number List.mem_cons_self) largest)
        (fun n member => small n (List.mem_cons_of_mem _ member))
        (by rwa [List.append_assoc])
      rwa [List.append_assoc] at next
  have start : Merged [] [] :=
    { covers := by simp
      proper := by simp
      length := rfl
      last := by simp }
  let sorted := numbers.mergeSort fun a b => decide (a ≤ b)
  have arranged : (pointSpans numbers).mergeSort (fun a b => decide (toLex a ≤ toLex b)) =
      pointSpans sorted := by
    refine (List.map_mergeSort fun a _ b _ => ?_).symm
    rw [Bool.eq_iff_iff, decide_eq_true_eq, decide_eq_true_eq, Prod.Lex.toLex_le_toLex]
    exact ⟨fun before => (lt_or_eq_of_le before).imp id fun same => ⟨same, before⟩,
      fun before => before.elim le_of_lt And.right⟩
  have perm : sorted.Perm numbers := List.mergeSort_perm _ _
  have ascending : sorted.Pairwise (· ≤ ·) := by
    have pairwise := @List.pairwise_mergeSort Nat (fun a b => decide (a ≤ b))
      (fun a b c first second => by simp only [decide_eq_true_eq] at *; omega)
      (fun a b => by simp only [Bool.or_eq_true, decide_eq_true_eq]; omega) numbers
    exact pairwise.imp fun before => of_decide_eq_true before
  have merged := fold sorted [] [] start (fun n member => bound n (perm.mem_iff.mp member))
    ascending
  unfold mergeSpans
  rw [arranged]
  exact
    { covers := fun n => (merged.covers n).trans perm.mem_iff
      proper := merged.proper
      length := merged.length.trans (congrArg Finset.card (List.toFinset_eq_of_perm _ _ perm))
      last := fun span here n member => merged.last span here n (perm.mem_iff.mpr member) }

/-! ### The differences of a repository -/

inductive DiffLine where
  | addition (newLineno : UInt32)
  | deletion (oldLineno : UInt32)
  | other
  deriving DecidableEq

def DiffLine.touched : DiffLine → Option Nat
  | .addition newLineno => some newLineno.toNat
  | .deletion oldLineno => some oldLineno.toNat
  | .other => none

def touchedNumbers (lines : List DiffLine) : List Nat :=
  lines.filterMap DiffLine.touched

structure FileDelta where
  newFile : Option String
  oldFile : Option String
  lines : List DiffLine

/-- The name the lines of a file are filed under. -/
def FileDelta.path (delta : FileDelta) : Option String :=
  delta.newFile.or delta.oldFile

def FileDelta.spans (delta : FileDelta) : List (String × (Nat × Nat)) :=
  match delta.path with
  | some path => (pointSpans (touchedNumbers delta.lines)).map fun span => (path, span)
  | none => []

/-- The files a diff names and the spans of the lines it touched. -/
def diffFullImpl (deltas : List FileDelta) :
    Finset String × SortedMap String (List (Nat × Nat)) :=
  ((deltas.flatMap fun delta => delta.newFile.toList ++ delta.oldFile.toList).toFinset,
    (SortedMap.group (deltas.flatMap FileDelta.spans)).mapEntries fun _ spans => mergeSpans spans)

inductive MirrorDiff where
  | sameCommit
  | failed (reason : String)
  | diffed (deltas : List FileDelta)

/-- The changed files of a repository and, when they could be compared, the changed lines. -/
def diffRepoWithLines : MirrorDiff →
    RepoDiffResult × Option (SortedMap String (List (Nat × Nat)))
  | .sameCommit => (.unchanged, some ∅)
  | .failed reason => (.unavailable reason, none)
  | .diffed deltas =>
    let found := diffFullImpl deltas
    (if found.1 = ∅ then .unchanged else .changed found.1, some found.2)

/-- The differences of several repositories. -/
structure MultiRepoChangedFiles where
  byRepo : SortedMap String RepoDiffResult
  lineRanges : SortedMap String (SortedMap String (List (Nat × Nat)))

/-- The differences of several repositories as a comparison asks for them. -/
def MultiRepoChangedFiles.source (diffs : MultiRepoChangedFiles) : ChangedFilesSource where
  changedFiles _ _ := (diffs.byRepo.entries.map fun entry =>
    match entry.2 with
    | .changed files => files
    | _ => ∅).foldl (· ∪ ·) ∅
  changedLineRangesForRepo repo _ _ := diffs.lineRanges.get? repo
  changedFilesForRepo repo _ _ := (diffs.byRepo.get? repo).getD
    (.unavailable s!"repo {repo} not found in snapshot diff")

/-- Compare every repository of the base in its mirror. -/
def buildChangedSource (mirrors : SortedMap String MirrorDiff) : MultiRepoChangedFiles where
  byRepo := mirrors.mapEntries fun _ mirror => (diffRepoWithLines mirror).1
  lineRanges := mirrors.filterMapEntries fun _ mirror => (diffRepoWithLines mirror).2

/-! ### What the spans are of -/

structure RevisedSource where
  source : ChangedFilesSource
  lines : String → String → Option (List DiffLine)
  spans_eq : ∀ repo file,
    ((source.changedLineRangesForRepo repo "" "").bind fun ranges => ranges.get? file) =
      (lines repo file).map fun lines => mergeSpans (pointSpans (touchedNumbers lines))

theorem touchedNumbers_lt (lines : List DiffLine) : ∀ n ∈ touchedNumbers lines, n < 2 ^ 32 := by
  intro n member
  obtain ⟨line, _, filed⟩ := List.mem_filterMap.mp member
  cases line with
  | addition number =>
    obtain rfl := Option.some.inj filed
    exact number.toNat_lt
  | deletion number =>
    obtain rfl := Option.some.inj filed
    exact number.toNat_lt
  | other => cases filed

def linesOf (deltas : List FileDelta) (file : String) : List DiffLine :=
  (deltas.filter fun delta => decide (delta.path = some file)).flatMap FileDelta.lines

def MirrorDiff.touchedLines (mirror : MirrorDiff) (file : String) : Option (List DiffLine) :=
  match mirror with
  | .diffed deltas =>
    if touchedNumbers (linesOf deltas file) = [] then none else some (linesOf deltas file)
  | _ => none

theorem spans_filter (deltas : List FileDelta) (file : String) :
    ((deltas.flatMap FileDelta.spans).filter fun entry => decide (entry.1 = file)).map Prod.snd =
      pointSpans (touchedNumbers (linesOf deltas file)) := by
  induction deltas with
  | nil => rfl
  | cons delta deltas ih =>
    rw [List.flatMap_cons, List.filter_append, List.map_append, ih]
    unfold FileDelta.spans linesOf pointSpans touchedNumbers
    cases path : delta.path with
    | none => simp [path]
    | some other =>
      by_cases here : other = file
      · simp [path, here, List.filter_map, Function.comp_def]
      · simp [path, here, List.filter_map, Function.comp_def]

theorem diffRepoWithLines_spans (mirror : MirrorDiff) (file : String) :
    ((diffRepoWithLines mirror).2.bind fun ranges => ranges.get? file) =
      (mirror.touchedLines file).map fun lines =>
        mergeSpans (pointSpans (touchedNumbers lines)) := by
  cases mirror with
  | sameCommit => rfl
  | failed reason => rfl
  | diffed deltas =>
    have values := SortedMap.getD_group (deltas.flatMap FileDelta.spans) file
    have present := SortedMap.isSome_group (deltas.flatMap FileDelta.spans) file
    rw [spans_filter] at values
    have touched : (∃ entry ∈ deltas.flatMap FileDelta.spans, entry.1 = file) ↔
        touchedNumbers (linesOf deltas file) ≠ [] := by
      have empty : pointSpans (touchedNumbers (linesOf deltas file)) = [] ↔
          touchedNumbers (linesOf deltas file) = [] := List.map_eq_nil_iff
      rw [Ne, ← empty, ← spans_filter, List.map_eq_nil_iff, List.filter_eq_nil_iff]
      simp only [decide_eq_true_eq, not_forall, not_not, exists_prop]
    change ((SortedMap.group (deltas.flatMap FileDelta.spans)).mapEntries _).get? file = _
    rw [SortedMap.get?_mapEntries]
    change _ = Option.map _ (if touchedNumbers (linesOf deltas file) = [] then none else _)
    cases found : (SortedMap.group (deltas.flatMap FileDelta.spans)).get? file with
    | none =>
      rw [found] at present
      rw [if_pos (by simpa using touched.not.mp (by simpa using present))]
      rfl
    | some spans =>
      rw [found] at present values
      rw [if_neg (touched.mp (present.mp rfl))]
      exact congrArg some (congrArg mergeSpans values)

def revisedSource (mirrors : SortedMap String MirrorDiff) : RevisedSource where
  source := (buildChangedSource mirrors).source
  lines repo file := (mirrors.get? repo).bind fun mirror => mirror.touchedLines file
  spans_eq repo file := by
    change ((mirrors.filterMapEntries fun _ mirror => (diffRepoWithLines mirror).2).get? repo).bind
      _ = _
    rw [SortedMap.get?_filterMapEntries]
    cases mirrors.get? repo with
    | none => rfl
    | some mirror => exact diffRepoWithLines_spans mirror file

end Lain.Contracts
