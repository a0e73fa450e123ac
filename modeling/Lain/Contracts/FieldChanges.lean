import Mathlib
import Lain.Contracts.HandlerEdits
import Lain.Foundation.ClassPairs

/-!
# The changes of fields

Comparing the fields of an endpoint on two sides pairs removed fields with added ones as renames
and reports what else was removed, added or altered.
-/

namespace Lain.Contracts

open Foundation

/-! ### Renames -/

def fieldClass (fields : SortedMap JsonPath FieldMeta) (path : JsonPath) :
    JsonPath × Option TypeDesc :=
  (parentOf path, (fields.get? path).map FieldMeta.ty)

def renamePairs (base head : SortedMap JsonPath FieldMeta) : List (JsonPath × JsonPath) :=
  pairByClass (fieldClass base) (fieldClass head) (onlyIn base head) (onlyIn head base)

section Pairs

variable {base head : SortedMap JsonPath FieldMeta}

theorem mem_onlyIn {path : JsonPath} : path ∈ onlyIn base head ↔
    (base.get? path).isSome = true ∧ head.get? path = none ∧
      hasAncestorOnlyIn path base head = false := by
  unfold onlyIn
  rw [List.mem_filter, SortedMap.mem_keys, Bool.and_eq_true, Option.isNone_iff_eq_none,
    Bool.not_eq_true']

theorem sorted_onlyIn : (onlyIn base head).Pairwise (· < ·) := by
  have keys : base.keys.Pairwise (· < ·) := List.pairwise_map.mpr base.sorted
  exact keys.filter _

theorem renames_iff {removed added : JsonPath} (inBase : (base.get? removed).isSome = true)
    (inHead : (head.get? added).isSome = true) :
    renames base head removed added = decide (fieldClass base removed = fieldClass head added) := by
  obtain ⟨old, ofBase⟩ := Option.isSome_iff_exists.mp inBase
  obtain ⟨new, ofHead⟩ := Option.isSome_iff_exists.mp inHead
  unfold renames fieldClass
  rw [ofBase, ofHead, Bool.eq_iff_iff]
  simp

theorem findRenames_eq {removed added : List JsonPath} (distinct : removed.Nodup)
    (inBase : ∀ r ∈ removed, (base.get? r).isSome = true)
    (inHead : ∀ a ∈ added, (head.get? a).isSome = true) :
    findRenames base head removed added =
      ((pairByClass (fieldClass base) (fieldClass head) removed added).map Prod.fst,
        (pairByClass (fieldClass base) (fieldClass head) removed added).map Prod.snd) := by
  induction removed using List.reverseRecOn with
  | nil => rfl
  | append_singleton removed path ih =>
    rw [List.nodup_append] at distinct
    have before := ih distinct.1 fun r member => inBase r (List.mem_append_left _ member)
    have fresh : path ∉ (pairByClass (fieldClass base) (fieldClass head) removed added).map
        Prod.fst := fun member =>
      distinct.2.2 path (map_fst_pairByClass_sublist.subset member) path (by simp) rfl
    have here := inBase path (by simp)
    rw [pairByClass_concat]
    unfold findRenames at before ⊢
    rw [List.foldl_append, before, List.foldl_cons, List.foldl_nil]
    generalize found : List.find? _ added = partner
    have same : ∀ target ∈ added, (renames base head path target &&
          decide (path ∉ (pairByClass (fieldClass base) (fieldClass head) removed added).map
            Prod.fst) &&
          decide (target ∉ (pairByClass (fieldClass base) (fieldClass head) removed added).map
            Prod.snd)) = true ↔
        fieldClass base path = fieldClass head target ∧
          target ∉ (pairByClass (fieldClass base) (fieldClass head) removed added).map
            Prod.snd := by
      intro target member
      rw [renames_iff here (inHead target member)]
      simp [fresh]
    rw [pairNext_of same found]
    cases partner with
    | none => rfl
    | some target => simp

theorem findRenames_onlyIn : findRenames base head (onlyIn base head) (onlyIn head base) =
    ((renamePairs base head).map Prod.fst, (renamePairs base head).map Prod.snd) :=
  findRenames_eq (sorted_onlyIn.imp ne_of_lt) (fun _ member => (mem_onlyIn.mp member).1)
    fun _ member => (mem_onlyIn.mp member).1

theorem sorted_ordered (l : List JsonPath) : (SortedMap.ordered l).Pairwise (· < ·) :=
  List.pairwise_map.mpr (SortedMap.tally l).sorted

theorem ordered_perm {l : List JsonPath} (distinct : l.Nodup) : (SortedMap.ordered l).Perm l :=
  (List.perm_ext_iff_of_nodup ((sorted_ordered l).imp ne_of_lt) distinct).mpr fun _ =>
    SortedMap.mem_ordered

theorem ordered_firsts : SortedMap.ordered ((renamePairs base head).map Prod.fst) =
    (renamePairs base head).map Prod.fst := by
  have sorted := sorted_onlyIn.sublist (@map_fst_pairByClass_sublist _ _ _ _ _ (fieldClass base)
    (fieldClass head) (onlyIn base head) (onlyIn head base))
  exact (ordered_perm (sorted.imp ne_of_lt)).eq_of_pairwise
    (fun x y _ _ less more => absurd more less.asymm) (sorted_ordered _) sorted

end Pairs

def ChangeKind.renamed? : ChangeKind → Option (JsonPath × JsonPath)
  | .fieldRenamed _ _ source target _ => some (source, target)
  | _ => none

def ChangeKind.lostOrGained? : ChangeKind → Option JsonPath
  | .fieldRemoved _ _ path => some path
  | .fieldAdded _ _ path _ => some path
  | _ => none

def ChangeKind.altered? : ChangeKind → Option JsonPath
  | .fieldTypeChanged _ _ path _ _ _ => some path
  | .requirednessChanged _ _ path _ => some path
  | .nullabilityChanged _ _ path _ => some path
  | .enumValueRemoved _ _ path _ => some path
  | .enumValueAdded _ _ path _ => some path
  | _ => none

section Renames

variable (endpoint : EndpointId) (direction : Direction)
  (old new : Option (SortedMap JsonPath FieldMeta))

def fieldRenames : List (JsonPath × JsonPath) :=
  (diffFields [] endpoint direction old new).filterMap fun change => change.kind.renamed?

structure IsRename (base head : SortedMap JsonPath FieldMeta) (rename : JsonPath × JsonPath) :
    Prop where
  known : (base.get? rename.1).isSome = true
  gone : head.get? rename.1 = none
  found : (head.get? rename.2).isSome = true
  fresh : base.get? rename.2 = none
  parent : parentOf rename.1 = parentOf rename.2
  type : (base.get? rename.1).map FieldMeta.ty = (head.get? rename.2).map FieldMeta.ty

/-- **Renames are well formed**: each is of a field that is gone and one that is new, with the same
parent and type; no path is renamed twice or renamed to twice; and none is reported as removed or
added as well. -/
structure RenamesWellFormed : Prop where
  renames : ∀ rename ∈ fieldRenames endpoint direction old new,
    IsRename (old.getD ∅) (new.getD ∅) rename
  once : ((fieldRenames endpoint direction old new).map Prod.fst).Nodup ∧
    ((fieldRenames endpoint direction old new).map Prod.snd).Nodup
  apart : ∀ rename ∈ fieldRenames endpoint direction old new,
    ∀ change ∈ diffFields [] endpoint direction old new,
      change.kind.lostOrGained? ≠ some rename.1 ∧ change.kind.lostOrGained? ≠ some rename.2

variable {endpoint direction old new}

theorem altered?_attributeChanges {path : JsonPath} {before after : FieldMeta} {kind : ChangeKind}
    (member : kind ∈ attributeChanges endpoint direction path before after) :
    kind.altered? = some path :=
  forall_mem_attributeChanges (P := fun kind => kind.altered? = some path) (fun _ _ _ => rfl)
    (fun _ => rfl) (fun _ => rfl) (fun _ => rfl) (fun _ => rfl) kind member

theorem renamed?_of_altered? {kind : ChangeKind} {path : JsonPath}
    (altered : kind.altered? = some path) : kind.renamed? = none ∧ kind.lostOrGained? = none := by
  cases kind <;> first | exact ⟨rfl, rfl⟩ | cases altered

theorem mem_diffFields_nil {change : Change} :
    change ∈ diffFields [] endpoint direction old new ↔
      (∃ path ∈ onlyIn (old.getD ∅) (new.getD ∅),
        path ∉ (renamePairs (old.getD ∅) (new.getD ∅)).map Prod.fst ∧
          change = ⟨endpoint.service, .fieldRemoved endpoint direction path⟩) ∨
      (∃ path ∈ onlyIn (new.getD ∅) (old.getD ∅),
        path ∉ (renamePairs (old.getD ∅) (new.getD ∅)).map Prod.snd ∧
          change = ⟨endpoint.service, .fieldAdded endpoint direction path
            ((((new.getD ∅).get? path).map FieldMeta.required).getD false)⟩) ∨
      (∃ rename ∈ ((renamePairs (old.getD ∅) (new.getD ∅)).map Prod.fst).zip
          (SortedMap.ordered ((renamePairs (old.getD ∅) (new.getD ∅)).map Prod.snd)),
        change = ⟨endpoint.service, .fieldRenamed endpoint direction rename.1 rename.2
          ((((new.getD ∅).get? rename.2).map FieldMeta.required).getD false)⟩) ∨
      ∃ path before after, (old.getD ∅).get? path = some before ∧
        (new.getD ∅).get? path = some after ∧
          ∃ kind ∈ attributeChanges endpoint direction path before after,
            change = ⟨endpoint.service, kind⟩ := by
  unfold diffFields
  dsimp only
  rw [findRenames_onlyIn, ordered_firsts]
  generalize old.getD ∅ = base
  generalize new.getD ∅ = head
  rw [List.nil_append, List.mem_append, List.mem_append, List.filter_append, List.mem_append,
    or_assoc, or_assoc]
  refine or_congr ?_ (or_congr ?_ (or_congr ?_ ?_))
  · rw [List.mem_filter, List.mem_map]
    constructor
    · rintro ⟨⟨path, inside, rfl⟩, whole⟩
      refine ⟨path, (List.mem_filter.mp inside).1, ?_, rfl⟩
      simpa [partOfRename] using whole
    · rintro ⟨path, inside, alone, rfl⟩
      exact ⟨⟨path, List.mem_filter.mpr ⟨inside, (mem_onlyIn.mp inside).1⟩, rfl⟩,
        by simpa [partOfRename] using alone⟩
  · rw [List.mem_filter, List.mem_map]
    constructor
    · rintro ⟨⟨path, inside, rfl⟩, whole⟩
      exact ⟨path, inside, by simpa [partOfRename] using whole, rfl⟩
    · rintro ⟨path, inside, alone, rfl⟩
      exact ⟨⟨path, inside, rfl⟩, by simpa [partOfRename] using alone⟩
  · rw [List.mem_map]
    exact exists_congr fun rename => and_congr_right fun _ => eq_comm
  · rw [List.mem_flatMap]
    constructor
    · rintro ⟨⟨path, before⟩, listed, inside⟩
      dsimp only at inside
      split at inside
      next after ofHead =>
          obtain ⟨kind, member, rfl⟩ := List.mem_map.mp inside
          exact ⟨path, before, after, SortedMap.mem_entries.mp listed, ofHead, kind, member, rfl⟩
      · cases inside
    · rintro ⟨path, before, after, ofBase, ofHead, kind, member, rfl⟩
      refine ⟨(path, before), SortedMap.mem_entries.mpr ofBase, ?_⟩
      dsimp only
      rw [ofHead]
      exact List.mem_map_of_mem member

theorem fieldRenames_eq : fieldRenames endpoint direction old new =
    ((renamePairs (old.getD ∅) (new.getD ∅)).map Prod.fst).zip
      (SortedMap.ordered ((renamePairs (old.getD ∅) (new.getD ∅)).map Prod.snd)) := by
  unfold fieldRenames diffFields
  dsimp only
  rw [findRenames_onlyIn, ordered_firsts]
  generalize old.getD ∅ = base
  generalize new.getD ∅ = head
  rw [List.filterMap_append, List.filterMap_append, List.nil_append]
  have unreported : ∀ l : List Change, (∀ change ∈ l, change.kind.renamed? = none) →
      (l.filterMap fun change => change.kind.renamed?) = [] := fun l none =>
    List.filterMap_eq_nil_iff.mpr none
  rw [unreported (List.filter _ _), unreported (List.flatMap _ _), List.nil_append,
    List.append_nil, List.filterMap_map]
  · exact (List.filterMap_congr fun rename _ => rfl).trans List.filterMap_some
  · intro change member
    obtain ⟨⟨path, before⟩, -, inside⟩ := List.mem_flatMap.mp member
    dsimp only at inside
    split at inside
    · obtain ⟨kind, altered, rfl⟩ := List.mem_map.mp inside
      exact (renamed?_of_altered? (altered?_attributeChanges altered)).1
    · cases inside
  · intro change member
    rcases List.mem_append.mp (List.mem_filter.mp member).1 with lost | gained
    · obtain ⟨path, -, rfl⟩ := List.mem_map.mp lost
      rfl
    · obtain ⟨path, -, rfl⟩ := List.mem_map.mp gained
      rfl

/-! ### When renames are well formed -/

theorem mem_renamePairs {base head : SortedMap JsonPath FieldMeta} {rename : JsonPath × JsonPath}
    (paired : rename ∈ renamePairs base head) :
    rename.1 ∈ onlyIn base head ∧ rename.2 ∈ onlyIn head base := by
  have inside := (mem_pairByClass (sorted_onlyIn.imp ne_of_lt)).mp paired
  obtain ⟨first, second⟩ := List.of_mem_zip (show (rename.1, rename.2) ∈ _ from inside)
  exact ⟨(List.mem_filter.mp first).1, (List.mem_filter.mp second).1⟩

def Partners (base head : SortedMap JsonPath FieldMeta) (removed added : JsonPath) : Prop :=
  (removed, added) ∈
    ((onlyIn base head).filter fun path =>
        decide (fieldClass base path = fieldClass base removed)).zip
      ((onlyIn head base).filter fun path =>
        decide (fieldClass head path = fieldClass base removed))

/-- Partners do not cross: of two of them, the one removed later is added later. -/
def PartnersUncrossed (base head : SortedMap JsonPath FieldMeta) : Prop :=
  ∀ removed added removed' added', Partners base head removed added →
    Partners base head removed' added' → removed < removed' → added < added'

theorem partnersUncrossed_iff {base head : SortedMap JsonPath FieldMeta} :
    PartnersUncrossed base head ↔ Uncrossed (renamePairs base head) := by
  have pairs : ∀ removed added, Partners base head removed added ↔
      (removed, added) ∈ renamePairs base head := fun removed added =>
    (mem_pairByClass (sorted_onlyIn.imp ne_of_lt)).symm
  constructor
  · exact fun uncrossed p here q there =>
      uncrossed p.1 p.2 q.1 q.2 ((pairs _ _).mpr here) ((pairs _ _).mpr there)
  · exact fun uncrossed removed added removed' added' here there =>
      uncrossed _ ((pairs _ _).mp here) _ ((pairs _ _).mp there)

theorem onlyIn_of_mem_fieldRenames {rename : JsonPath × JsonPath}
    (reported : rename ∈ fieldRenames endpoint direction old new) :
    (rename.1 ∈ onlyIn (old.getD ∅) (new.getD ∅) ∧
        rename.1 ∈ (renamePairs (old.getD ∅) (new.getD ∅)).map Prod.fst) ∧
      rename.2 ∈ onlyIn (new.getD ∅) (old.getD ∅) ∧
        rename.2 ∈ (renamePairs (old.getD ∅) (new.getD ∅)).map Prod.snd := by
  rw [fieldRenames_eq] at reported
  obtain ⟨first, second⟩ := List.of_mem_zip (show (rename.1, rename.2) ∈ _ from reported)
  have second := SortedMap.mem_ordered.mp second
  obtain ⟨p, paired, source⟩ := List.mem_map.mp first
  obtain ⟨q, paired', target⟩ := List.mem_map.mp second
  exact ⟨⟨source ▸ (mem_renamePairs paired).1, first⟩, target ▸ (mem_renamePairs paired').2, second⟩

theorem map_fieldRenames : (fieldRenames endpoint direction old new).map Prod.fst =
      (renamePairs (old.getD ∅) (new.getD ∅)).map Prod.fst ∧
    (fieldRenames endpoint direction old new).map Prod.snd =
      SortedMap.ordered ((renamePairs (old.getD ∅) (new.getD ∅)).map Prod.snd) := by
  have distinct : ((renamePairs (old.getD ∅) (new.getD ∅)).map Prod.snd).Nodup :=
    nodup_map_snd_pairByClass
  have lengths : ((renamePairs (old.getD ∅) (new.getD ∅)).map Prod.fst).length =
      (SortedMap.ordered ((renamePairs (old.getD ∅) (new.getD ∅)).map Prod.snd)).length := by
    rw [(ordered_perm distinct).length_eq, List.length_map, List.length_map]
  rw [fieldRenames_eq]
  exact ⟨List.map_fst_zip lengths.le, List.map_snd_zip lengths.ge⟩

theorem once_fieldRenames : ((fieldRenames endpoint direction old new).map Prod.fst).Nodup ∧
    ((fieldRenames endpoint direction old new).map Prod.snd).Nodup := by
  rw [map_fieldRenames.1, map_fieldRenames.2]
  exact ⟨(sorted_onlyIn.imp ne_of_lt).sublist map_fst_pairByClass_sublist,
    (sorted_ordered _).imp ne_of_lt⟩

theorem apart_fieldRenames {rename : JsonPath × JsonPath} {change : Change}
    (reported : rename ∈ fieldRenames endpoint direction old new)
    (inside : change ∈ diffFields [] endpoint direction old new) :
    change.kind.lostOrGained? ≠ some rename.1 ∧ change.kind.lostOrGained? ≠ some rename.2 := by
  obtain ⟨⟨lost, first⟩, gained, second⟩ := onlyIn_of_mem_fieldRenames reported
  have apart : ∀ {path}, path ∈ onlyIn (old.getD ∅) (new.getD ∅) →
      path ∉ onlyIn (new.getD ∅) (old.getD ∅) := by
    intro path here there
    have known := (mem_onlyIn.mp here).1
    rw [(mem_onlyIn.mp there).2.1] at known
    cases known
  rcases mem_diffFields_nil.mp inside with ⟨path, here, alone, rfl⟩ | ⟨path, here, alone, rfl⟩ |
    ⟨other, -, rfl⟩ | ⟨path, _, _, -, -, kind, altered, rfl⟩
  · constructor
    · exact fun same => alone (Option.some.inj same ▸ first)
    · exact fun same => apart here (Option.some.inj same ▸ gained)
  · constructor
    · exact fun same => apart lost (Option.some.inj same ▸ here)
    · exact fun same => alone (Option.some.inj same ▸ second)
  · exact ⟨nofun, nofun⟩
  · rw [(renamed?_of_altered? (altered?_attributeChanges altered)).2]
    exact ⟨nofun, nofun⟩

/-- **When renames are well formed**: when no two partners cross. -/
theorem renamesWellFormed_iff : RenamesWellFormed endpoint direction old new ↔
    PartnersUncrossed (old.getD ∅) (new.getD ∅) := by
  have distinct : ((renamePairs (old.getD ∅) (new.getD ∅)).map Prod.snd).Nodup :=
    nodup_map_snd_pairByClass
  rw [partnersUncrossed_iff]
  unfold renamePairs
  rw [← zip_sorted_iff sorted_onlyIn sorted_onlyIn (ordered_perm distinct) (sorted_ordered _)]
  have reported := @fieldRenames_eq endpoint direction old new
  constructor
  · intro formed p paired
    have rename := formed.renames p (reported ▸ paired)
    exact Prod.ext rename.parent rename.type
  · intro agree
    refine ⟨fun rename member => ?_, once_fieldRenames, fun rename member change inside => ?_⟩
    · obtain ⟨⟨first, -⟩, second, -⟩ := onlyIn_of_mem_fieldRenames member
      have same := Prod.mk.inj (agree rename (reported ▸ member))
      exact ⟨(mem_onlyIn.mp first).1, (mem_onlyIn.mp first).2.1, (mem_onlyIn.mp second).1,
        (mem_onlyIn.mp second).2.1, same.1, same.2⟩
    · exact apart_fieldRenames member inside

def crossedBase : SortedMap JsonPath FieldMeta :=
  ((∅ : SortedMap JsonPath FieldMeta).insert [.name "count"] ⟨.integer, true, false, none⟩).insert
    [.name "label"] ⟨.string, true, false, none⟩

def crossedHead : SortedMap JsonPath FieldMeta :=
  ((∅ : SortedMap JsonPath FieldMeta).insert [.name "name"] ⟨.string, true, false, none⟩).insert
    [.name "total"] ⟨.integer, true, false, none⟩

/-- An integer is reported as renamed to a string. -/
theorem renames_crossed : ¬ ∀ (endpoint : EndpointId) (direction : Direction)
    (old new : Option (SortedMap JsonPath FieldMeta)),
      RenamesWellFormed endpoint direction old new := by
  intro always
  have formed := always ⟨"shop", .rpc .grpc "Orders" "Get"⟩ .response (some crossedBase)
    (some crossedHead)
  have reported : ([PathSegment.name "count"], [PathSegment.name "name"]) ∈
      fieldRenames ⟨"shop", .rpc .grpc "Orders" "Get"⟩ .response (some crossedBase)
        (some crossedHead) := by
    decide +kernel
  exact absurd (formed.renames _ reported).type (by decide +kernel)

end Renames

/-! ### Nothing is left unsaid -/

def ChangeKind.fieldPaths : ChangeKind → List JsonPath
  | .fieldRenamed _ _ source target _ => [source, target]
  | kind => kind.lostOrGained?.toList ++ kind.altered?.toList

section Silence

variable (endpoint : EndpointId) (direction : Direction)
  (old new : Option (SortedMap JsonPath FieldMeta))

def Reported (path : JsonPath) : Prop :=
  ∃ change ∈ diffFields [] endpoint direction old new, path ∈ change.kind.fieldPaths

def Covered (inside outside : SortedMap JsonPath FieldMeta) : Prop :=
  ∀ path, (inside.get? path).isSome = true → outside.get? path = none →
    ∃ above, above <+: path ∧ (inside.get? above).isSome = true ∧ outside.get? above = none ∧
      Reported endpoint direction old new above

/-- **No change of fields is silent**, and nothing else is named. -/
structure NoSilentChange : Prop where
  silent : diffFields [] endpoint direction old new = [] ↔
    ∀ path, SameField ((old.getD ∅).get? path) ((new.getD ∅).get? path)
  kept : ∀ path before after, (old.getD ∅).get? path = some before →
    (new.getD ∅).get? path = some after → ¬ SameField (some before) (some after) →
      Reported endpoint direction old new path
  lost : Covered endpoint direction old new (old.getD ∅) (new.getD ∅)
  gained : Covered endpoint direction old new (new.getD ∅) (old.getD ∅)
  named : ∀ path, Reported endpoint direction old new path →
    ¬ SameField ((old.getD ∅).get? path) ((new.getD ∅).get? path)

variable {endpoint direction old new}

theorem mem_fieldPaths_of_altered? {kind : ChangeKind} {path path' : JsonPath}
    (altered : kind.altered? = some path) : path' ∈ kind.fieldPaths ↔ path' = path := by
  cases kind <;> first
    | (obtain rfl := Option.some.inj altered; exact List.mem_singleton)
    | cases altered

theorem reported_of_rename {rename : JsonPath × JsonPath}
    (member : rename ∈ fieldRenames endpoint direction old new) :
    Reported endpoint direction old new rename.1 ∧
      Reported endpoint direction old new rename.2 := by
  rw [fieldRenames_eq] at member
  have inside := (@mem_diffFields_nil endpoint direction old new _).mpr
    (Or.inr (Or.inr (Or.inl ⟨rename, member, rfl⟩)))
  exact ⟨⟨_, inside, List.mem_cons_self⟩, ⟨_, inside, List.mem_cons_of_mem _ List.mem_cons_self⟩⟩

theorem reported_of_lost {path : JsonPath} (lost : path ∈ onlyIn (old.getD ∅) (new.getD ∅)) :
    Reported endpoint direction old new path := by
  by_cases paired : path ∈ (renamePairs (old.getD ∅) (new.getD ∅)).map Prod.fst
  · rw [← (@map_fieldRenames endpoint direction old new).1] at paired
    obtain ⟨rename, member, rfl⟩ := List.mem_map.mp paired
    exact (reported_of_rename member).1
  · exact ⟨_, mem_diffFields_nil.mpr (Or.inl ⟨path, lost, paired, rfl⟩), List.mem_singleton.mpr rfl⟩

theorem reported_of_gained {path : JsonPath} (gained : path ∈ onlyIn (new.getD ∅) (old.getD ∅)) :
    Reported endpoint direction old new path := by
  by_cases paired : path ∈ (renamePairs (old.getD ∅) (new.getD ∅)).map Prod.snd
  · rw [← SortedMap.mem_ordered, ← (@map_fieldRenames endpoint direction old new).2] at paired
    obtain ⟨rename, member, rfl⟩ := List.mem_map.mp paired
    exact (reported_of_rename member).2
  · exact ⟨_, mem_diffFields_nil.mpr (Or.inr (Or.inl ⟨path, gained, paired, rfl⟩)),
      List.mem_singleton.mpr rfl⟩

theorem not_sameField_of_onlyIn {base head : SortedMap JsonPath FieldMeta} {path : JsonPath}
    (member : path ∈ onlyIn base head) :
    ¬ SameField (base.get? path) (head.get? path) ∧
      ¬ SameField (head.get? path) (base.get? path) := by
  obtain ⟨known, gone, -⟩ := mem_onlyIn.mp member
  obtain ⟨meta_, found⟩ := Option.isSome_iff_exists.mp known
  rw [gone, found]
  exact ⟨not_false, not_false⟩

/-- **Nothing is left unsaid**, up to the order and the repetition of enum values. -/
theorem noSilentChange (endpoint : EndpointId) (direction : Direction)
    (old new : Option (SortedMap JsonPath FieldMeta)) :
    NoSilentChange endpoint direction old new := by
  refine ⟨diffFields_eq_nil_iff, ?_, ?_, ?_, ?_⟩
  · intro path before after ofBase ofHead differs
    rw [← @attributeChanges_eq_nil_iff endpoint direction path] at differs
    obtain ⟨kind, member⟩ := List.exists_mem_of_ne_nil _ differs
    exact ⟨_, mem_diffFields_nil.mpr (Or.inr (Or.inr (Or.inr
      ⟨path, before, after, ofBase, ofHead, kind, member, rfl⟩))),
      (mem_fieldPaths_of_altered? (altered?_attributeChanges member)).mpr rfl⟩
  · intro path present absent
    obtain ⟨above, member, under⟩ := exists_onlyIn_above present absent
    obtain ⟨known, gone, -⟩ := mem_onlyIn.mp member
    exact ⟨above, under, known, gone, reported_of_lost member⟩
  · intro path present absent
    obtain ⟨above, member, under⟩ := exists_onlyIn_above present absent
    obtain ⟨known, gone, -⟩ := mem_onlyIn.mp member
    exact ⟨above, under, known, gone, reported_of_gained member⟩
  · rintro path ⟨change, inside, names⟩
    rcases mem_diffFields_nil.mp inside with ⟨other, lost, -, rfl⟩ | ⟨other, gained, -, rfl⟩ |
      ⟨rename, member, rfl⟩ | ⟨other, before, after, ofBase, ofHead, kind, altered, rfl⟩
    · obtain rfl := List.mem_singleton.mp names
      exact (not_sameField_of_onlyIn lost).1
    · obtain rfl := List.mem_singleton.mp names
      exact (not_sameField_of_onlyIn gained).2
    · rw [← @fieldRenames_eq endpoint direction] at member
      obtain ⟨⟨lost, -⟩, gained, -⟩ := onlyIn_of_mem_fieldRenames member
      rcases List.mem_cons.mp names with rfl | second
      · exact (not_sameField_of_onlyIn lost).1
      · obtain rfl := List.mem_singleton.mp second
        exact (not_sameField_of_onlyIn gained).2
    · obtain rfl := (mem_fieldPaths_of_altered? (altered?_attributeChanges altered)).mp names
      rw [ofBase, ofHead, ← @attributeChanges_eq_nil_iff endpoint direction path]
      exact List.ne_nil_of_mem altered

def SameUpToOrder : Option FieldMeta → Option FieldMeta → Prop
  | some old, some new => old.ty = new.ty ∧ old.required = new.required ∧
      old.nullable = new.nullable ∧
        match old.enumValues, new.enumValues with
        | some before, some after => before.Perm after
        | none, none => True
        | _, _ => False
  | none, none => True
  | _, _ => False

/-- A value that an enumeration lists twice counts once. -/
theorem silent_repetition : ¬ ∀ (endpoint : EndpointId) (direction : Direction)
    (old new : Option (SortedMap JsonPath FieldMeta)),
      (diffFields [] endpoint direction old new = [] ↔
        ∀ path, SameUpToOrder ((old.getD ∅).get? path) ((new.getD ∅).get? path)) := by
  intro always
  have rule := always ⟨"shop", .rpc .grpc "Orders" "Get"⟩ .response
    (some ((∅ : SortedMap JsonPath FieldMeta).insert [.name "state"]
      ⟨.string, true, false, some ["open", "open"]⟩))
    (some ((∅ : SortedMap JsonPath FieldMeta).insert [.name "state"]
      ⟨.string, true, false, some ["open"]⟩))
  have same := rule.mp (by decide +kernel) [.name "state"]
  have lengths := List.Perm.length_eq (show ["open", "open"].Perm ["open"] from same.2.2.2)
  cases lengths

end Silence

end Lain.Contracts
