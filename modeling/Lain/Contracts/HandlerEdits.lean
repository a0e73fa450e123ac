import Mathlib
import Lain.Contracts.ChangedFiles
import Lain.Contracts.NoKnownImpact
import Lain.Contracts.Pairing

/-!
# When an edit of a handler is reported

An endpoint whose schemas agree is reported when one of its handler files
changed, unless every touched line is a route line and none is its own.
-/

namespace Lain.Contracts

open Foundation Federation

variable {base head : ContractSurface} {files : RevisedSource}

/-! ### What the comparison promises -/

def routeLines (surface : ContractSurface) (repo file : String) : List (EndpointId × Nat) :=
  surface.endpoints.entries.flatMap fun entry =>
    entry.2.providers.filterMap fun provider => do
      let handler ← provider.handler
      let line ← provider.nodeId.lineStart
      if provider.nodeId.path = some handler.path ∧ line ≠ 0 ∧
          provider.nodeId.repoId = repo ∧ handler.path = file then
        return (entry.1, line)
      else none

def Listed (files : RevisedSource) (repo file : String) : Prop :=
  repo ≠ "" ∧ ∃ changed, files.source.changedFilesForRepo repo "" "" = .changed changed ∧
    file ∈ changed

structure RoutesOnly (base head : ContractSurface) (pair : EndpointId × EndpointId)
    (repo file : String) (lines : List DiffLine) : Prop where
  added : ∀ number, DiffLine.addition number ∈ lines →
    number.toNat ∈ (routeLines head repo file).map Prod.snd ∧
      (pair.2, number.toNat) ∉ routeLines head repo file
  deleted : ∀ number, DiffLine.deletion number ∈ lines →
    number.toNat ∈ (routeLines base repo file).map Prod.snd ∧
      (pair.1, number.toNat) ∉ routeLines base repo file

def Excused (base head : ContractSurface) (files : RevisedSource)
    (pair : EndpointId × EndpointId) (repo file : String) : Prop :=
  ∃ lines, files.lines repo file = some lines ∧ RoutesOnly base head pair repo file lines

def HandledIn (baseDef headDef : EndpointDef) (repo : String) (handler : SymbolKey) : Prop :=
  ∃ provider ∈ baseDef.providers ++ headDef.providers, provider.handler = some handler ∧
    (repo = provider.nodeId.repoId ∨ repo = handler.repo)

/-- **No handler edit is silent**: for every pair and every changed handler file, a change
names the endpoint or silence is in order. -/
def NoSilentEdit (base head : ContractSurface) (files : RevisedSource) : Prop :=
  ∀ pair ∈ (pairEndpoints base head).pairs, ∀ baseDef headDef,
    base.endpoints.get? pair.1 = some baseDef → head.endpoints.get? pair.2 = some headDef →
      ∀ repo handler, HandledIn baseDef headDef repo handler → Listed files repo handler.path →
        Excused base head files pair repo handler.path ∨
          ∃ change ∈ diffContracts base head files.source,
            pair.1 ∈ namedEndpoints change ∨ pair.2 ∈ namedEndpoints change

/-! ### When it keeps the promise -/

def SameValues : Option (List String) → Option (List String) → Prop
  | some before, some after => ∀ value, value ∈ before ↔ value ∈ after
  | none, none => True
  | _, _ => False

def SameField : Option FieldMeta → Option FieldMeta → Prop
  | some old, some new => old.ty = new.ty ∧ old.required = new.required ∧
      old.nullable = new.nullable ∧ SameValues old.enumValues new.enumValues
  | none, none => True
  | _, _ => False

def SameSchemas (baseDef headDef : EndpointDef) : Prop :=
  ∀ direction path, SameField (((baseDef.schemas.get? direction).getD ∅).get? path)
    (((headDef.schemas.get? direction).getD ∅).get? path)

structure LooksForeign (base head : ContractSurface) (id : EndpointId) (repo file : String)
    (lines : List DiffLine) : Prop where
  routed : ∃ number, (id, number) ∈ routeLines base repo file ++ routeLines head repo file
  covered : ∀ number ∈ touchedNumbers lines,
    number ∈ (routeLines base repo file ++ routeLines head repo file).map Prod.snd
  foreign : ∀ number ∈ touchedNumbers lines,
    (id, number) ∉ routeLines base repo file ++ routeLines head repo file

def Overlooked (base head : ContractSurface) (files : RevisedSource) (id : EndpointId)
    (baseDef headDef : EndpointDef) : Prop :=
  ∀ provider ∈ baseDef.providers ++ headDef.providers, ∀ handler,
    provider.handler = some handler → Listed files provider.nodeId.repoId handler.path →
      ∃ lines, files.lines provider.nodeId.repoId handler.path = some lines ∧
        LooksForeign base head id provider.nodeId.repoId handler.path lines

/-- Of an endpoint that is paired with itself and has the same schemas on both sides, not all
changed handler files look foreign unless silence about each of them is in order. -/
def NoneHidden (base head : ContractSurface) (files : RevisedSource) : Prop :=
  ∀ id, (id, id) ∈ (pairEndpoints base head).pairs → ∀ baseDef headDef,
    base.endpoints.get? id = some baseDef → head.endpoints.get? id = some headDef →
      baseDef.hasSchema = true → SameSchemas baseDef headDef →
        Overlooked base head files id baseDef headDef →
          ∀ repo handler, HandledIn baseDef headDef repo handler →
            Listed files repo handler.path → Excused base head files (id, id) repo handler.path

/-! ### Which edits touch an endpoint -/

theorem anchorsIn_eq (base head : ContractSurface) (repo file : String) :
    anchorsIn base head repo file = routeLines base repo file ++ routeLines head repo file :=
  List.flatMap_append

theorem touches_eq_false_iff {anchors : List (EndpointId × Nat)} {id : EndpointId}
    {numbers : List Nat} {spans : List (Nat × Nat)} (merged : Merged numbers spans) :
    touches anchors id spans = false ↔
      (∃ number, (id, number) ∈ anchors) ∧
        (∀ number ∈ numbers, number ∈ anchors.map Prod.snd) ∧
          ∀ number ∈ numbers, (id, number) ∉ anchors := by
  have mine : ∀ number, number ∈ (anchors.filter fun anchor =>
      decide (anchor.1 = id)).map Prod.snd ↔ (id, number) ∈ anchors := by
    intro number
    simp only [List.mem_map, List.mem_filter, decide_eq_true_eq]
    constructor
    · rintro ⟨anchor, ⟨member, rfl⟩, rfl⟩
      exact member
    · exact fun member => ⟨_, ⟨member, rfl⟩, rfl⟩
  have walked : (spans.all fun span => (List.range' span.1 (span.2 + 1 - span.1)).all fun line =>
      decide (line ∈ (anchors.map Prod.snd).toFinset)) = true ↔
      ∀ number ∈ numbers, number ∈ anchors.map Prod.snd := by
    simp only [List.all_eq_true, List.mem_range'_1, decide_eq_true_eq, List.mem_toFinset]
    constructor
    · intro walk number member
      obtain ⟨span, inside, first, last⟩ := (merged.covers number).mpr member
      exact walk span inside number ⟨first, by omega⟩
    · intro covered span inside number bounds
      have proper := (merged.proper span inside).1
      exact covered number
        ((merged.covers number).mp ⟨span, inside, bounds.1, by omega⟩)
  have narrow : (∀ number ∈ numbers, number ∈ anchors.map Prod.snd) →
      ¬ (spans.map spanLength).sum > (anchors.map Prod.snd).toFinset.card := by
    intro covered
    rw [merged.length, not_lt]
    refine Finset.card_le_card fun number member => ?_
    rw [List.mem_toFinset] at member ⊢
    exact covered number member
  have hit : (((anchors.filter fun anchor => decide (anchor.1 = id)).map Prod.snd).any fun line =>
      spans.any fun span => decide (span.1 ≤ line ∧ line ≤ span.2)) = false ↔
      ∀ number ∈ numbers, (id, number) ∉ anchors := by
    simp only [List.any_eq_false, List.any_eq_true, decide_eq_true_eq, not_exists, not_and]
    constructor
    · intro apart number member own
      obtain ⟨span, inside, first, last⟩ := (merged.covers number).mpr member
      exact apart number ((mine number).mpr own) span inside first last
    · intro apart number own span inside first last
      exact apart number ((merged.covers number).mp ⟨span, inside, first, last⟩)
        ((mine number).mp own)
  unfold touches
  dsimp only
  split
  next unrouted =>
      refine iff_of_false (by simp) fun ⟨⟨number, routed⟩, _⟩ => ?_
      have listed := (mine number).mpr routed
      rw [List.isEmpty_iff.mp unrouted] at listed
      cases listed
  next routed =>
      obtain ⟨number, listed⟩ := List.exists_mem_of_ne_nil _
        fun empty => routed (List.isEmpty_iff.mpr empty)
      have own : ∃ number, (id, number) ∈ anchors := ⟨number, (mine number).mp listed⟩
      split
      next wide => exact iff_of_false (by simp) fun ⟨_, covered, _⟩ => narrow covered wide
      next =>
          split
          next stray =>
              refine iff_of_false (by simp) fun ⟨_, covered, _⟩ => ?_
              rw [walked.mpr covered] at stray
              cases stray
          next within =>
              rw [Bool.not_eq_true, Bool.not_eq_false'] at within
              rw [hit]
              exact ⟨fun apart => ⟨own, walked.mp within, apart⟩, fun found => found.2.2⟩

theorem touches_spans {id : EndpointId} {repo file : String} {lines : List DiffLine} :
    touches (anchorsIn base head repo file) id
        (mergeSpans (pointSpans (touchedNumbers lines))) = false ↔
      LooksForeign base head id repo file lines := by
  rw [touches_eq_false_iff (merged_mergeSpans (touchedNumbers_lt lines)), anchorsIn_eq]
  exact ⟨fun ⟨routed, covered, foreign⟩ => ⟨routed, covered, foreign⟩,
    fun foreign => ⟨foreign.routed, foreign.covered, foreign.foreign⟩⟩

/-! ### Which handler files changed -/

section Files

variable {baseDef headDef : EndpointDef} {id : EndpointId}

theorem mem_endpointProviderRepos {repo : String} {provider : ProviderRef} {handler : SymbolKey}
    (member : provider ∈ baseDef.providers ++ headDef.providers)
    (handled : provider.handler = some handler)
    (of : repo = provider.nodeId.repoId ∨ repo = handler.repo) (named : repo ≠ "") :
    repo ∈ endpointProviderRepos baseDef headDef := by
  unfold endpointProviderRepos
  rw [SortedMap.mem_ordered, List.mem_flatMap]
  refine ⟨provider, member, ?_⟩
  rw [handled, List.mem_append]
  rcases of with rfl | rfl
  · exact Or.inl (by rw [if_pos named]; exact List.mem_singleton_self _)
  · exact Or.inr (by dsimp only; rw [if_pos named]; exact List.mem_singleton_self _)

theorem mem_changedIn {repo : String} (located : repo ∈ endpointProviderRepos baseDef headDef)
    {source : ChangedFilesSource} {note : String × Finset String} :
    note ∈ changedIn source baseDef headDef ↔ note.1 ∈ endpointProviderRepos baseDef headDef ∧
      source.changedFilesForRepo note.1 "" "" = .changed note.2 := by
  unfold changedIn
  cases repos : endpointProviderRepos baseDef headDef with
  | nil => rw [repos] at located; cases located
  | cons first rest =>
    dsimp only
    rw [List.mem_filterMap]
    constructor
    · rintro ⟨other, member, noted⟩
      split at noted
      next changed answer =>
          obtain rfl := Option.some.inj noted
          exact ⟨member, answer⟩
      next => cases noted
      next => cases noted
    · rintro ⟨member, answer⟩
      exact ⟨note.1, member, by rw [answer]⟩

theorem repo_of_mem_endpointProviderRepos {repo : String}
    (located : repo ∈ endpointProviderRepos baseDef headDef) : repo ≠ "" := by
  unfold endpointProviderRepos at located
  rw [SortedMap.mem_ordered, List.mem_flatMap] at located
  obtain ⟨provider, _, inside⟩ := located
  rcases List.mem_append.mp inside with route | symbol
  · split at route
    next named => rwa [List.mem_singleton.mp route]
    next => cases route
  · split at symbol
    · split at symbol
      next named => rwa [List.mem_singleton.mp symbol]
      next => cases symbol
    · cases symbol

theorem handlerChanged_eq_false_iff {repo : String}
    (located : repo ∈ endpointProviderRepos baseDef headDef) :
    handlerChanged files.source base head id baseDef headDef = false ↔
      Overlooked base head files id baseDef headDef := by
  have noted : ∀ provider ∈ baseDef.providers ++ headDef.providers, ∀ handler,
      provider.handler = some handler →
      (((changedIn files.source baseDef headDef).any fun note =>
          decide (note.1 = provider.nodeId.repoId) && decide (handler.path ∈ note.2)) = true ↔
        Listed files provider.nodeId.repoId handler.path) := by
    intro provider member handler handled
    simp only [List.any_eq_true, Bool.and_eq_true, decide_eq_true_eq]
    constructor
    · rintro ⟨note, inside, same, changed⟩
      obtain ⟨inRepos, answer⟩ := (mem_changedIn located).mp inside
      rw [same] at inRepos answer
      exact ⟨repo_of_mem_endpointProviderRepos inRepos, note.2, answer, changed⟩
    · rintro ⟨named, changed, answer, inside⟩
      have inRepos := mem_endpointProviderRepos member handled (Or.inl rfl) named
      exact ⟨(_, changed), (mem_changedIn located).mpr ⟨inRepos, answer⟩, rfl, inside⟩
  unfold handlerChanged handlerFiles Overlooked
  simp only [List.any_eq_false, List.mem_filterMap, Option.map_eq_some_iff, forall_exists_index,
    and_imp]
  constructor
  · intro quiet provider member handler handled listed
    have here := quiet _ provider member handler handled rfl
    rw [(noted provider member handler handled).mpr listed, Bool.true_and,
      files.spans_eq] at here
    cases known : files.lines provider.nodeId.repoId handler.path with
    | none => simp [known] at here
    | some lines =>
      rw [known] at here
      exact ⟨lines, rfl, touches_spans.mp (Bool.eq_false_iff.mpr here)⟩
  · rintro overlooked _ provider member handler handled rfl
    rw [Bool.and_eq_true, noted provider member handler handled]
    rintro ⟨listed, touched⟩
    obtain ⟨lines, known, foreign⟩ := overlooked provider member handler handled listed
    rw [files.spans_eq, known, Option.map_some] at touched
    dsimp only at touched
    rw [touches_spans.mpr foreign] at touched
    cases touched

end Files

/-! ### Which schemas differ -/

section Fields

variable {endpoint : EndpointId} {direction : Direction}

theorem exists_onlyIn_above {inside outside : SortedMap JsonPath FieldMeta} {path : JsonPath}
    (present : (inside.get? path).isSome = true) (absent : outside.get? path = none) :
    ∃ above ∈ onlyIn inside outside, above <+: path := by
  -- by the length of the path: one that is not topmost has a shorter one above it
  induction length : path.length using Nat.strong_induction_on generalizing path with
  | h n ih =>
    cases topmost : hasAncestorOnlyIn path inside outside with
    | false =>
      refine ⟨path, List.mem_filter.mpr ⟨SortedMap.mem_keys.mpr present, ?_⟩, List.prefix_rfl⟩
      rw [absent, topmost]
      rfl
    | true =>
      unfold hasAncestorOnlyIn at topmost
      obtain ⟨i, before, above⟩ := List.any_eq_true.mp topmost
      rw [List.mem_range] at before
      rw [Bool.and_eq_true, Bool.and_eq_true] at above
      have shorter : (path.take i).length < n := by rw [List.length_take]; omega
      obtain ⟨top, member, under⟩ := ih _ shorter above.1.2
        (Option.isNone_iff_eq_none.mp above.2) rfl
      exact ⟨top, member, under.trans (List.take_prefix i path)⟩

theorem onlyIn_eq_nil_iff {inside outside : SortedMap JsonPath FieldMeta} :
    onlyIn inside outside = [] ↔
      ∀ path, (inside.get? path).isSome = true → (outside.get? path).isSome = true := by
  constructor
  · intro none path present
    by_contra absent
    obtain ⟨above, member, -⟩ := exists_onlyIn_above present
      (Option.not_isSome_iff_eq_none.mp absent)
    rw [none] at member
    cases member
  · intro within
    unfold onlyIn
    rw [List.filter_eq_nil_iff]
    intro path member topmost
    rw [Bool.and_eq_true, Option.isNone_iff_eq_none] at topmost
    have held := within path (SortedMap.mem_keys.mp member)
    rw [topmost.1] at held
    cases held

theorem findRenames_nil_iff (base head : SortedMap JsonPath FieldMeta)
    (removed added : List JsonPath) :
    (findRenames base head removed added).1 = [] ↔
      (findRenames base head removed added).2 = [] := by
  have same : (findRenames base head removed added).1.length =
      (findRenames base head removed added).2.length := by
    unfold findRenames
    refine List.foldlRecOn (motive := fun found : List JsonPath × List JsonPath =>
      found.1.length = found.2.length) removed _ rfl fun found same path _ => ?_
    split
    · rw [List.length_append, List.length_append, same]
      rfl
    · exact same
  rw [← List.length_eq_zero_iff, ← List.length_eq_zero_iff]
  exact ⟨fun none => same.symm.trans none, fun none => same.trans none⟩

theorem enumChanges_eq_nil_iff {path : JsonPath} {old new : FieldMeta} :
    enumChanges endpoint direction path old new = [] ↔
      SameValues old.enumValues new.enumValues := by
  unfold enumChanges SameValues
  cases old.enumValues with
  | none => cases new.enumValues with
    | none => exact iff_of_true rfl trivial
    | some after => exact iff_of_false (by simp) not_false
  | some before => cases new.enumValues with
    | none => exact iff_of_false (by simp) not_false
    | some after =>
      simp only [List.append_eq_nil_iff, List.map_eq_nil_iff, List.filter_eq_nil_iff,
        SortedMap.mem_ordered, decide_eq_true_eq, not_not]
      exact ⟨fun ⟨kept, old⟩ value => ⟨kept value, old value⟩,
        fun same => ⟨fun value => (same value).mp, fun value => (same value).mpr⟩⟩

theorem attributeChanges_eq_nil_iff {path : JsonPath} {old new : FieldMeta} :
    attributeChanges endpoint direction path old new = [] ↔
      SameField (some old) (some new) := by
  have single : ∀ {p : Prop} [Decidable p] {k : ChangeKind},
      (if p then [k] else []) = ([] : List ChangeKind) ↔ ¬ p := by
    intro p _ k
    split <;> simp_all
  unfold attributeChanges
  rw [List.append_eq_nil_iff, List.append_eq_nil_iff, List.append_eq_nil_iff, single, single,
    single, enumChanges_eq_nil_iff, not_not, not_not, not_not]
  exact ⟨fun ⟨⟨⟨ty, required⟩, nullable⟩, values⟩ => ⟨ty, required, nullable, values⟩,
    fun ⟨ty, required, nullable, values⟩ => ⟨⟨⟨ty, required⟩, nullable⟩, values⟩⟩

/-- **Comparing fields finds nothing exactly when they are the same.** -/
theorem diffFields_eq_nil_iff {old new : Option (SortedMap JsonPath FieldMeta)} :
    diffFields [] endpoint direction old new = [] ↔
      ∀ path, SameField ((old.getD ∅).get? path) ((new.getD ∅).get? path) := by
  unfold diffFields
  generalize old.getD ∅ = base
  generalize new.getD ∅ = head
  dsimp only
  constructor
  · intro nothing
    rw [List.append_eq_nil_iff, List.append_eq_nil_iff] at nothing
    obtain ⟨⟨unreported, unrenamed⟩, kept⟩ := nothing
    have zipped : findRenames base head (onlyIn base head) (onlyIn head base) = ([], []) := by
      have either : (findRenames base head (onlyIn base head) (onlyIn head base)).1 = [] ∨
          (findRenames base head (onlyIn base head) (onlyIn head base)).2 = [] := by
        rw [List.map_eq_nil_iff, List.zip_eq_nil_iff] at unrenamed
        refine unrenamed.imp (fun none => ?_) (fun none => ?_) <;>
          exact List.eq_nil_iff_forall_not_mem.mpr fun path member => by
            have inside := SortedMap.mem_ordered.mpr member
            rw [none] at inside
            cases inside
      have first := either.elim id (findRenames_nil_iff _ _ _ _).mpr
      exact Prod.ext first ((findRenames_nil_iff _ _ _ _).mp first)
    rw [zipped] at unreported
    have whole : ∀ kind, partOfRename endpoint direction ([], []) kind = false := by
      intro kind
      cases kind <;> simp [partOfRename]
    simp only [whole, Bool.not_false, List.filter_true, List.nil_append,
      List.append_eq_nil_iff, List.map_eq_nil_iff] at unreported
    have lost : onlyIn base head = [] := by
      refine List.eq_nil_iff_forall_not_mem.mpr fun path member => ?_
      have present := SortedMap.mem_keys.mp (List.mem_filter.mp member).1
      exact absurd present (List.filter_eq_nil_iff.mp unreported.1 path member)
    have within := onlyIn_eq_nil_iff.mp lost
    have back := onlyIn_eq_nil_iff.mp unreported.2
    intro path
    cases ofBase : base.get? path with
    | none =>
      cases ofHead : head.get? path with
      | none => trivial
      | some new =>
        have held := back path (by rw [ofHead]; rfl)
        rw [ofBase] at held
        cases held
    | some old =>
      have held := within path (by rw [ofBase]; rfl)
      obtain ⟨new, ofHead⟩ := Option.isSome_iff_exists.mp held
      have here := List.flatMap_eq_nil_iff.mp kept (path, old)
        (SortedMap.mem_entries.mpr ofBase)
      dsimp only at here
      rw [ofHead] at here ⊢
      exact attributeChanges_eq_nil_iff.mp (List.map_eq_nil_iff.mp here)
  · intro same
    have lost : onlyIn base head = [] := onlyIn_eq_nil_iff.mpr fun path present => by
      have here := same path
      obtain ⟨old, ofBase⟩ := Option.isSome_iff_exists.mp present
      rw [ofBase] at here
      cases ofHead : head.get? path with
      | none => rw [ofHead] at here; exact here.elim
      | some new => rfl
    have gained : onlyIn head base = [] := onlyIn_eq_nil_iff.mpr fun path present => by
      have here := same path
      obtain ⟨new, ofHead⟩ := Option.isSome_iff_exists.mp present
      rw [ofHead] at here
      cases ofBase : base.get? path with
      | none => rw [ofBase] at here; exact here.elim
      | some old => rfl
    rw [lost, gained]
    refine List.append_eq_nil_iff.mpr ⟨rfl, List.flatMap_eq_nil_iff.mpr fun entry member => ?_⟩
    have here := same entry.1
    rw [SortedMap.mem_entries.mp member] at here
    cases ofHead : head.get? entry.1 with
    | none => rfl
    | some new =>
      rw [ofHead] at here
      exact List.map_eq_nil_iff.mpr (attributeChanges_eq_nil_iff.mpr here)

end Fields

/-! ### What a pair adds to the changes -/

def ChangeKind.field? : ChangeKind → Option (EndpointId × Direction)
  | .fieldRemoved endpoint direction _ => some (endpoint, direction)
  | .fieldAdded endpoint direction _ _ => some (endpoint, direction)
  | .fieldRenamed endpoint direction _ _ _ => some (endpoint, direction)
  | .fieldTypeChanged endpoint direction _ _ _ _ => some (endpoint, direction)
  | .requirednessChanged endpoint direction _ _ => some (endpoint, direction)
  | .nullabilityChanged endpoint direction _ _ => some (endpoint, direction)
  | .enumValueRemoved endpoint direction _ _ => some (endpoint, direction)
  | .enumValueAdded endpoint direction _ _ => some (endpoint, direction)
  | _ => none

section Adds

variable {endpoint : EndpointId} {direction : Direction}

theorem partOfRename_field {renamed : List JsonPath × List JsonPath} {kind : ChangeKind}
    (part : partOfRename endpoint direction renamed kind = true) :
    kind.field? = some (endpoint, direction) := by
  cases kind <;> simp_all [partOfRename, ChangeKind.field?]

theorem field_attributeChanges {path : JsonPath} {old new : FieldMeta} {kind : ChangeKind}
    (member : kind ∈ attributeChanges endpoint direction path old new) :
    kind.field? = some (endpoint, direction) :=
  forall_mem_attributeChanges (P := fun kind => kind.field? = some (endpoint, direction)) (fun _ _ _ => rfl)
    (fun _ => rfl) (fun _ => rfl) (fun _ => rfl) (fun _ => rfl) kind member

theorem field_diffFields {old new : Option (SortedMap JsonPath FieldMeta)} {change : Change}
    (member : change ∈ diffFields [] endpoint direction old new) :
    change.kind.field? = some (endpoint, direction) := by
  unfold diffFields at member
  simp only [List.nil_append, List.mem_append, List.mem_filter, List.mem_map,
    List.mem_flatMap] at member
  rcases member with (⟨⟨_, _, rfl⟩ | ⟨_, _, rfl⟩, _⟩ | ⟨_, _, rfl⟩) | ⟨entry, _, altered⟩
  · rfl
  · rfl
  · rfl
  · split at altered
    · obtain ⟨kind, changed, rfl⟩ := List.mem_map.mp altered
      exact field_attributeChanges changed
    · cases altered

theorem diffFields_append {out : List Change}
    (foreign : ∀ change ∈ out, change.kind.field? ≠ some (endpoint, direction))
    (old new : Option (SortedMap JsonPath FieldMeta)) :
    diffFields out endpoint direction old new =
      out ++ diffFields [] endpoint direction old new := by
  have kept : ∀ renamed, (out.filter fun change =>
      !partOfRename endpoint direction renamed change.kind) = out := by
    intro renamed
    refine List.filter_eq_self.mpr fun change member => ?_
    rw [Bool.not_eq_true', ← Bool.not_eq_true]
    exact fun part => foreign change member (partOfRename_field part)
  unfold diffFields
  simp only [List.filter_append, kept, List.nil_append, List.append_assoc]

end Adds

def fieldChanges (endpoint : EndpointId) (baseDef headDef : EndpointDef) : List Change :=
  [Direction.request, .response, .payload].flatMap fun direction =>
    diffFields [] endpoint direction (baseDef.schemas.get? direction)
      (headDef.schemas.get? direction)

def pairChanges (files : ChangedFilesSource) (base head : ContractSurface)
    (pair : EndpointId × EndpointId) : List Change :=
  match base.endpoints.get? pair.1, head.endpoints.get? pair.2 with
  | some baseDef, some headDef =>
    let own := moved pair ++ fieldChanges pair.2 baseDef headDef
    own ++
      if sourceChanged files baseDef headDef && !baseDef.hasSchema && !headDef.hasSchema then
        [⟨pair.2.service, .changedWithoutSchema pair.2⟩]
      else if handlerChanged files base head pair.2 baseDef headDef && baseDef.hasSchema &&
          headDef.hasSchema && own.isEmpty then
        [⟨pair.2.service, .handlerChanged pair.2⟩]
      else []
  | _, _ => []

theorem field_moved {pair : EndpointId × EndpointId} {change : Change}
    (member : change ∈ moved pair) : change.kind.field? = none := by
  unfold moved at member
  split at member
  · rw [List.mem_singleton.mp member]
    rfl
  · split at member
    · rw [List.mem_singleton.mp member]
      rfl
    · cases member

theorem foldl_diffFields {out : List Change} {endpoint : EndpointId}
    (foreign : ∀ change ∈ out, ∀ direction, change.kind.field? ≠ some (endpoint, direction))
    (baseDef headDef : EndpointDef) :
    [Direction.request, .response, .payload].foldl (fun out direction =>
        diffFields out endpoint direction (baseDef.schemas.get? direction)
          (headDef.schemas.get? direction)) out =
      out ++ fieldChanges endpoint baseDef headDef := by
  have fold : ∀ (directions : List Direction) (seen : List Change), directions.Nodup →
      (∀ change ∈ seen, ∀ direction ∈ directions,
        change.kind.field? ≠ some (endpoint, direction)) →
      directions.foldl (fun out direction =>
          diffFields out endpoint direction (baseDef.schemas.get? direction)
            (headDef.schemas.get? direction)) seen =
        seen ++ directions.flatMap fun direction =>
          diffFields [] endpoint direction (baseDef.schemas.get? direction)
            (headDef.schemas.get? direction) := by
    intro directions
    induction directions with
    | nil => simp
    | cons direction directions ih =>
      intro seen nodup apart
      obtain ⟨new, rest⟩ := List.nodup_cons.mp nodup
      rw [List.foldl_cons, diffFields_append fun change member =>
        apart change member direction List.mem_cons_self, ih _ rest, List.flatMap_cons,
        List.append_assoc]
      intro change member other later
      rcases List.mem_append.mp member with old | here
      · exact apart change old other (List.mem_cons_of_mem _ later)
      · rw [field_diffFields here]
        intro same
        obtain ⟨_, rfl⟩ := Prod.mk.inj (Option.some.inj same)
        exact new later
  exact fold _ out (by decide) fun change member direction _ => foreign change member direction

/-- **Comparing a pair adds its own changes and no more.** -/
theorem diffPair_eq {changes : List Change} {pair : EndpointId × EndpointId}
    {source : ChangedFilesSource}
    (foreign : ∀ change ∈ changes, ∀ direction,
      change.kind.field? ≠ some (pair.2, direction)) :
    diffPair source base head changes pair =
      changes ++ pairChanges source base head pair := by
  unfold diffPair pairChanges
  cases base.endpoints.get? pair.1 with
  | none => exact (List.append_nil _).symm
  | some baseDef => cases head.endpoints.get? pair.2 with
    | none => exact (List.append_nil _).symm
    | some headDef =>
      have compared := (@foldl_diffFields (changes ++ moved pair) pair.2
        (fun change member direction => by
          rcases List.mem_append.mp member with old | here
          · exact foreign change old direction
          · rw [field_moved here]
            exact (Option.some_ne_none _).symm) baseDef headDef).trans
              (List.append_assoc _ _ _)
      have explained : decide (changes.length <
            (changes ++ (moved pair ++ fieldChanges pair.2 baseDef headDef)).length) =
          !(moved pair ++ fieldChanges pair.2 baseDef headDef).isEmpty := by
        rw [Bool.eq_iff_iff, decide_eq_true_eq, List.length_append, Bool.not_eq_true',
          ← Bool.not_eq_true, List.isEmpty_iff, ← List.length_eq_zero_iff]
        omega
      dsimp only
      rw [compared, explained, Bool.not_not]
      split
      · rw [List.append_assoc]
      · split
        · rw [List.append_assoc]
        · rw [List.append_nil]

theorem pairChanges_named {source : ChangedFilesSource} {pair : EndpointId × EndpointId}
    (service : pair.1.service = pair.2.service) {change : Change}
    (member : change ∈ pairChanges source base head pair) :
    pair.2 ∈ namedEndpoints change ∧
      (∀ id ∈ namedEndpoints change, id = pair.1 ∨ id = pair.2) ∧
        ∀ id direction, change.kind.field? = some (id, direction) → id = pair.2 := by
  have alone : namedEndpoints change = [pair.2] →
      pair.2 ∈ namedEndpoints change ∧ ∀ id ∈ namedEndpoints change, id = pair.1 ∨ id = pair.2 := by
    intro named
    rw [named]
    exact ⟨List.mem_singleton_self _, fun id inside => Or.inr (List.mem_singleton.mp inside)⟩
  unfold pairChanges at member
  split at member
  next baseDef headDef _ _ =>
      rcases List.mem_append.mp member with own | extra
      · rcases List.mem_append.mp own with move | field
        · have none := field_moved move
          obtain ⟨_, rfl⟩ := (mem_moved service).mp move
          obtain ⟨⟨ofBase, old⟩, ofHead, new⟩ := pair
          obtain rfl : ofBase = ofHead := service
          refine ⟨by simp [namedEndpoints], fun id inside => by
            simpa [namedEndpoints] using inside, fun id direction here => ?_⟩
          rw [none] at here
          cases here
        · obtain ⟨direction, _, inside⟩ := List.mem_flatMap.mp field
          have here := field_diffFields inside
          have named : namedEndpoints change = [pair.2] := by
            obtain ⟨_, kind⟩ := change
            cases kind <;> simp_all [ChangeKind.field?, namedEndpoints, providerTargetEndpoint]
          refine ⟨(alone named).1, (alone named).2, fun id other same => ?_⟩
          rw [here] at same
          exact (Prod.mk.inj (Option.some.inj same)).1.symm
      · have single : change.kind = .changedWithoutSchema pair.2 ∨
            change.kind = .handlerChanged pair.2 := by
          split at extra
          · exact Or.inl (congrArg Change.kind (List.mem_singleton.mp extra))
          · split at extra
            · exact Or.inr (congrArg Change.kind (List.mem_singleton.mp extra))
            · cases extra
        have named : namedEndpoints change = [pair.2] := by
          unfold namedEndpoints providerTargetEndpoint
          rcases single with kind | kind <;> rw [kind] <;> rfl
        refine ⟨(alone named).1, (alone named).2, fun id direction same => ?_⟩
        rcases single with kind | kind <;> rw [kind] at same <;> cases same
  next => cases member

/-- **The comparison reports what the pass left over and what each pair adds.** -/
theorem mem_diffContracts_iff {source : ChangedFilesSource} {change : Change} :
    change ∈ diffContracts base head source ↔
      change ∈ unpaired (pairEndpoints base head) ∨
        ∃ pair ∈ (pairEndpoints base head).pairs, change ∈ pairChanges source base head pair := by
  have passed := passed_pairEndpoints base head
  have fold : ∀ (pairs : List (EndpointId × EndpointId)) (changes : List Change),
      (pairs.map Prod.snd).Nodup → (∀ pair ∈ pairs, pair.1.service = pair.2.service) →
      (∀ change ∈ changes, ∀ pair ∈ pairs, ∀ direction,
        change.kind.field? ≠ some (pair.2, direction)) →
      pairs.foldl (diffPair source base head) changes =
        changes ++ pairs.flatMap (pairChanges source base head) := by
    intro pairs
    induction pairs with
    | nil => simp
    | cons pair pairs ih =>
      intro changes nodup services apart
      obtain ⟨new, rest⟩ := List.nodup_cons.mp nodup
      rw [List.foldl_cons, diffPair_eq fun change member =>
        apart change member pair List.mem_cons_self, ih _ rest
        (fun other later => services other (List.mem_cons_of_mem _ later)), List.flatMap_cons,
        List.append_assoc]
      intro change member other later direction same
      rcases List.mem_append.mp member with old | here
      · exact apart change old other (List.mem_cons_of_mem _ later) direction same
      · have own := (pairChanges_named (services pair List.mem_cons_self) here).2.2 _ _ same
        exact new (own ▸ List.mem_map_of_mem (f := Prod.snd) later)
  unfold diffContracts sortChanges
  rw [List.mem_mergeSort, fold _ _ passed.targets passed.services, List.mem_append,
    List.mem_flatMap]
  intro change member pair _ direction
  unfold unpaired at member
  rcases List.mem_append.mp member with removed | added
  · obtain ⟨_, _, rfl⟩ := List.mem_map.mp removed
    exact (Option.some_ne_none _).symm
  · obtain ⟨_, _, rfl⟩ := List.mem_map.mp added
    exact (Option.some_ne_none _).symm

theorem named_iff {source : ChangedFilesSource} {id : EndpointId}
    (own : (id, id) ∈ (pairEndpoints base head).pairs) :
    (∃ change ∈ diffContracts base head source, id ∈ namedEndpoints change) ↔
      pairChanges source base head (id, id) ≠ [] := by
  have passed := passed_pairEndpoints base head
  constructor
  · rintro ⟨change, reported, named⟩
    rcases mem_diffContracts_iff.mp reported with left | ⟨pair, paired, inside⟩
    · have isMove : change.kind.isMove = true ∧
          (change.kind = .endpointRemoved id.key ∨ change.kind = .endpointAdded id.key) ∧
            change.service = id.service := by
        unfold unpaired at left
        rcases List.mem_append.mp left with removed | added
        · obtain ⟨other, _, rfl⟩ := List.mem_map.mp removed
          obtain rfl : id = other := by simpa [namedEndpoints, providerTargetEndpoint] using named
          exact ⟨rfl, Or.inl rfl, rfl⟩
        · obtain ⟨other, _, rfl⟩ := List.mem_map.mp added
          obtain rfl : id = other := by simpa [namedEndpoints, providerTargetEndpoint] using named
          exact ⟨rfl, Or.inr rfl, rfl⟩
      obtain ⟨_, kind, service⟩ := isMove
      obtain ⟨ofService, ofKind⟩ := change
      obtain rfl : ofService = id.service := service
      rcases kind with removed | added
      · obtain rfl : ofKind = .endpointRemoved id.key := removed
        exact absurd (List.mem_map_of_mem (f := Prod.fst) own)
          ((endpointRemoved_iff _ _).mp reported).2
      · obtain rfl : ofKind = .endpointAdded id.key := added
        exact absurd (List.mem_map_of_mem (f := Prod.snd) own)
          ((endpointAdded_iff _ _).mp reported).2
    · have same : pair = (id, id) := by
        rcases (pairChanges_named (passed.services pair paired) inside).2.1 id named with
          source | target
        · exact List.inj_on_of_nodup_map passed.sources paired own source.symm
        · exact List.inj_on_of_nodup_map passed.targets paired own target.symm
      rw [same] at inside
      exact List.ne_nil_of_mem inside
  · intro some
    obtain ⟨change, inside⟩ := List.exists_mem_of_ne_nil _ some
    exact ⟨change, mem_diffContracts_iff.mpr (Or.inr ⟨_, own, inside⟩),
      (pairChanges_named rfl inside).1⟩

/-! ### When no edit is silent -/

theorem fieldChanges_eq_nil_iff {id : EndpointId} {baseDef headDef : EndpointDef} :
    fieldChanges id baseDef headDef = [] ↔ SameSchemas baseDef headDef := by
  unfold fieldChanges SameSchemas
  rw [List.flatMap_eq_nil_iff]
  constructor
  · intro none direction
    refine diffFields_eq_nil_iff.mp (none direction ?_)
    cases direction <;> decide
  · exact fun same direction _ => diffFields_eq_nil_iff.mpr (same direction)

theorem pairChanges_eq_nil_iff {source : ChangedFilesSource} {id : EndpointId}
    {baseDef headDef : EndpointDef} (ofBase : base.endpoints.get? id = some baseDef)
    (ofHead : head.endpoints.get? id = some headDef) :
    pairChanges source base head (id, id) = [] ↔
      SameSchemas baseDef headDef ∧
        ¬ (sourceChanged source baseDef headDef = true ∧ baseDef.hasSchema = false ∧
          headDef.hasSchema = false) ∧
        ¬ (handlerChanged source base head id baseDef headDef = true ∧
          baseDef.hasSchema = true ∧ headDef.hasSchema = true) := by
  have still : moved (id, id) = [] := by simp [moved]
  unfold pairChanges
  rw [ofBase, ofHead]
  dsimp only
  rw [still, List.nil_append, List.append_eq_nil_iff, fieldChanges_eq_nil_iff]
  refine and_congr_right fun same => ?_
  rw [fieldChanges_eq_nil_iff.mpr same]
  cases sourceChanged source baseDef headDef <;>
    cases handlerChanged source base head id baseDef headDef <;>
      cases baseDef.hasSchema <;> cases headDef.hasSchema <;> simp

theorem hasSchema_iff (endpoint : Endpoint) :
    (endpointToDef endpoint).hasSchema = true ↔ ∃ direction path,
      ((((endpointToDef endpoint).schemas.get? direction).getD ∅).get? path).isSome = true := by
  have fields : ∀ direction, (endpointToDef endpoint).schemas.get? direction =
      (endpoint.schemas.get? direction).map EndpointSchema.fields := fun direction =>
    SortedMap.get?_mapEntries _ _ direction
  change (endpoint.schemas.entries.any fun entry => !entry.2.fields.entries.isEmpty) = true ↔ _
  rw [List.any_eq_true]
  constructor
  · rintro ⟨entry, member, full⟩
    rw [Bool.not_eq_true', ← Bool.not_eq_true, List.isEmpty_iff] at full
    obtain ⟨field, inside⟩ := List.exists_mem_of_ne_nil _ full
    refine ⟨entry.1, field.1, ?_⟩
    rw [fields, SortedMap.mem_entries.mp member]
    exact SortedMap.mem_keys.mp (List.mem_map_of_mem inside)
  · rintro ⟨direction, path, present⟩
    rw [fields] at present
    cases found : endpoint.schemas.get? direction with
    | none => rw [found] at present; cases present
    | some schema =>
      rw [found] at present
      refine ⟨(direction, schema), SortedMap.mem_entries.mpr found, ?_⟩
      have key := SortedMap.mem_keys.mpr present
      rw [Bool.not_eq_true', ← Bool.not_eq_true, List.isEmpty_iff]
      intro empty
      rw [SortedMap.keys] at key
      change path ∈ schema.fields.entries.map Prod.fst at key
      rw [empty] at key
      cases key

theorem SameSchemas.refl (endpointDef : EndpointDef) : SameSchemas endpointDef endpointDef := by
  intro direction path
  cases ((endpointDef.schemas.get? direction).getD ∅).get? path with
  | none => trivial
  | some field =>
    refine ⟨rfl, rfl, rfl, ?_⟩
    cases field.enumValues with
    | none => trivial
    | some values => exact fun _ => Iff.rfl

theorem SameSchemas.hasSchema {old new : Endpoint}
    (same : SameSchemas (endpointToDef old) (endpointToDef new)) :
    (endpointToDef old).hasSchema = (endpointToDef new).hasSchema := by
  rw [Bool.eq_iff_iff, hasSchema_iff, hasSchema_iff]
  refine exists_congr fun direction => exists_congr fun path => ?_
  have here := same direction path
  revert here
  cases (((endpointToDef old).schemas.get? direction).getD ∅).get? path <;>
    cases (((endpointToDef new).schemas.get? direction).getD ∅).get? path <;>
      simp [SameField]

theorem handler_mem_sourceFiles {endpoint : Endpoint} {provider : ProviderRef}
    {handler : SymbolKey} (member : provider ∈ (endpointToDef endpoint).providers)
    (handled : provider.handler = some handler) :
    handler.path ∈ (endpointToDef endpoint).sourceFiles := by
  obtain ⟨original, inside, rfl⟩ := List.mem_map.mp member
  refine Finset.mem_union_left _ (List.mem_toFinset.mpr (List.mem_filterMap.mpr
    ⟨original, inside, ?_⟩))
  change original.handler = some handler at handled
  unfold EndpointProvider.file
  rw [handled]

theorem sourceChanged_of_listed {old new : Endpoint} {repo : String} {handler : SymbolKey}
    (handled : HandledIn (endpointToDef old) (endpointToDef new) repo handler)
    (listed : Listed files repo handler.path) :
    repo ∈ endpointProviderRepos (endpointToDef old) (endpointToDef new) ∧
      sourceChanged files.source (endpointToDef old) (endpointToDef new) = true := by
  obtain ⟨provider, member, own, of⟩ := handled
  obtain ⟨named, changed, answer, inside⟩ := listed
  have located := mem_endpointProviderRepos member own of named
  refine ⟨located, List.any_eq_true.mpr ⟨(repo, changed),
    (mem_changedIn located).mpr ⟨located, answer⟩, decide_eq_true ⟨handler.path, ?_, inside⟩⟩⟩
  rw [Finset.mem_union]
  exact (List.mem_append.mp member).imp (fun side => handler_mem_sourceFiles side own)
    fun side => handler_mem_sourceFiles side own

theorem get?_fromIndex (index : ContractIndex) (id : EndpointId) {endpointDef : EndpointDef}
    (found : (ContractSurface.fromIndex index).endpoints.get? id = some endpointDef) :
    ∃ endpoint, endpointDef = endpointToDef endpoint := by
  change (index.endpoints.mapEntries _).get? id = _ at found
  rw [SortedMap.get?_mapEntries] at found
  obtain ⟨endpoint, _, rfl⟩ := Option.map_eq_some_iff.mp found
  exact ⟨endpoint, rfl⟩

/-- **No handler edit is silent exactly when none is hidden by the lines of the other
revision.** -/
theorem noSilentEdit_iff (base head : ContractIndex) (files : RevisedSource) :
    NoSilentEdit (.fromIndex base) (.fromIndex head) files ↔
      NoneHidden (.fromIndex base) (.fromIndex head) files := by
  constructor
  · intro told id own baseDef headDef ofBase ofHead schema same overlooked repo handler handled
      listed
    refine Or.resolve_right
      (told (id, id) own baseDef headDef ofBase ofHead repo handler handled listed)
      fun ⟨change, reported, named⟩ => ?_
    refine (named_iff own).mp ⟨change, reported, named.elim (fun n => n) fun n => n⟩
      ((pairChanges_eq_nil_iff ofBase ofHead).mpr ⟨same, fun bare => ?_, fun stirred => ?_⟩)
    · rw [schema] at bare
      cases bare.2.1
    · obtain ⟨old, rfl⟩ := get?_fromIndex base id ofBase
      obtain ⟨new, rfl⟩ := get?_fromIndex head id ofHead
      have located := (sourceChanged_of_listed handled listed).1
      rw [(handlerChanged_eq_false_iff located).mpr overlooked] at stirred
      cases stirred.1
  · intro shown pair paired baseDef headDef ofBase ofHead repo handler handled listed
    have passed := passed_pairEndpoints (.fromIndex base) (.fromIndex head)
    have service := passed.services pair paired
    by_cases itself : pair.1 = pair.2
    · obtain ⟨id, _⟩ := pair
      obtain rfl : id = _ := itself
      by_cases named : ∃ change ∈ diffContracts (.fromIndex base) (.fromIndex head) files.source,
          id ∈ namedEndpoints change
      · obtain ⟨change, reported, named⟩ := named
        exact Or.inr ⟨change, reported, Or.inl named⟩
      · rw [named_iff paired, not_not, pairChanges_eq_nil_iff ofBase ofHead] at named
        obtain ⟨same, covered, quiet⟩ := named
        obtain ⟨old, rfl⟩ := get?_fromIndex base id ofBase
        obtain ⟨new, rfl⟩ := get?_fromIndex head id ofHead
        obtain ⟨located, changed⟩ := sourceChanged_of_listed handled listed
        have both := same.hasSchema
        have schema : (endpointToDef old).hasSchema = true := by
          by_contra bare
          rw [Bool.not_eq_true] at bare
          exact covered ⟨changed, bare, both ▸ bare⟩
        have overlooked := (handlerChanged_eq_false_iff located).mp
          (Bool.eq_false_iff.mpr fun stirred => quiet ⟨stirred, schema, both ▸ schema⟩)
        exact Or.inl (shown id paired _ _ ofBase ofHead schema same overlooked repo handler
          handled listed)
    · obtain ⟨⟨ofService, old⟩, _, new⟩ := pair
      obtain rfl : ofService = _ := service
      have differ : old ≠ new := fun same => itself (by rw [same])
      exact Or.inr ⟨_, (pathChanged_iff ofService old new).mpr ⟨paired, differ⟩,
        Or.inl (by simp [namedEndpoints])⟩

private def routeOf (id : EndpointId) (nodeId : GlobalId) : Endpoint where
  id := id
  method := .get
  template := "/"
  providers := [⟨nodeId, .code, some ⟨"shop", "app.py", none, "view"⟩, none⟩]
  schemas := (∅ : SortedMap Direction EndpointSchema).insert .response
    ⟨"shop:Schema:openapi.yaml:View:7", (∅ : SortedMap JsonPath FieldMeta).insert
      [.name "name"] ⟨.string, true, false, none⟩⟩

/-- Two routes of one file, at line 1 and at a given line. -/
private def shopAt (second : GlobalId) : ContractIndex :=
  { endpoints := ((∅ : SortedMap EndpointId Endpoint).insert
      ⟨"shop", .http (.known .get) "/a"⟩
      (routeOf ⟨"shop", .http (.known .get) "/a"⟩ "shop:HttpRoute:app.py:a:1")).insert
      ⟨"shop", .http (.known .get) "/b"⟩
      (routeOf ⟨"shop", .http (.known .get) "/b"⟩ second) }

private def movedBody : RevisedSource :=
  revisedSource <| (∅ : SortedMap String MirrorDiff).insert "shop" <|
    .diffed [⟨some "app.py", some "app.py", [.addition 2, .deletion 3]⟩]

/-- **An edit hides behind the routes of the other revision.** The second route moves from line
2 to line 3 because the body of the first grew into line 2; the comparison reports the second
route only. -/
theorem noSilentEdit_fails : ¬ NoSilentEdit
    (.fromIndex (shopAt "shop:HttpRoute:app.py:b:2"))
    (.fromIndex (shopAt "shop:HttpRoute:app.py:b:3")) movedBody := by
  intro told
  have before : routeLines (.fromIndex (shopAt "shop:HttpRoute:app.py:b:2")) "shop" "app.py" =
      [(⟨"shop", .http (.known .get) "/a"⟩, 1), (⟨"shop", .http (.known .get) "/b"⟩, 2)] := by
    decide +kernel
  have after : routeLines (.fromIndex (shopAt "shop:HttpRoute:app.py:b:3")) "shop" "app.py" =
      [(⟨"shop", .http (.known .get) "/a"⟩, 1), (⟨"shop", .http (.known .get) "/b"⟩, 3)] := by
    decide +kernel
  have shown : movedBody.lines "shop" "app.py" = some [.addition 2, .deletion 3] := by
    decide +kernel
  have paired : (⟨"shop", .http (.known .get) "/a"⟩, ⟨"shop", .http (.known .get) "/a"⟩) ∈
      (pairEndpoints (.fromIndex (shopAt "shop:HttpRoute:app.py:b:2"))
        (.fromIndex (shopAt "shop:HttpRoute:app.py:b:3"))).pairs := by
    decide +kernel
  have handled : HandledIn (endpointToDef (routeOf ⟨"shop", .http (.known .get) "/a"⟩
      "shop:HttpRoute:app.py:a:1")) (endpointToDef (routeOf ⟨"shop", .http (.known .get) "/a"⟩
      "shop:HttpRoute:app.py:a:1")) "shop" ⟨"shop", "app.py", none, "view"⟩ :=
    ⟨_, List.mem_cons_self, rfl, Or.inr rfl⟩
  have listed : Listed movedBody "shop" "app.py" := ⟨by decide, {"app.py"}, rfl, by decide⟩
  have overlooked : Overlooked (.fromIndex (shopAt "shop:HttpRoute:app.py:b:2"))
      (.fromIndex (shopAt "shop:HttpRoute:app.py:b:3")) movedBody
      ⟨"shop", .http (.known .get) "/a"⟩
      (endpointToDef (routeOf ⟨"shop", .http (.known .get) "/a"⟩ "shop:HttpRoute:app.py:a:1"))
      (endpointToDef (routeOf ⟨"shop", .http (.known .get) "/a"⟩
        "shop:HttpRoute:app.py:a:1")) := by
    intro provider member handler handled _
    obtain rfl : provider = ⟨"shop:HttpRoute:app.py:a:1",
        some ⟨"shop", "app.py", none, "view"⟩, none⟩ := by
      simpa [endpointToDef, routeOf] using member
    obtain rfl := Option.some.inj handled
    have repo : GlobalId.repoId "shop:HttpRoute:app.py:a:1" = "shop" := by decide +kernel
    rw [repo]
    refine ⟨_, shown, ⟨1, ?_⟩, ?_, ?_⟩ <;> rw [before, after] <;> decide
  rcases told _ paired _ _ rfl rfl "shop" _ handled listed with
    ⟨lines, known, excused⟩ | ⟨change, reported, named⟩
  · obtain rfl := Option.some.inj (known.symm.trans shown)
    have added := (excused.added 2 List.mem_cons_self).1
    rw [after] at added
    exact absurd added (by decide)
  · refine (named_iff paired).mp ⟨change, reported, named.elim (fun n => n) fun n => n⟩
      ((pairChanges_eq_nil_iff rfl rfl).mpr ⟨.refl _, fun bare => ?_, fun stirred => ?_⟩)
    · exact absurd bare.2.1 (by decide +kernel)
    · have located := (sourceChanged_of_listed handled listed).1
      rw [(handlerChanged_eq_false_iff located).mpr overlooked] at stirred
      cases stirred.1

end Lain.Contracts
