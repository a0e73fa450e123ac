import Mathlib
import Lain.Contracts.Evaluate

/-!
# When no known impact means no impact

A change is waved through when the scope is covered, no unresolved consumer
could match its endpoint and the trace notices no consumer.
-/

namespace Lain.Contracts

open Foundation Federation

def namedEndpoints (change : Change) : List EndpointId :=
  match change.kind with
  | .pathChanged source target => [⟨change.service, source⟩, ⟨change.service, target⟩]
  | .methodChanged source target => [⟨change.service, source⟩, ⟨change.service, target⟩]
  | .consumerRebound _ source target => [source, target]
  | _ => (providerTargetEndpoint change).toList

def changedPaths : ChangeKind → List JsonPath
  | .fieldRemoved _ _ path => [path]
  | .fieldAdded _ _ path _ => [path]
  | .fieldRenamed _ _ source target _ => [source, target]
  | .fieldTypeChanged _ _ path _ _ _ => [path]
  | .requirednessChanged _ _ path _ => [path]
  | .nullabilityChanged _ _ path _ => [path]
  | .enumValueRemoved _ _ path _ => [path]
  | .enumValueAdded _ _ path _ => [path]
  | _ => []

def dependsOnReads (change : Change) : Prop :=
  changeCompat change = .breakingIfRead ∨
    changeCompat change = .needsReview ∧ ∃ endpoint direction path value,
      change.kind = .enumValueAdded endpoint direction path value

def Silent (consumer : ConsumerDef) (paths : List JsonPath) : Prop :=
  consumer.readsComplete = true ∧ ∀ path ∈ paths, ∀ read ∈ consumer.reads, ¬ path <+: read

def ScopeComplete (version : String) (coverage : Coverage) : Prop :=
  ∀ repo ∈ scopeRepoNames coverage, ∃ cover,
    coverage.repoCoverages.get? repo = some cover ∧
      cover.isComplete consumerCapableLangs version = true

structure Backed (version : String) (change : Change) (base head : ContractSurface)
    (coverage : Coverage) : Prop where
  /-- The scope is covered. -/
  covered : ScopeComplete version coverage
  /-- No unresolved consumer could match an endpoint the change names. -/
  unmatched : ∀ u ∈ coverage.unresolvedConsumers, ∀ endpoint ∈ namedEndpoints change,
    couldMatch u endpoint head = false
  /-- No consumer the base binds to such an endpoint is affected, in either revision. -/
  unaffected : ∀ entry ∈ base.consumers.entries,
    entry.2.boundTo (namedEndpoints change) = true →
      dependsOnReads change ∧ Silent entry.2 (changedPaths change.kind) ∧
        ∀ consumer, head.consumers.get? entry.1 = some consumer →
          Silent consumer (changedPaths change.kind)

def NoKnownImpactSound (version : String) (change : Change) (base head : ContractSurface)
    (coverage : Coverage) : Prop :=
  (evaluate version change base head coverage).impact = .noKnownImpact →
    isSchemaCompatibleChange change.kind (changeCompat change) = false →
      Backed version change base head coverage

def Noticed (change : Change) (head : ContractSurface) (entry : ConsumerKey × ConsumerDef) :
    Prop :=
  changeCompat change ≠ .compatible ∧
    (dependsOnReads change → (currentDef head entry).readsComplete = false ∨
      readsFieldFor change (currentDef head entry) entry.2 = true)

def HeldBack (version : String) (change : Change) (base head : ContractSurface)
    (coverage : Coverage) : Prop :=
  scopeRepoNames coverage = [] ∨ ¬ ScopeComplete version coverage ∨
    (∃ u ∈ coverage.unresolvedConsumers, ∃ target,
      providerTargetEndpoint change = some target ∧ couldMatch u target head = true) ∨
    ∃ entry ∈ baseConsumers change base, Noticed change head entry

structure Faithful (version : String) (change : Change) (base head : ContractSurface)
    (coverage : Coverage) : Prop where
  /-- An unresolved consumer could match the old endpoint of a move. -/
  former : ∀ source target, change.kind = .pathChanged source target ∨
      change.kind = .methodChanged source target →
    (∃ u ∈ coverage.unresolvedConsumers,
      couldMatch u ⟨change.service, source⟩ head = true) →
        HeldBack version change base head coverage
  /-- The base binds a consumer to an endpoint said to be new. -/
  added : ∀ key, change.kind = .endpointAdded key → baseConsumers change base ≠ [] →
    HeldBack version change base head coverage
  /-- A consumer of the endpoint is incomplete or reads what changed, in either revision and
  under either name. -/
  readers : dependsOnReads change →
    (∃ entry ∈ baseConsumers change base,
      ¬ (Silent entry.2 (changedPaths change.kind) ∧
        Silent (currentDef head entry) (changedPaths change.kind))) →
      HeldBack version change base head coverage

variable {version : String} {change : Change} {base head : ContractSurface}
  {coverage : Coverage}

/-! ### The parts of the evaluation -/

theorem incompleteRepos_isEmpty :
    (incompleteRepos coverage version).isEmpty = true ↔
      scopeRepoNames coverage ≠ [] ∧ ScopeComplete version coverage := by
  unfold incompleteRepos
  by_cases nothing :
      ((scopeRepoNames coverage).isEmpty || coverage.repoCoverages.entries.isEmpty) = true
  · rw [if_pos nothing]
    refine iff_of_false (by simp) fun ⟨somewhere, covered⟩ => ?_
    rw [Bool.or_eq_true, List.isEmpty_iff, List.isEmpty_iff] at nothing
    rcases nothing with nowhere | unmeasured
    · exact somewhere nowhere
    · obtain ⟨repo, member⟩ := List.exists_mem_of_ne_nil _ somewhere
      obtain ⟨cover, found, _⟩ := covered repo member
      have inside := SortedMap.mem_entries.mpr found
      rw [unmeasured] at inside
      cases inside
  · rw [if_neg nothing, List.isEmpty_iff, List.filter_eq_nil_iff]
    rw [Bool.or_eq_true, not_or, List.isEmpty_iff] at nothing
    refine Iff.trans (forall₂_congr fun repo _ => ?_) (and_iff_right nothing.1).symm
    cases coverage.repoCoverages.get? repo with
    | none => simp
    | some cover => simp

theorem dependsOnReads_provider (depends : dependsOnReads change) :
    change.kind.consumer? = none := by
  obtain ⟨service, kind⟩ := change
  unfold dependsOnReads changeCompat at depends
  cases kind <;> first | rfl | simp [classify] at depends

theorem consumerVerdict_quiet (entry : ConsumerKey × ConsumerDef) :
    (consumerVerdict change head entry).1 = .noKnownImpact ↔ ¬ Noticed change head entry := by
  unfold consumerVerdict perConsumerVerdict Noticed dependsOnReads
  dsimp only
  generalize readsFieldFor change (currentDef head entry) entry.2 = reads
  generalize (currentDef head entry).readsComplete = complete
  cases changeCompat change with
  | compatible => simp
  | breaking => cases isCertain (currentDef head entry) <;> simp
  | breakingIfRead =>
    cases reads <;> cases complete <;> cases isCertain (currentDef head entry) <;> simp
  | breakingIfSent => simp
  | needsReview =>
    cases change.kind <;> cases reads <;> cases complete <;> simp

theorem trace_spec (change : Change) (head : ContractSurface)
    (entries : List (ConsumerKey × ConsumerDef)) :
    let traced := entries.foldl (traceOne change head) {}
    (traced.affected.isEmpty = true ↔ ∀ entry ∈ entries, ¬ Noticed change head entry) ∧
      (traced.affected.isEmpty = false → traced.impact ≠ .noKnownImpact) := by
  induction entries using List.reverseRecOn with
  | nil => simp
  | append_singleton entries entry ih =>
    dsimp only at ih ⊢
    rw [List.foldl_append, List.foldl_cons, List.foldl_nil]
    generalize entries.foldl (traceOne change head) {} = traced at ih ⊢
    have quiet : (consumerVerdict change head entry).1 = .noKnownImpact ↔
        ¬ Noticed change head entry := consumerVerdict_quiet entry
    have split : (∀ e ∈ entries ++ [entry], ¬ Noticed change head e) ↔
        (∀ e ∈ entries, ¬ Noticed change head e) ∧ ¬ Noticed change head entry := by
      simp [or_imp, forall_and]
    rw [split, ← ih.1, ← quiet]
    unfold traceOne
    generalize consumerVerdict change head entry = verdict
    obtain ⟨impact, reason⟩ := verdict
    by_cases none : impact = .noKnownImpact
    · simp only [none, ↓reduceIte, and_true, true_and]
      exact ih.2
    · simp only [none, ↓reduceIte]
      refine ⟨iff_of_false (by simp) (by simp), fun _ low => ?_⟩
      split_ifs at low with above
      · exact none low
      · rw [low] at above
        exact above (Nat.zero_le _)

def WavedKind (change : Change) : Prop :=
  changeCompat change ≠ .breakingIfSent ∧
    ∀ endpoint, change.kind ≠ .changedWithoutSchema endpoint ∧
      change.kind ≠ .handlerChanged endpoint

theorem quietVerdict_spec (change : Change) :
    (quietVerdict change).impact = .noKnownImpact ↔ WavedKind change := by
  obtain ⟨service, kind⟩ := change
  unfold quietVerdict WavedKind
  cases compat : changeCompat ⟨service, kind⟩ with
  | compatible =>
    cases kind <;> first | (simp; done) | simp [changeCompat, classify] at compat
  | breakingIfSent => simp
  | breaking => cases kind <;> simp
  | breakingIfRead => cases kind <;> simp
  | needsReview => cases kind <;> simp

theorem exists_target (provider : change.kind.consumer? = none) :
    ∃ target, providerTargetEndpoint change = some target := by
  obtain ⟨service, kind⟩ := change
  cases kind <;> first | exact ⟨_, rfl⟩ | cases provider

theorem evaluate_noKnownImpact_iff
    (schema : isSchemaCompatibleChange change.kind (changeCompat change) = false) :
    (evaluate version change base head coverage).impact = .noKnownImpact ↔
      change.kind.consumer? = none ∧ WavedKind change ∧
        ¬ HeldBack version change base head coverage := by
  unfold evaluate
  cases side : change.kind.consumer? with
  | some consumer =>
    refine iff_of_false ?_ fun waved => by cases waved.1
    change consumerSideClass _ _ ≠ _
    unfold consumerSideClass
    repeat' split
    all_goals simp
  | none =>
    obtain ⟨target, isTarget⟩ := exists_target side
    obtain ⟨unnoticed, noticed⟩ := trace_spec change head (baseConsumers change base)
    dsimp only
    generalize (baseConsumers change base).foldl (traceOne change head) {} = traced
      at unnoticed noticed ⊢
    change (downgrade change coverage version _).impact = _ ↔ _
    have downgraded : ∀ verdict : Verdict,
        (downgrade change coverage version verdict).impact = .noKnownImpact ↔
          verdict.impact = .noKnownImpact ∧
            (incompleteRepos coverage version).isEmpty = true := by
      intro verdict
      unfold downgrade
      dsimp only
      by_cases none : verdict.impact = .noKnownImpact
      · cases empty : (incompleteRepos coverage version).isEmpty <;> simp [none, schema]
      · simp [none]
    rw [downgraded, incompleteRepos_isEmpty]
    have held : HeldBack version change base head coverage ↔
        ¬ (scopeRepoNames coverage ≠ [] ∧ ScopeComplete version coverage) ∨
        (∃ u ∈ coverage.unresolvedConsumers, couldMatch u target head = true) ∨
        traced.affected.isEmpty = false := by
      have someNoticed : (∃ entry ∈ baseConsumers change base, Noticed change head entry) ↔
          traced.affected.isEmpty = false := by
        rw [← Bool.not_eq_true, unnoticed]
        push Not
        exact Iff.rfl
      unfold HeldBack
      rw [someNoticed, isTarget, not_and_or, not_not, or_assoc]
      simp only [Option.some.injEq, exists_eq_left']
    rw [held]
    cases affected : traced.affected.isEmpty with
    | false =>
      refine iff_of_false (fun waved => ?_) (by simp)
      rw [if_neg (by simp)] at waved
      exact noticed affected waved.1
    | true =>
      rw [if_pos rfl]
      have unaffected : (unaffectedVerdict change head coverage).impact = .noKnownImpact ↔
          (¬ ∃ u ∈ coverage.unresolvedConsumers, couldMatch u target head = true) ∧
            WavedKind change := by
        unfold unaffectedVerdict
        rw [isTarget, schema]
        dsimp only
        rw [← quietVerdict_spec]
        cases candidates :
          (coverage.unresolvedConsumers.filter fun u => couldMatch u target head).isEmpty with
        | true =>
          rw [List.isEmpty_iff, List.filter_eq_nil_iff] at candidates
          simp only [Bool.not_true, Bool.false_and, Bool.false_eq_true, ↓reduceIte]
          refine (and_iff_right ?_).symm
          rintro ⟨u, member, matched⟩
          exact candidates u member matched
        | false =>
          simp only [Bool.not_false, Bool.and_self, ↓reduceIte, reduceCtorEq, false_iff]
          rintro ⟨unmatched, _⟩
          rw [List.isEmpty_eq_false_iff_exists_mem] at candidates
          obtain ⟨u, member⟩ := candidates
          exact unmatched ⟨u, List.mem_filter.mp member⟩
      rw [unaffected]
      simp only [Bool.true_eq_false, or_false, true_and]
      rw [not_or, not_not]
      exact ⟨fun ⟨⟨unmatched, waved⟩, covered⟩ => ⟨waved, covered, unmatched⟩,
        fun ⟨waved, covered, unmatched⟩ => ⟨⟨unmatched, waved⟩, covered⟩⟩

/-! ### When the verdict is backed -/

theorem boundTo_namedEndpoints (provider : change.kind.consumer? = none)
    (consumer : ConsumerDef) :
    consumer.boundTo (namedEndpoints change) = consumer.boundTo (baseTargetKeys change) := by
  obtain ⟨service, kind⟩ := change
  unfold ConsumerDef.boundTo
  cases consumer.resolution with
  | binds bound provenance =>
    cases kind with
    | pathChanged source target =>
      simp [namedEndpoints, baseTargetKeys, providerTargetEndpoint, Bool.or_comm]
    | methodChanged source target =>
      simp [namedEndpoints, baseTargetKeys, providerTargetEndpoint, Bool.or_comm]
    | consumerRebound consumer source target => cases provider
    | _ => rfl
  | external host => rfl
  | unresolved reason service => rfl

theorem mem_baseConsumers {entry : ConsumerKey × ConsumerDef}
    (provider : change.kind.consumer? = none) :
    entry ∈ baseConsumers change base ↔
      entry ∈ base.consumers.entries ∧ entry.2.boundTo (namedEndpoints change) = true := by
  unfold baseConsumers
  rw [List.mem_filter, boundTo_namedEndpoints provider]

theorem endpointAdded_of_compatible (provider : change.kind.consumer? = none)
    (compatible : changeCompat change = .compatible)
    (schema : isSchemaCompatibleChange change.kind (changeCompat change) = false) :
    ∃ key, change.kind = .endpointAdded key := by
  obtain ⟨service, kind⟩ := change
  rw [compatible] at schema
  unfold changeCompat at compatible
  cases kind with
  | endpointAdded key => exact ⟨key, rfl⟩
  | fieldRenamed endpoint direction source target required =>
    cases direction <;> cases required <;> simp [classify, ChangeKind.direction?] at compatible
  | fieldTypeChanged endpoint direction path source target required =>
    cases direction <;> cases required <;> simp [classify, ChangeKind.direction?] at compatible
  | consumerRebound consumer source target => cases provider
  | _ =>
    first
      | (simp [isSchemaCompatibleChange] at schema; done)
      | simp [classify] at compatible

theorem waved_of_dependsOnReads (depends : dependsOnReads change) :
    WavedKind change ∧ changeCompat change ≠ .compatible := by
  rcases depends with reads | ⟨review, endpoint, direction, path, value, isEnum⟩
  · refine ⟨⟨by rw [reads]; simp, fun endpoint => ⟨fun kind => ?_, fun kind => ?_⟩⟩,
      by rw [reads]; simp⟩
    · unfold changeCompat at reads
      rw [kind] at reads
      cases reads
    · unfold changeCompat at reads
      rw [kind] at reads
      cases reads
  · refine ⟨⟨by rw [review]; simp, fun endpoint => ?_⟩, by rw [review]; simp⟩
    rw [isEnum]
    simp

theorem currentDef_silent {entry : ConsumerKey × ConsumerDef} {paths : List JsonPath}
    (former : Silent entry.2 paths)
    (current : ∀ consumer, head.consumers.get? entry.1 = some consumer → Silent consumer paths) :
    Silent (currentDef head entry) paths := by
  unfold currentDef
  cases found : head.consumers.get? entry.1 with
  | none => exact former
  | some consumer => exact current consumer found

/-- **No known impact is backed exactly when whatever could be overlooked is held back
otherwise.** -/
theorem noKnownImpactSound_iff (version : String) (change : Change)
    (base head : ContractSurface) (coverage : Coverage) :
    NoKnownImpactSound version change base head coverage ↔
      Faithful version change base head coverage := by
  constructor
  · intro sound
    have backed : change.kind.consumer? = none → WavedKind change →
        isSchemaCompatibleChange change.kind (changeCompat change) = false →
        ¬ HeldBack version change base head coverage →
          Backed version change base head coverage := fun provider waved schema free =>
      sound ((evaluate_noKnownImpact_iff schema).mpr ⟨provider, waved, free⟩) schema
    refine { former := fun source target move matched => ?_, added := fun key new bound => ?_,
             readers := fun depends loud => ?_ }
    · by_contra free
      obtain ⟨service, kind⟩ := change
      obtain ⟨u, unresolved, matches_⟩ := matched
      rcases move with rfl | rfl <;>
      · have verdict := backed rfl (by simp [WavedKind, changeCompat, classify]) (by rfl) free
        have never := verdict.unmatched u unresolved _ List.mem_cons_self
        rw [matches_] at never
        cases never
    · by_contra free
      obtain ⟨service, kind⟩ := change
      obtain rfl : kind = .endpointAdded key := new
      have verdict := backed rfl (by simp [WavedKind, changeCompat, classify]) (by rfl) free
      obtain ⟨entry, member⟩ := List.exists_mem_of_ne_nil _ bound
      obtain ⟨inBase, toNew⟩ := (mem_baseConsumers rfl).mp member
      have depends := (verdict.unaffected entry inBase toNew).1
      simp [dependsOnReads, changeCompat, classify] at depends
    · by_contra free
      obtain ⟨entry, member, loud⟩ := loud
      obtain ⟨waved, incompatible⟩ := waved_of_dependsOnReads depends
      have provider := dependsOnReads_provider depends
      have verdict := backed provider waved (by simp [isSchemaCompatibleChange, incompatible]) free
      obtain ⟨inBase, bound⟩ := (mem_baseConsumers provider).mp member
      obtain ⟨_, former, current⟩ := verdict.unaffected entry inBase bound
      exact loud ⟨former, currentDef_silent former current⟩
  · intro faithful waved schema
    obtain ⟨provider, _, free⟩ := (evaluate_noKnownImpact_iff schema).mp waved
    have parts := free
    unfold HeldBack at parts
    push Not at parts
    obtain ⟨_, covered, unmatched, unnoticed⟩ := parts
    refine { covered := covered, unmatched := fun u member endpoint named => ?_,
             unaffected := fun entry member bound => ?_ }
    · by_contra matches_
      rw [Bool.not_eq_false] at matches_
      by_cases isTarget : providerTargetEndpoint change = some endpoint
      · exact unmatched u member endpoint isTarget matches_
      · obtain ⟨service, kind⟩ := change
        cases kind with
        | pathChanged source target =>
          have ofSource : endpoint = ⟨service, source⟩ := by
            rcases List.mem_cons.mp named with ofSource | ofTarget
            · exact ofSource
            · exact absurd (congrArg some (List.mem_singleton.mp ofTarget)).symm isTarget
          exact free (faithful.former source target (Or.inl rfl)
            ⟨u, member, ofSource ▸ matches_⟩)
        | methodChanged source target =>
          have ofSource : endpoint = ⟨service, source⟩ := by
            rcases List.mem_cons.mp named with ofSource | ofTarget
            · exact ofSource
            · exact absurd (congrArg some (List.mem_singleton.mp ofTarget)).symm isTarget
          exact free (faithful.former source target (Or.inr rfl)
            ⟨u, member, ofSource ▸ matches_⟩)
        | consumerRebound consumer source target => cases provider
        | _ => exact isTarget (Option.mem_toList.mp named)
    · have followed := (mem_baseConsumers provider).mpr ⟨member, bound⟩
      have quiet := unnoticed entry followed
      by_cases compatible : changeCompat change = .compatible
      · obtain ⟨key, new⟩ := endpointAdded_of_compatible provider compatible schema
        exact absurd (faithful.added key new (List.ne_nil_of_mem followed)) free
      · have depends : dependsOnReads change := by
          by_contra independent
          exact quiet ⟨compatible, fun depends => absurd depends independent⟩
        have silent : Silent entry.2 (changedPaths change.kind) ∧
            Silent (currentDef head entry) (changedPaths change.kind) := by
          by_contra loud
          exact free (faithful.readers depends ⟨entry, followed, loud⟩)
        refine ⟨depends, silent.1, fun consumer found => ?_⟩
        have current := silent.2
        unfold currentDef at current
        rwa [found] at current

private def renamedTotal : Change :=
  ⟨"shop", .fieldRenamed ⟨"shop", .http (.known .get) "/orders"⟩ .response
    [.name "total"] [.name "amount"] true⟩

private def reader (field : String) : ContractSurface :=
  { consumers := (∅ : SortedMap ConsumerKey ConsumerDef).insert
      ⟨⟨"web", "a.ts", none, "get"⟩, .contract (.http (.known .get) "/orders")⟩
      { call := "web:HttpClientCall:a.ts:get:3"
        resolution := .binds [⟨"shop", .http (.known .get) "/orders"⟩] (.static .treeSitter)
        reads := {[.name field]}
        readsComplete := true } }

private def coveredShop : Coverage :=
  { scope := { reviewed := [⟨"shop", none, false⟩] }
    repoCoverages := (∅ : SortedMap String RepoCoverage).insert "shop"
      { ledger := ∅, languagesPresent := ∅, cacheKey := ⟨"shop", "", "1"⟩, error := none } }

/-- **A reader of the old name is overlooked.** The base reads the new name of a renamed
field and the head the old one, and the rename is waved through. -/
theorem noKnownImpactSound_fails :
    ¬ NoKnownImpactSound "1" renamedTotal (reader "amount") (reader "total") coveredShop := by
  intro sound
  have waved : (evaluate "1" renamedTotal (reader "amount") (reader "total")
      coveredShop).impact = .noKnownImpact := by decide +kernel
  have backed := sound waved (by decide)
  have head := (backed.unaffected _ List.mem_cons_self (by decide)).2.2 _ rfl
  exact head.2 [.name "total"] List.mem_cons_self [.name "total"] (Finset.mem_singleton_self _)
    List.prefix_rfl

end Lain.Contracts
