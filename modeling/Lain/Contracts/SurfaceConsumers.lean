import Mathlib
import Lain.Contracts.CouldMatch

/-!
# The consumers a surface shows

A surface files consumers under keys without lines, so several resolutions may
share a key, and the last one filed replaces the others.
-/

namespace Lain.Contracts

open Foundation Federation

variable {index : ContractIndex}

def Recorded (index : ContractIndex) (call : GlobalId) (path : JsonPath) : Prop :=
  ∃ entry ∈ index.fieldRefs.entries, readOf entry.1 entry.2 = some (call, path)

def ServiceUnknown (resolution : ConsumerResolution) : Prop :=
  ∃ reason, resolution.target = some (.unresolved reason none)

/-- A surface shows a resolution: its reads, the doubt whether they are all, and the doubt
which service it calls. -/
def Shown (index : ContractIndex) (entry : GlobalId × ConsumerResolution) : Prop :=
  ∃ consumer,
    (ContractSurface.fromIndex index).consumers.get? (consumerKey entry.1 entry.2) =
      some consumer ∧
    (∀ path, Recorded index entry.1 path → path ∈ consumer.reads) ∧
    (entry.2.readsComplete = false → consumer.readsComplete = false) ∧
    (ServiceUnknown entry.2 → ∀ endpoint, couldMatch (consumerKey entry.1 entry.2) endpoint
      (ContractSurface.fromIndex index) = true)

/-- A surface shows every resolution of every call. -/
def LosesNone (index : ContractIndex) : Prop :=
  ∀ entry ∈ index.consumerResolutions, Shown index entry

structure StandsFor (index : ContractIndex) (last earlier : GlobalId × ConsumerResolution) :
    Prop where
  reads : ∀ path, Recorded index earlier.1 path → Recorded index last.1 path
  incomplete : earlier.2.readsComplete = false → last.2.readsComplete = false
  unknown : ServiceUnknown earlier.2 → ServiceUnknown last.2 ∨ last.2.target = none

/-- The last resolution of every key stands for the earlier ones of the key. -/
def LastStandsForAll (index : ContractIndex) : Prop :=
  ∀ before last after, index.consumerResolutions = before ++ last :: after →
    (∀ later ∈ after, consumerKey later.1 later.2 ≠ consumerKey last.1 last.2) →
      ∀ earlier ∈ before, consumerKey earlier.1 earlier.2 = consumerKey last.1 last.2 →
        StandsFor index last earlier

theorem mem_readsByCall (index : ContractIndex) (call : GlobalId) (path : JsonPath) :
    path ∈ ((readsByCall index).get? call).getD ∅ ↔ Recorded index call path := by
  unfold readsByCall Recorded
  generalize index.fieldRefs.entries = entries
  induction entries using List.reverseRecOn with
  | nil => simp
  | append_singleton entries entry ih =>
    rw [List.foldl_append, List.foldl_cons, List.foldl_nil]
    simp only [List.mem_append, List.mem_singleton, or_and_right, exists_or, exists_eq_left]
    rw [← ih]
    cases read : readOf entry.1 entry.2 with
    | none => simp
    | some found =>
      obtain ⟨call', path'⟩ := found
      dsimp only
      rw [SortedMap.get?_alter]
      by_cases here : call = call'
      · subst here
        simp [or_comm, eq_comm]
      · have apart : ¬ call' = call := fun same => here same.symm
        simp [here, apart]

private theorem exists_last {ε κ : Type*} [DecidableEq κ] (key : ε → κ) {entries : List ε}
    {entry : ε} (member : entry ∈ entries) :
    ∃ before last after, entries = before ++ last :: after ∧ key last = key entry ∧
      (∀ later ∈ after, key later ≠ key last) ∧ (entry = last ∨ entry ∈ before) := by
  induction entries using List.reverseRecOn with
  | nil => cases member
  | append_singleton entries final ih =>
    by_cases here : key final = key entry
    · refine ⟨entries, final, [], rfl, here, fun later none => ?_, ?_⟩
      · cases none
      · rcases List.mem_append.mp member with earlier | same
        · exact Or.inr earlier
        · exact Or.inl (List.mem_singleton.mp same)
    · rcases List.mem_append.mp member with earlier | same
      · obtain ⟨before, last, after, rfl, ofKey, later, place⟩ := ih earlier
        refine ⟨before, last, after ++ [final], by simp, ofKey, fun next beyond => ?_, place⟩
        rcases List.mem_append.mp beyond with old | new
        · exact later next old
        · rw [List.mem_singleton.mp new, ofKey]
          exact here
      · exact absurd (congrArg key (List.mem_singleton.mp same)).symm here

theorem consumers_fromIndex {before after : List (GlobalId × ConsumerResolution)}
    {last : GlobalId × ConsumerResolution}
    (split : index.consumerResolutions = before ++ last :: after)
    (later : ∀ entry ∈ after, consumerKey entry.1 entry.2 ≠ consumerKey last.1 last.2) :
    (ContractSurface.fromIndex index).consumers.get? (consumerKey last.1 last.2) =
      some (consumerToDef last.1 last.2 (readsByCall index)) := by
  unfold ContractSurface.fromIndex
  dsimp only
  rw [split]
  let key : GlobalId × ConsumerResolution → ConsumerKey := fun entry =>
    consumerKey entry.1 entry.2
  have apart : ∀ entry ∈ after, key entry ≠ key last := later
  exact SortedMap.get?_foldl_insert key
    (fun entry => consumerToDef entry.1 entry.2 (readsByCall index)) last apart ∅

theorem surfaceResolution_unknown_iff (resolution : ConsumerResolution) :
    (∃ reason, surfaceResolution resolution = .unresolved reason none) ↔
      ServiceUnknown resolution ∨ resolution.target = none := by
  unfold surfaceResolution ServiceUnknown
  cases target : resolution.target with
  | none => simp
  | some verdict => cases verdict <;> simp

theorem consumerKey_of_unknown {entry : GlobalId × ConsumerResolution}
    (unknown : ServiceUnknown entry.2) :
    (consumerKey entry.1 entry.2).target = .urlExpr (entry.1.name.getD "") := by
  obtain ⟨reason, unresolved⟩ := unknown
  change consumerTargetKey entry.1 entry.2 = _
  unfold consumerTargetKey
  rw [unresolved]

theorem shown_iff {before after : List (GlobalId × ConsumerResolution)}
    {last entry : GlobalId × ConsumerResolution}
    (split : index.consumerResolutions = before ++ last :: after)
    (later : ∀ entry ∈ after, consumerKey entry.1 entry.2 ≠ consumerKey last.1 last.2)
    (same : consumerKey entry.1 entry.2 = consumerKey last.1 last.2) :
    Shown index entry ↔ StandsFor index last entry := by
  have filed := consumers_fromIndex split later
  rw [← same] at filed
  have certainty : ServiceUnknown entry.2 →
      ((∀ endpoint, couldMatch (consumerKey entry.1 entry.2) endpoint
          (ContractSurface.fromIndex index) = true) ↔
        ServiceUnknown last.2 ∨ last.2.target = none) := by
    intro unknown
    have named := consumerKey_of_unknown unknown
    rw [← surfaceResolution_unknown_iff, ← targetServiceOk_all_iff]
    constructor
    · intro all service
      have matched := all ⟨service, .table ""⟩
      rwa [couldMatch_urlExpr named filed] at matched
    · intro all endpoint
      rw [couldMatch_urlExpr named filed]
      exact all endpoint.service
  constructor
  · rintro ⟨consumer, found, reads, incomplete, matched⟩
    obtain rfl := Option.some.inj (filed.symm.trans found)
    exact
      { reads := fun path recorded => (mem_readsByCall index _ path).mp (reads path recorded)
        incomplete := incomplete
        unknown := fun unknown => (certainty unknown).mp (matched unknown) }
  · intro stands
    exact ⟨_, filed, fun path recorded => (mem_readsByCall index _ path).mpr
        (stands.reads path recorded), stands.incomplete,
      fun unknown => (certainty unknown).mpr (stands.unknown unknown)⟩

theorem StandsFor.refl (entry : GlobalId × ConsumerResolution) : StandsFor index entry entry where
  reads := fun _ recorded => recorded
  incomplete := id
  unknown := Or.inl

/-- **A surface loses no consumer exactly when, of the resolutions that share a key, the last
one knows at least as much as each of the others.** -/
theorem losesNone_iff (index : ContractIndex) : LosesNone index ↔ LastStandsForAll index := by
  constructor
  · intro none before last after split later earlier member same
    have inIndex : earlier ∈ index.consumerResolutions :=
      split ▸ List.mem_append_left _ member
    exact (shown_iff split later same).mp (none earlier inIndex)
  · intro stands entry member
    obtain ⟨before, last, after, split, ofKey, later, place⟩ :=
      exists_last (fun entry : GlobalId × ConsumerResolution => consumerKey entry.1 entry.2) member
    refine (shown_iff split later ofKey.symm).mpr ?_
    rcases place with rfl | earlier
    · exact StandsFor.refl entry
    · exact stands before last after split later entry earlier ofKey.symm

private def twoCalls : ContractIndex :=
  let bound (call : GlobalId) : ConsumerResolution :=
    { callId := call
      service := "web"
      target := some (.binds (.static .treeSitter) 1 .exact none)
      boundEndpoints := [⟨"shop", .http (.known .get) "/orders"⟩]
      readsComplete := true }
  { consumers := ((∅ : SortedMap GlobalId (List ConsumerResolution)).insert
        "web:HttpClientCall:a.ts:get:3" [bound "web:HttpClientCall:a.ts:get:3"]).insert
        "web:HttpClientCall:a.ts:get:7" [bound "web:HttpClientCall:a.ts:get:7"]
    fieldRefs := (∅ : SortedMap GlobalId FieldRefResolution).insert "web:FieldRef:a.ts:total:4"
      { fieldRefId := "web:FieldRef:a.ts:total:4"
        service := "web"
        boundFields := []
        unknown := false
        call := "web:HttpClientCall:a.ts:get:3" } }

/-- **The second call of a function to an endpoint hides the reads of the first.** -/
theorem losesNone_fails : ¬ LosesNone twoCalls := by
  intro none
  obtain ⟨consumer, found, reads, _, _⟩ := none _ (List.mem_cons_self)
  have recorded : Recorded twoCalls "web:HttpClientCall:a.ts:get:3" [.name "total"] :=
    ⟨_, List.mem_cons_self, by decide +kernel⟩
  have filed : (ContractSurface.fromIndex twoCalls).consumers.entries.map
      (fun entry => decide ([PathSegment.name "total"] ∈ entry.2.reads)) = [false] := by
    decide +kernel
  have member := SortedMap.mem_entries.mpr found
  have read := reads _ recorded
  have seen := List.mem_map_of_mem (f := fun entry : ConsumerKey × ConsumerDef =>
    decide ([PathSegment.name "total"] ∈ entry.2.reads)) member
  rw [filed, List.mem_singleton, decide_eq_false_iff_not] at seen
  exact seen read

end Lain.Contracts
