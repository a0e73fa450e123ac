import Mathlib
import Lain.Contracts.Diff

/-!
# What the pairing of endpoints gets right

The pass pairs no endpoint twice and stays inside one service, and reports as
removed and added exactly what it left over.
-/

namespace Lain.Contracts

open Foundation Federation

variable {base head : ContractSurface} {files : ChangedFilesSource}

structure PairingSound (base head : ContractSurface) (files : ChangedFilesSource) : Prop where
  /-- No endpoint of the base is paired twice. -/
  sources : ((pairEndpoints base head).pairs.map Prod.fst).Nodup
  /-- No endpoint of the head is paired twice. -/
  targets : ((pairEndpoints base head).pairs.map Prod.snd).Nodup
  /-- The two sides of a pair belong to the two surfaces and to one service. -/
  services : ∀ pair ∈ (pairEndpoints base head).pairs,
    pair.1 ∈ base.endpoints.keys ∧ pair.2 ∈ head.endpoints.keys ∧
      pair.1.service = pair.2.service
  /-- An endpoint of both surfaces is paired with itself. -/
  itself : ∀ id ∈ base.endpoints.keys, id ∈ head.endpoints.keys →
    (id, id) ∈ (pairEndpoints base head).pairs
  /-- No change reports an endpoint of both surfaces as removed, added or moved. -/
  unreported : ∀ id ∈ base.endpoints.keys, id ∈ head.endpoints.keys → ∀ other,
    ⟨id.service, .endpointRemoved id.key⟩ ∉ diffContracts base head files ∧
    ⟨id.service, .endpointAdded id.key⟩ ∉ diffContracts base head files ∧
    ⟨id.service, .pathChanged id.key other⟩ ∉ diffContracts base head files ∧
    ⟨id.service, .pathChanged other id.key⟩ ∉ diffContracts base head files ∧
    ⟨id.service, .methodChanged id.key other⟩ ∉ diffContracts base head files ∧
    ⟨id.service, .methodChanged other id.key⟩ ∉ diffContracts base head files
  /-- Exactly the unpaired endpoints of the base are reported as removed. -/
  removed : ∀ service key, ⟨service, .endpointRemoved key⟩ ∈ diffContracts base head files ↔
    ⟨service, key⟩ ∈ base.endpoints.keys ∧
      ⟨service, key⟩ ∉ (pairEndpoints base head).pairs.map Prod.fst
  /-- Exactly the unpaired endpoints of the head are reported as added. -/
  added : ∀ service key, ⟨service, .endpointAdded key⟩ ∈ diffContracts base head files ↔
    ⟨service, key⟩ ∈ head.endpoints.keys ∧
      ⟨service, key⟩ ∉ (pairEndpoints base head).pairs.map Prod.snd

def free (base head : ContractSurface) (earlier : List (EndpointId × EndpointDef)) :
    List (EndpointId × EndpointDef) :=
  earlier.foldl (fun left entry =>
      if entry.1 ∈ head.endpoints.keys then left else left.eraseP (replaces entry))
    (head.endpoints.entries.filter fun entry => decide (entry.1 ∉ base.endpoints.keys))

def Spared (base head : ContractSurface) (earlier : List (EndpointId × EndpointDef))
    (entry : EndpointId × EndpointDef) (later : List (EndpointId × EndpointDef)) : Prop :=
  entry.1 ∉ head.endpoints.keys → ∀ common ∈ head.endpoints.entries,
    common.1 ∈ later.map Prod.fst → replaces entry common = true →
      ∃ fresh ∈ free base head earlier, replaces entry fresh = true ∧ fresh.1 < common.1

def Undisplaced (base head : ContractSurface) : Prop :=
  ∀ earlier entry later, base.endpoints.entries = earlier ++ entry :: later →
    Spared base head earlier entry later

/-! ### The pass -/

/-- No endpoint of both surfaces has been taken by another one. -/
def Kept (base : ContractSurface) (state : Pairing) : Prop :=
  ∀ pair ∈ state.pairs, pair.2 ∈ base.endpoints.keys → pair.1 = pair.2

def unpairedFresh (base head : ContractSurface) (state : Pairing) :
    List (EndpointId × EndpointDef) :=
  head.endpoints.entries.filter fun entry =>
    decide (entry.1 ∉ base.endpoints.keys) && decide (entry.1 ∉ state.pairs.map Prod.snd)

structure Passed (base head : ContractSurface) (seen : List (EndpointId × EndpointDef))
    (state : Pairing) : Prop where
  seenSources : ∀ pair ∈ state.pairs, pair.1 ∈ seen.map Prod.fst
  headTargets : ∀ pair ∈ state.pairs, pair.2 ∈ head.endpoints.keys
  services : ∀ pair ∈ state.pairs, pair.1.service = pair.2.service
  sources : (state.pairs.map Prod.fst).Nodup
  targets : (state.pairs.map Prod.snd).Nodup
  baseLeft : ∀ id, state.baseRemaining.get? id =
    if id ∈ state.pairs.map Prod.fst then none else base.endpoints.get? id
  headLeft : ∀ id, state.headRemaining.get? id =
    if id ∈ state.pairs.map Prod.snd then none else head.endpoints.get? id
  itself : Kept base state → ∀ id ∈ seen.map Prod.fst, id ∈ head.endpoints.keys →
    (id, id) ∈ state.pairs
  fresh : Kept base state → unpairedFresh base head state = free base head seen

theorem Passed.start : Passed base head []
    { baseRemaining := base.endpoints, headRemaining := head.endpoints } where
  seenSources := by simp
  headTargets := by simp
  services := by simp
  sources := by simp
  targets := by simp
  baseLeft := by simp
  headLeft := by simp
  itself := by simp
  fresh := by
    intro _
    simp [unpairedFresh, free]

section Turn

variable {seen later : List (EndpointId × EndpointDef)} {entry : EndpointId × EndpointDef}
  {state : Pairing}

private theorem unseen (split : base.endpoints.entries = seen ++ entry :: later) :
    ∀ id ∈ seen.map Prod.fst, id ≠ entry.1 ∧ id ∉ later.map Prod.fst := by
  have nodup := base.endpoints.nodup_keys
  unfold SortedMap.keys at nodup
  rw [split, List.map_append, List.map_cons] at nodup
  have apart := (List.nodup_append.mp nodup).2.2
  exact fun id member => ⟨apart id member _ List.mem_cons_self,
    fun after => apart id member id (List.mem_cons_of_mem _ after) rfl⟩

private theorem mem_base (split : base.endpoints.entries = seen ++ entry :: later)
    (id : EndpointId) : id ∈ base.endpoints.keys ↔
      id ∈ seen.map Prod.fst ∨ id = entry.1 ∨ id ∈ later.map Prod.fst := by
  unfold SortedMap.keys
  rw [split]
  simp only [List.map_append, List.map_cons, List.mem_append, List.mem_cons]

theorem Passed.isSome_headRemaining (passed : Passed base head seen state) (id : EndpointId) :
    (state.headRemaining.get? id).isSome = true ↔
      id ∈ head.endpoints.keys ∧ id ∉ state.pairs.map Prod.snd := by
  rw [passed.headLeft, SortedMap.mem_keys]
  split <;> simp_all

theorem Passed.pairOne_eq (passed : Passed base head seen state)
    (split : base.endpoints.entries = seen ++ entry :: later) :
    pairOne head state entry =
      match partner head state entry with
      | some id =>
        { pairs := state.pairs ++ [(entry.1, id)]
          baseRemaining := state.baseRemaining.erase entry.1
          headRemaining := state.headRemaining.erase id }
      | none => state := by
  have unpaired : entry.1 ∉ state.pairs.map Prod.fst := by
    intro member
    obtain ⟨pair, paired, same⟩ := List.mem_map.mp member
    exact (unseen split _ (passed.seenSources pair paired)).1 same
  have present : base.endpoints.get? entry.1 = some entry.2 :=
    SortedMap.mem_entries.mp (split ▸ List.mem_append_right _ List.mem_cons_self)
  unfold pairOne
  rw [passed.baseLeft, if_neg unpaired, present]
  rfl

theorem Passed.partner_spec (passed : Passed base head seen state) {id : EndpointId}
    (found : partner head state entry = some id) :
    id ∈ head.endpoints.keys ∧ id ∉ state.pairs.map Prod.snd ∧
      entry.1.service = id.service := by
  unfold partner at found
  split at found
  next here =>
    obtain rfl := Option.some.inj found
    obtain ⟨inHead, unpaired⟩ := (passed.isSome_headRemaining _).mp here
    exact ⟨inHead, unpaired, rfl⟩
  next =>
    obtain ⟨candidate, first, rfl⟩ := Option.map_eq_some_iff.mp found
    have fits := List.find?_some first
    simp only [replaces, Bool.and_eq_true, decide_eq_true_eq] at fits
    obtain ⟨inHead, unpaired⟩ := (passed.isSome_headRemaining _).mp fits.1
    exact ⟨inHead, unpaired, fits.2.1.symm⟩

theorem Passed.partner_common (passed : Passed base head seen state)
    (kept : Kept base state) (split : base.endpoints.entries = seen ++ entry :: later)
    (inHead : entry.1 ∈ head.endpoints.keys) : partner head state entry = some entry.1 := by
  have unpaired : entry.1 ∉ state.pairs.map Prod.snd := by
    intro member
    obtain ⟨pair, paired, same⟩ := List.mem_map.mp member
    have inBase : pair.2 ∈ base.endpoints.keys :=
      same ▸ (mem_base split _).mpr (Or.inr (Or.inl rfl))
    exact (unseen split _ (passed.seenSources pair paired)).1
      ((kept pair paired inBase).trans same)
  unfold partner
  rw [if_pos ((passed.isSome_headRemaining _).mpr ⟨inHead, unpaired⟩)]

theorem pairs_pairOne (head : ContractSurface) (state : Pairing)
    (entry : EndpointId × EndpointDef) : state.pairs ⊆ (pairOne head state entry).pairs := by
  unfold pairOne
  split
  · exact List.Subset.refl _
  · split
    · exact List.subset_append_left _ _
    · exact List.Subset.refl _

theorem Kept.of_pairOne (kept : Kept base (pairOne head state entry)) : Kept base state :=
  fun pair paired => kept pair (pairs_pairOne head state entry paired)

theorem free_append (base head : ContractSurface) (seen : List (EndpointId × EndpointDef))
    (entry : EndpointId × EndpointDef) :
    free base head (seen ++ [entry]) =
      if entry.1 ∈ head.endpoints.keys then free base head seen
      else (free base head seen).eraseP (replaces entry) := by
  unfold free
  rw [List.foldl_append]
  rfl

private theorem find_least {entries : List (EndpointId × EndpointDef)}
    (sorted : entries.Pairwise fun a b => a.1 < b.1) {fits : EndpointId × EndpointDef → Bool}
    {found other : EndpointId × EndpointDef} (first : entries.find? fits = some found)
    (member : other ∈ entries) (fit : fits other = true) : found.1 ≤ other.1 := by
  obtain ⟨_, before, after, rfl, unfit⟩ := List.find?_eq_some_iff_append.mp first
  rcases List.mem_append.mp member with earlier | here
  · simp [fit] at unfit
    exact absurd fit (by simpa using unfit _ _ earlier)
  · rcases List.mem_cons.mp here with rfl | beyond
    · exact le_rfl
    · exact ((List.pairwise_cons.mp (List.pairwise_append.mp sorted).2.1).1 _ beyond).le

private theorem eraseP_filter {entries : List (EndpointId × EndpointDef)}
    (sorted : entries.Pairwise fun a b => a.1 < b.1)
    (keep : EndpointId × EndpointDef → Bool) {unpaired fits : EndpointId × EndpointDef → Bool}
    (within : ∀ e, keep e = true → unpaired e = true) {found : EndpointId × EndpointDef}
    (first : entries.find? (fun e => unpaired e && fits e) = some found) (kept : keep found = true) :
    (entries.filter keep).eraseP fits =
      entries.filter fun e => keep e && decide (e.1 ≠ found.1) := by
  obtain ⟨fit, before, after, rfl, unfit⟩ := List.find?_eq_some_iff_append.mp first
  rw [Bool.and_eq_true] at fit
  have ordered := List.pairwise_append.mp sorted
  have skip : ∀ e ∈ before.filter keep, ¬ fits e = true := by
    intro e member fits
    obtain ⟨member, keeps⟩ := List.mem_filter.mp member
    have := unfit e member
    simp [within e keeps, fits] at this
  have beforeApart : ∀ e ∈ before, (keep e && decide (e.1 ≠ found.1)) = keep e := by
    intro e member
    have apart := (ordered.2.2 e member found List.mem_cons_self).ne
    simp [apart]
  have afterApart : ∀ e ∈ after, (keep e && decide (e.1 ≠ found.1)) = keep e := by
    intro e member
    have apart := ((List.pairwise_cons.mp ordered.2.1).1 e member).ne'
    simp [apart]
  rw [List.filter_append, List.filter_cons_of_pos kept, List.eraseP_append_right _ skip,
    List.eraseP_cons_of_pos fit.2, List.filter_append,
    List.filter_cons_of_neg (by simp), List.filter_congr beforeApart,
    List.filter_congr afterApart]

theorem Passed.partner_lacking (passed : Passed base head seen state)
    (lacking : entry.1 ∉ head.endpoints.keys) :
    partner head state entry = (head.endpoints.entries.find? fun candidate =>
      decide (candidate.1 ∉ state.pairs.map Prod.snd) && replaces entry candidate).map
        Prod.fst := by
  have absent : ¬ (state.headRemaining.get? entry.1).isSome = true := fun present =>
    lacking ((passed.isSome_headRemaining _).mp present).1
  unfold partner
  rw [if_neg absent]
  refine congrArg (Option.map Prod.fst) (List.find?_congr fun candidate member => ?_)
  have inHead : candidate.1 ∈ head.endpoints.keys := List.mem_map_of_mem member
  have same : (state.headRemaining.get? candidate.1).isSome =
      decide (candidate.1 ∉ state.pairs.map Prod.snd) := by
    rw [Bool.eq_iff_iff, passed.isSome_headRemaining, decide_eq_true_eq]
    exact and_iff_right inHead
  rw [same]

theorem Passed.later_unpaired (passed : Passed base head seen state) (kept : Kept base state)
    (split : base.endpoints.entries = seen ++ entry :: later) {id : EndpointId}
    (after : id ∈ later.map Prod.fst) : id ∉ state.pairs.map Prod.snd := by
  intro member
  obtain ⟨pair, paired, rfl⟩ := List.mem_map.mp member
  have own := kept pair paired ((mem_base split _).mpr (Or.inr (Or.inr after)))
  exact (unseen split _ (passed.seenSources pair paired)).2 (own ▸ after)

/-- **One turn keeps every endpoint its own partner exactly when the entry is spared.** -/
theorem Passed.kept_iff (passed : Passed base head seen state) (kept : Kept base state)
    (split : base.endpoints.entries = seen ++ entry :: later) :
    Kept base (pairOne head state entry) ↔ Spared base head seen entry later := by
  rw [passed.pairOne_eq split]
  by_cases inHead : entry.1 ∈ head.endpoints.keys
  · rw [passed.partner_common kept split inHead]
    refine iff_of_true ?_ fun lacking => absurd inHead lacking
    intro pair paired inBase
    rcases List.mem_append.mp paired with old | new
    · exact kept pair old inBase
    · rw [List.mem_singleton.mp new]
  · have within : ∀ candidate ∈ free base head seen, candidate ∈ head.endpoints.entries ∧
        candidate.1 ∉ base.endpoints.keys ∧ candidate.1 ∉ state.pairs.map Prod.snd := by
      intro candidate member
      rw [← passed.fresh kept] at member
      obtain ⟨member, fits⟩ := List.mem_filter.mp member
      rw [Bool.and_eq_true, decide_eq_true_eq, decide_eq_true_eq] at fits
      exact ⟨member, fits⟩
    rw [passed.partner_lacking inHead]
    cases search : head.endpoints.entries.find? fun candidate =>
        decide (candidate.1 ∉ state.pairs.map Prod.snd) && replaces entry candidate with
    | none =>
      refine iff_of_true kept fun _ common member after fits => ?_
      have unpaired := passed.later_unpaired kept split after
      exact absurd (List.find?_eq_none.mp search common member)
        (by simp only [unpaired, fits, not_false_eq_true, decide_true, Bool.and_self,
          not_true_eq_false])
    | some found =>
      have member := List.mem_of_find?_eq_some search
      have fits := List.find?_some search
      rw [Bool.and_eq_true, decide_eq_true_eq] at fits
      have foundInHead : found.1 ∈ head.endpoints.keys := List.mem_map_of_mem member
      have untaken : Kept base
            { pairs := state.pairs ++ [(entry.1, found.1)]
              baseRemaining := state.baseRemaining.erase entry.1
              headRemaining := state.headRemaining.erase found.1 } ↔
          found.1 ∉ base.endpoints.keys := by
        constructor
        · intro all inBase
          have same := all (entry.1, found.1)
            (List.mem_append_right _ List.mem_cons_self) inBase
          exact inHead (same ▸ foundInHead)
        · intro fresh pair paired inBase
          rcases List.mem_append.mp paired with old | new
          · exact kept pair old inBase
          · rw [List.mem_singleton.mp new] at inBase
            exact absurd inBase fresh
      refine untaken.trans ⟨fun fresh _ common inEntries after replaced => ?_,
        fun spared inBase => ?_⟩
      · have unpaired := passed.later_unpaired kept split after
        have least := find_least head.endpoints.sorted search inEntries
          (by simp only [unpaired, replaced, not_false_eq_true, decide_true, Bool.and_self])
        have apart : found.1 ≠ common.1 := fun same =>
          fresh (same ▸ (mem_base split _).mpr (Or.inr (Or.inr after)))
        refine ⟨found, ?_, fits.2, lt_of_le_of_ne least apart⟩
        rw [← passed.fresh kept]
        exact List.mem_filter.mpr ⟨member, by simp [fresh, fits.1]⟩
      · have after : found.1 ∈ later.map Prod.fst := by
          rcases (mem_base split _).mp inBase with before | here | after
          · have own := passed.itself kept _ before foundInHead
            exact absurd (List.mem_map_of_mem (f := Prod.snd) own) fits.1
          · exact absurd (here ▸ foundInHead) inHead
          · exact after
        obtain ⟨fresh, free, replaced, before⟩ := spared inHead found member after fits.2
        obtain ⟨inEntries, _, unpaired⟩ := within fresh free
        exact absurd before (find_least head.endpoints.sorted search inEntries
          (by simp only [unpaired, replaced, not_false_eq_true, decide_true,
            Bool.and_self])).not_gt

theorem Passed.fresh_pairOne (passed : Passed base head seen state)
    (split : base.endpoints.entries = seen ++ entry :: later)
    (kept : Kept base (pairOne head state entry)) :
    unpairedFresh base head (pairOne head state entry) =
      free base head (seen ++ [entry]) := by
  have before := kept.of_pairOne
  have inBase : entry.1 ∈ base.endpoints.keys := (mem_base split _).mpr (Or.inr (Or.inl rfl))
  rw [free_append, ← passed.fresh before]
  rw [passed.pairOne_eq split] at kept ⊢
  by_cases inHead : entry.1 ∈ head.endpoints.keys
  · rw [passed.partner_common before split inHead, if_pos inHead]
    refine List.filter_congr fun candidate _ => ?_
    by_cases isFresh : candidate.1 ∈ base.endpoints.keys
    · simp [isFresh]
    · have apart : candidate.1 ≠ entry.1 := fun same => isFresh (same ▸ inBase)
      simp [isFresh, apart]
  · rw [if_neg inHead]
    rw [passed.partner_lacking inHead] at kept ⊢
    cases search : head.endpoints.entries.find? fun candidate =>
        decide (candidate.1 ∉ state.pairs.map Prod.snd) && replaces entry candidate with
    | none =>
      refine (List.eraseP_of_forall_not fun candidate member fits => ?_).symm
      obtain ⟨member, isFresh⟩ := List.mem_filter.mp member
      have unpaired : candidate.1 ∉ state.pairs.map Prod.snd :=
        of_decide_eq_true (Bool.and_eq_true _ _ ▸ isFresh).2
      exact List.find?_eq_none.mp search candidate member
        (by simp only [unpaired, fits, not_false_eq_true, decide_true, Bool.and_self])
    | some found =>
      rw [search] at kept
      have fits := List.find?_some search
      rw [Bool.and_eq_true, decide_eq_true_eq] at fits
      have foundInHead : found.1 ∈ head.endpoints.keys :=
        List.mem_map_of_mem (List.mem_of_find?_eq_some search)
      have isFresh : found.1 ∉ base.endpoints.keys := by
        intro present
        have same := kept (entry.1, found.1)
          (List.mem_append_right _ List.mem_cons_self) present
        exact inHead (same ▸ foundInHead)
      have erased := eraseP_filter head.endpoints.sorted
        (fun e => decide (e.1 ∉ base.endpoints.keys) &&
          decide (e.1 ∉ state.pairs.map Prod.snd))
        (fun e keeps => (Bool.and_eq_true _ _ ▸ keeps).2) search (by simp [isFresh, fits.1])
      refine Eq.trans ?_ erased.symm
      refine List.filter_congr fun candidate _ => ?_
      simp only [Option.map_some, List.map_append, List.map_cons, List.map_nil,
        List.mem_append, List.mem_singleton, not_or, Bool.decide_and, Bool.and_assoc, ne_eq]

/-- **One turn of the pass.** -/
theorem Passed.pairOne (passed : Passed base head seen state)
    (split : base.endpoints.entries = seen ++ entry :: later) :
    Passed base head (seen ++ [entry]) (pairOne head state entry) := by
  have fresh := passed.fresh_pairOne split
  have common := fun kept : Kept base state => passed.partner_common kept split
  have same := passed.pairOne_eq split
  have grown := pairs_pairOne head state entry
  cases found : partner head state entry with
  | none =>
    have still : Contracts.pairOne head state entry = state := by rw [same, found]
    rw [still] at fresh ⊢
    refine { passed with
      seenSources := fun pair paired => ?_
      itself := fun kept id member inHead => ?_
      fresh := fresh }
    · rw [List.map_append]
      exact List.mem_append_left _ (passed.seenSources pair paired)
    · rw [List.map_append] at member
      rcases List.mem_append.mp member with before | here
      · exact passed.itself kept id before inHead
      · rw [List.mem_singleton.mp here] at inHead
        rw [common kept inHead] at found
        cases found
  | some id =>
    obtain ⟨inHead, unpaired, service⟩ := passed.partner_spec found
    have next : Contracts.pairOne head state entry =
        { pairs := state.pairs ++ [(entry.1, id)]
          baseRemaining := state.baseRemaining.erase entry.1
          headRemaining := state.headRemaining.erase id } := by rw [same, found]
    have entryUnpaired : entry.1 ∉ state.pairs.map Prod.fst := by
      intro member
      obtain ⟨pair, paired, here⟩ := List.mem_map.mp member
      exact (unseen split _ (passed.seenSources pair paired)).1 here
    rw [next] at fresh grown ⊢
    refine
      { seenSources := fun pair paired => ?_
        headTargets := fun pair paired => ?_
        services := fun pair paired => ?_
        sources := ?_
        targets := ?_
        baseLeft := fun k => ?_
        headLeft := fun k => ?_
        itself := fun kept k member present => ?_
        fresh := fresh }
    · rw [List.map_append]
      rcases List.mem_append.mp paired with old | new
      · exact List.mem_append_left _ (passed.seenSources pair old)
      · rw [List.mem_singleton.mp new]
        exact List.mem_append_right _ List.mem_cons_self
    · rcases List.mem_append.mp paired with old | new
      · exact passed.headTargets pair old
      · rw [List.mem_singleton.mp new]
        exact inHead
    · rcases List.mem_append.mp paired with old | new
      · exact passed.services pair old
      · rw [List.mem_singleton.mp new]
        exact service
    · rw [List.map_append]
      exact passed.sources.append (List.nodup_singleton _)
        (List.disjoint_singleton.mpr entryUnpaired)
    · rw [List.map_append]
      exact passed.targets.append (List.nodup_singleton _)
        (List.disjoint_singleton.mpr unpaired)
    · rw [SortedMap.get?_erase, passed.baseLeft]
      by_cases here : k = entry.1
      · simp [here]
      · simp only [here, ↓reduceIte, List.map_append, List.map_cons, List.map_nil,
          List.mem_append, List.mem_singleton, or_false]
    · rw [SortedMap.get?_erase, passed.headLeft]
      by_cases here : k = id
      · simp [here]
      · simp only [here, ↓reduceIte, List.map_append, List.map_cons, List.map_nil,
          List.mem_append, List.mem_singleton, or_false]
    · have before : Kept base state := fun pair paired => kept pair (grown paired)
      rw [List.map_append] at member
      rcases List.mem_append.mp member with old | here
      · exact grown (passed.itself before k old present)
      · rw [List.mem_singleton.mp here] at present ⊢
        rw [common before present] at found
        rw [Option.some.inj found]
        exact List.mem_append_right _ List.mem_cons_self

end Turn

theorem passed_pairEndpoints (base head : ContractSurface) :
    Passed base head base.endpoints.entries (pairEndpoints base head) := by
  have run : ∀ later seen state, base.endpoints.entries = seen ++ later →
      Passed base head seen state →
        Passed base head (seen ++ later) (later.foldl (pairOne head) state) := by
    intro later
    induction later with
    | nil =>
      intro seen state _ passed
      rwa [List.append_nil]
    | cons entry later ih =>
      intro seen state split passed
      have next := ih (seen ++ [entry]) _ (by rw [split, List.append_assoc]; rfl)
        (passed.pairOne split)
      rwa [List.append_assoc] at next
  exact run _ [] _ rfl Passed.start

private theorem kept_foldl : ∀ (later seen : List (EndpointId × EndpointDef)) (state : Pairing),
    base.endpoints.entries = seen ++ later → Passed base head seen state → Kept base state →
      (Kept base (later.foldl (pairOne head) state) ↔
        ∀ between entry after, later = between ++ entry :: after →
          Spared base head (seen ++ between) entry after) := by
  intro later
  induction later with
  | nil =>
    intro seen state _ _ kept
    refine iff_of_true kept fun between entry after empty => ?_
    simp at empty
  | cons entry later ih =>
    intro seen state split passed kept
    have turn := passed.kept_iff kept split
    have rest := ih (seen ++ [entry]) _ (by rw [split, List.append_assoc]; rfl)
      (passed.pairOne split)
    have monotone : ∀ (later : List (EndpointId × EndpointDef)) (state : Pairing),
        Kept base (later.foldl (pairOne head) state) → Kept base state := by
      intro later
      induction later with
      | nil => exact fun _ kept => kept
      | cons entry later ih => exact fun _ kept => (ih _ kept).of_pairOne
    constructor
    · intro final between other after shape
      have next := monotone later _ final
      rcases List.cons_eq_append_iff.mp shape with ⟨rfl, same⟩ | ⟨between, rfl, same⟩
      · obtain ⟨rfl, rfl⟩ := List.cons.inj same
        rw [List.append_nil]
        exact turn.mp next
      · have spared := (rest next).mp final between other after same
        rwa [List.append_assoc] at spared
    · intro spared
      have here := spared [] entry later rfl
      rw [List.append_nil] at here
      refine (rest (turn.mpr here)).mpr fun between other after shape => ?_
      rw [List.append_assoc]
      exact spared (entry :: between) other after (congrArg (entry :: ·) shape)

/-- **No endpoint of both surfaces is taken by another exactly when none can be.** -/
theorem kept_iff_undisplaced (base head : ContractSurface) :
    Kept base (pairEndpoints base head) ↔ Undisplaced base head :=
  kept_foldl base.endpoints.entries [] _ rfl Passed.start fun _ paired => by cases paired

/-! ### What the comparison reports of whole endpoints -/

def ChangeKind.isMove : ChangeKind → Bool
  | .pathChanged .. | .methodChanged .. | .endpointRemoved _ | .endpointAdded _ => true
  | _ => false

theorem forall_mem_attributeChanges {P : ChangeKind → Prop} {endpoint : EndpointId}
    {direction : Direction} {path : JsonPath} {old new : FieldMeta}
    (type : ∀ before after required,
      P (.fieldTypeChanged endpoint direction path before after required))
    (required : ∀ now, P (.requirednessChanged endpoint direction path now))
    (nullable : ∀ now, P (.nullabilityChanged endpoint direction path now))
    (lost : ∀ value, P (.enumValueRemoved endpoint direction path value))
    (gained : ∀ value, P (.enumValueAdded endpoint direction path value)) :
    ∀ kind ∈ attributeChanges endpoint direction path old new, P kind := by
  have single : ∀ {p : Prop} [Decidable p] {k kind : ChangeKind}, P k →
      kind ∈ (if p then [k] else []) → P kind := by
    intro p _ k kind holds inside
    split at inside
    · rwa [List.mem_singleton.mp inside]
    · cases inside
  intro kind member
  unfold attributeChanges at member
  rcases List.mem_append.mp member with member | enums
  · rcases List.mem_append.mp member with member | nulls
    · rcases List.mem_append.mp member with types | requires
      · exact single (type _ _ _) types
      · exact single (required _) requires
    · exact single (nullable _) nulls
  · unfold enumChanges at enums
    split at enums
    · rcases List.mem_append.mp enums with before | after
      · obtain ⟨value, _, rfl⟩ := List.mem_map.mp before
        exact lost value
      · obtain ⟨value, _, rfl⟩ := List.mem_map.mp after
        exact gained value
    · cases enums
    · rw [List.mem_singleton.mp enums]
      exact type _ _ _

theorem not_isMove_attributeChanges {endpoint : EndpointId} {direction : Direction}
    {path : JsonPath} {old new : FieldMeta} {kind : ChangeKind}
    (member : kind ∈ attributeChanges endpoint direction path old new) : kind.isMove = false :=
  forall_mem_attributeChanges (P := fun kind => kind.isMove = false) (fun _ _ _ => rfl)
    (fun _ => rfl) (fun _ => rfl) (fun _ => rfl) (fun _ => rfl) kind member

theorem mem_diffFields {out : List Change} {endpoint : EndpointId} {direction : Direction}
    {old new : Option (SortedMap JsonPath FieldMeta)} {change : Change}
    (move : change.kind.isMove = true) :
    change ∈ diffFields out endpoint direction old new ↔ change ∈ out := by
  have foreign : ∀ {kind : ChangeKind}, kind.isMove = false →
      change ≠ ⟨endpoint.service, kind⟩ := by
    rintro kind field rfl
    rw [field] at move
    cases move
  have whole : ∀ renamed, partOfRename endpoint direction renamed change.kind = false := by
    intro renamed
    cases kind : change.kind <;> first | rfl | (rw [kind] at move; cases move)
  unfold diffFields
  simp only [List.mem_append, List.mem_filter, whole, Bool.not_false, and_true, List.mem_map,
    List.mem_flatMap]
  constructor
  · rintro ((((inside | ⟨_, _, same⟩) | ⟨_, _, same⟩) | ⟨_, _, same⟩) | ⟨entry, _, altered⟩)
    · exact inside
    · exact absurd same.symm (foreign rfl)
    · exact absurd same.symm (foreign rfl)
    · exact absurd same.symm (foreign rfl)
    · split at altered
      · obtain ⟨kind, changed, same⟩ := List.mem_map.mp altered
        exact absurd same.symm (foreign (not_isMove_attributeChanges changed))
      · cases altered
  · exact fun inside => Or.inl (Or.inl (Or.inl (Or.inl inside)))

theorem mem_diffPair {changes : List Change} {pair : EndpointId × EndpointId} {change : Change}
    (inBase : pair.1 ∈ base.endpoints.keys) (inHead : pair.2 ∈ head.endpoints.keys)
    (move : change.kind.isMove = true) :
    change ∈ diffPair files base head changes pair ↔ change ∈ changes ∨ change ∈ moved pair := by
  obtain ⟨baseDef, ofBase⟩ := Option.isSome_iff_exists.mp (SortedMap.mem_keys.mp inBase)
  obtain ⟨headDef, ofHead⟩ := Option.isSome_iff_exists.mp (SortedMap.mem_keys.mp inHead)
  have foreign : ∀ {kind : ChangeKind}, kind.isMove = false →
      change ∉ [(⟨pair.2.service, kind⟩ : Change)] := by
    intro kind field member
    rw [List.mem_singleton.mp member, field] at move
    cases move
  have fields : change ∈ [Direction.request, .response, .payload].foldl (fun out direction =>
      diffFields out pair.2 direction (baseDef.schemas.get? direction)
        (headDef.schemas.get? direction)) (changes ++ moved pair) ↔
      change ∈ changes ∨ change ∈ moved pair := by
    simp only [List.foldl_cons, List.foldl_nil, mem_diffFields move, List.mem_append]
  unfold diffPair
  rw [ofBase, ofHead]
  dsimp only
  generalize [Direction.request, .response, .payload].foldl (fun out direction =>
    diffFields out pair.2 direction (baseDef.schemas.get? direction)
      (headDef.schemas.get? direction)) (changes ++ moved pair) = compared at fields ⊢
  rw [← fields]
  split
  · rw [List.mem_append, or_iff_left (foreign rfl)]
  · split
    · rw [List.mem_append, or_iff_left (foreign rfl)]
    · exact Iff.rfl

/-- **The changes about whole endpoints**: what the pass left over and the moves of the
pairs. -/
theorem mem_diffContracts {change : Change} (move : change.kind.isMove = true) :
    change ∈ diffContracts base head files ↔
      change ∈ unpaired (pairEndpoints base head) ∨
        ∃ pair ∈ (pairEndpoints base head).pairs, change ∈ moved pair := by
  have passed := passed_pairEndpoints base head
  have fold : ∀ (pairs : List (EndpointId × EndpointId)) (changes : List Change),
      (∀ pair ∈ pairs, pair.1 ∈ base.endpoints.keys ∧ pair.2 ∈ head.endpoints.keys) →
        (change ∈ pairs.foldl (diffPair files base head) changes ↔
          change ∈ changes ∨ ∃ pair ∈ pairs, change ∈ moved pair) := by
    intro pairs
    induction pairs with
    | nil => simp
    | cons pair rest ih =>
      intro changes present
      obtain ⟨inBase, inHead⟩ := present pair List.mem_cons_self
      rw [List.foldl_cons, ih _ fun other member => present other (List.mem_cons_of_mem _ member),
        mem_diffPair inBase inHead move, or_assoc, List.exists_mem_cons_iff]
  unfold diffContracts sortChanges
  rw [List.mem_mergeSort]
  exact fold _ _ fun pair paired => ⟨passed.seenSources pair paired, passed.headTargets pair paired⟩

theorem mem_moved {pair : EndpointId × EndpointId} {change : Change}
    (service : pair.1.service = pair.2.service) :
    change ∈ moved pair ↔
      pair.1.key ≠ pair.2.key ∧
        change = ⟨pair.2.service, .pathChanged pair.1.key pair.2.key⟩ := by
  unfold moved
  by_cases same : pair.1.key = pair.2.key
  · have equal : pair.1 = pair.2 := by
      cases left : pair.1
      cases right : pair.2
      simp_all
    simp [equal]
  · simp [same]

theorem mem_unpaired {pairing : Pairing} {service : ServiceName} {key : ContractKey} :
    (⟨service, .endpointRemoved key⟩ ∈ unpaired pairing ↔
        ⟨service, key⟩ ∈ pairing.baseRemaining.keys) ∧
      (⟨service, .endpointAdded key⟩ ∈ unpaired pairing ↔
        ⟨service, key⟩ ∈ pairing.headRemaining.keys) := by
  unfold unpaired
  constructor <;> simp only [List.mem_append, List.mem_map, Change.mk.injEq, reduceCtorEq,
    ChangeKind.endpointRemoved.injEq, ChangeKind.endpointAdded.injEq, and_false, exists_false,
    or_false, false_or]
  · exact ⟨fun ⟨id, member, ofService, ofKey⟩ => ofService ▸ ofKey ▸ member,
      fun member => ⟨_, member, rfl, rfl⟩⟩
  · exact ⟨fun ⟨id, member, ofService, ofKey⟩ => ofService ▸ ofKey ▸ member,
      fun member => ⟨_, member, rfl, rfl⟩⟩

/-! ### When the promises hold -/

theorem endpointRemoved_iff (service : ServiceName) (key : ContractKey) :
    ⟨service, .endpointRemoved key⟩ ∈ diffContracts base head files ↔
      ⟨service, key⟩ ∈ base.endpoints.keys ∧
        ⟨service, key⟩ ∉ (pairEndpoints base head).pairs.map Prod.fst := by
  have passed := passed_pairEndpoints base head
  rw [mem_diffContracts rfl, mem_unpaired.1, SortedMap.mem_keys, passed.baseLeft,
    SortedMap.mem_keys]
  have unmoved : ¬ ∃ pair ∈ (pairEndpoints base head).pairs,
      (⟨service, .endpointRemoved key⟩ : Change) ∈ moved pair := by
    rintro ⟨pair, paired, inside⟩
    have same := ((mem_moved (passed.services pair paired)).mp inside).2
    cases (Change.mk.inj same).2
  rw [or_iff_left unmoved]
  split <;> simp_all

theorem endpointAdded_iff (service : ServiceName) (key : ContractKey) :
    ⟨service, .endpointAdded key⟩ ∈ diffContracts base head files ↔
      ⟨service, key⟩ ∈ head.endpoints.keys ∧
        ⟨service, key⟩ ∉ (pairEndpoints base head).pairs.map Prod.snd := by
  have passed := passed_pairEndpoints base head
  rw [mem_diffContracts rfl, mem_unpaired.2, SortedMap.mem_keys, passed.headLeft,
    SortedMap.mem_keys]
  have unmoved : ¬ ∃ pair ∈ (pairEndpoints base head).pairs,
      (⟨service, .endpointAdded key⟩ : Change) ∈ moved pair := by
    rintro ⟨pair, paired, inside⟩
    have same := ((mem_moved (passed.services pair paired)).mp inside).2
    cases (Change.mk.inj same).2
  rw [or_iff_left unmoved]
  split <;> simp_all

theorem pathChanged_iff (service : ServiceName) (source target : ContractKey) :
    ⟨service, .pathChanged source target⟩ ∈ diffContracts base head files ↔
      (⟨service, source⟩, ⟨service, target⟩) ∈ (pairEndpoints base head).pairs ∧
        source ≠ target := by
  have passed := passed_pairEndpoints base head
  rw [mem_diffContracts rfl]
  have left : (⟨service, .pathChanged source target⟩ : Change) ∉
      unpaired (pairEndpoints base head) := by
    simp [unpaired]
  rw [or_iff_right left]
  constructor
  · rintro ⟨⟨⟨ofBase, old⟩, ofHead, new⟩, paired, inside⟩
    have oneService := passed.services _ paired
    obtain ⟨differ, same⟩ := (mem_moved oneService).mp inside
    obtain ⟨rfl, paths⟩ := Change.mk.inj same
    obtain ⟨rfl, rfl⟩ := ChangeKind.pathChanged.inj paths
    change ofBase = service at oneService
    subst oneService
    exact ⟨paired, differ⟩
  · rintro ⟨paired, differ⟩
    exact ⟨_, paired, (mem_moved (passed.services _ paired)).mpr ⟨differ, rfl⟩⟩

theorem methodChanged_not_mem (service : ServiceName) (source target : ContractKey) :
    ⟨service, .methodChanged source target⟩ ∉ diffContracts base head files := by
  have passed := passed_pairEndpoints base head
  rw [mem_diffContracts rfl]
  rintro (left | ⟨pair, paired, inside⟩)
  · simp [unpaired] at left
  · have same := ((mem_moved (passed.services pair paired)).mp inside).2
    cases (Change.mk.inj same).2

/-- **The comparison keeps its promises exactly when no endpoint can be displaced.** An
endpoint of the base that the head lacks must not come, in key order, before an endpoint of
both surfaces that shares a handler or an operation with it, unless it finds a free endpoint
that only the head has first. -/
theorem pairingSound_iff (base head : ContractSurface) (files : ChangedFilesSource) :
    PairingSound base head files ↔ Undisplaced base head := by
  have passed := passed_pairEndpoints base head
  rw [← kept_iff_undisplaced]
  constructor
  · intro sound pair paired inBase
    have own := sound.itself pair.2 inBase (passed.headTargets pair paired)
    have same := List.inj_on_of_nodup_map sound.targets paired own rfl
    exact congrArg Prod.fst same
  · intro kept
    have itself := passed.itself kept
    refine
      { sources := passed.sources
        targets := passed.targets
        services := fun pair paired => ⟨passed.seenSources pair paired,
          passed.headTargets pair paired, passed.services pair paired⟩
        itself := itself
        unreported := fun id inBase inHead other => ?_
        removed := endpointRemoved_iff
        added := endpointAdded_iff }
    have own := itself id inBase inHead
    refine ⟨fun reported => ?_, fun reported => ?_, fun reported => ?_, fun reported => ?_,
      methodChanged_not_mem _ _ _, methodChanged_not_mem _ _ _⟩
    · exact ((endpointRemoved_iff _ _).mp reported).2 (List.mem_map_of_mem (f := Prod.fst) own)
    · exact ((endpointAdded_iff _ _).mp reported).2 (List.mem_map_of_mem (f := Prod.snd) own)
    · obtain ⟨paired, differ⟩ := (pathChanged_iff _ _ _).mp reported
      have same := List.inj_on_of_nodup_map passed.sources paired own rfl
      exact differ (congrArg EndpointId.key (Prod.ext_iff.mp same).2).symm
    · obtain ⟨paired, differ⟩ := (pathChanged_iff _ _ _).mp reported
      have same := List.inj_on_of_nodup_map passed.targets paired own rfl
      exact differ (congrArg EndpointId.key (Prod.ext_iff.mp same).1)

private def handledBy (handler : SymbolKey) : EndpointDef where
  providers := [⟨"shop:HttpRoute:routes.py:r:0", some handler, none⟩]
  schemas := ∅
  hasSchema := false
  sourceFiles := ∅

private def twoRoutes : ContractSurface :=
  { endpoints := ((∅ : SortedMap EndpointId EndpointDef).insert
      ⟨"shop", .http (.known .get) "/a"⟩ (handledBy ⟨"shop", "app.py", none, "list"⟩)).insert
      ⟨"shop", .http (.known .get) "/b"⟩ (handledBy ⟨"shop", "app.py", none, "list"⟩) }

private def secondRoute : ContractSurface :=
  { endpoints := (∅ : SortedMap EndpointId EndpointDef).insert
      ⟨"shop", .http (.known .get) "/b"⟩ (handledBy ⟨"shop", "app.py", none, "list"⟩) }

/-- **A removed route takes the place of one that stays.** Of two routes of one handler the
first is removed; it is paired with the second, which the comparison reports as removed. -/
theorem pairingSound_fails : ¬ PairingSound twoRoutes secondRoute
    ⟨fun _ _ => ∅, fun _ _ _ => none, fun _ _ _ => .unchanged⟩ := by
  intro sound
  have own := sound.itself ⟨"shop", .http (.known .get) "/b"⟩ (by decide) (by decide)
  exact absurd own (by decide)

end Lain.Contracts
