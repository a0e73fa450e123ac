import Mathlib
import Lain.Federation.AnchorMiner
import Lain.Federation.GlobalIdCodec
import Lain.Foundation.Failing

/-!
# What a minting pass offers

Whatever the pass finds for a sighting in a repository is a node of that
repository: a symbol, a sensor's node or a file.
-/

namespace Lain.Federation

open Foundation Lain.Graph

/-! ### The index -/

structure FileOf (nodes : List GraphNode) (repo path id : String) : Prop where
  repoId : GlobalId.repoId id = repo
  stored : (∃ n ∈ nodes, n.nodeType = .file ∧ n.path = path ∧ n.id = id) ∨
    id = GlobalId.new repo .file path ((fileName path).getD "") none

def OfPlace {α : Type*} (idOf : α → String) (m : SortedMap (String ×ₗ String) (List α)) : Prop :=
  ∀ place values, m.get? place = some values →
    ∀ value ∈ values, GlobalId.repoId (idOf value) = (ofLex place).1

theorem OfPlace.extend {α : Type*} {idOf : α → String}
    {m : SortedMap (String ×ₗ String) (List α)} (ofPlace : OfPlace idOf m)
    {place : String ×ₗ String} {value : α}
    (repo : GlobalId.repoId (idOf value) = (ofLex place).1) :
    OfPlace idOf (m.extend place [value]) := by
  intro place' values found value' member
  rw [SortedMap.get?_extend] at found
  split at found
  next same =>
      subst same
      obtain rfl := Option.some.inj found
      rcases List.mem_append.mp member with old | new
      · cases held : m.get? place' with
        | none => rw [held] at old; cases old
        | some values =>
          rw [held] at old
          exact ofPlace place' values held value' old
      · rw [List.mem_singleton.mp new, repo]
  next => exact ofPlace place' values found value' member

structure NodeIndex.Sound (nodes : List GraphNode) (index : NodeIndex) : Prop where
  symbols : OfPlace (fun span => span.2.2) index.symbols
  files : ∀ place id, index.files.get? place = some id →
    FileOf nodes (ofLex place).1 (ofLex place).2 id
  routes : OfPlace id index.routes
  topics : OfPlace id index.topics

section Index

variable {text : MinerText} {nodes : List GraphNode} {index : NodeIndex}

theorem NodeIndex.Sound.addNode (sound : index.Sound nodes) {n : GraphNode} (member : n ∈ nodes) :
    (index.addNode text n).Sound nodes := by
  unfold NodeIndex.addNode
  split
  next => exact sound
  next gid parsed =>
      have same : gid = n.id := GlobalId.parse_eq_some parsed
      subst same
      split
      next isFile =>
          refine { sound with files := fun place id found => ?_ }
          rw [SortedMap.get?_insertNew] at found
          split at found
          next here =>
              subst here
              cases held : index.files.get? (toLex (GlobalId.repoId n.id, n.path)) with
              | some old =>
                rw [held] at found
                obtain rfl := Option.some.inj found
                exact sound.files _ _ held
              | none =>
                rw [held] at found
                obtain rfl := Option.some.inj found
                exact ⟨rfl, Or.inl ⟨n, member, isFile, rfl, rfl⟩⟩
          next => exact sound.files place id found
      next =>
          split
          · exact { sound with routes := sound.routes.extend rfl }
          · exact sound
      next => exact { sound with topics := sound.topics.extend rfl }
      next =>
          split
          · exact { sound with symbols := sound.symbols.extend rfl }
          · exact sound

theorem NodeIndex.Sound.finish (sound : index.Sound nodes) : index.finish.Sound nodes := by
  refine { sound with symbols := fun place spans found span member => ?_ }
  unfold NodeIndex.finish at found
  rw [SortedMap.get?_mapEntries, Option.map_eq_some_iff] at found
  obtain ⟨unsorted, held, rfl⟩ := found
  exact sound.symbols place unsorted held span ((perm_sortByKey _ unsorted).mem_iff.mp member)

theorem sound_nodeIndex (text : MinerText) (nodes : List GraphNode) :
    (nodeIndex text nodes).Sound nodes := by
  have run : ∀ (later : List GraphNode) (index : NodeIndex), index.Sound nodes →
      (∀ n ∈ later, n ∈ nodes) → (later.foldl (NodeIndex.addNode text) index).Sound nodes := by
    intro later
    induction later with
    | nil => exact fun _ sound _ => sound
    | cons n later ih =>
      intro index sound among
      exact ih _ (sound.addNode (among n List.mem_cons_self))
        fun other member => among other (List.mem_cons_of_mem _ member)
  refine (run nodes {} ?_ fun _ member => member).finish
  exact
    { symbols := fun _ _ found => by cases found
      files := fun _ _ found => by cases found
      routes := fun _ _ found => by cases found
      topics := fun _ _ found => by cases found }

theorem NodeIndex.Sound.repoId_byLine (sound : index.Sound nodes) {occ : AnchorOccurrence}
    {id : String} (found : index.byLine occ = some id) : GlobalId.repoId id = occ.repo := by
  unfold NodeIndex.byLine at found
  obtain ⟨span, first, rfl⟩ := Option.map_eq_some_iff.mp found
  have member := List.mem_of_find?_eq_some first
  cases held : index.symbols.get? (toLex (occ.repo, occ.path)) with
  | none => rw [held] at member; cases member
  | some spans =>
    rw [held] at member
    exact sound.symbols _ spans held span member

theorem OfPlace.repoId_firstUnder {m : SortedMap (String ×ₗ String) (List String)}
    (ofPlace : OfPlace id m) {occ : AnchorOccurrence} {found : String}
    (first : firstUnder m occ = some found) : GlobalId.repoId found = occ.repo := by
  unfold firstUnder at first
  obtain ⟨ids, held, head⟩ := Option.bind_eq_some_iff.mp first
  exact ofPlace _ ids held found (List.mem_of_mem_head? head)

theorem NodeIndex.Sound.repoId_resolve (sound : index.Sound nodes) {occ : AnchorOccurrence}
    {id : String} (found : index.resolve occ = some id) : GlobalId.repoId id = occ.repo := by
  unfold NodeIndex.resolve at found
  have either : ∀ {a b : Option String}, a.or b = some id → a = some id ∨ b = some id := by
    intro a b one
    rw [Option.or_eq_some_iff] at one
    exact one.imp_right And.right
  have line := @NodeIndex.Sound.repoId_byLine nodes index sound occ id
  have route := @OfPlace.repoId_firstUnder index.routes sound.routes occ id
  have topic := @OfPlace.repoId_firstUnder index.topics sound.topics occ id
  simp only at found
  split at found
  · split at found
    · exact (either found).elim route line
    · exact (either found).elim line route
  · exact (either found).elim topic line
  · exact (either found).elim line route

theorem resolveEndpoint_spec {state : Resolving} (sound : state.index.Sound nodes)
    (occ : AnchorOccurrence) :
    (resolveEndpoint state occ).1.index.Sound nodes ∧
      ∀ id, (resolveEndpoint state occ).2 = some id → GlobalId.repoId id = occ.repo := by
  unfold resolveEndpoint
  split
  next id found =>
      refine ⟨sound, fun _ same => ?_⟩
      obtain rfl := Option.some.inj same
      rcases Option.or_eq_some_iff.mp found with indexed | ⟨_, file⟩
      · exact sound.repoId_resolve indexed
      · exact (sound.files _ _ file).repoId
  next =>
      cases valid : repoIdNew occ.repo with
      | none => exact ⟨sound, fun _ absent => by cases absent⟩
      | some rid =>
        have repo : GlobalId.repoId
            (GlobalId.new rid .file occ.path ((fileName occ.path).getD "") none) = occ.repo := by
          rw [GlobalId.repoId, GlobalId.split_new valid]
          exact (repoIdNew_eq_some valid).1
        refine ⟨{ sound with files := fun place id found => ?_ }, fun _ same => ?_⟩
        · simp only at found
          rw [SortedMap.get?_insert] at found
          split at found
          next here =>
              subst here
              obtain rfl := Option.some.inj found
              exact ⟨repo, Or.inr (by rw [(repoIdNew_eq_some valid).1]; rfl)⟩
          next => exact sound.files place id found
        · obtain rfl := Option.some.inj same
          exact repo

end Index

/-! ### The endpoints of an anchor -/

section Endpoints

variable {nodes : List GraphNode}

def InRepos (repos : Finset String) (perRepo : SortedMap String (List String)) : Prop :=
  ∀ repo ids, perRepo.get? repo = some ids →
    repo ∈ repos ∧ ∀ id ∈ ids, GlobalId.repoId id = repo

theorem resolveGroup_spec {state : Resolving} (sound : state.index.Sound nodes)
    (occs : List AnchorOccurrence) :
    (resolveGroup state occs).1.index.Sound nodes ∧
      InRepos (reposOf occs) (resolveGroup state occs).2 := by
  induction occs using List.reverseRecOn with
  | nil => exact ⟨sound, fun _ _ found => by cases found⟩
  | append_singleton occs occ ih =>
    unfold resolveGroup at ih ⊢
    rw [List.foldl_append, List.foldl_cons, List.foldl_nil]
    obtain ⟨before, inRepos⟩ := ih
    obtain ⟨later, repo⟩ := resolveEndpoint_spec before occ
    have wider : reposOf occs ⊆ reposOf (occs ++ [occ]) := by
      intro r member
      unfold reposOf at member ⊢
      rw [List.map_append, List.mem_toFinset, List.mem_append]
      exact Or.inl (List.mem_toFinset.mp member)
    have here : occ.repo ∈ reposOf (occs ++ [occ]) := by
      unfold reposOf
      rw [List.map_append, List.mem_toFinset, List.mem_append]
      exact Or.inr List.mem_cons_self
    generalize List.foldl _ (state, (∅ : SortedMap String (List String))) occs = acc at *
    rcases resolved : resolveEndpoint acc.1 occ with ⟨state', _ | id⟩
    · rw [resolved] at later
      exact ⟨later, fun r ids found => ⟨wider (inRepos r ids found).1, (inRepos r ids found).2⟩⟩
    · rw [resolved] at later repo
      refine ⟨later, fun r ids found => ?_⟩
      change (acc.2.extend occ.repo [id]).get? r = some ids at found
      rw [SortedMap.get?_extend] at found
      split at found
      next same =>
          subst same
          obtain rfl := Option.some.inj found
          refine ⟨here, fun id' member => ?_⟩
          rcases List.mem_append.mp member with old | new
          · rcases held : acc.2.get? occ.repo with _ | ids
            · rw [held] at old
              cases old
            · rw [held] at old
              exact (inRepos _ ids held).2 id' old
          · rw [List.mem_singleton.mp new]
            exact repo id rfl
      next => exact ⟨wider (inRepos r ids found).1, (inRepos r ids found).2⟩

structure Survey.Sound (nodes : List GraphNode) (groups : AnchorGroups) (survey : Survey) :
    Prop where
  index : survey.state.index.Sound nodes
  endpoints : ∀ anchor perRepo, survey.endpoints.get? anchor = some perRepo →
    ∃ occs, groups.get? anchor = some occs ∧ (reposOf occs).card ≤ anchorMaxRepos ∧
      InRepos (reposOf occs) perRepo

theorem Survey.Sound.addGroup {groups : AnchorGroups} {survey : Survey}
    (sound : survey.Sound nodes groups) {group : (AnchorKind ×ₗ String) × List AnchorOccurrence}
    (member : group ∈ groups.entries) : (survey.addGroup group).Sound nodes groups := by
  obtain ⟨index, inRepos⟩ := resolveGroup_spec sound.index group.2
  unfold Survey.addGroup
  simp only
  split
  next => exact ⟨index, sound.endpoints⟩
  next few =>
      refine ⟨index, fun anchor perRepo found => ?_⟩
      simp only at found
      rw [SortedMap.get?_insert] at found
      split at found
      next same =>
          subst same
          obtain rfl := Option.some.inj found
          refine ⟨group.2, SortedMap.mem_entries.mp member, not_lt.mp few, ?_⟩
          intro repo ids held
          rw [SortedMap.get?_mapEntries, Option.map_eq_some_iff] at held
          obtain ⟨all, held, rfl⟩ := held
          obtain ⟨inside, repos⟩ := inRepos repo all held
          exact ⟨inside, fun id chosen =>
            repos id (SortedMap.mem_ordered.mp (List.mem_of_mem_take chosen))⟩
      next => exact sound.endpoints anchor perRepo found

theorem sound_takeSurvey (text : MinerText) (nodes : List GraphNode) (groups : AnchorGroups) :
    (takeSurvey text nodes groups).Sound nodes groups := by
  have run : ∀ (later : List ((AnchorKind ×ₗ String) × List AnchorOccurrence)) (survey : Survey),
      survey.Sound nodes groups → (∀ group ∈ later, group ∈ groups.entries) →
        (later.foldl Survey.addGroup survey).Sound nodes groups := by
    intro later
    induction later with
    | nil => exact fun _ sound _ => sound
    | cons group later ih =>
      intro survey sound among
      exact ih _ (sound.addGroup (among group List.mem_cons_self))
        fun other member => among other (List.mem_cons_of_mem _ member)
  exact run groups.entries _ ⟨sound_nodeIndex text nodes, fun _ _ found => by cases found⟩
    fun _ member => member

end Endpoints

/-! ### Changesets -/

section Changesets

theorem mem_pairsOf {α : Type*} {l : List α} {a b : α} (pair : (a, b) ∈ pairsOf l) :
    [a, b].Sublist l := by
  induction l with
  | nil => cases pair
  | cons c rest ih =>
    rw [pairsOf, List.mem_append] at pair
    rcases pair with first | later
    · obtain ⟨b', member, same⟩ := List.mem_map.mp first
      obtain ⟨rfl, rfl⟩ := Prod.mk.inj same
      exact (List.singleton_sublist.mpr member).cons_cons c
    · exact (ih later).cons c

theorem flatten_clustersFrom {start : Int} {cluster commits : List CommitRecord}
    {clusters : List (List CommitRecord)}
    (cut : clustersFrom start cluster commits = some clusters) :
    clusters.flatten = cluster ++ commits := by
  induction commits generalizing start cluster clusters with
  | nil =>
    rw [clustersFrom] at cut
    obtain rfl := Option.some.inj cut
    simp
  | cons c rest ih =>
    rw [clustersFrom] at cut
    simp only [Option.bind_eq_bind, Option.bind_eq_some_iff] at cut
    obtain ⟨apart, _, cut⟩ := cut
    split at cut
    · rw [ih cut, List.append_assoc]
      rfl
    · obtain ⟨later, cutLater, same⟩ := Option.bind_eq_some_iff.mp cut
      obtain rfl := Option.some.inj same
      rw [List.flatten_cons, ih cutLater]
      rfl

theorem perm_timeClusters {commits : List CommitRecord} {clusters : List (List CommitRecord)}
    (cut : timeClusters commits = some clusters) : clusters.flatten.Perm commits := by
  refine List.Perm.trans ?_ (perm_sortByKey CommitRecord.time commits)
  unfold timeClusters at cut
  split at cut
  next sorted =>
      obtain rfl := Option.some.inj cut
      rw [sorted]
      rfl
  next c rest sorted =>
      rw [flatten_clustersFrom cut, sorted]
      rfl

theorem mem_changesets {text : MinerText} {commits : List CommitRecord}
    {clusters : List (List CommitRecord)} (cut : changesets text commits = some clusters)
    {cluster : List CommitRecord} (inside : cluster ∈ clusters) :
    cluster ⊆ commits ∧ ∀ a ∈ cluster, ∀ b ∈ cluster,
      normalizeMessage text a.message = normalizeMessage text b.message := by
  unfold changesets at cut
  obtain ⟨perMessage, each, rfl⟩ := Option.map_eq_some_iff.mp cut
  obtain ⟨ofMessage, listed, inside⟩ := List.mem_flatten.mp inside
  obtain ⟨⟨message, ofOne⟩, entry, cutHere⟩ :=
    (forall₂_mem (mapM_eq_some_iff.mp each)).2 _ listed
  have filed := SortedMap.getD_group (commits.map fun c => (normalizeMessage text c.message, c))
    message
  rw [SortedMap.mem_entries.mp entry, Option.getD_some] at filed
  have from' : ∀ c ∈ cluster, c ∈ commits ∧ normalizeMessage text c.message = message := by
    intro c member
    have grouped : c ∈ ofOne :=
      (perm_timeClusters cutHere).mem_iff.mp (List.mem_flatten.mpr ⟨cluster, inside, member⟩)
    rw [filed] at grouped
    obtain ⟨pair, kept, rfl⟩ := List.mem_map.mp grouped
    obtain ⟨paired, same⟩ := List.mem_filter.mp kept
    obtain ⟨c, observed, rfl⟩ := List.mem_map.mp paired
    exact ⟨observed, of_decide_eq_true same⟩
  exact ⟨fun c member => (from' c member).1, fun a here b there => by
    rw [(from' a here).2, (from' b there).2]⟩

end Changesets

/-! ### Offers -/

def Sighted (seen : Observations) (detector source target : String) : Prop :=
  ∃ kind key occs, (anchorGroups seen.occurrences).get? (toLex (kind, key)) = some occs ∧
    detector = anchorDetector kind key ∧
    anchorMinRepos ≤ (reposOf occs).card ∧ (reposOf occs).card ≤ anchorMaxRepos ∧
    GlobalId.repoId source ∈ reposOf occs ∧ GlobalId.repoId target ∈ reposOf occs

def CoChanged (seen : Observations) (nodes : List GraphNode) (source target : String) : Prop :=
  ∃ a ∈ seen.commits, ∃ b ∈ seen.commits,
    normalizeMessage seen.text a.message = normalizeMessage seen.text b.message ∧
    (a.time - b.time).natAbs ≤ cochangeTimeWindowSecs ∧
    (a.author ≠ "" → b.author ≠ "" → a.author = b.author) ∧
    ∃ fa ∈ a.files, ∃ fb ∈ b.files,
      FileOf nodes a.repo fa source ∧ FileOf nodes b.repo fb target

structure BorneOut (seen : Observations) (nodes : List GraphNode)
    (detector source target : String) : Prop where
  sighted : Text.startsWith detector "anchor:" = true → Sighted seen detector source target
  coChanged : detector = "cochange" → CoChanged seen nodes source target

structure FairOffer (seen : Observations) (nodes : List GraphNode) (edges : List GraphEdge)
    (offer : Triple × String) : Prop where
  apart : GlobalId.repoId offer.1.1 ≠ GlobalId.repoId offer.1.2.1
  unproven : pairKey offer.1.1 offer.1.2.1 ∉ blockedPairs edges
  borneOut : BorneOut seen nodes offer.2 offer.1.1 offer.1.2.1

theorem pairKey_comm (a b : String) : pairKey a b = pairKey b a := by
  unfold pairKey
  rcases lt_trichotomy a b with before | rfl | after
  · rw [if_pos before.le, if_neg before.not_ge]
  · rfl
  · rw [if_neg after.not_ge, if_pos after.le]

theorem startsWith_anchorDetector (kind : AnchorKind) (key : String) :
    Text.startsWith (anchorDetector kind key) "anchor:" = true := by
  unfold Text.startsWith anchorDetector
  rw [List.isPrefixOf_iff_prefix]
  simp only [String.toList_append, List.append_assoc]
  exact List.prefix_append _ _

section Batches

variable {seen : Observations} {nodes : List GraphNode} {edges : List GraphEdge}

theorem borneOut_anchor {kind : AnchorKind} {key source target : String}
    (sighted : Sighted seen (anchorDetector kind key) source target) :
    BorneOut seen nodes (anchorDetector kind key) source target where
  sighted _ := sighted
  coChanged same := by
    have starts := startsWith_anchorDetector kind key
    rw [same] at starts
    exact absurd starts (by decide)

theorem fair_anchorOffers {coverage : BusCoverage} {offer : Triple × String}
    (offered : offer ∈ anchorOffers (blockedPairs edges) coverage (seen.survey nodes).endpoints) :
    FairOffer seen nodes edges offer := by
  have sound := sound_takeSurvey seen.text nodes (anchorGroups seen.occurrences)
  unfold anchorOffers at offered
  obtain ⟨⟨anchor, perRepo⟩, entry, offered⟩ := List.mem_flatMap.mp offered
  obtain ⟨occs, grouped, few, inRepos⟩ :=
    sound.endpoints anchor perRepo (SortedMap.mem_entries.mp entry)
  simp only at offered
  split at offered
  next => cases offered
  obtain ⟨⟨⟨repo₁, ids₁⟩, ⟨repo₂, ids₂⟩⟩, two, offered⟩ := List.mem_flatMap.mp offered
  obtain ⟨a, inFirst, offered⟩ := List.mem_flatMap.mp offered
  obtain ⟨b, inSecond, offered⟩ := List.mem_flatMap.mp offered
  have sublist := mem_pairsOf two
  have before : repo₁ < repo₂ := by
    have sorted := perRepo.sorted.sublist sublist
    simpa using sorted
  obtain ⟨inside₁, of₁⟩ := inRepos repo₁ ids₁
    (SortedMap.mem_entries.mp (sublist.subset List.mem_cons_self))
  obtain ⟨inside₂, of₂⟩ := inRepos repo₂ ids₂
    (SortedMap.mem_entries.mp (sublist.subset (List.mem_cons_of_mem _ List.mem_cons_self)))
  have many : anchorMinRepos ≤ (reposOf occs).card :=
    Finset.one_lt_card.mpr ⟨repo₁, inside₁, repo₂, inside₂, before.ne⟩
  have sighted : ∀ source target, GlobalId.repoId source ∈ reposOf occs →
      GlobalId.repoId target ∈ reposOf occs →
      Sighted seen (anchorDetector (ofLex anchor).1 (ofLex anchor).2) source target :=
    fun source target here there => ⟨_, _, occs, grouped, rfl, many, few, here, there⟩
  have repoA := of₁ a inFirst
  have repoB := of₂ b inSecond
  split at offered
  next => cases offered
  next unproven =>
      split at offered
      next => cases offered
      next =>
          rcases List.mem_cons.mp offered with rfl | offered
          · exact
              { apart := by rw [repoA, repoB]; exact before.ne
                unproven := unproven
                borneOut := borneOut_anchor
                  (sighted a b (repoA.symm ▸ inside₁) (repoB.symm ▸ inside₂)) }
          · rw [List.mem_singleton.mp offered]
            exact
              { apart := by rw [repoA, repoB]; exact before.ne'
                unproven := by rw [pairKey_comm]; exact unproven
                borneOut := borneOut_anchor
                  (sighted b a (repoB.symm ▸ inside₂) (repoA.symm ▸ inside₁)) }

theorem fair_cochangeOffers {clusters : List (List CommitRecord)}
    (cut : changesets seen.text seen.commits = some clusters) {cluster : List CommitRecord}
    (inside : cluster ∈ clusters) {offer : Triple × String}
    (offered : offer ∈ cochangeOffers (blockedPairs edges) (seen.survey nodes).state.index.files
      cluster) :
    FairOffer seen nodes edges offer := by
  have sound := sound_takeSurvey seen.text nodes (anchorGroups seen.occurrences)
  obtain ⟨observed, message⟩ := mem_changesets cut inside
  unfold cochangeOffers at offered
  split at offered
  next => cases offered
  obtain ⟨⟨a, b⟩, two, offered⟩ := List.mem_flatMap.mp offered
  have members := (mem_pairsOf two).subset
  have inA : a ∈ cluster := members List.mem_cons_self
  have inB : b ∈ cluster := members (List.mem_cons_of_mem _ List.mem_cons_self)
  simp only at offered
  split at offered
  next => cases offered
  next apart =>
  split at offered
  next => cases offered
  next close =>
  split at offered
  next => cases offered
  next authors =>
  obtain ⟨fa, inFa, offered⟩ := List.mem_flatMap.mp offered
  obtain ⟨fb, inFb, offered⟩ := List.mem_flatMap.mp offered
  split at offered
  next ida idb foundA foundB =>
      have fileA := sound.index.files _ _ foundA
      have fileB := sound.index.files _ _ foundB
      have sameAuthor : a.author ≠ "" → b.author ≠ "" → a.author = b.author := by
        intro knownA knownB
        by_contra other
        exact authors ⟨knownA, knownB, other⟩
      have forth : CoChanged seen nodes ida idb :=
        ⟨a, observed inA, b, observed inB, message a inA b inB, not_lt.mp close, sameAuthor,
          fa, List.mem_of_mem_take inFa, fb, List.mem_of_mem_take inFb, fileA, fileB⟩
      have back : CoChanged seen nodes idb ida :=
        ⟨b, observed inB, a, observed inA, message b inB a inA,
          by rw [← Int.natAbs_neg, neg_sub]; exact not_lt.mp close,
          fun knownB knownA => (sameAuthor knownA knownB).symm,
          fb, List.mem_of_mem_take inFb, fa, List.mem_of_mem_take inFa, fileB, fileA⟩
      have noAnchor : ¬ Text.startsWith "cochange" "anchor:" = true := by decide
      have repos : GlobalId.repoId ida ≠ GlobalId.repoId idb := by
        rw [fileA.repoId, fileB.repoId]
        exact apart
      -- the file that comes first by repository and path is the source
      split at offered
      next =>
          split at offered
          next => cases offered
          next unproven =>
              rw [List.mem_singleton.mp offered]
              exact ⟨repos, unproven, fun starts => absurd starts noAnchor, fun _ => forth⟩
      next =>
          split at offered
          next => cases offered
          next unproven =>
              rw [List.mem_singleton.mp offered]
              exact ⟨repos.symm, unproven, fun starts => absurd starts noAnchor, fun _ => back⟩
  next => cases offered

theorem fair_commitRefOffers {c : CommitRecord} {batch : List (Triple × String)}
    (made : batch ∈ commitRefOffers (blockedPairs edges) seen.text
      (seen.survey nodes).state.index.files (seen.survey nodes).endpoints c)
    {offer : Triple × String} (offered : offer ∈ batch) : FairOffer seen nodes edges offer := by
  have sound := sound_takeSurvey seen.text nodes (anchorGroups seen.occurrences)
  unfold commitRefOffers at made
  obtain ⟨anchor, _, made⟩ := List.mem_flatMap.mp made
  split at made
  next => cases made
  next perRepo found =>
      obtain ⟨occs, _, _, inRepos⟩ := sound.endpoints _ perRepo found
      obtain ⟨⟨repo, ids⟩, entry, made⟩ := List.mem_filterMap.mp made
      simp only at made
      split at made
      next => cases made
      next other =>
          obtain ⟨target, head, rfl⟩ := Option.map_eq_some_iff.mp made
          have repoTarget := (inRepos repo ids (SortedMap.mem_entries.mp entry)).2 target
            (List.mem_of_mem_head? head)
          obtain ⟨f, _, offered⟩ := List.mem_flatMap.mp offered
          split at offered
          next source file =>
              have repoSource := (sound.index.files _ _ file).repoId
              have noAnchor : ¬ Text.startsWith "commit-ref" "anchor:" = true := by decide
              have noCochange : "commit-ref" ≠ "cochange" := by decide
              split at offered
              next => cases offered
              next unproven =>
                  rw [List.mem_singleton.mp offered]
                  exact
                    { apart := by
                        rw [repoTarget, repoSource]
                        exact Ne.symm other
                      unproven := unproven
                      borneOut :=
                        { sighted := fun starts => absurd starts noAnchor
                          coChanged := fun same => absurd same noCochange } }
          next => cases offered

theorem fair_batches {batches : List (List (Triple × String))}
    (made : seen.batches nodes edges = some batches) {offer : Triple × String}
    (offered : offer ∈ batches.flatten) : FairOffer seen nodes edges offer := by
  unfold Observations.batches at made
  obtain ⟨clusters, cut, rfl⟩ := Option.map_eq_some_iff.mp made
  obtain ⟨batch, inside, offered⟩ := List.mem_flatten.mp offered
  rcases List.mem_append.mp inside with inside | ref
  · rcases List.mem_cons.mp inside with rfl | inside
    · exact fair_anchorOffers offered
    · obtain ⟨cluster, among, rfl⟩ := List.mem_map.mp inside
      exact fair_cochangeOffers cut among offered
  · obtain ⟨c, _, made⟩ := List.mem_flatMap.mp ref
    exact fair_commitRefOffers made offered

end Batches

end Lain.Federation
