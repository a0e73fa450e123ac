import Mathlib
import Lain.Foundation.TextEnds
import Lain.Contracts.Validate
import Lain.Joiner.Endpoints

/-!
# The service of a node

A node goes to the service of its repository that claims the longest beginning of its path.
-/

namespace Lain.Joiner

open Foundation Contracts Federation

/-! ### What a service claims -/

def claimOf (repo path : String) (s : ServiceDecl) : Option Nat :=
  if s.repo = repo then matchedPrefix s path else none

def claimsOn (repo path : String) (services : List ServiceDecl) : List (ServiceDecl × Nat) :=
  services.filterMap fun s => (claimOf repo path s).map fun claimed => (s, claimed)

def pathNames (p : String) : List String :=
  (Text.split p '/').filter fun name => decide (name ≠ "")

/-- Read as a directory or a file, a path is another one or an ancestor of it. -/
def Within (p path : String) : Prop :=
  pathNames p <+: pathNames path

instance withinDecidable (p path : String) : Decidable (Within p path) :=
  inferInstanceAs (Decidable (pathNames p <+: pathNames path))

def Whole (s : ServiceDecl) : Prop :=
  s.paths = [] ∨ "" ∈ s.paths

instance wholeDecidable (s : ServiceDecl) : Decidable (Whole s) :=
  inferInstanceAs (Decidable (_ ∨ _))

def Begins (config : ContractFederationConfig) (repo path p : String) : Prop :=
  ∃ s ∈ config.services, s.repo = repo ∧ p ∈ s.paths ∧ Text.startsWith path p = true

def EndsInside (config : ContractFederationConfig) (repo path : String) : Prop :=
  ∃ p, Begins config repo path p ∧ ¬Within p path ∧
    ∀ q, Begins config repo path q → q.utf8ByteSize ≤ p.utf8ByteSize

def SamePaths (s s' : ServiceDecl) : Prop :=
  ∃ paths, paths.Perm s.paths ∧ s' = { s with paths := paths }

/-- The service a node of a list gets. -/
def serviceOf (nodes : List GraphNode) (config : ContractFederationConfig) (node : GraphNode) :
    Option ServiceName :=
  (assignServices nodes config).get? node.id

/-- **What the assignment of a node promises**: the order of the paths of a service does not count,
the order of the services counts only between those that cover the whole repository, the first of
these takes what no path begins, and unless a path ends inside a name a declared service has no
paths or one that is the path of the node or an ancestor of it. -/
structure WellAssigned (nodes : List GraphNode) (config : ContractFederationConfig) (repo : String)
    (node : GraphNode) : Prop where
  paths : ∀ config' : ContractFederationConfig,
    List.Forall₂ SamePaths config.services config'.services →
      serviceOf nodes config' node = serviceOf nodes config node
  services : ∀ config' : ContractFederationConfig, config'.services.Perm config.services →
    ((∃ p, Begins config repo node.path p ∧ p ≠ "") ∨
      ∀ s ∈ config.services, ∀ t ∈ config.services, s.repo = repo → t.repo = repo →
        Whole s → Whole t → s = t) →
    serviceOf nodes config' node = serviceOf nodes config node
  first : (∀ p, Begins config repo node.path p → p = "") →
    serviceOf nodes config node = some (((config.services.find? fun s =>
      decide (s.repo = repo ∧ Whole s)).map ServiceDecl.name).getD repo)
  declared : ¬EndsInside config repo node.path → ∀ svc, serviceOf nodes config node = some svc →
    svc = repo ∨ ∃ s ∈ config.services, s.name = svc ∧ s.repo = repo ∧
      (s.paths = [] ∨ ∃ p ∈ s.paths, Within p node.path)

/-! ### Claims -/

theorem matchedPrefix_eq_some {s : ServiceDecl} {path : String} {n : Nat} :
    matchedPrefix s path = some n ↔
      (s.paths = [] ∧ n = 0) ∨
        (∃ p ∈ s.paths, Text.startsWith path p = true ∧ p.utf8ByteSize = n) ∧
          ∀ p ∈ s.paths, Text.startsWith path p = true → p.utf8ByteSize ≤ n := by
  unfold matchedPrefix
  split
  next empty =>
      have none := List.isEmpty_iff.mp empty
      refine ⟨fun zero => .inl ⟨none, (Option.some.inj zero).symm⟩, ?_⟩
      rintro (⟨_, rfl⟩ | ⟨⟨p, member, _⟩, _⟩)
      · rfl
      · rw [none] at member
        cases member
  next filled =>
      have some : s.paths ≠ [] := fun none => filled (List.isEmpty_iff.mpr none)
      rw [List.max?_eq_some_iff]
      simp only [List.mem_map, List.mem_filter, some, false_and, false_or]
      constructor
      · rintro ⟨⟨p, ⟨member, begins⟩, size⟩, most⟩
        exact ⟨⟨p, member, begins, size⟩, fun q inside first => most _ ⟨q, ⟨inside, first⟩, rfl⟩⟩
      · rintro ⟨⟨p, member, begins, size⟩, most⟩
        refine ⟨⟨p, ⟨member, begins⟩, size⟩, ?_⟩
        rintro _ ⟨q, ⟨inside, first⟩, rfl⟩
        exact most q inside first

theorem claimOf_eq_some {repo path : String} {s : ServiceDecl} {n : Nat} :
    claimOf repo path s = some n ↔ s.repo = repo ∧ matchedPrefix s path = some n := by
  unfold claimOf
  split <;> simp_all

theorem foldl_preferService (repo path : String) (services : List ServiceDecl) :
    services.foldl (preferService repo path) none =
      (claimsOn repo path services).argmax Prod.snd := by
  unfold claimsOn List.argmax
  rw [List.foldl_filterMap]
  congr 1
  funext best s
  unfold preferService claimOf
  by_cases here : s.repo = repo
  · rw [if_neg (not_not.mpr here), if_pos here]
    cases matchedPrefix s path with
    | none => rfl
    | some claimed =>
      cases best with
      | none => rfl
      | some before =>
        change (if claimed ≤ before.2 then _ else _) = if before.2 < claimed then _ else _
        by_cases longer : before.2 < claimed
        · rw [if_neg (by omega), if_pos longer]
        · rw [if_pos (by omega), if_neg longer]
  · rw [if_pos here, if_neg here]
    rfl

theorem mem_claimsOn {repo path : String} {services : List ServiceDecl} {s : ServiceDecl}
    {n : Nat} : (s, n) ∈ claimsOn repo path services ↔
      s ∈ services ∧ s.repo = repo ∧ matchedPrefix s path = some n := by
  unfold claimsOn
  rw [List.mem_filterMap]
  constructor
  · rintro ⟨t, member, found⟩
    obtain ⟨claimed, claims, same⟩ := Option.map_eq_some_iff.mp found
    obtain ⟨rfl, rfl⟩ := Prod.ext_iff.mp same
    exact ⟨member, claimOf_eq_some.mp claims⟩
  · rintro ⟨member, claims⟩
    exact ⟨s, member, by rw [claimOf_eq_some.mpr claims, Option.map_some]⟩

theorem assignService_eq {config : ContractFederationConfig} {node : GraphNode} {repo : String}
    (found : repoOf node = some repo) :
    assignService config node =
      some ((((claimsOn repo node.path config.services).argmax Prod.snd).map fun best =>
        best.1.name).getD repo) := by
  unfold assignService
  rw [found, Option.map_some, foldl_preferService]
  cases (claimsOn repo node.path config.services).argmax Prod.snd with
  | none => rfl
  | some best => rfl

/-! ### Accepted configurations -/

theorem pathPrefixesOverlap_symm {a b : String} (overlap : pathPrefixesOverlap a b = true) :
    pathPrefixesOverlap b a = true := by
  unfold pathPrefixesOverlap at overlap ⊢
  simp only [Bool.or_eq_true, decide_eq_true_eq] at overlap ⊢
  obtain (same | left) | right := overlap
  · exact .inl (.inl same.symm)
  · exact .inr left
  · exact .inl (.inr right)

theorem apart_of_validate {isAlphanumeric : Char → Bool} {config : ContractFederationConfig}
    {repoIds : List String} (accepted : config.validate isAlphanumeric repoIds = .ok ())
    {s t : ServiceDecl} (here : s ∈ config.services) (there : t ∈ config.services)
    (same : s.repo = t.repo) {p q : String} (listed : p ∈ s.paths) (listed' : q ∈ t.paths)
    (overlap : pathPrefixesOverlap p q = true) : s = t := by
  have silent := ContractFederationConfig.validate_eq_ok.mp accepted config.overlapInRepo
    (by simp [ContractFederationConfig.rules])
  unfold ContractFederationConfig.overlapInRepo at silent
  have free : config.services.Pairwise fun s t => s.repo = t.repo →
      ∀ p ∈ s.paths, ∀ q ∈ t.paths, ¬pathPrefixesOverlap p q = true := by
    refine forall_pairsOf.mp fun pair member together p inside q inside' => ?_
    have quiet := List.findSome?_eq_none_iff.mp silent pair member
    rw [if_pos together, Option.map_eq_none_iff, List.find?_eq_none] at quiet
    exact quiet (p, q) (List.mem_product.mpr ⟨inside, inside'⟩)
  have symmetric : Std.Symm fun s t : ServiceDecl => s.repo = t.repo →
      ∀ p ∈ s.paths, ∀ q ∈ t.paths, ¬pathPrefixesOverlap p q = true :=
    ⟨fun _ _ rel together p inside q inside' clash =>
      rel together.symm q inside' p inside (pathPrefixesOverlap_symm clash)⟩
  by_contra other
  exact free.forall here there other same p listed q listed' overlap

theorem claimant_unique {isAlphanumeric : Char → Bool} {config : ContractFederationConfig}
    {repoIds : List String} (accepted : config.validate isAlphanumeric repoIds = .ok ())
    {repo path : String} {s t : ServiceDecl} {n : Nat}
    (left : (s, n) ∈ claimsOn repo path config.services)
    (right : (t, n) ∈ claimsOn repo path config.services) :
    s = t ∨ n = 0 ∧ Whole s ∧ Whole t := by
  obtain ⟨here, own, claims⟩ := mem_claimsOn.mp left
  obtain ⟨there, own', claims'⟩ := mem_claimsOn.mp right
  have whole : ∀ u : ServiceDecl, matchedPrefix u path = some 0 → Whole u := by
    intro u zero
    obtain ⟨empty, _⟩ | ⟨⟨p, member, _, size⟩, _⟩ := matchedPrefix_eq_some.mp zero
    · exact .inl empty
    · rw [String.utf8ByteSize_eq_zero_iff.mp size] at member
      exact .inr member
  by_cases zero : n = 0
  · subst zero
    exact .inr ⟨rfl, whole s claims, whole t claims'⟩
  · obtain ⟨_, none⟩ | ⟨⟨p, member, begins, size⟩, _⟩ := matchedPrefix_eq_some.mp claims
    · exact absurd none zero
    obtain ⟨_, none⟩ | ⟨⟨q, member', begins', size'⟩, _⟩ := matchedPrefix_eq_some.mp claims'
    · exact absurd none zero
    obtain rfl := Text.eq_of_startsWith begins begins' (size.trans size'.symm)
    exact .inl (apart_of_validate accepted here there (own.trans own'.symm) member member'
      (by simp [pathPrefixesOverlap]))

/-! ### The order of the services -/

theorem SamePaths.matchedPrefix_eq {s s' : ServiceDecl} (same : SamePaths s s') (path : String) :
    matchedPrefix s' path = matchedPrefix s path := by
  obtain ⟨paths, perm, rfl⟩ := same
  have agree : ∀ n, matchedPrefix { s with paths := paths } path = some n ↔
      matchedPrefix s path = some n := by
    intro n
    rw [matchedPrefix_eq_some, matchedPrefix_eq_some]
    have none : paths = [] ↔ s.paths = [] :=
      ⟨fun empty => List.nil_perm.mp (empty ▸ perm), fun empty => List.perm_nil.mp (empty ▸ perm)⟩
    simp only [perm.mem_iff, none]
  exact Option.ext fun n => agree n

theorem assignService_samePaths {config config' : ContractFederationConfig} {node : GraphNode}
    (same : List.Forall₂ SamePaths config.services config'.services) :
    assignService config' node = assignService config node := by
  have step : ∀ (repo : String) (l l' : List ServiceDecl), List.Forall₂ SamePaths l l' →
      ∀ best best' : Option (ServiceDecl × Nat),
        best'.map (fun b => (b.1.name, b.2)) = best.map (fun b => (b.1.name, b.2)) →
        (l'.foldl (preferService repo node.path) best').map (fun b => (b.1.name, b.2)) =
          (l.foldl (preferService repo node.path) best).map (fun b => (b.1.name, b.2)) := by
    intro repo l l' all
    induction all with
    | nil => exact fun _ _ before => before
    | @cons s s' l l' first _ ih =>
      intro best best' before
      refine ih _ _ ?_
      have claims := first.matchedPrefix_eq node.path
      obtain ⟨paths, _, rfl⟩ := first
      unfold preferService
      rw [claims]
      by_cases own : s.repo = repo
      · rw [if_neg (not_not.mpr own), if_neg (not_not.mpr own)]
        cases matchedPrefix s node.path with
        | none => exact before
        | some claimed =>
          cases best with
          | none =>
            obtain rfl := Option.map_eq_none_iff.mp before
            rfl
          | some b =>
            obtain ⟨b', rfl, agree⟩ := Option.map_eq_some_iff.mp before
            have size : b'.2 = b.2 := (Prod.ext_iff.mp agree).2
            dsimp only
            rw [size]
            split
            · exact before
            · rfl
      · rw [if_pos own, if_pos own]
        exact before
  unfold assignService
  congr 1
  funext repo
  have ends := step repo _ _ same none none rfl
  cases left : config'.services.foldl (preferService repo node.path) none with
  | none =>
    rw [left] at ends
    rw [Option.map_eq_none_iff.mp ends.symm]
  | some b =>
    rw [left] at ends
    obtain ⟨b', found, agree⟩ := Option.map_eq_some_iff.mp ends.symm
    rw [found]
    exact ((Prod.ext_iff.mp agree).1).symm

theorem Begins.claimed {config : ContractFederationConfig} {repo path p : String}
    (begins : Begins config repo path p) :
    ∃ s n, (s, n) ∈ claimsOn repo path config.services ∧ p.utf8ByteSize ≤ n := by
  obtain ⟨s, member, own, listed, front⟩ := begins
  have filled : ¬s.paths.isEmpty = true := fun none => by
    rw [List.isEmpty_iff.mp none] at listed
    cases listed
  have inside : p.utf8ByteSize ∈
      (s.paths.filter fun p => Text.startsWith path p).map String.utf8ByteSize :=
    List.mem_map.mpr ⟨p, List.mem_filter.mpr ⟨listed, front⟩, rfl⟩
  obtain ⟨n, most⟩ := Option.isSome_iff_exists.mp (List.isSome_max?_of_mem inside)
  refine ⟨s, n, mem_claimsOn.mpr ⟨member, own, ?_⟩, (List.max?_eq_some_iff.mp most).2 _ inside⟩
  unfold matchedPrefix
  rw [if_neg filled, most]

theorem assignService_perm {isAlphanumeric : Char → Bool} {config : ContractFederationConfig}
    {repoIds : List String} (accepted : config.validate isAlphanumeric repoIds = .ok ())
    {node : GraphNode} {repo : String} (found : repoOf node = some repo)
    (decided : (∃ p, Begins config repo node.path p ∧ p ≠ "") ∨
      ∀ s ∈ config.services, ∀ t ∈ config.services, s.repo = repo → t.repo = repo →
        Whole s → Whole t → s = t)
    {config' : ContractFederationConfig} (perm : config'.services.Perm config.services) :
    assignService config' node = assignService config node := by
  have claims : (claimsOn repo node.path config'.services).Perm
      (claimsOn repo node.path config.services) := perm.filterMap _
  rw [assignService_eq found, assignService_eq found]
  cases right : (claimsOn repo node.path config.services).argmax Prod.snd with
  | none =>
    rw [List.argmax_eq_none.mp right, List.perm_nil] at claims
    rw [claims]
    rfl
  | some best =>
    obtain ⟨s, n⟩ := best
    obtain ⟨member, most, _⟩ := List.argmax_eq_some_iff.mp right
    cases left : (claimsOn repo node.path config'.services).argmax Prod.snd with
    | none =>
      rw [List.argmax_eq_none.mp left] at claims
      rw [List.nil_perm.mp claims] at member
      cases member
    | some best' =>
      obtain ⟨t, m⟩ := best'
      obtain ⟨inside, most', _⟩ := List.argmax_eq_some_iff.mp left
      have here := claims.mem_iff.mp inside
      obtain rfl : m = n :=
        le_antisymm (most _ here) (most' _ (claims.mem_iff.mpr member))
      suffices same : t = s by rw [same]
      obtain same | ⟨zero, whole, whole'⟩ := claimant_unique accepted here member
      · exact same
      obtain ⟨p, begins, some⟩ | alone := decided
      · obtain ⟨u, k, claimed, long⟩ := begins.claimed
        have short : k ≤ m := most _ claimed
        have none : p.utf8ByteSize = 0 := by omega
        exact absurd (String.utf8ByteSize_eq_zero_iff.mp none) some
      · exact alone t (mem_claimsOn.mp here).1 s (mem_claimsOn.mp member).1
          (mem_claimsOn.mp here).2.1 (mem_claimsOn.mp member).2.1 whole whole'

private theorem argmax_of_const {α : Type*} {f : α → Nat} {l : List α} (none : ∀ a ∈ l, f a = 0) :
    l.argmax f = l.head? := by
  cases l with
  | nil => rfl
  | cons a rest =>
    rw [List.argmax_cons, List.head?_cons]
    cases found : rest.argmax f with
    | none => rfl
    | some b =>
      have low := none b (List.mem_cons_of_mem _ (List.argmax_mem found))
      change (if f a < f b then some b else some a) = some a
      rw [if_neg (by omega)]

theorem assignService_first {config : ContractFederationConfig} {node : GraphNode} {repo : String}
    (found : repoOf node = some repo)
    (bare : ∀ p, Begins config repo node.path p → p = "") :
    assignService config node = some (((config.services.find? fun s =>
      decide (s.repo = repo ∧ Whole s)).map ServiceDecl.name).getD repo) := by
  have low : ∀ claim ∈ claimsOn repo node.path config.services, claim.2 = 0 := by
    rintro ⟨s, n⟩ member
    obtain ⟨here, own, claims⟩ := mem_claimsOn.mp member
    obtain ⟨_, none⟩ | ⟨⟨p, listed, begins, size⟩, _⟩ := matchedPrefix_eq_some.mp claims
    · exact none
    · rw [bare p ⟨s, here, own, listed, begins⟩] at size
      exact size.symm
  have claim : ∀ s ∈ config.services, claimOf repo node.path s =
      if s.repo = repo ∧ Whole s then some 0 else none := by
    intro s here
    by_cases both : s.repo = repo ∧ Whole s
    · rw [if_pos both, claimOf_eq_some]
      refine ⟨both.1, matchedPrefix_eq_some.mpr ?_⟩
      obtain empty | root := both.2
      · exact .inl ⟨empty, rfl⟩
      · refine .inr ⟨⟨"", root, Text.startsWith_iff.mpr (by simp), rfl⟩, fun p listed begins => ?_⟩
        rw [bare p ⟨s, here, both.1, listed, begins⟩]
        rfl
    · rw [if_neg both]
      cases claims : claimOf repo node.path s with
      | none => rfl
      | some n =>
        obtain ⟨own, claimed⟩ := claimOf_eq_some.mp claims
        refine absurd ⟨own, ?_⟩ both
        obtain ⟨empty, _⟩ | ⟨⟨p, listed, begins, _⟩, _⟩ := matchedPrefix_eq_some.mp claimed
        · exact .inl empty
        · exact .inr (bare p ⟨s, here, own, listed, begins⟩ ▸ listed)
  have first : ∀ services : List ServiceDecl,
      (∀ s ∈ services, claimOf repo node.path s =
        if s.repo = repo ∧ Whole s then some 0 else none) →
      ((claimsOn repo node.path services).head?.map fun best => best.1.name) =
        (services.find? fun s => decide (s.repo = repo ∧ Whole s)).map ServiceDecl.name := by
    intro services all
    induction services with
    | nil => rfl
    | cons s rest ih =>
      have tail := ih fun t member => all t (List.mem_cons_of_mem _ member)
      unfold claimsOn at tail ⊢
      rw [List.filterMap_cons, all s List.mem_cons_self, List.find?_cons]
      by_cases both : s.repo = repo ∧ Whole s
      · rw [if_pos both, decide_eq_true both]
        rfl
      · rw [if_neg both, decide_eq_false both]
        exact tail
  rw [assignService_eq found, argmax_of_const low, first config.services claim]

theorem assignService_declared {config : ContractFederationConfig} {node : GraphNode}
    {repo : String} (found : repoOf node = some repo)
    (apart : ¬EndsInside config repo node.path) {svc : ServiceName}
    (assigned : assignService config node = some svc) :
    svc = repo ∨ ∃ s ∈ config.services, s.name = svc ∧ s.repo = repo ∧
      (s.paths = [] ∨ ∃ p ∈ s.paths, Within p node.path) := by
  rw [assignService_eq found] at assigned
  cases best : (claimsOn repo node.path config.services).argmax Prod.snd with
  | none =>
    rw [best] at assigned
    exact .inl (Option.some.inj assigned).symm
  | some claim =>
    obtain ⟨s, n⟩ := claim
    rw [best] at assigned
    obtain ⟨member, most, _⟩ := List.argmax_eq_some_iff.mp best
    obtain ⟨here, own, claims⟩ := mem_claimsOn.mp member
    refine .inr ⟨s, here, Option.some.inj assigned, own, ?_⟩
    obtain ⟨empty, _⟩ | ⟨⟨p, listed, begins, size⟩, _⟩ := matchedPrefix_eq_some.mp claims
    · exact .inl empty
    · refine .inr ⟨p, listed, ?_⟩
      by_contra outside
      refine apart ⟨p, ⟨s, here, own, listed, begins⟩, outside, fun q other => ?_⟩
      obtain ⟨t, m, claimed, long⟩ := other.claimed
      have short : m ≤ n := most _ claimed
      omega

theorem serviceOf_eq {config : ContractFederationConfig} {node : GraphNode} {repo : String}
    (found : repoOf node = some repo) {before after : List GraphNode}
    (latest : ∀ other ∈ after, other.id ≠ node.id) :
    serviceOf (before ++ node :: after) config node = assignService config node := by
  unfold serviceOf assignServices
  rw [List.foldl_append, List.foldl_cons]
  obtain ⟨svc, assigned⟩ : ∃ svc, assignService config node = some svc := by
    rw [assignService_eq found]
    exact ⟨_, rfl⟩
  rw [assigned]
  induction after using List.reverseRecOn with
  | nil => exact (SortedMap.get?_insert ..).trans (if_pos rfl)
  | append_singleton after other ih =>
    have apart := latest other (List.mem_append_right _ List.mem_cons_self)
    rw [List.foldl_append, List.foldl_cons, List.foldl_nil]
    split
    · rw [SortedMap.get?_insert, if_neg (Ne.symm apart)]
      exact ih fun node member => latest node (List.mem_append_left _ member)
    · exact ih fun node member => latest node (List.mem_append_left _ member)

/-- **The service of a node in an accepted configuration.** -/
theorem well_assigned {isAlphanumeric : Char → Bool} {config : ContractFederationConfig}
    {repoIds : List String} (accepted : config.validate isAlphanumeric repoIds = .ok ())
    {node : GraphNode} {repo : String} (found : repoOf node = some repo)
    {before after : List GraphNode} (latest : ∀ other ∈ after, other.id ≠ node.id) :
    WellAssigned (before ++ node :: after) config repo node where
  paths _ same := by
    rw [serviceOf_eq found latest, serviceOf_eq found latest, assignService_samePaths same]
  services _ perm decided := by
    rw [serviceOf_eq found latest, serviceOf_eq found latest,
      assignService_perm accepted found decided perm]
  first bare := by
    rw [serviceOf_eq found latest, assignService_first found bare]
  declared apart _ assigned := by
    rw [serviceOf_eq found latest] at assigned
    exact assignService_declared found apart assigned

def splitRepo : ContractFederationConfig where
  services := [{ name := "shipping", repo := "platform", paths := ["services/shipping/"] },
    { name := "inventory", repo := "platform", paths := ["services/inventory/"] }]

def shippingNode : GraphNode :=
  { id := "platform:File:services/shipping/api.py:api.py:0", nodeType := .file, name := "api.py",
    path := "services/shipping/api.py", repoId := some "platform" }

theorem well_assigned_splitRepo :
    WellAssigned ([] ++ [shippingNode]) splitRepo "platform" shippingNode :=
  @well_assigned Char.isAlphanum splitRepo ["platform"] (by decide +kernel) shippingNode "platform"
    rfl [] [] (fun _ member => by cases member)

def twoWhole : ContractFederationConfig where
  services := [{ name := "api", repo := "platform" }, { name := "web", repo := "platform" }]

def twoWholeSwapped : ContractFederationConfig where
  services := [{ name := "web", repo := "platform" }, { name := "api", repo := "platform" }]

/-- **The order of accepted services counts**: of two that cover a repository the first one is
taken. -/
theorem twoWhole_order :
    twoWhole.validate Char.isAlphanum ["platform"] = .ok () ∧
      twoWholeSwapped.services.Perm twoWhole.services ∧
      serviceOf [shippingNode] twoWhole shippingNode = some "api" ∧
      serviceOf [shippingNode] twoWholeSwapped shippingNode = some "web" :=
  ⟨by decide +kernel, List.Perm.swap .., by decide +kernel, by decide +kernel⟩

end Lain.Joiner
