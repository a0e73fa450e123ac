import Mathlib
import Lain.Foundation.TextEnds
import Lain.Snapshots.Records

/-!
# Resolving a ref against a mirror

A snapshot is taken of a commit, which the caller may name by its id, by the beginning of its id,
or by a branch or a tag.
-/

namespace Lain.Snapshots

open Foundation

/-! ### Repositories -/

inductive GitObject where
  | commit (id : String) (parents : List String)
  | tag (id : String) (target : GitObject)
  deriving DecidableEq

namespace GitObject

def id : GitObject → String
  | .commit id _ => id
  | .tag id _ => id

def peel : GitObject → String
  | .commit id _ => id
  | .tag _ target => target.peel

def IsCommit : GitObject → Prop
  | .commit _ _ => True
  | .tag _ _ => False

end GitObject

def looksLikeSha (s : String) : Bool :=
  (decide (s.toList.length = 40) || decide (s.toList.length = 64)) && s.toList.all isHexDigit

inductive Reachable (objects : List GitObject) (refs : List (String × GitObject)) :
    String → Prop where
  | tip {name : String} {object : GitObject} : (name, object) ∈ refs →
      Reachable objects refs object.peel
  | parent {id parent : String} {parents : List String} : Reachable objects refs id →
      .commit id parents ∈ objects → parent ∈ parents → Reachable objects refs parent

/-- A repository: its objects, its refs, the commits `git rev-list --all` prints, and what git
reads into a text that is neither an id, its beginning nor the name of a ref. -/
structure GitRepository where
  objects : List GitObject
  refs : List (String × GitObject)
  revList : List String
  expression : String → Option GitObject
  /-- How long the ids are. -/
  idLength : Nat
  hash : idLength = 40 ∨ idLength = 64
  /-- Ids are hexadecimal in small letters. -/
  spelled : ∀ object ∈ objects, object.id.toList.length = idLength ∧
    object.id.toList.all isHexDigit = true ∧ object.id.toLower = object.id
  unique : ∀ a ∈ objects, ∀ b ∈ objects, a.id = b.id → a = b
  tagged : ∀ id target, .tag id target ∈ objects → target ∈ objects
  referred : ∀ ref ∈ refs, ref.2 ∈ objects
  parental : ∀ id parents, .commit id parents ∈ objects → ∀ parent ∈ parents,
    ∃ parents, .commit parent parents ∈ objects
  expressed : ∀ text object, expression text = some object → object ∈ objects
  listed : ∀ id, id ∈ revList ↔ Reachable objects refs id
  nodup : revList.Nodup

namespace GitRepository

variable (repo : GitRepository)

def isFullId (name : String) : Bool :=
  decide (name.toList.length = repo.idLength) && name.toList.all isHexDigit

def refObject (name : String) : Option GitObject :=
  [name, "refs/" ++ name, "refs/tags/" ++ name, "refs/heads/" ++ name, "refs/remotes/" ++ name,
    "refs/remotes/" ++ name ++ "/HEAD"].findSome? fun full => repo.refs.lookup full

def abbreviated (name : String) : Option GitObject :=
  if decide (4 ≤ name.toList.length) && name.toList.all isHexDigit then
    match repo.objects.filter fun object => Text.startsWith object.id name.toLower with
    | [object] => some object
    | _ => none
  else none

def denotes (name : String) : Option GitObject :=
  if repo.isFullId name then
    repo.objects.find? fun object => decide (object.id = name.toLower)
  else (repo.refObject name).or ((repo.abbreviated name).or (repo.expression name))

/-- What git prints for a text: the id of the object it denotes, or of the commit behind it where
the text asks for one. -/
def revParse (text : String) : Option String :=
  match Text.stripSuffix text "^{commit}" with
  | some name => (repo.denotes name).map GitObject.peel
  | none => (repo.denotes text).map GitObject.id

end GitRepository

/-! ### Resolving a ref -/

inductive MirrorError where
  | io (message : String)
  deriving DecidableEq

def shaPrefixMin : Nat := 7

def isShaPrefix (refStr : String) : Bool :=
  decide (shaPrefixMin ≤ refStr.toList.length) && refStr.toList.all isHexDigit

def shaHits (repo : GitRepository) (refStr : String) : List String :=
  repo.revList.filter fun id => Text.startsWith id.toLower refStr.toLower

def resolveName (repo : GitRepository) (refStr : String) : Option String :=
  (repo.revParse refStr).map String.toLower

def resolveLocal (repo : GitRepository) (refStr : String) : Except MirrorError (Option String) :=
  if looksLikeSha refStr then
    .ok ((repo.revParse (refStr ++ "^{commit}")).map String.toLower)
  else if isShaPrefix refStr then
    match shaHits repo refStr with
    | [] => .ok (resolveName repo refStr)
    | [hit] => .ok (some hit.toLower)
    | hits =>
      .error (.io ("sha prefix \"" ++ refStr ++ "\" matched " ++ toString hits.length ++
        " commits; supply more hex"))
  else .ok (resolveName repo refStr)

/-! ### What is promised -/

def IsCommitId (repo : GitRepository) (id : String) : Prop :=
  ∃ parents, .commit id parents ∈ repo.objects

def Denoted (repo : GitRepository) (text : String) (object : GitObject) : Prop :=
  repo.denotes ((Text.stripSuffix text "^{commit}").getD text) = some object

/-- The ways to name a commit: by its id, by the beginning of its id, and by a text that denotes
it or a tag of it for git, such as a branch or a tag. -/
inductive Names (repo : GitRepository) (text : String) : String → Prop where
  | sha {id : String} : looksLikeSha text = true → IsCommitId repo id → text.toLower = id →
      Names repo text id
  | abbreviation {id : String} : looksLikeSha text = false → isShaPrefix text = true →
      id ∈ repo.revList → Text.startsWith id text.toLower = true → Names repo text id
  | object {object : GitObject} : Denoted repo text object → Names repo text object.peel

/-- **A text resolves to a commit**: to nothing else, and to the one it names where it names
one. -/
structure ResolvesToCommit (repo : GitRepository) (text : String) : Prop where
  commit : ∀ id, resolveLocal repo text = .ok (some id) → IsCommitId repo id
  same : ∀ id, Names repo text id → (∀ other, Names repo text other → other = id) →
    resolveLocal repo text = .ok (some id)

/-- The text is read as the id of a commit or its beginning. -/
def ReadAsId (repo : GitRepository) (text : String) : Prop :=
  looksLikeSha text = true ∨ isShaPrefix text = true ∧ shaHits repo text ≠ []

/-- What the text denotes is a commit, unless the text asks for the commit behind it. -/
def DenotesCommit (repo : GitRepository) (text : String) : Prop :=
  Text.stripSuffix text "^{commit}" = none →
    ∀ object, repo.denotes text = some object → object.IsCommit

/-! ### Objects and their ids -/

section Repository

variable {repo : GitRepository}

theorem mem_objects_of_denotes {name : String} {object : GitObject}
    (found : repo.denotes name = some object) : object ∈ repo.objects := by
  unfold GitRepository.denotes at found
  split at found
  · exact List.mem_of_find?_eq_some found
  · rcases Option.or_eq_some_iff.mp found with ref | ⟨-, found⟩
    · unfold GitRepository.refObject at ref
      obtain ⟨full, _, points⟩ := List.exists_of_findSome?_eq_some ref
      obtain ⟨before, after, listed, -⟩ := List.lookup_eq_some_iff.mp points
      exact repo.referred (full, object) (listed ▸ List.mem_append_right _ List.mem_cons_self)
    · rcases Option.or_eq_some_iff.mp found with short | ⟨-, expressed⟩
      · unfold GitRepository.abbreviated at short
        split at short
        · split at short
          next only single =>
              cases short
              exact (List.mem_filter.mp (single ▸ List.mem_singleton_self _)).1
          · cases short
        · cases short
      · exact repo.expressed _ _ expressed

theorem isCommitId_peel {object : GitObject} (member : object ∈ repo.objects) :
    IsCommitId repo object.peel := by
  induction object with
  | commit id parents => exact ⟨parents, member⟩
  | tag id target ih => exact ih (repo.tagged id target member)

theorem isCommitId_of_mem_revList {id : String} (member : id ∈ repo.revList) :
    IsCommitId repo id := by
  have reachable := (repo.listed id).mp member
  induction reachable with
  | tip ref => exact isCommitId_peel (repo.referred _ ref)
  | parent _ child among _ => exact repo.parental _ _ child _ among

theorem IsCommitId.toLower {id : String} (commit : IsCommitId repo id) : id.toLower = id := by
  obtain ⟨parents, member⟩ := commit
  exact (repo.spelled _ member).2.2

theorem GitObject.IsCommit.peel_eq {object : GitObject} (commit : object.IsCommit) :
    object.peel = object.id := by
  cases object with
  | commit id parents => rfl
  | tag id target => exact commit.elim

theorem isCommit_of_isCommitId {object : GitObject} (member : object ∈ repo.objects)
    (commit : IsCommitId repo object.id) : object.IsCommit := by
  obtain ⟨parents, there⟩ := commit
  rw [repo.unique _ member _ there rfl]
  trivial

end Repository

/-! ### Texts that ask for a commit -/

theorem stripSuffix_append (s tail : String) : Text.stripSuffix (s ++ tail) tail = some s := by
  unfold Text.stripSuffix
  rw [Option.map_eq_some_iff]
  refine ⟨s.toList.reverse, ?_, by simp⟩
  rw [List.isPrefixOf?_eq_some_iff_append_eq]
  simp

theorem stripSuffix_commit_of_hex {text : String} (hex : text.toList.all isHexDigit = true) :
    Text.stripSuffix text "^{commit}" = none := by
  rw [Option.eq_none_iff_forall_ne_some]
  intro name found
  unfold Text.stripSuffix at found
  obtain ⟨front, whole, -⟩ := Option.map_eq_some_iff.mp found
  rw [List.isPrefixOf?_eq_some_iff_append_eq] at whole
  have brace : '}' ∈ text.toList := by
    rw [← List.mem_reverse, ← whole]
    exact List.mem_append_left _ (by decide)
  exact absurd (List.all_eq_true.mp hex _ brace) (by decide)

theorem hex_of_looksLikeSha {text : String} (sha : looksLikeSha text = true) :
    text.toList.all isHexDigit = true :=
  (Bool.and_eq_true_iff.mp sha).2

theorem length_toLower (text : String) : text.toLower.toList.length = text.toList.length := by
  unfold String.toLower
  rw [String.toList_map, List.length_map]

section Resolve

variable {repo : GitRepository} {text : String}

theorem resolveName_eq {object : GitObject} (denoted : Denoted repo text object)
    (commit : DenotesCommit repo text) : resolveName repo text = some object.peel := by
  have lower : object.peel.toLower = object.peel :=
    (isCommitId_peel (mem_objects_of_denotes denoted)).toLower
  unfold resolveName GitRepository.revParse
  cases asks : Text.stripSuffix text "^{commit}" with
  | some name =>
    rw [Denoted, asks, Option.getD_some] at denoted
    simp only [denoted, Option.map_some, lower]
  | none =>
    rw [Denoted, asks, Option.getD_none] at denoted
    have same := (commit asks object denoted).peel_eq
    simp only [denoted, Option.map_some, ← same, lower]

theorem exists_denoted_of_resolveName {id : String} (found : resolveName repo text = some id) :
    ∃ object, Denoted repo text object := by
  unfold resolveName GitRepository.revParse at found
  unfold Denoted
  cases asks : Text.stripSuffix text "^{commit}" with
  | some name =>
    simp only [asks, Option.map_map, Option.map_eq_some_iff] at found
    obtain ⟨object, denoted, -⟩ := found
    exact ⟨object, denoted⟩
  | none =>
    simp only [asks, Option.map_map, Option.map_eq_some_iff] at found
    obtain ⟨object, denoted, -⟩ := found
    exact ⟨object, denoted⟩

theorem commit_of_resolveName (commit : DenotesCommit repo text) {id : String}
    (found : resolveName repo text = some id) : IsCommitId repo id := by
  obtain ⟨object, denoted⟩ := exists_denoted_of_resolveName found
  rw [resolveName_eq denoted commit, Option.some_inj] at found
  exact found ▸ isCommitId_peel (mem_objects_of_denotes denoted)

theorem denoted_of_sha (sha : looksLikeSha text = true) {id : String}
    (commit : IsCommitId repo id) (lower : text.toLower = id) :
    ∃ parents, Denoted repo text (.commit id parents) := by
  obtain ⟨parents, member⟩ := commit
  have full : repo.isFullId text = true := by
    unfold GitRepository.isFullId
    have length := (repo.spelled _ member).1
    rw [GitObject.id, ← lower, length_toLower] at length
    rw [decide_eq_true length, hex_of_looksLikeSha sha, Bool.true_and]
  have found : (repo.objects.find? fun object => decide (object.id = text.toLower)).isSome := by
    rw [List.find?_isSome]
    exact ⟨_, member, decide_eq_true (lower ▸ rfl)⟩
  obtain ⟨object, found⟩ := Option.isSome_iff_exists.mp found
  have same : decide (object.id = text.toLower) = true :=
    @List.find?_some _ (fun object : GitObject => decide (object.id = text.toLower)) _ _ found
  have whole := repo.unique _ (List.mem_of_find?_eq_some found) _ member
    ((of_decide_eq_true same).trans lower)
  refine ⟨parents, ?_⟩
  rw [Denoted, stripSuffix_commit_of_hex (hex_of_looksLikeSha sha), Option.getD_none,
    GitRepository.denotes, if_pos full, found, whole]

theorem resolvesToCommit_of_sha (sha : looksLikeSha text = true) :
    ResolvesToCommit repo text := by
  have asks := stripSuffix_append text "^{commit}"
  have plain := stripSuffix_commit_of_hex (hex_of_looksLikeSha sha)
  have whole : resolveLocal repo text =
      .ok (((repo.denotes text).map GitObject.peel).map String.toLower) := by
    unfold resolveLocal GitRepository.revParse
    rw [if_pos sha, asks]
  have denotes : ∀ object, Denoted repo text object →
      resolveLocal repo text = .ok (some object.peel) := by
    intro object denoted
    rw [Denoted, plain, Option.getD_none] at denoted
    rw [whole, denoted, Option.map_some, Option.map_some,
      (isCommitId_peel (mem_objects_of_denotes denoted)).toLower]
  constructor
  · intro id resolved
    rw [whole, Except.ok.injEq, Option.map_map, Option.map_eq_some_iff] at resolved
    obtain ⟨object, denoted, rfl⟩ := resolved
    have commit := isCommitId_peel (mem_objects_of_denotes denoted)
    rwa [Function.comp_apply, commit.toLower]
  · intro id named _
    cases named with
    | sha _ commit lower =>
      obtain ⟨parents, denoted⟩ := denoted_of_sha sha commit lower
      exact denotes _ denoted
    | abbreviation long => exact absurd (sha.symm.trans long) (by decide)
    | object denoted => exact denotes _ denoted

theorem resolvesToCommit_of_shaHits (long : looksLikeSha text = false)
    (short : isShaPrefix text = true) (hits : shaHits repo text ≠ []) :
    ResolvesToCommit repo text := by
  have hit : ∀ id ∈ shaHits repo text, Names repo text id ∧ IsCommitId repo id := by
    intro id member
    obtain ⟨listed, starts⟩ := List.mem_filter.mp member
    have commit := isCommitId_of_mem_revList listed
    rw [commit.toLower] at starts
    exact ⟨.abbreviation long short listed starts, commit⟩
  have nodup : (shaHits repo text).Nodup := repo.nodup.filter _
  cases found : shaHits repo text with
  | nil => exact absurd found hits
  | cons first rest =>
    obtain ⟨named, commit⟩ := hit first (found ▸ List.mem_cons_self)
    cases rest with
    | nil =>
      have whole : resolveLocal repo text = .ok (some first) := by
        unfold resolveLocal
        rw [long, short, found]
        simp only [Bool.false_eq_true, if_false, if_true, commit.toLower]
      constructor
      · intro id resolved
        rw [whole, Except.ok.injEq, Option.some_inj] at resolved
        exact resolved ▸ commit
      · intro id _ only
        rw [whole, only first named]
    | cons second rest =>
      constructor
      · intro id resolved
        unfold resolveLocal at resolved
        rw [long, short, found] at resolved
        simp at resolved
      · intro id _ only
        -- Two commits begin like this, so the text names no single one.
        have second' := (hit second (found ▸ List.mem_cons_of_mem _ List.mem_cons_self)).1
        rw [found] at nodup
        have apart := (List.nodup_cons.mp nodup).1
        refine absurd ?_ apart
        rw [only first named, ← only second second']
        exact List.mem_cons_self

theorem resolveLocal_of_name (name : ¬ ReadAsId repo text) :
    resolveLocal repo text = .ok (resolveName repo text) := by
  unfold ReadAsId at name
  push Not at name
  unfold resolveLocal
  rw [if_neg name.1]
  by_cases short : isShaPrefix text = true
  · rw [if_pos short, name.2 short]
  · rw [if_neg short]

theorem denoted_of_names (name : ¬ ReadAsId repo text) {id : String}
    (named : Names repo text id) : ∃ object, Denoted repo text object ∧ object.peel = id := by
  cases named with
  | sha long => exact absurd (Or.inl long) name
  | abbreviation _ short listed starts =>
    refine absurd (Or.inr ⟨short, List.ne_nil_of_mem (List.mem_filter.mpr ⟨listed, ?_⟩)⟩) name
    rwa [(isCommitId_of_mem_revList listed).toLower]
  | object denoted => exact ⟨_, denoted, rfl⟩

end Resolve

/-- **When a text resolves to a commit**: it is read as an id, or what it denotes is a commit. -/
theorem resolvesToCommit_iff (repo : GitRepository) (text : String) :
    ResolvesToCommit repo text ↔ ReadAsId repo text ∨ DenotesCommit repo text := by
  by_cases read : ReadAsId repo text
  · refine iff_of_true ?_ (Or.inl read)
    by_cases long : looksLikeSha text = true
    · exact resolvesToCommit_of_sha long
    · obtain ⟨short, hits⟩ := read.resolve_left long
      exact resolvesToCommit_of_shaHits (Bool.eq_false_iff.mpr long) short hits
  · rw [or_iff_right read]
    have whole := resolveLocal_of_name read
    constructor
    · intro resolves asks object denoted
      have member := mem_objects_of_denotes denoted
      have printed : resolveLocal repo text = .ok (some object.id) := by
        rw [whole]
        unfold resolveName GitRepository.revParse
        simp only [asks, denoted, Option.map_some, (repo.spelled _ member).2.2]
      exact isCommit_of_isCommitId member (resolves.commit _ printed)
    · intro commit
      constructor
      · intro id resolved
        rw [whole, Except.ok.injEq] at resolved
        exact commit_of_resolveName commit resolved
      · intro id named _
        obtain ⟨object, denoted, rfl⟩ := denoted_of_names read named
        rw [whole, resolveName_eq denoted commit]

/-! ### An annotated tag -/

def releaseCommit : GitObject :=
  .commit "c0ffee0000000000000000000000000000000000" []

def releaseTag : GitObject :=
  .tag "7a90000000000000000000000000000000000000" releaseCommit

private theorem reachable_release {id : String} :
    id ∈ [releaseCommit.id] ↔ Reachable [releaseCommit, releaseTag]
      [("refs/heads/main", releaseCommit), ("refs/tags/v1", releaseTag)] id := by
  rw [List.mem_singleton]
  constructor
  · rintro rfl
    exact @Reachable.tip _ _ "refs/heads/main" releaseCommit List.mem_cons_self
  · intro reachable
    induction reachable with
    | tip ref =>
      simp only [List.mem_cons, Prod.mk.injEq, List.not_mem_nil, or_false] at ref
      rcases ref with ⟨-, rfl⟩ | ⟨-, rfl⟩ <;> rfl
    | parent _ child among _ =>
      simp only [List.mem_cons, List.not_mem_nil, or_false, releaseCommit, releaseTag,
        GitObject.commit.injEq, reduceCtorEq] at child
      rw [child.2] at among
      cases among

def taggedRepository : GitRepository where
  objects := [releaseCommit, releaseTag]
  refs := [("refs/heads/main", releaseCommit), ("refs/tags/v1", releaseTag)]
  revList := [releaseCommit.id]
  expression _ := none
  idLength := 40
  hash := Or.inl rfl
  spelled := by decide +kernel
  unique := by decide +kernel
  tagged id target member := by
    simp only [List.mem_cons, List.not_mem_nil, or_false, releaseCommit, releaseTag,
      GitObject.tag.injEq, reduceCtorEq, false_or] at member
    exact member.2 ▸ List.mem_cons_self
  referred := by decide +kernel
  parental id parents member parent among := by
    simp only [List.mem_cons, List.not_mem_nil, or_false, releaseCommit, releaseTag,
      GitObject.commit.injEq, reduceCtorEq] at member
    rw [member.2] at among
    cases among
  expressed text object found := by cases found
  listed _ := reachable_release
  nodup := List.nodup_singleton _

theorem resolveLocal_annotatedTag :
    resolveLocal taggedRepository "main" = .ok (some releaseCommit.id) ∧
      resolveLocal taggedRepository "v1" = .ok (some releaseTag.id) := by
  decide +kernel

/-- **An annotated tag resolves to the tag**, which is no commit. -/
theorem resolvesToCommit_fails :
    ¬ ∀ (repo : GitRepository) (text : String), ResolvesToCommit repo text := by
  intro always
  obtain ⟨parents, member⟩ := (always taggedRepository "v1").commit _ resolveLocal_annotatedTag.2
  have none : ∀ object ∈ taggedRepository.objects, object.id = releaseTag.id →
      object = releaseTag := by
    decide +kernel
  cases none _ member rfl

end Lain.Snapshots
