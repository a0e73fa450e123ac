import Mathlib
import Lain.Foundation.TextEnds

/-!
# Annotation targets

An annotation is stored with the kind of its target and one text that names the target.
-/

namespace Lain.Server.Annotations

open Foundation

/-- What an annotation is about. -/
inductive AnnotationTarget where
  | symbol (symbol : String)
  | edge (source target : String)
  | file (file : String)
  | repo (repoId : String)
  deriving DecidableEq

def AnnotationTarget.targetKindStr : AnnotationTarget → String
  | symbol _ => "symbol"
  | edge _ _ => "edge"
  | file _ => "file"
  | repo _ => "repo"

inductive AnnotationKind where
  | note | warning | todo | investigation | fix
  deriving DecidableEq

def AnnotationKind.asStr : AnnotationKind → String
  | note => "note"
  | warning => "warning"
  | todo => "todo"
  | investigation => "investigation"
  | fix => "fix"

inductive AnnotationStatus where
  | open | resolved | stale
  deriving DecidableEq

def AnnotationStatus.asStr : AnnotationStatus → String
  | .open => "open"
  | resolved => "resolved"
  | stale => "stale"

structure Annotation where
  id : String
  targetKind : String
  targetId : String
  kind : String
  body : String
  author : String
  createdAtUnixMs : Nat
  updatedAtUnixMs : Nat
  status : String
  resolvedBy : Option String
  resolvedAtUnixMs : Option Nat
  refs : List AnnotationTarget
  deriving DecidableEq

/-! ### Names of targets -/

def arrow : String := " -> "

def isDriveAbsolute : List Char → Bool
  | letter :: ':' :: _ => letter.isAlpha
  | _ => false

def isRejected (p : String) : Bool :=
  (Text.cutChars ['.', '.'] p.toList).isSome || Text.startsWith p "/" || Text.startsWith p "\\" ||
    isDriveAbsolute p.toList

def posixString (separator : Char) (p : String) : String :=
  if separator = '/' then p
  else String.ofList (p.toList.map fun c => if c = separator then '/' else c)

variable (separator : Char)

/-- The path of a file target as it is stored; none of one that is rejected. -/
def canonicalFile (p : String) : String :=
  if isRejected p then "" else posixString separator p

def canonicalTargetId : AnnotationTarget → String
  | .symbol symbol => "symbol:" ++ symbol
  | .file file => "file:" ++ canonicalFile separator file
  | .repo repoId => "repo:" ++ repoId
  | .edge source target => "edge:" ++ (source ++ arrow ++ target)

structure AddAnnotationInputs where
  target : AnnotationTarget
  kind : AnnotationKind
  body : String
  author : String
  refs : List AnnotationTarget

def AddAnnotationInputs.intoAnnotation (inputs : AddAnnotationInputs) (newId : String)
    (now : Nat) : Annotation where
  id := newId
  targetKind := inputs.target.targetKindStr
  targetId := canonicalTargetId separator inputs.target
  kind := inputs.kind.asStr
  body := inputs.body
  author := inputs.author
  createdAtUnixMs := now
  updatedAtUnixMs := now
  status := AnnotationStatus.open.asStr
  resolvedBy := none
  resolvedAtUnixMs := none
  refs := inputs.refs

def annotationTargetFromRow (a : Annotation) : Option AnnotationTarget :=
  match Text.stripPrefix a.targetId (a.targetKind ++ ":") with
  | none => none
  | some stripped =>
    match a.targetKind with
    | "symbol" => some (.symbol stripped)
    | "file" => some (.file stripped)
    | "repo" => some (.repo stripped)
    | "edge" =>
      (Text.splitOnce ((Text.stripPrefix stripped "edge:").getD stripped) arrow).map
        fun ends => .edge ends.1 ends.2
    | _ => none

/-! ### Targets that keep their identity -/

def AnnotationTarget.canonical : AnnotationTarget → AnnotationTarget
  | .file path => .file (canonicalFile separator path)
  | other => other

def AnnotationTarget.accepted : AnnotationTarget → Bool
  | .file path => !isRejected path
  | _ => true

/-- A target that is read back from its row and shares its name with no other target. -/
structure KeepsIdentity (target : AnnotationTarget) : Prop where
  /-- What is read from the row is the target. -/
  comesBack : ∀ (inputs : AddAnnotationInputs) (newId : String) (now : Nat),
    inputs.target = target →
      annotationTargetFromRow (inputs.intoAnnotation separator newId now) =
        some (target.canonical separator)
  /-- Another target has another kind or another text. -/
  apart : ∀ other : AnnotationTarget, other.accepted = true →
    other.canonical separator ≠ target.canonical separator →
      (other.targetKindStr, canonicalTargetId separator other) ≠
        (target.targetKindStr, canonicalTargetId separator target)

structure ClearEdge (source target : String) : Prop where
  /-- No arrow begins before the one between the ends. -/
  noneBefore : ¬arrow.toList <:+: source.toList ++ [' ']
  /-- No arrow begins after it. -/
  noneAfter : ¬arrow.toList <:+: ' ' :: target.toList
  /-- The first end is no edge's text. -/
  unmarked : ¬"edge:".toList <+: source.toList

def AnnotationTarget.Clear : AnnotationTarget → Prop
  | .edge source target => ClearEdge source target
  | _ => True

/-! ### Texts with one arrow -/

theorem exists_cutChars (pattern front rest : List Char) :
    ∃ a b, Text.cutChars pattern (front ++ (pattern ++ rest)) = some (a, b) ∧
      a ++ (pattern ++ b) = front ++ (pattern ++ rest) ∧ a.length ≤ front.length := by
  induction front with
  | nil =>
    refine ⟨[], rest, ?_, rfl, le_rfl⟩
    have here : pattern.isPrefixOf? (pattern ++ rest) = some rest :=
      List.isPrefixOf?_eq_some_iff_append_eq.mpr rfl
    rw [List.nil_append]
    cases whole : pattern ++ rest with
    | nil =>
      obtain ⟨rfl, rfl⟩ := List.append_eq_nil_iff.mp whole
      rfl
    | cons x after =>
      rw [whole] at here
      rw [Text.cutChars, here]
  | cons x front ih =>
    obtain ⟨a, b, cut, whole, short⟩ := ih
    rw [List.cons_append, Text.cutChars]
    cases here : pattern.isPrefixOf? (x :: (front ++ (pattern ++ rest))) with
    | some after =>
      have whole : pattern ++ after = x :: (front ++ (pattern ++ rest)) :=
        List.isPrefixOf?_eq_some_iff_append_eq.mp here
      exact ⟨[], after, rfl, whole, Nat.zero_le _⟩
    | none =>
      refine ⟨x :: a, b, by rw [cut]; rfl, by rw [List.cons_append, whole], ?_⟩
      exact Nat.succ_le_succ short

theorem toList_arrow : arrow.toList = [' ', '-', '>', ' '] := by decide

theorem infix_of_earlier {more b target : List Char} (some : more ≠ [])
    (same : arrow.toList ++ b = more ++ (arrow.toList ++ target)) :
    arrow.toList <:+: more ++ [' '] ∧ arrow.toList <:+: ' ' :: b := by
  rw [toList_arrow] at same ⊢
  match more, some with
  | [c], _ => simp at same
  | [c, d], _ => simp at same
  | c :: d :: e :: more, _ =>
    obtain ⟨rfl, rfl, rfl, tail⟩ : ' ' = c ∧ '-' = d ∧ '>' = e ∧
        ' ' :: b = more ++ ' ' :: '-' :: '>' :: ' ' :: target := by simpa using same
    constructor
    · cases more with
      | nil => exact ⟨[], [], rfl⟩
      | cons f more =>
        obtain ⟨rfl, -⟩ := List.cons.inj tail
        exact ⟨[], more ++ [' '], by simp⟩
    · rw [tail]
      exact ⟨more, target, by simp⟩

/-- **The ends of a clear edge are the only ones of its text.** -/
theorem ClearEdge.unique {source target : String} (clear : ClearEdge source target)
    {a b : List Char}
    (same : a ++ (arrow.toList ++ b) = source.toList ++ (arrow.toList ++ target.toList)) :
    a = source.toList ∧ b = target.toList := by
  rcases List.append_eq_append_iff.mp same with ⟨more, longer, rest⟩ | ⟨more, longer, rest⟩
  · by_cases none : more = []
    · subst none
      exact ⟨by simpa using longer.symm, by simpa using rest⟩
    · obtain ⟨found, -⟩ := infix_of_earlier none rest
      refine absurd ?_ clear.noneBefore
      rw [longer, List.append_assoc]
      exact found.trans (List.suffix_append a _).isInfix
  · by_cases none : more = []
    · subst none
      exact ⟨by simpa using longer, by simpa using rest.symm⟩
    · exact absurd (infix_of_earlier none rest).2 clear.noneAfter

/-! ### Reading a target back -/

theorem canonicalTargetId_edge (source target : String) :
    (canonicalTargetId separator (.edge source target)).toList =
      "edge:".toList ++ (source.toList ++ (arrow.toList ++ target.toList)) := by
  simp [canonicalTargetId, List.append_assoc]

theorem annotationTargetFromRow_edge (inputs : AddAnnotationInputs) (newId : String) (now : Nat)
    {source target : String} (edge : inputs.target = .edge source target) :
    annotationTargetFromRow (inputs.intoAnnotation separator newId now) =
      (Text.splitOnce ((Text.stripPrefix (source ++ arrow ++ target) "edge:").getD
        (source ++ arrow ++ target)) arrow).map fun ends => .edge ends.1 ends.2 := by
  have stripped : Text.stripPrefix (canonicalTargetId separator (.edge source target)) "edge:" =
      some (source ++ arrow ++ target) :=
    Text.stripPrefix_eq_some.mpr rfl
  have marked : "edge" ++ ":" = "edge:" := rfl
  unfold annotationTargetFromRow AddAnnotationInputs.intoAnnotation
  simp only [edge, AnnotationTarget.targetKindStr]
  rw [marked, stripped]

theorem annotationTargetFromRow_other (inputs : AddAnnotationInputs) (newId : String) (now : Nat)
    (other : ∀ source target, inputs.target ≠ .edge source target) :
    annotationTargetFromRow (inputs.intoAnnotation separator newId now) =
      some (inputs.target.canonical separator) := by
  unfold annotationTargetFromRow AddAnnotationInputs.intoAnnotation
  cases kind : inputs.target with
  | symbol name =>
    have stripped : Text.stripPrefix ("symbol:" ++ name) ("symbol" ++ ":") = some name :=
      Text.stripPrefix_eq_some.mpr rfl
    simp only [AnnotationTarget.targetKindStr, canonicalTargetId, stripped]
    rfl
  | file path =>
    have stripped : Text.stripPrefix ("file:" ++ canonicalFile separator path)
        ("file" ++ ":") = some (canonicalFile separator path) :=
      Text.stripPrefix_eq_some.mpr rfl
    simp only [AnnotationTarget.targetKindStr, canonicalTargetId, stripped]
    rfl
  | repo name =>
    have stripped : Text.stripPrefix ("repo:" ++ name) ("repo" ++ ":") = some name :=
      Text.stripPrefix_eq_some.mpr rfl
    simp only [AnnotationTarget.targetKindStr, canonicalTargetId, stripped]
    rfl
  | edge source target => exact absurd kind (other source target)

theorem stripPrefix_edge_eq_none {source target : String}
    (unmarked : ¬"edge:".toList <+: source.toList) :
    Text.stripPrefix (source ++ arrow ++ target) "edge:" = none := by
  rw [Text.stripPrefix_eq_none]
  intro marked
  rw [String.toList_append, String.toList_append, List.append_assoc] at marked
  rcases List.prefix_or_prefix_of_prefix marked (List.prefix_append _ _) with within | ⟨more, whole⟩
  · exact unmarked within
  · rw [← whole, List.prefix_append_right_inj] at marked
    cases more with
    | nil => exact unmarked ⟨[], by rw [List.append_nil, ← whole, List.append_nil]⟩
    | cons c more =>
      rw [toList_arrow] at marked
      obtain ⟨rfl, -⟩ := List.cons_prefix_cons.mp marked
      have blank : ' ' ∈ "edge:".toList := whole ▸ List.mem_append_right _ List.mem_cons_self
      exact absurd blank (by decide)

theorem ClearEdge.comesBack {source target : String} (clear : ClearEdge source target)
    (inputs : AddAnnotationInputs) (newId : String) (now : Nat)
    (edge : inputs.target = .edge source target) :
    annotationTargetFromRow (inputs.intoAnnotation separator newId now) =
      some (.edge source target) := by
  rw [annotationTargetFromRow_edge separator inputs newId now edge,
    stripPrefix_edge_eq_none clear.unmarked, Option.getD_none]
  obtain ⟨a, b, cut, same, -⟩ := exists_cutChars arrow.toList source.toList target.toList
  obtain ⟨rfl, rfl⟩ := clear.unique same
  unfold Text.splitOnce
  rw [String.toList_append, String.toList_append, List.append_assoc, cut]
  simp

theorem not_comesBack_of_marked {source target : String}
    (marked : "edge:".toList <+: source.toList) (inputs : AddAnnotationInputs) (newId : String)
    (now : Nat) (edge : inputs.target = .edge source target) :
    annotationTargetFromRow (inputs.intoAnnotation separator newId now) ≠
      some (.edge source target) := by
  obtain ⟨more, spelled⟩ := marked
  have whole : source = "edge:" ++ String.ofList more :=
    String.toList_injective (by simp only [String.toList_append, String.toList_ofList, spelled])
  have stripped : Text.stripPrefix (source ++ arrow ++ target) "edge:" =
      some (String.ofList more ++ arrow ++ target) :=
    Text.stripPrefix_eq_some.mpr (by rw [whole, String.append_assoc, String.append_assoc,
      String.append_assoc])
  rw [annotationTargetFromRow_edge separator inputs newId now edge, stripped, Option.getD_some]
  obtain ⟨a, b, cut, same, short⟩ := exists_cutChars arrow.toList more target.toList
  unfold Text.splitOnce
  rw [String.toList_append, String.toList_append, String.toList_ofList, List.append_assoc, cut]
  intro back
  obtain ⟨first, -⟩ := AnnotationTarget.edge.inj (Option.some_inj.mp back)
  simp only at first
  have size := congrArg List.length spelled
  have five : "edge:".toList.length = 5 := by decide
  rw [List.length_append, five, ← first] at size
  have same : (String.ofList a).toList.length = a.length := by rw [String.toList_ofList]
  omega

theorem exists_sharing {source target : String}
    (found : arrow.toList <:+: source.toList ++ [' '] ∨ arrow.toList <:+: ' ' :: target.toList) :
    ∃ source' target', (source', target') ≠ (source, target) ∧
      canonicalTargetId separator (.edge source' target') =
        canonicalTargetId separator (.edge source target) := by
  have texts {a b : List Char}
      (same : a ++ (arrow.toList ++ b) = source.toList ++ (arrow.toList ++ target.toList)) :
      canonicalTargetId separator (.edge (String.ofList a) (String.ofList b)) =
        canonicalTargetId separator (.edge source target) := by
    refine String.toList_injective ?_
    simp only [canonicalTargetId_edge, String.toList_ofList, same]
  rcases found with ⟨a, b, spelled⟩ | ⟨a, b, spelled⟩
  · refine ⟨String.ofList a, String.ofList (b ++ ['-', '>', ' '] ++ target.toList), ?_, texts ?_⟩
    · intro same
      have first : a = source.toList := by
        rw [← (Prod.mk.inj same).1, String.toList_ofList]
      have size := congrArg List.length spelled
      simp only [List.length_append, first, toList_arrow, List.length_cons,
        List.length_nil] at size
      omega
    · have tail : source.toList ++ (arrow.toList ++ target.toList) =
          source.toList ++ [' '] ++ (['-', '>', ' '] ++ target.toList) := by
        rw [toList_arrow]
        simp
      rw [tail, ← spelled]
      simp [List.append_assoc]
  · refine ⟨String.ofList (source.toList ++ [' ', '-', '>'] ++ a), String.ofList b, ?_, texts ?_⟩
    · intro same
      have second : b = target.toList := by
        rw [← (Prod.mk.inj same).2, String.toList_ofList]
      have size := congrArg List.length spelled
      simp only [List.length_append, second, toList_arrow, List.length_cons,
        List.length_nil] at size
      omega
    · have tail : source.toList ++ (arrow.toList ++ target.toList) =
          source.toList ++ [' ', '-', '>'] ++ (' ' :: target.toList) := by
        rw [toList_arrow]
        simp
      rw [tail, ← spelled]
      simp [List.append_assoc]

/-! ### The exact condition -/

theorem ClearEdge.apart {source target : String} (clear : ClearEdge source target)
    {other : AnnotationTarget} (different : other ≠ .edge source target) :
    (other.targetKindStr, canonicalTargetId separator other) ≠
      ("edge", canonicalTargetId separator (.edge source target)) := by
  intro same
  obtain ⟨kind, text⟩ := Prod.mk.inj same
  cases other with
  | edge source' target' =>
    have texts := congrArg String.toList text
    rw [canonicalTargetId_edge, canonicalTargetId_edge, List.append_cancel_left_eq] at texts
    obtain ⟨first, second⟩ := clear.unique texts
    rw [String.toList_injective first, String.toList_injective second] at different
    exact different rfl
  | symbol name => exact absurd kind (by simp [AnnotationTarget.targetKindStr])
  | file path => exact absurd kind (by simp [AnnotationTarget.targetKindStr])
  | repo name => exact absurd kind (by simp [AnnotationTarget.targetKindStr])

theorem canonical_eq_of_same {target other : AnnotationTarget}
    (plain : ∀ source target', target ≠ .edge source target')
    (same : (other.targetKindStr, canonicalTargetId separator other) =
      (target.targetKindStr, canonicalTargetId separator target)) :
    other.canonical separator = target.canonical separator := by
  obtain ⟨kind, text⟩ := Prod.mk.inj same
  have named {front a b : String} (texts : front ++ a = front ++ b) : a = b := by
    have chars := congrArg String.toList texts
    rw [String.toList_append, String.toList_append, List.append_cancel_left_eq] at chars
    exact String.toList_injective chars
  cases target with
  | edge source target' => exact absurd rfl (plain source target')
  | symbol name =>
    cases other with
    | symbol name' => exact congrArg AnnotationTarget.symbol (named text)
    | _ => exact absurd kind (by simp [AnnotationTarget.targetKindStr])
  | file path =>
    cases other with
    | file path' => exact congrArg AnnotationTarget.file (named text)
    | _ => exact absurd kind (by simp [AnnotationTarget.targetKindStr])
  | repo name =>
    cases other with
    | repo name' => exact congrArg AnnotationTarget.repo (named text)
    | _ => exact absurd kind (by simp [AnnotationTarget.targetKindStr])

/-- **Which targets keep their identity.** Symbols, files and repositories do, and an edge does
exactly when no arrow begins in its text before or after the one between its ends, and its first
end does not begin like an edge's text. -/
theorem keepsIdentity_iff (target : AnnotationTarget) (accepted : target.accepted = true) :
    KeepsIdentity separator target ↔ target.Clear := by
  cases target with
  | edge source target =>
    constructor
    · intro keeps
      have shares (found : arrow.toList <:+: source.toList ++ [' '] ∨
          arrow.toList <:+: ' ' :: target.toList) : False := by
        obtain ⟨source', target', different, same⟩ := exists_sharing separator found
        refine keeps.apart (.edge source' target') rfl ?_ (congrArg (Prod.mk _) same)
        intro equal
        obtain ⟨rfl, rfl⟩ := AnnotationTarget.edge.inj equal
        exact different rfl
      exact
        { noneBefore := fun found => shares (.inl found)
          noneAfter := fun found => shares (.inr found)
          unmarked := fun marked =>
            not_comesBack_of_marked separator marked ⟨_, .note, "", "", []⟩ "" 0 rfl
              (keeps.comesBack ⟨.edge source target, .note, "", "", []⟩ "" 0 rfl) }
    · intro clear
      exact
        { comesBack := fun inputs newId now edge =>
            ClearEdge.comesBack separator clear inputs newId now edge
          apart := fun other _ different =>
            ClearEdge.apart separator clear fun same => different (same ▸ rfl) }
  | symbol name =>
    refine iff_of_true ⟨?_, fun other _ different same => ?_⟩ trivial
    · rintro inputs newId now kind
      rw [← kind]
      exact annotationTargetFromRow_other separator inputs newId now (by simp [kind])
    · exact different (canonical_eq_of_same separator (by simp) same)
  | file path =>
    refine iff_of_true ⟨?_, fun other _ different same => ?_⟩ trivial
    · rintro inputs newId now kind
      rw [← kind]
      exact annotationTargetFromRow_other separator inputs newId now (by simp [kind])
    · exact different (canonical_eq_of_same separator (by simp) same)
  | repo name =>
    refine iff_of_true ⟨?_, fun other _ different same => ?_⟩ trivial
    · rintro inputs newId now kind
      rw [← kind]
      exact annotationTargetFromRow_other separator inputs newId now (by simp [kind])
    · exact different (canonical_eq_of_same separator (by simp) same)

theorem keepsIdentity_iff_edge :
    KeepsIdentity '/' (.edge "a::b" "c->d") :=
  (keepsIdentity_iff '/' (.edge "a::b" "c->d") rfl).mpr
    ⟨by decide +kernel, by decide +kernel, by decide +kernel⟩

/-- Two edges can share their text, and what is read back is one of them only. -/
theorem keepsIdentity_fails :
    ¬KeepsIdentity '/' (.edge "a -> b" "c") ∧ ¬KeepsIdentity '/' (.edge "edge:a" "b") := by
  constructor
  · intro keeps
    exact keeps.apart (.edge "a" "b -> c") rfl (by decide) (by decide +kernel)
  · intro keeps
    exact not_comesBack_of_marked '/' (by decide +kernel) ⟨_, .note, "", "", []⟩ "" 0 rfl
      (keeps.comesBack ⟨.edge "edge:a" "b", .note, "", "", []⟩ "" 0 rfl)

end Lain.Server.Annotations
