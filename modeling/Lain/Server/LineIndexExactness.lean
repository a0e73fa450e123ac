import Mathlib
import Lain.Server.JsonWeights

/-!
# When the JSON line index is exact

The index of a JSON document holds its keys with their lines if no key comes behind an empty object
of the same member of the root, and each key is spelled and set in a way that the reader knows.
-/

namespace Lain.Server.OpenapiLineIndex

open Foundation

/-! ### The root -/

def Members.isRootLegible : Members → Bool
  | .nil _ => true
  | .cons _ blanks value rest =>
    InlineBlank.isNear blanks.beforeColon && value.isLegible false && rest.isRootLegible

theorem leaves_root (value : Value) (key : Spelling) (blanks : MemberBlanks) :
    (value.leaves (seenPath [] key blanks)).dropLast = [] :=
  List.sublist_nil.mp (dropLast_sublist_of_concat
    (Value.leaves_sublist value (seenPath_sublist (List.Sublist.refl []) key blanks)))

theorem Members.found_root : ∀ (ms : Members) (line : Nat), ms.isRootLegible = true →
    ms.found [] line = ms.keys Spelling.read [] line
  | .nil _, _, _ => rfl
  | .cons key blanks value rest, line, legible => by
    rw [Members.isRootLegible, Bool.and_eq_true, Bool.and_eq_true] at legible
    obtain ⟨⟨near, inside⟩, later⟩ := legible
    rw [Members.found, Members.keys, leaves_root, Members.found_root rest _ later, if_pos near,
      seenPath_of_near near, (Value.of_isLegible value inside).1]
    rfl

theorem Members.weight_root : ∀ (ms : Members) (line : Nat),
    weight (ms.found [] line) ≤ weight (ms.keys Spelling.read [] line) ∧
      (weight (ms.found [] line) = weight (ms.keys Spelling.read [] line) →
        ms.isRootLegible = true)
  | .nil _, _ => ⟨Nat.le_refl _, fun _ => rfl⟩
  | .cons key blanks value rest, line => by
    obtain ⟨less, tight⟩ := Value.weight_found value
      (lineAfter (lineAfter line blanks.beforeKey.1) blanks.afterColon.1)
      (seenPath_sublist (List.Sublist.refl []) key blanks) (by simp)
    obtain ⟨lessRest, tightRest⟩ := Members.weight_root rest
      (lineAfter (lineAfter (lineAfter (lineAfter line blanks.beforeKey.1)
        blanks.afterColon.1) value.text) blanks.behind.1)
    rw [Members.found, Members.keys, leaves_root]
    simp only [weight_append, weight_cons, pathWeight_append, pathWeight_singleton]
    cases near : InlineBlank.isNear blanks.beforeColon with
    | false =>
      rw [if_neg Bool.false_ne_true, weight_nil]
      exact ⟨by omega, fun same => by omega⟩
    | true =>
      rw [if_pos rfl, weight_cons, weight_nil, pathWeight_append, pathWeight_singleton]
      refine ⟨by omega, fun same => ?_⟩
      rw [seenPath_of_near near] at tight less same
      have legible : value.isLegible false = true := by
        simpa using tight (by omega)
      rw [Members.isRootLegible, near, legible, tightRest (by omega)]
      rfl

/-! ### The index -/

/-- The keys of each object of a document are distinct. -/
def Document.Distinct (doc : Document) : Prop :=
  doc.root.Distinct

/-- The index of a document has its keys, each with its line, and nothing else. -/
def IsExact (doc : Document) : Prop :=
  ∃ index, buildJson doc.text = some index ∧
    ∀ path line, index.map.get? path = some line ↔ (path, line) ∈ doc.keys

/-- The reader knows each key of a document where it is: within a member of the root no key comes
behind an empty object, there are only spaces and tabs between a key and its colon, no key is
spelled with `\b`, `\f` or surrogates, and each is on a line that has a number of 32 bits. -/
structure IsReadable (doc : Document) : Prop where
  legible : doc.root.isRootLegible = true
  simple : ∀ s ∈ doc.root.names, s.isSimple = true
  numbered : ∀ e ∈ doc.keys, e.2 < 2 ^ 32

variable {doc : Document}

theorem Document.nodup_keys (distinct : doc.Distinct) :
    doc.keys.Pairwise fun e e' => e.1 ≠ e'.1 :=
  Members.nodup_keys doc.root _ _ distinct

theorem Document.found_eq (legible : doc.root.isRootLegible = true)
    (simple : ∀ s ∈ doc.root.names, s.isSimple = true) : doc.found = doc.keys := by
  unfold Document.found Document.keys
  rw [Members.found_root _ _ legible]
  exact Members.keys_congr _ _ _ fun s member => (charWeight_spelling s).2.2 (simple s member)

theorem Document.legible_of_subset (distinct : doc.Distinct)
    (all : ∀ e ∈ doc.keys, e.1 ∈ doc.found.map Prod.fst) :
    doc.root.isRootLegible = true ∧ ∀ s ∈ doc.root.names, s.isSimple = true := by
  obtain ⟨less, tight⟩ := Members.weight_root doc.root (lineAfter 1 doc.before.1)
  obtain ⟨lessKeys, tightKeys⟩ := Members.weight_keys doc.root (lineAfter 1 doc.before.1)
    (Nat.le_refl (pathWeight []))
  have same : weight doc.found = weight doc.keys := by
    have fewer : (doc.found.map Prod.fst).length ≤ (doc.keys.map Prod.fst).length := by
      rw [List.length_map, List.length_map]
      exact Members.length_found doc.root _ _ _ _
    have part : (doc.keys.map Prod.fst).Subperm (doc.found.map Prod.fst) := by
      refine List.subperm_of_subset ?_ fun path member => ?_
      · exact List.pairwise_map.mpr (doc.nodup_keys distinct)
      · obtain ⟨e, listed, rfl⟩ := List.mem_map.mp member
        exact all e listed
    have sums := ((part.perm_of_length_le fewer).map pathWeight).sum_eq
    rw [List.map_map, List.map_map] at sums
    exact sums.symm
  have lower : weight doc.found ≤ weight (doc.root.keys Spelling.read [] _) := less
  have upper : weight (doc.root.keys Spelling.read [] _) ≤ weight doc.keys := lessKeys
  exact ⟨tight (by change weight doc.found = _; omega),
    tightKeys (by change _ = weight doc.keys; omega)⟩

/-- **The index of a JSON document is exact exactly when** the reader knows each key where it is. -/
theorem isExact_iff (distinct : doc.Distinct) : IsExact doc ↔ IsReadable doc := by
  obtain ⟨index, built, made⟩ := doc.exists_buildJson
  have distinctWrapped : (doc.keys.map fun e => (e.1, wrap e.2)).Pairwise
      fun e e' => e.1 ≠ e'.1 :=
    List.pairwise_map.mpr (doc.nodup_keys distinct)
  constructor
  · rintro ⟨index', built', exact_⟩
    obtain rfl := Option.some_inj.mp (built'.symm.trans built)
    rw [made] at exact_
    obtain ⟨legible, simple⟩ := doc.legible_of_subset distinct fun e member => by
      obtain ⟨front, back, whole, -⟩ := SortedMap.get?_foldl_insert_eq_some.mp
        ((exact_ e.1 e.2).mpr member)
      have listed : (e.1, e.2) ∈ doc.found.map fun e => (e.1, wrap e.2) := by
        rw [whole]
        simp
      obtain ⟨e', there, same⟩ := List.mem_map.mp listed
      exact List.mem_map.mpr ⟨e', there, (Prod.mk.inj same).1⟩
    refine ⟨legible, simple, fun e member => ?_⟩
    rw [doc.found_eq legible simple] at exact_
    have entered : (e.1, wrap e.2) ∈ doc.keys.map fun e => (e.1, wrap e.2) :=
      List.mem_map.mpr ⟨e, member, rfl⟩
    have one : e.2 = wrap e.2 := Option.some_inj.mp (((exact_ e.1 e.2).mpr member).symm.trans
      ((SortedMap.get?_foldl_insert_of_distinct distinctWrapped).mpr entered))
    rw [one]
    exact Nat.mod_lt _ (by decide)
  · rintro ⟨legible, simple, numbered⟩
    refine ⟨index, built, fun path line => ?_⟩
    rw [made, doc.found_eq legible simple,
      SortedMap.get?_foldl_insert_of_distinct distinctWrapped, List.map_congr_left fun e member =>
        show (e.1, wrap e.2) = id e from Prod.ext rfl (Nat.mod_eq_of_lt (numbered e member)),
      List.map_id]

/-! ### Two documents -/

def letter (c : Char) (allowed : c ≠ '"' ∧ c ≠ '\\' ∧ 32 ≤ c.toNat) : Spelling :=
  [.plain c allowed]

def tight : MemberBlanks :=
  ⟨⟨[], by simp⟩, ⟨[], by simp⟩, ⟨[], by simp⟩, ⟨[], by simp⟩⟩

def noMembers : Members :=
  .nil ⟨[], by simp⟩

def emptyMember : Document where
  before := ⟨[], by simp⟩
  root := .cons (letter 'a' (by decide)) tight (.object noMembers) noMembers
  behind := ⟨[], by simp⟩

def emptyInside : Document where
  before := ⟨[], by simp⟩
  root := .cons (letter 'x' (by decide)) tight
    (.object (.cons (letter 'a' (by decide)) tight (.object noMembers)
      (.cons (letter 'b' (by decide)) tight (.object noMembers) noMembers))) noMembers
  behind := ⟨[], by simp⟩

theorem isExact_iff_emptyMember : IsExact emptyMember :=
  (@isExact_iff emptyMember ⟨by decide, trivial, trivial⟩).mpr ⟨by decide, by decide, by decide⟩

/-- Behind an empty object the key `b` in `x` is entered without `x`. -/
theorem isExact_fails : emptyInside.Distinct ∧ ¬ IsExact emptyInside := by
  refine ⟨⟨by decide, ⟨by decide, trivial, by decide, trivial, trivial⟩, trivial⟩, ?_⟩
  rintro ⟨index, built, exact_⟩
  obtain ⟨index', built', made⟩ := emptyInside.exists_buildJson
  obtain rfl := Option.some_inj.mp (built'.symm.trans built)
  have found : emptyInside.found = [([['x']], 1), ([['x'], ['a']], 1), ([['b']], 1)] := by
    simp [Document.found, emptyInside, Members.found, Value.found, Value.leaves, seenPath,
      Spelling.read_eq, Piece.read, letter, tight, noMembers, InlineBlank.isNear, lineAfter,
      Value.text, Members.text]
  have entered : index'.map.get? [['b']] = some 1 := by
    rw [made, found]
    decide
  exact absurd ((exact_ [['b']] 1).mp entered) (by decide)

end Lain.Server.OpenapiLineIndex
