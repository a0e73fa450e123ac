import Mathlib
import Lain.Federation.RepoId

/-!
# Global ids as a code

An id spells five fields, three of which are free of colons by themselves and two
because their colons are encoded.
-/

namespace Lain

open Foundation Contracts

theorem NodeType.mem_all (kind : NodeType) : kind ∈ NodeType.all := by
  cases kind <;> decide

theorem NodeType.debug_injective : Function.Injective NodeType.debug := by
  have distinct : (NodeType.all.map NodeType.debug).Nodup := by decide
  intro left right same
  exact List.inj_on_of_nodup_map distinct left.mem_all right.mem_all same

theorem NodeType.colon_notMem_debug (kind : NodeType) : ':' ∉ kind.debug.toList := by
  cases kind <;> decide

namespace Federation

theorem repoIdNew_eq_some {text : String} {repo : RepoId} (valid : repoIdNew text = some repo) :
    repo = text ∧ ':' ∉ repo.toList := by
  unfold repoIdNew at valid
  split_ifs at valid with bad
  obtain rfl := Option.some.inj valid
  push Not at bad
  exact ⟨rfl, by simpa [Text.contains] using bad.2.1⟩

theorem colon_notMem_encodeSegment (s : String) : ':' ∉ (encodeSegment s).toList := by
  intro member
  rw [encodeSegment, String.toList_ofList, List.mem_flatMap] at member
  obtain ⟨c, -, member⟩ := member
  split_ifs at member with percent colon
  · revert member
    decide
  · revert member
    decide
  · exact colon (List.mem_singleton.mp member).symm

theorem decodeChars_flatMap (cs : List Char) :
    decodeChars (cs.flatMap fun c =>
      if c = '%' then ['%', '2', '5'] else if c = ':' then ['%', '3', 'A'] else [c]) = cs := by
  induction cs with
  | nil => rfl
  | cons c rest ih =>
    rw [List.flatMap_cons]
    split_ifs with percent colon
    · rw [percent]
      exact congrArg ('%' :: ·) ih
    · rw [colon]
      exact congrArg (':' :: ·) ih
    · rw [List.singleton_append, decodeChars, ih]
      all_goals exact fun _ found _ => percent found

theorem decodeSegment_encodeSegment (s : String) : decodeSegment (encodeSegment s) = s := by
  rw [decodeSegment, encodeSegment, String.toList_ofList, decodeChars_flatMap, String.ofList_toList]

theorem encodeSegment_injective : Function.Injective encodeSegment :=
  Function.LeftInverse.injective decodeSegment_encodeSegment

namespace GlobalId

/-- The name of the kind of an id. -/
def nodeKindStr (id : GlobalId) : Option String :=
  (Text.splitOnce id ":").bind fun cut => (Text.splitOnce cut.2 ":").map Prod.fst

def display (id : GlobalId) : String :=
  id

/-- **The id codec.** An id keeps its fields, and its repository is what its
prefix says as far as the ids in `scope` go. -/
structure Codec (scope : GlobalId → Prop) : Prop where
  /-- A new id parses, as itself. -/
  roundTrip : ∀ text repo, repoIdNew text = some repo →
    ∀ kind path name, ∀ line : Option UInt32,
      parse (new repo kind path name (line.map UInt32.toNat)) =
        some (new repo kind path name (line.map UInt32.toNat))
  /-- The accessors return what an id was made of. -/
  accessors : ∀ text repo, repoIdNew text = some repo →
    ∀ kind path name, ∀ line : Option UInt32,
      let id := new repo kind path name (line.map UInt32.toNat)
      id.repoId = repo ∧ id.nodeKindStr = some kind.debug ∧ id.path = some path ∧
        id.name = some name ∧ id.lineStart = some (line.getD 0).toNat
  /-- Ids of different fields are different. -/
  injective : ∀ text repo, repoIdNew text = some repo →
    ∀ text' repo', repoIdNew text' = some repo' →
    ∀ kind path name, ∀ line : Option UInt32, ∀ kind' path' name', ∀ line' : Option UInt32,
      new repo kind path name (line.map UInt32.toNat) =
          new repo' kind' path' name' (line'.map UInt32.toNat) →
        repo = repo' ∧ kind = kind' ∧ path = path' ∧ name = name' ∧ line.getD 0 = line'.getD 0
  /-- What parses prints as it was. -/
  displayed : ∀ text id, parse text = some id → id.display = text
  /-- The prefix of an id is its repository. -/
  prefixed : ∀ id, scope id → ∀ text repo, repoIdNew text = some repo →
    (Text.startsWith id (repo ++ ":") = true ↔ id.repoId = repo)

section New

variable {text : String} {repo : RepoId} (valid : repoIdNew text = some repo) (kind : NodeType)
  (path name : String) (line : Option UInt32)

theorem toList_new (repo : RepoId) (lineStart : Option Nat) :
    (new repo kind path name lineStart).toList =
      repo.toList ++ ':' :: (kind.debug.toList ++ ':' :: ((encodeSegment path).toList ++ ':' ::
        ((encodeSegment name).toList ++ ':' :: (lineStart.getD 0).repr.toList))) := by
  simp [new, toString]

include valid in
theorem split_new (lineStart : Option Nat) :
    Text.split (new repo kind path name lineStart) ':' =
      [repo, kind.debug, encodeSegment path, encodeSegment name, (lineStart.getD 0).repr] := by
  have digits : ':' ∉ (lineStart.getD 0).repr.toList := fun member =>
    absurd (Text.isDigit_of_mem_repr member) (by decide)
  rw [Text.split, toList_new, Text.splitChars_append (repoIdNew_eq_some valid).2,
    Text.splitChars_append kind.colon_notMem_debug,
    Text.splitChars_append (colon_notMem_encodeSegment path),
    Text.splitChars_append (colon_notMem_encodeSegment name), Text.splitChars_of_notMem digits]
  simp only [List.map_cons, List.map_nil, String.ofList_toList]

private theorem getD_toNat : (line.map UInt32.toNat).getD 0 = (line.getD 0).toNat := by
  cases line <;> rfl

include valid in
theorem parse_new :
    parse (new repo kind path name (line.map UInt32.toNat)) =
      some (new repo kind path name (line.map UInt32.toNat)) := by
  have known : (NodeType.all.any fun k => decide (k.debug = kind.debug)) = true :=
    List.any_eq_true.mpr ⟨kind, kind.mem_all, decide_eq_true rfl⟩
  unfold parse
  rw [split_new valid]
  simp only [known, if_true, getD_toNat, Text.parseNat_repr, UInt32.toNat_lt]

include valid in
theorem nodeKindStr_new (lineStart : Option Nat) :
    (new repo kind path name lineStart).nodeKindStr = some kind.debug := by
  unfold nodeKindStr Text.splitOnce
  rw [toList_new]
  have colon : ":".toList = [':'] := rfl
  rw [colon, Text.cutChars_append (repoIdNew_eq_some valid).2, Option.map_some, Option.bind_some,
    String.toList_ofList, Text.cutChars_append kind.colon_notMem_debug]
  simp

include valid in
theorem name_new (lineStart : Option Nat) : (new repo kind path name lineStart).name = some name := by
  unfold GlobalId.name
  rw [split_new valid]
  exact congrArg some (decodeSegment_encodeSegment name)

include valid in
theorem path_new (lineStart : Option Nat) : (new repo kind path name lineStart).path = some path := by
  unfold GlobalId.path
  rw [split_new valid]
  exact congrArg some (decodeSegment_encodeSegment path)

include valid in
theorem lineStart_new :
    (new repo kind path name (line.map UInt32.toNat)).lineStart = some (line.getD 0).toNat := by
  have bound : (line.getD 0).toNat < 2 ^ 32 := UInt32.toNat_lt _
  rw [GlobalId.lineStart, split_new valid]
  change ((Text.parseNat _).filter _) = _
  rw [Text.parseNat_repr, getD_toNat, Option.filter_some, if_pos (decide_eq_true bound)]

end New

theorem startsWith_iff {id : GlobalId} (separated : Text.contains id ':' = true) {repo : RepoId}
    (free : ':' ∉ repo.toList) :
    Text.startsWith id (repo ++ ":") = true ↔ id.repoId = repo := by
  have member : ':' ∈ id.toList := by simpa [Text.contains] using separated
  obtain ⟨front, rest, spelled, first⟩ := List.eq_append_cons_of_mem member
  have head : id.repoId = String.ofList front := by
    rw [repoId, Text.split, spelled, Text.splitChars_append first]
    rfl
  rw [head, Text.startsWith, spelled, List.isPrefixOf_iff_prefix, String.toList_append]
  constructor
  · intro ⟨after, same⟩
    -- both sides are cut at their first colon
    have cut := congrArg (Text.cutChars [':']) same
    rw [List.append_assoc] at cut
    change Text.cutChars [':'] (repo.toList ++ ':' :: after) = _ at cut
    rw [Text.cutChars_append free, Text.cutChars_append first] at cut
    rw [← (Prod.mk.inj (Option.some.inj cut)).1, String.ofList_toList]
  · intro same
    refine ⟨rest, ?_⟩
    rw [← same, String.toList_ofList, List.append_assoc]
    rfl

theorem contains_of_parse {text : String} {id : GlobalId} (parsed : parse text = some id) :
    Text.contains id ':' = true := by
  rw [parse_eq_some parsed]
  by_contra none
  have free : ':' ∉ text.toList := by simpa [Text.contains] using none
  unfold parse at parsed
  rw [Text.split, Text.splitChars_of_notMem free] at parsed
  simp at parsed

theorem cutChars_of_splitChars {c : Char} {s piece next : List Char} {rest : List (List Char)}
    (pieces : Text.splitChars c s = piece :: next :: rest) :
    ∃ after, Text.cutChars [c] s = some (piece, after) ∧
      Text.splitChars c after = next :: rest := by
  by_cases member : c ∈ s
  · obtain ⟨front, after, rfl, first⟩ := List.eq_append_cons_of_mem member
    rw [Text.splitChars_append first] at pieces
    obtain ⟨rfl, later⟩ := List.cons.inj pieces
    exact ⟨after, Text.cutChars_append first after, later⟩
  · rw [Text.splitChars_of_notMem member] at pieces
    cases pieces

theorem parts_of_parse {text : String} {id : GlobalId} (parsed : parse text = some id) :
    (nodeKindStr id).isSome = true ∧ (path id).isSome = true ∧ (name id).isSome = true := by
  obtain rfl := parse_eq_some parsed
  unfold parse at parsed
  split at parsed
  next repo kind path name line pieces =>
      refine ⟨?_, by rw [GlobalId.path, pieces]; rfl, by rw [GlobalId.name, pieces]; rfl⟩
      unfold Text.split at pieces
      obtain ⟨first, rest, split, -, pieces⟩ := List.map_eq_cons_iff.mp pieces
      obtain ⟨second, rest, rfl, -, pieces⟩ := List.map_eq_cons_iff.mp pieces
      obtain ⟨third, rest, rfl, -, pieces⟩ := List.map_eq_cons_iff.mp pieces
      obtain ⟨after, cut, later⟩ := cutChars_of_splitChars split
      obtain ⟨after', cut', -⟩ := cutChars_of_splitChars later
      have colon : ":".toList = [':'] := rfl
      simp [nodeKindStr, Text.splitOnce, colon, cut, cut']
  · cases parsed
/-- **Ids are a code.** The fields of an id can be read back from it, and the
prefix of every id with a colon, so of every id that parses, is its repository. -/
theorem codec :
    (∀ text id, parse text = some id → Text.contains id ':' = true) ∧
      Codec fun id => Text.contains id ':' = true where
  left _ _ parsed := contains_of_parse parsed
  right := {
    roundTrip := fun _ _ valid kind path name line => parse_new valid kind path name line
    accessors := by
      intro text repo valid kind path name line
      have pieces := split_new valid kind path name (line.map UInt32.toNat)
      refine ⟨?_, nodeKindStr_new valid kind path name _, path_new valid kind path name _,
        name_new valid kind path name _, lineStart_new valid kind path name line⟩
      rw [GlobalId.repoId, pieces]
      rfl
    injective := by
      intro text repo valid text' repo' valid' kind path name line kind' path' name' line' same
      have pieces := congrArg (Text.split · ':') same
      simp only [split_new valid, split_new valid', List.cons.injEq, and_true] at pieces
      obtain ⟨repos, kinds, paths, names, lines⟩ := pieces
      refine ⟨repos, NodeType.debug_injective kinds, encodeSegment_injective paths,
        encodeSegment_injective names, ?_⟩
      have read := congrArg Text.parseNat lines
      rw [Text.parseNat_repr, Text.parseNat_repr, getD_toNat, getD_toNat] at read
      exact UInt32.toNat_inj.mp (Option.some.inj read)
    displayed := fun _ _ parsed => parse_eq_some parsed
    prefixed := fun _ separated _ _ valid => startsWith_iff separated (repoIdNew_eq_some valid).2 }

/-- An id without a colon is its own repository, and does not begin with it. -/
theorem codec_fails : ¬ Codec fun _ => True := by
  intro codec
  have prefixed := codec.prefixed "unknown" trivial "unknown" "unknown" (by decide)
  revert prefixed
  decide

end GlobalId

end Federation

end Lain
