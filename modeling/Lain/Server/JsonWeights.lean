import Mathlib
import Lain.Server.JsonReading

/-!
# The weight of what is entered

What is entered of a JSON document is measured against its keys: it never weighs more than the keys
do, and weighs as much only if it is the keys.
-/

namespace Lain.Server.OpenapiLineIndex

open Foundation

/-! ### Spellings -/

def Piece.isSimple : Piece → Bool
  | plain _ _ => true
  | escape letter _ => decide (letter ≠ 'b' ∧ letter ≠ 'f')
  | unicode _ _ => true
  | surrogates _ _ _ => false

def Piece.read : Piece → List Char
  | plain c _ => [c]
  | escape letter _ =>
    if letter = 'n' then ['\n']
    else if letter = 'r' then ['\r']
    else if letter = 't' then ['\t']
    else [letter]
  | unicode code _ => [Char.ofNat (codeValue code)]
  | surrogates _ _ _ => []

theorem fromStrRadix16_of_isCode {code : List Char} (digits : IsCode code) :
    fromStrRadix16 code = some (codeValue code) := by
  obtain ⟨size, each⟩ := digits
  have fold : ∀ (l : List Char) (n : Nat), (∀ c ∈ l, (hexValue c).isSome = true) →
      l.foldlM (fun n c => (hexValue c).map (16 * n + ·)) n =
        some (l.foldl (fun n c => 16 * n + (hexValue c).getD 0) n) := by
    intro l
    induction l with
    | nil => exact fun _ _ => rfl
    | cons c l ih =>
      intro n each
      obtain ⟨now, later⟩ := List.forall_mem_cons.mp each
      obtain ⟨d, value⟩ := Option.isSome_iff_exists.mp now
      rw [List.foldlM_cons, List.foldl_cons, value]
      exact ih _ later
  unfold fromStrRadix16
  dsimp only
  split
  · exact absurd (each '+' List.mem_cons_self) (by decide)
  · rw [if_neg (by rw [List.isEmpty_iff]; rintro rfl; cases size)]
    exact fold _ 0 each

theorem unescapeJsonString_piece (piece : Piece) (rest : List Char) :
    unescapeJsonString (piece.text ++ rest) = piece.read ++ unescapeJsonString rest := by
  have number : ∀ (code rest : List Char), IsCode code →
      unescapeJsonString ('\\' :: 'u' :: (code ++ rest)) =
        (charFromU32 (codeValue code)).toList ++ unescapeJsonString rest := by
    intro code rest digits
    rw [unescapeJsonString, ← digits.1, List.take_left, List.drop_left,
      fromStrRadix16_of_isCode digits, Option.bind_some]
  cases piece with
  | plain c allowed =>
    simp [Piece.text, Piece.read, unescapeJsonString, allowed.2.1]
  | escape letter allowed =>
    change unescapeJsonString ('\\' :: letter :: rest) = _
    simp only [List.mem_cons, List.not_mem_nil, or_false] at allowed
    rcases allowed with rfl | rfl | rfl | rfl | rfl | rfl | rfl | rfl <;>
      simp [Piece.read, unescapeJsonString]
  | unicode code allowed =>
    refine (number code rest allowed.1).trans ?_
    rw [charFromU32, if_pos allowed.2]
    rfl
  | surrogates high low allowed =>
    have hollow : ∀ n, 0xD800 ≤ n → n < 0xE000 → charFromU32 n = none := by
      intro n lower upper
      refine if_neg ?_
      rintro (small | large)
      · omega
      · omega
    rw [Piece.text, List.append_assoc]
    refine (number high _ allowed.1.1).trans ?_
    refine (congrArg _ (number low rest allowed.1.2)).trans ?_
    rw [hollow _ allowed.2.1.1 (by omega), hollow _ (by omega) allowed.2.2.2]
    rfl

theorem Spelling.read_eq (s : Spelling) : s.read = s.flatMap Piece.read := by
  unfold Spelling.read Spelling.text
  induction s with
  | nil => rw [List.flatMap_nil, List.flatMap_nil, unescapeJsonString]
  | cons piece s ih => rw [List.flatMap_cons, List.flatMap_cons, unescapeJsonString_piece, ih]

/-! ### Weights -/

def charWeight (text : List Char) : Nat :=
  text.length + text.countP fun c => decide (c = Char.ofNat 8 ∨ c = Char.ofNat 12)

def pathWeight (path : KeyPath) : Nat :=
  (path.map fun key => charWeight key + 1).sum

def weight (entries : List (KeyPath × Nat)) : Nat :=
  (entries.map fun e => pathWeight e.1).sum

@[simp] theorem charWeight_append (text later : List Char) :
    charWeight (text ++ later) = charWeight text + charWeight later := by
  unfold charWeight
  rw [List.length_append, List.countP_append]
  omega

@[simp] theorem pathWeight_append (path later : KeyPath) :
    pathWeight (path ++ later) = pathWeight path + pathWeight later := by
  unfold pathWeight
  rw [List.map_append, List.sum_append]

theorem pathWeight_cons (key : Key) (path : KeyPath) :
    pathWeight (key :: path) = charWeight key + 1 + pathWeight path :=
  List.sum_cons

@[simp] theorem pathWeight_singleton (key : Key) : pathWeight [key] = charWeight key + 1 :=
  Nat.add_zero _

@[simp] theorem weight_nil : weight [] = 0 := rfl

@[simp] theorem weight_cons (e : KeyPath × Nat) (entries : List (KeyPath × Nat)) :
    weight (e :: entries) = pathWeight e.1 + weight entries :=
  rfl

@[simp] theorem weight_append (entries later : List (KeyPath × Nat)) :
    weight (entries ++ later) = weight entries + weight later := by
  unfold weight
  rw [List.map_append, List.sum_append]

theorem pathWeight_sublist {path whole : KeyPath} (part : path.Sublist whole) :
    pathWeight path + whole.length ≤ pathWeight whole + path.length := by
  induction part with
  | slnil => exact Nat.le_refl _
  | cons key _ ih =>
    rw [pathWeight_cons, List.length_cons]
    omega
  | cons_cons key _ ih =>
    rw [pathWeight_cons, pathWeight_cons, List.length_cons, List.length_cons]
    omega

theorem charWeight_piece (piece : Piece) :
    charWeight piece.read ≤ charWeight [piece.char] ∧
      (charWeight piece.read = charWeight [piece.char] → piece.isSimple = true) ∧
      (piece.isSimple = true → piece.read = [piece.char]) := by
  cases piece with
  | plain c allowed => exact ⟨Nat.le_refl _, fun _ => rfl, fun _ => rfl⟩
  | escape letter allowed =>
    simp only [List.mem_cons, List.not_mem_nil, or_false] at allowed
    rcases allowed with rfl | rfl | rfl | rfl | rfl | rfl | rfl | rfl <;>
      dsimp only [Piece.read, Piece.char, Piece.isSimple] <;> decide
  | unicode code allowed => exact ⟨Nat.le_refl _, fun _ => rfl, fun _ => rfl⟩
  | surrogates high low allowed =>
    refine ⟨Nat.zero_le _, fun same => ?_, fun simple => by cases simple⟩
    unfold charWeight at same
    simp only [Piece.read, List.length_nil, List.countP_nil, List.length_singleton] at same
    omega

def Spelling.isSimple (s : Spelling) : Bool :=
  s.all Piece.isSimple

theorem charWeight_spelling (s : Spelling) :
    charWeight s.read ≤ charWeight s.decode ∧
      (charWeight s.read = charWeight s.decode → s.isSimple = true) ∧
      (s.isSimple = true → s.read = s.decode) := by
  rw [s.read_eq]
  unfold Spelling.decode Spelling.isSimple
  induction s with
  | nil => exact ⟨Nat.le_refl _, fun _ => rfl, fun _ => rfl⟩
  | cons piece s ih =>
    obtain ⟨less, tight, same⟩ := charWeight_piece piece
    obtain ⟨lessRest, tightRest, sameRest⟩ := ih
    rw [List.flatMap_cons, List.map_cons, ← List.singleton_append (l := List.map _ _),
      charWeight_append, charWeight_append, List.all_cons, Bool.and_eq_true]
    refine ⟨by omega, fun equal => ⟨tight (by omega), tightRest (by omega)⟩, ?_⟩
    rintro ⟨first, later⟩
    rw [same first, sameRest later]

/-! ### Empty objects -/

mutual

def Value.hasEmpty : Value → Bool
  | .word _ => false
  | .string _ => false
  | .object (.nil _) => true
  | .object (.cons _ _ value rest) => value.hasEmpty || rest.hasEmpty
  | .array items => items.hasEmpty

def Members.hasEmpty : Members → Bool
  | .nil _ => false
  | .cons _ _ value rest => value.hasEmpty || rest.hasEmpty

def Items.hasEmpty : Items → Bool
  | .nil _ => false
  | .cons _ value _ rest => value.hasEmpty || rest.hasEmpty

end

mutual

def Value.isLegible (gap : Bool) : Value → Bool
  | .word _ => true
  | .string _ => true
  | .object members => members.isLegible gap
  | .array items => items.isLegible gap

def Members.isLegible (gap : Bool) : Members → Bool
  | .nil _ => true
  | .cons _ blanks value rest =>
    !gap && InlineBlank.isNear blanks.beforeColon && value.isLegible false &&
      rest.isLegible value.hasEmpty

def Items.isLegible (gap : Bool) : Items → Bool
  | .nil _ => true
  | .cons _ value _ rest => value.isLegible gap && rest.isLegible (gap || value.hasEmpty)

end

/-! ### Shorter paths -/

theorem seenPath_sublist {path whole : KeyPath} (part : path.Sublist whole) (key : Spelling)
    (blanks : MemberBlanks) : (seenPath path key blanks).Sublist (whole ++ [key.read]) := by
  unfold seenPath
  split_ifs
  · exact part.append (List.Sublist.refl _)
  · exact part.trans (List.sublist_append_left _ _)

theorem dropLast_sublist_of_concat {path whole : KeyPath} {key : Key}
    (part : path.Sublist (whole ++ [key])) : path.dropLast.Sublist whole := by
  have shorter := part.reverse.tail
  rw [List.reverse_append, List.reverse_singleton, List.singleton_append, List.tail_cons,
    List.tail_reverse] at shorter
  exact List.reverse_sublist.mp shorter

mutual

theorem Value.leaves_sublist : ∀ (v : Value) {path whole : KeyPath}, path.Sublist whole →
    (v.leaves path).Sublist whole
  | .word _, _, _, part => part
  | .string _, _, _, part => part
  | .object (.nil _), _, _, part => (List.dropLast_sublist _).trans part
  | .object (.cons key blanks value rest), _, _, part =>
    Members.leaves_sublist rest (dropLast_sublist_of_concat
      (Value.leaves_sublist value (seenPath_sublist part key blanks)))
  | .array items, _, _, part => Items.leaves_sublist items 0 part

theorem Members.leaves_sublist : ∀ (ms : Members) {path whole : KeyPath}, path.Sublist whole →
    (ms.leaves path).Sublist whole
  | .nil _, _, _, part => part
  | .cons key blanks value rest, _, _, part =>
    Members.leaves_sublist rest (dropLast_sublist_of_concat
      (Value.leaves_sublist value (seenPath_sublist part key blanks)))

theorem Items.leaves_sublist : ∀ (items : Items) (i : Nat) {path whole : KeyPath},
    path.Sublist whole → (items.leaves i path).Sublist whole
  | .nil _, _, _, _, part => part
  | .cons _ value _ rest, i, _, _, part =>
    Items.leaves_sublist rest (i + 1) (dropLast_sublist_of_concat
      (Value.leaves_sublist value (part.append (List.Sublist.refl [position i]))))

end

theorem length_dropLast_lt {path whole : KeyPath} {key : Key} (below : whole ≠ [])
    (shorter : path.length < (whole ++ [key]).length) : path.dropLast.length < whole.length := by
  rw [List.length_append, List.length_singleton] at shorter
  rw [List.length_dropLast]
  have some_ := List.length_pos_iff.mpr below
  omega

theorem length_seenPath_lt {path whole : KeyPath} (shorter : path.length < whole.length)
    (key : Spelling) (blanks : MemberBlanks) :
    (seenPath path key blanks).length < (whole ++ [key.read]).length := by
  unfold seenPath
  split_ifs
  · rw [List.length_append, List.length_append]
    omega
  · rw [List.length_append]
    omega

mutual

theorem Value.leaves_lt : ∀ (v : Value) {path whole : KeyPath}, path.Sublist whole → whole ≠ [] →
    path.length < whole.length ∨ v.hasEmpty = true → (v.leaves path).length < whole.length
  | .word _, _, _, _, _, short => short.resolve_right (by simp [Value.hasEmpty])
  | .string _, _, _, _, _, short => short.resolve_right (by simp [Value.hasEmpty])
  | .object (.nil _), path, whole, part, below, _ => by
    rw [Value.leaves, List.length_dropLast]
    have some_ := List.length_pos_iff.mpr below
    have fits := part.length_le
    omega
  | .object (.cons key blanks value rest), path, whole, part, below, short =>
    Members.leaves_lt (.cons key blanks value rest) part below short
  | .array items, path, whole, part, below, short => Items.leaves_lt items 0 part below short

theorem Members.leaves_lt : ∀ (ms : Members) {path whole : KeyPath}, path.Sublist whole →
    whole ≠ [] → path.length < whole.length ∨ ms.hasEmpty = true →
      (ms.leaves path).length < whole.length
  | .nil _, _, _, _, _, short => short.resolve_right (by simp [Members.hasEmpty])
  | .cons key blanks value rest, path, whole, part, below, short => by
    have inside := seenPath_sublist part key blanks
    refine Members.leaves_lt rest
      (dropLast_sublist_of_concat (Value.leaves_sublist value inside)) below ?_
    rw [Members.hasEmpty, Bool.or_eq_true, ← or_assoc] at short
    refine short.imp_left fun short => length_dropLast_lt below
      (Value.leaves_lt value inside (by simp) (short.imp_left fun shorter => ?_))
    exact length_seenPath_lt shorter key blanks

theorem Items.leaves_lt : ∀ (items : Items) (i : Nat) {path whole : KeyPath},
    path.Sublist whole → whole ≠ [] → path.length < whole.length ∨ items.hasEmpty = true →
      (items.leaves i path).length < whole.length
  | .nil _, _, _, _, _, _, short => short.resolve_right (by simp [Items.hasEmpty])
  | .cons before value behind rest, i, path, whole, part, below, short => by
    have inside : (path ++ [position i]).Sublist (whole ++ [position i]) :=
      part.append (List.Sublist.refl _)
    refine Items.leaves_lt rest (i + 1)
      (dropLast_sublist_of_concat (Value.leaves_sublist value inside)) below ?_
    rw [Items.hasEmpty, Bool.or_eq_true, ← or_assoc] at short
    refine short.imp_left fun short => length_dropLast_lt below
      (Value.leaves_lt value inside (by simp) (short.imp_left fun shorter => ?_))
    rw [List.length_append, List.length_append]
    omega

end

/-! ### Legible values -/

mutual

theorem Value.of_isLegible_true : ∀ (v : Value), v.isLegible true = true →
    (∀ path line, v.found path line = []) ∧ ∀ name path line, v.keys name path line = []
  | .word _, _ => ⟨fun _ _ => rfl, fun _ _ _ => rfl⟩
  | .string _, _ => ⟨fun _ _ => rfl, fun _ _ _ => rfl⟩
  | .object members, legible => by
    obtain ⟨found, keys⟩ := Members.of_isLegible_true members legible
    exact ⟨found, keys⟩
  | .array items, legible => by
    obtain ⟨found, keys⟩ := Items.of_isLegible_true items legible
    exact ⟨found 0, fun name path => keys name path 0⟩

theorem Members.of_isLegible_true : ∀ (ms : Members), ms.isLegible true = true →
    (∀ path line, ms.found path line = []) ∧ ∀ name path line, ms.keys name path line = []
  | .nil _, _ => ⟨fun _ _ => rfl, fun _ _ _ => rfl⟩
  | .cons _ _ _ _, legible => by
    rw [Members.isLegible] at legible
    cases legible

theorem Items.of_isLegible_true : ∀ (items : Items), items.isLegible true = true →
    (∀ i path line, items.found i path line = []) ∧
      ∀ name path i line, items.keys name path i line = []
  | .nil _, _ => ⟨fun _ _ _ => rfl, fun _ _ _ _ => rfl⟩
  | .cons before value behind rest, legible => by
    rw [Items.isLegible, Bool.true_or, Bool.and_eq_true] at legible
    obtain ⟨found, keys⟩ := Value.of_isLegible_true value legible.1
    obtain ⟨foundRest, keysRest⟩ := Items.of_isLegible_true rest legible.2
    refine ⟨fun i path line => ?_, fun name path i line => ?_⟩
    · rw [Items.found, found, foundRest]
      rfl
    · rw [Items.keys, keys, keysRest]
      rfl

end

theorem seenPath_of_near {path : KeyPath} {key : Spelling} {blanks : MemberBlanks}
    (near : InlineBlank.isNear blanks.beforeColon = true) :
    seenPath path key blanks = path ++ [key.read] :=
  if_pos near

mutual

theorem Value.of_isLegible : ∀ (v : Value), v.isLegible false = true →
    (∀ path line, v.found path line = v.keys Spelling.read path line) ∧
      (v.hasEmpty = false → ∀ path, v.leaves path = path)
  | .word _, _ => ⟨fun _ _ => rfl, fun _ _ => rfl⟩
  | .string _, _ => ⟨fun _ _ => rfl, fun _ _ => rfl⟩
  | .object (.nil _), _ => ⟨fun _ _ => rfl, fun filled => by cases filled⟩
  | .object (.cons key blanks value rest), legible =>
    Members.of_isLegible (.cons key blanks value rest) legible
  | .array items, legible => by
    obtain ⟨found, kept⟩ := Items.of_isLegible items legible
    exact ⟨found 0, fun filled path => kept filled 0 path⟩

theorem Members.of_isLegible : ∀ (ms : Members), ms.isLegible false = true →
    (∀ path line, ms.found path line = ms.keys Spelling.read path line) ∧
      (ms.hasEmpty = false → ∀ path, ms.leaves path = path)
  | .nil _, _ => ⟨fun _ _ => rfl, fun _ _ => rfl⟩
  | .cons key blanks value rest, legible => by
    rw [Members.isLegible, Bool.not_false, Bool.true_and, Bool.and_eq_true,
      Bool.and_eq_true] at legible
    obtain ⟨⟨near, inside⟩, later⟩ := legible
    obtain ⟨found, kept⟩ := Value.of_isLegible value inside
    have leads : value.hasEmpty = false → ∀ path : KeyPath,
        (value.leaves (path ++ [key.read])).dropLast = path := fun filled path => by
      rw [kept filled, List.dropLast_concat]
    refine ⟨fun path line => ?_, fun filled path => ?_⟩
    · rw [Members.found, Members.keys, if_pos near, seenPath_of_near near, found,
        List.singleton_append]
      cases empty : value.hasEmpty with
      | true =>
        rw [empty] at later
        obtain ⟨none_, noKeys⟩ := Members.of_isLegible_true rest later
        rw [none_, noKeys]
      | false =>
        rw [empty] at later
        rw [leads empty, (Members.of_isLegible rest later).1]
    · rw [Members.hasEmpty, Bool.or_eq_false_iff] at filled
      rw [filled.1] at later
      rw [Members.leaves, seenPath_of_near near, leads filled.1,
        (Members.of_isLegible rest later).2 filled.2]

theorem Items.of_isLegible : ∀ (items : Items), items.isLegible false = true →
    (∀ i path line, items.found i path line = items.keys Spelling.read path i line) ∧
      (items.hasEmpty = false → ∀ i path, items.leaves i path = path)
  | .nil _, _ => ⟨fun _ _ _ => rfl, fun _ _ _ => rfl⟩
  | .cons before value behind rest, legible => by
    rw [Items.isLegible, Bool.false_or, Bool.and_eq_true] at legible
    obtain ⟨found, kept⟩ := Value.of_isLegible value legible.1
    have leads : value.hasEmpty = false → ∀ (i : Nat) (path : KeyPath),
        (value.leaves (path ++ [position i])).dropLast = path := fun filled i path => by
      rw [kept filled, List.dropLast_concat]
    refine ⟨fun i path line => ?_, fun filled i path => ?_⟩
    · rw [Items.found, Items.keys, found]
      have later := legible.2
      cases empty : value.hasEmpty with
      | true =>
        rw [empty] at later
        obtain ⟨none_, noKeys⟩ := Items.of_isLegible_true rest later
        rw [none_, noKeys]
      | false =>
        rw [empty] at later
        rw [leads empty, (Items.of_isLegible rest later).1]
    · rw [Items.hasEmpty, Bool.or_eq_false_iff] at filled
      have later := legible.2
      rw [filled.1] at later
      rw [Items.leaves, leads filled.1, (Items.of_isLegible rest later).2 filled.2]

end

/-! ### Weights of what is entered -/

theorem eq_of_pathWeight_eq {path whole : KeyPath} (part : path.Sublist whole)
    (same : pathWeight path = pathWeight whole) : path = whole := by
  have lighter := pathWeight_sublist part
  exact part.eq_of_length_le (by omega)

theorem decide_leaves_lt {value : Value} {path : KeyPath} {key : Key} (below : path ≠ [])
    (legible : value.isLegible false = true) :
    decide ((value.leaves (path ++ [key])).dropLast.length < path.length) = value.hasEmpty := by
  cases empty : value.hasEmpty with
  | true =>
    exact decide_eq_true (length_dropLast_lt below
      (Value.leaves_lt value (List.Sublist.refl _) (by simp) (.inr empty)))
  | false =>
    rw [(Value.of_isLegible value legible).2 empty, List.dropLast_concat]
    simp

mutual

theorem Value.weight_found : ∀ (v : Value) {path whole : KeyPath} (line : Nat),
    path.Sublist whole → whole ≠ [] →
    weight (v.found path line) ≤ weight (v.keys Spelling.read whole line) ∧
      (weight (v.found path line) = weight (v.keys Spelling.read whole line) →
        v.isLegible (decide (path.length < whole.length)) = true)
  | .word _, _, _, _, _, _ => ⟨Nat.le_refl _, fun _ => rfl⟩
  | .string _, _, _, _, _, _ => ⟨Nat.le_refl _, fun _ => rfl⟩
  | .object members, _, _, line, part, below => Members.weight_found members line part below
  | .array items, _, _, line, part, below => Items.weight_found items 0 line part below

theorem Members.weight_found : ∀ (ms : Members) {path whole : KeyPath} (line : Nat),
    path.Sublist whole → whole ≠ [] →
    weight (ms.found path line) ≤ weight (ms.keys Spelling.read whole line) ∧
      (weight (ms.found path line) = weight (ms.keys Spelling.read whole line) →
        ms.isLegible (decide (path.length < whole.length)) = true)
  | .nil _, _, _, _, _, _ => ⟨Nat.le_refl _, fun _ => rfl⟩
  | .cons key blanks value rest, path, whole, line, part, below => by
    have inside := seenPath_sublist part key blanks
    obtain ⟨less, tight⟩ := Value.weight_found value
      (lineAfter (lineAfter line blanks.beforeKey.1) blanks.afterColon.1) inside (by simp)
    obtain ⟨lessRest, tightRest⟩ := Members.weight_found rest
      (lineAfter (lineAfter (lineAfter (lineAfter line blanks.beforeKey.1)
        blanks.afterColon.1) value.text) blanks.behind.1)
      (dropLast_sublist_of_concat (Value.leaves_sublist value inside)) below
    have lighter := pathWeight_sublist part
    have fits := part.length_le
    rw [Members.found, Members.keys]
    simp only [weight_append, weight_cons, pathWeight_append, pathWeight_singleton]
    cases near : InlineBlank.isNear blanks.beforeColon with
    | false =>
      rw [if_neg Bool.false_ne_true, weight_nil]
      exact ⟨by omega, fun same => by omega⟩
    | true =>
      rw [if_pos rfl, weight_cons, weight_nil, pathWeight_append, pathWeight_singleton]
      refine ⟨by omega, fun same => ?_⟩
      obtain rfl := eq_of_pathWeight_eq part (by omega)
      rw [seenPath_of_near near] at tight tightRest less lessRest same
      have legible : value.isLegible false = true := by
        simpa using tight (by omega)
      rw [decide_leaves_lt below legible] at tightRest
      rw [Members.isLegible, near, legible, tightRest (by omega)]
      simp

theorem Items.weight_found : ∀ (items : Items) (i : Nat) {path whole : KeyPath} (line : Nat),
    path.Sublist whole → whole ≠ [] →
    weight (items.found i path line) ≤ weight (items.keys Spelling.read whole i line) ∧
      (weight (items.found i path line) = weight (items.keys Spelling.read whole i line) →
        items.isLegible (decide (path.length < whole.length)) = true)
  | .nil _, _, _, _, _, _, _ => ⟨Nat.le_refl _, fun _ => rfl⟩
  | .cons before value behind rest, i, path, whole, line, part, below => by
    have inside : (path ++ [position i]).Sublist (whole ++ [position i]) :=
      part.append (List.Sublist.refl _)
    obtain ⟨less, tight⟩ := Value.weight_found value (lineAfter line before.1) inside (by simp)
    obtain ⟨lessRest, tightRest⟩ := Items.weight_found rest (i + 1)
      (lineAfter (lineAfter (lineAfter line before.1) value.text) behind.1)
      (dropLast_sublist_of_concat (Value.leaves_sublist value inside)) below
    rw [Items.found, Items.keys]
    simp only [weight_append]
    refine ⟨by omega, fun same => ?_⟩
    have legible := tight (by omega)
    have legibleRest := tightRest (by omega)
    simp only [List.length_append, List.length_singleton, Nat.add_lt_add_iff_right] at legible
    rw [Items.isLegible, legible, Bool.true_and]
    by_cases shorter : path.length < whole.length
    · have still := length_dropLast_lt below (Value.leaves_lt value inside (by simp) (.inl (by
        rw [List.length_append, List.length_append]
        exact Nat.add_lt_add_right shorter _)))
      rw [decide_eq_true still] at legibleRest
      rw [decide_eq_true shorter, Bool.true_or]
      exact legibleRest
    · obtain rfl := part.eq_of_length_le (not_lt.mp shorter)
      rw [decide_eq_false shorter] at legible ⊢
      rw [decide_leaves_lt below legible] at legibleRest
      rw [Bool.false_or]
      exact legibleRest

end

/-! ### Keys and their names -/

mutual

def Value.names : Value → List Spelling
  | .word _ => []
  | .string _ => []
  | .object members => members.names
  | .array items => items.names

def Members.names : Members → List Spelling
  | .nil _ => []
  | .cons key _ value rest => key :: (value.names ++ rest.names)

def Items.names : Items → List Spelling
  | .nil _ => []
  | .cons _ value _ rest => value.names ++ rest.names

end

mutual

theorem Value.length_found : ∀ (v : Value) (name : Spelling → Key) (path path' : KeyPath)
    (line : Nat), (v.found path line).length ≤ (v.keys name path' line).length
  | .word _, _, _, _, _ => Nat.le_refl _
  | .string _, _, _, _, _ => Nat.le_refl _
  | .object members, name, _, _, line => Members.length_found members name _ _ line
  | .array items, name, _, _, line => Items.length_found items name 0 _ _ line

theorem Members.length_found : ∀ (ms : Members) (name : Spelling → Key) (path path' : KeyPath)
    (line : Nat), (ms.found path line).length ≤ (ms.keys name path' line).length
  | .nil _, _, _, _, _ => Nat.le_refl _
  | .cons key blanks value rest, name, path, path', line => by
    rw [Members.found, Members.keys, List.length_append, List.length_append, List.length_cons,
      List.length_append]
    have inside := Value.length_found value name (seenPath path key blanks)
      (path' ++ [name key]) (lineAfter (lineAfter line blanks.beforeKey.1) blanks.afterColon.1)
    have later := Members.length_found rest name (value.leaves (seenPath path key blanks)).dropLast
      path' (lineAfter (lineAfter (lineAfter (lineAfter line blanks.beforeKey.1)
        blanks.afterColon.1) value.text) blanks.behind.1)
    split_ifs
    · rw [List.length_singleton]
      omega
    · rw [List.length_nil]
      omega

theorem Items.length_found : ∀ (items : Items) (name : Spelling → Key) (i : Nat)
    (path path' : KeyPath) (line : Nat),
    (items.found i path line).length ≤ (items.keys name path' i line).length
  | .nil _, _, _, _, _, _ => Nat.le_refl _
  | .cons before value behind rest, name, i, path, path', line => by
    rw [Items.found, Items.keys, List.length_append, List.length_append]
    exact Nat.add_le_add (Value.length_found value name _ _ _)
      (Items.length_found rest name _ _ _ _)

end

mutual

theorem Value.weight_keys : ∀ (v : Value) {path path' : KeyPath} (line : Nat),
    pathWeight path ≤ pathWeight path' →
    weight (v.keys Spelling.read path line) ≤ weight (v.keys Spelling.decode path' line) ∧
      (weight (v.keys Spelling.read path line) = weight (v.keys Spelling.decode path' line) →
        ∀ s ∈ v.names, s.isSimple = true)
  | .word _, _, _, _, _ => ⟨Nat.le_refl _, fun _ _ member => by cases member⟩
  | .string _, _, _, _, _ => ⟨Nat.le_refl _, fun _ _ member => by cases member⟩
  | .object members, _, _, line, lighter => Members.weight_keys members line lighter
  | .array items, _, _, line, lighter => Items.weight_keys items 0 line lighter

theorem Members.weight_keys : ∀ (ms : Members) {path path' : KeyPath} (line : Nat),
    pathWeight path ≤ pathWeight path' →
    weight (ms.keys Spelling.read path line) ≤ weight (ms.keys Spelling.decode path' line) ∧
      (weight (ms.keys Spelling.read path line) = weight (ms.keys Spelling.decode path' line) →
        ∀ s ∈ ms.names, s.isSimple = true)
  | .nil _, _, _, _, _ => ⟨Nat.le_refl _, fun _ _ member => by cases member⟩
  | .cons key blanks value rest, path, path', line, lighter => by
    obtain ⟨lessKey, tightKey, -⟩ := charWeight_spelling key
    have inside : pathWeight (path ++ [key.read]) ≤ pathWeight (path' ++ [key.decode]) := by
      simp only [pathWeight_append, pathWeight_singleton]
      omega
    obtain ⟨less, tight⟩ := Value.weight_keys value
      (lineAfter (lineAfter line blanks.beforeKey.1) blanks.afterColon.1) inside
    obtain ⟨lessRest, tightRest⟩ := Members.weight_keys rest
      (lineAfter (lineAfter (lineAfter (lineAfter line blanks.beforeKey.1)
        blanks.afterColon.1) value.text) blanks.behind.1) lighter
    rw [Members.keys, Members.keys, Members.names]
    simp only [weight_cons, weight_append, pathWeight_append, pathWeight_singleton]
    refine ⟨by omega, fun same => List.forall_mem_cons.mpr ⟨tightKey (by omega), ?_⟩⟩
    exact fun s member => (List.mem_append.mp member).elim (tight (by omega) s)
      (tightRest (by omega) s)

theorem Items.weight_keys : ∀ (items : Items) (i : Nat) {path path' : KeyPath} (line : Nat),
    pathWeight path ≤ pathWeight path' →
    weight (items.keys Spelling.read path i line) ≤
        weight (items.keys Spelling.decode path' i line) ∧
      (weight (items.keys Spelling.read path i line) =
          weight (items.keys Spelling.decode path' i line) →
        ∀ s ∈ items.names, s.isSimple = true)
  | .nil _, _, _, _, _, _ => ⟨Nat.le_refl _, fun _ _ member => by cases member⟩
  | .cons before value behind rest, i, path, path', line, lighter => by
    have inside : pathWeight (path ++ [position i]) ≤ pathWeight (path' ++ [position i]) := by
      simp only [pathWeight_append]
      omega
    obtain ⟨less, tight⟩ := Value.weight_keys value (lineAfter line before.1) inside
    obtain ⟨lessRest, tightRest⟩ := Items.weight_keys rest (i + 1)
      (lineAfter (lineAfter (lineAfter line before.1) value.text) behind.1) lighter
    rw [Items.keys, Items.keys, Items.names]
    simp only [weight_append]
    refine ⟨by omega, fun same s member => (List.mem_append.mp member).elim (tight (by omega) s)
      (tightRest (by omega) s)⟩

end

section Names

variable {name name' : Spelling → Key}

mutual

theorem Value.keys_congr : ∀ (v : Value) (path : KeyPath) (line : Nat),
    (∀ s ∈ v.names, name s = name' s) → v.keys name path line = v.keys name' path line
  | .word _, _, _, _ => rfl
  | .string _, _, _, _ => rfl
  | .object members, path, line, same => Members.keys_congr members path line same
  | .array items, path, line, same => Items.keys_congr items path 0 line same

theorem Members.keys_congr : ∀ (ms : Members) (path : KeyPath) (line : Nat),
    (∀ s ∈ ms.names, name s = name' s) → ms.keys name path line = ms.keys name' path line
  | .nil _, _, _, _ => rfl
  | .cons key blanks value rest, path, line, same => by
    rw [Members.names] at same
    obtain ⟨first, others⟩ := List.forall_mem_cons.mp same
    rw [Members.keys, Members.keys, first,
      Value.keys_congr value _ _ fun s member => others s (List.mem_append_left _ member),
      Members.keys_congr rest _ _ fun s member => others s (List.mem_append_right _ member)]

theorem Items.keys_congr : ∀ (items : Items) (path : KeyPath) (i line : Nat),
    (∀ s ∈ items.names, name s = name' s) →
      items.keys name path i line = items.keys name' path i line
  | .nil _, _, _, _, _ => rfl
  | .cons before value behind rest, path, i, line, same => by
    rw [Items.names] at same
    rw [Items.keys, Items.keys,
      Value.keys_congr value _ _ fun s member => same s (List.mem_append_left _ member),
      Items.keys_congr rest _ _ _ fun s member => same s (List.mem_append_right _ member)]

end

end Names

/-! ### Distinct keys -/

def Members.heads : Members → List Key
  | .nil _ => []
  | .cons key _ _ rest => key.decode :: rest.heads

mutual

def Value.Distinct : Value → Prop
  | .word _ => True
  | .string _ => True
  | .object members => members.Distinct
  | .array items => items.Distinct

def Members.Distinct : Members → Prop
  | .nil _ => True
  | .cons key _ value rest => key.decode ∉ rest.heads ∧ value.Distinct ∧ rest.Distinct

def Items.Distinct : Items → Prop
  | .nil _ => True
  | .cons _ value _ rest => value.Distinct ∧ rest.Distinct

end

theorem position_injective : Function.Injective position := by
  intro m n same
  have texts : m.repr = n.repr := String.toList_inj.mp same
  have read := Text.parseNat_repr m
  rw [texts, Text.parseNat_repr, Option.some_inj] at read
  exact read.symm

mutual

theorem Value.below_keys : ∀ (v : Value) (path : KeyPath) (line : Nat),
    ∀ e ∈ v.keys Spelling.decode path line, ∃ key more, e.1 = path ++ key :: more
  | .word _, _, _ => fun _ member => by cases member
  | .string _, _, _ => fun _ member => by cases member
  | .object members, path, line => fun e member =>
    (Members.below_keys members path line e member).imp fun _ found => found.2
  | .array items, path, line => fun e member => by
    obtain ⟨j, -, more, shape⟩ := Items.below_keys items path 0 line e member
    exact ⟨position j, more, shape⟩

theorem Members.below_keys : ∀ (ms : Members) (path : KeyPath) (line : Nat),
    ∀ e ∈ ms.keys Spelling.decode path line,
      ∃ key, key ∈ ms.heads ∧ ∃ more, e.1 = path ++ key :: more
  | .nil _, _, _ => fun _ member => by cases member
  | .cons key blanks value rest, path, line => fun e member => by
    rw [Members.keys, List.mem_cons, List.mem_append] at member
    rcases member with rfl | inside | later
    · exact ⟨key.decode, List.mem_cons_self, [], rfl⟩
    · obtain ⟨next, more, shape⟩ := Value.below_keys value _ _ e inside
      exact ⟨key.decode, List.mem_cons_self, next :: more, by rw [shape]; simp⟩
    · obtain ⟨head, listed, more, shape⟩ := Members.below_keys rest _ _ e later
      exact ⟨head, List.mem_cons_of_mem _ listed, more, shape⟩

theorem Items.below_keys : ∀ (items : Items) (path : KeyPath) (i line : Nat),
    ∀ e ∈ items.keys Spelling.decode path i line,
      ∃ j, i ≤ j ∧ ∃ more, e.1 = path ++ position j :: more
  | .nil _, _, _, _ => fun _ member => by cases member
  | .cons before value behind rest, path, i, line => fun e member => by
    rw [Items.keys, List.mem_append] at member
    rcases member with inside | later
    · obtain ⟨next, more, shape⟩ := Value.below_keys value _ _ e inside
      exact ⟨i, Nat.le_refl i, next :: more, by rw [shape]; simp⟩
    · obtain ⟨j, fits, more, shape⟩ := Items.below_keys rest _ _ _ e later
      exact ⟨j, by omega, more, shape⟩

end

theorem ne_of_names_ne {path more more' : KeyPath} {key key' : Key} (other : key ≠ key') :
    path ++ key :: more ≠ path ++ key' :: more' := fun same =>
  other (List.cons.inj (List.append_cancel_left same)).1

mutual

theorem Value.nodup_keys : ∀ (v : Value) (path : KeyPath) (line : Nat), v.Distinct →
    (v.keys Spelling.decode path line).Pairwise fun e e' => e.1 ≠ e'.1
  | .word _, _, _, _ => .nil
  | .string _, _, _, _ => .nil
  | .object members, path, line, distinct => Members.nodup_keys members path line distinct
  | .array items, path, line, distinct => Items.nodup_keys items path 0 line distinct

theorem Members.nodup_keys : ∀ (ms : Members) (path : KeyPath) (line : Nat), ms.Distinct →
    (ms.keys Spelling.decode path line).Pairwise fun e e' => e.1 ≠ e'.1
  | .nil _, _, _, _ => .nil
  | .cons key blanks value rest, path, line, distinct => by
    rw [Members.Distinct] at distinct
    obtain ⟨fresh, inside, later⟩ := distinct
    rw [Members.keys]
    refine List.pairwise_cons.mpr ⟨fun e member => ?_, List.pairwise_append.mpr
      ⟨Value.nodup_keys value _ _ inside, Members.nodup_keys rest _ _ later,
        fun e member e' member' => ?_⟩⟩
    · rcases List.mem_append.mp member with within | behind
      · obtain ⟨next, more, shape⟩ := Value.below_keys value _ _ e within
        rw [shape]
        exact fun same => by simp at same
      · obtain ⟨head, listed, more, shape⟩ := Members.below_keys rest _ _ e behind
        rw [shape]
        exact ne_of_names_ne fun same => fresh (same ▸ listed)
    · obtain ⟨next, more, shape⟩ := Value.below_keys value _ _ e member
      obtain ⟨head, listed, more', shape'⟩ := Members.below_keys rest _ _ e' member'
      rw [shape, shape', List.append_assoc]
      exact ne_of_names_ne fun same => fresh (same ▸ listed)

theorem Items.nodup_keys : ∀ (items : Items) (path : KeyPath) (i line : Nat), items.Distinct →
    (items.keys Spelling.decode path i line).Pairwise fun e e' => e.1 ≠ e'.1
  | .nil _, _, _, _, _ => .nil
  | .cons before value behind rest, path, i, line, distinct => by
    rw [Items.Distinct] at distinct
    rw [Items.keys]
    refine List.pairwise_append.mpr ⟨Value.nodup_keys value _ _ distinct.1,
      Items.nodup_keys rest _ _ _ distinct.2, fun e member e' member' => ?_⟩
    obtain ⟨next, more, shape⟩ := Value.below_keys value _ _ e member
    obtain ⟨j, fits, more', shape'⟩ := Items.below_keys rest _ _ _ e' member'
    rw [shape, shape', List.append_assoc]
    exact ne_of_names_ne fun same => absurd (position_injective same) (by omega)

end

end Lain.Server.OpenapiLineIndex
