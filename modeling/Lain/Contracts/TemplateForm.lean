import Mathlib
import Lain.Contracts.RoutePaths
import Lain.Contracts.UrlTemplate

/-!
# Normal form of templates

A template begins with a slash, has no empty segment and nothing of a query, and reading it as a
URL gives it back.
-/

namespace Lain.Contracts

open Foundation

/-- **The normal form of a template**. -/
structure NormalForm (isAlphanumeric : Char → Bool) (t : String) : Prop where
  rooted : Text.startsWith t "/" = true
  filled : ¬ ['/', '/'] <:+: t.toList
  closed : t.toList.getLast? = some '/' → t = "/"
  uncut : '?' ∉ t.toList ∧ '#' ∉ t.toList
  catchallLast : CatchallLast t
  settled : normalize isAlphanumeric [.literal t] = ⟨.none, some t⟩

variable {isAlphanumeric : Char → Bool}

/-! ### The characters of a path -/

theorem of_mem_cutQueryOrFragment {parts : List NormalizeUrlPart} {s : String}
    (member : .literal s ∈ cutQueryOrFragment parts) : '?' ∉ s.toList ∧ '#' ∉ s.toList := by
  have free : ∀ chars : List Char, (∀ c ∈ chars, (!(c = '?' || c = '#')) = true) →
      '?' ∉ chars ∧ '#' ∉ chars := fun chars each =>
    ⟨fun query => absurd (each _ query) (by decide),
      fun fragment => absurd (each _ fragment) (by decide)⟩
  induction parts with
  | nil => cases member
  | cons part later ih =>
    cases part with
    | hole h =>
      rcases List.mem_cons.mp member with same | inside
      · cases same
      · exact ih inside
    | literal text =>
      have front : ∀ c ∈ text.toList.takeWhile fun c => !(c = '?' || c = '#'),
          (!(c = '?' || c = '#')) = true := fun c => List.mem_takeWhile_imp
      rw [cutQueryOrFragment] at member
      split_ifs at member with whole empty
      · rcases List.mem_cons.mp member with same | inside
        · obtain rfl := NormalizeUrlPart.literal.inj same
          have all := (List.takeWhile_prefix _).eq_of_length whole
          exact free _ fun c within => front c (all.symm ▸ within)
        · exact ih inside
      · cases member
      · obtain rfl := NormalizeUrlPart.literal.inj (List.mem_singleton.mp member)
        rw [String.toList_ofList]
        exact free _ front

theorem some_mem_marked {parts : List NormalizeUrlPart} {c : Char} (member : some c ∈ marked parts) :
    ∃ s, .literal s ∈ parts ∧ c ∈ s.toList := by
  obtain ⟨part, inside, within⟩ := List.mem_flatMap.mp member
  cases part with
  | hole h => exact absurd (List.mem_singleton.mp within) (Option.some_ne_none c)
  | literal s =>
    obtain ⟨d, among, same⟩ := List.mem_map.mp within
    exact ⟨s, inside, Option.some.inj same ▸ among⟩

theorem subset_of_mem_chunksFrom (parts : List NormalizeUrlPart) :
    ∀ current, ∀ chunk ∈ chunksFrom current parts, chunk ⊆ current ++ marked parts := by
  induction parts with
  | nil =>
    intro current chunk member
    obtain rfl := List.mem_singleton.mp member
    rw [marked_nil, List.append_nil]
    exact List.Subset.refl _
  | cons part later ih =>
    intro current chunk member
    cases part with
    | hole h =>
      rw [marked_cons, ← List.append_assoc]
      exact ih _ chunk member
    | literal s =>
      rcases List.mem_cons.mp member with rfl | inside
      · exact List.subset_append_left _ _
      · exact List.Subset.trans (ih _ chunk inside) (List.subset_append_right _ _)

theorem uncut_of_mem_pieces {parts : List NormalizeUrlPart} {piece : List (Option Char)}
    (member : piece ∈ pieces (pathParts parts)) :
    ∀ c, some c ∈ piece → c ≠ '?' ∧ c ≠ '#' := by
  intro c within
  obtain ⟨chunk, chunked, inside⟩ := List.mem_flatMap.mp member
  have among := subset_of_mem_chunksFrom _ _ chunk chunked (subset_of_mem_fields inside within)
  obtain ⟨s, part, char⟩ := some_mem_marked among
  have free := of_mem_cutQueryOrFragment part
  exact ⟨fun same => free.1 (same ▸ char), fun same => free.2 (same ▸ char)⟩

/-! ### Reading a template again -/

theorem uncut_pieceText {piece : List (Option Char)}
    (uncut : ∀ c, some c ∈ piece → c ≠ '?' ∧ c ≠ '#') :
    '?' ∉ (pieceText isAlphanumeric piece).toList ∧
      '#' ∉ (pieceText isAlphanumeric piece).toList := by
  unfold pieceText readPiece
  split_ifs
  · exact ⟨by decide, by decide⟩
  · exact ⟨by decide, by decide⟩
  · exact ⟨by decide, by decide⟩
  · rw [Segment.render, String.toList_ofList]
    exact ⟨fun within => (uncut _ (List.reduceOption_mem_iff.mp within)).1 rfl,
      fun within => (uncut _ (List.reduceOption_mem_iff.mp within)).2 rfl⟩

theorem readPiece_plain (text : String) :
    readPiece isAlphanumeric (text.toList.map some) =
      if isWildcard isAlphanumeric text then .wildcard
      else if isParameterSyntax text then .param else .literal text := by
  unfold readPiece
  rw [if_neg (by simp), reduceOption_some, String.ofList_toList]

theorem plain_of_readPiece {piece : List (Option Char)} {text : String}
    (literal : readPiece isAlphanumeric piece = .literal text) :
    isWildcard isAlphanumeric text = false ∧ isParameterSyntax text = false := by
  unfold readPiece at literal
  split_ifs at literal with mark wildcard parameter
  cases literal
  exact ⟨Bool.eq_false_iff.mpr wildcard, Bool.eq_false_iff.mpr parameter⟩

theorem readPiece_pieceText (piece : List (Option Char)) :
    readPiece isAlphanumeric ((pieceText isAlphanumeric piece).toList.map some) =
      if readPiece isAlphanumeric piece = .wildcard then .wildcard
      else .literal (pieceText isAlphanumeric piece) := by
  rw [readPiece_plain]
  unfold pieceText
  cases read : readPiece isAlphanumeric piece with
  | empty => exact absurd read (readPiece_ne_empty piece)
  | param => rfl
  | wildcard => rfl
  | literal text =>
    obtain ⟨named, constant⟩ := plain_of_readPiece read
    rw [Segment.render, named, constant]
    rfl

theorem pieceText_eq_catchall_iff {piece : List (Option Char)} :
    pieceText isAlphanumeric piece = "{**}" ↔ readPiece isAlphanumeric piece = .wildcard := by
  unfold pieceText
  cases read : readPiece isAlphanumeric piece with
  | empty => exact absurd read (readPiece_ne_empty piece)
  | param => exact iff_of_false (by decide) Segment.noConfusion
  | wildcard => exact iff_of_true rfl rfl
  | literal text =>
    refine iff_of_false (fun same => ?_) Segment.noConfusion
    obtain rfl : text = "{**}" := same
    have wildcard : isWildcard isAlphanumeric "{**}" = true := rfl
    exact absurd ((plain_of_readPiece read).1.symm.trans wildcard) Bool.false_ne_true

theorem pathParts_template {t : String} (rooted : Text.startsWith t "/" = true)
    (uncut : '?' ∉ t.toList ∧ '#' ∉ t.toList) :
    extractHost [.literal t] = (.none, [.literal t]) ∧
      pathParts [.literal t] = [.literal t] := by
  have host : extractHost [.literal t] = (.none, [.literal t]) := by
    unfold extractHost
    dsimp only
    rw [NormalizeUrlPart.hostText, if_pos rooted]
  refine ⟨host, ?_⟩
  have whole : (t.toList.takeWhile fun c => !(c = '?' || c = '#')) = t.toList := by
    rw [List.takeWhile_eq_self_iff]
    intro c within
    simp only [Bool.not_eq_true', Bool.or_eq_false_iff, decide_eq_false_iff_not]
    exact ⟨fun same => uncut.1 (same ▸ within), fun same => uncut.2 (same ▸ within)⟩
  unfold pathParts
  rw [host, cutQueryOrFragment, whole, if_pos rfl, cutQueryOrFragment]

theorem pieces_literal (t : String) :
    pieces [.literal t] = (fields '/' t.toList).map (List.map some) := by
  unfold pieces
  rw [chunksFrom, chunksFrom, List.flatMap_cons, List.flatMap_singleton, fields_nil,
    List.nil_append]
  exact fields_map (Option.some_injective Char) t.toList

theorem splitTemplate_eq (t : String) :
    splitTemplate t = (fields '/' t.toList).map String.ofList := by
  unfold splitTemplate Text.split fields
  rw [Text.splitChars_eq, List.filter_map]
  congr 1
  refine List.filter_congr fun piece _ => ?_
  simp [String.ofList_eq_empty_iff]

/-! ### The normal form -/

section

variable {parts : List NormalizeUrlPart} {t : String}

theorem toList_template (template : (normalize isAlphanumeric parts).template = some t) :
    t.toList = '/' :: ['/'].intercalate
      ((pieces (pathParts parts)).map fun piece => (pieceText isAlphanumeric piece).toList) := by
  rw [template_normalize, templateOf_eq] at template
  split at template
  · cases template
  · obtain rfl := Option.some.inj template
    rw [String.toList_append, String.toList_intercalate, List.map_map]
    rfl

theorem fields_template (template : (normalize isAlphanumeric parts).template = some t) :
    fields '/' t.toList =
      (pieces (pathParts parts)).map fun piece => (pieceText isAlphanumeric piece).toList :=
  fields_of_templateOf (fun _ => proper_pieces) ((template_normalize parts).symm.trans template)

theorem rooted_template (template : (normalize isAlphanumeric parts).template = some t) :
    Text.startsWith t "/" = true := by
  rw [Text.startsWith_iff, toList_template template]
  exact ⟨_, rfl⟩

theorem uncut_template (template : (normalize isAlphanumeric parts).template = some t) :
    '?' ∉ t.toList ∧ '#' ∉ t.toList := by
  have other : ∀ c, c ≠ '/' → c ∈ t.toList →
      ∃ piece ∈ pieces (pathParts parts), c ∈ (pieceText isAlphanumeric piece).toList := by
    intro c apart within
    obtain ⟨field, member, char⟩ := exists_mem_fields within apart
    rw [fields_template template] at member
    obtain ⟨piece, inside, rfl⟩ := List.mem_map.mp member
    exact ⟨piece, inside, char⟩
  constructor
  · intro within
    obtain ⟨piece, member, char⟩ := other _ (by decide) within
    exact (uncut_pieceText (uncut_of_mem_pieces member)).1 char
  · intro within
    obtain ⟨piece, member, char⟩ := other _ (by decide) within
    exact (uncut_pieceText (uncut_of_mem_pieces member)).2 char

theorem filled_template (template : (normalize isAlphanumeric parts).template = some t)
    (some : pieces (pathParts parts) ≠ []) {front rest : List Char}
    (whole : t.toList = front ++ '/' :: rest) : [] ∉ rest.splitOn '/' := by
  rw [toList_template template] at whole
  refine rooted_filled (List.map_eq_nil_iff.not.mpr some) ?_ whole
  intro text member
  obtain ⟨piece, inside, rfl⟩ := List.mem_map.mp member
  exact proper_pieceText (proper_pieces inside).1 (proper_pieces inside).2

theorem catchallLast_template_iff
    (template : (normalize isAlphanumeric parts).template = some t) :
    CatchallLast t ↔ ∀ piece ∈ (pieces (pathParts parts)).dropLast,
      readPiece isAlphanumeric piece ≠ .wildcard := by
  have segments : splitTemplate t =
      (pieces (pathParts parts)).map (pieceText isAlphanumeric) := by
    rw [splitTemplate_eq, fields_template template, List.map_map]
    simp [Function.comp_def]
  unfold CatchallLast
  rw [segments, ← List.map_dropLast]
  constructor
  · intro last piece member wildcard
    exact last (List.mem_map.mpr ⟨piece, member, pieceText_eq_catchall_iff.mpr wildcard⟩)
  · intro others within
    obtain ⟨piece, member, same⟩ := List.mem_map.mp within
    exact others piece member (pieceText_eq_catchall_iff.mp same)

/-- **Reading a template gives it back.** -/
theorem normalize_template (template : (normalize isAlphanumeric parts).template = some t) :
    normalize isAlphanumeric [.literal t] = ⟨.none, some t⟩ := by
  obtain ⟨host, path⟩ := pathParts_template (rooted_template template) (uncut_template template)
  have again : (normalize isAlphanumeric [.literal t]).template =
      templateOf isAlphanumeric ((pieces (pathParts parts)).map fun piece =>
        (pieceText isAlphanumeric piece).toList.map some) := by
    rw [template_normalize, path, pieces_literal, fields_template template, List.map_map]
    rfl
  have texts : ((pieces (pathParts parts)).map fun piece =>
      (pieceText isAlphanumeric piece).toList.map some).map (pieceText isAlphanumeric) =
        (pieces (pathParts parts)).map (pieceText isAlphanumeric) := by
    rw [List.map_map]
    refine List.map_congr_left fun piece _ => ?_
    rw [Function.comp_apply, pieceText, readPiece_pieceText]
    split
    next wildcard => exact (pieceText_eq_catchall_iff.mpr wildcard).symm
    · rfl
  have known : ¬ (((pieces (pathParts parts)).map fun piece =>
      (pieceText isAlphanumeric piece).toList.map some) ≠ [] ∧
        Dynamic isAlphanumeric ((pieces (pathParts parts)).map fun piece =>
          (pieceText isAlphanumeric piece).toList.map some)) := by
    rintro ⟨some, dynamic⟩
    have unknown : Dynamic isAlphanumeric (pieces (pathParts parts)) := by
      intro piece member
      have read := dynamic _ (List.mem_map_of_mem member)
      rw [readPiece_pieceText] at read
      split at read
      next wildcard =>
          rw [wildcard]
          rfl
      · cases read
    rw [template_normalize, templateOf_eq_none.mpr
      ⟨fun none => some (List.map_eq_nil_iff.mpr none), unknown⟩] at template
    cases template
  have result : (normalize isAlphanumeric [.literal t]).template = some t := by
    rw [again, templateOf_eq, if_neg known, texts]
    refine congrArg some (String.toList_injective ?_)
    rw [toList_template template, String.toList_append, String.toList_intercalate, List.map_map]
    rfl
  have apart : (normalize isAlphanumeric [.literal t]).host = .none := congrArg Prod.fst host
  rw [← result, ← apart]

end

/-- **When templates are in normal form**: exactly when no wildcard stands before another segment,
or the path has no template. -/
theorem normalForm_iff (isAlphanumeric : Char → Bool) (parts : List NormalizeUrlPart) :
    (∀ t, (normalize isAlphanumeric parts).template = some t → NormalForm isAlphanumeric t) ↔
      (∀ piece ∈ (pieces (pathParts parts)).dropLast,
        readPiece isAlphanumeric piece ≠ .wildcard) ∨
      Dynamic isAlphanumeric (pieces (pathParts parts)) := by
  constructor
  · intro normal
    by_cases none : (normalize isAlphanumeric parts).template = none
    · rw [template_normalize, templateOf_eq_none] at none
      exact Or.inr none.2
    · obtain ⟨t, template⟩ := Option.ne_none_iff_exists'.mp none
      exact Or.inl ((catchallLast_template_iff template).mp (normal t template).catchallLast)
  · intro condition t template
    have others : ∀ piece ∈ (pieces (pathParts parts)).dropLast,
        readPiece isAlphanumeric piece ≠ .wildcard := by
      rcases condition with others | dynamic
      · exact others
      · intro piece member
        have unknown := templateOf_eq_none.mpr
          ⟨List.ne_nil_of_mem (List.dropLast_subset _ member), dynamic⟩
        rw [template_normalize, unknown] at template
        cases template
    have root : pieces (pathParts parts) = [] → t = "/" := fun none =>
      String.toList_injective (by rw [toList_template template, none]; rfl)
    refine
      { rooted := rooted_template template
        filled := ?_
        closed := fun last => ?_
        uncut := uncut_template template
        catchallLast := (catchallLast_template_iff template).mpr others
        settled := normalize_template template }
    · rintro ⟨front, rest, whole⟩
      by_cases none : pieces (pathParts parts) = []
      · have sizes := congrArg List.length whole
        rw [root none] at sizes
        simp at sizes
        omega
      · have doubled : t.toList = front ++ '/' :: '/' :: rest := by
          rw [← whole]
          simp
        exact filled_template template none doubled List.mem_cons_self
    · by_contra longer
      have whole := (List.dropLast_append_getLast? _ last).symm
      exact filled_template template (fun none => longer (root none)) whole List.mem_cons_self

/-- A wildcard in the middle of a path is written there. -/
theorem normalForm_fails : ¬ ∀ (isAlphanumeric : Char → Bool) (parts : List NormalizeUrlPart) t,
    (normalize isAlphanumeric parts).template = some t → NormalForm isAlphanumeric t := by
  intro always
  have normal := always Char.isAlphanum [.literal "/a/*/b"] "/a/{**}/b" (by decide +kernel)
  have last := normal.catchallLast
  unfold CatchallLast at last
  revert last
  decide +kernel

end Lain.Contracts
