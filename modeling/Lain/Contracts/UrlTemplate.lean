import Mathlib
import Lain.Contracts.KeyText
import Lain.Contracts.Normalize
import Lain.Foundation.Fields

/-!
# Templates of URL arguments

A path is a text in which each expression is a mark, and its segments are what stands between the
slashes.
-/

namespace Lain.Contracts

open Foundation

/-! ### Marked paths -/

def NormalizeUrlPart.marks : NormalizeUrlPart → List (Option Char)
  | .literal s => s.toList.map some
  | .hole _ => [none]

/-- Parts as one text with a mark for each expression. -/
def marked (parts : List NormalizeUrlPart) : List (Option Char) :=
  parts.flatMap NormalizeUrlPart.marks

abbrev slash : Option Char := some '/'

section

variable (isAlphanumeric : Char → Bool)

/-- The segment that a piece of a marked text is. -/
def readPiece (piece : List (Option Char)) : Segment :=
  if none ∈ piece then .param
  else if isWildcard isAlphanumeric (String.ofList piece.reduceOption) then .wildcard
  else if isParameterSyntax (String.ofList piece.reduceOption) then .param
  else .literal (String.ofList piece.reduceOption)

def templateOf (pieces : List (List (Option Char))) : Option String :=
  renderTemplate (clean (pieces.map (readPiece isAlphanumeric)))

end

/-- The path of a URL argument: what is left behind the host, up to the query. -/
def pathParts (parts : List NormalizeUrlPart) : List NormalizeUrlPart :=
  cutQueryOrFragment (extractHost parts).2

def chunksFrom (current : List (Option Char)) :
    List NormalizeUrlPart → List (List (Option Char))
  | [] => [current]
  | .hole _ :: later => chunksFrom (current ++ [none]) later
  | .literal s :: later => current :: chunksFrom (s.toList.map some) later

/-- The pieces of a path when a segment also ends wherever a literal begins. -/
def pieces (path : List NormalizeUrlPart) : List (List (Option Char)) :=
  (chunksFrom [] path).flatMap (fields slash)

variable {isAlphanumeric : Char → Bool}

@[simp] theorem marked_nil : marked [] = [] := rfl

theorem marked_cons (part : NormalizeUrlPart) (later : List NormalizeUrlPart) :
    marked (part :: later) = part.marks ++ marked later := rfl

theorem marked_append (front tail : List NormalizeUrlPart) :
    marked (front ++ tail) = marked front ++ marked tail :=
  List.flatMap_append

/-! ### Segments as pieces -/

theorem none_mem_marked {buf : List NormalizeUrlPart} :
    none ∈ marked buf ↔ buf.any NormalizeUrlPart.isHole = true := by
  induction buf with
  | nil => simp
  | cons part later ih =>
    rw [marked_cons, List.mem_append, ih, List.any_cons, Bool.or_eq_true]
    cases part <;> simp [NormalizeUrlPart.marks, NormalizeUrlPart.isHole]

theorem reduceOption_some (chars : List Char) : (chars.map some).reduceOption = chars := by
  unfold List.reduceOption
  rw [List.filterMap_map]
  exact List.filterMap_some

theorem reduceOption_marked {buf : List NormalizeUrlPart}
    (literal : buf.any NormalizeUrlPart.isHole = false) :
    (marked buf).reduceOption = (String.join (buf.map NormalizeUrlPart.hostText)).toList := by
  induction buf with
  | nil => rfl
  | cons part later ih =>
    rw [List.any_cons, Bool.or_eq_false_iff] at literal
    rw [marked_cons, List.reduceOption_append, ih literal.2, List.map_cons, String.join_cons,
      String.toList_append]
    cases part with
    | literal s => rw [NormalizeUrlPart.marks, NormalizeUrlPart.hostText, reduceOption_some]
    | hole h => cases literal.1

theorem flushSegment_eq (buf : List NormalizeUrlPart) :
    flushSegment isAlphanumeric buf =
      if marked buf = [] then .empty else readPiece isAlphanumeric (marked buf) := by
  unfold flushSegment readPiece
  by_cases hole : buf.any NormalizeUrlPart.isHole = true
  · have mark := none_mem_marked.mpr hole
    rw [if_pos hole, if_neg (List.ne_nil_of_mem mark), if_pos mark]
  · have plain := none_mem_marked.not.mpr hole
    rw [if_neg hole, if_neg plain, reduceOption_marked (Bool.eq_false_iff.mpr hole),
      String.ofList_toList]
    have blank : marked buf = [] ↔ String.join (buf.map NormalizeUrlPart.hostText) = "" := by
      rw [← String.toList_inj, ← reduceOption_marked (Bool.eq_false_iff.mpr hole)]
      constructor
      · intro none
        rw [none]
        rfl
      · intro none
        cases whole : marked buf with
        | nil => rfl
        | cons c rest =>
          cases c with
          | none => exact absurd (whole ▸ List.mem_cons_self) plain
          | some c =>
            rw [whole, List.reduceOption_cons_of_some] at none
            cases none
    dsimp only
    by_cases empty : String.join (buf.map NormalizeUrlPart.hostText) = ""
    · rw [if_pos empty, if_pos (blank.mpr empty)]
    · rw [if_neg empty, if_neg (blank.not.mpr empty)]

theorem readPiece_ne_empty (piece : List (Option Char)) :
    readPiece isAlphanumeric piece ≠ .empty := by
  unfold readPiece
  split_ifs <;> exact Segment.noConfusion

def kept (segments : List Segment) : List Segment :=
  segments.filter fun s => decide (s ≠ .empty)

theorem kept_flushSegment {buf : List NormalizeUrlPart} (free : slash ∉ marked buf) :
    kept [flushSegment isAlphanumeric buf] =
      (fields slash (marked buf)).map (readPiece isAlphanumeric) := by
  rw [flushSegment_eq]
  by_cases empty : marked buf = []
  · rw [if_pos empty, empty]
    rfl
  · rw [if_neg empty, fields_of_notMem free empty]
    unfold kept
    rw [List.filter_singleton, decide_eq_true (readPiece_ne_empty _)]
    rfl

/-! ### Reading parts -/

def pieceBuf (sub : String) : List NormalizeUrlPart :=
  if sub = "" then [] else [.literal sub]

theorem marked_pieceBuf (sub : String) : marked (pieceBuf sub) = sub.toList.map some := by
  unfold pieceBuf
  split
  next empty => rw [empty]; rfl
  · rw [marked_cons, marked_nil, List.append_nil]
    rfl

theorem foldl_pushPiece (front : List String) (last : String) :
    ∀ (segments : List Segment) (buf : List NormalizeUrlPart),
      (front ++ [last]).foldl (pushPiece isAlphanumeric) (segments, buf) =
        (segments ++ flushSegment isAlphanumeric buf ::
          front.map fun sub => flushSegment isAlphanumeric (pieceBuf sub), pieceBuf last) := by
  induction front with
  | nil => exact fun segments buf => rfl
  | cons sub front ih =>
    intro segments buf
    rw [List.cons_append, List.foldl_cons]
    change (front ++ [last]).foldl (pushPiece isAlphanumeric)
      (segments ++ [flushSegment isAlphanumeric buf], pieceBuf sub) = _
    rw [ih, List.append_assoc]
    rfl

theorem marks_literal {s : String} {front : List String} {last : String}
    (cut : Text.split s '/' = front ++ [last]) :
    s.toList.map some =
      ((front.map fun sub => sub.toList.map some).flatMap fun piece => piece ++ [slash]) ++
        last.toList.map some := by
  have chars : s.toList.splitOn '/' = front.map String.toList ++ [last.toList] := by
    have same := congrArg (List.map String.toList) cut
    rw [Text.split, Text.splitChars_eq, List.map_map, List.map_append] at same
    simpa [Function.comp_def] using same
  have whole : ['/'].intercalate (s.toList.splitOn '/') = s.toList := List.intercalate_splitOn '/'
  rw [chars, intercalate_concat] at whole
  rw [← whole, List.map_append, List.map_flatMap, List.flatMap_map, List.flatMap_map]
  simp

theorem flatMap_chunksFrom {x : List (Option Char)} (ends : Ends slash x)
    (later : List NormalizeUrlPart) :
    ∀ y, (chunksFrom (x ++ y) later).flatMap (fields slash) =
      fields slash x ++ (chunksFrom y later).flatMap (fields slash) := by
  induction later with
  | nil =>
    intro y
    simp only [chunksFrom, List.flatMap_singleton]
    exact ends.fields_append y
  | cons part later ih =>
    intro y
    cases part with
    | hole h =>
      rw [chunksFrom, chunksFrom, List.append_assoc]
      exact ih _
    | literal s =>
      rw [chunksFrom, chunksFrom, List.flatMap_cons, List.flatMap_cons, ends.fields_append,
        List.append_assoc]

theorem kept_append (front tail : List Segment) : kept (front ++ tail) = kept front ++ kept tail :=
  List.filter_append ..

theorem kept_flushSegments {subs : List String} (free : ∀ sub ∈ subs, '/' ∉ sub.toList) :
    kept (subs.map fun sub => flushSegment isAlphanumeric (pieceBuf sub)) =
      (subs.flatMap fun sub => fields slash (sub.toList.map some)).map
        (readPiece isAlphanumeric) := by
  induction subs with
  | nil => rfl
  | cons sub subs ih =>
    obtain ⟨here, later⟩ := List.forall_mem_cons.mp free
    have own : slash ∉ marked (pieceBuf sub) := by
      rw [marked_pieceBuf]
      simpa using here
    rw [List.map_cons, ← List.singleton_append, kept_append, ih later, kept_flushSegment own,
      marked_pieceBuf, List.flatMap_cons, List.map_append]

/-- **The segments that are read** are those of the chunks of the path. -/
theorem kept_foldl_pushPart (parts : List NormalizeUrlPart) :
    ∀ (segments : List Segment) (buf : List NormalizeUrlPart), slash ∉ marked buf →
      kept ((parts.foldl (pushPart isAlphanumeric) (segments, buf)).1 ++
          [flushSegment isAlphanumeric
            (parts.foldl (pushPart isAlphanumeric) (segments, buf)).2]) =
        kept segments ++ ((chunksFrom (marked buf) parts).flatMap (fields slash)).map
          (readPiece isAlphanumeric) := by
  induction parts with
  | nil =>
    intro segments buf free
    rw [List.foldl_nil, kept_append, kept_flushSegment free, chunksFrom,
      List.flatMap_singleton]
  | cons part parts ih =>
    intro segments buf free
    rw [List.foldl_cons]
    cases part with
    | hole h =>
      have longer : marked (buf ++ [.hole h]) = marked buf ++ [none] := marked_append ..
      rw [pushPart, chunksFrom, ← longer]
      refine ih segments _ ?_
      rw [longer]
      simpa using free
    | literal s =>
      obtain ⟨front, last, cut⟩ : ∃ front last, Text.split s '/' = front ++ [last] := by
        rcases List.eq_nil_or_concat (Text.split s '/') with none | ⟨front, last, cut⟩
        · exact absurd (List.map_eq_nil_iff.mp none) (Text.splitChars_ne_nil _ _)
        · exact ⟨front, last, by rw [cut, List.concat_eq_append]⟩
      have slashFree : ∀ sub ∈ front ++ [last], '/' ∉ sub.toList := fun sub member within =>
        (Text.of_mem_split (cut ▸ member) '/' within).2 rfl
      obtain ⟨frontFree, lastFree⟩ := List.forall_mem_append.mp slashFree
      have own : slash ∉ marked (pieceBuf last) := by
        rw [marked_pieceBuf]
        simpa using lastFree
      have read : pushPart isAlphanumeric (segments, buf) (.literal s) =
          (segments ++ flushSegment isAlphanumeric buf ::
            front.map fun sub => flushSegment isAlphanumeric (pieceBuf sub),
              pieceBuf last) := by
        rw [pushPart, cut, foldl_pushPiece]
      rw [read, ih _ _ own, chunksFrom, marks_literal cut,
        List.flatMap_cons, flatMap_chunksFrom (ends_flatMap_concat _), fields_flatMap_concat,
        kept_append,
        ← List.singleton_append, kept_append, kept_flushSegment free,
        kept_flushSegments frontFree, marked_pieceBuf]
      simp [List.flatMap_map]

/-! ### Templates of pieces -/

def pieceText (isAlphanumeric : Char → Bool) (piece : List (Option Char)) : String :=
  (readPiece isAlphanumeric piece).render

/-- All pieces stand for values known only at run time. -/
def Dynamic (isAlphanumeric : Char → Bool) (pieces : List (List (Option Char))) : Prop :=
  ∀ piece ∈ pieces, (readPiece isAlphanumeric piece).isDynamic = true

instance (pieces : List (List (Option Char))) : Decidable (Dynamic isAlphanumeric pieces) :=
  inferInstanceAs (Decidable (∀ piece ∈ pieces, _))

theorem kept_map_readPiece (pieces : List (List (Option Char))) :
    kept (pieces.map (readPiece isAlphanumeric)) = pieces.map (readPiece isAlphanumeric) := by
  refine List.filter_eq_self.mpr fun segment member => ?_
  obtain ⟨piece, -, rfl⟩ := List.mem_map.mp member
  exact decide_eq_true (readPiece_ne_empty piece)

theorem clean_congr {segments others : List Segment} (same : kept segments = kept others) :
    clean segments = clean others := by
  change (if (kept segments).isEmpty then _ else kept segments) =
    if (kept others).isEmpty then _ else kept others
  rw [same]

/-- **The template of an argument** is that of the pieces of its path. -/
theorem template_normalize (parts : List NormalizeUrlPart) :
    (normalize isAlphanumeric parts).template =
      templateOf isAlphanumeric (pieces (pathParts parts)) := by
  have read := @kept_foldl_pushPart isAlphanumeric (pathParts parts) [] [] List.not_mem_nil
  exact congrArg renderTemplate (clean_congr (read.trans (kept_map_readPiece _).symm))

theorem templateOf_eq (pieces : List (List (Option Char))) :
    templateOf isAlphanumeric pieces =
      if pieces ≠ [] ∧ Dynamic isAlphanumeric pieces then none
      else some ("/" ++ "/".intercalate (pieces.map (pieceText isAlphanumeric))) := by
  have same : clean (pieces.map (readPiece isAlphanumeric)) =
      if pieces = [] then [.literal ""] else pieces.map (readPiece isAlphanumeric) := by
    change (if (kept _).isEmpty then _ else kept _) = _
    rw [kept_map_readPiece]
    simp
  have all : (pieces.map (readPiece isAlphanumeric)).all Segment.isDynamic = true ↔
      Dynamic isAlphanumeric pieces := by
    rw [List.all_map, List.all_eq_true]
    rfl
  unfold templateOf
  rw [same]
  by_cases none : pieces = []
  · rw [if_pos none, if_neg fun both => both.1 none, none]
    rfl
  · rw [if_neg none]
    unfold renderTemplate
    rw [if_neg (by simpa using none), List.map_map]
    refine if_congr ?_ rfl rfl
    rw [all]
    exact ⟨fun dynamic => ⟨none, dynamic⟩, And.right⟩

theorem templateOf_eq_none {pieces : List (List (Option Char))} :
    templateOf isAlphanumeric pieces = none ↔ pieces ≠ [] ∧ Dynamic isAlphanumeric pieces := by
  rw [templateOf_eq]
  split
  next dynamic => exact iff_of_true rfl dynamic
  next not => exact iff_of_false (Option.some_ne_none _) not

theorem proper_pieceText {piece : List (Option Char)} (filled : piece ≠ [])
    (free : slash ∉ piece) :
    (pieceText isAlphanumeric piece).toList ≠ [] ∧
      '/' ∉ (pieceText isAlphanumeric piece).toList := by
  unfold pieceText readPiece
  split_ifs with mark
  · exact ⟨by decide, by decide⟩
  · exact ⟨by decide, by decide⟩
  · exact ⟨by decide, by decide⟩
  · rw [Segment.render, String.toList_ofList]
    refine ⟨fun none => ?_, fun within => free (List.reduceOption_mem_iff.mp within)⟩
    obtain ⟨c, member⟩ := List.exists_mem_of_ne_nil _ filled
    cases c with
    | none => exact mark member
    | some c =>
      have inside := List.reduceOption_mem_iff.mpr member
      rw [none] at inside
      cases inside

theorem proper_pieces {path : List NormalizeUrlPart} {piece : List (Option Char)}
    (member : piece ∈ pieces path) : piece ≠ [] ∧ slash ∉ piece := by
  obtain ⟨chunk, -, inside⟩ := List.mem_flatMap.mp member
  exact of_mem_fields inside

theorem fields_of_templateOf {pieces : List (List (Option Char))} {t : String}
    (proper : ∀ piece ∈ pieces, piece ≠ [] ∧ slash ∉ piece)
    (template : templateOf isAlphanumeric pieces = some t) :
    fields '/' t.toList = pieces.map fun piece => (pieceText isAlphanumeric piece).toList := by
  rw [templateOf_eq] at template
  split at template
  · cases template
  · obtain rfl := Option.some.inj template
    rw [String.toList_append, String.toList_intercalate, List.map_map]
    have own : fields '/' "/".toList = [] := rfl
    have ends : Ends '/' "/".toList := Or.inr rfl
    rw [ends.fields_append, own, List.nil_append]
    refine fields_intercalate fun text member => ?_
    obtain ⟨piece, inside, rfl⟩ := List.mem_map.mp member
    exact proper_pieceText (proper piece inside).1 (proper piece inside).2

/-! ### Segments cut in two -/

/-- A literal begins within a segment of the path. -/
def Glued (path : List NormalizeUrlPart) : Prop :=
  ∃ front s later, path = front ++ .literal s :: later ∧ ¬ Ends slash (marked front) ∧
    ¬ Begins slash (marked (.literal s :: later))

private def GluedFrom (current : List (Option Char)) (parts : List NormalizeUrlPart) : Prop :=
  ∃ front s later, parts = front ++ .literal s :: later ∧ ¬ Ends slash (current ++ marked front) ∧
    ¬ Begins slash (marked (.literal s :: later))

private theorem ends_append_iff {x y : List (Option Char)} (filled : y ≠ []) :
    Ends slash (x ++ y) ↔ Ends slash y := by
  unfold Ends
  rw [List.getLast?_append_of_ne_nil _ filled]
  simp [filled]

private theorem gluedFrom_hole {current : List (Option Char)} {h : String}
    {later : List NormalizeUrlPart} :
    GluedFrom current (.hole h :: later) ↔ GluedFrom (current ++ [none]) later := by
  constructor
  · rintro ⟨front, s, tail, whole, unfinished, going⟩
    cases front with
    | nil => cases whole
    | cons part front =>
      obtain ⟨rfl, rfl⟩ := List.cons.inj whole
      refine ⟨front, s, tail, rfl, ?_, going⟩
      rw [List.append_assoc]
      exact unfinished
  · rintro ⟨front, s, tail, rfl, unfinished, going⟩
    refine ⟨.hole h :: front, s, tail, rfl, ?_, going⟩
    rw [marked_cons, ← List.append_assoc]
    exact unfinished

private theorem gluedFrom_literal {current : List (Option Char)} {s : String}
    {later : List NormalizeUrlPart} :
    GluedFrom current (.literal s :: later) ↔
      (¬ Ends slash current ∧ ¬ Begins slash (marked (.literal s :: later))) ∨
        GluedFrom (s.toList.map some) later := by
  constructor
  · rintro ⟨front, t, tail, whole, unfinished, going⟩
    cases front with
    | nil =>
      obtain ⟨same, rfl⟩ := List.cons.inj whole
      obtain rfl := NormalizeUrlPart.literal.inj same
      rw [marked_nil, List.append_nil] at unfinished
      exact Or.inl ⟨unfinished, going⟩
    | cons part front =>
      obtain ⟨rfl, rfl⟩ := List.cons.inj whole
      by_cases blank : marked (.literal s :: front) = []
      · -- what precedes the cut is empty here, so the first literal is a cut as well
        refine Or.inl ⟨?_, ?_⟩
        · rw [blank, List.append_nil] at unfinished
          exact unfinished
        · change ¬ Begins slash (marked ((.literal s :: front) ++ .literal t :: tail))
          rw [marked_append, blank]
          exact going
      · rw [ends_append_iff blank] at unfinished
        exact Or.inr ⟨front, t, tail, rfl, unfinished, going⟩
  · rintro (⟨unfinished, going⟩ | ⟨front, t, tail, rfl, unfinished, going⟩)
    · refine ⟨[], s, later, rfl, ?_, going⟩
      rw [marked_nil, List.append_nil]
      exact unfinished
    · refine ⟨.literal s :: front, t, tail, rfl, fun ends => unfinished ?_, going⟩
      by_cases blank : marked (.literal s :: front) = []
      · exact Or.inl blank
      · exact (ends_append_iff blank).mp ends

private theorem chunks_or (parts : List NormalizeUrlPart) :
    ∀ current : List (Option Char),
      (GluedFrom current parts ∧ fields slash (current ++ marked parts) ≠ [] ∧
        (fields slash (current ++ marked parts)).length <
          ((chunksFrom current parts).flatMap (fields slash)).length) ∨
      (¬ GluedFrom current parts ∧
        (chunksFrom current parts).flatMap (fields slash) =
          fields slash (current ++ marked parts)) := by
  induction parts with
  | nil =>
    intro current
    refine Or.inr ⟨?_, ?_⟩
    · rintro ⟨front, s, later, whole, -⟩
      exact absurd whole (by simp)
    · rw [chunksFrom, List.flatMap_singleton, marked_nil, List.append_nil]
  | cons part later ih =>
    intro current
    cases part with
    | hole h =>
      rw [gluedFrom_hole, chunksFrom, marked_cons, ← List.append_assoc]
      exact ih (current ++ [none])
    | literal s =>
      rw [gluedFrom_literal, chunksFrom, List.flatMap_cons, List.length_append]
      have rest := ih (s.toList.map some)
      change (_ ∧ fields slash (marked (.literal s :: later)) ≠ [] ∧
        (fields slash (marked (.literal s :: later))).length < _) ∨
          (_ ∧ _ = fields slash (marked (.literal s :: later))) at rest
      by_cases here : ¬ Ends slash current ∧ ¬ Begins slash (marked (.literal s :: later))
      · obtain ⟨early, left, right, tail, own, next, joined⟩ :=
          fields_append_of_cut here.1 here.2
        have atLeast : (fields slash (marked (.literal s :: later))).length ≤
            ((chunksFrom (s.toList.map some) later).flatMap (fields slash)).length :=
          rest.elim (fun more => more.2.2.le) fun same => (congrArg List.length same.2).ge
        refine Or.inl ⟨Or.inl here, ?_, ?_⟩
        · rw [joined]
          simp
        · rw [joined, own]
          rw [next] at atLeast
          simp only [List.length_append, List.length_cons, List.length_nil] at atLeast ⊢
          omega
      · have apart : fields slash (current ++ marked (.literal s :: later)) =
            fields slash current ++ fields slash (marked (.literal s :: later)) := by
          rcases not_and_or.mp here with ends | begins
          · exact (not_not.mp ends).fields_append _
          · exact (not_not.mp begins).fields_append _
        rw [apart]
        rcases rest with ⟨glued, filled, more⟩ | ⟨whole, same⟩
        · refine Or.inl ⟨Or.inr glued, ?_, ?_⟩
          · exact fun none => filled (List.append_eq_nil_iff.mp none).2
          · rw [List.length_append]
            omega
        · exact Or.inr ⟨not_or.mpr ⟨here, whole⟩, by rw [same]⟩

/-- **Templates have the segments of their paths**: those between the slashes, where each expression
makes its segment a parameter. -/
def Segmented (isAlphanumeric : Char → Bool) (parts : List NormalizeUrlPart) : Prop :=
  (normalize isAlphanumeric parts).template =
    templateOf isAlphanumeric (fields slash (marked (pathParts parts)))

/-- **When templates have the segments of their paths**: exactly when no literal begins within a
segment, or nothing is known of the path either way. Then a literal may be cut in two anywhere. -/
theorem segmented_iff (isAlphanumeric : Char → Bool) :
    (∀ parts, Segmented isAlphanumeric parts ↔
      ¬ Glued (pathParts parts) ∨
        (Dynamic isAlphanumeric (fields slash (marked (pathParts parts))) ∧
          Dynamic isAlphanumeric (pieces (pathParts parts)))) ∧
      ∀ parts others, Segmented isAlphanumeric parts → Segmented isAlphanumeric others →
        marked (pathParts parts) = marked (pathParts others) →
          (normalize isAlphanumeric parts).template =
            (normalize isAlphanumeric others).template := by
  refine ⟨fun parts => ?_, fun parts others first second same => ?_⟩
  · unfold Segmented
    rw [template_normalize]
    have cut := chunks_or (pathParts parts) []
    change (Glued (pathParts parts) ∧ fields slash (marked (pathParts parts)) ≠ [] ∧
      (fields slash (marked (pathParts parts))).length < (pieces (pathParts parts)).length) ∨
      (¬ Glued (pathParts parts) ∧
        pieces (pathParts parts) = fields slash (marked (pathParts parts))) at cut
    rcases cut with ⟨glued, filled, more⟩ | ⟨whole, same⟩
    · have wider : pieces (pathParts parts) ≠ [] := fun none => by rw [none] at more; cases more
      constructor
      · intro same
        right
        cases template : templateOf isAlphanumeric (pieces (pathParts parts)) with
        | none =>
          exact ⟨(templateOf_eq_none.mp (same ▸ template)).2,
            (templateOf_eq_none.mp template).2⟩
        | some t =>
          -- the texts of the pieces are the segments of one template
          have left := fields_of_templateOf (fun _ => proper_pieces) template
          have right := fields_of_templateOf (fun _ => of_mem_fields) (same ▸ template)
          have sizes := congrArg List.length (left.symm.trans right)
          rw [List.length_map, List.length_map] at sizes
          omega
      · rintro (whole | ⟨left, right⟩)
        · exact absurd glued whole
        · rw [templateOf_eq_none.mpr ⟨filled, left⟩, templateOf_eq_none.mpr ⟨wider, right⟩]
    · exact iff_of_true (by rw [same]) (Or.inl whole)
  · rw [first, second, same]

/-- The extension behind an expression becomes a segment of its own. -/
theorem segmented_fails : ¬ ∀ (isAlphanumeric : Char → Bool) (parts : List NormalizeUrlPart),
    Segmented isAlphanumeric parts := by
  intro always
  have same := always Char.isAlphanum [.literal "/v1/", .hole "id", .literal ".json"]
  revert same
  unfold Segmented
  decide +kernel

end Lain.Contracts
