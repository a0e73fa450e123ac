import Lain.Foundation.ByteCursor
import Lain.Foundation.SegmentGlob

/-!
# Globs of text

The star and the wall of a pattern of text are characters of the first half.
-/

namespace Lain.Foundation.SegmentGlob

open ByteCursor (bytes bytes_cons bytes_append bytes_nil)

def Inner (b : UInt8) : Prop :=
  ¬ b.IsUTF8FirstByte

theorem utf8EncodeChar_eq_cons (c : Char) :
    ∃ b others, String.utf8EncodeChar c = b :: others ∧ ¬ Inner b ∧ ∀ o ∈ others, Inner o := by
  obtain ⟨b, others, encoded⟩ := List.exists_cons_of_ne_nil (String.utf8EncodeChar_ne_nil (c := c))
  have first : ∀ i (inside : i < (String.utf8EncodeChar c).length),
      (String.utf8EncodeChar c)[i].IsUTF8FirstByte ↔ i = 0 :=
    fun i inside => UInt8.isUTF8FirstByte_getElem_utf8EncodeChar
  simp only [encoded] at first
  refine ⟨b, others, encoded, not_not.mpr ((first 0 (by simp)).mpr rfl), fun o member => ?_⟩
  obtain ⟨i, inside, rfl⟩ := List.getElem_of_mem member
  exact fun begins => Nat.succ_ne_zero i ((first (i + 1) (by simpa using inside)).mp begins)

theorem bytes_eq_append {c : Char} {text : List Char} {rest : List UInt8}
    (whole : bytes text = String.utf8EncodeChar c ++ rest) :
    ∃ later, text = c :: later ∧ rest = bytes later := by
  cases text with
  | nil => exact absurd (List.nil_eq_append_iff.mp whole).1 String.utf8EncodeChar_ne_nil
  | cons d later =>
    rw [bytes_cons] at whole
    have decoded : ∀ (c : Char) (more : List UInt8),
        ByteArray.utf8DecodeChar? (String.utf8EncodeChar c ++ more).toByteArray 0 = some c := by
      intro c more
      rw [List.toByteArray_append]
      exact ByteArray.utf8DecodeChar?_utf8EncodeChar_append
    have same := (decoded d (bytes later)).symm.trans
      ((congrArg (fun b => ByteArray.utf8DecodeChar? b.toByteArray 0) whole).trans
        (decoded c rest))
    obtain rfl := Option.some.inj same
    exact ⟨later, rfl, (List.append_cancel_left whole).symm⟩

theorem cut_bytes {text : List Char} {front rest : List UInt8} (whole : bytes text = front ++ rest) :
    (∃ before after, text = before ++ after ∧ front = bytes before ∧ rest = bytes after) ∨
      ∃ before c after left right, text = before ++ c :: after ∧ front = bytes before ++ left ∧
        rest = right ++ bytes after ∧ String.utf8EncodeChar c = left ++ right ∧ left ≠ [] ∧
        right ≠ [] := by
  induction text generalizing front with
  | nil =>
    obtain ⟨rfl, rfl⟩ := List.nil_eq_append_iff.mp whole
    exact .inl ⟨[], [], rfl, rfl, rfl⟩
  | cons c text ih =>
    rw [bytes_cons] at whole
    rcases List.append_eq_append_iff.mp whole with ⟨more, rfl, later⟩ | ⟨more, encoded, rfl⟩
    · rcases ih later with ⟨before, after, rfl, rfl, rfl⟩ |
        ⟨before, d, after, left, right, rfl, rfl, rfl, encoded, started, unfinished⟩
      · exact .inl ⟨c :: before, after, rfl, (bytes_cons _ _).symm, rfl⟩
      · refine .inr ⟨c :: before, d, after, left, right, rfl, ?_, rfl, encoded, started,
          unfinished⟩
        rw [bytes_cons, List.append_assoc]
    · by_cases started : front = []
      · subst started
        refine .inl ⟨[], c :: text, rfl, rfl, ?_⟩
        rw [bytes_cons, encoded, List.nil_append]
      · by_cases finished : more = []
        · subst finished
          refine .inl ⟨[c], text, rfl, ?_, List.nil_append _⟩
          rw [bytes_cons, encoded, List.append_nil, bytes_nil, List.append_nil]
        · exact .inr ⟨[], c, text, front, more, rfl, rfl, rfl, encoded, started, finished⟩

theorem mem_bytes_iff {c : Char} (ascii : c.toNat < 128) (text : List Char) :
    c.val.toUInt8 ∈ bytes text ↔ c ∈ text := by
  induction text with
  | nil => simp
  | cons d text ih =>
    rw [bytes_cons, List.mem_append, ih, List.mem_cons]
    refine or_congr_left ?_
    by_cases wide : 128 ≤ d.toNat
    · refine iff_of_false (fun member => ?_) ?_
      · have high := ByteCursor.le_toNat_of_mem wide member
        rw [ByteCursor.toNat_toUInt8 ascii] at high
        omega
      · rintro rfl
        omega
    · have narrow : d.toNat < 128 := by omega
      rw [ByteCursor.utf8EncodeChar_ascii narrow, List.mem_singleton]
      rw [ByteCursor.toUInt8_eq_iff ascii narrow]

variable {star wall : Char}

abbrev byteTokens (star : Char) (pattern : List Char) : List (Token UInt8) :=
  tokensOf star.val.toUInt8 (bytes pattern)

theorem byteTokens_star (ascii : star.toNat < 128) (pattern : List Char) :
    byteTokens star (star :: pattern) = .star :: byteTokens star pattern := by
  unfold byteTokens
  rw [bytes_cons, ByteCursor.utf8EncodeChar_ascii ascii, List.singleton_append, tokensOf_star]

theorem byteTokens_cons (ascii : star.toNat < 128) {c : Char} (plain : c ≠ star)
    (pattern : List Char) :
    byteTokens star (c :: pattern) =
      (String.utf8EncodeChar c).map .exact ++ byteTokens star pattern := by
  unfold byteTokens
  rw [bytes_cons, tokensOf_append]
  intro member
  have inside := (mem_bytes_iff ascii [c]).mp (by simpa using member)
  exact plain (List.mem_singleton.mp inside).symm

theorem matches_inside (ascii : star.toNat < 128) {inner : List UInt8} (inside : inner ≠ [])
    (none_ : ∀ b ∈ inner, Inner b) {pattern text : List Char}
    (matched : Matches wall.val.toUInt8 (byteTokens star pattern) (inner ++ bytes text)) :
    Matches wall.val.toUInt8 (byteTokens star pattern) (bytes text) := by
  induction pattern generalizing inner with
  | nil => exact absurd (List.append_eq_nil_iff.mp matched).1 inside
  | cons c pattern ih =>
    by_cases plain : c = star
    · subst plain
      rw [byteTokens_star ascii] at matched ⊢
      obtain ⟨run, rest, whole, within, matched⟩ := matched
      rcases List.append_eq_append_iff.mp whole with ⟨more, rfl, later⟩ | ⟨more, rfl, rfl⟩
      · exact ⟨more, rest, later, fun member => within (List.mem_append_right _ member), matched⟩
      · refine ⟨[], bytes text, rfl, List.not_mem_nil, ?_⟩
        by_cases whole_ : more = []
        · subst whole_
          exact matched
        · exact ih whole_ (fun b member => none_ b (List.mem_append_right _ member)) matched
    · obtain ⟨b, others, encoded, begins, -⟩ := utf8EncodeChar_eq_cons c
      rw [byteTokens_cons ascii plain, matches_exacts, encoded] at matched
      obtain ⟨rest, whole, -⟩ := matched
      obtain ⟨o, inner, rfl⟩ := List.exists_cons_of_ne_nil inside
      obtain ⟨rfl, -⟩ := List.cons.inj whole
      exact absurd (none_ o List.mem_cons_self) begins

/-- **A text matches when its bytes do.** -/
theorem matches_bytes (asciiStar : star.toNat < 128) (asciiWall : wall.toNat < 128)
    (pattern text : List Char) :
    Matches wall.val.toUInt8 (byteTokens star pattern) (bytes text) ↔
      Matches wall (tokensOf star pattern) text := by
  induction pattern generalizing text with
  | nil =>
    change bytes text = [] ↔ text = []
    constructor
    · intro empty
      cases text with
      | nil => rfl
      | cons c text =>
        rw [bytes_cons] at empty
        exact absurd (List.append_eq_nil_iff.mp empty).1 String.utf8EncodeChar_ne_nil
    · rintro rfl
      rfl
  | cons c pattern ih =>
    by_cases plain : c = star
    · subst plain
      rw [byteTokens_star asciiStar, tokensOf_star]
      constructor
      · rintro ⟨run, rest, whole, within, matched⟩
        rcases cut_bytes whole with ⟨before, after, rfl, rfl, rfl⟩ |
          ⟨before, d, after, left, right, rfl, rfl, rfl, encoded, started, unfinished⟩
        · refine ⟨before, after, rfl, ?_, (ih after).mp matched⟩
          exact fun member => within ((mem_bytes_iff asciiWall before).mpr member)
        · obtain ⟨b, others, encoded', -, none_⟩ := utf8EncodeChar_eq_cons d
          obtain ⟨b', left, rfl⟩ := List.exists_cons_of_ne_nil started
          obtain ⟨rfl, rfl⟩ := List.cons.inj (encoded'.symm.trans encoded)
          have later := matches_inside asciiStar unfinished
            (fun o member => none_ o (List.mem_append_right _ member)) matched
          refine ⟨before ++ [d], after, (List.append_cons _ _ _).symm ▸ rfl, ?_,
            (ih after).mp later⟩
          intro member
          rcases List.mem_append.mp member with early | last
          · exact within (List.mem_append_left _ ((mem_bytes_iff asciiWall before).mpr early))
          · obtain rfl := List.mem_singleton.mp last
            rw [ByteCursor.utf8EncodeChar_ascii asciiWall] at encoded
            obtain ⟨-, none⟩ := List.cons.inj encoded
            exact unfinished (List.append_eq_nil_iff.mp none.symm).2
      · rintro ⟨run, rest, rfl, within, matched⟩
        refine ⟨bytes run, bytes rest, bytes_append run rest, ?_, (ih rest).mpr matched⟩
        exact fun member => within ((mem_bytes_iff asciiWall run).mp member)
    · rw [byteTokens_cons asciiStar plain, tokensOf_cons plain, matches_exacts, matches_exact]
      constructor
      · rintro ⟨rest, whole, matched⟩
        obtain ⟨later, rfl, rfl⟩ := bytes_eq_append whole
        exact ⟨later, rfl, (ih later).mp matched⟩
      · rintro ⟨rest, rfl, matched⟩
        exact ⟨bytes rest, bytes_cons c rest, (ih rest).mpr matched⟩

end Lain.Foundation.SegmentGlob
