import Mathlib
import Lain.Server.CommentStripping

/-!
# The walks as filters

The walks over a source are filters of its characters, so what they keep stands in order and whole,
and no line feed is lost.
-/

namespace Lain.Server.CommentStripping

open Foundation
open Foundation.ByteCursor (bytes)
open TextFilter (ahead)

/-! ### The walks are filters -/

def Mark.byte : Mark → UInt8
  | .slash => 47
  | .star => 42
  | .quote => 34
  | .apostrophe => 39
  | .backslash => 92
  | .lineFeed => 10
  | .hash => 35

theorem byteMark_eq_some {b : UInt8} {m : Mark} : byteMark b = some m ↔ b = m.byte := by
  have all : ∀ n < 256, ∀ m ∈ [Mark.slash, .star, .quote, .apostrophe, .backslash, .lineFeed,
      .hash], byteMark (UInt8.ofNat n) = some m ↔ UInt8.ofNat n = m.byte := by
    decide +kernel
  have here := all b.toNat b.toNat_lt m (by cases m <;> simp)
  rwa [UInt8.ofNat_toNat] at here

theorem head_ahead {α : Type} (cls : α → Option Mark) (rest : List α) :
    (ahead cls rest).head? = rest.head?.bind cls := by
  cases rest with
  | nil => rfl
  | cons x rest =>
    rw [ahead, List.head?_cons, Option.bind_some]
    cases cls x <;> rfl

theorem commentAt_eq (m : Mark) (later : List Mark) :
    commentAt m later =
      if m = .slash ∧ later.head? = some .slash then some .line
      else if m = .slash ∧ later.head? = some .star then some .opening
      else none := by
  rcases later with _ | ⟨n, later⟩
  · cases m <;> rfl
  · cases m <;> cases n <;> rfl

theorem step_byte {σ : Type} {f : TextFilter Mark σ} (s : σ) (b : UInt8) (rest : List UInt8) :
    (byteMark b = none ∧ f.step byteMark s b rest = f.plain s) ∨
      ∃ m, b = m.byte ∧ f.step byteMark s b rest = f.mark s m (ahead byteMark rest) := by
  cases here : byteMark b with
  | none => exact .inl ⟨rfl, TextFilter.step_none here⟩
  | some m => exact .inr ⟨m, byteMark_eq_some.mp here, TextFilter.step_some here⟩

theorem head_ahead_eq_some {rest : List UInt8} {m : Mark} :
    (ahead byteMark rest).head? = some m ↔ rest.head? = some m.byte := by
  rw [head_ahead]
  cases rest with
  | nil => simp
  | cons b rest => simp [byteMark_eq_some]

theorem Mark.byte_inj {m n : Mark} : m.byte = n.byte ↔ m = n := by
  cases m <;> cases n <;> decide

section CStyle

variable {singles : Bool} {m : Mark} {later : List Mark} {b : UInt8} {rest : List UInt8}

theorem mark_code_none (free : commentAt m later = none) :
    (cStyle singles).mark .code m later = (true, literalAt singles m) := by
  unfold cStyle
  dsimp only
  rw [free]

theorem mark_code_some {comment : CState} (begins : commentAt m later = some comment) :
    (cStyle singles).mark .code m later = (false, comment) := by
  unfold cStyle
  dsimp only
  rw [begins]

theorem run_code_kept (noLine : ¬ (b = 47 ∧ rest.head? = some 47))
    (noBlock : ¬ (b = 47 ∧ rest.head? = some 42)) :
    (cStyle false).run byteMark .code (b :: rest) =
      b :: (cStyle false).run byteMark (if b = 34 then .literal false else .code) rest := by
  rw [TextFilter.run]
  rcases @step_byte _ (cStyle false) .code b rest with ⟨none_, step⟩ | ⟨m, rfl, step⟩
  · have plain : b ≠ 34 := by
      rintro rfl
      cases none_
    rw [step, if_neg plain]
    rfl
  · have slash : m = .slash → m.byte = 47 := fun same => by rw [same]; rfl
    have free : commentAt m (ahead byteMark rest) = none := by
      rw [commentAt_eq, if_neg (mt (And.imp slash head_ahead_eq_some.mp) noLine),
        if_neg (mt (And.imp slash head_ahead_eq_some.mp) noBlock)]
    rw [step, mark_code_none free]
    cases m <;> rfl

theorem run_line (bs : List UInt8) :
    (cStyle false).run byteMark .line bs =
      (cStyle false).run byteMark .code (bs.dropWhile fun c => decide (c ≠ 10)) := by
  induction bs with
  | nil => rfl
  | cons b rest ih =>
    by_cases feed : b = 10
    · subst feed
      rw [List.dropWhile_cons_of_neg (by decide), run_code_kept (by simp) (by simp)]
      rfl
    · rw [List.dropWhile_cons_of_pos (by simpa using feed), ← ih, TextFilter.run]
      rcases @step_byte _ (cStyle false) .line b rest with ⟨-, step⟩ | ⟨m, rfl, step⟩
      · rw [step]
        rfl
      · have other : m ≠ .lineFeed := fun same => feed (congrArg Mark.byte same)
        have dropped : (cStyle false).mark .line m (ahead byteMark rest) = (false, .line) :=
          if_neg other
        rw [step, dropped]
        rfl

theorem run_block (bs : List UInt8) :
    (cStyle false).run byteMark .block bs =
      (blockComment bs).1 ++ (cStyle false).run byteMark .code (blockComment bs).2 := by
  have inside : ∀ (b : UInt8) (rest : List UInt8), ¬ (b = 42 ∧ rest.head? = some 47) →
      (cStyle false).run byteMark .block (b :: rest) =
        if b = 10 then b :: (cStyle false).run byteMark .block rest
        else (cStyle false).run byteMark .block rest := by
    intro b rest goesOn
    rw [TextFilter.run]
    rcases @step_byte _ (cStyle false) .block b rest with ⟨none_, step⟩ | ⟨m, rfl, step⟩
    · have plain : b ≠ 10 := by
        rintro rfl
        cases none_
      rw [step, if_neg plain]
      rfl
    · by_cases feed : m = .lineFeed
      · subst feed
        rw [step]
        rfl
      · have stays : ¬ (m = .star ∧ (ahead byteMark rest).head? = some .slash) := by
          rw [head_ahead_eq_some, ← @Mark.byte_inj m .star]
          exact goesOn
        have dropped : (cStyle false).mark .block m (ahead byteMark rest) = (false, .block) :=
          (if_neg feed).trans (if_neg stays)
        have plain : m.byte ≠ 10 := fun same => feed (Mark.byte_inj.mp same)
        rw [step, dropped, if_neg plain]
        rfl
  induction bs using blockComment.induct with
  | case1 => rfl
  | case2 b =>
    rw [inside b [] (by simp), blockComment]
    split_ifs <;> rfl
  | case3 b c rest ends =>
    obtain ⟨rfl, rfl⟩ := ends
    rw [blockComment, if_pos ⟨rfl, rfl⟩]
    rfl
  | case4 b c rest goesOn ih =>
    rw [inside b (c :: rest) (by simpa using goesOn), ih, blockComment, if_neg goesOn]
    split_ifs <;> rfl

theorem run_literal_cons (b : UInt8) (rest : List UInt8) :
    (cStyle false).run byteMark (.literal false) (b :: rest) =
      b :: (cStyle false).run byteMark
        (if b = 34 then .code else if b = 92 then .escaped false else .literal false) rest := by
  rw [TextFilter.run]
  rcases @step_byte _ (cStyle false) (.literal false) b rest with ⟨none_, step⟩ | ⟨m, rfl, step⟩
  · have quote : b ≠ 34 := by
      rintro rfl
      cases none_
    have slash : b ≠ 92 := by
      rintro rfl
      cases none_
    rw [step, if_neg quote, if_neg slash]
    rfl
  · rw [step]
    cases m <;> rfl

theorem run_escaped_cons (b : UInt8) (rest : List UInt8) :
    (cStyle false).run byteMark (.escaped false) (b :: rest) =
      b :: (cStyle false).run byteMark (.literal false) rest := by
  rw [TextFilter.run]
  rcases @step_byte _ (cStyle false) (.escaped false) b rest with ⟨-, step⟩ | ⟨m, -, step⟩ <;>
    rw [step] <;> rfl

theorem run_literal : ∀ bs : List UInt8,
    (cStyle false).run byteMark (.literal false) bs =
      (stringLiteral bs).1 ++ (cStyle false).run byteMark .code (stringLiteral bs).2
  | [] => rfl
  | [b] => by
    rw [run_literal_cons, stringLiteral]
    split_ifs <;> rfl
  | b :: c :: rest => by
    rw [run_literal_cons, stringLiteral]
    split_ifs
    · rfl
    · rw [run_escaped_cons, run_literal rest]
      rfl
    · rw [run_literal (c :: rest)]
      rfl

/-- **The walk over a source of the kind of C is a filter.** -/
theorem stripCStyle_eq (bs : List UInt8) :
    stripCStyle bs = (cStyle false).run byteMark .code bs := by
  induction bs using stripCStyle.induct with
  | case1 =>
    rw [stripCStyle]
    rfl
  | case2 b rest begins ih =>
    obtain ⟨rfl, next⟩ := begins
    obtain ⟨later, rfl⟩ := List.head?_eq_some_iff.mp next
    rw [stripCStyle, if_pos ⟨rfl, rfl⟩, ih, ← run_line]
    rfl
  | case3 b rest noLine begins ih =>
    obtain ⟨rfl, next⟩ := begins
    obtain ⟨later, rfl⟩ := List.head?_eq_some_iff.mp next
    rw [stripCStyle, if_neg noLine, if_pos ⟨rfl, rfl⟩, ih, ← run_block]
    rfl
  | case4 rest noLine noBlock ih =>
    rw [stripCStyle, if_neg noLine, if_neg noBlock, if_pos rfl, ih,
      run_code_kept noLine noBlock, if_pos rfl, run_literal]
    rfl
  | case5 b rest noLine noBlock noQuote ih =>
    rw [stripCStyle, if_neg noLine, if_neg noBlock, if_neg noQuote, ih,
      run_code_kept noLine noBlock, if_neg noQuote]

end CStyle

section Hash

variable {b : UInt8} {rest : List UInt8}

theorem isPrefixOf_ahead (ms : List Mark) (rest : List UInt8) :
    ms.isPrefixOf (ahead byteMark rest) = (ms.map Mark.byte).isPrefixOf rest := by
  induction ms generalizing rest with
  | nil => rfl
  | cons m ms ih =>
    cases rest with
    | nil => rfl
    | cons b rest =>
      rw [ahead]
      cases here : byteMark b with
      | none =>
        have other : m.byte ≠ b := fun same => by
          rw [byteMark_eq_some.mpr same.symm] at here
          cases here
        simp [List.isPrefixOf, other]
      | some n =>
        obtain rfl := byteMark_eq_some.mp here
        have same : (m == n) = (m.byte == n.byte) := by
          rw [Bool.eq_iff_iff, beq_iff_eq, beq_iff_eq, Mark.byte_inj]
        rw [List.map_cons, List.isPrefixOf, List.isPrefixOf, ih, same]

theorem isTripleQuote_mark (m : Mark) (rest : List UInt8) :
    isTripleQuote (m.byte :: rest) = true ↔
      m = .quote ∧ [Mark.quote, .quote].isPrefixOf (ahead byteMark rest) = true := by
  rw [isPrefixOf_ahead, ← @Mark.byte_inj m .quote]
  unfold isTripleQuote
  rw [List.isPrefixOf, Bool.and_eq_true, beq_iff_eq]
  exact and_congr_left' eq_comm

theorem eq_of_isTripleQuote (triple : isTripleQuote (b :: rest) = true) :
    b = 34 ∧ rest = 34 :: 34 :: rest.drop 2 := by
  unfold isTripleQuote at triple
  rw [List.isPrefixOf_iff_prefix] at triple
  obtain ⟨more, whole⟩ := triple
  obtain ⟨rfl, rfl⟩ := List.cons.inj whole
  exact ⟨rfl, rfl⟩

theorem run_hash_kept (noComment : b ≠ 35) (noString : ¬ isTripleQuote (b :: rest) = true) :
    (hashStyle false false).run byteMark .code (b :: rest) =
      b :: (hashStyle false false).run byteMark .code rest := by
  rw [TextFilter.run]
  rcases @step_byte _ (hashStyle false false) .code b rest with ⟨-, step⟩ | ⟨m, rfl, step⟩
  · rw [step]
    rfl
  · have plain : (hashStyle false false).mark .code m (ahead byteMark rest) = (true, .code) := by
      rw [isTripleQuote_mark] at noString
      unfold hashStyle
      dsimp only
      rw [if_neg fun same => noComment (by rw [same]; rfl)]
      by_cases quote : m = .quote
      · rw [if_pos quote, if_neg fun triple => noString ⟨quote, triple⟩]
        rfl
      · rw [if_neg quote]
    rw [step, plain]
    rfl

theorem run_hash_line (bs : List UInt8) :
    (hashStyle false false).run byteMark .line bs =
      (hashStyle false false).run byteMark .code (bs.dropWhile fun c => decide (c ≠ 10)) := by
  induction bs with
  | nil => rfl
  | cons b rest ih =>
    by_cases feed : b = 10
    · subst feed
      rw [List.dropWhile_cons_of_neg (by decide), run_hash_kept (by decide) (by
        unfold isTripleQuote
        simp [List.isPrefixOf])]
      rfl
    · rw [List.dropWhile_cons_of_pos (by simpa using feed), ← ih, TextFilter.run]
      rcases @step_byte _ (hashStyle false false) .line b rest with ⟨-, step⟩ | ⟨m, rfl, step⟩
      · rw [step]
        rfl
      · have other : m ≠ .lineFeed := fun same => feed (congrArg Mark.byte same)
        have dropped : (hashStyle false false).mark .line m (ahead byteMark rest) =
            (false, .line) :=
          if_neg other
        rw [step, dropped]
        rfl

theorem run_hash_opening (triple : isTripleQuote (b :: rest) = true) :
    (hashStyle false false).run byteMark .code (b :: rest) =
      [34, 34, 34] ++ (hashStyle false false).run byteMark .block (rest.drop 2) := by
  obtain ⟨rfl, quotes⟩ := eq_of_isTripleQuote triple
  rw [quotes]
  rfl

theorem run_hash_block (bs : List UInt8) :
    (hashStyle false false).run byteMark .block bs =
      (blockString bs).1 ++ (hashStyle false false).run byteMark .code (blockString bs).2 := by
  induction bs with
  | nil => rfl
  | cons b rest ih =>
    rw [blockString]
    split_ifs with triple
    · obtain ⟨rfl, quotes⟩ := eq_of_isTripleQuote triple
      rw [quotes]
      rfl
    · rw [List.cons_append, ← ih, TextFilter.run]
      rcases @step_byte _ (hashStyle false false) .block b rest with ⟨-, step⟩ | ⟨m, rfl, step⟩
      · rw [step]
        rfl
      · rw [isTripleQuote_mark] at triple
        have plain : (hashStyle false false).mark .block m (ahead byteMark rest) =
            (true, .block) := by
          unfold hashStyle
          dsimp only
          rw [if_neg triple, if_neg fun escape => Bool.false_ne_true escape.1]
        rw [step, plain]
        rfl

/-- **The walk over a source with `#` comments is a filter.** -/
theorem stripHashBlock_eq (bs : List UInt8) :
    stripHashBlock bs = (hashStyle false false).run byteMark .code bs := by
  induction bs using stripHashBlock.induct with
  | case1 =>
    rw [stripHashBlock]
    rfl
  | case2 rest ih =>
    rw [stripHashBlock, if_pos rfl, ih, ← run_hash_line]
    rfl
  | case3 b rest noComment triple ih =>
    rw [stripHashBlock, if_neg noComment, if_pos triple, ih, run_hash_opening triple,
      run_hash_block, List.append_assoc]
  | case4 b rest noComment noString ih =>
    rw [stripHashBlock, if_neg noComment, if_neg noString, ih,
      run_hash_kept noComment noString]

end Hash

/-! ### Text -/

theorem charMark_wide (c : Char) (wide : 128 ≤ c.toNat) : charMark c = none := by
  have other : ∀ d : Char, d.toNat < 128 → c ≠ d := fun d ascii same => by
    rw [same] at wide
    omega
  unfold charMark
  rw [if_neg (other '/' (by decide)), if_neg (other '*' (by decide)),
    if_neg (other '"' (by decide)), if_neg (other '\'' (by decide)),
    if_neg (other '\\' (by decide)), if_neg (other '\n' (by decide)),
    if_neg (other '#' (by decide))]

theorem intoString_bytes (text : List Char) : intoString (bytes text) = text := by
  have whole := TextLines.textOf_utf8 (String.ofList text)
  unfold TextLines.utf8 at whole
  rw [String.toList_ofList] at whole
  unfold intoString ByteCursor.bytes
  rw [whole]
  exact String.toList_ofList

theorem stripComments_eq (src : List Char) :
    stripComments src .cStyle = (cStyle false).run charMark .code src ∧
      stripComments src .hashBlockString = (hashStyle false false).run charMark .code src := by
  unfold stripComments
  rw [stripCStyle_eq, stripHashBlock_eq, TextFilter.run_bytes charMark_wide,
    TextFilter.run_bytes charMark_wide, intoString_bytes, intoString_bytes]
  exact ⟨rfl, rfl⟩

end Lain.Server.CommentStripping
