import Mathlib
import Lain.Server.CommentRegions

/-!
# Which comments are stripped

A source is stripped of its comments exactly when they are where the walk reads them.
-/

namespace Lain.Server.CommentStripping

open Foundation
open TextFilter (ahead)

/-! ### The same comments -/

section Separation

variable {singles other : Bool} {c : Char} {rest : List Char}

def CState.inComment : CState → Bool
  | .line | .opening | .block | .closing => true
  | _ => false

private theorem step_inComment {s : CState} (inside : s.inComment = true) :
    (cStyle singles).step charMark s c rest = (cStyle other).step charMark s c rest := by
  unfold TextFilter.step
  cases s with
  | line => rfl
  | opening => rfl
  | block => rfl
  | closing => rfl
  | code => cases inside
  | literal _ => cases inside
  | escaped _ => cases inside

private theorem step_comment {s : CState} (inside : s.inComment = true) :
    (((cStyle singles).step charMark s c rest).1 = true → charMark c = some .lineFeed) ∧
      (((cStyle singles).step charMark s c rest).2 = .code ∨
        ((cStyle singles).step charMark s c rest).2.inComment = true) := by
  cases here : charMark c with
  | none =>
    rw [TextFilter.step_none here]
    cases s with
    | line => exact ⟨by rintro ⟨⟩, .inr rfl⟩
    | opening => exact ⟨by rintro ⟨⟩, .inr rfl⟩
    | block => exact ⟨by rintro ⟨⟩, .inr rfl⟩
    | closing => exact ⟨by rintro ⟨⟩, .inr rfl⟩
    | _ => cases inside
  | some m =>
    rw [TextFilter.step_some here]
    cases s with
    | line =>
      unfold cStyle
      dsimp only
      split_ifs with feed
      · exact ⟨fun _ => congrArg some feed, .inl rfl⟩
      · exact ⟨by rintro ⟨⟩, .inr rfl⟩
    | opening => exact ⟨by rintro ⟨⟩, .inr rfl⟩
    | block =>
      unfold cStyle
      dsimp only
      split_ifs with feed ends
      · exact ⟨fun _ => congrArg some feed, .inr rfl⟩
      · exact ⟨by rintro ⟨⟩, .inr rfl⟩
      · exact ⟨by rintro ⟨⟩, .inr rfl⟩
    | closing => exact ⟨by rintro ⟨⟩, .inl rfl⟩
    | _ => cases inside

private theorem step_outside {s : CState} (outside : s.inComment = false) :
    (∃ next, (cStyle singles).step charMark s c rest = (true, next) ∧ next.inComment = false) ∨
      s = .code ∧ charMark c = some .slash ∧ ∃ comment,
        commentAt .slash (ahead charMark rest) = some comment ∧
          (cStyle singles).step charMark s c rest = (false, comment) := by
  cases here : charMark c with
  | none =>
    rw [TextFilter.step_none here]
    cases s with
    | code => exact .inl ⟨_, rfl, rfl⟩
    | literal _ => exact .inl ⟨_, rfl, rfl⟩
    | escaped _ => exact .inl ⟨_, rfl, rfl⟩
    | _ => cases outside
  | some m =>
    rw [TextFilter.step_some here]
    cases s with
    | code =>
      rcases begins : commentAt m (ahead charMark rest) with _ | comment
      · rw [mark_code_none begins]
        refine .inl ⟨_, rfl, ?_⟩
        cases m <;> cases singles <;> rfl
      · obtain rfl : m = .slash := by
          rw [commentAt_eq] at begins
          split_ifs at begins with line block
          · exact line.1
          · exact block.1
        exact .inr ⟨rfl, rfl, comment, begins, mark_code_some begins⟩
    | literal single =>
      unfold cStyle
      dsimp only
      split_ifs
      · exact .inl ⟨_, rfl, rfl⟩
      · exact .inl ⟨_, rfl, rfl⟩
      · exact .inl ⟨_, rfl, rfl⟩
    | escaped _ => exact .inl ⟨_, rfl, rfl⟩
    | _ => cases outside

private theorem commentAt_slash {comment : CState}
    (begins : commentAt .slash (ahead charMark rest) = some comment) :
    comment.inComment = true ∧ ∃ d later, rest = d :: later ∧
      (charMark d = some .slash ∨ charMark d = some .star) := by
  rw [commentAt_eq, head_ahead] at begins
  cases rest with
  | nil =>
    split_ifs at begins with line block
    · cases line.2
    · cases block.2
  | cons d later =>
    split_ifs at begins with line block
    · obtain rfl := Option.some.inj begins
      exact ⟨rfl, d, later, rfl, .inl line.2⟩
    · obtain rfl := Option.some.inj begins
      exact ⟨rfl, d, later, rfl, .inr block.2⟩

private theorem not_beginsComment_kept (slash : charMark c = some .slash)
    (free : commentAt .slash (ahead charMark rest) = none) :
    ¬ BeginsComment (c :: (cStyle singles).run charMark .code rest) := by
  rintro ⟨c', d, later, whole, -, second⟩
  obtain ⟨rfl, same⟩ := List.cons.inj whole
  cases rest with
  | nil => cases same
  | cons x rest =>
    have noMark : charMark x ≠ some .slash ∧ charMark x ≠ some .star := by
      rw [commentAt_eq, head_ahead] at free
      split_ifs at free with line block
      exact ⟨fun same => line ⟨rfl, same⟩, fun same => block ⟨rfl, same⟩⟩
    rw [TextFilter.run] at same
    rcases @step_outside singles x rest .code rfl with ⟨next, step, -⟩ | ⟨-, marked, -⟩
    · rw [step, if_pos rfl] at same
      obtain ⟨rfl, -⟩ := List.cons.inj same
      exact second.elim noMark.1 noMark.2
    · exact noMark.1 marked

theorem not_beginsComment_run {s : CState} (inside : s = .code ∨ s.inComment = true)
    (l : List Char) : ¬ BeginsComment ((cStyle singles).run charMark s l) := by
  have single : ∀ {x : Char} {later : List Char}, charMark x ≠ some .slash →
      ¬ BeginsComment (x :: later) := by
    rintro x later other ⟨c, d, more, whole, slash, -⟩
    obtain ⟨rfl, -⟩ := List.cons.inj whole
    exact other slash
  induction l generalizing s with
  | nil => rintro ⟨c, d, later, ⟨⟩, -⟩
  | cons x rest ih =>
    rw [TextFilter.run]
    rcases inside with rfl | comment
    · by_cases slash : charMark x = some .slash
      · rcases begins : commentAt .slash (ahead charMark rest) with _ | comment
        · have step : (cStyle singles).step charMark .code x rest = (true, .code) := by
            rw [TextFilter.step_some slash, mark_code_none begins]
            rfl
          rw [step, if_pos rfl]
          exact not_beginsComment_kept slash begins
        · rw [TextFilter.step_some slash, mark_code_some begins, if_neg Bool.false_ne_true]
          exact ih (.inr (commentAt_slash begins).1)
      · rcases @step_outside singles x rest .code rfl with ⟨next, step, -⟩ | ⟨-, marked, -⟩
        · rw [step, if_pos rfl]
          exact single slash
        · exact absurd marked slash
    · obtain ⟨feed, next⟩ := @step_comment singles x rest s comment
      split_ifs with kept
      · refine single fun slash => ?_
        rw [feed kept] at slash
        cases slash
      · exact ih next

private theorem run_literal_mark {single : Bool}
    (marked : charMark c = some .slash ∨ charMark c = some .star) :
    (cStyle other).run charMark (.literal single) (c :: rest) =
      c :: (cStyle other).run charMark (.literal single) rest := by
  rw [TextFilter.run]
  rcases marked with here | here <;> rw [TextFilter.step_some here] <;> cases single <;> rfl

private theorem run_ne {s : CState} (literal : s.inComment = false) (other_ : s ≠ .code)
    {comment : CState} (slash : charMark c = some .slash)
    (begins : commentAt .slash (ahead charMark rest) = some comment) :
    (cStyle singles).run charMark .code (c :: rest) ≠
      (cStyle other).run charMark s (c :: rest) := by
  obtain ⟨inside, d, later, rfl, second⟩ := commentAt_slash begins
  have dropped : (cStyle singles).run charMark .code (c :: d :: later) =
      (cStyle singles).run charMark comment (d :: later) := by
    rw [TextFilter.run, TextFilter.step_some slash, mark_code_some begins,
      if_neg Bool.false_ne_true]
  have kept : BeginsComment ((cStyle other).run charMark s (c :: d :: later)) := by
    cases s with
    | code => exact absurd rfl other_
    | literal single =>
      rw [run_literal_mark (.inl slash), run_literal_mark second]
      exact ⟨c, d, _, rfl, slash, second⟩
    | escaped single =>
      have first : (cStyle other).step charMark (.escaped single) c (d :: later) =
          (true, .literal single) := TextFilter.step_some slash
      rw [TextFilter.run, first, if_pos rfl, run_literal_mark second]
      exact ⟨c, d, _, rfl, slash, second⟩
    | _ => cases literal
  intro same
  rw [← same, dropped] at kept
  exact not_beginsComment_run (.inr inside) _ kept

def SameSide (s t : CState) : Prop :=
  s.inComment = t.inComment ∧ (s.inComment = true → s = t)

private theorem sameSide_step {s t : CState} (side : SameSide s t)
    (flags : ((cStyle singles).step charMark s c rest).1 =
      ((cStyle other).step charMark t c rest).1) :
    SameSide ((cStyle singles).step charMark s c rest).2
      ((cStyle other).step charMark t c rest).2 := by
  obtain ⟨sides, places⟩ := side
  cases inside : s.inComment with
  | true =>
    obtain rfl := places inside
    rw [@step_inComment singles other c rest s inside]
    exact ⟨rfl, fun _ => rfl⟩
  | false =>
    rcases @step_outside singles c rest s inside with ⟨u, left, outsideLeft⟩ |
        ⟨rfl, -, comment, begins, left⟩ <;>
      rcases @step_outside other c rest t (sides.symm.trans inside) with
          ⟨v, right, outsideRight⟩ | ⟨rfl, -, comment', begins', right⟩ <;>
      rw [left, right] at flags ⊢
    · exact ⟨outsideLeft.trans outsideRight.symm, fun comment => by
        rw [outsideLeft] at comment
        cases comment⟩
    · cases flags
    · cases flags
    · obtain rfl := Option.some.inj (begins.symm.trans begins')
      exact ⟨rfl, fun _ => rfl⟩

private theorem sameSide_apart {s t : CState} (side : SameSide s t)
    (flags : ((cStyle singles).step charMark s c rest).1 ≠
      ((cStyle other).step charMark t c rest).1) :
    (cStyle singles).run charMark s (c :: rest) ≠ (cStyle other).run charMark t (c :: rest) := by
  obtain ⟨sides, places⟩ := side
  cases inside : s.inComment with
  | true =>
    obtain rfl := places inside
    exact absurd (congrArg Prod.fst (step_inComment inside)) flags
  | false =>
    have outside := sides.symm.trans inside
    rcases @step_outside singles c rest s inside with ⟨u, left, -⟩ |
        ⟨rfl, slash, comment, begins, left⟩ <;>
      rcases @step_outside other c rest t outside with
          ⟨v, right, -⟩ | ⟨rfl, slash', comment', begins', right⟩
    · exact absurd (by rw [left, right]) flags
    · refine (run_ne inside ?_ slash' begins').symm
      rintro rfl
      rw [TextFilter.step_some slash', mark_code_some begins'] at left
      cases left
    · refine run_ne outside ?_ slash begins
      rintro rfl
      rw [TextFilter.step_some slash, mark_code_some begins] at right
      cases right
    · exact absurd (by rw [left, right]) flags

private theorem step_beginsComment {s : CState} (outside : s.inComment = false)
    (begins : BeginsComment (c :: rest)) :
    ((cStyle singles).step charMark s c rest).1 = false ↔ s = .code := by
  obtain ⟨c', d, later, whole, slash, second⟩ := begins
  obtain ⟨rfl, rfl⟩ := List.cons.inj whole
  obtain ⟨comment, marked⟩ : ∃ comment,
      commentAt .slash (ahead charMark (d :: later)) = some comment := by
    rw [commentAt_eq, head_ahead]
    rcases second with line | block
    · exact ⟨_, if_pos ⟨rfl, line⟩⟩
    · exact ⟨_, (if_neg fun line => by cases line.2.symm.trans block).trans (if_pos ⟨rfl, block⟩)⟩
  rw [TextFilter.step_some slash]
  cases s with
  | code =>
    rw [mark_code_some marked]
    exact iff_of_true rfl rfl
  | literal single => cases single <;> exact iff_of_false (by rintro ⟨⟩) (by rintro ⟨⟩)
  | escaped single => exact iff_of_false (by rintro ⟨⟩) (by rintro ⟨⟩)
  | _ => cases outside

private theorem sameSide_flags {s t : CState} (side : SameSide s t) :
    ((cStyle singles).step charMark s c rest).1 = ((cStyle other).step charMark t c rest).1 ↔
      (BeginsComment (c :: rest) → (s = .code ↔ t = .code)) := by
  obtain ⟨sides, places⟩ := side
  cases inside : s.inComment with
  | true =>
    obtain rfl := places inside
    exact iff_of_true (congrArg Prod.fst (step_inComment inside)) fun _ => Iff.rfl
  | false =>
    have outside := sides.symm.trans inside
    by_cases begins : BeginsComment (c :: rest)
    · rw [← @step_beginsComment singles c rest s inside begins,
        ← @step_beginsComment other c rest t outside begins, forall_prop_of_true begins]
      cases ((cStyle singles).step charMark s c rest).1 <;>
        cases ((cStyle other).step charMark t c rest).1 <;> decide
    · refine iff_of_true ?_ fun first => absurd first begins
      have kept : ∀ {known : Bool} {u : CState}, u.inComment = false →
          ((cStyle known).step charMark u c rest).1 = true := by
        intro known u free
        rcases @step_outside known c rest u free with ⟨next, step, -⟩ |
          ⟨-, slash, comment, marked, -⟩
        · rw [step]
        · obtain ⟨-, d, later, rfl, second⟩ := commentAt_slash marked
          exact absurd ⟨c, d, later, rfl, slash, second⟩ begins
      rw [kept inside, kept outside]

end Separation

section HashSeparation

variable {shorts escapes shorts' escapes' : Bool} {c : Char} {rest : List Char}

private theorem hash_outside {s : HashState} (outside : s ≠ .line) :
    (∃ next, (hashStyle shorts escapes).step charMark s c rest = (true, next) ∧ next ≠ .line) ∨
      charMark c = some .hash ∧
        (hashStyle shorts escapes).step charMark s c rest = (false, .line) := by
  cases here : charMark c with
  | none =>
    rw [TextFilter.step_none here]
    cases s <;> first | exact absurd rfl outside | exact .inl ⟨_, rfl, by rintro ⟨⟩⟩
  | some m =>
    rw [TextFilter.step_some here]
    cases s with
    | line => exact absurd rfl outside
    | code =>
      unfold hashStyle
      dsimp only
      split_ifs with hash
      · exact .inr ⟨congrArg some hash, rfl⟩
      all_goals exact .inl ⟨_, rfl, by rintro ⟨⟩⟩
    | escaped => exact .inl ⟨_, rfl, by rintro ⟨⟩⟩
    | _ =>
      unfold hashStyle
      dsimp only
      split_ifs <;> exact .inl ⟨_, rfl, by rintro ⟨⟩⟩

private theorem run_hash_comment (l : List Char) :
    ∀ x ∈ ((hashStyle shorts escapes).run charMark .line l).head?,
      charMark x = some .lineFeed := by
  induction l with
  | nil => rintro x ⟨⟩
  | cons c rest ih =>
    rw [TextFilter.run]
    cases here : charMark c with
    | none =>
      rw [TextFilter.step_none here]
      exact ih
    | some m =>
      by_cases feed : m = .lineFeed
      · subst feed
        rw [TextFilter.step_some here]
        rintro x ⟨⟩
        exact here
      · have dropped : (hashStyle shorts escapes).step charMark .line c rest =
            (false, .line) := (TextFilter.step_some here).trans (if_neg feed)
        rw [dropped, if_neg Bool.false_ne_true]
        exact ih

private theorem hash_inside :
    (hashStyle shorts escapes).step charMark .line c rest =
      (hashStyle shorts' escapes').step charMark .line c rest := by
  unfold TextFilter.step
  rfl

def SameLine (s t : HashState) : Prop :=
  s = .line ↔ t = .line

private theorem sameLine_step {s t : HashState} (side : SameLine s t)
    (flags : ((hashStyle shorts escapes).step charMark s c rest).1 =
      ((hashStyle shorts' escapes').step charMark t c rest).1) :
    SameLine ((hashStyle shorts escapes).step charMark s c rest).2
      ((hashStyle shorts' escapes').step charMark t c rest).2 := by
  by_cases inside : s = .line
  · obtain rfl := inside
    obtain rfl := side.mp rfl
    rw [@hash_inside shorts escapes shorts' escapes']
    exact Iff.rfl
  · rcases @hash_outside shorts escapes c rest s inside with ⟨u, left, outsideLeft⟩ | ⟨-, left⟩ <;>
      rcases @hash_outside shorts' escapes' c rest t (mt side.mpr inside) with
          ⟨v, right, outsideRight⟩ | ⟨-, right⟩ <;>
      rw [left, right] at flags ⊢
    · exact iff_of_false outsideLeft outsideRight
    · cases flags
    · cases flags
    · exact Iff.rfl

private theorem hash_run_ne {s t : HashState} {next : HashState} (hash : charMark c = some .hash)
    (dropped : (hashStyle shorts escapes).step charMark s c rest = (false, .line))
    (kept : (hashStyle shorts' escapes').step charMark t c rest = (true, next)) :
    (hashStyle shorts escapes).run charMark s (c :: rest) ≠
      (hashStyle shorts' escapes').run charMark t (c :: rest) := by
  rw [TextFilter.run, TextFilter.run, dropped, kept, if_neg Bool.false_ne_true, if_pos rfl]
  intro same
  have feed := @run_hash_comment shorts escapes rest c (by rw [same]; rfl)
  cases feed.symm.trans hash

private theorem sameLine_apart {s t : HashState} (side : SameLine s t)
    (flags : ((hashStyle shorts escapes).step charMark s c rest).1 ≠
      ((hashStyle shorts' escapes').step charMark t c rest).1) :
    (hashStyle shorts escapes).run charMark s (c :: rest) ≠
      (hashStyle shorts' escapes').run charMark t (c :: rest) := by
  by_cases inside : s = .line
  · obtain rfl := inside
    obtain rfl := side.mp rfl
    exact absurd (congrArg Prod.fst hash_inside) flags
  · rcases @hash_outside shorts escapes c rest s inside with ⟨u, left, -⟩ | ⟨hash, left⟩ <;>
      rcases @hash_outside shorts' escapes' c rest t (mt side.mpr inside) with
          ⟨v, right, -⟩ | ⟨hash', right⟩
    · exact absurd (by rw [left, right]) flags
    · exact (hash_run_ne hash' right left).symm
    · exact hash_run_ne hash left right
    · exact absurd (by rw [left, right]) flags

private theorem sameLine_flags {s t : HashState} (side : SameLine s t) :
    ((hashStyle shorts escapes).step charMark s c rest).1 =
        ((hashStyle shorts' escapes').step charMark t c rest).1 ↔
      (BeginsHash (c :: rest) → (s = .code ↔ t = .code)) := by
  by_cases inside : s = .line
  · obtain rfl := inside
    obtain rfl := side.mp rfl
    exact iff_of_true (congrArg Prod.fst hash_inside) fun _ => Iff.rfl
  · have outside := mt side.mpr inside
    by_cases begins : charMark c = some .hash
    · have dropped : ∀ {one all : Bool} {u : HashState}, u ≠ .line →
          (((hashStyle one all).step charMark u c rest).1 = false ↔ u = .code) := by
        intro one all u free
        rw [TextFilter.step_some begins]
        cases u with
        | line => exact absurd rfl free
        | code => exact iff_of_true rfl rfl
        | short => cases all <;> exact iff_of_false (by rintro ⟨⟩) (by rintro ⟨⟩)
        | block => cases all <;> exact iff_of_false (by rintro ⟨⟩) (by rintro ⟨⟩)
        | _ => exact iff_of_false (by rintro ⟨⟩) (by rintro ⟨⟩)
      have here : BeginsHash (c :: rest) := ⟨c, rest, rfl, begins⟩
      rw [← @dropped shorts escapes s inside, ← @dropped shorts' escapes' t outside,
        forall_prop_of_true here]
      cases ((hashStyle shorts escapes).step charMark s c rest).1 <;>
        cases ((hashStyle shorts' escapes').step charMark t c rest).1 <;> decide
    · refine iff_of_true ?_ fun first => ?_
      · rcases @hash_outside shorts escapes c rest s inside with ⟨u, left, -⟩ | ⟨hash, -⟩
        · rcases @hash_outside shorts' escapes' c rest t outside with ⟨v, right, -⟩ | ⟨hash, -⟩
          · rw [left, right]
          · exact absurd hash begins
        · exact absurd hash begins
      · obtain ⟨c', later, whole, hash⟩ := first
        obtain ⟨rfl, rfl⟩ := List.cons.inj whole
        exact absurd hash begins

end HashSeparation

/-! ### Exactness -/

/-- **A source is stripped of its comments** exactly when they are where they would be without the
literals that the walk does not know. -/
theorem stripComments_iff (escapes : Bool) (src : List Char) (syntax_ : CommentSyntax) :
    stripComments src syntax_ = withoutComments escapes src syntax_ ↔
      SameComments escapes src syntax_ := by
  cases syntax_ with
  | cStyle =>
    have start : SameSide .code .code := ⟨rfl, fun _ => rfl⟩
    rw [(stripComments_eq src).1, eq_comm]
    refine Iff.trans ?_ (TextFilter.agree_iff_alignedAt sameSide_step sameSide_flags start)
    exact ⟨TextFilter.agree_of_run_eq sameSide_step sameSide_apart start,
      TextFilter.run_eq_of_agree⟩
  | hashBlockString =>
    have start : SameLine .code .code := Iff.rfl
    rw [(stripComments_eq src).2, eq_comm]
    refine Iff.trans ?_ (TextFilter.agree_iff_alignedAt sameLine_step sameLine_flags start)
    exact ⟨TextFilter.agree_of_run_eq sameLine_step sameLine_apart start,
      TextFilter.run_eq_of_agree⟩

/-- A comment's mark in a literal of single quotes, or in one of GraphQL in one quote, begins a
comment all the same. -/
theorem stripComments_fails :
    (stripComments "path = '//a';".toList .cStyle = "path = '".toList ∧
      ∀ escapes, withoutComments escapes "path = '//a';".toList .cStyle =
        "path = '//a';".toList) ∧
    stripComments "@x(y: \"#z\")".toList .hashBlockString = "@x(y: \"".toList ∧
      ∀ escapes, withoutComments escapes "@x(y: \"#z\")".toList .hashBlockString =
        "@x(y: \"#z\")".toList := by
  rw [(stripComments_eq _).1, (stripComments_eq _).2]
  decide +kernel

end Lain.Server.CommentStripping
