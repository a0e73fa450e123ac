import Mathlib

/-!
# Globs of segments

A pattern has letters, and stars that stand for runs within a segment or across segments, which a
wall sets apart.
-/

namespace Lain.Foundation.SegmentGlob

variable {α : Type}

/-- A token of a pattern: a letter, a run within a segment, or any run. -/
inductive Token (α : Type) where
  | exact (a : α)
  | star
  | deep

def Token.Spans (wall : α) : Token α → List α → Prop
  | .exact a, run => run = [a]
  | .star, run => wall ∉ run
  | .deep, _ => True

/-- A text can be cut into runs that the tokens stand for. -/
def Matches (wall : α) : List (Token α) → List α → Prop
  | [], text => text = []
  | t :: tokens, text =>
    ∃ run rest, text = run ++ rest ∧ t.Spans wall run ∧ Matches wall tokens rest

section Language

variable {wall : α} {a : α} {t : Token α} {tokens : List (Token α)} {text : List α}

theorem matches_exact :
    Matches wall (.exact a :: tokens) text ↔ ∃ rest, text = a :: rest ∧ Matches wall tokens rest := by
  constructor
  · rintro ⟨_, rest, rfl, rfl, inside⟩
    exact ⟨rest, rfl, inside⟩
  · rintro ⟨rest, rfl, inside⟩
    exact ⟨[a], rest, rfl, rfl, inside⟩

theorem matches_exacts {letters : List α} :
    Matches wall (letters.map .exact ++ tokens) text ↔
      ∃ rest, text = letters ++ rest ∧ Matches wall tokens rest := by
  induction letters generalizing text with
  | nil =>
    constructor
    · exact fun inside => ⟨text, rfl, inside⟩
    · rintro ⟨rest, rfl, inside⟩
      exact inside
  | cons a letters ih =>
    rw [List.map_cons, List.cons_append, matches_exact]
    constructor
    · rintro ⟨rest, rfl, whole⟩
      obtain ⟨later, rfl, inside⟩ := ih.mp whole
      exact ⟨later, rfl, inside⟩
    · rintro ⟨later, rfl, inside⟩
      exact ⟨letters ++ later, rfl, ih.mpr ⟨later, rfl, inside⟩⟩

theorem matches_star :
    Matches wall (.star :: tokens) text ↔
      Matches wall tokens text ∨
        ∃ a rest, text = a :: rest ∧ a ≠ wall ∧ Matches wall (.star :: tokens) rest := by
  constructor
  · rintro ⟨run, rest, rfl, within, inside⟩
    cases run with
    | nil => exact .inl inside
    | cons a run =>
      obtain ⟨first, later⟩ := List.ne_and_not_mem_of_not_mem_cons within
      exact .inr ⟨a, run ++ rest, rfl, first.symm, run, rest, rfl, later, inside⟩
  · rintro (inside | ⟨a, _, rfl, first, run, rest, rfl, later, inside⟩)
    · exact ⟨[], text, rfl, List.not_mem_nil, inside⟩
    · exact ⟨a :: run, rest, rfl, List.not_mem_cons_of_ne_of_not_mem first.symm later, inside⟩

theorem matches_star_append {front : List α} (within : wall ∉ front)
    (inside : Matches wall (.star :: tokens) text) :
    Matches wall (.star :: tokens) (front ++ text) := by
  obtain ⟨run, rest, rfl, later, inside⟩ := inside
  refine ⟨front ++ run, rest, (List.append_assoc _ _ _).symm, ?_, inside⟩
  exact fun member => (List.mem_append.mp member).elim within later

theorem matches_star_star :
    Matches wall (.star :: .star :: tokens) text ↔ Matches wall (.star :: tokens) text := by
  constructor
  · rintro ⟨run, rest, rfl, within, inside⟩
    exact matches_star_append within inside
  · exact fun inside => ⟨[], text, rfl, List.not_mem_nil, inside⟩

def Token.shallow : Token α → Token α
  | .deep => .star
  | t => t

theorem matches_of_shallow (inside : Matches wall (tokens.map Token.shallow) text) :
    Matches wall tokens text := by
  induction tokens generalizing text with
  | nil => exact inside
  | cons t tokens ih =>
    obtain ⟨run, rest, rfl, span, inside⟩ := inside
    refine ⟨run, rest, rfl, ?_, ih inside⟩
    cases t with
    | exact a => exact span
    | star => exact span
    | deep => exact trivial

end Language

/-! ### The matcher -/

section Matcher

variable [DecidableEq α] (star wall : α)

def tokensOf (pattern : List α) : List (Token α) :=
  pattern.map fun a => if a = star then .star else .exact a

structure Cursors (α : Type) where
  pattern : List α
  text : List α
  last : Option (List α × List α)
  behind : ∀ rests ∈ last, pattern.length ≤ rests.1.length

def retry : Option (List α × List α) → Cursors α ⊕ Bool
  | some (pattern, a :: text) =>
    if a = wall then .inr false
    else .inl
      { pattern := pattern
        text := text
        last := some (pattern, text)
        behind := by simp }
  | _ => .inr false

def Cursors.turn (cursors : Cursors α) : Cursors α ⊕ Bool :=
  match shape : cursors.pattern with
  | a :: pattern =>
    if a = star then
      .inl
        { pattern := pattern
          text := cursors.text
          last := some (pattern, cursors.text)
          behind := by simp }
    else if cursors.text.head? = some a then
      .inl
        { pattern := pattern
          text := cursors.text.tail
          last := cursors.last
          behind := fun rests member => by
            have bound := cursors.behind rests member
            rw [shape] at bound
            exact (Nat.le_succ _).trans bound }
    else retry wall cursors.last
  | [] => if cursors.text = [] then .inr true else retry wall cursors.last

def Cursors.left (cursors : Cursors α) : Nat × Nat × Nat :=
  match cursors.last with
  | some (pattern, text) => (pattern.length, text.length, cursors.pattern.length)
  | none => (cursors.pattern.length + 1, 0, cursors.pattern.length)

variable {star wall}

theorem retry_inl {last : Option (List α × List α)} {next : Cursors α}
    (moved : retry wall last = .inl next) :
    ∃ a, last = some (next.pattern, a :: next.text) ∧ a ≠ wall ∧
      next.last = some (next.pattern, next.text) := by
  unfold retry at moved
  split at moved
  next pattern a text =>
      split_ifs at moved with atWall
      obtain rfl := Sum.inl.inj moved
      exact ⟨a, rfl, atWall, rfl⟩
  next => cases moved

theorem retry_inr {last : Option (List α × List α)} {answer : Bool}
    (moved : retry wall last = .inr answer) :
    answer = false ∧ ∀ pattern a text, last = some (pattern, a :: text) → a = wall := by
  unfold retry at moved
  split at moved
  next pattern a text =>
      split_ifs at moved with atWall
      refine ⟨(Sum.inr.inj moved).symm, fun _ _ _ same => ?_⟩
      obtain ⟨rfl, rest⟩ := Prod.mk.inj (Option.some.inj same)
      exact (List.cons.inj rest).1 ▸ atWall
  next other =>
      exact ⟨(Sum.inr.inj moved).symm, fun pattern a text same => absurd same (other pattern a text)⟩

def Cursors.Stuck (star : α) (cursors : Cursors α) : Prop :=
  match cursors.pattern with
  | a :: _ => a ≠ star ∧ cursors.text.head? ≠ some a
  | [] => cursors.text ≠ []

theorem Cursors.turn_inl {cursors next : Cursors α} (moved : cursors.turn star wall = .inl next) :
    (cursors.pattern = star :: next.pattern ∧ cursors.text = next.text ∧
        next.last = some (next.pattern, next.text)) ∨
      (∃ a, a ≠ star ∧ cursors.pattern = a :: next.pattern ∧ cursors.text = a :: next.text ∧
        next.last = cursors.last) ∨
      cursors.Stuck star ∧ retry wall cursors.last = .inl next := by
  unfold Cursors.turn at moved
  unfold Cursors.Stuck
  split at moved
  next a pattern shape =>
      rw [shape]
      split_ifs at moved with onStar taken
      · obtain rfl := Sum.inl.inj moved
        exact .inl ⟨by rw [onStar], rfl, rfl⟩
      · obtain ⟨text, same⟩ := List.head?_eq_some_iff.mp taken
        obtain rfl := Sum.inl.inj moved
        exact .inr (.inl ⟨a, onStar, rfl, by rw [same]; rfl, rfl⟩)
      · exact .inr (.inr ⟨⟨onStar, taken⟩, moved⟩)
  next shape =>
      rw [shape]
      split_ifs at moved with done
      exact .inr (.inr ⟨done, moved⟩)

theorem Cursors.turn_inr {cursors : Cursors α} {answer : Bool}
    (moved : cursors.turn star wall = .inr answer) :
    (answer = true ∧ cursors.pattern = [] ∧ cursors.text = []) ∨
      cursors.Stuck star ∧ retry wall cursors.last = .inr answer := by
  unfold Cursors.turn at moved
  unfold Cursors.Stuck
  split at moved
  next a pattern shape =>
      rw [shape]
      split_ifs at moved with onStar taken
      exact .inr ⟨⟨onStar, taken⟩, moved⟩
  next shape =>
      rw [shape]
      split_ifs at moved with done
      · exact .inl ⟨(Sum.inr.inj moved).symm, rfl, done⟩
      · exact .inr ⟨done, moved⟩

theorem Cursors.left_turn {cursors next : Cursors α}
    (moved : cursors.turn star wall = .inl next) :
    Prod.Lex (· < ·) (Prod.Lex (· < ·) (· < ·)) next.left cursors.left := by
  unfold Cursors.left
  rcases Cursors.turn_inl moved with ⟨shape, -, nextLast⟩ | ⟨a, -, shape, -, nextLast⟩ | ⟨-, back⟩
  · -- a new star is behind the last one
    rw [nextLast]
    rcases last : cursors.last with _ | ⟨before, text⟩
    · refine Prod.Lex.left _ _ ?_
      rw [shape, List.length_cons]
      omega
    · have bound := cursors.behind (before, text) last
      rw [shape, List.length_cons] at bound
      exact Prod.Lex.left _ _ bound
  · rw [nextLast, shape]
    rcases cursors.last with _ | ⟨before, text⟩
    · exact Prod.Lex.left _ _ (Nat.lt_succ_self _)
    · exact Prod.Lex.right _ (Prod.Lex.right _ (Nat.lt_succ_self _))
  · obtain ⟨a, last, -, nextLast⟩ := retry_inl back
    rw [last, nextLast]
    exact Prod.Lex.right _ (Prod.Lex.left _ _ (Nat.lt_succ_self _))

variable (star wall)

/-- The loop, from some cursors on. -/
def Cursors.run (cursors : Cursors α) : Bool :=
  match _moved : cursors.turn star wall with
  | .inl next => next.run
  | .inr answer => answer
termination_by cursors.left
decreasing_by exact Cursors.left_turn _moved

def accepts (pattern text : List α) : Bool :=
  Cursors.run star wall { pattern := pattern, text := text, last := none, behind := by simp }

end Matcher

/-! ### No match is lost -/

section Exact

variable [DecidableEq α] {star wall : α} {cursors : Cursors α}

def Cursors.Fits (star : α) (cursors : Cursors α) : Prop :=
  ∀ pattern text, cursors.last = some (pattern, text) → ∃ letters, star ∉ letters ∧
    pattern = letters ++ cursors.pattern ∧ text = letters ++ cursors.text

/-- What is still tried: the rest of the text here, or all the last star has not reached. -/
def Cursors.Open (star wall : α) (cursors : Cursors α) : Prop :=
  Matches wall (tokensOf star cursors.pattern) cursors.text ∨
    ∃ pattern a text, cursors.last = some (pattern, a :: text) ∧ a ≠ wall ∧
      Matches wall (.star :: tokensOf star pattern) text

theorem tokensOf_star (pattern : List α) :
    tokensOf star (star :: pattern) = .star :: tokensOf star pattern := by
  unfold tokensOf
  rw [List.map_cons, if_pos rfl]

theorem tokensOf_cons {a : α} (plain : a ≠ star) (pattern : List α) :
    tokensOf star (a :: pattern) = .exact a :: tokensOf star pattern := by
  unfold tokensOf
  rw [List.map_cons, if_neg plain]

theorem tokensOf_append {letters : List α} (plain : star ∉ letters) (pattern : List α) :
    tokensOf star (letters ++ pattern) = letters.map .exact ++ tokensOf star pattern := by
  unfold tokensOf
  rw [List.map_append]
  congr 1
  refine List.map_congr_left fun a member => if_neg ?_
  rintro rfl
  exact plain member

theorem matches_of_last {letters pattern text rest : List α} {a : α} (plain : star ∉ letters)
    (whole : a :: rest = letters ++ text) (within : a ≠ wall)
    (inside : Matches wall (.star :: tokensOf star (letters ++ star :: pattern)) rest) :
    Matches wall (.star :: tokensOf star pattern) text := by
  obtain ⟨run, later, rfl, free, inside⟩ := inside
  rw [tokensOf_append plain, tokensOf_star, matches_exacts] at inside
  obtain ⟨text', rfl, inside⟩ := inside
  have lengths := congrArg List.length whole
  have suffix : text' <:+ text := by
    refine List.suffix_of_suffix_length_le ⟨a :: run ++ letters, ?_⟩ ⟨letters, whole.symm⟩ ?_
    · simp
    · simp only [List.length_cons, List.length_append] at lengths
      omega
  obtain ⟨middle, rfl⟩ := suffix
  have aligned : a :: run ++ letters ++ text' = letters ++ middle ++ text' := by
    simpa using whole
  have rotated := List.append_cancel_right aligned
  refine matches_star_append (fun member => ?_) inside
  have walls := congrArg (List.count wall) rotated
  rw [List.count_append, List.count_append, List.count_cons_of_ne within,
    List.count_eq_zero_of_not_mem free] at walls
  have some_ := List.count_pos_iff.mpr member
  omega

theorem Cursors.Stuck.not_matches (stuck : cursors.Stuck star) :
    ¬ Matches wall (tokensOf star cursors.pattern) cursors.text := by
  unfold Cursors.Stuck at stuck
  rcases shape : cursors.pattern with _ | ⟨a, pattern⟩
  · rw [shape] at stuck
    exact stuck
  · rw [shape] at stuck
    rw [tokensOf_cons stuck.1, matches_exact]
    rintro ⟨rest, same, -⟩
    exact stuck.2 (by rw [same]; rfl)

theorem open_star {next : Cursors α} (last : next.last = some (next.pattern, next.text)) :
    next.Open star wall ↔ Matches wall (.star :: tokensOf star next.pattern) next.text := by
  unfold Cursors.Open
  rw [last, matches_star]
  refine or_congr_right ?_
  constructor
  · rintro ⟨_, a, rest, same, within, inside⟩
    obtain ⟨rfl, there⟩ := Prod.mk.inj (Option.some.inj same)
    exact ⟨a, rest, there, within, inside⟩
  · rintro ⟨a, rest, there, within, inside⟩
    exact ⟨next.pattern, a, rest, by rw [there], within, inside⟩

omit [DecidableEq α] in
theorem fits_star {next : Cursors α} (last : next.last = some (next.pattern, next.text)) :
    next.Fits star := by
  intro pattern text same
  obtain ⟨rfl, rfl⟩ := Prod.mk.inj (Option.some.inj (last.symm.trans same))
  exact ⟨[], List.not_mem_nil, rfl, rfl⟩

theorem Cursors.Fits.turn (fits : cursors.Fits star) {next : Cursors α}
    (moved : cursors.turn star wall = .inl next) :
    next.Fits star ∧ (next.Open star wall ↔ cursors.Open star wall) := by
  rcases Cursors.turn_inl moved with ⟨shape, there, last⟩ | ⟨a, plain, shape, there, last⟩ |
    ⟨stuck, back⟩
  · refine ⟨fits_star last, ?_⟩
    rw [open_star last]
    unfold Cursors.Open
    rw [shape, there, tokensOf_star]
    refine (or_iff_left_of_imp ?_).symm
    rintro ⟨before, a, text, reached, within, inside⟩
    obtain ⟨letters, plain, rfl, whole⟩ := fits _ _ reached
    rw [shape] at inside
    rw [there] at whole
    exact matches_of_last plain whole within inside
  · refine ⟨fun before reached same => ?_, ?_⟩
    · obtain ⟨letters, free, rfl, rfl⟩ := fits before reached (last.symm.trans same)
      refine ⟨letters ++ [a], ?_, by rw [shape, List.append_assoc]; rfl,
        by rw [there, List.append_assoc]; rfl⟩
      rw [List.mem_append, not_or]
      exact ⟨free, fun member => plain (List.mem_singleton.mp member).symm⟩
    · unfold Cursors.Open
      rw [shape, there, last, tokensOf_cons plain, matches_exact]
      refine or_congr_left ?_
      constructor
      · exact fun inside => ⟨next.text, rfl, inside⟩
      · rintro ⟨rest, whole, inside⟩
        exact (List.cons.inj whole).2 ▸ inside
  · obtain ⟨a, last, within, nextLast⟩ := retry_inl back
    refine ⟨fits_star nextLast, ?_⟩
    rw [open_star nextLast]
    unfold Cursors.Open
    rw [or_iff_right stuck.not_matches, last]
    constructor
    · exact fun inside => ⟨next.pattern, a, next.text, rfl, within, inside⟩
    · rintro ⟨_, _, _, same, _, inside⟩
      obtain ⟨rfl, rest⟩ := Prod.mk.inj (Option.some.inj same)
      exact (List.cons.inj rest).2 ▸ inside

theorem Cursors.answer_iff {answer : Bool} (moved : cursors.turn star wall = .inr answer) :
    answer = true ↔ cursors.Open star wall := by
  unfold Cursors.Open
  rcases Cursors.turn_inr moved with ⟨rfl, shape, there⟩ | ⟨stuck, back⟩
  · rw [shape, there]
    exact iff_of_true rfl (.inl rfl)
  · obtain ⟨rfl, walls⟩ := retry_inr back
    refine iff_of_false Bool.false_ne_true ?_
    rintro (inside | ⟨pattern, a, text, last, within, -⟩)
    · exact stuck.not_matches inside
    · exact within (walls _ _ _ last)

theorem Cursors.Fits.run_iff (fits : cursors.Fits star) :
    cursors.run star wall = true ↔ cursors.Open star wall := by
  induction cursors using Cursors.run.induct star wall with
  | case1 cursors next moved ih =>
    obtain ⟨fits', same⟩ := fits.turn moved
    rw [Cursors.run, ← same]
    split
    next next' moved' =>
        obtain rfl := Sum.inl.inj (moved.symm.trans moved')
        exact ih fits'
    next _ moved' =>
        rw [moved] at moved'
        cases moved'
  | case2 cursors answer moved =>
    rw [Cursors.run]
    split
    next _ moved' =>
        rw [moved] at moved'
        cases moved'
    next _ moved' =>
        obtain rfl := Sum.inr.inj (moved.symm.trans moved')
        exact Cursors.answer_iff moved

/-- **The matcher is exact**: it always ends, and accepts what matches the tokens of the pattern. -/
theorem accepts_iff (pattern text : List α) :
    accepts star wall pattern text = true ↔ Matches wall (tokensOf star pattern) text := by
  have fits : Cursors.Fits star
      { pattern := pattern, text := text, last := none, behind := by simp } :=
    fun _ _ last => by cases last
  unfold accepts
  rw [fits.run_iff]
  refine or_iff_left ?_
  rintro ⟨_, _, _, last, -⟩
  cases last

end Exact

end Lain.Foundation.SegmentGlob
