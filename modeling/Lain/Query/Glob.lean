import Mathlib

/-!
# Globs

A pattern with stars and question marks is matched by two cursors and the place of the
last star.
-/

namespace Lain.Query

/-! ### The language of a pattern -/

def StandsFor (c : Char) (piece : List Char) : Prop :=
  if c = '*' then True
  else if c = '?' then piece.length = 1
  else piece = [c]

def InLanguage (pattern name : List Char) : Prop :=
  ∃ pieces, List.Forall₂ StandsFor pattern pieces ∧ pieces.flatten = name

def takes (c d : Char) : Bool :=
  decide (c = '?') || decide (c = d)

section Language

variable {c : Char} {pattern name : List Char}

@[simp] theorem inLanguage_nil : InLanguage [] name ↔ name = [] := by
  constructor
  · rintro ⟨pieces, cut, rfl⟩
    cases cut
    rfl
  · rintro rfl
    exact ⟨[], .nil, rfl⟩

theorem inLanguage_cons :
    InLanguage (c :: pattern) name ↔
      ∃ piece rest, StandsFor c piece ∧ InLanguage pattern rest ∧ piece ++ rest = name := by
  constructor
  · rintro ⟨pieces, cut, rfl⟩
    cases cut with
    | cons first later => exact ⟨_, _, first, ⟨_, later, rfl⟩, rfl⟩
  · rintro ⟨piece, rest, first, ⟨pieces, later, rfl⟩, rfl⟩
    exact ⟨piece :: pieces, .cons first later, rfl⟩

theorem inLanguage_star :
    InLanguage ('*' :: pattern) name ↔
      InLanguage pattern name ∨ ∃ d rest, name = d :: rest ∧ InLanguage ('*' :: pattern) rest := by
  simp only [inLanguage_cons, StandsFor, if_true, true_and]
  constructor
  · rintro ⟨piece, rest, inside, rfl⟩
    cases piece with
    | nil => exact Or.inl inside
    | cons d piece => exact Or.inr ⟨d, piece ++ rest, rfl, piece, rest, inside, rfl⟩
  · rintro (inside | ⟨d, _, rfl, piece, rest, inside, rfl⟩)
    · exact ⟨[], name, inside, rfl⟩
    · exact ⟨d :: piece, rest, inside, rfl⟩

theorem inLanguage_plain (plain : c ≠ '*') :
    InLanguage (c :: pattern) name ↔
      ∃ d rest, name = d :: rest ∧ takes c d = true ∧ InLanguage pattern rest := by
  simp only [inLanguage_cons, StandsFor, if_neg plain, takes, Bool.or_eq_true, decide_eq_true_eq]
  by_cases any : c = '?'
  · simp only [if_pos any, List.length_eq_one_iff]
    constructor
    · rintro ⟨_, rest, ⟨d, rfl⟩, inside, rfl⟩
      exact ⟨d, rest, rfl, Or.inl any, inside⟩
    · rintro ⟨d, rest, rfl, _, inside⟩
      exact ⟨[d], rest, ⟨d, rfl⟩, inside, rfl⟩
  · simp only [if_neg any]
    constructor
    · rintro ⟨_, rest, rfl, inside, rfl⟩
      exact ⟨c, rest, rfl, Or.inr rfl, inside⟩
    · rintro ⟨d, rest, rfl, known, inside⟩
      obtain rfl := known.resolve_left any
      exact ⟨[c], rest, rfl, inside, rfl⟩

theorem inLanguage_star_of_append {front : List Char} (inside : InLanguage ('*' :: pattern) name) :
    InLanguage ('*' :: pattern) (front ++ name) := by
  induction front with
  | nil => exact inside
  | cons d front ih => exact inLanguage_star.mpr (Or.inr ⟨d, front ++ name, rfl, ih⟩)

theorem inLanguage_append_plain {front : List Char} (plain : '*' ∉ front)
    (inside : InLanguage (front ++ pattern) name) :
    ∃ taken rest, name = taken ++ rest ∧ taken.length = front.length ∧ InLanguage pattern rest := by
  induction front generalizing name with
  | nil => exact ⟨[], name, rfl, rfl, inside⟩
  | cons c front ih =>
    obtain ⟨first, later⟩ := List.ne_and_not_mem_of_not_mem_cons plain
    obtain ⟨d, rest, rfl, _, inside⟩ := (inLanguage_plain (Ne.symm first)).mp inside
    obtain ⟨taken, rest, rfl, length, inside⟩ := ih later inside
    exact ⟨d :: taken, rest, rfl, congrArg Nat.succ length, inside⟩

end Language

/-! ### The matcher -/

structure Cursors where
  pi : Nat
  ti : Nat
  star : Option (Nat × Nat)
  behind : ∀ last ∈ star, last.1 ≤ pi

section Matcher

variable (p t : List Char)

def Cursors.turn (cursors : Cursors) : Cursors ⊕ Bool :=
  if p[cursors.pi]? = some '*' then
    .inl
      { pi := cursors.pi + 1
        ti := cursors.ti
        star := some (cursors.pi + 1, cursors.ti)
        behind := by simp }
  else if cursors.pi = p.length ∧ cursors.ti = t.length then .inr true
  else if ∃ c ∈ p[cursors.pi]?, ∃ d ∈ t[cursors.ti]?, takes c d = true then
    .inl
      { pi := cursors.pi + 1
        ti := cursors.ti + 1
        star := cursors.star
        behind := fun last member => (cursors.behind last member).trans (Nat.le_succ _) }
  else
    match cursors.star with
    | some (spi, sti) =>
      if sti < t.length then
        .inl
          { pi := spi
            ti := sti + 1
            star := some (spi, sti + 1)
            behind := by simp }
      else .inr false
    | none => .inr false

def Cursors.left (cursors : Cursors) : Nat × Nat × Nat :=
  match cursors.star with
  | some (spi, sti) => (p.length - spi, t.length - sti, p.length - cursors.pi)
  | none => (p.length + 1, 0, p.length - cursors.pi)

variable {p t}

theorem Cursors.left_turn {cursors next : Cursors} (moved : cursors.turn p t = .inl next) :
    Prod.Lex (· < ·) (Prod.Lex (· < ·) (· < ·)) (next.left p t) (cursors.left p t) := by
  obtain ⟨pi, ti, star, behind⟩ := cursors
  unfold Cursors.turn at moved
  dsimp only at moved
  split at moved
  next onStar =>
      -- a new star is behind the old one
      have inside := (List.getElem?_eq_some_iff.mp onStar).1
      obtain rfl := Sum.inl.inj moved
      rcases star with _ | ⟨spi, sti⟩
      · refine Prod.Lex.left _ _ ?_
        omega
      · have before : spi ≤ pi := behind (spi, sti) rfl
        refine Prod.Lex.left _ _ ?_
        omega
  next =>
  split at moved
  next => cases moved
  next =>
  split at moved
  next taken =>
      obtain ⟨c, here, _⟩ := taken
      have inside := (List.getElem?_eq_some_iff.mp here).1
      obtain rfl := Sum.inl.inj moved
      rcases star with _ | ⟨spi, sti⟩
      · exact Prod.Lex.right _ (Prod.Lex.right _ (Nat.sub_succ_lt_self _ _ inside))
      · exact Prod.Lex.right _ (Prod.Lex.right _ (Nat.sub_succ_lt_self _ _ inside))
  next =>
  split at moved
  next spi sti =>
      split at moved
      next short =>
          obtain rfl := Sum.inl.inj moved
          refine Prod.Lex.right _ (Prod.Lex.left _ _ ?_)
          omega
      next => cases moved
  next => cases moved

variable (p t)

/-- The loop, from some cursors on. -/
def Cursors.run (cursors : Cursors) : Bool :=
  match _moved : cursors.turn p t with
  | .inl next => next.run
  | .inr answer => answer
termination_by cursors.left p t
decreasing_by exact Cursors.left_turn _moved

end Matcher

/-- Whether a name matches a pattern. -/
def globMatches (pattern name : String) : Bool :=
  Cursors.run pattern.toList name.toList { pi := 0, ti := 0, star := none, behind := by simp }

/-! ### No match is lost -/

section Exact

variable (p t : List Char)

structure Cursors.Fits (cursors : Cursors) : Prop where
  inPattern : cursors.pi ≤ p.length
  inName : cursors.ti ≤ t.length
  since : ∀ spi sti, cursors.star = some (spi, sti) →
    cursors.ti = sti + (cursors.pi - spi) ∧ '*' ∉ (p.drop spi).take (cursors.pi - spi)

/-- What is still tried: the rest of the name here, or all the last star has not reached. -/
def Cursors.Open (cursors : Cursors) : Prop :=
  InLanguage (p.drop cursors.pi) (t.drop cursors.ti) ∨
    ∃ spi sti, cursors.star = some (spi, sti) ∧ sti < t.length ∧
      InLanguage ('*' :: p.drop spi) (t.drop (sti + 1))

variable {p t} {cursors : Cursors}

theorem Cursors.Fits.open_star (fits : cursors.Fits p t) {rest : List Char}
    (onStar : p.drop cursors.pi = '*' :: rest) :
    cursors.Open p t ↔ InLanguage ('*' :: rest) (t.drop cursors.ti) := by
  unfold Cursors.Open
  rw [onStar, or_iff_left_iff_imp]
  rintro ⟨spi, sti, last, short, inside⟩
  obtain ⟨place, plain⟩ := fits.since spi sti last
  have before : spi ≤ cursors.pi := cursors.behind (spi, sti) last
  have front : p.drop spi = (p.drop spi).take (cursors.pi - spi) ++ '*' :: rest := by
    conv_lhs => rw [← List.take_append_drop (cursors.pi - spi) (p.drop spi)]
    rw [List.drop_drop, Nat.add_sub_cancel' before, onStar]
  have length : ((p.drop spi).take (cursors.pi - spi)).length = cursors.pi - spi := by
    have bound := fits.inPattern
    rw [List.length_take, List.length_drop]
    omega
  -- the last star takes in some characters, those behind it as many as there are
  obtain ⟨piece, name, _, matched, whole⟩ := inLanguage_cons.mp inside
  rw [front] at matched
  obtain ⟨taken, name', rfl, sameLength, matched⟩ := inLanguage_append_plain plain matched
  have ends : name' <:+ t.drop (sti + 1) := ⟨piece ++ taken, by rw [List.append_assoc, whole]⟩
  have short' : name'.length ≤ (t.drop cursors.ti).length := by
    have lengths := congrArg List.length whole
    rw [List.length_append, List.length_append, List.length_drop] at lengths
    rw [List.length_drop]
    omega
  obtain ⟨more, same⟩ := List.suffix_of_suffix_length_le (ends.trans (List.drop_suffix _ _))
    (List.drop_suffix cursors.ti t) short'
  rw [← same]
  exact inLanguage_star_of_append matched

theorem inLanguage_star_drop {pattern : List Char} (ti : Nat) :
    InLanguage ('*' :: pattern) (t.drop ti) ↔
      InLanguage pattern (t.drop ti) ∨
        (ti < t.length ∧ InLanguage ('*' :: pattern) (t.drop (ti + 1))) := by
  rw [inLanguage_star]
  refine or_congr_right ?_
  constructor
  · rintro ⟨d, rest, same, inside⟩
    have short : ti < t.length := by
      by_contra long
      rw [List.drop_eq_nil_of_le (not_lt.mp long)] at same
      cases same
    rw [List.drop_eq_getElem_cons short] at same
    exact ⟨short, (List.cons.inj same).2 ▸ inside⟩
  · rintro ⟨short, inside⟩
    exact ⟨t[ti], t.drop (ti + 1), List.drop_eq_getElem_cons short, inside⟩

theorem drop_of_getElem? {l : List Char} {i : Nat} {c : Char} (here : l[i]? = some c) :
    l.drop i = c :: l.drop (i + 1) := by
  obtain ⟨short, rfl⟩ := List.getElem?_eq_some_iff.mp here
  exact List.drop_eq_getElem_cons short

theorem not_inLanguage_of_stuck (noStar : ¬ p[cursors.pi]? = some '*')
    (notDone : ¬ (cursors.pi = p.length ∧ cursors.ti = t.length)) (fits : cursors.Fits p t)
    (stuck : ¬ ∃ c ∈ p[cursors.pi]?, ∃ d ∈ t[cursors.ti]?, takes c d = true) :
    ¬ InLanguage (p.drop cursors.pi) (t.drop cursors.ti) := by
  intro inside
  rcases here : p[cursors.pi]? with _ | c
  · have atEnd : cursors.pi = p.length :=
      le_antisymm fits.inPattern (List.getElem?_eq_none_iff.mp here)
    rw [atEnd, List.drop_length, inLanguage_nil, List.drop_eq_nil_iff] at inside
    exact notDone ⟨atEnd, le_antisymm fits.inName inside⟩
  · have plain : c ≠ '*' := fun same => noStar (same ▸ here)
    rw [drop_of_getElem? here, inLanguage_plain plain] at inside
    obtain ⟨d, rest, same, taken, _⟩ := inside
    refine stuck ⟨c, here, d, ?_, taken⟩
    have first := congrArg List.head? same
    rwa [List.head?_drop] at first

theorem exists_last {spi sti : Nat} {P : Nat → Nat → Prop} :
    (∃ spi' sti', some (spi, sti) = some (spi', sti') ∧ P spi' sti') ↔ P spi sti := by
  constructor
  · rintro ⟨_, _, same, holds⟩
    obtain ⟨rfl, rfl⟩ := Prod.mk.inj (Option.some.inj same)
    exact holds
  · exact fun holds => ⟨spi, sti, rfl, holds⟩

theorem Cursors.Fits.turn_inl (fits : cursors.Fits p t) {next : Cursors}
    (moved : cursors.turn p t = .inl next) :
    next.Fits p t ∧ (next.Open p t ↔ cursors.Open p t) := by
  unfold Cursors.turn at moved
  split at moved
  next onStar =>
      have inside := (List.getElem?_eq_some_iff.mp onStar).1
      obtain rfl := Sum.inl.inj moved
      refine ⟨⟨inside, fits.inName, ?_⟩, ?_⟩
      · intro spi sti last
        obtain ⟨rfl, rfl⟩ := Prod.mk.inj (Option.some.inj last)
        simp
      · rw [fits.open_star (drop_of_getElem? onStar), inLanguage_star_drop]
        unfold Cursors.Open
        simp
  next noStar =>
  split at moved
  next => cases moved
  next =>
  split at moved
  next taken =>
      obtain ⟨c, here, d, there, known⟩ := taken
      have inPattern := (List.getElem?_eq_some_iff.mp here).1
      have inName := (List.getElem?_eq_some_iff.mp there).1
      have plain : c ≠ '*' := fun same => noStar (same ▸ here)
      obtain rfl := Sum.inl.inj moved
      refine ⟨⟨inPattern, inName, fun spi sti last => ?_⟩, ?_⟩
      · obtain ⟨place, free⟩ := fits.since spi sti last
        have before : spi ≤ cursors.pi := cursors.behind (spi, sti) last
        have next : (p.drop spi)[cursors.pi - spi]? = some c := by
          rw [List.getElem?_drop, Nat.add_sub_cancel' before]
          exact here
        refine ⟨by dsimp only; omega, ?_⟩
        dsimp only
        rw [Nat.sub_add_comm before, List.take_add_one, next, List.mem_append, not_or]
        exact ⟨free, by simpa using Ne.symm plain⟩
      · refine or_congr_left ?_
        rw [drop_of_getElem? here, drop_of_getElem? there, inLanguage_plain plain]
        constructor
        · exact fun inside => ⟨d, _, rfl, known, inside⟩
        · rintro ⟨_, _, same, _, inside⟩
          exact (List.cons.inj same).2 ▸ inside
  next stuck =>
  split at moved
  next spi sti last =>
      split at moved
      next short =>
          obtain rfl := Sum.inl.inj moved
          have before : spi ≤ cursors.pi := cursors.behind (spi, sti) last
          refine ⟨⟨before.trans fits.inPattern, short, ?_⟩, ?_⟩
          · intro spi' sti' same
            obtain ⟨rfl, rfl⟩ := Prod.mk.inj (Option.some.inj same)
            simp
          · have closed := not_inLanguage_of_stuck noStar ‹_› fits stuck
            unfold Cursors.Open
            rw [or_iff_right closed, last, exists_last, exists_last, and_iff_right short]
            exact (inLanguage_star_drop _).symm
      next => cases moved
  next => cases moved

theorem Cursors.Fits.turn_inr (fits : cursors.Fits p t) {answer : Bool}
    (moved : cursors.turn p t = .inr answer) : answer = true ↔ cursors.Open p t := by
  unfold Cursors.turn at moved
  split at moved
  next => cases moved
  next noStar =>
  split at moved
  next done =>
      obtain rfl := Sum.inr.inj moved
      refine iff_of_true rfl (Or.inl ?_)
      rw [done.1, done.2, List.drop_length, List.drop_length]
      exact inLanguage_nil.mpr rfl
  next notDone =>
  split at moved
  next => cases moved
  next stuck =>
  have closed := not_inLanguage_of_stuck noStar notDone fits stuck
  split at moved
  next spi sti last =>
      split at moved
      next => cases moved
      next long =>
          obtain rfl := Sum.inr.inj moved
          refine iff_of_false Bool.false_ne_true ?_
          rintro (here | ⟨spi', sti', last', short, _⟩)
          · exact closed here
          · rw [last] at last'
            obtain ⟨rfl, rfl⟩ := Prod.mk.inj (Option.some.inj last')
            exact long short
  next none =>
      obtain rfl := Sum.inr.inj moved
      refine iff_of_false Bool.false_ne_true ?_
      rintro (here | ⟨_, _, last, _⟩)
      · exact closed here
      · rw [none] at last
        cases last

theorem Cursors.Fits.run_iff (fits : cursors.Fits p t) :
    cursors.run p t = true ↔ cursors.Open p t := by
  induction cursors using Cursors.run.induct (p := p) (t := t) with
  | case1 cursors next moved ih =>
    obtain ⟨fits', same⟩ := fits.turn_inl moved
    rw [Cursors.run, ← same]
    split
    next next' moved' =>
        obtain rfl := Sum.inl.inj (moved.symm.trans moved')
        exact ih fits'
    next _ moved' =>
        rw [moved] at moved'
        cases moved'
  | case2 cursors answer moved =>
    rw [Cursors.run]
    split
    next _ moved' =>
        rw [moved] at moved'
        cases moved'
    next _ moved' =>
        obtain rfl := Sum.inr.inj (moved.symm.trans moved')
        exact fits.turn_inr moved

end Exact

/-- **A glob accepts exactly its language**: the name can be cut into pieces, one for each
character of the pattern, any run for a star, one character for a question mark, and the
character itself for every other. -/
theorem globMatches_iff (pattern name : String) :
    globMatches pattern name = true ↔ InLanguage pattern.toList name.toList := by
  have fits : Cursors.Fits pattern.toList name.toList
      { pi := 0, ti := 0, star := none, behind := by simp } :=
    ⟨Nat.zero_le _, Nat.zero_le _, fun _ _ last => by cases last⟩
  unfold globMatches
  rw [fits.run_iff]
  unfold Cursors.Open
  simp

end Lain.Query
