import Mathlib
import Lain.Federation.LineScanners
import Lain.Foundation.Failing
import Lain.Foundation.TextEnds

/-!
# Where the line scanners stop

The scanners of bare routes and identifiers come through on every line.
-/

namespace Lain.Federation

open Foundation ByteCursor

variable {line rest : List Char} {i : Nat}

/-! ### Literals -/

inductive LiteralState where
  | outside
  | inside (q : Char)
  | escaped (q : Char)

def isQuoteChar (c : Char) : Bool := decide (c = Char.ofNat 34) || decide (c = Char.ofNat 39)

def escapesAscii : LiteralState → List Char → Bool
  | _, [] => true
  | .outside, c :: rest =>
    if isQuoteChar c then escapesAscii (.inside c) rest else escapesAscii .outside rest
  | .inside q, c :: rest =>
    if c = Char.ofNat 92 then escapesAscii (.escaped q) rest
    else if c = q then escapesAscii .outside rest
    else if isQuoteChar c then escapesAscii (.inside c) rest
    else escapesAscii (.inside q) rest
  | .escaped q, c :: rest => decide (c.toNat < 128) && escapesAscii (.inside q) rest

theorem isQuote_getElem {c : Char} (here : At line i (c :: rest))
    (inside : i < (bytes line).length) : isQuote (bytes line)[i] = isQuoteChar c := by
  have double := here.getElem_eq_iff (d := Char.ofNat 34) (by decide) inside
  have single := here.getElem_eq_iff (d := Char.ofNat 39) (by decide) inside
  unfold isQuoteChar
  rw [← decide_eq_decide.mpr double, ← decide_eq_decide.mpr single]
  rfl

theorem toNat_of_isQuoteChar {q : Char} (quote : isQuoteChar q = true) : q.toNat < 128 := by
  unfold isQuoteChar at quote
  rw [Bool.or_eq_true, decide_eq_true_eq, decide_eq_true_eq] at quote
  rcases quote with rfl | rfl
  · decide
  · decide

theorem scanLiteral_end {q : UInt8} {content : List Char} (outside : (bytes line).length ≤ i) :
    scanLiteral line q i content = some (i, content, false) := by
  rw [scanLiteral, dif_neg outside.not_gt]

theorem scanLiteral_inside {c q : Char} (quote : isQuoteChar q = true) {content : List Char}
    (here : At line i (c :: rest)) (wide : 128 ≤ c.toNat) :
    scanLiteral line q.val.toUInt8 (i + 1) content = none := by
  have two := two_le_utf8Size wide
  have whole := here.add_length
  rw [bytes_cons, List.length_append, String.length_utf8EncodeChar] at whole
  have inside : i + 1 < (bytes line).length := by omega
  have high := here.le_toNat wide two (List.getElem?_eq_getElem inside)
  have other : ∀ d : Char, d.toNat < 128 → (bytes line)[i + 1] ≠ d.val.toUInt8 := by
    intro d ascii same
    rw [same, toNat_toUInt8 ascii] at high
    omega
  have plain : isQuote (bytes line)[i + 1] = false := by
    unfold isQuote
    rw [Bool.or_eq_false_iff, decide_eq_false_iff_not, decide_eq_false_iff_not]
    exact ⟨other (Char.ofNat 34) (by decide), other (Char.ofNat 39) (by decide)⟩
  rw [scanLiteral, dif_pos inside, dif_neg fun both => other (Char.ofNat 92) (by decide) both.1,
    if_neg (other q (toNat_of_isQuoteChar quote)), plain, if_neg Bool.false_ne_true,
    here.not_inside one_pos two]

theorem scanLiteral_spec {q : Char} (quote : isQuoteChar q = true) :
    ∀ {rest : List Char} {i : Nat} {content : List Char}, At line i rest →
      (scanLiteral line q.val.toUInt8 i content = none ∧
        escapesAscii (.inside q) rest = false) ∨
      ∃ j text closed after, scanLiteral line q.val.toUInt8 i content = some (j, text, closed) ∧
        At line j after ∧ after.length ≤ rest.length ∧
        escapesAscii (.inside q) rest = escapesAscii .outside after := by
  intro rest
  induction size : rest.length using Nat.strong_induction_on generalizing rest with
  | h n ih =>
    intro i content here
    cases rest with
    | nil =>
      have whole := here.add_length
      rw [bytes_nil, List.length_nil, add_zero] at whole
      exact .inr ⟨i, content, false, [], scanLiteral_end whole.ge, here, Nat.zero_le _, rfl⟩
    | cons c rest =>
      have inside := here.lt_length
      have backslash := here.getElem_eq_iff (d := Char.ofNat 92) (by decide) inside
      rw [List.length_cons] at size
      rw [scanLiteral, dif_pos inside]
      by_cases slash : c = Char.ofNat 92
      · subst slash
        have next : At line (i + 1) rest := here.next
        cases rest with
        | nil =>
          -- A backslash at the end of the line is read like any other character.
          have whole := next.add_length
          rw [bytes_nil, List.length_nil, add_zero] at whole
          have open' : ¬Char.ofNat 92 = q := by
            rintro rfl
            exact absurd quote (by decide)
          rw [dif_neg fun both => absurd both.2 whole.ge.not_gt,
            if_neg fun same => open' ((here.getElem_eq_iff
              (toNat_of_isQuoteChar quote) inside).mp same),
            isQuote_getElem here inside, if_neg (by decide), dropBytes_eq_some.mpr here]
          exact .inr ⟨i + 1, _, false, [], scanLiteral_end whole.ge, next,
            Nat.zero_le _, rfl⟩
        | cons d rest =>
          rw [dif_pos ⟨backslash.mpr rfl, next.lt_length⟩]
          have follows : escapesAscii (.inside q) (Char.ofNat 92 :: d :: rest) =
              (decide (d.toNat < 128) && escapesAscii (.inside q) rest) := by
            rw [escapesAscii, if_pos rfl, escapesAscii]
          rw [follows]
          by_cases ascii : d.toNat < 128
          · rw [decide_eq_true ascii, Bool.true_and]
            have later := next.next
            rw [utf8Size_ascii ascii] at later
            rcases ih rest.length (by rw [← size, List.length_cons]; omega) rfl later with
              failed | ⟨j, text, closed, after, found, there, shorter, same⟩
            · exact .inl failed
            · rw [List.length_cons] at size
              exact .inr ⟨j, text, closed, after, found, there, by omega, same⟩
          · rw [decide_eq_false ascii, Bool.false_and]
            exact .inl ⟨scanLiteral_inside quote next (not_lt.mp ascii), rfl⟩
      · rw [dif_neg fun both => slash (backslash.mp both.1), escapesAscii, if_neg slash]
        have closing := here.getElem_eq_iff (toNat_of_isQuoteChar quote) inside
        by_cases same : c = q
        · rw [if_pos (closing.mpr same), if_pos same]
          subst same
          have later := here.next
          rw [utf8Size_ascii (toNat_of_isQuoteChar quote)] at later
          exact .inr ⟨i + 1, content, true, rest, rfl, later, by omega, rfl⟩
        · rw [if_neg fun found => same (closing.mp found), if_neg same,
            isQuote_getElem here inside]
          by_cases other : isQuoteChar c = true
          · rw [if_pos other, if_pos other]
            refine .inr ⟨i, content, false, c :: rest, rfl, here, size.le, ?_⟩
            rw [escapesAscii, if_pos other]
          · rw [if_neg other, if_neg other, dropBytes_eq_some.mpr here]
            rcases ih rest.length (by omega) rfl here.next with
              failed | ⟨j, text, closed, after, found, there, shorter, same⟩
            · exact .inl failed
            · exact .inr ⟨j, text, closed, after, found, there, by omega, same⟩

theorem quotedFrom_eq (inside : i < (bytes line).length) :
    quotedFrom line i =
      if isQuote (bytes line)[i] then
        (scanLiteral line (bytes line)[i] (i + 1) []).bind fun scanned =>
          (quotedFrom line scanned.1).map fun later =>
            if scanned.2.2 && !scanned.2.1.isEmpty then ((i, scanned.1), scanned.2.1) :: later
            else later
      else quotedFrom line (i + 1) := by
  rw [quotedFrom, dif_pos inside]
  dsimp only
  split
  · split
    · rename_i failed
      rw [failed]
      rfl
    · rename_i scanned
      rw [scanned]
      rfl
  · rfl

theorem quotedFrom_add {k : Nat}
    (plain : ∀ n < k, ∀ b, (bytes line)[i + n]? = some b → isQuote b = false)
    (within : i + k ≤ (bytes line).length) : quotedFrom line i = quotedFrom line (i + k) := by
  induction k generalizing i with
  | zero => rfl
  | succ k ih =>
    have inside : i < (bytes line).length := by omega
    rw [quotedFrom_eq inside, plain 0 k.succ_pos _ (List.getElem?_eq_getElem inside),
      if_neg Bool.false_ne_true, ih (fun n less b found => plain (n + 1) (by omega) b
        (by rwa [Nat.add_right_comm, Nat.add_assoc] at found)) (by omega)]
    rw [Nat.add_right_comm, Nat.add_assoc]

theorem quotedFrom_spec : ∀ {rest : List Char} {i : Nat}, At line i rest →
    (quotedFrom line i = none ∧ escapesAscii .outside rest = false) ∨
      ∃ found, quotedFrom line i = some found ∧ escapesAscii .outside rest = true ∧
        InOrder line i found := by
  intro rest
  induction size : rest.length using Nat.strong_induction_on generalizing rest with
  | h n ih =>
    intro i here
    cases rest with
    | nil =>
      have whole := here.add_length
      rw [bytes_nil, List.length_nil, add_zero] at whole
      rw [quotedFrom, dif_neg whole.ge.not_gt]
      exact .inr ⟨[], rfl, rfl, inOrder_nil line i⟩
    | cons c rest =>
      have inside := here.lt_length
      rw [List.length_cons] at size
      by_cases quote : isQuoteChar c = true
      · have ascii := toNat_of_isQuoteChar quote
        have same := (here.getElem_eq_iff ascii inside).mpr rfl
        have next := here.next
        rw [utf8Size_ascii ascii] at next
        rw [quotedFrom_eq inside, isQuote_getElem here inside, if_pos quote, same,
          escapesAscii, if_pos quote]
        rcases scanLiteral_spec quote next with
          ⟨failed, stray⟩ | ⟨j, text, closed, after, found, there, shorter, fair⟩
        · rw [failed]
          exact .inl ⟨rfl, stray⟩
        · have step := (Nat.le_succ i).trans (scanLiteral_le found)
          rw [found, fair, Option.bind_some]
          rcases ih after.length (by omega) rfl there with
            ⟨none, stray⟩ | ⟨later, some, clean, ordered⟩
          · rw [none]
            exact .inl ⟨rfl, stray⟩
          · rw [some]
            refine .inr ⟨_, rfl, clean, ?_⟩
            split_ifs
            · exact ordered.cons ⟨⟨_, here⟩, ⟨_, there⟩, step⟩ (le_refl j) _
            · exact ordered.weaken step
      · have plain : isQuoteChar c = false := Bool.eq_false_iff.mpr quote
        have next := here.next
        have passed : quotedFrom line i = quotedFrom line (i + c.utf8Size) := by
          refine quotedFrom_add (fun k less b found => ?_) next.le_length
          by_cases ascii : c.toNat < 128
          · rw [utf8Size_ascii ascii, Nat.lt_one_iff] at less
            subst less
            rw [← plain, ← isQuote_getElem here inside]
            rw [add_zero, List.getElem?_eq_getElem inside, Option.some_inj] at found
            rw [found]
          · have high := here.le_toNat (not_lt.mp ascii) less found
            unfold isQuote
            rw [Bool.or_eq_false_iff, decide_eq_false_iff_not, decide_eq_false_iff_not]
            constructor
            · rintro rfl
              exact absurd high (by decide)
            · rintro rfl
              exact absurd high (by decide)
        rw [passed, escapesAscii, if_neg quote]
        rcases ih rest.length (by omega) rfl next with none | ⟨later, some, clean, ordered⟩
        · exact .inl none
        · exact .inr ⟨later, some, clean, ordered.weaken (Nat.le_add_right _ _)⟩

/-! ### Routes and identifiers -/

theorem exists_token {b : UInt8} {n : Nat} (found : (bytes line)[i]? = some b)
    (ascii : b.toNat < 128) (within : n ≤ ((bytes line).drop (i + 1)).length)
    (run : ∀ b ∈ ((bytes line).drop (i + 1)).take n, b.toNat < 128) :
    ∃ token after, At line i (token ++ after) ∧ (bytes token).length = 1 + n := by
  obtain ⟨c, rest, here, narrow, -⟩ := exists_at found ascii
  have next := here.next
  rw [utf8Size_ascii narrow] at next
  rw [next.drop_bytes] at within run
  obtain ⟨name, after, rfl, size⟩ := next.exists_run within run
  refine ⟨c :: name, after, here, ?_⟩
  rw [bytes_cons, List.length_append, String.length_utf8EncodeChar, utf8Size_ascii narrow, size]

theorem toNat_of_isAsciiAlphabetic {b : UInt8} (letter : isAsciiAlphabetic b = true) :
    b.toNat < 128 := by
  unfold isAsciiAlphabetic at letter
  rw [Bool.or_eq_true, decide_eq_true_eq, decide_eq_true_eq] at letter
  rcases letter with ⟨-, small⟩ | ⟨-, small⟩
  · exact lt_of_le_of_lt (UInt8.le_iff_toNat_le.mp small) (by decide)
  · exact lt_of_le_of_lt (UInt8.le_iff_toNat_le.mp small) (by decide)

theorem toNat_of_isAsciiAlphanumeric {b : UInt8} (letter : isAsciiAlphanumeric b = true) :
    b.toNat < 128 := by
  unfold isAsciiAlphanumeric at letter
  rw [Bool.or_eq_true, decide_eq_true_eq] at letter
  rcases letter with letter | ⟨-, small⟩
  · exact toNat_of_isAsciiAlphabetic letter
  · exact lt_of_le_of_lt (UInt8.le_iff_toNat_le.mp small) (by decide)

theorem toNat_of_isRouteChar {b : UInt8} (route : isRouteChar b = true) : b.toNat < 128 := by
  unfold isRouteChar at route
  rw [Bool.or_eq_true, decide_eq_true_eq] at route
  rcases route with letter | listed
  · exact toNat_of_isAsciiAlphanumeric letter
  · simp only [List.mem_cons, List.not_mem_nil, or_false] at listed
    rcases listed with rfl | rfl | rfl | rfl | rfl | rfl | rfl | rfl | rfl | rfl <;> decide

theorem exists_trimRoute (text : List Char) : ∃ tail, text = trimRoute text ++ tail := by
  refine ⟨(text.reverse.takeWhile fun c => decide (c ∈ [',', ';', ')', ']', '}', Char.ofNat 34,
    Char.ofNat 39, ':'])).reverse, ?_⟩
  unfold trimRoute
  rw [← List.reverse_append, List.takeWhile_append_dropWhile, List.reverse_reverse]

/-- **The bare routes of a line** are found in order, on every line. -/
theorem routesFrom_spec (line : List Char) (i : Nat) :
    ∃ found, routesFrom line i = some found ∧ InOrder line i found := by
  induction size : (bytes line).length - i using Nat.strong_induction_on generalizing i with
  | h n ih =>
    rw [routesFrom]
    by_cases inside : i < (bytes line).length
    · rw [if_pos inside]
      by_cases begins : routeBegins (bytes line) i = true
      · have slash : (bytes line)[i]? = some 47 := by
          unfold routeBegins at begins
          rw [Bool.and_eq_true, Bool.and_eq_true, decide_eq_true_eq] at begins
          exact begins.1.1
        rw [if_pos begins]
        dsimp only
        have front := List.takeWhile_prefix isRouteChar (l := (bytes line).drop (i + 1))
        obtain ⟨text, after, here, length⟩ := exists_token slash (by decide)
          front.length_le (by
            intro b member
            rw [← List.prefix_iff_eq_take.mp front] at member
            exact toNat_of_isRouteChar (List.mem_takeWhile_imp member))
        have sliced := here.slice
        rw [length, ← Nat.add_assoc] at sliced
        rw [sliced]
        dsimp only
        obtain ⟨later, some, ordered⟩ := ih _ (by omega) (max _ (i + 1)) rfl
        rw [some]
        refine ⟨_, rfl, ?_⟩
        obtain ⟨tail, whole⟩ := exists_trimRoute text
        have trimmed : At line i (trimRoute text ++ (tail ++ after)) := by
          rw [← List.append_assoc, ← whole]
          exact here
        have shorter : (bytes (trimRoute text)).length ≤ (bytes text).length := by
          conv_rhs => rw [whole]
          rw [bytes_append, List.length_append]
          exact Nat.le_add_right _ _
        split_ifs
        · refine ordered.cons ⟨⟨_, trimmed⟩, ⟨_, trimmed.append⟩, Nat.le_add_right _ _⟩ ?_ _
          omega
        · exact ordered.weaken ((Nat.le_succ i).trans (le_max_right _ _))
      · rw [if_neg begins]
        obtain ⟨later, some, ordered⟩ := ih _ (by omega) (i + 1) rfl
        exact ⟨later, some, ordered.weaken (Nat.le_succ i)⟩
    · rw [if_neg inside]
      exact ⟨[], rfl, inOrder_nil line i⟩

theorem toNat_of_beginsIdentifier {b : UInt8} (begins : beginsIdentifier b = true) :
    b.toNat < 128 := by
  unfold beginsIdentifier at begins
  rw [Bool.or_eq_true, decide_eq_true_eq] at begins
  rcases begins with letter | rfl
  · exact toNat_of_isAsciiAlphabetic letter
  · decide

theorem identifierLength_spec (read : List UInt8) :
    identifierLength read ≤ read.length ∧
      ∀ b ∈ read.take (identifierLength read), b.toNat < 128 := by
  induction read with
  | nil => exact ⟨le_refl _, fun b member => absurd member List.not_mem_nil⟩
  | cons b read ih =>
    have more : b.toNat < 128 → 1 + identifierLength read ≤ (b :: read).length ∧
        ∀ b' ∈ (b :: read).take (1 + identifierLength read), b'.toNat < 128 := by
      intro ascii
      rw [Nat.add_comm, List.take_succ_cons, List.length_cons]
      refine ⟨Nat.succ_le_succ ih.1, fun b' member => ?_⟩
      rcases List.mem_cons.mp member with rfl | later
      · exact ascii
      · exact ih.2 b' later
    unfold identifierLength
    split_ifs with letter dot
    · rw [Bool.or_eq_true, decide_eq_true_eq] at letter
      rcases letter with letter | rfl
      · exact more (toNat_of_isAsciiAlphanumeric letter)
      · exact more (by decide)
    · rw [Bool.and_eq_true, decide_eq_true_eq] at dot
      exact more (dot.1 ▸ by decide)
    · exact ⟨Nat.zero_le _, fun b' member => absurd member List.not_mem_nil⟩

/-- **The identifiers of a line** are found in order, on every line. -/
theorem identifiersFrom_spec (line : List Char) (i : Nat) :
    ∃ found, identifiersFrom line i = some found ∧ InOrder line i found := by
  induction size : (bytes line).length - i using Nat.strong_induction_on generalizing i with
  | h n ih =>
    rw [identifiersFrom]
    by_cases inside : i < (bytes line).length
    · rw [dif_pos inside]
      by_cases begins : beginsIdentifier (bytes line)[i] = true
      · rw [if_pos begins]
        dsimp only
        have run := identifierLength_spec ((bytes line).drop (i + 1))
        obtain ⟨token, after, here, length⟩ := exists_token (List.getElem?_eq_getElem inside)
          (toNat_of_beginsIdentifier begins) run.1 run.2
        have sliced := here.slice
        have there := here.append
        rw [length, ← Nat.add_assoc] at sliced there
        rw [sliced]
        dsimp only
        obtain ⟨later, some, ordered⟩ := ih ((bytes line).length - (i + 1 +
          identifierLength ((bytes line).drop (i + 1)))) (by omega) _ rfl
        rw [some]
        exact ⟨_, rfl, ordered.cons ⟨⟨_, here⟩, ⟨_, there⟩, by dsimp only; omega⟩ (le_refl _) _⟩
      · rw [if_neg begins]
        obtain ⟨later, some, ordered⟩ := ih _ (by omega) (i + 1) rfl
        exact ⟨later, some, ordered.weaken (Nat.le_succ i)⟩
    · rw [dif_neg inside]
      exact ⟨[], rfl, inOrder_nil line i⟩

/-! ### Names of variables -/

theorem eq_of_cutChars {pattern text front after : List Char}
    (cut : Text.cutChars pattern text = some (front, after)) :
    text = front ++ (pattern ++ after) := by
  induction text generalizing front with
  | nil =>
    unfold Text.cutChars at cut
    split_ifs at cut with empty
    cases cut
    rw [List.isEmpty_iff.mp empty]
    rfl
  | cons c text ih =>
    unfold Text.cutChars at cut
    split at cut
    next found =>
        cases cut
        exact (List.isPrefixOf?_eq_some_iff_append_eq.mp found).symm
    next =>
        obtain ⟨⟨before, later⟩, found, same⟩ := Option.map_eq_some_iff.mp cut
        cases same
        rw [ih found, List.cons_append]

theorem at_of_cutChars {pattern text front after : List Char} (here : At line i text)
    (cut : Text.cutChars pattern text = some (front, after)) :
    At line (i + (bytes front).length) (pattern ++ after) := by
  rw [eq_of_cutChars cut] at here
  exact here.append

namespace CharClasses

variable (classes : CharClasses)

theorem innerLiteral_isSome (text : List Char) :
    ∃ inner, classes.innerLiteral text = some inner := by
  unfold innerLiteral
  dsimp only
  split_ifs with quoted
  · obtain ⟨size, ends⟩ := quoted
    have quotes : ∃ q : UInt8, q.toNat < 128 ∧ (bytes (classes.trim text))[0]? = some q ∧
        (bytes (classes.trim text))[(bytes (classes.trim text)).length - 1]? = some q := by
      rcases ends with double | single
      · exact ⟨34, by decide, double⟩
      · exact ⟨39, by decide, single⟩
    obtain ⟨q, ascii, first, last⟩ := quotes
    obtain ⟨c, rest, here, narrow, -⟩ := exists_at first ascii
    obtain ⟨d, after, there, -⟩ := exists_at last ascii
    have next := here.next
    rw [utf8Size_ascii narrow] at next
    obtain ⟨inner, sliced, -⟩ := next.exists_slice there (by omega)
    exact ⟨inner, sliced⟩
  · exact ⟨_, rfl⟩

theorem firstArgument_isSome (opener text : List Char) :
    ∃ name, classes.firstArgument opener text = some name := by
  unfold firstArgument
  split
  · exact ⟨none, rfl⟩
  · rename_i rest _
    split
    · rename_i stop found
      obtain ⟨⟨front, after⟩, cut, rfl⟩ := Option.map_eq_some_iff.mp found
      obtain ⟨argument, sliced, -⟩ := (at_zero rest).exists_slice
        (at_of_cutChars (at_zero rest) cut) (Nat.zero_le _)
      rw [zero_add] at sliced
      obtain ⟨name, inner⟩ := classes.innerLiteral_isSome argument
      rw [sliced, Option.bind_some, inner]
      exact ⟨some name, rfl⟩
    · split
      · rename_i argument _
        obtain ⟨name, inner⟩ := classes.innerLiteral_isSome argument
        rw [inner]
        exact ⟨some name, rfl⟩
      · exact ⟨none, rfl⟩

theorem environSubscript_isSome (text : List Char) :
    ∃ name, classes.environSubscript text = some name := by
  unfold environSubscript
  dsimp only
  split_ifs with both
  · rw [Bool.and_eq_true, List.isPrefixOf_iff_prefix, List.isSuffixOf_iff_suffix] at both
    obtain ⟨⟨rest, whole⟩, front, ends⟩ := both
    have here : At text (bytes "os.environ[".toList).length rest := ⟨_, whole.symm, rfl⟩
    have there : At text (bytes front).length [']'] := ⟨front, ends.symm, rfl⟩
    have last : (bytes text).length - 1 = (bytes front).length := by
      rw [← there.add_length]
      rfl
    have ordered : (bytes "os.environ[".toList).length ≤ (bytes front).length := by
      cases rest with
      | nil =>
        -- The opening bracket is not the closing one.
        have same := congrArg List.getLast? (whole.trans ends.symm)
        rw [List.append_nil, List.getLast?_concat] at same
        exact absurd same (by decide)
      | cons c rest =>
        have size := here.lt_length
        rw [← there.add_length] at size
        exact Nat.le_of_lt_succ size
    rw [last]
    obtain ⟨inner, sliced, -⟩ := here.exists_slice there ordered
    obtain ⟨name, named⟩ := classes.innerLiteral_isSome inner
    rw [sliced, Option.bind_some, named]
    exact ⟨some name, rfl⟩
  · exact ⟨none, rfl⟩

theorem systemGetenv_isSome (text : List Char) :
    ∃ name, classes.systemGetenv text = some name := by
  unfold systemGetenv
  split
  · exact ⟨none, rfl⟩
  · rename_i rest _
    split
    · exact ⟨none, rfl⟩
    · rename_i stop found
      obtain ⟨⟨front, after⟩, cut, rfl⟩ := Option.map_eq_some_iff.mp found
      obtain ⟨argument, sliced, -⟩ := (at_zero rest).exists_slice
        (at_of_cutChars (at_zero rest) cut) (Nat.zero_le _)
      rw [zero_add] at sliced
      obtain ⟨name, inner⟩ := classes.innerLiteral_isSome argument
      rw [sliced, Option.bind_some, inner]
      exact ⟨_, rfl⟩

theorem processSubscript_isSome (text : List Char) :
    ∃ name, classes.processSubscript text = some name := by
  unfold processSubscript
  split
  · exact ⟨none, rfl⟩
  · split
    · exact ⟨none, rfl⟩
    · rename_i inner _
      obtain ⟨name, named⟩ := classes.innerLiteral_isSome inner
      rw [named]
      exact ⟨some name, rfl⟩

theorem orNext_isSome {first next : Option (Option (List Char))} (one : ∃ name, first = some name)
    (two : ∃ name, next = some name) : ∃ name, orNext first next = some name := by
  obtain ⟨name, rfl⟩ := one
  cases name with
  | none => exact two
  | some name => exact ⟨some name, rfl⟩

/-- **The grammar of environment accesses** answers for every expression. -/
theorem hostEnvName_isSome (text : List Char) : ∃ name, classes.hostEnvName text = some name :=
  orNext_isSome (classes.environSubscript_isSome _) <|
    orNext_isSome (classes.firstArgument_isSome _ _) <|
    orNext_isSome (classes.firstArgument_isSome _ _) <|
    orNext_isSome (classes.firstArgument_isSome _ _) <|
    orNext_isSome (classes.systemGetenv_isSome _) <|
    orNext_isSome (classes.processSubscript_isSome _) <|
    orNext_isSome ⟨_, rfl⟩ <| orNext_isSome ⟨_, rfl⟩ ⟨_, rfl⟩

/-- A call can be read: the grammar knows it, or its literals escape characters of ASCII only. -/
def Readable (call : List Char) : Prop :=
  classes.hostEnvName call = some none → escapesAscii .outside call = true

theorem envNameFromCall_isSome (call : List Char) :
    (∃ name, classes.envNameFromCall call = some name) ↔ classes.Readable call := by
  obtain ⟨known, named⟩ := classes.hostEnvName_isSome call
  unfold Readable envNameFromCall
  rw [named]
  cases known with
  | some name =>
    exact iff_of_true ⟨some name, rfl⟩ fun same => by cases same
  | none =>
    change (∃ name, (quotedFrom call 0).map _ = some name) ↔ _
    rcases quotedFrom_spec (at_zero call) with ⟨failed, stray⟩ | ⟨found, some, clean, -⟩
    · rw [failed, stray]
      refine iff_of_false ?_ fun clean => absurd (clean rfl) Bool.false_ne_true
      rintro ⟨name, same⟩
      cases same
    · rw [some, clean]
      exact iff_of_true ⟨_, rfl⟩ fun _ => rfl

/-! ### Accesses -/

inductive Enclosed (opener : List Char) (close : Char) : List Char → List Char → Prop where
  | first {text front inner rest : List Char} :
      Text.cutChars opener text = some (front, inner ++ close :: rest) → close ∉ inner →
      Enclosed opener close text (opener ++ (inner ++ [close]))
  | later {text front inner rest call : List Char} :
      Text.cutChars opener text = some (front, inner ++ close :: rest) → close ∉ inner →
      Enclosed opener close rest call → Enclosed opener close text call

inductive Dotted (opener : List Char) : List Char → List Char → Prop where
  | first {text front after : List Char} : Text.cutChars opener text = some (front, after) →
      after.takeWhile classes.isNameChar ≠ [] →
      Dotted opener text (opener ++ after.takeWhile classes.isNameChar)
  | later {text front after call : List Char} : Text.cutChars opener text = some (front, after) →
      Dotted opener (after.dropWhile classes.isNameChar) call → Dotted opener text call

/-- The accesses of the environment on a line. -/
def Accesses (shapes : AnchorShapes) (line call : List Char) : Prop :=
  (∃ opener ∈ shapes.envParenPrefixes, Enclosed opener ')' line call) ∨
    (∃ opener ∈ shapes.envBracketPrefixes, Enclosed opener ']' line call) ∨
    ∃ opener ∈ shapes.envIdentPrefixes, classes.Dotted opener line call

theorem enclosed_iff {opener text front inner rest call : List Char} {close : Char}
    (cut : Text.cutChars opener text = some (front, inner ++ close :: rest))
    (free : close ∉ inner) :
    Enclosed opener close text call ↔
      call = opener ++ (inner ++ [close]) ∨ Enclosed opener close rest call := by
  have only : ∀ {front' inner' rest' : List Char},
      Text.cutChars opener text = some (front', inner' ++ close :: rest') → close ∉ inner' →
        inner' = inner ∧ rest' = rest := by
    intro front' inner' rest' cut' free'
    rw [cut, Option.some_inj, Prod.mk.injEq] at cut'
    have both := Text.cutChars_append free' rest'
    rw [← cut'.2, Text.cutChars_append free, Option.some_inj, Prod.mk.injEq] at both
    exact ⟨both.1.symm, both.2.symm⟩
  constructor
  · rintro (⟨cut', free'⟩ | ⟨cut', free', later⟩)
    · rw [(only cut' free').1]
      exact .inl rfl
    · rw [(only cut' free').2] at later
      exact .inr later
  · rintro (rfl | later)
    · exact .first cut free
    · exact .later cut free later

/-- **The calls of a shape with brackets** are found, unless one cannot be read. -/
theorem enclosedFrom_spec (opener : List Char) {close : Char} (ascii : close.toNat < 128) :
    ∀ {text : List Char} {i : Nat}, At line i text →
      (classes.enclosedFrom line opener close i = none ∧
        ∃ call, Enclosed opener close text call ∧ ¬classes.Readable call) ∨
      ∃ found, classes.enclosedFrom line opener close i = some found ∧
        (∀ call, Enclosed opener close text call → classes.Readable call) ∧
        ∀ token ∈ found, IsSpan line token.1 := by
  intro text
  induction size : text.length using Nat.strong_induction_on generalizing text with
  | h n ih =>
    intro i here
    have nothing : (∀ front inner rest,
        Text.cutChars opener text ≠ some (front, inner ++ close :: rest)) →
        ∀ call, Enclosed opener close text call → classes.Readable call := by
      rintro absent call (⟨cut, -⟩ | ⟨cut, -, -⟩)
      · exact absurd cut (absent _ _ _)
      · exact absurd cut (absent _ _ _)
    rw [enclosedFrom, dropBytes_eq_some.mpr here]
    dsimp only
    unfold find
    cases cut : Text.cutChars opener text with
    | none =>
      exact .inr ⟨[], rfl, nothing fun _ _ _ => by rw [cut]; exact (Option.some_ne_none _).symm,
        fun _ member => absurd member List.not_mem_nil⟩
    | some parts =>
      obtain ⟨front, after⟩ := parts
      have start := at_of_cutChars here cut
      have opened := start.append
      simp only [Option.map_some, dropBytes_eq_some.mpr opened]
      by_cases closes : close ∈ after
      · obtain ⟨inner, rest, rfl, free⟩ := List.eq_append_cons_of_mem closes
        rw [Text.cutChars_append free]
        dsimp only [Option.map_some]
        have whole : At line (i + (bytes front).length)
            ((opener ++ (inner ++ [close])) ++ rest) := by
          simpa only [List.append_assoc, List.singleton_append] using start
        have length : (bytes (opener ++ (inner ++ [close]))).length =
            (bytes opener).length + (bytes inner).length + 1 := by
          simp only [bytes_append, bytes_cons, bytes_nil, List.append_nil, List.length_append,
            String.length_utf8EncodeChar, utf8Size_ascii ascii]
          omega
        have sliced := whole.slice
        have there := whole.append
        rw [length, ← Nat.add_assoc, ← Nat.add_assoc] at sliced there
        rw [sliced, Option.bind_some,
          max_eq_left (by omega : i + (bytes front).length + 1 ≤ _)]
        have shorter : rest.length < n := by
          rw [← size, eq_of_cutChars cut]
          simp only [List.length_append, List.length_cons]
          omega
        by_cases readable : classes.Readable (opener ++ (inner ++ [close]))
        · obtain ⟨name, named⟩ := (classes.envNameFromCall_isSome _).mpr readable
          rw [named, Option.bind_some]
          rcases ih rest.length shorter rfl there with
            ⟨failed, call, listed, unread⟩ | ⟨later, found, fine, spans⟩
          · rw [failed]
            exact .inl ⟨rfl, call, .later cut free listed, unread⟩
          · rw [found]
            refine .inr ⟨_, rfl, fun call listed => ?_, fun token member => ?_⟩
            · rcases (enclosed_iff cut free).mp listed with rfl | listed
              · exact readable
              · exact fine call listed
            · rcases List.mem_append.mp member with first | later
              · obtain ⟨text, -, rfl⟩ := Option.map_eq_some_iff.mp (Option.mem_toList.mp first)
                exact ⟨⟨_, start⟩, ⟨_, there⟩, by dsimp only; omega⟩
              · exact spans token later
        · refine .inl ⟨?_, _, .first cut free, readable⟩
          cases named : classes.envNameFromCall (opener ++ (inner ++ [close])) with
          | none => rfl
          | some name =>
            exact absurd ((classes.envNameFromCall_isSome _).mp ⟨name, named⟩) readable
      · rw [Text.cutChars_of_notMem closes]
        refine .inr ⟨[], rfl, nothing fun front' inner rest => ?_,
          fun _ member => absurd member List.not_mem_nil⟩
        rw [cut]
        intro same
        cases same
        exact closes (List.mem_append_right _ List.mem_cons_self)

theorem getD_findNot {text : List Char} (here : At line i text) (kind : Char → Bool) :
    ((findNot kind text).map fun n => i + n).getD (bytes line).length =
      i + (bytes (text.takeWhile kind)).length := by
  unfold findNot
  split_ifs with every
  · rw [List.takeWhile_eq_self_iff.mpr fun c member => List.all_eq_true.mp every c member]
    exact here.add_length.symm
  · rfl

theorem dotted_iff {opener text front after call : List Char}
    (cut : Text.cutChars opener text = some (front, after)) :
    classes.Dotted opener text call ↔
      (after.takeWhile classes.isNameChar ≠ [] ∧
        call = opener ++ after.takeWhile classes.isNameChar) ∨
      classes.Dotted opener (after.dropWhile classes.isNameChar) call := by
  constructor
  · rintro (⟨cut', named⟩ | ⟨cut', later⟩)
    · rw [cut, Option.some_inj, Prod.mk.injEq] at cut'
      rw [← cut'.2] at named ⊢
      exact .inl ⟨named, rfl⟩
    · rw [cut, Option.some_inj, Prod.mk.injEq] at cut'
      rw [← cut'.2] at later
      exact .inr later
  · rintro (⟨named, rfl⟩ | later)
    · exact .first cut named
    · exact .later cut later

theorem dottedFrom_spec {opener : List Char} (shape : opener ≠ []) :
    ∀ {text : List Char} {i : Nat}, At line i text →
      (classes.dottedFrom line opener i = none ∧
        ∃ call, classes.Dotted opener text call ∧ ¬classes.Readable call) ∨
      ∃ found, classes.dottedFrom line opener i = some found ∧
        (∀ call, classes.Dotted opener text call → classes.Readable call) ∧
        ∀ token ∈ found, IsSpan line token.1 := by
  intro text
  induction size : text.length using Nat.strong_induction_on generalizing text with
  | h n ih =>
    intro i here
    rw [dottedFrom, dropBytes_eq_some.mpr here]
    dsimp only
    unfold find
    cases cut : Text.cutChars opener text with
    | none =>
      refine .inr ⟨[], rfl, ?_, fun _ member => absurd member List.not_mem_nil⟩
      rintro call (⟨cut', -⟩ | ⟨cut', -⟩)
      · rw [cut] at cut'
        cases cut'
      · rw [cut] at cut'
        cases cut'
    | some parts =>
      obtain ⟨front, after⟩ := parts
      have start := at_of_cutChars here cut
      have opened := start.append
      simp only [Option.map_some, dropBytes_eq_some.mpr opened, getD_findNot opened]
      have width : 0 < (bytes opener).length := by
        obtain ⟨c, others, rfl⟩ := List.exists_cons_of_ne_nil shape
        rw [bytes_cons, List.length_append, String.length_utf8EncodeChar]
        exact Nat.add_pos_left c.utf8Size_pos _
      have split : after.takeWhile classes.isNameChar ++ after.dropWhile classes.isNameChar =
          after := List.takeWhile_append_dropWhile
      have there : At line (i + (bytes front).length + (bytes opener).length +
          (bytes (after.takeWhile classes.isNameChar)).length)
          (after.dropWhile classes.isNameChar) := (split.symm ▸ opened).append
      have shorter : (after.dropWhile classes.isNameChar).length < n := by
        have some : 0 < opener.length := List.length_pos_iff.mpr shape
        have most := (List.dropWhile_suffix classes.isNameChar (l := after)).length_le
        rw [← size, eq_of_cutChars cut, List.length_append, List.length_append]
        omega
      rw [max_eq_left (by omega : i + (bytes front).length + 1 ≤ _)]
      -- Behind the name the scan goes on.
      have rest := ih _ shorter rfl there
      by_cases named : after.takeWhile classes.isNameChar = []
      · have none : ¬i + (bytes front).length + (bytes opener).length <
            i + (bytes front).length + (bytes opener).length +
              (bytes (after.takeWhile classes.isNameChar)).length := by
          rw [named]
          exact lt_irrefl _
        rw [if_neg none, Option.bind_some]
        have same : ∀ call, classes.Dotted opener text call ↔
            classes.Dotted opener (after.dropWhile classes.isNameChar) call := by
          intro call
          rw [classes.dotted_iff cut]
          exact or_iff_right fun both => both.1 named
        rcases rest with ⟨failed, call, listed, unread⟩ | ⟨later, found, fine, spans⟩
        · rw [failed]
          exact .inl ⟨rfl, call, (same call).mpr listed, unread⟩
        · rw [found]
          exact .inr ⟨_, rfl, fun call listed => fine call ((same call).mp listed), spans⟩
      · have long : i + (bytes front).length + (bytes opener).length <
            i + (bytes front).length + (bytes opener).length +
              (bytes (after.takeWhile classes.isNameChar)).length := by
          obtain ⟨c, others, same⟩ := List.exists_cons_of_ne_nil named
          rw [same, bytes_cons, List.length_append, String.length_utf8EncodeChar]
          have := c.utf8Size_pos
          omega
        have whole : At line (i + (bytes front).length)
            ((opener ++ after.takeWhile classes.isNameChar) ++
              after.dropWhile classes.isNameChar) := by
          rw [List.append_assoc, split]
          exact start
        have sliced := whole.slice
        rw [bytes_append, List.length_append, ← Nat.add_assoc] at sliced
        rw [if_pos long, sliced, Option.bind_some]
        by_cases readable :
            classes.Readable (opener ++ after.takeWhile classes.isNameChar)
        · obtain ⟨name, answer⟩ := (classes.envNameFromCall_isSome _).mpr readable
          rw [answer, Option.map_some, Option.bind_some]
          rcases rest with ⟨failed, call, listed, unread⟩ | ⟨later, found, fine, spans⟩
          · rw [failed]
            exact .inl ⟨rfl, call, .later cut listed, unread⟩
          · rw [found]
            refine .inr ⟨_, rfl, fun call listed => ?_, fun token member => ?_⟩
            · rcases (classes.dotted_iff cut).mp listed with ⟨-, rfl⟩ | listed
              · exact readable
              · exact fine call listed
            · rcases List.mem_append.mp member with first | later
              · obtain ⟨text, -, rfl⟩ := Option.map_eq_some_iff.mp (Option.mem_toList.mp first)
                exact ⟨⟨_, start⟩, ⟨_, there⟩, by dsimp only; omega⟩
              · exact spans token later
        · refine .inl ⟨?_, _, .first cut named, readable⟩
          cases answer : classes.envNameFromCall
              (opener ++ after.takeWhile classes.isNameChar) with
          | none => rfl
          | some name =>
            exact absurd ((classes.envNameFromCall_isSome _).mp ⟨name, answer⟩) readable

theorem dottedFrom_nil : ∀ {text : List Char} {i : Nat}, At line i text →
    classes.dottedFrom line [] i = none := by
  intro text
  induction size : text.length using Nat.strong_induction_on generalizing text with
  | h n ih =>
    intro i here
    have cut : Text.cutChars [] text = some ([], text) := by
      cases text <;> rfl
    rw [dottedFrom, dropBytes_eq_some.mpr here]
    dsimp only
    unfold find
    rw [cut]
    simp only [Option.map_some, bytes_nil, List.length_nil, add_zero,
      dropBytes_eq_some.mpr here, getD_findNot here]
    rw [Option.bind_eq_none_iff]
    intro found _
    rw [Option.map_eq_none_iff]
    have split : text.takeWhile classes.isNameChar ++ text.dropWhile classes.isNameChar = text :=
      List.takeWhile_append_dropWhile
    by_cases named : text.takeWhile classes.isNameChar = []
    · rw [named, bytes_nil, List.length_nil, add_zero, max_eq_right (by omega : i ≤ i + 1)]
      cases text with
      | nil =>
        have past : dropBytes line (i + 1) = none := by
          rw [Option.eq_none_iff_forall_ne_some]
          intro rest dropped
          have whole := here.add_length
          have within := (dropBytes_eq_some.mp dropped).le_length
          rw [bytes_nil, List.length_nil] at whole
          omega
        rw [dottedFrom, past]
      | cons c text =>
        by_cases ascii : c.toNat < 128
        · have next := here.next
          rw [utf8Size_ascii ascii] at next
          exact ih text.length (by rw [← size]; exact Nat.lt_succ_self _) rfl next
        · rw [dottedFrom, here.not_inside one_pos (two_le_utf8Size (not_lt.mp ascii))]
    · have long : 0 < (bytes (text.takeWhile classes.isNameChar)).length := by
        obtain ⟨c, others, same⟩ := List.exists_cons_of_ne_nil named
        rw [same, bytes_cons, List.length_append, String.length_utf8EncodeChar]
        exact Nat.add_pos_left c.utf8Size_pos _
      rw [max_eq_left (by omega : i + 1 ≤ _)]
      refine ih _ ?_ rfl (split.symm ▸ here).append
      have some : 0 < (text.takeWhile classes.isNameChar).length := List.length_pos_iff.mpr named
      have lengths := congrArg List.length split
      rw [List.length_append] at lengths
      omega

theorem extractEnvFromLine_spec (line : List Char) (shapes : AnchorShapes) :
    (∃ found, classes.extractEnvFromLine line shapes = some found ∧
        ∀ token ∈ found, IsSpan line token.1) ↔
      [] ∉ shapes.envIdentPrefixes ∧
        ∀ call, classes.Accesses shapes line call → classes.Readable call := by
  have enclosed := fun opener (close : Char) (ascii : close.toNat < 128) =>
    classes.enclosedFrom_spec opener ascii (at_zero line)
  have dotted := fun opener (shape : opener ≠ []) =>
    classes.dottedFrom_spec shape (at_zero line)
  constructor
  · rintro ⟨found, run, -⟩
    obtain ⟨parens, parensRun, run⟩ := Option.bind_eq_some_iff.mp run
    obtain ⟨brackets, bracketsRun, run⟩ := Option.bind_eq_some_iff.mp run
    obtain ⟨idents, identsRun, -⟩ := Option.bind_eq_some_iff.mp run
    have parenEach := (forall₂_mem (mapM_eq_some_iff.mp parensRun)).1
    have bracketEach := (forall₂_mem (mapM_eq_some_iff.mp bracketsRun)).1
    have identEach := (forall₂_mem (mapM_eq_some_iff.mp identsRun)).1
    have shape : [] ∉ shapes.envIdentPrefixes := by
      intro empty
      obtain ⟨tokens, -, scanned⟩ := identEach [] empty
      rw [classes.dottedFrom_nil (at_zero line)] at scanned
      cases scanned
    refine ⟨shape, ?_⟩
    rintro call (⟨opener, listed, access⟩ | ⟨opener, listed, access⟩ | ⟨opener, listed, access⟩)
    · obtain ⟨tokens, -, scanned⟩ := parenEach opener listed
      rcases enclosed opener ')' (by decide) with ⟨failed, -⟩ | ⟨tokens, -, fine, -⟩
      · rw [failed] at scanned
        cases scanned
      · exact fine call access
    · obtain ⟨tokens, -, scanned⟩ := bracketEach opener listed
      rcases enclosed opener ']' (by decide) with ⟨failed, -⟩ | ⟨tokens, -, fine, -⟩
      · rw [failed] at scanned
        cases scanned
      · exact fine call access
    · obtain ⟨tokens, -, scanned⟩ := identEach opener listed
      rcases dotted opener (fun empty => shape (empty ▸ listed)) with
        ⟨failed, -⟩ | ⟨tokens, -, fine, -⟩
      · rw [failed] at scanned
        cases scanned
      · exact fine call access
  · rintro ⟨shape, fine⟩
    have parenEach : ∀ opener ∈ shapes.envParenPrefixes, ∃ tokens,
        classes.enclosedFrom line opener ')' 0 = some tokens ∧
          ∀ token ∈ tokens, IsSpan line token.1 := by
      intro opener listed
      rcases enclosed opener ')' (by decide) with
        ⟨-, call, access, unread⟩ | ⟨tokens, run, -, spans⟩
      · exact absurd (fine call (.inl ⟨opener, listed, access⟩)) unread
      · exact ⟨tokens, run, spans⟩
    have bracketEach : ∀ opener ∈ shapes.envBracketPrefixes, ∃ tokens,
        classes.enclosedFrom line opener ']' 0 = some tokens ∧
          ∀ token ∈ tokens, IsSpan line token.1 := by
      intro opener listed
      rcases enclosed opener ']' (by decide) with
        ⟨-, call, access, unread⟩ | ⟨tokens, run, -, spans⟩
      · exact absurd (fine call (.inr (.inl ⟨opener, listed, access⟩))) unread
      · exact ⟨tokens, run, spans⟩
    have identEach : ∀ opener ∈ shapes.envIdentPrefixes, ∃ tokens,
        classes.dottedFrom line opener 0 = some tokens ∧
          ∀ token ∈ tokens, IsSpan line token.1 := by
      intro opener listed
      rcases dotted opener (fun empty => shape (empty ▸ listed)) with
        ⟨-, call, access, unread⟩ | ⟨tokens, run, -, spans⟩
      · exact absurd (fine call (.inr (.inr ⟨opener, listed, access⟩))) unread
      · exact ⟨tokens, run, spans⟩
    -- Every shape is scanned, and what a scan finds spans the line.
    have together : ∀ {openers : List (List Char)} {scan : List Char → Option (List Token)},
        (∀ opener ∈ openers, ∃ tokens, scan opener = some tokens ∧
          ∀ token ∈ tokens, IsSpan line token.1) →
        ∃ lists, openers.mapM scan = some lists ∧
          ∀ token ∈ lists.flatten, IsSpan line token.1 := by
      intro openers scan each
      obtain ⟨lists, run⟩ := exists_mapM_eq_some fun opener listed =>
        (each opener listed).imp fun _ both => both.1
      refine ⟨lists, run, fun token member => ?_⟩
      obtain ⟨tokens, listed, inside⟩ := List.mem_flatten.mp member
      obtain ⟨opener, shapeOf, scanned⟩ := (forall₂_mem (mapM_eq_some_iff.mp run)).2 tokens listed
      obtain ⟨tokens', scanned', spans⟩ := each opener shapeOf
      rw [scanned', Option.some_inj] at scanned
      exact spans token (scanned ▸ inside)
    obtain ⟨parens, parensRun, parenSpans⟩ := together parenEach
    obtain ⟨brackets, bracketsRun, bracketSpans⟩ := together bracketEach
    obtain ⟨idents, identsRun, identSpans⟩ := together identEach
    unfold extractEnvFromLine
    rw [parensRun, bracketsRun, identsRun]
    refine ⟨_, rfl, fun token member => ?_⟩
    have listed := (List.mem_filter.mp member).1
    rw [List.mem_append, List.mem_append] at listed
    rcases listed with (paren | bracket) | ident
    · exact parenSpans token paren
    · exact bracketSpans token bracket
    · exact identSpans token ident

end CharClasses

/-! ### All scanners -/

/-- **The line scanners come through**: each answers, with spans between characters of the line; the
literals, the bare routes and the identifiers are apart and in order. -/
structure ScansWhole (classes : CharClasses) (shapes : AnchorShapes) (line : List Char) : Prop where
  literals : ∃ found, quotedStrings line = some found ∧ InOrder line 0 found
  routes : ∃ found, unquotedRouteTokens line = some found ∧ InOrder line 0 found
  identifiers : ∃ found, identifierTokens line = some found ∧ InOrder line 0 found
  accesses : ∃ found, classes.extractEnvFromLine line shapes = some found ∧
    ∀ token ∈ found, IsSpan line token.1

/-- **The line scanners come through** exactly when in the literals of the line, and of each access
that the grammar does not know, every backslash stands before a character of ASCII, and no
identifier shape is empty. -/
theorem scansWhole_iff (classes : CharClasses) (shapes : AnchorShapes) (line : List Char) :
    ScansWhole classes shapes line ↔
      escapesAscii .outside line = true ∧ [] ∉ shapes.envIdentPrefixes ∧
        ∀ call, classes.Accesses shapes line call → classes.Readable call := by
  constructor
  · rintro ⟨⟨found, run, -⟩, -, -, accesses⟩
    refine ⟨?_, (classes.extractEnvFromLine_spec line shapes).mp accesses⟩
    rcases quotedFrom_spec (at_zero line) with ⟨failed, -⟩ | ⟨-, -, clean, -⟩
    · rw [quotedStrings, failed] at run
      cases run
    · exact clean
  · rintro ⟨clean, fine⟩
    refine ⟨?_, routesFrom_spec line 0, identifiersFrom_spec line 0,
      (classes.extractEnvFromLine_spec line shapes).mpr fine⟩
    rcases quotedFrom_spec (at_zero line) with ⟨-, stray⟩ | ⟨found, run, -, ordered⟩
    · rw [clean] at stray
      cases stray
    · exact ⟨found, run, ordered⟩

/-- In `"\é"` the scan of the literal stops inside the character. -/
theorem scansWhole_fails :
    ¬∀ (classes : CharClasses) (shapes : AnchorShapes) (line : List Char),
      ScansWhole classes shapes line := by
  intro holds
  obtain ⟨found, run, -⟩ := (holds ⟨Char.isAlphanum, Char.isWhitespace⟩ ⟨[], [], []⟩
    [Char.ofNat 34, Char.ofNat 92, 'é', Char.ofNat 34]).literals
  rcases quotedFrom_spec (at_zero [Char.ofNat 34, Char.ofNat 92, 'é', Char.ofNat 34]) with
    ⟨failed, -⟩ | ⟨-, -, clean, -⟩
  · rw [quotedStrings, failed] at run
    cases run
  · exact absurd clean (by decide)

end Lain.Federation
