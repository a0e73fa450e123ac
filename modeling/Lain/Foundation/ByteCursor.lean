import Mathlib

/-!
# Byte cursors

A position in a text as a number of bytes, and what follows it.
-/

namespace Lain.Foundation.ByteCursor

/-- The bytes of a text. -/
def bytes (text : List Char) : List UInt8 :=
  text.flatMap String.utf8EncodeChar

def dropBytes : List Char → Nat → Option (List Char)
  | text, 0 => some text
  | [], _ + 1 => none
  | c :: text, n + 1 =>
    if c.utf8Size ≤ n + 1 then dropBytes text (n + 1 - c.utf8Size) else none

def takeBytes : List Char → Nat → Option (List Char)
  | _, 0 => some []
  | [], _ + 1 => none
  | c :: text, n + 1 =>
    if c.utf8Size ≤ n + 1 then (takeBytes text (n + 1 - c.utf8Size)).map (c :: ·) else none

/-- A text from one position to another, if both are between two characters. -/
def slice (text : List Char) (a b : Nat) : Option (List Char) :=
  if a ≤ b then (dropBytes text a).bind fun rest => takeBytes rest (b - a) else none

/-- A text goes on like this at a position. -/
def At (text : List Char) (i : Nat) (rest : List Char) : Prop :=
  ∃ front, text = front ++ rest ∧ (bytes front).length = i

variable {text rest : List Char} {i : Nat}

@[simp] theorem bytes_nil : bytes [] = [] := rfl

@[simp] theorem bytes_cons (c : Char) (text : List Char) :
    bytes (c :: text) = String.utf8EncodeChar c ++ bytes text :=
  List.flatMap_cons

@[simp] theorem bytes_append (front back : List Char) :
    bytes (front ++ back) = bytes front ++ bytes back :=
  List.flatMap_append

/-! ### Slices -/

theorem dropBytes_eq_some :
    dropBytes text i = some rest ↔ At text i rest := by
  unfold At
  induction text generalizing i with
  | nil =>
    cases i with
    | zero =>
      rw [dropBytes, Option.some_inj]
      constructor
      · rintro rfl
        exact ⟨[], rfl, rfl⟩
      · rintro ⟨front, whole, -⟩
        exact whole.trans (by simp [(List.nil_eq_append_iff.mp whole).1])
    | succ n =>
      refine iff_of_false (fun same => by cases same) ?_
      rintro ⟨front, whole, size⟩
      rw [(List.nil_eq_append_iff.mp whole).1] at size
      cases size
  | cons c text ih =>
    have width := c.utf8Size_pos
    cases i with
    | zero =>
      rw [dropBytes, Option.some_inj]
      constructor
      · rintro rfl
        exact ⟨[], rfl, rfl⟩
      · rintro ⟨front, whole, size⟩
        cases front with
        | nil => exact whole
        | cons d front =>
          have wide := d.utf8Size_pos
          rw [bytes_cons, List.length_append, String.length_utf8EncodeChar] at size
          omega
    | succ n =>
      rw [dropBytes]
      constructor
      · intro found
        split_ifs at found with fits
        obtain ⟨front, rfl, size⟩ := ih.mp found
        refine ⟨c :: front, rfl, ?_⟩
        rw [bytes_cons, List.length_append, String.length_utf8EncodeChar]
        omega
      · rintro ⟨front, whole, size⟩
        cases front with
        | nil => cases size
        | cons d front =>
          obtain ⟨rfl, rfl⟩ := List.cons.inj whole
          rw [bytes_cons, List.length_append, String.length_utf8EncodeChar] at size
          rw [if_pos (by omega)]
          exact ih.mpr ⟨front, rfl, by omega⟩

theorem takeBytes_append (front rest : List Char) :
    takeBytes (front ++ rest) (bytes front).length = some front := by
  induction front with
  | nil => cases rest <;> rfl
  | cons c front ih =>
    have width := c.utf8Size_pos
    obtain ⟨n, size⟩ : ∃ n, (bytes (c :: front)).length = n + 1 := by
      refine ⟨(bytes (c :: front)).length - 1, ?_⟩
      rw [bytes_cons, List.length_append, String.length_utf8EncodeChar]
      omega
    have left : n + 1 - c.utf8Size = (bytes front).length := by
      rw [← size, bytes_cons, List.length_append, String.length_utf8EncodeChar]
      omega
    have fits : c.utf8Size ≤ n + 1 := by
      rw [← size, bytes_cons, List.length_append, String.length_utf8EncodeChar]
      omega
    rw [size, List.cons_append, takeBytes, if_pos fits, left, ih]
    rfl

theorem exists_append_of_takeBytes {front : List Char} (found : takeBytes text i = some front) :
    ∃ rest, text = front ++ rest ∧ (bytes front).length = i := by
  induction text generalizing i front with
  | nil =>
    cases i with
    | zero =>
      obtain rfl := Option.some_inj.mp found
      exact ⟨[], rfl, rfl⟩
    | succ n => cases found
  | cons c text ih =>
    cases i with
    | zero =>
      obtain rfl := Option.some_inj.mp found
      exact ⟨c :: text, rfl, rfl⟩
    | succ n =>
      rw [takeBytes] at found
      split_ifs at found with fits
      obtain ⟨front, taken, rfl⟩ := Option.map_eq_some_iff.mp found
      obtain ⟨rest, rfl, size⟩ := ih taken
      refine ⟨rest, rfl, ?_⟩
      rw [bytes_cons, List.length_append, String.length_utf8EncodeChar]
      omega

theorem at_zero (text : List Char) : At text 0 text := ⟨[], rfl, rfl⟩

theorem At.append {front : List Char} (here : At text i (front ++ rest)) :
    At text (i + (bytes front).length) rest := by
  obtain ⟨before, rfl, rfl⟩ := here
  exact ⟨before ++ front, (List.append_assoc _ _ _).symm, by
    rw [bytes_append, List.length_append]⟩

theorem At.add_length (here : At text i rest) :
    i + (bytes rest).length = (bytes text).length := by
  obtain ⟨front, rfl, rfl⟩ := here
  rw [bytes_append, List.length_append]

theorem At.le_length (here : At text i rest) : i ≤ (bytes text).length :=
  Nat.le.intro here.add_length

theorem At.drop_bytes (here : At text i rest) : (bytes text).drop i = bytes rest := by
  obtain ⟨front, rfl, rfl⟩ := here
  rw [bytes_append, List.drop_left]

theorem At.getElem? (here : At text i rest) (k : Nat) :
    (bytes text)[i + k]? = (bytes rest)[k]? := by
  rw [← here.drop_bytes, List.getElem?_drop]

theorem At.slice {front : List Char} (here : At text i (front ++ rest)) :
    slice text i (i + (bytes front).length) = some front := by
  unfold ByteCursor.slice
  rw [if_pos (Nat.le_add_right _ _), dropBytes_eq_some.mpr here, Option.bind_some,
    Nat.add_sub_cancel_left, takeBytes_append]

theorem At.add_iff (here : At text i rest) {k : Nat} {later : List Char} :
    At text (i + k) later ↔ At rest k later := by
  obtain ⟨front, rfl, rfl⟩ := here
  constructor
  · rintro ⟨before, whole, size⟩
    rcases List.append_eq_append_iff.mp whole with ⟨more, rfl, rfl⟩ | ⟨more, rfl, rfl⟩
    · refine ⟨more, rfl, ?_⟩
      rw [bytes_append, List.length_append] at size
      omega
    · rw [bytes_append, List.length_append] at size
      have none : (bytes more).length = 0 := by omega
      cases more with
      | nil => exact ⟨[], rfl, by simp at size; omega⟩
      | cons c more =>
        have width := c.utf8Size_pos
        rw [bytes_cons, List.length_append, String.length_utf8EncodeChar] at none
        omega
  · rintro ⟨before, rfl, rfl⟩
    exact ⟨front ++ before, (List.append_assoc _ _ _).symm, by
      rw [bytes_append, List.length_append]⟩

theorem At.exists_slice {j : Nat} {after : List Char} (here : At text i rest)
    (there : At text j after) (ordered : i ≤ j) :
    ∃ front, ByteCursor.slice text i j = some front ∧ rest = front ++ after := by
  obtain ⟨k, rfl⟩ := Nat.exists_eq_add_of_le ordered
  obtain ⟨front, rfl, rfl⟩ := here.add_iff.mp there
  exact ⟨front, here.slice, rfl⟩

theorem At.not_inside {c : Char} (here : At text i (c :: rest)) {k : Nat} (into : 0 < k)
    (inside : k < c.utf8Size) : dropBytes text (i + k) = none := by
  rw [Option.eq_none_iff_forall_ne_some]
  intro later found
  have within := dropBytes_eq_some.mpr (here.add_iff.mp (dropBytes_eq_some.mp found))
  obtain ⟨n, rfl⟩ := Nat.exists_eq_succ_of_ne_zero into.ne'
  rw [dropBytes, if_neg (by omega)] at within
  cases within

/-! ### Bytes of the first half -/

theorem utf8EncodeChar_ascii {c : Char} (ascii : c.toNat < 128) :
    String.utf8EncodeChar c = [c.val.toUInt8] := by
  refine String.utf8EncodeChar_eq_singleton ?_
  rw [Char.utf8Size, if_pos]
  exact UInt32.le_iff_toNat_le.mpr (Nat.le_of_lt_succ ascii)

theorem toNat_toUInt8 {c : Char} (ascii : c.toNat < 128) : c.val.toUInt8.toNat = c.toNat := by
  change c.val.toNat % 256 = c.val.toNat
  exact Nat.mod_eq_of_lt (lt_trans ascii (by decide))

theorem le_toNat_of_mem {c : Char} (wide : 128 ≤ c.toNat) {b : UInt8}
    (member : b ∈ String.utf8EncodeChar c) : 128 ≤ b.toNat := by
  unfold String.utf8EncodeChar at member
  have size : c.val.toNat < 0x110000 := by
    rcases c.valid with small | ⟨-, large⟩
    · exact lt_trans small (by decide)
    · exact large
  have value : 128 ≤ c.val.toNat := wide
  simp only at member
  split_ifs at member with one two three
  · omega
  all_goals
    simp only [List.mem_cons, List.not_mem_nil, or_false] at member
    rcases member with rfl | rfl | rfl | rfl <;>
      simp only [UInt8.toNat_ofNat'] <;> omega

theorem two_le_utf8Size {c : Char} (wide : 128 ≤ c.toNat) : 2 ≤ c.utf8Size := by
  have width := c.utf8Size_pos
  by_contra narrow
  have single := String.utf8EncodeChar_eq_singleton (c := c) (by omega)
  have one : c.utf8Size = 1 := by omega
  have small := Char.utf8Size_eq_one_iff.mp one
  have value : c.val.toNat ≤ 127 := UInt32.le_iff_toNat_le.mp small
  have : 128 ≤ c.val.toNat := wide
  omega

theorem exists_at {b : UInt8} (found : (bytes text)[i]? = some b) (ascii : b.toNat < 128) :
    ∃ c rest, At text i (c :: rest) ∧ c.toNat < 128 ∧ c.val.toUInt8 = b := by
  induction text generalizing i with
  | nil => cases found
  | cons d text ih =>
    rw [bytes_cons] at found
    by_cases inside : i < (String.utf8EncodeChar d).length
    · rw [List.getElem?_append_left inside] at found
      have member := List.mem_of_getElem? found
      by_cases wide : 128 ≤ d.toNat
      · exact absurd (le_toNat_of_mem wide member) (by omega)
      · have narrow : d.toNat < 128 := by omega
        rw [utf8EncodeChar_ascii narrow] at inside member
        have first : i = 0 := Nat.lt_one_iff.mp inside
        subst first
        exact ⟨d, text, at_zero _, narrow, (List.mem_singleton.mp member).symm⟩
    · rw [List.getElem?_append_right (not_lt.mp inside)] at found
      obtain ⟨c, rest, ⟨front, rfl, size⟩, narrow, same⟩ := ih found
      refine ⟨c, rest, ⟨d :: front, rfl, ?_⟩, narrow, same⟩
      rw [bytes_cons, List.length_append, size]
      omega

theorem At.ascii {c : Char} (here : At text i (c :: rest)) (ascii : c.toNat < 128) :
    (bytes text)[i]? = some c.val.toUInt8 := by
  have first := here.getElem? 0
  rw [bytes_cons, utf8EncodeChar_ascii ascii] at first
  exact first

theorem At.next {c : Char} (here : At text i (c :: rest)) : At text (i + c.utf8Size) rest := by
  have later : At text (i + (bytes [c]).length) rest := here.append
  rwa [bytes_cons, bytes_nil, List.append_nil, String.length_utf8EncodeChar] at later

theorem utf8Size_ascii {c : Char} (ascii : c.toNat < 128) : c.utf8Size = 1 := by
  rw [← String.length_utf8EncodeChar, utf8EncodeChar_ascii ascii, List.length_singleton]

theorem At.lt_length {c : Char} (here : At text i (c :: rest)) : i < (bytes text).length := by
  have whole := here.add_length
  have width := c.utf8Size_pos
  rw [bytes_cons, List.length_append, String.length_utf8EncodeChar] at whole
  omega

theorem At.le_toNat {c : Char} (here : At text i (c :: rest)) (wide : 128 ≤ c.toNat) {k : Nat}
    (inside : k < c.utf8Size) {b : UInt8} (found : (bytes text)[i + k]? = some b) :
    128 ≤ b.toNat := by
  rw [here.getElem?, bytes_cons,
    List.getElem?_append_left (by rwa [String.length_utf8EncodeChar])] at found
  exact le_toNat_of_mem wide (List.mem_of_getElem? found)

theorem At.getElem_eq_iff {c d : Char} (here : At text i (c :: rest)) (ascii : d.toNat < 128)
    (inside : i < (bytes text).length) : (bytes text)[i] = d.val.toUInt8 ↔ c = d := by
  constructor
  · intro same
    by_cases wide : 128 ≤ c.toNat
    · have high := here.le_toNat wide c.utf8Size_pos
        (List.getElem?_eq_getElem inside : (bytes text)[i + 0]? = _)
      rw [same, toNat_toUInt8 ascii] at high
      omega
    · have narrow : c.toNat < 128 := by omega
      have found := here.ascii narrow
      rw [List.getElem?_eq_getElem inside, same, Option.some_inj] at found
      have values := congrArg UInt8.toNat found
      rw [toNat_toUInt8 ascii, toNat_toUInt8 narrow] at values
      exact Char.ext (UInt32.toNat_inj.mp values.symm)
  · rintro rfl
    exact List.getElem_eq_iff inside |>.mpr (here.ascii ascii)

theorem At.exists_run {n : Nat} (here : At text i rest) (within : n ≤ (bytes rest).length)
    (ascii : ∀ b ∈ (bytes rest).take n, b.toNat < 128) :
    ∃ run after, rest = run ++ after ∧ (bytes run).length = n := by
  induction n generalizing i rest with
  | zero => exact ⟨[], rest, rfl, rfl⟩
  | succ n ih =>
    cases rest with
    | nil => exact absurd within (Nat.not_succ_le_zero n)
    | cons c rest =>
      have narrow : c.toNat < 128 := by
        by_contra wide
        obtain ⟨b, others, encoded⟩ := List.exists_cons_of_ne_nil
          (String.utf8EncodeChar_ne_nil (c := c))
        have first : b ∈ (bytes (c :: rest)).take (n + 1) := by
          rw [bytes_cons, encoded]
          exact List.mem_cons_self
        have high := le_toNat_of_mem (not_lt.mp wide) (encoded ▸ List.mem_cons_self)
        exact absurd (ascii b first) (by omega)
      rw [bytes_cons, utf8EncodeChar_ascii narrow] at within ascii
      obtain ⟨run, after, rfl, size⟩ := ih here.next (Nat.le_of_succ_le_succ within)
        fun b member => ascii b (List.mem_cons_of_mem _ member)
      refine ⟨c :: run, after, rfl, ?_⟩
      rw [bytes_cons, utf8EncodeChar_ascii narrow, List.singleton_append, List.length_cons,
        size]

theorem toUInt8_eq_iff {c d : Char} (narrow : c.toNat < 128) (ascii : d.toNat < 128) :
    c.val.toUInt8 = d.val.toUInt8 ↔ c = d := by
  refine ⟨fun same => ?_, fun same => by rw [same]⟩
  have values := congrArg UInt8.toNat same
  rw [toNat_toUInt8 ascii, toNat_toUInt8 narrow] at values
  exact Char.toNat_inj.mp values

theorem length_takeWhile_bytes {p : Char → Bool} {q : UInt8 → Bool}
    (narrow : ∀ c, p c = true → c.toNat < 128) (small : ∀ b, q b = true → b.toNat < 128)
    (same : ∀ c : Char, c.toNat < 128 → q c.val.toUInt8 = p c) (rest : List Char) :
    ((bytes rest).takeWhile q).length = (rest.takeWhile p).length ∧
      (bytes (rest.takeWhile p)).length = (rest.takeWhile p).length := by
  induction rest with
  | nil => exact ⟨rfl, rfl⟩
  | cons c rest ih =>
    by_cases ascii : c.toNat < 128
    · rw [bytes_cons, utf8EncodeChar_ascii ascii, List.singleton_append, List.takeWhile_cons,
        List.takeWhile_cons, same c ascii]
      cases p c with
      | false => exact ⟨rfl, rfl⟩
      | true =>
        simp only [if_true, bytes_cons, utf8EncodeChar_ascii ascii, List.singleton_append,
          List.length_cons, ih.1, ih.2, and_self]
    · obtain ⟨b, others, encoded⟩ := List.exists_cons_of_ne_nil
        (String.utf8EncodeChar_ne_nil (c := c))
      have high := le_toNat_of_mem (not_lt.mp ascii) (encoded ▸ List.mem_cons_self)
      rw [bytes_cons, encoded, List.cons_append,
        List.takeWhile_cons_of_neg (fun taken => absurd (small b taken) (not_lt.mpr high)),
        List.takeWhile_cons_of_neg (fun taken => ascii (narrow c taken))]
      exact ⟨rfl, rfl⟩

/-! ### Spans -/

structure IsSpan (text : List Char) (span : Nat × Nat) : Prop where
  start : ∃ rest, At text span.1 rest
  stop : ∃ rest, At text span.2 rest
  ordered : span.1 ≤ span.2

structure InOrder {α : Type*} (text : List Char) (i : Nat) (spans : List ((Nat × Nat) × α)) :
    Prop where
  whole : ∀ span ∈ spans, IsSpan text span.1
  after : ∀ span ∈ spans, i ≤ span.1.1
  apart : spans.Pairwise fun a b => a.1.2 ≤ b.1.1

section Spans

variable {α : Type*} {spans : List ((Nat × Nat) × α)} {j : Nat}

theorem inOrder_nil (text : List Char) (i : Nat) :
    InOrder text i ([] : List ((Nat × Nat) × α)) :=
  ⟨fun _ member => absurd member List.not_mem_nil, fun _ member => absurd member List.not_mem_nil,
    .nil⟩

theorem InOrder.weaken (ordered : InOrder text j spans) (before : i ≤ j) :
    InOrder text i spans :=
  ⟨ordered.whole, fun span member => before.trans (ordered.after span member), ordered.apart⟩

theorem InOrder.cons {stop : Nat} (ordered : InOrder text j spans) (whole : IsSpan text (i, stop))
    (before : stop ≤ j) (found : α) : InOrder text i (((i, stop), found) :: spans) where
  whole span member := by
    rcases List.mem_cons.mp member with rfl | later
    · exact whole
    · exact ordered.whole span later
  after span member := by
    rcases List.mem_cons.mp member with rfl | later
    · exact le_refl i
    · exact whole.ordered.trans (before.trans (ordered.after span later))
  apart := List.pairwise_cons.mpr
    ⟨fun span member => before.trans (ordered.after span member), ordered.apart⟩

end Spans

end Lain.Foundation.ByteCursor
