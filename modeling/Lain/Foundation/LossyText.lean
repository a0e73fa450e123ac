import Mathlib
import Lain.Foundation.ByteCursor

/-!
# Bytes read as text

Bytes read as UTF-8 from one end to the other.
-/

namespace Lain.Foundation.LossyText

open ByteCursor (bytes)

structure Begun where
  later : Nat
  low : Nat
  high : Nat
  bits : Nat

/-- What a byte begins. -/
inductive First where
  | whole (c : Char)
  | begun (b : Begun)
  | nothing

def replacement : Char := Char.ofNat 0xFFFD

/-- What a byte begins: overlong forms, surrogates and values past the last character begin
nothing that can be finished. -/
def first (b : UInt8) : First :=
  if b.toNat < 0x80 then .whole (Char.ofNat b.toNat)
  else if b.toNat < 0xC2 then .nothing
  else if b.toNat < 0xE0 then .begun ⟨0, 0x80, 0xBF, b.toNat - 0xC0⟩
  else if b.toNat < 0xF0 then
    .begun ⟨1, if b.toNat = 0xE0 then 0xA0 else 0x80, if b.toNat = 0xED then 0x9F else 0xBF,
      b.toNat - 0xE0⟩
  else if b.toNat < 0xF5 then
    .begun ⟨2, if b.toNat = 0xF0 then 0x90 else 0x80, if b.toNat = 0xF4 then 0x8F else 0xBF,
      b.toNat - 0xF0⟩
  else .nothing

def begin (b : UInt8) (goOn : Option Begun → List Char) : List Char :=
  match first b with
  | .whole c => c :: goOn none
  | .begun s => goOn (some s)
  | .nothing => replacement :: goOn none

def readFrom : Option Begun → List UInt8 → List Char
  | none, [] => []
  | some _, [] => [replacement]
  | none, b :: rest => begin b fun s => readFrom s rest
  | some s, b :: rest =>
    if s.low ≤ b.toNat ∧ b.toNat ≤ s.high then
      match s.later with
      | 0 => Char.ofNat (s.bits * 0x40 + (b.toNat - 0x80)) :: readFrom none rest
      | n + 1 => readFrom (some ⟨n, 0x80, 0xBF, s.bits * 0x40 + (b.toNat - 0x80)⟩) rest
    else replacement :: begin b fun s => readFrom s rest

def fromUtf8Lossy (l : List UInt8) : List Char :=
  readFrom none l

private theorem ofNat_toNat (c : Char) (n : Nat) (same : n = c.val.toNat) : Char.ofNat n = c := by
  subst same
  exact Char.ofNat_toNat c

theorem readFrom_utf8EncodeChar (c : Char) (rest : List UInt8) :
    readFrom none (String.utf8EncodeChar c ++ rest) = c :: readFrom none rest := by
  have valid := c.valid
  have size : c.val.toNat < 0xD800 ∨ 0xDFFF < c.val.toNat ∧ c.val.toNat < 0x110000 := valid
  unfold String.utf8EncodeChar
  simp only
  split_ifs with one two three
  · rw [List.singleton_append, readFrom, begin, first]
    simp only [UInt8.toNat_ofNat']
    rw [if_pos (by omega)]
    simp only [List.cons.injEq, and_true]
    exact ofNat_toNat c _ (by omega)
  · simp only [List.cons_append, List.nil_append]
    rw [readFrom, begin, first]
    simp only [UInt8.toNat_ofNat']
    rw [if_neg (by omega), if_neg (by omega), if_pos (by omega)]
    simp only
    rw [readFrom]
    simp only [UInt8.toNat_ofNat']
    rw [if_pos (by omega)]
    simp only [List.cons.injEq, and_true]
    exact ofNat_toNat c _ (by omega)
  · simp only [List.cons_append, List.nil_append]
    rw [readFrom, begin, first]
    simp only [UInt8.toNat_ofNat']
    rw [if_neg (by omega), if_neg (by omega), if_neg (by omega), if_pos (by omega)]
    simp only
    rw [readFrom]
    simp only [UInt8.toNat_ofNat']
    rw [if_pos (by split_ifs <;> omega)]
    rw [readFrom]
    simp only [UInt8.toNat_ofNat']
    rw [if_pos (by omega)]
    simp only [List.cons.injEq, and_true]
    exact ofNat_toNat c _ (by omega)
  · simp only [List.cons_append, List.nil_append]
    rw [readFrom, begin, first]
    simp only [UInt8.toNat_ofNat']
    rw [if_neg (by omega), if_neg (by omega), if_neg (by omega), if_neg (by omega),
      if_pos (by omega)]
    simp only
    rw [readFrom]
    simp only [UInt8.toNat_ofNat']
    rw [if_pos (by split_ifs <;> omega)]
    rw [readFrom]
    simp only [UInt8.toNat_ofNat']
    rw [if_pos (by omega), readFrom]
    simp only [UInt8.toNat_ofNat']
    rw [if_pos (by omega)]
    simp only [List.cons.injEq, and_true]
    exact ofNat_toNat c _ (by omega)

theorem fromUtf8Lossy_bytes (text : List Char) : fromUtf8Lossy (bytes text) = text := by
  unfold fromUtf8Lossy
  induction text with
  | nil => rfl
  | cons c text ih => rw [ByteCursor.bytes_cons, readFrom_utf8EncodeChar, ih]

/-- A first byte that nothing finishes, and a byte that begins nothing, are replaced. -/
example : fromUtf8Lossy [0xE2, 0x82, 0x41, 0xFF] = [replacement, 'A', replacement] := by decide

end Lain.Foundation.LossyText
