import Mathlib
import Lain.Foundation.ByteCursor

/-!
# Filters of text

A filter reads a text once and keeps or drops each element.
-/

namespace Lain.Foundation

open ByteCursor (bytes)

structure TextFilter (μ σ : Type) where
  plain : σ → Bool × σ
  mark : σ → μ → List μ → Bool × σ
  stable : ∀ s, plain (plain s).2 = plain s

namespace TextFilter

variable {μ σ τ α : Type}

def ahead (cls : α → Option μ) : List α → List μ
  | [] => []
  | x :: rest =>
    match cls x with
    | none => []
    | some m => m :: ahead cls rest

def step (f : TextFilter μ σ) (cls : α → Option μ) (s : σ) (x : α) (rest : List α) : Bool × σ :=
  match cls x with
  | none => f.plain s
  | some m => f.mark s m (ahead cls rest)

/-- What the filter keeps. -/
def run (f : TextFilter μ σ) (cls : α → Option μ) : σ → List α → List α
  | _, [] => []
  | s, x :: rest =>
    if (f.step cls s x rest).1 then x :: run f cls (f.step cls s x rest).2 rest
    else run f cls (f.step cls s x rest).2 rest

def Agree (f : TextFilter μ σ) (g : TextFilter μ τ) (cls : α → Option μ) : σ → τ → List α → Prop
  | _, _, [] => True
  | s, t, x :: rest =>
    (f.step cls s x rest).1 = (g.step cls t x rest).1 ∧
      Agree f g cls (f.step cls s x rest).2 (g.step cls t x rest).2 rest

def AlignedAt (here : List α → Prop) (p : σ → Prop) (q : τ → Prop) (f : TextFilter μ σ)
    (g : TextFilter μ τ) (cls : α → Option μ) : σ → τ → List α → Prop
  | _, _, [] => True
  | s, t, x :: rest =>
    (here (x :: rest) → (p s ↔ q t)) ∧
      AlignedAt here p q f g cls (f.step cls s x rest).2 (g.step cls t x rest).2 rest

variable {f : TextFilter μ σ} {g : TextFilter μ τ} {cls : α → Option μ}

theorem step_none {s : σ} {x : α} {rest : List α} (plain : cls x = none) :
    f.step cls s x rest = f.plain s := by
  unfold step
  rw [plain]

theorem step_some {s : σ} {x : α} {rest : List α} {m : μ} (marked : cls x = some m) :
    f.step cls s x rest = f.mark s m (ahead cls rest) := by
  unfold step
  rw [marked]

theorem run_eq_of_agree {s : σ} {t : τ} {l : List α} (agree : Agree f g cls s t l) :
    f.run cls s l = g.run cls t l := by
  induction l generalizing s t with
  | nil => rfl
  | cons x rest ih =>
    obtain ⟨same, later⟩ := agree
    rw [run, run, same, ih later]

theorem agree_of_run_eq {Rel : σ → τ → Prop}
    (keep : ∀ {s t x rest}, Rel s t → (f.step cls s x rest).1 = (g.step cls t x rest).1 →
      Rel (f.step cls s x rest).2 (g.step cls t x rest).2)
    (apart : ∀ {s t x rest}, Rel s t → (f.step cls s x rest).1 ≠ (g.step cls t x rest).1 →
      f.run cls s (x :: rest) ≠ g.run cls t (x :: rest))
    {s : σ} {t : τ} {l : List α} (rel : Rel s t) (same : f.run cls s l = g.run cls t l) :
    Agree f g cls s t l := by
  induction l generalizing s t with
  | nil => trivial
  | cons x rest ih =>
    by_cases flags : (f.step cls s x rest).1 = (g.step cls t x rest).1
    · refine ⟨flags, ih (keep rel flags) ?_⟩
      rw [run, run, flags] at same
      split_ifs at same
      · exact (List.cons.inj same).2
      · exact same
    · exact absurd same (apart rel flags)

theorem agree_iff_alignedAt {Rel : σ → τ → Prop} {here : List α → Prop} {p : σ → Prop}
    {q : τ → Prop}
    (keep : ∀ {s t x rest}, Rel s t → (f.step cls s x rest).1 = (g.step cls t x rest).1 →
      Rel (f.step cls s x rest).2 (g.step cls t x rest).2)
    (flags : ∀ {s t x rest}, Rel s t → ((f.step cls s x rest).1 = (g.step cls t x rest).1 ↔
      (here (x :: rest) → (p s ↔ q t))))
    {s : σ} {t : τ} {l : List α} (rel : Rel s t) :
    Agree f g cls s t l ↔ AlignedAt here p q f g cls s t l := by
  induction l generalizing s t with
  | nil => exact Iff.rfl
  | cons x rest ih =>
    rw [Agree, AlignedAt, flags rel]
    exact and_congr_right fun aligned => ih (keep rel ((flags rel).mpr aligned))

/-! ### Bytes and characters -/

def byteMark (charMark : Char → Option μ) (b : UInt8) : Option μ :=
  if b.toNat < 128 then charMark (Char.ofNat b.toNat) else none

variable {charMark : Char → Option μ}

theorem byteMark_ascii {c : Char} (narrow : c.toNat < 128) :
    byteMark charMark c.val.toUInt8 = charMark c := by
  unfold byteMark
  rw [ByteCursor.toNat_toUInt8 narrow, if_pos narrow, Char.ofNat_toNat]

theorem byteMark_wide {b : UInt8} (wide : 128 ≤ b.toNat) : byteMark charMark b = none :=
  if_neg (by omega)

theorem ahead_bytes (ascii : ∀ c, 128 ≤ c.toNat → charMark c = none) (text : List Char) :
    ahead (byteMark charMark) (bytes text) = ahead charMark text := by
  induction text with
  | nil => rfl
  | cons c text ih =>
    by_cases wide : 128 ≤ c.toNat
    · obtain ⟨b, others, encoded⟩ := List.exists_cons_of_ne_nil
        (String.utf8EncodeChar_ne_nil (c := c))
      have high := ByteCursor.le_toNat_of_mem wide (encoded ▸ List.mem_cons_self)
      rw [ByteCursor.bytes_cons, encoded, List.cons_append, ahead, byteMark_wide high, ahead,
        ascii c wide]
    · have narrow : c.toNat < 128 := by omega
      rw [ByteCursor.bytes_cons, ByteCursor.utf8EncodeChar_ascii narrow, List.singleton_append,
        ahead, byteMark_ascii narrow, ahead, ih]

theorem run_wide {bs : List UInt8} (filled : bs ≠ []) (wide : ∀ b ∈ bs, 128 ≤ b.toNat) (s : σ)
    (rest : List UInt8) :
    f.run (byteMark charMark) s (bs ++ rest) =
      if (f.plain s).1 then bs ++ f.run (byteMark charMark) (f.plain s).2 rest
      else f.run (byteMark charMark) (f.plain s).2 rest := by
  induction bs generalizing s with
  | nil => exact absurd rfl filled
  | cons b bs ih =>
    obtain ⟨now, later⟩ := List.forall_mem_cons.mp wide
    have plain : ∀ rest, f.step (byteMark charMark) s b rest = f.plain s := fun rest =>
      step_none (byteMark_wide now)
    rw [List.cons_append, run, plain]
    cases bs with
    | nil => rfl
    | cons c bs =>
      rw [ih (List.cons_ne_nil c bs) later, f.stable]
      split_ifs <;> rfl

/-- **Filtering the bytes of a text** is filtering its characters. -/
theorem run_bytes (ascii : ∀ c, 128 ≤ c.toNat → charMark c = none) (s : σ) (text : List Char) :
    f.run (byteMark charMark) s (bytes text) = bytes (f.run charMark s text) := by
  induction text generalizing s with
  | nil => rfl
  | cons c text ih =>
    by_cases wide : 128 ≤ c.toNat
    · have plain : f.step charMark s c text = f.plain s := step_none (ascii c wide)
      rw [ByteCursor.bytes_cons, run_wide String.utf8EncodeChar_ne_nil fun b member =>
        ByteCursor.le_toNat_of_mem wide member, ih, run, plain]
      split_ifs
      · rw [ByteCursor.bytes_cons]
      · rfl
    · have narrow : c.toNat < 128 := by omega
      have step_ : f.step (byteMark charMark) s c.val.toUInt8 (bytes text) =
          f.step charMark s c text := by
        unfold step
        rw [byteMark_ascii narrow, ahead_bytes ascii]
      rw [ByteCursor.bytes_cons, ByteCursor.utf8EncodeChar_ascii narrow, List.singleton_append,
        run, step_, ih, run]
      split_ifs
      · rw [ByteCursor.bytes_cons, ByteCursor.utf8EncodeChar_ascii narrow,
          List.singleton_append]
      · rfl

end TextFilter

end Lain.Foundation
