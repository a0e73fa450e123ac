import Mathlib

/-!
# Spending from a balance that grows

A balance grows with time up to a cap and pays for what a run of events takes; an event may also be
granted something.
-/

namespace Lain.Foundation

variable {ε : Type*} {time taken granted : ε → ℚ} {cap rate : ℚ}

inductive Pays (time taken granted : ε → ℚ) (cap rate : ℚ) : ℚ → ℚ → List ε → Prop where
  | nil {balance since : ℚ} : Pays time taken granted cap rate balance since []
  | cons {balance since next : ℚ} {e : ε} {events : List ε} : since ≤ time e → 0 ≤ next →
      taken e + next ≤ min cap (balance + rate * (time e - since)) + granted e →
      Pays time taken granted cap rate next (time e) events →
      Pays time taken granted cap rate balance since (e :: events)

def within (time amount : ε → ℚ) (a b : ℚ) (events : List ε) : ℚ :=
  ((events.filter fun e => decide (a ≤ time e ∧ time e ≤ b)).map amount).sum

theorem within_cons (amount : ε → ℚ) (a b : ℚ) (e : ε) (events : List ε) :
    within time amount a b (e :: events) =
      (if a ≤ time e ∧ time e ≤ b then amount e else 0) + within time amount a b events := by
  unfold within
  by_cases inside : a ≤ time e ∧ time e ≤ b
  · rw [List.filter_cons_of_pos (by simpa using inside), if_pos inside, List.map_cons,
      List.sum_cons]
  · rw [List.filter_cons_of_neg (by simpa using inside), if_neg inside, zero_add]

theorem Pays.le_time {balance since : ℚ} {events : List ε}
    (pays : Pays time taken granted cap rate balance since events) :
    ∀ e ∈ events, since ≤ time e := by
  induction pays with
  | nil => exact fun e member => absurd member List.not_mem_nil
  | cons ordered _ _ _ ih =>
    intro e member
    rcases List.mem_cons.mp member with rfl | later
    · exact ordered
    · exact ordered.trans (ih e later)

theorem within_of_lt {balance since : ℚ} {events : List ε}
    (pays : Pays time taken granted cap rate balance since events) (amount : ε → ℚ) {a b : ℚ}
    (before : b < since) : within time amount a b events = 0 := by
  unfold within
  rw [List.filter_eq_nil_iff.mpr, List.map_nil, List.sum_nil]
  intro e member inside
  exact absurd ((of_decide_eq_true inside).2.trans_lt before) (pays.le_time e member).not_gt

theorem Pays.within_le {balance since : ℚ} {events : List ε}
    (pays : Pays time taken granted cap rate balance since events) (grows : 0 ≤ rate)
    (nonneg : 0 ≤ balance) {a b : ℚ} (begun : a ≤ since) (ends : since ≤ b) :
    within time taken a b events ≤
      balance + rate * (b - since) + within time granted a b events := by
  have more : 0 ≤ rate * (b - since) := mul_nonneg grows (sub_nonneg.mpr ends)
  induction pays with
  | nil =>
    simp only [within, List.filter_nil, List.map_nil, List.sum_nil, add_zero]
    exact add_nonneg nonneg more
  | @cons balance since next e events ordered left paid later ih =>
    rw [within_cons, within_cons]
    by_cases inside : time e ≤ b
    · have rest := ih left (begun.trans ordered) inside
        (mul_nonneg grows (sub_nonneg.mpr inside))
      rw [if_pos ⟨begun.trans ordered, inside⟩, if_pos ⟨begun.trans ordered, inside⟩]
      have grown := min_le_right cap (balance + rate * (time e - since))
      have split : rate * (b - since) = rate * (b - time e) + rate * (time e - since) := by
        ring
      linarith
    · rw [if_neg fun both => inside both.2, if_neg fun both => inside both.2,
        within_of_lt later taken (not_le.mp inside), within_of_lt later granted (not_le.mp inside)]
      linarith

theorem Pays.within_span_le {balance since : ℚ} {events : List ε}
    (pays : Pays time taken granted cap rate balance since events) (grows : 0 ≤ rate)
    (room : 0 ≤ cap) {a b : ℚ} (ordered : a ≤ b) :
    within time taken a b events ≤
      cap + rate * (b - a) + within time granted a b events := by
  induction pays with
  | nil =>
    have more : 0 ≤ rate * (b - a) := mul_nonneg grows (sub_nonneg.mpr ordered)
    simp only [within, List.filter_nil, List.map_nil, List.sum_nil, add_zero]
    exact add_nonneg room more
  | @cons balance since next e events before left paid later ih =>
    rw [within_cons, within_cons]
    by_cases inside : a ≤ time e ∧ time e ≤ b
    · -- At the first event of the span the balance is at most full.
      rw [if_pos inside, if_pos inside]
      have rest := later.within_le grows left inside.1 inside.2
      have full := min_le_left cap (balance + rate * (time e - since))
      have shorter : rate * (b - time e) ≤ rate * (b - a) :=
        mul_le_mul_of_nonneg_left (sub_le_sub_left inside.1 b) grows
      linarith
    · rw [if_neg inside, if_neg inside, zero_add, zero_add]
      exact ih

end Lain.Foundation
