import Mathlib

/-!
# Computations that may fail

A computation over a list fails when it fails on an element; otherwise its results are those of the
elements, in order.
-/

namespace Lain.Foundation

theorem exists_of_bind_eq_ok {ε α β : Type} {x : Except ε α} {f : α → Except ε β} {b : β}
    (run : x >>= f = .ok b) : ∃ a, x = .ok a ∧ f a = .ok b := by
  cases x with
  | error e => cases run
  | ok a => exact ⟨a, rfl, run⟩

theorem mapM_eq_ok_iff {ε α β : Type} {f : α → Except ε β} {l : List α} {bs : List β} :
    l.mapM f = .ok bs ↔ List.Forall₂ (fun a b => f a = .ok b) l bs := by
  induction l generalizing bs with
  | nil =>
    rw [List.forall₂_nil_left_iff]
    exact ⟨fun same => (Except.ok.inj same).symm, fun same => congrArg Except.ok same.symm⟩
  | cons a rest ih =>
    rw [List.mapM_cons, List.forall₂_cons_left_iff]
    constructor
    · intro run
      obtain ⟨b, first, run⟩ := exists_of_bind_eq_ok run
      obtain ⟨cs, others, run⟩ := exists_of_bind_eq_ok run
      cases run
      exact ⟨b, cs, first, ih.mp others, rfl⟩
    · rintro ⟨b, cs, first, others, rfl⟩
      rw [first, ih.mpr others]
      rfl

theorem forall₂_mem {α β : Type*} {P : α → β → Prop} {l : List α} {bs : List β}
    (all : List.Forall₂ P l bs) :
    (∀ a ∈ l, ∃ b ∈ bs, P a b) ∧ ∀ b ∈ bs, ∃ a ∈ l, P a b := by
  induction all with
  | nil => exact ⟨by simp, by simp⟩
  | cons here _ ih =>
    refine ⟨List.forall_mem_cons.mpr ⟨⟨_, List.mem_cons_self, here⟩, fun a member => ?_⟩,
      List.forall_mem_cons.mpr ⟨⟨_, List.mem_cons_self, here⟩, fun b member => ?_⟩⟩
    · obtain ⟨b, there, holds⟩ := ih.1 a member
      exact ⟨b, List.mem_cons_of_mem _ there, holds⟩
    · obtain ⟨a, there, holds⟩ := ih.2 b member
      exact ⟨a, List.mem_cons_of_mem _ there, holds⟩

theorem exists_mapM_eq_ok {ε α β : Type} {f : α → Except ε β} {P : α → β → Prop} {l : List α}
    (each : ∀ a ∈ l, ∃ b, f a = .ok b ∧ P a b) :
    ∃ bs, l.mapM f = .ok bs ∧ List.Forall₂ P l bs := by
  induction l with
  | nil => exact ⟨[], rfl, .nil⟩
  | cons a rest ih =>
    obtain ⟨⟨b, first, holds⟩, later⟩ := List.forall_mem_cons.mp each
    obtain ⟨bs, run, all⟩ := ih later
    refine ⟨b :: bs, mapM_eq_ok_iff.mpr (.cons first (mapM_eq_ok_iff.mp run)), .cons holds all⟩

theorem mapM_eq_some_iff {α β : Type*} {f : α → Option β} {l : List α} {bs : List β} :
    l.mapM f = some bs ↔ List.Forall₂ (fun a b => f a = some b) l bs := by
  induction l generalizing bs with
  | nil =>
    rw [List.forall₂_nil_left_iff]
    exact ⟨fun same => (Option.some.inj same).symm, fun same => congrArg some same.symm⟩
  | cons a rest ih =>
    rw [List.mapM_cons, List.forall₂_cons_left_iff]
    constructor
    · intro run
      obtain ⟨b, first, run⟩ := Option.bind_eq_some_iff.mp run
      obtain ⟨cs, others, run⟩ := Option.bind_eq_some_iff.mp run
      cases run
      exact ⟨b, cs, first, ih.mp others, rfl⟩
    · rintro ⟨b, cs, first, others, rfl⟩
      rw [first, ih.mpr others]
      rfl

theorem exists_mapM_eq_some {α β : Type*} {f : α → Option β} {l : List α}
    (each : ∀ a ∈ l, ∃ b, f a = some b) : ∃ bs, l.mapM f = some bs := by
  induction l with
  | nil => exact ⟨[], rfl⟩
  | cons a rest ih =>
    obtain ⟨⟨b, first⟩, later⟩ := List.forall_mem_cons.mp each
    obtain ⟨bs, run⟩ := ih later
    exact ⟨b :: bs, mapM_eq_some_iff.mpr (.cons first (mapM_eq_some_iff.mp run))⟩

theorem mapM_eq_none_iff {α β : Type*} {f : α → Option β} {l : List α} :
    l.mapM f = none ↔ ∃ a ∈ l, f a = none := by
  induction l with
  | nil => simp
  | cons a rest ih =>
    rw [List.mapM_cons, List.exists_mem_cons_iff, ← ih]
    cases f a <;> cases rest.mapM f <;> simp

theorem foldlM_eq_none_iff {σ α : Type*} {f : σ → α → Option σ} {P : α → Prop} {l : List α}
    (each : ∀ s a, f s a = none ↔ P a) (s : σ) : l.foldlM f s = none ↔ ∃ a ∈ l, P a := by
  induction l generalizing s with
  | nil => simp
  | cons a rest ih =>
    rw [List.foldlM_cons, List.exists_mem_cons_iff, ← each s a]
    cases here : f s a with
    | none => simp
    | some t => simpa using ih t

/-! ### Folds that may fail -/

theorem foldlM_eq_none_iff_exists {σ α : Type*} {f : σ → α → Option σ} {l : List α} {s : σ} :
    l.foldlM f s = none ↔
      ∃ front a back t, l = front ++ a :: back ∧ front.foldlM f s = some t ∧ f t a = none := by
  constructor
  · induction l generalizing s with
    | nil => exact fun failed => by cases failed
    | cons a rest ih =>
      intro failed
      rw [List.foldlM_cons] at failed
      cases step : f s a with
      | none => exact ⟨[], a, rest, s, rfl, rfl, step⟩
      | some t =>
        rw [step] at failed
        obtain ⟨front, b, back, u, rfl, run, last⟩ := ih failed
        refine ⟨a :: front, b, back, u, rfl, ?_, last⟩
        rw [List.foldlM_cons, step]
        exact run
  · rintro ⟨front, a, back, t, rfl, run, failed⟩
    rw [List.foldlM_append, run]
    change (a :: back).foldlM f t = none
    rw [List.foldlM_cons, failed]
    rfl

theorem foldl_of_foldlM {σ α β : Type*} {f : σ → α → Option σ} {value : σ → β}
    {change : β → α → β} (each : ∀ s a t, f s a = some t → value t = change (value s) a)
    {l : List α} {s t : σ} (run : l.foldlM f s = some t) :
    value t = l.foldl change (value s) := by
  induction l generalizing s with
  | nil =>
    obtain rfl := Option.some_inj.mp run
    rfl
  | cons a rest ih =>
    rw [List.foldlM_cons] at run
    obtain ⟨next, step, run⟩ := Option.bind_eq_some_iff.mp run
    rw [List.foldl_cons, ← each s a next step]
    exact ih run

/-! ### What a fold notes -/

def noted {σ α ε : Type*} (f : σ → α → Option σ) (note : σ → α → σ → List ε) :
    σ → List α → List ε
  | _, [] => []
  | s, a :: rest =>
    match f s a with
    | none => []
    | some t => note s a t ++ noted f note t rest

theorem noted_append {σ α ε : Type*} {f : σ → α → Option σ} {note : σ → α → σ → List ε}
    {l later : List α} {s t : σ} (run : l.foldlM f s = some t) :
    noted f note s (l ++ later) = noted f note s l ++ noted f note t later := by
  induction l generalizing s with
  | nil =>
    obtain rfl := Option.some_inj.mp run
    rfl
  | cons a rest ih =>
    rw [List.foldlM_cons] at run
    obtain ⟨next, step, run⟩ := Option.bind_eq_some_iff.mp run
    rw [List.cons_append, noted, noted, step]
    dsimp only
    rw [ih run, List.append_assoc]

theorem exists_of_mem_noted {σ α ε : Type*} {f : σ → α → Option σ} {note : σ → α → σ → List ε}
    {l : List α} {s : σ} {e : ε} (member : e ∈ noted f note s l) :
    ∃ front a back t u, l = front ++ a :: back ∧ front.foldlM f s = some t ∧ f t a = some u ∧
      e ∈ note t a u := by
  induction l generalizing s with
  | nil => cases member
  | cons a rest ih =>
    rw [noted] at member
    cases step : f s a with
    | none =>
      rw [step] at member
      cases member
    | some t =>
      rw [step] at member
      rcases List.mem_append.mp member with here | later
      · exact ⟨[], a, rest, s, t, rfl, rfl, step, here⟩
      · obtain ⟨front, b, back, u, v, rfl, run, last, noted⟩ := ih later
        refine ⟨a :: front, b, back, u, v, rfl, ?_, last, noted⟩
        rw [List.foldlM_cons, step]
        exact run

theorem foldl_noted {σ α ε β : Type*} {f : σ → α → Option σ} {note : σ → α → σ → List ε}
    {value : σ → β} {change : β → ε → β}
    (each : ∀ s a t, f s a = some t → value t = (note s a t).foldl change (value s))
    {l : List α} {s t : σ} (run : l.foldlM f s = some t) :
    value t = (noted f note s l).foldl change (value s) := by
  induction l generalizing s with
  | nil =>
    obtain rfl := Option.some_inj.mp run
    rfl
  | cons a rest ih =>
    rw [List.foldlM_cons] at run
    obtain ⟨next, step, run⟩ := Option.bind_eq_some_iff.mp run
    rw [noted, step, List.foldl_append, ← each s a next step]
    exact ih run

end Lain.Foundation
