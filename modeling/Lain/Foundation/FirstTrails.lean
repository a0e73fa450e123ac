import Mathlib

/-!
# First trails

A breadth-first search without a depth, over labelled steps listed in an order.
-/

namespace Lain.Foundation.FirstTrails

variable {V L : Type*}

/-! ### Trails -/

abbrev Trail (L : Type*) := List (Nat × L)

def code (t : Trail L) : ℕ ×ₗ List ℕ :=
  toLex (t.length, t.map Prod.fst)

theorem code_lt_iff {t t' : Trail L} : code t < code t' ↔
    t.length < t'.length ∨ t.length = t'.length ∧ t.map Prod.fst < t'.map Prod.fst :=
  Prod.Lex.lt_iff

theorem code_eq_iff {t t' : Trail L} : code t = code t' ↔ t.map Prod.fst = t'.map Prod.fst := by
  constructor
  · intro same
    exact (Prod.mk.inj (toLex.injective same)).2
  · intro same
    have lengths := congrArg List.length same
    rw [List.length_map, List.length_map] at lengths
    rw [code, code, lengths, same]

theorem append_lt_append {c c' d d' : List ℕ} (lengths : c.length = c'.length) (less : c < c') :
    c ++ d < c' ++ d' := by
  induction c generalizing c' with
  | nil =>
    obtain rfl := List.eq_nil_of_length_eq_zero lengths.symm
    exact absurd less (lt_irrefl _)
  | cons x rest ih =>
    cases c' with
    | nil => simp at lengths
    | cons y rest' =>
      rw [List.cons_append, List.cons_append, List.cons_lt_cons_iff] at *
      refine less.imp_right fun later => ⟨later.1, ih (by simpa using lengths) later.2⟩

theorem code_concat_lt {t t' : Trail L} (less : code t < code t') (x y : Nat × L) :
    code (t ++ [x]) < code (t' ++ [y]) := by
  rw [code_lt_iff] at *
  simp only [List.length_append, List.length_singleton, List.map_append, Nat.add_lt_add_iff_right,
    Nat.add_right_cancel_iff]
  refine less.imp_right fun later => ⟨later.1, append_lt_append ?_ later.2⟩
  simpa using later.1

theorem code_concat_le {t t' : Trail L} (le : code t ≤ code t') (k : Nat) (l l' : L) :
    code (t ++ [(k, l)]) ≤ code (t' ++ [(k, l')]) := by
  rcases le.lt_or_eq with less | same
  · exact (code_concat_lt less _ _).le
  · refine (code_eq_iff.mpr ?_).le
    rw [List.map_append, List.map_append, code_eq_iff.mp same]
    rfl

theorem code_concat_lt_of_lt (t : Trail L) {j k : Nat} (less : j < k) (l l' : L) :
    code (t ++ [(j, l)]) < code (t ++ [(k, l')]) := by
  rw [code_lt_iff]
  refine Or.inr ⟨by simp, ?_⟩
  rw [List.map_append, List.map_append]
  exact List.append_left_lt (List.cons_lt_cons_iff.mpr (Or.inl less))

theorem code_lt_concat (t : Trail L) (x : Nat × L) : code t < code (t ++ [x]) := by
  rw [code_lt_iff]
  exact Or.inl (by simp)

variable (next : V → List (L × V)) (start : V)

/-- A trail leads from the start to a node. -/
inductive Spells : Trail L → V → Prop
  | start : Spells [] start
  | step {t : Trail L} {u v : V} {k : Nat} {l : L} : Spells t u →
      (next u)[k]? = some (l, v) → Spells (t ++ [(k, l)]) v

/-- The first of the trails to a node. -/
def First (t : Trail L) (v : V) : Prop :=
  Spells next start t v ∧ ∀ t', Spells next start t' v → code t ≤ code t'

variable {next start}

theorem Spells.unique {t t' : Trail L} {v v' : V} (first : Spells next start t v)
    (second : Spells next start t' v') (same : t.map Prod.fst = t'.map Prod.fst) :
    t = t' ∧ v = v' := by
  induction first generalizing t' v' with
  | start =>
    cases second with
    | start => exact ⟨rfl, rfl⟩
    | step => simp at same
  | @step t u v k l before here ih =>
    cases second with
    | start => simp at same
    | @step t' u' v' k' l' before' here' =>
      rw [List.map_append, List.map_append] at same
      obtain ⟨places, last⟩ := List.append_inj' same rfl
      obtain ⟨rfl, rfl⟩ := ih before' places
      obtain rfl : k = k' := by simpa using last
      obtain ⟨rfl, rfl⟩ := Prod.mk.inj (Option.some.inj (here.symm.trans here'))
      exact ⟨rfl, rfl⟩

theorem First.unique {t t' : Trail L} {v : V} (first : First next start t v)
    (second : First next start t' v) : t = t' :=
  (first.1.unique second.1
    (code_eq_iff.mp (le_antisymm (first.2 t' second.1) (second.2 t first.1)))).1

/-! ### The search -/

structure Search (V L : Type*) where
  found : List (V × Trail L)
  waiting : List (V × Trail L)

namespace Search

variable [DecidableEq V]

/-- Nothing but the start is found. -/
def seed (start : V) : Search V L where
  found := [(start, [])]
  waiting := [(start, [])]

/-- Find the node a step leads to, unless it was found before. -/
def discover (t : Trail L) (s : Search V L) (step : (L × V) × Nat) : Search V L :=
  if step.1.2 ∈ s.found.map Prod.fst then s
  else
    { found := s.found ++ [(step.1.2, t ++ [(step.2, step.1.1)])]
      waiting := s.waiting ++ [(step.1.2, t ++ [(step.2, step.1.1)])] }

def explore (next : V → List (L × V)) : Nat → Search V L → Search V L
  | 0, s => s
  | fuel + 1, s =>
    match s.waiting with
    | [] => s
    | (v, t) :: rest =>
      explore next fuel ((next v).zipIdx.foldl (discover t) { s with waiting := rest })

end Search

/-! ### What the search keeps -/

variable (next start) in
structure Inv (done : List (V × Trail L)) (s : Search V L) : Prop where
  split : s.found = done ++ s.waiting
  seeded : (start, []) ∈ s.found
  nodup : (s.found.map Prod.fst).Nodup
  spelled : ∀ e ∈ s.found, Spells next start e.2 e.1
  sorted : s.found.Pairwise fun a b => code a.2 < code b.2
  closed : ∀ d ∈ done, ∀ k l v, (next d.1)[k]? = some (l, v) →
    ∃ t, (v, t) ∈ s.found ∧ code t ≤ code (d.2 ++ [(k, l)])
  below : ∀ e ∈ s.waiting, ∀ x ∈ s.found, ∀ y, code x.2 < code (e.2 ++ [y])

variable (next start) in
structure Mid (done : List (V × Trail L)) (e : V × Trail L) (k : Nat) (s : Search V L) :
    Prop where
  split : s.found = done ++ e :: s.waiting
  seeded : (start, []) ∈ s.found
  nodup : (s.found.map Prod.fst).Nodup
  spelled : ∀ e ∈ s.found, Spells next start e.2 e.1
  sorted : s.found.Pairwise fun a b => code a.2 < code b.2
  closed : ∀ d ∈ done, ∀ k l v, (next d.1)[k]? = some (l, v) →
    ∃ t, (v, t) ∈ s.found ∧ code t ≤ code (d.2 ++ [(k, l)])
  here : ∀ j < k, ∀ l v, (next e.1)[j]? = some (l, v) →
    ∃ t, (v, t) ∈ s.found ∧ code t ≤ code (e.2 ++ [(j, l)])
  below : ∀ x ∈ s.found, ∀ l, code x.2 < code (e.2 ++ [(k, l)])

variable {done : List (V × Trail L)} {s : Search V L}

theorem inv_seed (start : V) : Inv next start [] (Search.seed start) where
  split := rfl
  seeded := List.mem_singleton_self _
  nodup := List.nodup_singleton _
  spelled e member := by
    rw [List.mem_singleton.mp member]
    exact .start
  sorted := List.pairwise_singleton _ _
  closed _ absurdity := absurd absurdity List.not_mem_nil
  below e waiting x member y := by
    rw [List.mem_singleton.mp waiting, List.mem_singleton.mp member]
    exact code_lt_concat [] y

theorem Inv.pop (inv : Inv next start done s) {e : V × Trail L} {rest : List (V × Trail L)}
    (waiting : s.waiting = e :: rest) : Mid next start done e 0 { s with waiting := rest } where
  split := waiting ▸ inv.split
  seeded := inv.seeded
  nodup := inv.nodup
  spelled := inv.spelled
  sorted := inv.sorted
  closed := inv.closed
  here _ absurdity := absurd absurdity (Nat.not_lt_zero _)
  below x member _ := inv.below e (waiting ▸ List.mem_cons_self) x member _

namespace Mid

variable {e : V × Trail L} {k : Nat}

theorem discover [DecidableEq V] (mid : Mid next start done e k s) {l : L} {v : V}
    (step : (next e.1)[k]? = some (l, v)) :
    Mid next start done e (k + 1) (s.discover e.2 ((l, v), k)) := by
  have up : ∀ x ∈ s.found, ∀ l', code x.2 < code (e.2 ++ [(k + 1, l')]) := fun x member l' =>
    (mid.below x member l).trans (code_concat_lt_of_lt _ (Nat.lt_succ_self k) _ _)
  have last : ∀ {j : Nat} {l' : L} {v' : V}, j < k + 1 → (next e.1)[j]? = some (l', v') →
      j < k ∨ j = k ∧ l' = l ∧ v' = v := by
    intro j l' v' bound found
    rcases Nat.lt_succ_iff_lt_or_eq.mp bound with before | rfl
    · exact Or.inl before
    · obtain ⟨rfl, rfl⟩ := Prod.mk.inj (Option.some.inj (found.symm.trans step))
      exact Or.inr ⟨rfl, rfl, rfl⟩
  unfold Search.discover
  split_ifs with known
  · refine ⟨mid.split, mid.seeded, mid.nodup, mid.spelled, mid.sorted, mid.closed, ?_, up⟩
    intro j bound l' v' found
    rcases last bound found with before | ⟨rfl, rfl, rfl⟩
    · exact mid.here j before l' v' found
    · obtain ⟨⟨w, t⟩, member, rfl⟩ := List.mem_map.mp known
      exact ⟨t, member, (mid.below _ member l').le⟩
  · have grown : ∀ {v' : V} {c : ℕ ×ₗ List ℕ}, (∃ t, (v', t) ∈ s.found ∧ code t ≤ c) →
        ∃ t, (v', t) ∈ s.found ++ [(v, e.2 ++ [(k, l)])] ∧ code t ≤ c :=
      fun old => old.imp fun t found => ⟨List.mem_append_left _ found.1, found.2⟩
    constructor
    · change s.found ++ _ = _
      rw [mid.split, List.append_assoc]
      rfl
    · exact List.mem_append_left _ mid.seeded
    · change ((s.found ++ [_]).map Prod.fst).Nodup
      rw [List.map_append, List.map_singleton, ← List.concat_eq_append]
      exact mid.nodup.concat known
    · intro x member
      rcases List.mem_append.mp member with old | new
      · exact mid.spelled x old
      · rw [List.mem_singleton.mp new]
        have taken : e ∈ s.found := by
          rw [mid.split]
          exact List.mem_append_right _ List.mem_cons_self
        exact .step (mid.spelled e taken) step
    · refine List.pairwise_append.mpr ⟨mid.sorted, List.pairwise_singleton _ _, ?_⟩
      intro x member y new
      rw [List.mem_singleton.mp new]
      exact mid.below x member l
    · exact fun d member j l' v' found => grown (mid.closed d member j l' v' found)
    · intro j bound l' v' found
      rcases last bound found with before | ⟨rfl, rfl, rfl⟩
      · exact grown (mid.here j before l' v' found)
      · exact ⟨_, List.mem_append_right _ (List.mem_singleton_self _), le_rfl⟩
    · intro x member l'
      rcases List.mem_append.mp member with old | new
      · exact up x old l'
      · rw [List.mem_singleton.mp new]
        exact code_concat_lt_of_lt _ (Nat.lt_succ_self k) _ _

theorem foldl [DecidableEq V] (steps : List (L × V)) : ∀ {k : Nat} {s : Search V L},
    Mid next start done e k s → (next e.1).drop k = steps →
      Mid next start done e (k + steps.length) ((steps.zipIdx k).foldl (Search.discover e.2) s) := by
  induction steps with
  | nil => exact fun mid _ => mid
  | cons step rest ih =>
    intro k s mid remaining
    have here : (next e.1)[k]? = some (step.1, step.2) := by
      rw [← List.head?_drop, remaining]
      rfl
    rw [List.zipIdx_cons, List.foldl_cons, List.length_cons, Nat.add_comm rest.length,
      ← Nat.add_assoc]
    refine ih (mid.discover here) ?_
    rw [← List.tail_drop, remaining]
    rfl

theorem finish (mid : Mid next start done e (next e.1).length s) :
    Inv next start (done ++ [e]) s where
  split := by rw [mid.split, List.append_assoc, List.singleton_append]
  seeded := mid.seeded
  nodup := mid.nodup
  spelled := mid.spelled
  sorted := mid.sorted
  closed d member k l v found := by
    rcases List.mem_append.mp member with old | new
    · exact mid.closed d old k l v found
    · obtain rfl := List.mem_singleton.mp new
      exact mid.here k (List.getElem?_eq_some_iff.mp found).1 l v found
  below w waiting x member y := by
    have later : code e.2 < code w.2 := by
      have sorted := mid.sorted
      rw [mid.split] at sorted
      exact (List.pairwise_cons.mp (List.pairwise_append.mp sorted).2.1).1 w waiting
    exact (mid.below x member y.2).trans (code_concat_lt later _ _)

end Mid

/-- **The search ends when there is fuel for every node**, and nothing waits. -/
theorem Inv.explore [DecidableEq V] (nodes : List V) (inside : start ∈ nodes)
    (steps : ∀ u, ∀ step ∈ next u, step.2 ∈ nodes) : ∀ (fuel : Nat) {done : List (V × Trail L)}
    {s : Search V L}, Inv next start done s → nodes.length ≤ done.length + fuel →
      ∃ done', Inv next start done' (s.explore next fuel) ∧ (s.explore next fuel).waiting = [] := by
  have few : ∀ {done : List (V × Trail L)} {s : Search V L}, Inv next start done s →
      done.length + s.waiting.length ≤ nodes.length := by
    intro done s inv
    have known : s.found.map Prod.fst ⊆ nodes := by
      intro v member
      obtain ⟨⟨v, t⟩, found, rfl⟩ := List.mem_map.mp member
      cases inv.spelled _ found with
      | start => exact inside
      | step _ here => exact steps _ _ (List.mem_of_getElem? here)
    have bound := (inv.nodup.subperm known).length_le
    rwa [List.length_map, inv.split, List.length_append] at bound
  intro fuel
  induction fuel with
  | zero =>
    intro done s inv enough
    have bound := few inv
    exact ⟨done, inv, List.eq_nil_of_length_eq_zero (by
      change s.waiting.length = 0
      omega)⟩
  | succ fuel ih =>
    intro done s inv enough
    unfold Search.explore
    split
    · exact ⟨done, inv, ‹_›⟩
    · rename_i v t rest waiting
      have mid := (inv.pop waiting).foldl (next v) rfl
      rw [Nat.zero_add] at mid
      refine ih mid.finish ?_
      rw [List.length_append, List.length_singleton]
      omega

theorem Inv.complete (inv : Inv next start done s) (quiet : s.waiting = []) {t : Trail L} {v : V}
    (spells : Spells next start t v) : ∃ t', (v, t') ∈ s.found ∧ code t' ≤ code t := by
  induction spells with
  | start => exact ⟨[], inv.seeded, le_rfl⟩
  | @step t u v k l before here ih =>
    obtain ⟨t', found, earlier⟩ := ih
    rw [inv.split, quiet, List.append_nil] at found
    obtain ⟨t'', known, le⟩ := inv.closed _ found k l v here
    exact ⟨t'', known, le.trans (code_concat_le earlier k l l)⟩

/-- **The search finds the nodes with a trail, each with its first.** -/
theorem Inv.mem_found (inv : Inv next start done s) (quiet : s.waiting = []) {t : Trail L} {v : V} :
    (v, t) ∈ s.found ↔ First next start t v := by
  have first : ∀ {t : Trail L} {v : V}, (v, t) ∈ s.found → First next start t v := by
    intro t v found
    refine ⟨inv.spelled _ found, fun t' spells => ?_⟩
    obtain ⟨t'', other, le⟩ := inv.complete quiet spells
    obtain rfl : t'' = t :=
      (Prod.mk.inj (List.inj_on_of_nodup_map inv.nodup other found rfl)).2
    exact le
  refine ⟨first, fun least => ?_⟩
  obtain ⟨t', found, -⟩ := inv.complete quiet least.1
  exact least.unique (first found) ▸ found

end Lain.Foundation.FirstTrails
