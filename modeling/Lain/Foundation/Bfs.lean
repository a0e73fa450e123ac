import Mathlib

/-!
# Breadth-first search

A search from several seeds over labelled steps, up to a depth.
-/

namespace Lain.Foundation.Bfs

/-! ### Walks -/

section Walks

variable {V L : Type*} (adj : V → V → Prop) (starts : V → Prop)

def Reaches : Nat → V → Prop
  | 0, v => starts v
  | n + 1, v => ∃ u, Reaches n u ∧ adj u v

/-- A node is reached in at most so many steps. -/
def Within (n : Nat) (v : V) : Prop :=
  ∃ m ≤ n, Reaches adj starts m v

def AtDistance (n : Nat) (v : V) : Prop :=
  Reaches adj starts n v ∧ ∀ m < n, ¬ Reaches adj starts m v

variable {adj starts}

end Walks

/-! ### The search -/

structure Rules (V L P : Type*) where
  next : V → List (L × V)
  /-- The entry of a node, from the entry of its predecessor, the predecessor and the
  label of the step. -/
  entry : Option P → V → L → P
  parent : P → V
  depth : Nat
  parent_entry : ∀ before u l, parent (entry before u l) = u

structure Search (V P : Type*) where
  visited : List V := []
  queue : List (V × Nat) := []
  pred : V → Option P := fun _ => none

variable {V L P : Type*} [DecidableEq V]

namespace Search

/-- Start from a node as well. -/
def seed (s : Search V P) (v : V) : Search V P :=
  if v ∈ s.visited then s
  else { s with visited := s.visited ++ [v], queue := s.queue ++ [(v, 0)] }

/-- Visit the node a step leads to, unless it was visited before. -/
def discover (rules : Rules V L P) (u : V) (d : Nat) (s : Search V P) (step : L × V) :
    Search V P :=
  if step.2 ∈ s.visited then s
  else
    { visited := s.visited ++ [step.2]
      queue := s.queue ++ [(step.2, d + 1)]
      pred := Function.update s.pred step.2 (some (rules.entry (s.pred u) u step.1)) }

def advance (rules : Rules V L P) (s : Search V P) (u : V) (d : Nat) : Search V P :=
  if rules.depth ≤ d then s else (rules.next u).foldl (discover rules u d) s

def pops (rules : Rules V L P) : Nat → Search V P → List ((V × Nat) × Search V P)
  | 0, _ => []
  | fuel + 1, s =>
    match s.queue with
    | [] => []
    | (u, d) :: rest =>
      ((u, d), { s with queue := rest }) ::
        pops rules fuel (advance rules { s with queue := rest } u d)

/-- The state after popping for a while. -/
def run (rules : Rules V L P) : Nat → Search V P → Search V P
  | 0, s => s
  | fuel + 1, s =>
    match s.queue with
    | [] => s
    | (u, d) :: rest => run rules fuel (advance rules { s with queue := rest } u d)

end Search

/-! ### What a search keeps -/

variable (rules : Rules V L P) (starts : V → Prop)

def Rules.Adj (u v : V) : Prop :=
  ∃ l, (l, v) ∈ rules.next u

def Origin (popped : List (V × Nat)) (s : Search V P) (v : V) : Nat → Prop
  | 0 => starts v ∧ s.pred v = none
  | d + 1 => ∃ u l, (u, d) ∈ popped ∧ (l, v) ∈ rules.next u ∧
      s.pred v = some (rules.entry (s.pred u) u l)

structure Inv (popped : List (V × Nat)) (level : Nat) (s : Search V P) : Prop where
  visited : s.visited = (popped ++ s.queue).map Prod.fst
  nodup : s.visited.Nodup
  behind : ∀ e ∈ popped, e.2 ≤ level
  ahead : ∀ e ∈ s.queue, level ≤ e.2 ∧ e.2 ≤ level + 1
  sorted : s.queue.Pairwise fun a b => a.2 ≤ b.2
  bounded : ∀ e ∈ popped ++ s.queue, e.2 ≤ rules.depth
  seeds : ∀ v, starts v → (v, 0) ∈ popped ++ s.queue
  origin : ∀ v d, (v, d) ∈ popped ++ s.queue → Origin rules starts popped s v d

def ClosedAt (popped : List (V × Nat)) (s : Search V P) (u : V) (d : Nat) : Prop :=
  d < rules.depth → ∀ l v, (l, v) ∈ rules.next u → ∃ e ≤ d + 1, (v, e) ∈ popped ++ s.queue

variable {rules starts} {popped : List (V × Nat)} {level : Nat} {s : Search V P}

namespace Inv

variable (inv : Inv rules starts popped level s)

include inv in
theorem mem_visited {v : V} : v ∈ s.visited ↔ ∃ d, (v, d) ∈ popped ++ s.queue := by
  rw [inv.visited, List.mem_map]
  constructor
  · rintro ⟨⟨_, d⟩, member, rfl⟩
    exact ⟨d, member⟩
  · rintro ⟨d, member⟩
    exact ⟨_, member, rfl⟩

include inv in
theorem distance_unique {v : V} {d e : Nat} (first : (v, d) ∈ popped ++ s.queue)
    (second : (v, e) ∈ popped ++ s.queue) : d = e := by
  have distinct : ((popped ++ s.queue).map Prod.fst).Nodup := inv.visited ▸ inv.nodup
  exact (Prod.mk.inj (List.inj_on_of_nodup_map distinct first second rfl)).2

theorem pop {u : V} {d : Nat} {rest : List (V × Nat)} (inv : Inv rules starts popped level s)
    (queue : s.queue = (u, d) :: rest) :
    Inv rules starts (popped ++ [(u, d)]) d { s with queue := rest } := by
  have all : popped ++ [(u, d)] ++ rest = popped ++ s.queue := by rw [queue]; simp
  obtain ⟨low, high⟩ := inv.ahead (u, d) (queue ▸ List.mem_cons_self)
  obtain ⟨least, sorted⟩ := List.pairwise_cons.mp (queue ▸ inv.sorted)
  constructor
  · exact inv.visited.trans (congrArg (List.map Prod.fst) all.symm)
  · exact inv.nodup
  · intro e member
    rcases List.mem_append.mp member with old | new
    · exact le_trans (inv.behind e old) low
    · rw [List.mem_singleton.mp new]
  · intro e member
    have window := inv.ahead e (queue ▸ List.mem_cons_of_mem _ member)
    exact ⟨least e member, le_trans window.2 (Nat.add_le_add_right low 1)⟩
  · exact sorted
  · exact fun e member => inv.bounded e (all ▸ member)
  · exact fun v start => (congrArg _ all).mpr (inv.seeds v start)
  · intro v e member
    have origin := inv.origin v e ((congrArg _ all).mp member)
    cases e with
    | zero => exact origin
    | succ k =>
      obtain ⟨w, l, earlier, step, entry⟩ := origin
      exact ⟨w, l, List.mem_append_left _ earlier, step, entry⟩

theorem discover {u v : V} {l : L} (inv : Inv rules starts popped level s)
    (here : (u, level) ∈ popped) (below : level < rules.depth) (step : (l, v) ∈ rules.next u) :
    Inv rules starts popped level (s.discover rules u level (l, v)) := by
  unfold Search.discover
  split_ifs with old
  · exact inv
  have apart : ∀ {w d}, (w, d) ∈ popped ++ s.queue → w ≠ v := fun member same =>
    old (same ▸ inv.mem_visited.mpr ⟨_, member⟩)
  have kept : ∀ {w d}, (w, d) ∈ popped ++ s.queue →
      Function.update s.pred v (some (rules.entry (s.pred u) u l)) w = s.pred w := fun member =>
    Function.update_of_ne (apart member) _ _
  have all : popped ++ (s.queue ++ [(v, level + 1)]) =
      popped ++ s.queue ++ [(v, level + 1)] := (List.append_assoc _ _ _).symm
  have source := kept (List.mem_append_left s.queue here)
  constructor
  · simp [inv.visited]
  · exact List.nodup_append.mpr ⟨inv.nodup, List.nodup_singleton v, fun w member w' same equal =>
      old (List.mem_singleton.mp same ▸ equal ▸ member)⟩
  · exact inv.behind
  · intro e member
    rcases List.mem_append.mp member with member | member
    · exact inv.ahead e member
    · rw [List.mem_singleton.mp member]
      exact ⟨Nat.le_succ _, le_rfl⟩
  · refine List.pairwise_append.mpr ⟨inv.sorted, List.pairwise_singleton _ _, ?_⟩
    intro a member b last
    rw [List.mem_singleton.mp last]
    exact (inv.ahead a member).2
  · intro e member
    rw [all] at member
    rcases List.mem_append.mp member with member | member
    · exact inv.bounded e member
    · rw [List.mem_singleton.mp member]
      exact below
  · intro w start
    rw [all]
    exact List.mem_append_left _ (inv.seeds w start)
  · intro w e member
    rw [all] at member
    rcases List.mem_append.mp member with member | member
    · have origin := inv.origin w e member
      cases e with
      | zero => exact ⟨origin.1, (kept member).trans origin.2⟩
      | succ k =>
        obtain ⟨x, m, earlier, edge, entry⟩ := origin
        refine ⟨x, m, earlier, edge, (kept member).trans ?_⟩
        change _ = some (rules.entry (Function.update s.pred v _ x) x m)
        rw [kept (List.mem_append_left _ earlier)]
        exact entry
    · obtain ⟨rfl, rfl⟩ := Prod.mk.inj (List.mem_singleton.mp member)
      refine ⟨u, l, here, step, ?_⟩
      change Function.update s.pred w _ w = some (rules.entry (Function.update s.pred w _ u) u l)
      rw [source, Function.update_self]

end Inv

structure Extends (popped : List (V × Nat)) (s : Search V P) (popped' : List (V × Nat))
    (s' : Search V P) : Prop where
  member : ∀ e ∈ popped ++ s.queue, e ∈ popped' ++ s'.queue
  visited : ∀ v ∈ s.visited, v ∈ s'.visited
  pred : ∀ v ∈ s.visited, s'.pred v = s.pred v

omit [DecidableEq V] in
theorem Extends.refl (popped : List (V × Nat)) (s : Search V P) : Extends popped s popped s :=
  ⟨fun _ member => member, fun _ member => member, fun _ _ => rfl⟩

omit [DecidableEq V] in
theorem Extends.trans {s s' s'' : Search V P} {popped popped' popped'' : List (V × Nat)}
    (first : Extends popped s popped' s') (second : Extends popped' s' popped'' s'') :
    Extends popped s popped'' s'' where
  member e known := second.member e (first.member e known)
  visited v known := second.visited v (first.visited v known)
  pred v known := (second.pred v (first.visited v known)).trans (first.pred v known)

namespace Search

theorem discover_extends (rules : Rules V L P) (popped : List (V × Nat)) (u : V) (d : Nat)
    (step : L × V) : Extends popped s popped (s.discover rules u d step) := by
  unfold discover
  split_ifs with old
  · exact Extends.refl popped s
  · refine ⟨fun e member => ?_, fun v known => List.mem_append_left _ known, fun v known => ?_⟩
    · rw [← List.append_assoc]
      exact List.mem_append_left _ member
    · exact Function.update_of_ne (fun same : v = step.2 => old (same ▸ known)) _ _

theorem mem_discover {rules : Rules V L P} {u : V} {d : Nat} {step : L × V} {v : V} :
    v ∈ (s.discover rules u d step).visited ↔ v ∈ s.visited ∨ v = step.2 := by
  unfold discover
  split_ifs with old
  · exact ⟨Or.inl, fun known => known.elim id fun same => same ▸ old⟩
  · simp

theorem pred_discover {rules : Rules V L P} {u : V} {d : Nat} {step : L × V}
    (fresh : step.2 ∉ s.visited) :
    (s.discover rules u d step).pred step.2 = some (rules.entry (s.pred u) u step.1) := by
  unfold discover
  rw [if_neg fresh]
  exact Function.update_self _ _ _

end Search

variable (rules starts) in
structure Expanded (popped : List (V × Nat)) (u : V) (d : Nat) (steps : List (L × V))
    (s s' : Search V P) : Prop where
  inv : Inv rules starts popped d s'
  later : Extends popped s popped s'
  covered : ∀ step ∈ steps, step.2 ∈ s'.visited
  fresh : ∀ step ∈ steps, step.2 ∉ s.visited → ∃ l, (l, step.2) ∈ rules.next u ∧
    s'.pred step.2 = some (rules.entry (s.pred u) u l)

theorem Inv.expand {u : V} (here : (u, level) ∈ popped) (below : level < rules.depth)
    (steps : List (L × V)) (all : ∀ step ∈ steps, step ∈ rules.next u) :
    ∀ {s : Search V P}, Inv rules starts popped level s →
      Expanded rules starts popped u level steps s
        (steps.foldl (Search.discover rules u level) s) := by
  induction steps with
  | nil => exact fun inv => ⟨inv, Extends.refl _ _, by simp, by simp⟩
  | cons step rest ih =>
    intro s inv
    obtain ⟨known, all⟩ := List.forall_mem_cons.mp all
    have first := inv.discover here below (show (step.1, step.2) ∈ rules.next u from known)
    have extended := s.discover_extends rules popped u level step
    have rested := ih all first
    have visited : u ∈ s.visited := inv.mem_visited.mpr ⟨level, List.mem_append_left _ here⟩
    have found : step.2 ∈ (s.discover rules u level step).visited :=
      Search.mem_discover.mpr (Or.inr rfl)
    have head : step.2 ∉ s.visited → ∃ l, (l, step.2) ∈ rules.next u ∧
        (rest.foldl (Search.discover rules u level) (s.discover rules u level step)).pred step.2 =
          some (rules.entry (s.pred u) u l) := fun fresh =>
      ⟨step.1, known, (rested.later.pred _ found).trans (Search.pred_discover fresh)⟩
    refine ⟨rested.inv, extended.trans rested.later, ?_, ?_⟩
    · intro other member
      rcases List.mem_cons.mp member with rfl | member
      · exact rested.later.visited _ found
      · exact rested.covered other member
    · intro other member fresh
      rcases List.mem_cons.mp member with rfl | member
      · exact head fresh
      · by_cases same : other.2 = step.2
        · rw [same] at fresh ⊢
          exact head fresh
        · obtain ⟨l, edge, entry⟩ := rested.fresh other member fun now =>
            (Search.mem_discover.mp now).elim fresh same
          refine ⟨l, edge, entry.trans ?_⟩
          rw [extended.pred u visited]

theorem Inv.advance {u : V} (inv : Inv rules starts popped level s) (here : (u, level) ∈ popped) :
    Inv rules starts popped level (s.advance rules u level) ∧
      Extends popped s popped (s.advance rules u level) ∧
      ClosedAt rules popped (s.advance rules u level) u level ∧
      (level < rules.depth → ∀ l v, (l, v) ∈ rules.next u → v ∉ s.visited →
        ∃ l', (l', v) ∈ rules.next u ∧
          (s.advance rules u level).pred v = some (rules.entry (s.pred u) u l')) := by
  unfold Search.advance
  split_ifs with deep
  · exact ⟨inv, Extends.refl _ _, fun below => absurd deep (Nat.not_le.mpr below),
      fun below => absurd deep (Nat.not_le.mpr below)⟩
  · have expanded := Inv.expand here (Nat.not_le.mp deep) (rules.next u) (fun _ member => member) inv
    refine ⟨expanded.inv, expanded.later, fun _ l v step => ?_, fun _ l v step fresh =>
      expanded.fresh (l, v) step fresh⟩
    obtain ⟨e, member⟩ := expanded.inv.mem_visited.mp (expanded.covered (l, v) step)
    refine ⟨e, ?_, member⟩
    rcases List.mem_append.mp member with old | queued
    · exact Nat.le_succ_of_le (expanded.inv.behind _ old)
    · exact (expanded.inv.ahead _ queued).2

/-! ### Whole searches -/

variable (rules starts) in
structure PoppedInto (all : List (V × Nat)) (final : Search V P) (u : V) (d : Nat)
    (t : Search V P) : Prop where
  inv : ∃ before, Inv rules starts (before ++ [(u, d)]) d t ∧
    Extends (before ++ [(u, d)]) t all final
  fresh : d < rules.depth → ∀ l v, (l, v) ∈ rules.next u → v ∉ t.visited →
    v ∈ final.visited ∧ ∃ l', (l', v) ∈ rules.next u ∧
      final.pred v = some (rules.entry (final.pred u) u l')

variable (rules starts) in
structure Popped (fuel : Nat) (popped : List (V × Nat)) (s : Search V P)
    (all : List (V × Nat)) (final : Search V P) : Prop where
  inv : ∃ level, Inv rules starts all level final
  closed : ∀ e ∈ all, ClosedAt rules all final e.1 e.2
  later : Extends popped s all final
  stops : final.queue = [] ∨ (s.pops rules fuel).length = fuel
  each : ∀ entry ∈ s.pops rules fuel, PoppedInto rules starts all final entry.1.1 entry.1.2 entry.2

theorem ClosedAt.mono {popped' : List (V × Nat)} {s' : Search V P} {u : V} {d : Nat}
    (closed : ClosedAt rules popped s u d) (later : Extends popped s popped' s') :
    ClosedAt rules popped' s' u d := by
  intro below l v step
  obtain ⟨e, bound, member⟩ := closed below l v step
  exact ⟨e, bound, later.member _ member⟩

/-- **Popping** keeps the invariant, and every popped node has been expanded. -/
theorem Inv.run (fuel : Nat) :
    ∀ {popped : List (V × Nat)} {level : Nat} {s : Search V P}, Inv rules starts popped level s →
      (∀ e ∈ popped, ClosedAt rules popped s e.1 e.2) →
      Popped rules starts fuel popped s (popped ++ (s.pops rules fuel).map Prod.fst)
        (s.run rules fuel) := by
  induction fuel with
  | zero =>
    intro popped level s inv closed
    rw [Search.pops, Search.run, List.map_nil, List.append_nil]
    exact ⟨⟨level, inv⟩, closed, Extends.refl _ _, Or.inr rfl, by simp [Search.pops]⟩
  | succ fuel ih =>
    intro popped level s inv closed
    cases queue : s.queue with
    | nil =>
      have none : s.pops rules (fuel + 1) = [] := by simp [Search.pops, queue]
      have still : s.run rules (fuel + 1) = s := by simp [Search.run, queue]
      rw [none, still, List.map_nil, List.append_nil]
      exact ⟨⟨level, inv⟩, closed, Extends.refl _ _, Or.inl queue, by simp [none]⟩
    | cons head rest =>
      obtain ⟨u, d⟩ := head
      have popping := inv.pop queue
      have here : (u, d) ∈ popped ++ [(u, d)] := List.mem_append_right _ List.mem_cons_self
      have taken : Extends popped s (popped ++ [(u, d)]) { s with queue := rest } :=
        ⟨fun e member => by simpa [queue] using member, fun _ known => known, fun _ _ => rfl⟩
      obtain ⟨advanced, later, closedHere, fresh⟩ := popping.advance here
      have closedAll : ∀ e ∈ popped ++ [(u, d)], ClosedAt rules (popped ++ [(u, d)])
          (Search.advance rules { s with queue := rest } u d) e.1 e.2 := by
        intro e member
        rcases List.mem_append.mp member with old | new
        · exact (closed e old).mono (taken.trans later)
        · rw [List.mem_singleton.mp new]
          exact closedHere
      have run := ih advanced closedAll
      have shape : s.pops rules (fuel + 1) = ((u, d), { s with queue := rest }) ::
          Search.pops rules fuel (Search.advance rules { s with queue := rest } u d) := by
        simp [Search.pops, queue]
      have goes : s.run rules (fuel + 1) = Search.run rules fuel
          (Search.advance rules { s with queue := rest } u d) := by
        simp [Search.run, queue]
      rw [shape, goes, List.map_cons, ← List.singleton_append, ← List.append_assoc]
      refine ⟨run.inv, run.closed, (taken.trans later).trans run.later, ?_, ?_⟩
      · refine run.stops.imp_right fun length => ?_
        rw [shape, List.length_cons, length]
      · rw [shape]
        intro entry member
        rcases List.mem_cons.mp member with rfl | member
        · refine ⟨⟨popped, popping, later.trans run.later⟩, fun below l v step unseen => ?_⟩
          obtain ⟨l', step', entry⟩ := fresh below l v step unseen
          have known : u ∈ s.visited := popping.mem_visited.mpr ⟨d, List.mem_append_left _ here⟩
          obtain ⟨e, -, member⟩ := closedHere below l v step
          have found := advanced.mem_visited.mpr ⟨e, member⟩
          refine ⟨run.later.visited v found, l', step', ?_⟩
          rw [run.later.pred v found, entry, (later.trans run.later).pred u known]
        · exact run.each entry member

/-! ### Seeds -/

structure Seeded (seeds : List V) (s : Search V P) : Prop where
  queue : s.queue = s.visited.map fun v => (v, 0)
  nodup : s.visited.Nodup
  visited : ∀ v, v ∈ s.visited ↔ v ∈ seeds
  free : ∀ v, s.pred v = none

theorem Seeded.seed {seeds : List V} (seeded : Seeded seeds s) (v : V) :
    Seeded (seeds ++ [v]) (s.seed v) := by
  unfold Search.seed
  split_ifs with old
  · refine ⟨seeded.queue, seeded.nodup, fun w => ?_, seeded.free⟩
    rw [seeded.visited, List.mem_append, List.mem_singleton]
    exact ⟨Or.inl, fun known => known.elim id fun same => same ▸ (seeded.visited v).mp old⟩
  · refine ⟨by simp [seeded.queue], ?_, fun w => ?_, seeded.free⟩
    · exact List.nodup_append.mpr ⟨seeded.nodup, List.nodup_singleton v,
        fun w member w' same equal => old (List.mem_singleton.mp same ▸ equal ▸ member)⟩
    · rw [List.mem_append, List.mem_append, seeded.visited]

theorem seeded_foldl (seeds : List V) :
    Seeded seeds (seeds.foldl Search.seed ({} : Search V P)) := by
  have go : ∀ (before : List V) (s : Search V P), Seeded before s →
      Seeded (before ++ seeds) (seeds.foldl Search.seed s) := by
    induction seeds with
    | nil => exact fun before s seeded => by rwa [List.append_nil]
    | cons v rest ih =>
      intro before s seeded
      have next := ih (before ++ [v]) (s.seed v) (seeded.seed v)
      rwa [List.append_assoc] at next
  exact go [] {} ⟨rfl, List.nodup_nil, fun v => Iff.rfl, fun _ => rfl⟩

omit [DecidableEq V] in
theorem Seeded.inv {seeds : List V} (seeded : Seeded seeds s) :
    Inv rules (· ∈ seeds) [] 0 s := by
  have member : ∀ v d, (v, d) ∈ s.queue ↔ v ∈ seeds ∧ d = 0 := by
    intro v d
    rw [seeded.queue, List.mem_map]
    constructor
    · rintro ⟨w, known, same⟩
      obtain ⟨rfl, rfl⟩ := Prod.mk.inj same
      exact ⟨(seeded.visited w).mp known, rfl⟩
    · rintro ⟨known, rfl⟩
      exact ⟨v, (seeded.visited v).mpr known, rfl⟩
  have zero : ∀ e ∈ s.queue, e.2 = 0 := fun e known => ((member e.1 e.2).mp known).2
  refine ⟨?_, seeded.nodup, by simp, fun e known => ?_, ?_, fun e known => ?_, fun v start => ?_,
    fun v d known => ?_⟩
  · rw [seeded.queue, List.nil_append, List.map_map]
    exact (List.map_id _).symm
  · rw [zero e known]
    exact ⟨le_rfl, Nat.zero_le _⟩
  · exact List.pairwise_of_forall_mem_list fun a first b second =>
      le_of_eq ((zero a first).trans (zero b second).symm)
  · exact (zero e known).le.trans (Nat.zero_le _)
  · exact (member v 0).mpr ⟨start, rfl⟩
  · obtain ⟨start, rfl⟩ := (member v d).mp known
    exact ⟨start, seeded.free v⟩

/-! ### Distances -/

omit [DecidableEq V] in
theorem Inv.reaches (inv : Inv rules starts popped level s) :
    ∀ d v, (v, d) ∈ popped ++ s.queue → Reaches rules.Adj starts d v := by
  intro d
  induction d with
  | zero => exact fun v member => (inv.origin v 0 member).1
  | succ d ih =>
    intro v member
    obtain ⟨u, l, earlier, step, -⟩ := inv.origin v (d + 1) member
    exact ⟨u, ih u (List.mem_append_left _ earlier), l, step⟩

theorem Popped.queue_eq_nil {fuel : Nat} {final : Search V P}
    (run : Popped rules starts fuel popped s (popped ++ (s.pops rules fuel).map Prod.fst) final)
    (nodes : List V) (seeds : ∀ v, starts v → v ∈ nodes)
    (steps : ∀ u, ∀ step ∈ rules.next u, step.2 ∈ nodes) (enough : nodes.length ≤ fuel) :
    final.queue = [] := by
  obtain ⟨level, inv⟩ := run.inv
  refine run.stops.elim id fun length => ?_
  have inside : final.visited ⊆ nodes := by
    intro v known
    obtain ⟨d, member⟩ := inv.mem_visited.mp known
    cases d with
    | zero => exact seeds v (inv.reaches 0 v member)
    | succ d =>
      obtain ⟨u, -, l, step⟩ := inv.reaches (d + 1) v member
      exact steps u _ step
  have few := (inv.nodup.subperm inside).length_le
  rw [inv.visited, List.length_map, List.length_append, List.length_append, List.length_map,
    length] at few
  exact List.length_eq_zero_iff.mp (by omega)

namespace Popped

variable {fuel : Nat} {all : List (V × Nat)} {final : Search V P}
  (run : Popped rules starts fuel popped s all final) (done : final.queue = [])

include run done in
theorem complete : ∀ n v, n ≤ rules.depth → Reaches rules.Adj starts n v →
    ∃ d ≤ n, (v, d) ∈ all := by
  obtain ⟨level, inv⟩ := run.inv
  intro n
  induction n with
  | zero =>
    intro v _ start
    have member := inv.seeds v start
    rw [done, List.append_nil] at member
    exact ⟨0, le_rfl, member⟩
  | succ n ih =>
    rintro v bound ⟨u, reached, l, step⟩
    obtain ⟨d, near, member⟩ := ih u (Nat.le_of_succ_le bound) reached
    obtain ⟨e, next, found⟩ := run.closed _ member (lt_of_le_of_lt near bound) l v step
    rw [done, List.append_nil] at found
    exact ⟨e, next.trans (Nat.succ_le_succ near), found⟩

include run done in
/-- **The search pops the nodes within the depth**, each at its distance. -/
theorem mem_iff {v : V} {d : Nat} :
    (v, d) ∈ all ↔ d ≤ rules.depth ∧ AtDistance rules.Adj starts d v := by
  obtain ⟨level, inv⟩ := run.inv
  have known : ∀ {w e}, (w, e) ∈ all → (w, e) ∈ all ++ final.queue := fun member =>
    List.mem_append_left _ member
  constructor
  · intro member
    have bound := inv.bounded _ (known member)
    refine ⟨bound, inv.reaches d v (known member), fun m shorter reached => ?_⟩
    obtain ⟨e, near, found⟩ := run.complete done m v (shorter.le.trans bound) reached
    have same := inv.distance_unique (known member) (known found)
    omega
  · rintro ⟨bound, reached, shortest⟩
    obtain ⟨e, near, found⟩ := run.complete done d v bound reached
    have exactly : e = d := by
      by_contra other
      exact shortest e (lt_of_le_of_ne near other) (inv.reaches e v (known found))
    exact exactly ▸ found

include run done in
theorem exhausts (shallow : ∀ e ∈ all, e.2 < rules.depth) :
    ∀ n v, Reaches rules.Adj starts n v → ∃ d, (v, d) ∈ all := by
  obtain ⟨level, inv⟩ := run.inv
  intro n
  induction n with
  | zero =>
    intro v start
    have member := inv.seeds v start
    rw [done, List.append_nil] at member
    exact ⟨0, member⟩
  | succ n ih =>
    rintro v ⟨u, reached, l, step⟩
    obtain ⟨d, member⟩ := ih u reached
    obtain ⟨e, -, found⟩ := run.closed _ member (shallow _ member) l v step
    rw [done, List.append_nil] at found
    exact ⟨e, found⟩

end Popped

omit [DecidableEq V] in
theorem Inv.distance_lt (inv : Inv rules starts popped level s) {v : V} {d : Nat}
    (member : (v, d) ∈ popped ++ s.queue) : d < s.visited.length := by
  have nearer : ∀ d v, (v, d) ∈ popped ++ s.queue →
      ∀ k ≤ d, k ∈ (popped ++ s.queue).map Prod.snd := by
    intro d
    induction d with
    | zero =>
      intro v member k bound
      exact List.mem_map.mpr ⟨(v, 0), member, (Nat.le_zero.mp bound).symm⟩
    | succ d ih =>
      intro v member k bound
      rcases Nat.le_succ_iff.mp bound with less | rfl
      · obtain ⟨u, _, earlier, -, -⟩ := inv.origin v (d + 1) member
        exact ih u (List.mem_append_left _ earlier) k less
      · exact List.mem_map.mpr ⟨(v, d + 1), member, rfl⟩
  have all : List.range (d + 1) ⊆ (popped ++ s.queue).map Prod.snd := fun k inside =>
    nearer d v member k (Nat.lt_succ_iff.mp (List.mem_range.mp inside))
  have few := (List.nodup_range.subperm all).length_le
  rw [List.length_range, List.length_map] at few
  rw [inv.visited, List.length_map]
  exact few

/-! ### Paths -/

def Trail (rules : Rules V L P) : V → List (L × V) → Prop
  | _, [] => True
  | u, step :: rest => step ∈ rules.next u ∧ Trail rules step.2 rest

def lastOf (start : V) (steps : List (L × V)) : V :=
  (steps.getLast?.map Prod.snd).getD start

/-- The steps from a seed to a node that the entries lead back along. -/
inductive Chain (rules : Rules V L P) (s : Search V P) (start : V) : List (L × V) → V → Prop
  | seed : start ∈ s.visited → s.pred start = none → Chain rules s start [] start
  | step {steps : List (L × V)} {u v : V} {l : L} : Chain rules s start steps u →
      v ∈ s.visited → (l, v) ∈ rules.next u → s.pred v = some (rules.entry (s.pred u) u l) →
      Chain rules s start (steps ++ [(l, v)]) v

theorem Inv.chain (inv : Inv rules starts popped level s) :
    ∀ d v, (v, d) ∈ popped ++ s.queue → ∃ start steps, starts start ∧
      Chain rules s start steps v ∧ steps.length = d := by
  intro d
  induction d with
  | zero =>
    intro v member
    obtain ⟨start, seed⟩ := inv.origin v 0 member
    exact ⟨v, [], start, .seed (inv.mem_visited.mpr ⟨0, member⟩) seed, rfl⟩
  | succ d ih =>
    intro v member
    obtain ⟨u, l, earlier, step, entry⟩ := inv.origin v (d + 1) member
    obtain ⟨start, steps, seed, chain, length⟩ := ih u (List.mem_append_left _ earlier)
    refine ⟨start, steps ++ [(l, v)], seed,
      chain.step (inv.mem_visited.mpr ⟨d + 1, member⟩) step entry, ?_⟩
    rw [List.length_append, length, List.length_singleton]

namespace Chain

variable {start v : V} {steps : List (L × V)}

omit [DecidableEq V] in
theorem mem_end (chain : Chain rules s start steps v) : v = start ∨ v ∈ steps.map Prod.snd := by
  cases chain with
  | seed => exact Or.inl rfl
  | step => exact Or.inr (by simp)

omit [DecidableEq V] in
theorem mem_visited (chain : Chain rules s start steps v) : v ∈ s.visited := by
  cases chain with
  | seed known => exact known
  | step _ known => exact known

omit [DecidableEq V] in
theorem lastOf_eq (chain : Chain rules s start steps v) : lastOf start steps = v := by
  cases chain with
  | seed => rfl
  | step => simp [lastOf]

omit [DecidableEq V] in
theorem trail (chain : Chain rules s start steps v) : Trail rules start steps := by
  have extend : ∀ (before : List (L × V)) (u : V), Trail rules u before →
      ∀ step ∈ rules.next (lastOf u before), Trail rules u (before ++ [step]) := by
    intro before
    induction before with
    | nil => exact fun u _ step known => ⟨known, trivial⟩
    | cons head rest ih =>
      intro u along step known
      refine ⟨along.1, ih head.2 along.2 step ?_⟩
      cases rest with
      | nil => exact known
      | cons second rest =>
        rw [lastOf, List.getLast?_cons_cons] at known
        rw [lastOf]
        cases last : (second :: rest).getLast? with
        | none => simp at last
        | some e => rwa [last] at known
  induction chain with
  | seed => trivial
  | step before _ known _ ih => exact extend _ _ ih _ (before.lastOf_eq.symm ▸ known)

omit [DecidableEq V] in
theorem parent_mem (chain : Chain rules s start steps v) {w : V} {p : P}
    (member : w = start ∨ w ∈ steps.map Prod.snd) (entry : s.pred w = some p) :
    rules.parent p = start ∨ rules.parent p ∈ steps.map Prod.snd := by
  induction chain with
  | seed _ free =>
    rcases member with rfl | none
    · simp [free] at entry
    · simp at none
  | @step steps u v l before _ _ found ih =>
    have inner : rules.parent p = start ∨ rules.parent p ∈ steps.map Prod.snd := by
      by_cases here : w = v
      · rw [here, found] at entry
        rw [← Option.some.inj entry, rules.parent_entry]
        exact before.mem_end
      · refine ih (member.imp_right fun listed => ?_)
        simpa [here] using listed
    refine inner.imp_right fun listed => ?_
    rw [List.map_append]
    exact List.mem_append_left _ listed

omit [DecidableEq V] in
theorem mono {popped' : List (V × Nat)} {s' : Search V P} (chain : Chain rules s start steps v)
    (later : Extends popped s popped' s') : Chain rules s' start steps v := by
  induction chain with
  | seed known free => exact .seed (later.visited _ known) ((later.pred _ known).trans free)
  | step before known step entry ih =>
    refine .step ih (later.visited _ known) step ?_
    rw [later.pred _ known, later.pred _ before.mem_visited]
    exact entry

end Chain

/-! ### Leaves -/

def isLeaf (rules : Rules V L P) (entry : (V × Nat) × Search V P) : Bool :=
  decide (rules.depth ≤ entry.1.2) ||
    !(rules.next entry.1.1).any fun step => decide (step.2 ∉ entry.2.visited)

theorem PoppedInto.chain {all : List (V × Nat)} {final t : Search V P} {u : V} {d : Nat}
    (into : PoppedInto rules starts all final u d t) :
    ∃ start steps, starts start ∧ Chain rules t start steps u ∧ steps.length = d := by
  obtain ⟨before, inv, -⟩ := into.inv
  exact inv.chain d u (List.mem_append_left _ (List.mem_append_right _ List.mem_cons_self))

/-- **Every popped node lies on the path of a leaf.** -/
theorem Popped.covered {fuel : Nat} {final : Search V P}
    (run : Popped rules starts fuel [] s ((s.pops rules fuel).map Prod.fst) final)
    (done : final.queue = []) (remaining : Nat) :
    ∀ {v d}, (v, d) ∈ (s.pops rules fuel).map Prod.fst → rules.depth ≤ d + remaining →
      ∃ entry ∈ s.pops rules fuel, isLeaf rules entry = true ∧ ∃ start steps, starts start ∧
        Chain rules entry.2 start steps entry.1.1 ∧ steps.length = entry.1.2 ∧
          (v = start ∨ v ∈ steps.map Prod.snd) := by
  obtain ⟨level, inv⟩ := run.inv
  induction remaining with
  | zero =>
    intro v d member deep
    obtain ⟨⟨pair, t⟩, popped, same⟩ := List.mem_map.mp member
    obtain rfl : pair = (v, d) := same
    obtain ⟨start, steps, seed, chain, length⟩ := (run.each _ popped).chain
    exact ⟨_, popped, by simp [isLeaf, show rules.depth ≤ d from deep], start, steps, seed, chain,
      length, chain.mem_end⟩
  | succ remaining ih =>
    intro v d member deep
    obtain ⟨⟨pair, t⟩, popped, same⟩ := List.mem_map.mp member
    obtain rfl : pair = (v, d) := same
    have into := run.each _ popped
    by_cases leaf : isLeaf rules ((v, d), t) = true
    · obtain ⟨start, steps, seed, chain, length⟩ := into.chain
      exact ⟨_, popped, leaf, start, steps, seed, chain, length, chain.mem_end⟩
    · -- a new neighbour is discovered from `v`, so the path that covers it passes `v`
      simp only [isLeaf, Bool.or_eq_true, decide_eq_true_eq, Bool.not_eq_true', not_or,
        Bool.not_eq_false, List.any_eq_true] at leaf
      obtain ⟨shallow, ⟨l, w⟩, step, unseen⟩ := leaf
      obtain ⟨known, l', -, entry⟩ := into.fresh (Nat.not_le.mp shallow) l w step unseen
      obtain ⟨e, found⟩ := inv.mem_visited.mp known
      have next : e = d + 1 := by
        cases e with
        | zero => simp [(inv.origin w 0 found).2] at entry
        | succ k =>
          obtain ⟨u, m, earlier, -, back⟩ := inv.origin w (k + 1) found
          have parents := congrArg (Option.map rules.parent) (back.symm.trans entry)
          simp only [Option.map_some, rules.parent_entry, Option.some.injEq] at parents
          rw [parents] at earlier
          rw [inv.distance_unique (List.mem_append_left _ earlier)
            (List.mem_append_left _ member)]
      rw [done, List.append_nil, next] at found
      obtain ⟨other, inside, ends, start, steps, seed, chain, length, through⟩ :=
        ih found (by omega)
      obtain ⟨_, _, later⟩ := (run.each other inside).inv
      have back := (chain.mono later).parent_mem through entry
      rw [rules.parent_entry] at back
      exact ⟨other, inside, ends, start, steps, seed, chain, length, back⟩

end Lain.Foundation.Bfs
