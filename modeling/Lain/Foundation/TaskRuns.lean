import Mathlib

/-!
# Tasks that leave tasks

A task changes a state and leaves tasks that are done one after the other, each with all it leaves,
before the next.
-/

namespace Lain.Foundation.TaskRuns

variable {τ σ : Type*} (expand : τ → σ → σ × List τ)

/-- Do a task and all that it leaves, to a depth. -/
def run : Nat → τ → σ → Option σ
  | 0, _, _ => none
  | depth + 1, task, state =>
    (expand task state).2.foldlM (fun state task => run depth task state) (expand task state).1

/-- A task ends in a state. -/
def Ends (task : τ) (state final : σ) : Prop := ∃ depth, run expand depth task state = some final

def EndsAll : List τ → σ → σ → Prop
  | [], state, final => final = state
  | task :: tasks, state, final => ∃ middle, Ends expand task state middle ∧
      EndsAll tasks middle final

inductive Visits (first : τ) (start : σ) : τ → σ → Prop where
  | root : Visits first start first start
  | next {task sub : τ} {state middle : σ} {before after : List τ} :
      Visits first start task state → (expand task state).2 = before ++ sub :: after →
      EndsAll expand before (expand task state).1 middle → Visits first start sub middle

variable {expand}

/-! ### Depth -/

theorem run_succ {depth : Nat} :
    ∀ {task : τ} {state final : σ}, run expand depth task state = some final →
      run expand (depth + 1) task state = some final := by
  induction depth with
  | zero => exact fun ended => by cases ended
  | succ depth ih =>
    intro task state final ended
    rw [run] at ended ⊢
    generalize (expand task state).1 = begun at ended ⊢
    generalize (expand task state).2 = tasks at ended ⊢
    induction tasks generalizing begun with
    | nil => exact ended
    | cons first tasks rest =>
      rw [List.foldlM_cons] at ended ⊢
      obtain ⟨middle, one, others⟩ := Option.bind_eq_some_iff.mp ended
      rw [ih one]
      exact rest middle others

theorem run_mono {depth more : Nat} (deeper : depth ≤ more) {task : τ} {state final : σ}
    (ended : run expand depth task state = some final) :
    run expand more task state = some final := by
  induction deeper with
  | refl => exact ended
  | step _ ih => exact run_succ ih

theorem EndsAll.exists_depth {tasks : List τ} {state final : σ}
    (ends : EndsAll expand tasks state final) :
    ∃ depth, tasks.foldlM (fun state task => run expand depth task state) state = some final := by
  induction tasks generalizing state with
  | nil => exact ⟨0, congrArg some ends.symm⟩
  | cons task tasks ih =>
    obtain ⟨middle, ⟨depth, one⟩, others⟩ := ends
    obtain ⟨more, rest⟩ := ih others
    refine ⟨max depth more, ?_⟩
    rw [List.foldlM_cons, run_mono (le_max_left _ _) one]
    change tasks.foldlM _ middle = _
    clear ih one others
    induction tasks generalizing middle with
    | nil => exact rest
    | cons task tasks ih =>
      rw [List.foldlM_cons] at rest ⊢
      obtain ⟨next, one, others⟩ := Option.bind_eq_some_iff.mp rest
      rw [run_mono (le_max_right _ _) one]
      exact ih next others

theorem endsAll_of_foldlM {depth : Nat} {tasks : List τ} {state final : σ}
    (ended : tasks.foldlM (fun state task => run expand depth task state) state = some final) :
    EndsAll expand tasks state final := by
  induction tasks generalizing state with
  | nil => exact (Option.some.inj ended).symm
  | cons task tasks ih =>
    rw [List.foldlM_cons] at ended
    obtain ⟨middle, one, others⟩ := Option.bind_eq_some_iff.mp ended
    exact ⟨middle, ⟨depth, one⟩, ih others⟩

/-- **A task ends** as the tasks that it leaves do. -/
theorem ends_iff {task : τ} {state final : σ} :
    Ends expand task state final ↔
      EndsAll expand (expand task state).2 (expand task state).1 final := by
  constructor
  · rintro ⟨depth, ended⟩
    cases depth with
    | zero => cases ended
    | succ depth => exact endsAll_of_foldlM ended
  · intro ends
    obtain ⟨depth, ended⟩ := ends.exists_depth
    exact ⟨depth + 1, ended⟩

theorem Ends.unique {task : τ} {state final final' : σ} (ends : Ends expand task state final)
    (also : Ends expand task state final') : final = final' := by
  obtain ⟨depth, ended⟩ := ends
  obtain ⟨depth', ended'⟩ := also
  have one := run_mono (le_max_left depth depth') ended
  rw [run_mono (le_max_right depth depth') ended'] at one
  exact (Option.some.inj one).symm

theorem EndsAll.unique {tasks : List τ} {state final final' : σ}
    (ends : EndsAll expand tasks state final) (also : EndsAll expand tasks state final') :
    final = final' := by
  induction tasks generalizing state with
  | nil => exact ends.trans also.symm
  | cons task tasks ih =>
    obtain ⟨middle, one, others⟩ := ends
    obtain ⟨middle', one', others'⟩ := also
    obtain rfl := one.unique one'
    exact ih others others'

theorem endsAll_append {before after : List τ} {state final : σ} :
    EndsAll expand (before ++ after) state final ↔
      ∃ middle, EndsAll expand before state middle ∧ EndsAll expand after middle final := by
  induction before generalizing state with
  | nil => exact ⟨fun ends => ⟨state, rfl, ends⟩, fun ⟨_, same, ends⟩ => same ▸ ends⟩
  | cons task before ih =>
    constructor
    · rintro ⟨next, one, others⟩
      obtain ⟨middle, front, back⟩ := ih.mp others
      exact ⟨middle, ⟨next, one, front⟩, back⟩
    · rintro ⟨middle, ⟨next, one, front⟩, back⟩
      exact ⟨next, one, ih.mpr ⟨middle, front, back⟩⟩

/-! ### Runs -/

variable {first : τ} {start : σ}

/-- **A run ends** when the tasks it comes to leave smaller tasks. -/
theorem exists_ends {α : Type*} {smaller : α → α → Prop} (wf : WellFounded smaller)
    (measure : τ → α)
    (decreases : ∀ task state, Visits expand first start task state →
      ∀ sub ∈ (expand task state).2, smaller (measure sub) (measure task)) :
    ∃ final, Ends expand first start final := by
  have each : ∀ size task state, measure task = size → Visits expand first start task state →
      ∃ final, Ends expand task state final := by
    intro size
    induction size using wf.induction with
    | h size ih =>
      rintro task state rfl visited
      have all : ∀ after before middle, (expand task state).2 = before ++ after →
          EndsAll expand before (expand task state).1 middle →
          ∃ final, EndsAll expand after middle final := by
        intro after
        induction after with
        | nil => exact fun _ middle _ _ => ⟨middle, rfl⟩
        | cons sub after rest =>
          intro before middle whole done
          have there := Visits.next visited whole done
          obtain ⟨next, one⟩ := ih _ (decreases task state visited sub (by
            rw [whole]
            exact List.mem_append_right _ List.mem_cons_self)) sub middle rfl there
          obtain ⟨final, others⟩ := rest (before ++ [sub]) next (by
            rw [whole, List.append_assoc, List.singleton_append])
            (endsAll_append.mpr ⟨middle, done, next, one, rfl⟩)
          exact ⟨final, next, one, others⟩
      obtain ⟨final, ends⟩ := all _ [] _ rfl rfl
      exact ⟨final, ends_iff.mpr ends⟩
  exact each _ first start rfl .root

theorem Visits.trans {task other : τ} {state state' : σ}
    (visited : Visits expand first start task state) (later : Visits expand task state other state') :
    Visits expand first start other state' := by
  induction later with
  | root => exact visited
  | next _ whole done ih => exact .next ih whole done

private theorem keeps_of_run {always : σ → Prop}
    (step : ∀ task state, Visits expand first start task state → always state →
      always (expand task state).1) {depth : Nat} :
    ∀ {task : τ} {state final : σ}, Visits expand first start task state → always state →
      run expand depth task state = some final → always final := by
  induction depth with
  | zero => exact fun _ _ ended => by cases ended
  | succ depth ih =>
    intro task state final visited held ended
    have all : ∀ after before middle, (expand task state).2 = before ++ after →
        EndsAll expand before (expand task state).1 middle → always middle →
        after.foldlM (fun state task => run expand depth task state) middle = some final →
        always final := by
      intro after
      induction after with
      | nil =>
        intro _ middle _ _ held ended
        rw [← Option.some.inj ended]
        exact held
      | cons sub after rest =>
        intro before middle whole done held ended
        obtain ⟨next, one, others⟩ := Option.bind_eq_some_iff.mp ended
        exact rest (before ++ [sub]) next
          (by rw [whole, List.append_assoc, List.singleton_append])
          (endsAll_append.mpr ⟨middle, done, next, ⟨depth, one⟩, rfl⟩)
          (ih (.next visited whole done) held one) others
    exact all _ [] _ rfl rfl (step task state visited held) ended

/-- **What every step keeps** holds where a run ends. -/
theorem Ends.keeps {always : σ → Prop} {final : σ} (ends : Ends expand first start final)
    (step : ∀ task state, Visits expand first start task state → always state →
      always (expand task state).1) (begins : always start) : always final := by
  obtain ⟨depth, ended⟩ := ends
  exact keeps_of_run step .root begins ended

/-- **What every step keeps** holds wherever a run comes to. -/
theorem Visits.keeps {always : σ → Prop} {task : τ} {state : σ}
    (visited : Visits expand first start task state)
    (step : ∀ task state, Visits expand first start task state → always state →
      always (expand task state).1) (begins : always start) : always state := by
  induction visited with
  | root => exact begins
  | @next task sub state middle before after visited whole done ih =>
    have all : ∀ rest done' state' , (expand task state).2 = done' ++ (rest ++ sub :: after) →
        EndsAll expand done' (expand task state).1 state' → always state' →
        EndsAll expand rest state' middle → always middle := by
      intro rest
      induction rest with
      | nil => exact fun _ _ _ _ held same => same ▸ held
      | cons one rest others =>
        rintro done' state' whole' front held ⟨next, ends, back⟩
        have there := Visits.next visited whole' front
        exact others (done' ++ [one]) next
          (by rw [whole', List.append_assoc, List.cons_append, List.singleton_append])
          (endsAll_append.mpr ⟨state', front, next, ends, rfl⟩)
          (ends.keeps (fun task state later held =>
            step task state (there.trans later) held) held) back
    exact all before [] _ whole rfl (step task state visited ih) done

section GoesOn

variable {goesOn : σ → σ → Prop} (refl : ∀ state, goesOn state state)
  (trans : ∀ a b c, goesOn a b → goesOn b c → goesOn a c)
  (step : ∀ task state, goesOn state (expand task state).1)

include refl trans step

theorem Ends.goes_on {task : τ} {state final : σ} (ends : Ends expand task state final) :
    goesOn state final :=
  ends.keeps (fun task later _ before => trans _ _ _ before (step task later)) (refl state)

theorem EndsAll.goes_on {tasks : List τ} {state final : σ}
    (ends : EndsAll expand tasks state final) : goesOn state final := by
  induction tasks generalizing state with
  | nil => exact ends ▸ refl state
  | cons task tasks ih =>
    obtain ⟨middle, one, others⟩ := ends
    exact trans _ _ _ (one.goes_on refl trans step) (ih others)

/-- **What steps add stays**: a run that ends has done each task that it comes to, and goes on from
there. -/
theorem Visits.goes_on {task : τ} {state final : σ}
    (visited : Visits expand first start task state) (ends : Ends expand first start final) :
    ∃ done, Ends expand task state done ∧ goesOn done final := by
  induction visited with
  | root => exact ⟨final, ends, refl final⟩
  | next _ whole done ih =>
    obtain ⟨done', ends', later⟩ := ih
    rw [ends_iff, whole] at ends'
    obtain ⟨middle', front, next, one, others⟩ := endsAll_append.mp ends'
    obtain rfl := front.unique done
    exact ⟨next, one, trans _ _ _ (others.goes_on refl trans step) later⟩

theorem Visits.step_goes_on {task : τ} {state final : σ}
    (visited : Visits expand first start task state) (ends : Ends expand first start final) :
    goesOn (expand task state).1 final := by
  obtain ⟨done, ends, later⟩ := visited.goes_on refl trans step ends
  exact trans _ _ _ ((ends_iff.mp ends).goes_on refl trans step) later

end GoesOn

theorem Visits.exists_sub {task sub : τ} {state final : σ}
    (visited : Visits expand first start task state) (ends : Ends expand first start final)
    (member : sub ∈ (expand task state).2) :
    ∃ middle, Visits expand first start sub middle := by
  obtain ⟨done, ends, -⟩ := @Visits.goes_on _ _ _ _ _ (fun _ _ => True) (fun _ => trivial)
    (fun _ _ _ _ _ => trivial) (fun _ _ => trivial) _ _ _ visited ends
  obtain ⟨before, after, whole⟩ := List.append_of_mem member
  rw [ends_iff, whole] at ends
  obtain ⟨middle, front, -⟩ := endsAll_append.mp ends
  exact ⟨middle, .next visited whole front⟩

end Lain.Foundation.TaskRuns
