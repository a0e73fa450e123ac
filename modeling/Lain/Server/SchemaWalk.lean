import Mathlib
import Lain.Server.OpenapiSchema

/-!
# Where the walk of a schema ends

The walk comes to smaller schemas until it follows a reference.
-/

namespace Lain.Server

open Foundation TaskRuns Lain.Contracts

variable {spec : SpecFile}

/-! ### References -/

def nextComponent (spec : SpecFile) (schema : Yaml) (chain : List String) : Option String :=
  match reference schema with
  | .component name =>
    if name ∉ chain ∧ (spec.components.get? name).isSome then some name else none
  | _ => none

theorem resolveRef_eq_ok {schema resolved : Yaml} {chain via visited followed : List String}
    (resolves : resolveRef spec schema chain via = .ok resolved visited followed) :
    (reference schema = .none ∧ nextComponent spec schema chain = none ∧ resolved = schema ∧
      visited = chain ∧ followed = via) ∨
    ∃ name, nextComponent spec schema chain = some name ∧
      spec.components.get? name = some resolved ∧ name ∉ chain ∧
      visited = name :: chain ∧ followed = via ++ [name] := by
  unfold resolveRef at resolves
  unfold nextComponent
  cases refers : reference schema with
  | none =>
    rw [refers] at resolves
    cases resolves
    exact .inl ⟨rfl, rfl, rfl, rfl, rfl⟩
  | external ref =>
    rw [refers] at resolves
    cases resolves
  | unrecognized =>
    rw [refers] at resolves
    cases resolves
  | component name =>
    rw [refers] at resolves
    dsimp only at resolves
    by_cases listed : name ∈ chain
    · rw [if_pos listed] at resolves
      cases resolves
    · rw [if_neg listed] at resolves
      split at resolves
      next target found =>
          cases resolves
          refine .inr ⟨name, if_pos ⟨listed, ?_⟩, found, listed, rfl, rfl⟩
          rw [found]
          rfl
      next => cases resolves

def followedBy (spec : SpecFile) (task : FlattenTask) (state : Flattening) : Option String :=
  match task with
  | .inner schema _ chain _ => nextComponent spec schema chain
  | .property schema path _ chain _ =>
    if path ∈ state.seen then none else nextComponent spec schema chain
  | .mapField _ _ _ => none

/-! ### What a step does -/

noncomputable def FlattenTask.weight : FlattenTask → Nat
  | .inner schema _ _ _ => 2 * sizeOf schema
  | .property schema _ _ _ _ => 2 * sizeOf schema + 1
  | .mapField _ _ _ => 0

theorem sizeOf_of_mem_properties {schema : Yaml} {entry : Yaml × Yaml}
    (member : entry ∈ propertiesOf schema) : sizeOf entry.2 < sizeOf schema := by
  unfold propertiesOf at member
  cases found : schema.get "properties" with
  | none =>
    rw [found] at member
    exact absurd member List.not_mem_nil
  | some properties =>
    rw [found, Option.bind_some] at member
    cases mapped : properties.asMapping with
    | none =>
      rw [mapped] at member
      exact absurd member List.not_mem_nil
    | some entries =>
      rw [mapped] at member
      exact (Yaml.sizeOf_of_mem mapped member).trans (Yaml.sizeOf_get found)

section Tasks

variable {resolved : Yaml} {path : JsonPath} {chain via : List String} {sub : FlattenTask}

theorem itemTasks_spec (member : sub ∈ itemTasks resolved path chain via) :
    sub.via = via ∧ sub.weight < 2 * sizeOf resolved := by
  obtain ⟨items, found, rfl⟩ := List.mem_map.mp member
  have size := Yaml.sizeOf_get (Option.mem_toList.mp found)
  exact ⟨rfl, by change 2 * sizeOf items < _; omega⟩

theorem innerTasks_spec (member : sub ∈ innerTasks resolved path chain via) :
    sub.via = via ∧ sub.weight < 2 * sizeOf resolved := by
  rcases List.mem_append.mp member with branch | member
  · obtain ⟨schema, listed, rfl⟩ := List.mem_map.mp branch
    have size : sizeOf schema < sizeOf resolved := by
      rcases List.mem_append.mp listed with all | listed
      · exact Yaml.sizeOf_of_mem_items all
      · rcases List.mem_append.mp listed with one | any
        · exact Yaml.sizeOf_of_mem_items one
        · exact Yaml.sizeOf_of_mem_items any
    exact ⟨rfl, by change 2 * sizeOf schema < _; omega⟩
  · rcases List.mem_append.mp member with property | member
    · obtain ⟨entry, listed, named⟩ := List.mem_filterMap.mp property
      obtain ⟨name, -, rfl⟩ := Option.map_eq_some_iff.mp named
      have size := sizeOf_of_mem_properties listed
      exact ⟨rfl, by change 2 * sizeOf entry.2 + 1 < _; omega⟩
    · rcases List.mem_append.mp member with items | additional
      · exact itemTasks_spec items
      · unfold additionalTasks at additional
        split at additional
        next schema found =>
            have size := Yaml.sizeOf_get found
            split_ifs at additional with looks
            · rcases List.mem_cons.mp additional with rfl | rest
              · exact ⟨rfl, by change 0 < _; omega⟩
              · rw [List.mem_singleton.mp rest]
                exact ⟨rfl, by change 2 * sizeOf schema < _; omega⟩
            · exact absurd additional List.not_mem_nil
        next => exact absurd additional List.not_mem_nil

theorem belowTasks_spec {ty : TypeDesc} (member : sub ∈ belowTasks resolved path chain via ty) :
    sub.via = via ∧ sub.weight < 2 * sizeOf resolved + 1 := by
  unfold belowTasks at member
  split at member
  · obtain ⟨same, less⟩ := itemTasks_spec member
    exact ⟨same, Nat.lt_succ_of_lt less⟩
  · rw [List.mem_singleton.mp member]
    exact ⟨rfl, Nat.lt_succ_self _⟩
  · exact absurd member List.not_mem_nil

end Tasks

theorem flattenStep_tasks {task sub : FlattenTask} {state : Flattening}
    (member : sub ∈ (flattenStep spec task state).2) :
    (sub.via = task.via ∧ sub.weight < task.weight) ∨
      ∃ name, followedBy spec task state = some name ∧
        (spec.components.get? name).isSome = true ∧ sub.via = task.via ++ [name] := by
  unfold flattenStep at member
  cases task with
  | inner schema path chain via =>
    dsimp only at member
    split at member
    next resolved visited followed resolves =>
        obtain ⟨same, less⟩ := innerTasks_spec member
        rcases resolveRef_eq_ok resolves with ⟨-, -, rfl, rfl, rfl⟩ | ⟨name, next, found, -, -, rfl⟩
        · exact .inl ⟨same, less⟩
        · exact .inr ⟨name, next, by rw [found]; rfl, same⟩
    next => exact absurd member List.not_mem_nil
    next => exact absurd member List.not_mem_nil
  | property schema path required chain via =>
    dsimp only at member
    split at member
    next => exact absurd member List.not_mem_nil
    next => split_ifs at member <;> exact absurd member List.not_mem_nil
    next resolved visited followed resolves =>
        split_ifs at member with seen
        · exact absurd member List.not_mem_nil
        · obtain ⟨same, less⟩ := belowTasks_spec member
          rcases resolveRef_eq_ok resolves with
            ⟨-, -, rfl, rfl, rfl⟩ | ⟨name, next, found, -, -, rfl⟩
          · exact .inl ⟨same, less⟩
          · exact .inr ⟨name, (if_neg seen).trans next, by rw [found]; rfl, same⟩
  | mapField schema path via => exact absurd member List.not_mem_nil

theorem mem_mergeField {path : JsonPath} {resolved : Yaml} {fields : List FieldRecord}
    {f : FieldRecord} (member : f ∈ mergeField path resolved fields) :
    ∃ g ∈ fields, g.path = f.path ∧ g.via = f.via ∧ (f.fieldMeta = g.fieldMeta ∨
      f.path = path ∧ f.fieldMeta = mergeMeta resolved g.fieldMeta) := by
  induction fields with
  | nil => exact absurd member List.not_mem_nil
  | cons prior fields ih =>
    unfold mergeField at member
    split_ifs at member with same
    · rcases List.mem_cons.mp member with rfl | later
      · exact ⟨prior, List.mem_cons_self, rfl, rfl, .inr ⟨same, rfl⟩⟩
      · exact ⟨f, List.mem_cons_of_mem _ later, rfl, rfl, .inl rfl⟩
    · rcases List.mem_cons.mp member with rfl | later
      · exact ⟨f, List.mem_cons_self, rfl, rfl, .inl rfl⟩
      · obtain ⟨g, listed, all⟩ := ih later
        exact ⟨g, List.mem_cons_of_mem _ listed, all⟩

theorem exists_mem_mergeField {path : JsonPath} {resolved : Yaml} {fields : List FieldRecord}
    {f : FieldRecord} (member : f ∈ fields) :
    ∃ g ∈ mergeField path resolved fields, g.path = f.path ∧ g.via = f.via ∧
      g.fieldMeta.required = f.fieldMeta.required := by
  induction fields with
  | nil => exact absurd member List.not_mem_nil
  | cons prior fields ih =>
    unfold mergeField
    split_ifs with same
    · rcases List.mem_cons.mp member with rfl | later
      · exact ⟨_, List.mem_cons_self, rfl, rfl, rfl⟩
      · exact ⟨f, List.mem_cons_of_mem _ later, rfl, rfl, rfl⟩
    · rcases List.mem_cons.mp member with rfl | later
      · exact ⟨f, List.mem_cons_self, rfl, rfl, rfl⟩
      · obtain ⟨g, listed, all⟩ := ih later
        exact ⟨g, List.mem_cons_of_mem _ listed, all⟩

/-- **What a task adds**: a field after the references followed to the task, and the one that it
follows. -/
theorem flattenStep_fields {task : FlattenTask} {state : Flattening} {f : FieldRecord}
    (member : f ∈ (flattenStep spec task state).1.fields) :
    (∃ g ∈ state.fields, g.path = f.path ∧ g.via = f.via) ∨ f.via = task.via ∨
      ∃ name, followedBy spec task state = some name ∧ f.via = task.via ++ [name] := by
  unfold flattenStep at member
  cases task with
  | inner schema path chain via =>
    dsimp only at member
    split at member <;> exact .inl ⟨f, member, rfl, rfl⟩
  | property schema path required chain via =>
    dsimp only at member
    split at member
    next => exact .inl ⟨f, member, rfl, rfl⟩
    next =>
        split_ifs at member
        · exact .inl ⟨f, member, rfl, rfl⟩
        · rcases List.mem_append.mp member with before | added
          · exact .inl ⟨f, before, rfl, rfl⟩
          · rw [List.mem_singleton.mp added]
            exact .inr (.inl rfl)
    next resolved visited followed resolves =>
        split_ifs at member with seen
        · obtain ⟨g, listed, samePath, sameVia, -⟩ := mem_mergeField member
          exact .inl ⟨g, listed, samePath, sameVia⟩
        · rcases List.mem_append.mp member with before | added
          · exact .inl ⟨f, before, rfl, rfl⟩
          · rw [List.mem_singleton.mp added]
            rcases resolveRef_eq_ok resolves with
              ⟨-, -, rfl, rfl, rfl⟩ | ⟨name, next, -, -, -, rfl⟩
            · exact .inr (.inl rfl)
            · exact .inr (.inr ⟨name, (if_neg seen).trans next, rfl⟩)
  | mapField schema path via =>
    rcases List.mem_append.mp member with before | added
    · exact .inl ⟨f, before, rfl, rfl⟩
    · rw [List.mem_singleton.mp added]
      exact .inr (.inl rfl)

def GoesOn (state later : Flattening) : Prop :=
  ∀ f ∈ state.fields, ∃ g ∈ later.fields, g.path = f.path ∧ g.via = f.via

theorem goesOn_refl (state : Flattening) : GoesOn state state :=
  fun f member => ⟨f, member, rfl, rfl⟩

theorem goesOn_trans (a b c : Flattening) (first : GoesOn a b) (second : GoesOn b c) :
    GoesOn a c := by
  intro f member
  obtain ⟨g, there, samePath, sameVia⟩ := first f member
  obtain ⟨h, later, path, via⟩ := second g there
  exact ⟨h, later, path.trans samePath, via.trans sameVia⟩

theorem goesOn_step (task : FlattenTask) (state : Flattening) :
    GoesOn state (flattenStep spec task state).1 := by
  intro f member
  unfold flattenStep
  cases task with
  | inner schema path chain via =>
    dsimp only
    split <;> exact ⟨f, member, rfl, rfl⟩
  | property schema path required chain via =>
    dsimp only
    split
    · exact ⟨f, member, rfl, rfl⟩
    · split_ifs
      · exact ⟨f, member, rfl, rfl⟩
      · exact ⟨f, List.mem_append_left _ member, rfl, rfl⟩
    · split_ifs
      · obtain ⟨g, listed, path, via, -⟩ := exists_mem_mergeField member
        exact ⟨g, listed, path, via⟩
      · exact ⟨f, List.mem_append_left _ member, rfl, rfl⟩
  | mapField schema path via => exact ⟨f, List.mem_append_left _ member, rfl, rfl⟩

/-! ### Termination -/

abbrev Comes (spec : SpecFile) (schema : Yaml) (task : FlattenTask) (state : Flattening) : Prop :=
  Visits (flattenStep spec) (flattenRoot schema) noFields task state

/-- **A schema is flattened**: the walk ends, and no field is found behind a component that was
followed twice. -/
def Flattens (spec : SpecFile) (schema : Yaml) : Prop :=
  ∃ depth final, flattenSchema spec depth schema = some final ∧
    ∀ f ∈ final.fields, f.via.Nodup

def NoReturn (spec : SpecFile) (schema : Yaml) : Prop :=
  ∀ task state, Comes spec schema task state →
    ∀ name, followedBy spec task state = some name → name ∉ task.via

def NoPropertyReturns (spec : SpecFile) (schema : Yaml) : Prop :=
  ∀ property path required chain via state,
    Comes spec schema (.property property path required chain via) state → path ∉ state.seen →
      ∀ name, nextComponent spec property chain = some name → name ∉ via

variable {schema : Yaml}

theorem nodup_append_singleton {via : List String} {name : String} (distinct : via.Nodup)
    (other : name ∉ via) : (via ++ [name]).Nodup := by
  refine List.nodup_append.mpr ⟨distinct, List.nodup_singleton name, ?_⟩
  rintro a listed b single rfl
  exact other (List.mem_singleton.mp single ▸ listed)

theorem NoReturn.via {task : FlattenTask} {state : Flattening} (free : NoReturn spec schema)
    (comes : Comes spec schema task state) :
    task.via.Nodup ∧ ∀ name ∈ task.via, (spec.components.get? name).isSome = true := by
  induction comes with
  | root => exact ⟨.nil, fun name member => absurd member List.not_mem_nil⟩
  | @next task sub state middle before after visited whole done ih =>
    have member : sub ∈ (flattenStep spec task state).2 := by
      rw [whole]
      exact List.mem_append_right _ List.mem_cons_self
    rcases flattenStep_tasks member with ⟨same, -⟩ | ⟨name, follows, known, same⟩
    · rw [same]
      exact ih
    · rw [same]
      refine ⟨nodup_append_singleton ih.1 (free task state visited name follows), ?_⟩
      intro other listed
      rcases List.mem_append.mp listed with before | single
      · exact ih.2 other before
      · rw [List.mem_singleton.mp single]
        exact known

theorem NoReturn.length_lt {task : FlattenTask} {state : Flattening} {name : String}
    (free : NoReturn spec schema) (comes : Comes spec schema task state)
    (follows : followedBy spec task state = some name)
    (known : (spec.components.get? name).isSome = true) :
    task.via.length < spec.components.keys.length := by
  obtain ⟨distinct, components⟩ := free.via comes
  have more := nodup_append_singleton distinct (free task state comes name follows)
  have inside : task.via ++ [name] ⊆ spec.components.keys := by
    intro other listed
    rw [SortedMap.mem_keys]
    rcases List.mem_append.mp listed with before | single
    · exact components other before
    · rw [List.mem_singleton.mp single]
      exact known
  have most := (List.subperm_of_subset more inside).length_le
  rw [List.length_append, List.length_singleton] at most
  exact most

noncomputable def FlattenTask.measure (spec : SpecFile) (task : FlattenTask) : ℕ ×ₗ ℕ :=
  toLex (spec.components.keys.length - task.via.length, task.weight)

theorem NoReturn.measure_lt {task sub : FlattenTask} {state : Flattening}
    (free : NoReturn spec schema) (comes : Comes spec schema task state)
    (member : sub ∈ (flattenStep spec task state).2) : sub.measure spec < task.measure spec := by
  unfold FlattenTask.measure
  rw [Prod.Lex.toLex_lt_toLex]
  rcases flattenStep_tasks member with ⟨same, less⟩ | ⟨name, follows, known, same⟩
  · exact .inr ⟨by rw [same], less⟩
  · have room := free.length_lt comes follows known
    refine .inl ?_
    dsimp only
    rw [same, List.length_append, List.length_singleton]
    omega

/-- **The walk ends** when no component is followed again below it. -/
theorem NoReturn.flattens (free : NoReturn spec schema) : Flattens spec schema := by
  obtain ⟨final, depth, ended⟩ := exists_ends wellFounded_lt (FlattenTask.measure spec)
    fun _ _ comes _ member => free.measure_lt comes member
  refine ⟨depth, final, ended, ?_⟩
  have begins : ∀ f ∈ noFields.fields, f.via.Nodup := fun f member =>
    absurd member List.not_mem_nil
  refine @Ends.keeps _ _ _ _ _ (fun state => ∀ f ∈ state.fields, f.via.Nodup) _ ⟨depth, ended⟩
    (fun task state comes held f member => ?_) begins
  rcases flattenStep_fields member with ⟨g, before, -, same⟩ | same | ⟨name, follows, same⟩
  · exact same ▸ held g before
  · exact same ▸ (free.via comes).1
  · rw [same]
    exact nodup_append_singleton (free.via comes).1 (free task state comes name follows)

theorem Flattens.noPropertyReturns (flattens : Flattens spec schema) :
    NoPropertyReturns spec schema := by
  intro property path required chain via state comes unseen name next again
  obtain ⟨depth, final, ended, distinct⟩ := flattens
  have stays := comes.step_goes_on goesOn_refl goesOn_trans goesOn_step ⟨depth, ended⟩
  -- The step adds a field behind the component.
  obtain ⟨resolved, visited, resolves⟩ : ∃ resolved visited,
      resolveRef spec property chain via = .ok resolved visited (via ++ [name]) := by
    unfold nextComponent at next
    unfold resolveRef
    split at next
    next other refers =>
        rw [refers]
        dsimp only
        split_ifs at next with fresh
        obtain rfl := Option.some.inj next
        obtain ⟨target, found⟩ := Option.isSome_iff_exists.mp fresh.2
        rw [if_neg fresh.1, found]
        exact ⟨target, _, rfl⟩
    next => cases next
  have added : ∃ f ∈ (flattenStep spec (.property property path required chain via) state).1.fields,
      f.via = via ++ [name] := by
    unfold flattenStep
    dsimp only
    rw [resolves]
    dsimp only
    rw [if_neg unseen]
    exact ⟨_, List.mem_append_right _ (List.mem_singleton.mpr rfl), rfl⟩
  obtain ⟨f, inStep, viaStep⟩ := added
  obtain ⟨g, inFinal, -, viaFinal⟩ := stays f inStep
  have nodup := distinct g inFinal
  rw [viaFinal, viaStep] at nodup
  exact (List.nodup_append.mp nodup).2.2 name again name (List.mem_singleton.mpr rfl) rfl

/-- **The walk of a schema ends** when no component is followed again below it, and only when no
property follows one again. -/
theorem flattens_of_noReturn (spec : SpecFile) (schema : Yaml) :
    (NoReturn spec schema → Flattens spec schema) ∧
      (Flattens spec schema → NoPropertyReturns spec schema) :=
  ⟨NoReturn.flattens, Flattens.noPropertyReturns⟩

def refTo (name : String) : Yaml :=
  .mapping [(.string "$ref", .string ("#/components/schemas/" ++ name))]

def objectWith (name : String) (property : Yaml) : Yaml :=
  .mapping [(.string "properties", .mapping [(.string name, property)])]

def nodeFile : SpecFile where
  components := (∅ : SortedMap String Yaml).insert "Node" (objectWith "child" (refTo "Node"))
  jsonText := fun _ => none

theorem get?_nodeFile :
    nodeFile.components.get? "Node" = some (objectWith "child" (refTo "Node")) :=
  (SortedMap.get?_insert _ _ _ _).trans (if_pos rfl)

theorem reference_refTo_node : reference (refTo "Node") = .component "Node" := by
  decide

theorem resolveRef_node (via : List String) :
    resolveRef nodeFile (refTo "Node") [] via =
      .ok (objectWith "child" (refTo "Node")) ["Node"] (via ++ ["Node"]) := by
  unfold resolveRef
  rw [reference_refTo_node]
  dsimp only
  rw [if_neg List.not_mem_nil, get?_nodeFile]

/-- A tree that a property refers to is not flattened: its nodes are followed for ever. -/
theorem flattens_fails : ¬∀ (spec : SpecFile) (schema : Yaml), Flattens spec schema := by
  intro holds
  have returns := (holds nodeFile (objectWith "tree" (refTo "Node"))).noPropertyReturns
  have tree : Comes nodeFile (objectWith "tree" (refTo "Node"))
      (.property (refTo "Node") [.name "tree"] false [] []) noFields :=
    .next .root (rfl : _ = [] ++ _ :: []) rfl
  have below : (flattenStep nodeFile (.property (refTo "Node") [.name "tree"] false [] [])
      noFields).2 =
        [] ++ .inner (objectWith "child" (refTo "Node")) [.name "tree"] [] ["Node"] :: [] := by
    unfold flattenStep
    dsimp only
    rw [resolveRef_node]
    rfl
  have node := Visits.next tree below rfl
  have child : Comes nodeFile (objectWith "tree" (refTo "Node"))
      (.property (refTo "Node") [.name "tree", .name "child"] false [] ["Node"]) _ :=
    .next node (rfl : _ = [] ++ _ :: []) rfl
  refine returns _ _ _ _ _ _ child ?_ "Node" ?_ List.mem_cons_self
  · have seen : (flattenStep nodeFile (.property (refTo "Node") [.name "tree"] false [] [])
        noFields).1.seen = [[.name "tree"]] := by
      unfold flattenStep
      dsimp only
      rw [resolveRef_node]
      rfl
    change [PathSegment.name "tree", .name "child"] ∉ (flattenStep nodeFile
      (.property (refTo "Node") [.name "tree"] false [] []) noFields).1.seen
    rw [seen]
    decide
  · unfold nextComponent
    rw [reference_refTo_node]
    dsimp only
    rw [if_pos ⟨List.not_mem_nil, by rw [get?_nodeFile]; rfl⟩]

end Lain.Server
