import Mathlib
import Lain.Server.SchemaWalk

/-!
# The fields a walk finds

What a schema declares: the paths of its properties and additional properties at any depth, behind
every keyword and every reference into the file.
-/

namespace Lain.Server

open Foundation TaskRuns Lain.Contracts

variable {spec : SpecFile}

/-! ### What is declared -/

/-- A field at a path, or a property there that refers out of the file. -/
inductive Declared where
  | field (path : JsonPath)
  | external (path : JsonPath) (ref : String)

def Declared.path : Declared → JsonPath
  | .field path => path
  | .external path _ => path

inductive PartOf (schema : Yaml) : Yaml → Prop where
  | branch {keyword : String} {branch : Yaml} : keyword ∈ ["allOf", "oneOf", "anyOf"] →
      branch ∈ schema.items keyword → PartOf schema branch
  | property {entry : Yaml × Yaml} {name : String} : entry ∈ propertiesOf schema →
      entry.1.asStr = some name → PartOf schema entry.2
  | items {items : Yaml} : schema.get "items" = some items → PartOf schema items
  | additional {additional : Yaml} : schema.get "additionalProperties" = some additional →
      looksLikeSchema additional = true → PartOf schema additional

/-- **What a schema declares** at a path. -/
inductive Declares (spec : SpecFile) : Yaml → JsonPath → Declared → Prop where
  | reference {schema target : Yaml} {path : JsonPath} {d : Declared} {name : String} :
      reference schema = .component name → spec.components.get? name = some target →
      Declares spec target path d → Declares spec schema path d
  | branch {schema branch : Yaml} {path : JsonPath} {d : Declared} {keyword : String} :
      keyword ∈ ["allOf", "oneOf", "anyOf"] → branch ∈ schema.items keyword →
      Declares spec branch path d → Declares spec schema path d
  | property {schema : Yaml} {path : JsonPath} {entry : Yaml × Yaml} {name : String} :
      entry ∈ propertiesOf schema → entry.1.asStr = some name →
      Declares spec schema path (.field (path ++ [propSegment name]))
  | external {schema : Yaml} {path : JsonPath} {entry : Yaml × Yaml} {name ref : String} :
      entry ∈ propertiesOf schema → entry.1.asStr = some name →
      reference entry.2 = .external ref →
      Declares spec schema path (.external (path ++ [propSegment name]) ref)
  | belowProperty {schema : Yaml} {path : JsonPath} {d : Declared} {entry : Yaml × Yaml}
      {name : String} : entry ∈ propertiesOf schema → entry.1.asStr = some name →
      Declares spec entry.2 (path ++ [propSegment name]) d → Declares spec schema path d
  | items {schema items : Yaml} {path : JsonPath} {d : Declared} :
      schema.get "items" = some items → Declares spec items (path ++ [.arrayItems]) d →
      Declares spec schema path d
  | additional {schema additional : Yaml} {path : JsonPath} :
      schema.get "additionalProperties" = some additional → looksLikeSchema additional = true →
      Declares spec schema path (.field (path ++ [.mapValues]))
  | belowAdditional {schema additional : Yaml} {path : JsonPath} {d : Declared} :
      schema.get "additionalProperties" = some additional → looksLikeSchema additional = true →
      Declares spec additional (path ++ [.mapValues]) d → Declares spec schema path d

theorem Declares.length_lt {schema : Yaml} {path : JsonPath} {d : Declared}
    (declares : Declares spec schema path d) : path.length < d.path.length := by
  induction declares with
  | reference _ _ _ ih => exact ih
  | branch _ _ _ ih => exact ih
  | property _ _ => simp [Declared.path]
  | external _ _ _ => simp [Declared.path]
  | belowProperty _ _ _ ih => exact (by simp : _ < _).trans ih
  | items _ _ ih => exact (by simp : _ < _).trans ih
  | additional _ _ => simp [Declared.path]
  | belowAdditional _ _ _ ih => exact (by simp : _ < _).trans ih

def DeclaresBelow (spec : SpecFile) (task : FlattenTask) (d : Declared) : Prop :=
  match task with
  | .inner schema path _ _ => Declares spec schema path d
  | .property schema path _ _ _ => Declares spec schema path d
  | .mapField _ _ _ => False

def TaskDeclares (spec : SpecFile) (task : FlattenTask) (d : Declared) : Prop :=
  match task with
  | .inner schema path _ _ => Declares spec schema path d
  | .property schema path _ _ _ => d = .field path ∨
      (∃ ref, reference schema = .external ref ∧ d = .external path ref) ∨
      Declares spec schema path d
  | .mapField _ path _ => d = .field path

theorem TaskDeclares.length_le {task : FlattenTask} {d : Declared}
    (declares : TaskDeclares spec task d) : task.path.length ≤ d.path.length := by
  cases task with
  | inner schema path chain via => exact (Declares.length_lt declares).le
  | property schema path required chain via =>
    rcases declares with rfl | ⟨ref, -, rfl⟩ | below
    · exact le_refl _
    · exact le_refl _
    · exact below.length_lt.le
  | mapField schema path via =>
    obtain rfl : d = _ := declares
    exact le_refl _

section Tasks

variable {schema : Yaml} {path : JsonPath} {chain via : List String} {sub : FlattenTask}
  {d : Declared}

theorem mem_innerTasks : sub ∈ innerTasks schema path chain via ↔
    (∃ keyword ∈ ["allOf", "oneOf", "anyOf"], ∃ branch ∈ schema.items keyword,
      sub = .inner branch path chain via) ∨
    (∃ entry ∈ propertiesOf schema, ∃ name, entry.1.asStr = some name ∧
      sub = .property entry.2 (path ++ [propSegment name])
        (decide (name ∈ requiredCombined schema)) chain via) ∨
    (∃ items, schema.get "items" = some items ∧
      sub = .inner items (path ++ [.arrayItems]) chain via) ∨
    ∃ additional, schema.get "additionalProperties" = some additional ∧
      looksLikeSchema additional = true ∧
      (sub = .mapField additional (path ++ [.mapValues]) via ∨
        sub = .inner additional (path ++ [.mapValues]) chain via) := by
  unfold innerTasks
  rw [List.mem_append, List.mem_append, List.mem_append]
  refine or_congr ?_ (or_congr ?_ (or_congr ?_ ?_))
  · unfold branchTasks
    rw [List.mem_map]
    constructor
    · rintro ⟨branch, listed, rfl⟩
      rcases List.mem_append.mp listed with all | listed
      · exact ⟨"allOf", by simp, branch, all, rfl⟩
      · rcases List.mem_append.mp listed with one | any
        · exact ⟨"oneOf", by simp, branch, one, rfl⟩
        · exact ⟨"anyOf", by simp, branch, any, rfl⟩
    · rintro ⟨keyword, known, branch, listed, rfl⟩
      refine ⟨branch, ?_, rfl⟩
      rw [List.mem_append, List.mem_append]
      simp only [List.mem_cons, List.not_mem_nil, or_false] at known
      rcases known with rfl | rfl | rfl
      · exact .inl listed
      · exact .inr (.inl listed)
      · exact .inr (.inr listed)
  · unfold propertyTasks
    rw [List.mem_filterMap]
    constructor
    · rintro ⟨entry, listed, named⟩
      obtain ⟨name, text, rfl⟩ := Option.map_eq_some_iff.mp named
      exact ⟨entry, listed, name, text, rfl⟩
    · rintro ⟨entry, listed, name, text, rfl⟩
      exact ⟨entry, listed, by rw [text]; rfl⟩
  · unfold itemTasks
    rw [List.mem_map]
    constructor
    · rintro ⟨items, found, rfl⟩
      exact ⟨items, Option.mem_toList.mp found, rfl⟩
    · rintro ⟨items, found, rfl⟩
      exact ⟨items, Option.mem_toList.mpr found, rfl⟩
  · unfold additionalTasks
    constructor
    · intro member
      split at member
      next additional found =>
          split_ifs at member with looks
          · rcases List.mem_cons.mp member with rfl | rest
            · exact ⟨additional, found, looks, .inl rfl⟩
            · exact ⟨additional, found, looks, .inr (List.mem_singleton.mp rest)⟩
          · exact absurd member List.not_mem_nil
      next => exact absurd member List.not_mem_nil
    · rintro ⟨additional, found, looks, either⟩
      rw [found]
      dsimp only
      rw [if_pos looks]
      rcases either with rfl | rfl
      · exact List.mem_cons_self
      · exact List.mem_cons_of_mem _ (List.mem_singleton.mpr rfl)

theorem mem_belowTasks {ty : TypeDesc} (member : sub ∈ belowTasks schema path chain via ty) :
    sub = .inner schema path chain via ∨ sub ∈ innerTasks schema path chain via := by
  unfold belowTasks at member
  split at member
  · refine .inr ?_
    unfold innerTasks
    rw [List.mem_append, List.mem_append, List.mem_append]
    exact .inr (.inr (.inl member))
  · exact .inl (List.mem_singleton.mp member)
  · exact absurd member List.not_mem_nil

end Tasks

theorem mem_flattenStep {task sub : FlattenTask} {state : Flattening}
    (member : sub ∈ (flattenStep spec task state).2) :
    ∃ resolved visited followed chain,
      resolveRef spec task.schema task.chain task.via = .ok resolved visited followed ∧
      (chain = visited ∨ chain = task.chain) ∧
      (sub = .inner resolved task.path chain followed ∨
        sub ∈ innerTasks resolved task.path chain followed) := by
  unfold flattenStep at member
  cases task with
  | inner schema path chain via =>
    dsimp only at member
    split at member
    next resolved visited followed resolves =>
        exact ⟨resolved, visited, followed, visited, resolves, .inl rfl, .inr member⟩
    next => exact absurd member List.not_mem_nil
    next => exact absurd member List.not_mem_nil
  | property schema path required chain via =>
    dsimp only at member
    split at member
    next => exact absurd member List.not_mem_nil
    next => split_ifs at member <;> exact absurd member List.not_mem_nil
    next resolved visited followed resolves =>
        split_ifs at member
        · exact absurd member List.not_mem_nil
        · exact ⟨resolved, visited, followed, chain, resolves, .inr rfl, mem_belowTasks member⟩
  | mapField schema path via => exact absurd member List.not_mem_nil

variable {schema : Yaml}

/-- The schemas that a schema leads to, each with the references followed to it. -/
inductive Reaches (spec : SpecFile) (root : Yaml) : Yaml → List String → Prop where
  | root : Reaches spec root root []
  | reference {schema target : Yaml} {via : List String} {name : String} :
      Reaches spec root schema via → reference schema = .component name →
      spec.components.get? name = some target → Reaches spec root target (via ++ [name])
  | part {schema part : Yaml} {via : List String} : Reaches spec root schema via →
      PartOf schema part → Reaches spec root part via

/-- **No reference cycles**: no way through a schema follows a component twice. -/
def Acyclic (spec : SpecFile) (root : Yaml) : Prop :=
  ∀ schema via name, Reaches spec root schema via → reference schema = .component name →
    (spec.components.get? name).isSome = true → name ∉ via

theorem partOf_of_mem_innerTasks {resolved : Yaml} {path : JsonPath} {chain via : List String}
    {sub : FlattenTask} (member : sub ∈ innerTasks resolved path chain via) :
    PartOf resolved sub.schema ∧ sub.via = via ∧ sub.chain ⊆ chain := by
  rcases mem_innerTasks.mp member with ⟨keyword, known, branch, listed, rfl⟩ |
    ⟨entry, listed, name, text, rfl⟩ | ⟨items, found, rfl⟩ |
    ⟨additional, found, looks, rfl | rfl⟩
  · exact ⟨.branch known listed, rfl, fun _ listed => listed⟩
  · exact ⟨.property listed text, rfl, fun _ listed => listed⟩
  · exact ⟨.items found, rfl, fun _ listed => listed⟩
  · exact ⟨.additional found looks, rfl, List.nil_subset chain⟩
  · exact ⟨.additional found looks, rfl, fun _ listed => listed⟩

theorem Reaches.resolveRef {root schema resolved : Yaml} {chain via visited followed : List String}
    (reaches : Reaches spec root schema via)
    (resolves : resolveRef spec schema chain via = .ok resolved visited followed)
    (within : chain ⊆ via) :
    Reaches spec root resolved followed ∧ visited ⊆ followed ∧ via ⊆ followed := by
  rcases resolveRef_eq_ok resolves with ⟨-, -, rfl, rfl, rfl⟩ | ⟨name, next, found, -, rfl, rfl⟩
  · exact ⟨reaches, within, fun _ listed => listed⟩
  · refine ⟨?_, ?_, fun _ listed => List.mem_append_left _ listed⟩
    · unfold nextComponent at next
      split at next
      next other refers =>
          split_ifs at next
          obtain rfl := Option.some.inj next
          exact .reference reaches refers found
      next => cases next
    · intro other listed
      rcases List.mem_cons.mp listed with rfl | before
      · exact List.mem_append_right _ (List.mem_singleton.mpr rfl)
      · exact List.mem_append_left _ (within before)

theorem reaches_of_comes {task : FlattenTask} {state : Flattening}
    (comes : Comes spec schema task state) :
    Reaches spec schema task.schema task.via ∧ task.chain ⊆ task.via := by
  induction comes with
  | root => exact ⟨.root, List.nil_subset _⟩
  | @next task sub state middle before after visited whole done ih =>
    have member : sub ∈ (flattenStep spec task state).2 := by
      rw [whole]
      exact List.mem_append_right _ List.mem_cons_self
    obtain ⟨resolved, visited, followed, chain, resolves, either, listed⟩ :=
      mem_flattenStep member
    obtain ⟨reaches, within, more⟩ := ih.1.resolveRef resolves ih.2
    have inside : chain ⊆ followed := by
      rcases either with rfl | rfl
      · exact within
      · exact List.Subset.trans ih.2 more
    rcases listed with rfl | listed
    · exact ⟨reaches, inside⟩
    · obtain ⟨part, same, fewer⟩ := partOf_of_mem_innerTasks listed
      rw [same]
      exact ⟨.part reaches part, List.Subset.trans fewer inside⟩

theorem followedBy_eq_some {task : FlattenTask} {state : Flattening} {name : String}
    (follows : followedBy spec task state = some name) :
    reference task.schema = .component name ∧
      (spec.components.get? name).isSome = true := by
  have next : ∀ {schema : Yaml} {chain : List String},
      nextComponent spec schema chain = some name →
        reference schema = .component name ∧ (spec.components.get? name).isSome = true := by
    intro schema chain next
    unfold nextComponent at next
    split at next
    next other refers =>
        split_ifs at next with known
        obtain rfl := Option.some.inj next
        exact ⟨refers, known.2⟩
    next => cases next
  cases task with
  | inner schema path chain via => exact next follows
  | property schema path required chain via =>
    unfold followedBy at follows
    dsimp only at follows
    split_ifs at follows
    exact next follows
  | mapField schema path via => cases follows

theorem Acyclic.noReturn (acyclic : Acyclic spec schema) : NoReturn spec schema := by
  intro task state comes name follows
  obtain ⟨refers, known⟩ := followedBy_eq_some follows
  exact acyclic _ _ _ (reaches_of_comes comes).1 refers known

theorem Acyclic.ne_cycle (acyclic : Acyclic spec schema) {task : FlattenTask} {state : Flattening}
    (comes : Comes spec schema task state) :
    resolveRef spec task.schema task.chain task.via ≠ .cycle := by
  intro cut
  obtain ⟨reaches, within⟩ := reaches_of_comes comes
  unfold Server.resolveRef at cut
  split at cut
  next => cases cut
  next => cases cut
  next => cases cut
  next name refers =>
      by_cases listed : name ∈ task.chain
      · have known := (acyclic.noReturn.via comes).2 name (within listed)
        exact acyclic _ _ _ reaches refers known (within listed)
      · rw [if_neg listed] at cut
        split at cut <;> cases cut

/-! ### What a step changes -/

def FlattenTask.isProperty : FlattenTask → Bool
  | .property _ _ _ _ _ => true
  | _ => false

def Resolves (spec : SpecFile) (task : FlattenTask) (resolved : Yaml) : Prop :=
  ∃ visited followed,
    resolveRef spec task.schema task.chain task.via = .ok resolved visited followed

theorem flattenStep_cases (spec : SpecFile) (task : FlattenTask) (state : Flattening) :
    ((flattenStep spec task state).1.seen = state.seen ∧
      (flattenStep spec task state).1.fields = state.fields) ∨
    (∃ schema path required chain via fieldMeta followed,
      task = .property schema path required chain via ∧ path ∉ state.seen ∧
      (flattenStep spec task state).1.seen = path :: state.seen ∧
      (flattenStep spec task state).1.fields = state.fields ++ [⟨path, fieldMeta, followed⟩] ∧
      fieldMeta.required = required ∧
      (resolveRef spec schema chain via = .cycle ∨
        ∃ resolved, Resolves spec task resolved ∧ fieldMeta.ty = typeDescOf resolved)) ∨
    (∃ resolved, task.isProperty = true ∧ task.path ∈ state.seen ∧ Resolves spec task resolved ∧
      (flattenStep spec task state).1.seen = state.seen ∧
      (flattenStep spec task state).1.fields = mergeField task.path resolved state.fields) ∨
    ∃ schema path via, task = .mapField schema path via ∧
      (flattenStep spec task state).1.seen = state.seen ∧
      (flattenStep spec task state).1.fields =
        state.fields ++ [⟨path, fieldMetaFromSchema spec schema, via⟩] := by
  cases task with
  | inner schema path chain via =>
    refine .inl ?_
    unfold flattenStep
    dsimp only
    split <;> exact ⟨rfl, rfl⟩
  | property schema path required chain via =>
    have resolving : ∀ {resolved : Yaml} {visited followed : List String},
        resolveRef spec schema chain via = .ok resolved visited followed →
          Resolves spec (.property schema path required chain via) resolved :=
      fun resolves => ⟨_, _, resolves⟩
    unfold flattenStep
    dsimp only
    split
    next => exact .inl ⟨rfl, rfl⟩
    next cut =>
        split_ifs with seen
        · exact .inl ⟨rfl, rfl⟩
        · exact .inr (.inl ⟨schema, path, required, chain, via, _, via, rfl, seen, rfl, rfl, rfl,
            .inl cut⟩)
    next resolved visited followed resolves =>
        split_ifs with seen
        · exact .inr (.inr (.inl ⟨resolved, rfl, seen, resolving resolves, rfl, rfl⟩))
        · exact .inr (.inl ⟨schema, path, required, chain, via, _, followed, rfl, seen, rfl, rfl,
            rfl, .inr ⟨resolved, resolving resolves, rfl⟩⟩)
  | mapField schema path via =>
    exact .inr (.inr (.inr ⟨schema, path, via, rfl, rfl, rfl⟩))

theorem map_path_mergeField (path : JsonPath) (resolved : Yaml) (fields : List FieldRecord) :
    (mergeField path resolved fields).map FieldRecord.path = fields.map FieldRecord.path := by
  induction fields with
  | nil => rfl
  | cons prior fields ih =>
    unfold mergeField
    split_ifs
    · rfl
    · rw [List.map_cons, List.map_cons, ih]

theorem map_path_isPrefix (task : FlattenTask) (state : Flattening) :
    state.fields.map FieldRecord.path <+:
      (flattenStep spec task state).1.fields.map FieldRecord.path := by
  rcases flattenStep_cases spec task state with ⟨-, same⟩ |
    ⟨schema, path, required, chain, via, fieldMeta, followed, -, -, -, added, -⟩ |
    ⟨resolved, -, -, -, -, merged⟩ | ⟨schema, path, via, -, -, added⟩
  · rw [same]
  · rw [added, List.map_append]
    exact List.prefix_append _ _
  · rw [merged, map_path_mergeField]
  · rw [added, List.map_append]
    exact List.prefix_append _ _

theorem exists_segment_of_comes {task : FlattenTask} {state : Flattening}
    (comes : Comes spec schema task state) (property : task.isProperty = true) :
    ∃ path name, task.path = path ++ [propSegment name] := by
  cases comes with
  | root => cases property
  | next visited whole done =>
    rename_i parent begun before after
    have member : task ∈ (flattenStep spec parent begun).2 := by
      rw [whole]
      exact List.mem_append_right _ List.mem_cons_self
    obtain ⟨resolved, -, via, chain, -, -, rfl | inside⟩ := mem_flattenStep member
    · cases property
    · rcases mem_innerTasks.mp inside with ⟨keyword, known, branch, listed, rfl⟩ |
        ⟨entry, listed, name, text, rfl⟩ | ⟨items, found, rfl⟩ |
        ⟨additional, found, looks, rfl | rfl⟩
      · cases property
      · exact ⟨_, name, rfl⟩
      · cases property
      · cases property
      · cases property

theorem exists_mapValues_of_comes {schema' : Yaml} {path : JsonPath} {via : List String}
    {state : Flattening} (comes : Comes spec schema (.mapField schema' path via) state) :
    ∃ before, path = before ++ [.mapValues] := by
  cases comes with
  | next visited whole done =>
    rename_i parent begun before after
    have member : FlattenTask.mapField schema' path via ∈ (flattenStep spec parent begun).2 := by
      rw [whole]
      exact List.mem_append_right _ List.mem_cons_self
    obtain ⟨resolved, -, via', chain, -, -, other | inside⟩ := mem_flattenStep member
    · cases other
    · rcases mem_innerTasks.mp inside with ⟨keyword, known, branch, listed, other⟩ |
        ⟨entry, listed, name, text, other⟩ | ⟨items, found, other⟩ |
        ⟨additional, found, looks, same | other⟩
      · cases other
      · cases other
      · cases other
      · cases same
        exact ⟨_, rfl⟩
      · cases other

theorem propSegment_ne_mapValues (name : String) : propSegment name ≠ .mapValues := by
  unfold propSegment
  split_ifs
  · exact fun same => by cases same
  · exact fun same => by cases same

theorem path_ne_mapValues {task : FlattenTask} {state : Flattening}
    (comes : Comes spec schema task state) (property : task.isProperty = true)
    (before : JsonPath) : task.path ≠ before ++ [.mapValues] := by
  obtain ⟨path, name, same⟩ := exists_segment_of_comes comes property
  rw [same]
  intro equal
  exact propSegment_ne_mapValues name (List.append_inj_right' equal rfl |> List.singleton_inj.mp)

/-! ### What a walk keeps -/

structure FirstAt (spec : SpecFile) (schema : Yaml) (path : JsonPath) (task : FlattenTask)
    (state : Flattening) : Prop where
  comes : Comes spec schema task state
  property : task.isProperty = true
  samePath : task.path = path
  unseen : path ∉ state.seen
  resolves : ∃ resolved, Resolves spec task resolved

structure WalkKept (spec : SpecFile) (schema : Yaml) (state : Flattening) : Prop where
  seen : ∀ path ∈ state.seen, path ∈ state.fields.map FieldRecord.path ∧
    ∃ task begun, FirstAt spec schema path task begun
  fields : ∀ path ∈ state.fields.map FieldRecord.path,
    path ∈ state.seen ∨ ∃ before, path = before ++ [.mapValues]

theorem walkKept_step (acyclic : Acyclic spec schema) {task : FlattenTask} {state : Flattening}
    (comes : Comes spec schema task state) (kept : WalkKept spec schema state) :
    WalkKept spec schema (flattenStep spec task state).1 := by
  have stays := @map_path_isPrefix spec task state
  rcases flattenStep_cases spec task state with ⟨seen, same⟩ |
    ⟨schema', path, required, chain, via, fieldMeta, followed, rfl, unseen, seen, added, -,
      either⟩ |
    ⟨resolved, -, -, -, seen, merged⟩ | ⟨schema', path, via, rfl, seen, added⟩
  · refine ⟨?_, ?_⟩
    · rw [seen, same]
      exact kept.seen
    · rw [seen, same]
      exact kept.fields
  · have resolves : ∃ resolved, Resolves spec (.property schema' path required chain via)
        resolved := by
      rcases either with cut | ⟨resolved, resolves, -⟩
      · exact absurd cut (acyclic.ne_cycle comes)
      · exact ⟨resolved, resolves⟩
    refine ⟨fun other member => ?_, fun other member => ?_⟩
    · rw [seen] at member
      rcases List.mem_cons.mp member with rfl | before
      · refine ⟨?_, _, state, comes, rfl, rfl, unseen, resolves⟩
        rw [added, List.map_append]
        exact List.mem_append_right _ List.mem_cons_self
      · exact ⟨stays.subset (kept.seen other before).1, (kept.seen other before).2⟩
    · rw [added, List.map_append] at member
      rw [seen]
      rcases List.mem_append.mp member with before | new
      · exact (kept.fields other before).imp_left (List.mem_cons_of_mem _)
      · rw [List.mem_singleton.mp new]
        exact .inl List.mem_cons_self
  · refine ⟨?_, ?_⟩
    · rw [seen, merged, map_path_mergeField]
      exact kept.seen
    · rw [seen, merged, map_path_mergeField]
      exact kept.fields
  · refine ⟨fun other member => ?_, fun other member => ?_⟩
    · rw [seen] at member
      exact ⟨stays.subset (kept.seen other member).1, (kept.seen other member).2⟩
    · rw [added, List.map_append] at member
      rw [seen]
      rcases List.mem_append.mp member with before | new
      · exact kept.fields other before
      · rw [List.mem_singleton.mp new]
        exact .inr (exists_mapValues_of_comes comes)

theorem walkKept_noFields : WalkKept spec schema noFields :=
  ⟨fun _ member => absurd member List.not_mem_nil, fun _ member => absurd member List.not_mem_nil⟩

theorem walkKept_of_comes (acyclic : Acyclic spec schema) {task : FlattenTask}
    {state : Flattening} (comes : Comes spec schema task state) : WalkKept spec schema state :=
  comes.keeps (fun _ _ => walkKept_step acyclic) walkKept_noFields

theorem map_path_isPrefix_final {task : FlattenTask} {state final : Flattening}
    (comes : Comes spec schema task state)
    (ends : Ends (flattenStep spec) (flattenRoot schema) noFields final) :
    (flattenStep spec task state).1.fields.map FieldRecord.path <+:
      final.fields.map FieldRecord.path :=
  @Visits.step_goes_on _ _ _ _ _
    (fun a b : Flattening => a.fields.map FieldRecord.path <+: b.fields.map FieldRecord.path)
    (fun _ => List.prefix_refl _) (fun _ _ _ first second => first.trans second)
    map_path_isPrefix _ _ _ comes ends

theorem mem_of_resolves (acyclic : Acyclic spec schema) {task : FlattenTask}
    {state final : Flattening} {resolved : Yaml} (comes : Comes spec schema task state)
    (property : task.isProperty = true) (resolves : Resolves spec task resolved)
    (ends : Ends (flattenStep spec) (flattenRoot schema) noFields final) :
    task.path ∈ final.fields.map FieldRecord.path := by
  have stays := map_path_isPrefix_final comes ends
  cases task with
  | inner schema' path chain via => cases property
  | mapField schema' path via => cases property
  | property schema' path required chain via =>
    by_cases seen : path ∈ state.seen
    · exact stays.subset ((map_path_isPrefix _ state).subset
        ((walkKept_of_comes acyclic comes).seen path seen).1)
    · refine stays.subset ?_
      obtain ⟨visited, followed, resolves⟩ := resolves
      unfold flattenStep
      dsimp only [FlattenTask.schema, FlattenTask.chain, FlattenTask.via] at resolves ⊢
      rw [resolves]
      dsimp only
      rw [if_neg seen]
      exact List.mem_map.mpr ⟨_, List.mem_append_right _ (List.mem_singleton.mpr rfl), rfl⟩

theorem unresolvedRefs_subset_final {task : FlattenTask} {state final : Flattening}
    (comes : Comes spec schema task state)
    (ends : Ends (flattenStep spec) (flattenRoot schema) noFields final) :
    (flattenStep spec task state).1.unresolvedRefs ⊆ final.unresolvedRefs := by
  have step : ∀ (task : FlattenTask) (state : Flattening),
      state.unresolvedRefs ⊆ (flattenStep spec task state).1.unresolvedRefs := by
    intro task state
    unfold flattenStep
    cases task with
    | inner schema path chain via =>
      dsimp only
      split
      · exact List.Subset.refl _
      · exact List.subset_append_left _ _
      · exact List.Subset.refl _
    | property schema path required chain via =>
      dsimp only
      split
      · exact List.subset_append_left _ _
      · split_ifs
        · exact List.Subset.refl _
        · exact List.Subset.refl _
      · split_ifs
        · exact List.Subset.refl _
        · exact List.Subset.refl _
    | mapField schema path via => exact List.Subset.refl _
  exact @Visits.step_goes_on _ _ _ _ _
    (fun a b : Flattening => a.unresolvedRefs ⊆ b.unresolvedRefs)
    (fun _ => List.Subset.refl _) (fun _ _ _ first second => List.Subset.trans first second)
    step _ _ _ comes ends

/-! ### Finding every field -/

/-- **Every property resolves**, at its path, and nothing is come to twice. -/
structure PropertiesResolve (spec : SpecFile) (schema : Yaml) : Prop where
  /-- At the path of a property one resolves. -/
  resolves : ∀ task state, Comes spec schema task state → task.isProperty = true →
    ∃ other begun resolved, Comes spec schema other begun ∧ other.isProperty = true ∧
      other.path = task.path ∧ Resolves spec other resolved
  /-- At the path of a property that refers out of the file all that resolve are objects. -/
  external : ∀ task state, Comes spec schema task state → task.isProperty = true →
    ∀ ref, reference task.schema = .external ref →
      ∀ other begun resolved, Comes spec schema other begun → other.isProperty = true →
        other.path = task.path → Resolves spec other resolved → typeDescOf resolved = .object
  /-- Additional properties are come to once at a path. -/
  once : ∀ schema' path via state, Comes spec schema (.mapField schema' path via) state →
    path ∉ state.fields.map FieldRecord.path

/-- **The walk leaves nothing out**, at every schema that it comes to. -/
structure WalksAll (spec : SpecFile) (schema : Yaml) : Prop
    extends PropertiesResolve spec schema where
  /-- What is declared at a schema, or below a property at a new path, is declared by what the walk
  does next. -/
  leaves : ∀ task state, Comes spec schema task state →
    (task.isProperty = true → task.path ∉ state.seen) → ∀ d, DeclaresBelow spec task d →
      ∃ sub ∈ (flattenStep spec task state).2, TaskDeclares spec sub d
  /-- What is declared below a property at a path that was seen is declared below the first one. -/
  again : ∀ task state, Comes spec schema task state → task.isProperty = true →
    task.path ∈ state.seen → ∀ first begun, FirstAt spec schema task.path first begun →
      ∀ d, DeclaresBelow spec task d → DeclaresBelow spec first d

theorem PropertiesResolve.nodup (walks : PropertiesResolve spec schema)
    (acyclic : Acyclic spec schema) {final : Flattening}
    (ends : Ends (flattenStep spec) (flattenRoot schema) noFields final) :
    (final.fields.map FieldRecord.path).Nodup := by
  refine @Ends.keeps _ _ _ _ _ (fun state => (state.fields.map FieldRecord.path).Nodup) _ ends
    (fun task state comes nodup => ?_) List.nodup_nil
  have added_nodup : ∀ {f : FieldRecord}, f.path ∉ state.fields.map FieldRecord.path →
      ((state.fields ++ [f]).map FieldRecord.path).Nodup := by
    intro f new
    rw [List.map_append, List.map_singleton]
    refine List.nodup_append.mpr ⟨nodup, List.nodup_singleton _, ?_⟩
    rintro a listed b single rfl
    exact new (List.mem_singleton.mp single ▸ listed)
  rcases flattenStep_cases spec task state with ⟨-, same⟩ |
    ⟨schema', path, required, chain, via, fieldMeta, followed, rfl, unseen, -, added, -⟩ |
    ⟨resolved, -, -, -, -, merged⟩ | ⟨schema', path, via, rfl, -, added⟩
  · rw [same]
    exact nodup
  · rw [added]
    refine added_nodup fun listed => ?_
    rcases (walkKept_of_comes acyclic comes).fields path listed with seen | ⟨before, ends⟩
    · exact unseen seen
    · exact path_ne_mapValues comes rfl before ends
  · rw [merged, map_path_mergeField]
    exact nodup
  · rw [added]
    exact added_nodup (walks.once schema' path via state comes)

def FoundIn (spec : SpecFile) (schema : Yaml) (final : Flattening) : Declared → Prop
  | .field path => path ∈ final.fields.map FieldRecord.path
  | .external path ref => ref ∈ final.unresolvedRefs ∧
      ∃ task state, Comes spec schema task state ∧ task.isProperty = true ∧ task.path = path ∧
        reference task.schema = .external ref

theorem length_path_of_mem {task sub : FlattenTask} {state : Flattening}
    (member : sub ∈ (flattenStep spec task state).2) :
    task.path.length < sub.path.length ∨
      task.path.length = sub.path.length ∧ sub.isProperty = false := by
  have longer : ∀ segment : PathSegment, task.path.length < (task.path ++ [segment]).length :=
    fun segment => by rw [List.length_append, List.length_singleton]; exact Nat.lt_succ_self _
  obtain ⟨resolved, -, via, chain, -, -, rfl | inside⟩ := mem_flattenStep member
  · exact .inr ⟨rfl, rfl⟩
  · rcases mem_innerTasks.mp inside with ⟨keyword, known, branch, listed, rfl⟩ |
      ⟨entry, listed, name, text, rfl⟩ | ⟨items, found, rfl⟩ |
      ⟨additional, found, looks, rfl | rfl⟩
    · exact .inr ⟨rfl, rfl⟩
    · exact .inl (longer _)
    · exact .inl (longer _)
    · exact .inl (longer _)
    · exact .inl (longer _)

theorem WalksAll.found (walks : WalksAll spec schema) (acyclic : Acyclic spec schema)
    {final : Flattening} (ends : Ends (flattenStep spec) (flattenRoot schema) noFields final)
    {task : FlattenTask} {state : Flattening} {d : Declared}
    (comes : Comes spec schema task state) (declares : TaskDeclares spec task d) :
    FoundIn spec schema final d := by
  induction room : d.path.length - task.path.length using Nat.strong_induction_on
    generalizing task state with
  | h distance far =>
    -- A schema, or additional properties.
    have plain : ∀ size task state, FlattenTask.measure spec task = size →
        Comes spec schema task state → task.isProperty = false →
        d.path.length - task.path.length = distance → TaskDeclares spec task d →
        FoundIn spec schema final d := by
      intro size
      induction size using (wellFounded_lt (α := ℕ ×ₗ ℕ)).induction with
      | h size near =>
        rintro task state rfl comes noProperty room' declares
        cases task with
        | property schema' path required chain via => cases noProperty
        | mapField schema' path via =>
          obtain rfl : d = _ := declares
          exact (map_path_isPrefix_final comes ends).subset (List.mem_map.mpr
            ⟨_, List.mem_append_right _ (List.mem_singleton.mpr rfl), rfl⟩)
        | inner schema' path chain via =>
          obtain ⟨sub, member, below⟩ := walks.leaves _ _ comes
            (fun property => by cases property) d declares
          obtain ⟨middle, there⟩ := comes.exists_sub ends member
          rcases length_path_of_mem member with longer | ⟨same, noProperty⟩
          · exact far _ (by
              have := below.length_le
              dsimp only [FlattenTask.path] at longer room' this ⊢
              omega) there below rfl
          · exact near _ (acyclic.noReturn.measure_lt comes member) sub middle rfl there
              noProperty (by rw [← same]; exact room') below
    -- Below a property at a new path.
    have below : ∀ task state, Comes spec schema task state → task.isProperty = true →
        task.path ∉ state.seen → d.path.length - task.path.length = distance →
        DeclaresBelow spec task d → FoundIn spec schema final d := by
      intro task state comes property unseen room' declares
      obtain ⟨sub, member, below⟩ := walks.leaves _ _ comes (fun _ => unseen) d declares
      obtain ⟨middle, there⟩ := comes.exists_sub ends member
      rcases length_path_of_mem member with longer | ⟨same, noProperty⟩
      · exact far _ (by have := below.length_le; omega) there below rfl
      · exact plain _ sub middle rfl there noProperty (by rw [← same]; exact room') below
    cases task with
    | inner schema' path chain via => exact plain _ _ _ rfl comes rfl room declares
    | mapField schema' path via => exact plain _ _ _ rfl comes rfl room declares
    | property schema' path required chain via =>
      rcases declares with rfl | ⟨ref, refers, rfl⟩ | inside
      · obtain ⟨other, begun, resolved, comesOther, property, samePath, resolves⟩ :=
          walks.resolves _ _ comes rfl
        have found := mem_of_resolves acyclic comesOther property resolves ends
        rw [samePath] at found
        exact found
      · refine ⟨unresolvedRefs_subset_final comes ends ?_, _, state, comes, rfl, rfl, refers⟩
        have skips : resolveRef spec schema' chain via = .skip [ref] := by
          unfold Server.resolveRef
          rw [refers]
        unfold flattenStep
        dsimp only
        rw [skips]
        exact List.mem_append_right _ (List.mem_singleton.mpr rfl)
      · by_cases seen : path ∈ state.seen
        · obtain ⟨-, first, begun, isFirst⟩ :=
            (walkKept_of_comes acyclic comes).seen path seen
          refine below first begun isFirst.comes isFirst.property
            (isFirst.samePath ▸ isFirst.unseen) ?_
            (walks.again _ _ comes rfl seen first begun isFirst d inside)
          rw [isFirst.samePath]
          exact room
        · exact below _ _ comes rfl seen room inside

theorem PropertiesResolve.object (walks : PropertiesResolve spec schema)
    (acyclic : Acyclic spec schema) {final : Flattening}
    (ends : Ends (flattenStep spec) (flattenRoot schema) noFields final) {task : FlattenTask}
    {state : Flattening} {ref : String} (comes : Comes spec schema task state)
    (property : task.isProperty = true) (refers : reference task.schema = .external ref) :
    ∀ f ∈ final.fields, f.path = task.path → f.fieldMeta.ty = .object := by
  refine @Ends.keeps _ _ _ _ _ (fun state => ∀ f ∈ state.fields, f.path = task.path →
    f.fieldMeta.ty = .object) _ ends (fun other begun comesOther object f member here => ?_)
    (fun _ member => absurd member List.not_mem_nil)
  have resolved_object := walks.external task state comes property ref refers
  rcases flattenStep_cases spec other begun with ⟨-, same⟩ |
    ⟨schema', path, required, chain, via, fieldMeta, followed, rfl, -, -, added, -, either⟩ |
    ⟨resolved, isProperty, -, resolves, -, merged⟩ | ⟨schema', path, via, rfl, -, added⟩
  · rw [same] at member
    exact object f member here
  · rw [added] at member
    rcases List.mem_append.mp member with before | new
    · exact object f before here
    · rw [List.mem_singleton.mp new] at here ⊢
      rcases either with cut | ⟨resolved, resolves, type⟩
      · exact absurd cut (acyclic.ne_cycle comesOther)
      · exact type.trans (resolved_object _ begun resolved comesOther rfl here resolves)
  · rw [merged] at member
    obtain ⟨g, listed, samePath, -, same | ⟨atPath, same⟩⟩ := mem_mergeField member
    · rw [same]
      exact object g listed (samePath.trans here)
    · have one := object g listed (samePath.trans here)
      have two := resolved_object other begun resolved comesOther isProperty
        (atPath.symm.trans here) resolves
      rw [same]
      unfold mergeMeta
      dsimp only
      rw [one, two, if_pos rfl]
  · rw [added] at member
    rcases List.mem_append.mp member with before | new
    · exact object f before here
    · rw [List.mem_singleton.mp new] at here
      obtain ⟨before, mapValues⟩ := exists_mapValues_of_comes comesOther
      exact absurd (here.symm.trans mapValues) (path_ne_mapValues comes property before)

def noComponents : SpecFile where
  components := ∅
  jsonText := fun _ => none

theorem acyclic_noComponents (schema : Yaml) : Acyclic noComponents schema :=
  fun _ _ _ _ _ known => by cases known

end Lain.Server
