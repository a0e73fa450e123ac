import Mathlib
import Lain.Server.SchemaFields

/-!
# Which fields are required

A schema is composed of the members of its `allOf`, behind their references too: a property that one
of them declares is required when one of them names it.
-/

namespace Lain.Server

open Foundation TaskRuns Lain.Contracts

variable {spec : SpecFile} {schema : Yaml}

/-! ### Compositions -/

inductive Member (spec : SpecFile) (composition : Yaml) : Yaml → Prop where
  | self : Member spec composition composition
  | reference {member target : Yaml} {name : String} : Member spec composition member →
      reference member = .component name → spec.components.get? name = some target →
      Member spec composition target
  | allOf {member branch : Yaml} : Member spec composition member →
      branch ∈ member.items "allOf" → Member spec composition branch

/-- **The compositions of a schema**, each at its path, and whether an alternative is passed on the
way to it. -/
inductive Composition (spec : SpecFile) (root : Yaml) : Yaml → JsonPath → Bool → Prop where
  | root : Composition spec root root [] false
  | alternative {composition member branch : Yaml} {path : JsonPath} {behind : Bool}
      {keyword : String} : Composition spec root composition path behind →
      Member spec composition member → keyword ∈ ["oneOf", "anyOf"] →
      branch ∈ member.items keyword → Composition spec root branch path true
  | property {composition member : Yaml} {path : JsonPath} {behind : Bool} {entry : Yaml × Yaml}
      {name : String} : Composition spec root composition path behind →
      Member spec composition member → entry ∈ propertiesOf member → entry.1.asStr = some name →
      Composition spec root entry.2 (path ++ [propSegment name]) behind
  | items {composition member items : Yaml} {path : JsonPath} {behind : Bool} :
      Composition spec root composition path behind → Member spec composition member →
      member.get "items" = some items → Composition spec root items (path ++ [.arrayItems]) behind
  | additional {composition member additional : Yaml} {path : JsonPath} {behind : Bool} :
      Composition spec root composition path behind → Member spec composition member →
      member.get "additionalProperties" = some additional → looksLikeSchema additional = true →
      Composition spec root additional (path ++ [.mapValues]) behind

def HasProperty (object : Yaml) (name : String) : Prop :=
  ∃ entry ∈ propertiesOf object, entry.1.asStr = some name

def PropertyReached (spec : SpecFile) (schema : Yaml) (path : JsonPath) (name : String)
    (behind : Bool) : Prop :=
  ∃ composition member, Composition spec schema composition path behind ∧
    Member spec composition member ∧ HasProperty member name

/-- **A property is required**: behind no alternative a member of a composition declares it, and a
member names it. -/
def RequiredBy (spec : SpecFile) (schema : Yaml) (path : JsonPath) (name : String) : Prop :=
  ∃ composition, Composition spec schema composition path false ∧
    (∃ member, Member spec composition member ∧ HasProperty member name) ∧
    ∃ member, Member spec composition member ∧ name ∈ member.texts "required"

/-- **Requiredness follows composition**: the walk ends, and the field of a property that is reached
behind alternatives only is not required; that of another is when a member of its composition names
it. -/
def RequiresRight (spec : SpecFile) (schema : Yaml) : Prop :=
  ∃ depth final, flattenSchema spec depth schema = some final ∧
    ∀ f ∈ final.fields, ∀ path name, f.path = path ++ [propSegment name] →
      (∃ behind, PropertyReached spec schema path name behind) →
      ((∀ behind, PropertyReached spec schema path name behind → behind = true) →
        f.fieldMeta.required = false) ∧
      (PropertyReached spec schema path name false →
        (f.fieldMeta.required = true ↔ RequiredBy spec schema path name))

theorem RequiredBy.reached {path : JsonPath} {name : String}
    (required : RequiredBy spec schema path name) :
    PropertyReached spec schema path name false := by
  obtain ⟨composition, leads, ⟨member, inside, declares⟩, -⟩ := required
  exact ⟨composition, member, leads, inside, declares⟩

/-! ### The walk in a composition -/

/-- **A property that the walk meets first**: of an object that it comes to, at a path that no
other has resolved at. -/
def FirstMet (spec : SpecFile) (schema object : Yaml) (path : JsonPath) (name : String) : Prop :=
  ∃ parent chain via begun visited followed,
    Comes spec schema (.inner parent path chain via) begun ∧
    resolveRef spec parent chain via = .ok object visited followed ∧
    ∃ entry ∈ propertiesOf object, entry.1.asStr = some name ∧
      ∃ state, FirstAt spec schema (path ++ [propSegment name])
        (.property entry.2 (path ++ [propSegment name]) (decide (name ∈ requiredCombined object))
          visited followed) state

theorem exists_member_of_mem_requiredCombined {composition object : Yaml} {name : String}
    (inside : Member spec composition object) (named : name ∈ requiredCombined object) :
    ∃ member, Member spec composition member ∧ name ∈ member.texts "required" := by
  rcases List.mem_append.mp named with branches | own
  · obtain ⟨branch, listed, names⟩ := List.mem_flatMap.mp branches
    exact ⟨branch, .allOf inside listed, names⟩
  · exact ⟨object, inside, own⟩

theorem requiredBy_of_mem_requiredCombined {composition object : Yaml} {path : JsonPath}
    {name : String} (leads : Composition spec schema composition path false)
    (inside : Member spec composition object) (declares : HasProperty object name)
    (named : name ∈ requiredCombined object) : RequiredBy spec schema path name :=
  ⟨composition, leads, ⟨object, inside, declares⟩,
    exists_member_of_mem_requiredCombined inside named⟩

theorem exists_object_of_comes {property : Yaml} {path : JsonPath} {required : Bool}
    {visited followed : List String} {state : Flattening}
    (comes : Comes spec schema (.property property path required visited followed) state) :
    ∃ object before name parent chain via begun,
      Comes spec schema (.inner parent before chain via) begun ∧
      resolveRef spec parent chain via = .ok object visited followed ∧
      path = before ++ [propSegment name] ∧
      required = decide (name ∈ requiredCombined object) ∧
      ∃ entry ∈ propertiesOf object, entry.1.asStr = some name ∧ property = entry.2 := by
  cases comes with
  | next parents whole done =>
    rename_i parent begun front back
    have member : FlattenTask.property property path required visited followed ∈
        (flattenStep spec parent begun).2 := by
      rw [whole]
      exact List.mem_append_right _ List.mem_cons_self
    unfold flattenStep at member
    cases parent with
    | inner parent before chain via =>
      dsimp only at member
      split at member
      next object visited' followed' resolves =>
          rcases mem_innerTasks.mp member with ⟨_, _, _, _, other⟩ |
            ⟨entry, listed, name, text, same⟩ | ⟨_, _, other⟩ | ⟨_, _, _, other | other⟩
          · cases other
          · cases same
            exact ⟨object, before, name, parent, chain, via, begun, parents, resolves, rfl, rfl,
              entry, listed, text, rfl⟩
          · cases other
          · cases other
          · cases other
      next => exact absurd member List.not_mem_nil
      next => exact absurd member List.not_mem_nil
    | property parent before required' chain via =>
      dsimp only at member
      split at member
      next => exact absurd member List.not_mem_nil
      next => split_ifs at member <;> exact absurd member List.not_mem_nil
      next =>
          split_ifs at member
          · exact absurd member List.not_mem_nil
          · unfold belowTasks at member
            split at member
            · obtain ⟨_, _, other⟩ := List.mem_map.mp member
              cases other
            · cases List.mem_singleton.mp member
            · exact absurd member List.not_mem_nil
    | mapField parent before via => exact absurd member List.not_mem_nil

/-! ### What fields tell -/

def FieldsFirstMet (spec : SpecFile) (schema : Yaml) (state : Flattening) : Prop :=
  ∀ f ∈ state.fields, ∀ path name, f.path = path ++ [propSegment name] →
    ∃ object first, FirstMet spec schema object path first ∧
      propSegment first = propSegment name ∧
      f.fieldMeta.required = decide (first ∈ requiredCombined object)

theorem fieldsFirstMet_step (acyclic : Acyclic spec schema) {task : FlattenTask}
    {state : Flattening} (comes : Comes spec schema task state)
    (kept : FieldsFirstMet spec schema state) :
    FieldsFirstMet spec schema (flattenStep spec task state).1 := by
  intro f member path name atPath
  rcases flattenStep_cases spec task state with ⟨-, same⟩ |
    ⟨property, path', required, chain, via, fieldMeta, followed, rfl, unseen, -, added, tells,
      either⟩ |
    ⟨resolved, -, -, -, -, merged⟩ | ⟨schema', path', via, rfl, -, added⟩
  · rw [same] at member
    exact kept f member path name atPath
  · rw [added] at member
    rcases List.mem_append.mp member with before | new
    · exact kept f before path name atPath
    · have resolves : ∃ resolved, Resolves spec (.property property path' required chain via)
          resolved := by
        rcases either with cut | ⟨resolved, resolves, -⟩
        · exact absurd cut (acyclic.ne_cycle comes)
        · exact ⟨resolved, resolves⟩
      obtain ⟨object, before, first, parent, chain', via', begun, parents, resolvesParent, rfl, rfl,
        entry, listed, text, rfl⟩ := exists_object_of_comes comes
      rw [List.mem_singleton.mp new] at atPath ⊢
      obtain ⟨rfl, segments⟩ := List.append_inj' atPath rfl
      exact ⟨object, first, ⟨parent, chain', via', begun, chain, via, parents, resolvesParent,
        entry, listed, text, state, comes, rfl, rfl, unseen, resolves⟩,
        List.singleton_inj.mp segments, tells⟩
  · rw [merged] at member
    obtain ⟨g, listed, samePath, -, same | ⟨-, same⟩⟩ := mem_mergeField member
    · rw [same]
      exact kept g listed path name (samePath.trans atPath)
    · rw [same]
      exact kept g listed path name (samePath.trans atPath)
  · rw [added] at member
    rcases List.mem_append.mp member with before | new
    · exact kept f before path name atPath
    · rw [List.mem_singleton.mp new] at atPath
      obtain ⟨before, mapValues⟩ := exists_mapValues_of_comes comes
      have segments := List.append_inj_right' (atPath.symm.trans mapValues) rfl
      exact absurd (List.singleton_inj.mp segments) (propSegment_ne_mapValues name)

def TellsOn (state later : Flattening) : Prop :=
  ∀ f ∈ state.fields, ∃ g ∈ later.fields,
    g.path = f.path ∧ g.fieldMeta.required = f.fieldMeta.required

theorem tellsOn_step (task : FlattenTask) (state : Flattening) :
    TellsOn state (flattenStep spec task state).1 := by
  intro f member
  rcases flattenStep_cases spec task state with ⟨-, same⟩ |
    ⟨schema, path, required, chain, via, fieldMeta, followed, -, -, -, added, -⟩ |
    ⟨resolved, -, -, -, -, merged⟩ | ⟨schema, path, via, -, -, added⟩
  · exact ⟨f, same ▸ member, rfl, rfl⟩
  · exact ⟨f, added ▸ List.mem_append_left _ member, rfl, rfl⟩
  · rw [merged]
    obtain ⟨g, listed, samePath, -, tells⟩ := exists_mem_mergeField member
    exact ⟨g, listed, samePath, tells⟩
  · exact ⟨f, added ▸ List.mem_append_left _ member, rfl, rfl⟩

/-- **Where a property is first met its field tells** what its object does. -/
theorem FirstMet.exists_field {object : Yaml} {path : JsonPath} {name : String}
    (met : FirstMet spec schema object path name) {final : Flattening}
    (ends : Ends (flattenStep spec) (flattenRoot schema) noFields final) :
    ∃ f ∈ final.fields, f.path = path ++ [propSegment name] ∧
      f.fieldMeta.required = decide (name ∈ requiredCombined object) := by
  obtain ⟨parent, chain, via, begun, visited, followed, -, -, entry, -, -, state, isFirst⟩ := met
  obtain ⟨resolved, visited', followed', resolves⟩ := isFirst.resolves
  have stays := @Visits.step_goes_on _ _ _ _ _ TellsOn (fun _ f member => ⟨f, member, rfl, rfl⟩)
    (fun a b c first second f member => by
      obtain ⟨g, there, samePath, tells⟩ := first f member
      obtain ⟨h, later, path, tells'⟩ := second g there
      exact ⟨h, later, path.trans samePath, tells'.trans tells⟩)
    tellsOn_step _ _ _ isFirst.comes ends
  have added : ∃ f ∈ (flattenStep spec (.property entry.2 (path ++ [propSegment name])
      (decide (name ∈ requiredCombined object)) visited followed) state).1.fields,
      f.path = path ++ [propSegment name] ∧
        f.fieldMeta.required = decide (name ∈ requiredCombined object) := by
    unfold flattenStep
    dsimp only [FlattenTask.schema, FlattenTask.chain, FlattenTask.via] at resolves ⊢
    rw [resolves]
    dsimp only
    rw [if_neg isFirst.unseen]
    exact ⟨_, List.mem_append_right _ (List.mem_singleton.mpr rfl), rfl, rfl⟩
  obtain ⟨f, member, atPath, tells⟩ := added
  obtain ⟨g, listed, samePath, same⟩ := stays f member
  exact ⟨g, listed, samePath.trans atPath, same.trans tells⟩

/-! ### When requiredness follows composition -/

/-- **The object of a property decides** where it is first met: one that names it does so behind no
alternative, or the property is required elsewhere; where one does not, no member of a composition
does. -/
structure ObjectDecides (spec : SpecFile) (schema : Yaml) : Prop where
  /-- A property that its object names is required, unless its object is behind no alternative. -/
  named : ∀ object path first, FirstMet spec schema object path first →
    first ∈ requiredCombined object → ∀ name, propSegment first = propSegment name →
      (∃ behind, PropertyReached spec schema path name behind) →
      RequiredBy spec schema path name ∨ first = name ∧
        ∃ composition, Composition spec schema composition path false ∧
          Member spec composition object
  /-- One that its object does not name is named by no member of a composition that declares it
  behind no alternative. -/
  unnamed : ∀ object path first, FirstMet spec schema object path first →
    first ∉ requiredCombined object → ∀ name, propSegment first = propSegment name →
      ∀ composition, Composition spec schema composition path false →
        (∃ member, Member spec composition member ∧ HasProperty member name) →
        ∀ member, Member spec composition member → name ∉ member.texts "required"

theorem ObjectDecides.mem_iff (decides : ObjectDecides spec schema) {object : Yaml}
    {path : JsonPath} {first name : String} (met : FirstMet spec schema object path first)
    (same : propSegment first = propSegment name)
    (reached : ∃ behind, PropertyReached spec schema path name behind) :
    first ∈ requiredCombined object ↔ RequiredBy spec schema path name := by
  constructor
  · intro named
    rcases decides.named object path first met named name same reached with
      required | ⟨rfl, composition, leads, inside⟩
    · exact required
    · obtain ⟨-, -, -, -, -, -, -, -, entry, listed, text, -⟩ := met
      exact requiredBy_of_mem_requiredCombined leads inside ⟨entry, listed, text⟩ named
  · rintro ⟨composition, leads, declares, member, inside, names⟩
    by_contra unnamed
    exact decides.unnamed object path first met unnamed name same composition leads declares member
      inside names

theorem ObjectDecides.requiresRight (decides : ObjectDecides spec schema)
    (acyclic : Acyclic spec schema) : RequiresRight spec schema := by
  obtain ⟨depth, final, ended, -⟩ := acyclic.noReturn.flattens
  refine ⟨depth, final, ended, fun f member path name atPath reached => ?_⟩
  have kept : FieldsFirstMet spec schema final :=
    Ends.keeps ⟨depth, ended⟩ (fun _ _ => fieldsFirstMet_step acyclic)
      (fun _ member => absurd member List.not_mem_nil)
  obtain ⟨object, first, met, same, tells⟩ := kept f member path name atPath
  have right : f.fieldMeta.required = true ↔ RequiredBy spec schema path name := by
    rw [tells, decide_eq_true_iff]
    exact decides.mem_iff met same reached
  refine ⟨fun always => ?_, fun _ => right⟩
  rw [← Bool.not_eq_true, right]
  exact fun required => by cases always false required.reached

theorem RequiresRight.objectDecides (right : RequiresRight spec schema) :
    ObjectDecides spec schema := by
  obtain ⟨depth, final, ended, tells⟩ := right
  have each : ∀ object path first, FirstMet spec schema object path first →
      ∀ name, propSegment first = propSegment name →
        (∃ behind, PropertyReached spec schema path name behind) →
        (first ∈ requiredCombined object ↔ RequiredBy spec schema path name) := by
    intro object path first met name same reached
    obtain ⟨f, member, atPath, required⟩ := met.exists_field ⟨depth, ended⟩
    obtain ⟨alternatives, composed⟩ := tells f member path name (same ▸ atPath) reached
    rw [required] at alternatives composed
    rw [decide_eq_true_iff] at composed
    by_cases without : PropertyReached spec schema path name false
    · exact composed without
    · have never := alternatives fun behind way => by
        cases behind
        · exact absurd way without
        · rfl
      exact iff_of_false (of_decide_eq_false never) fun required => without required.reached
  refine ⟨fun object path first met named name same reached => ?_, ?_⟩
  · exact .inl ((each object path first met name same reached).mp named)
  · intro object path first met unnamed name same composition leads declares member inside names
    have required : RequiredBy spec schema path name :=
      ⟨composition, leads, declares, member, inside, names⟩
    exact unnamed ((each object path first met name same ⟨false, required.reached⟩).mpr required)

/-- **Requiredness follows composition** exactly where the object of a property decides. -/
theorem requiresRight_iff (spec : SpecFile) (schema : Yaml) (acyclic : Acyclic spec schema) :
    RequiresRight spec schema ↔ ObjectDecides spec schema :=
  ⟨RequiresRight.objectDecides, fun decides => decides.requiresRight acyclic⟩

theorem requiresRight_iff_single :
    RequiresRight noComponents (objectWith "a" .null) ↔
      ObjectDecides noComponents (objectWith "a" .null) :=
  requiresRight_iff _ _ (acyclic_noComponents _)

def requiringBranch : Yaml :=
  .mapping [(.string "required", .sequence [.string "a"]),
    (.string "properties", .mapping [(.string "a", .null)])]

def oneChoice : Yaml := .mapping [(.string "oneOf", .sequence [requiringBranch])]

theorem eq_of_member_oneChoice {member : Yaml} (inside : Member noComponents oneChoice member) :
    member = oneChoice := by
  induction inside with
  | self => rfl
  | reference _ _ known _ => cases known
  | allOf _ listed ih =>
    rw [ih] at listed
    exact absurd listed List.not_mem_nil

theorem eq_of_composition_oneChoice {composition : Yaml} {path : JsonPath} {behind : Bool}
    (leads : Composition noComponents oneChoice composition path behind) (atRoot : path = [])
    (front : behind = false) : composition = oneChoice := by
  have longer : ∀ (before : JsonPath) (segment : PathSegment), before ++ [segment] ≠ [] :=
    fun _ segment => List.append_ne_nil_of_right_ne_nil _ (List.cons_ne_nil segment [])
  cases leads with
  | root => rfl
  | alternative => cases front
  | property => exact absurd atRoot (longer _ _)
  | items => exact absurd atRoot (longer _ _)
  | additional => exact absurd atRoot (longer _ _)

/-- **Requiredness does not follow composition**: a property that an alternative requires is. -/
theorem requiresRight_fails :
    ¬∀ (spec : SpecFile) (schema : Yaml), Acyclic spec schema → RequiresRight spec schema := by
  intro holds
  obtain ⟨depth, final, ended, right⟩ :=
    holds noComponents oneChoice (acyclic_noComponents _)
  have run : flattenSchema noComponents 3 oneChoice =
      some ⟨[⟨[.name "a"], ⟨.unknown, true, false, none⟩, []⟩], [], [[.name "a"]]⟩ := by
    rfl
  obtain rfl := Ends.unique ⟨depth, ended⟩ ⟨3, run⟩
  have way : PropertyReached noComponents oneChoice [] "a" true :=
    ⟨requiringBranch, requiringBranch,
      @Composition.alternative _ _ oneChoice oneChoice requiringBranch [] false "oneOf" .root .self
        List.mem_cons_self (List.mem_cons_self : requiringBranch ∈ [requiringBranch]),
      .self, (.string "a", .null), List.mem_cons_self, rfl⟩
  refine absurd ((right _ List.mem_cons_self [] "a" rfl ⟨true, way⟩).1 ?_) (by decide)
  rintro behind ⟨composition, member, leads, inside, entry, listed, -⟩
  cases behind with
  | true => rfl
  | false =>
    obtain rfl := eq_of_composition_oneChoice leads rfl rfl
    rw [eq_of_member_oneChoice inside] at listed
    exact absurd listed List.not_mem_nil
end Lain.Server
