import InputCoercion.Proofs.Schema.Cycles
import Mathlib.Data.Set.Finite.Basic
import Mathlib.Logic.Relation

/-!
Exactly which schemas are valid, and which cycles are reported. Well-formedness is stated without
errors and without a search. A schema has no errors if and only if it is well-formed, and an input
object that lies on a cycle is reported once, with a chain that leads from it back to it. One that
only leads into a cycle is not reported.
-/

namespace InputCoercion

/-- The trace of an error that reports an input object of a given name as recursive. -/
def SchemaError.recursion? (name : Name) : SchemaError → Option (List FieldCoordinate)
  | recursiveInputObject other trace => if other = name then some trace else none
  | _ => none

namespace Schema

/-- What a schema has to be for coercion. -/
structure WellFormed (schema : Schema) : Prop where
  fieldTypes : ∀ name object, schema.inputObject? name = some object →
    ∀ field ∈ object.fields.entries, (schema.get? field.type.innerName.text).isSome = true
  fieldNames : ∀ name object, schema.inputObject? name = some object →
    ∀ field ∈ object.fields.entries, field.name.text ≠ inputNameKey
  members : ∀ name type, schema.get? name = some (.inputUnion type) →
    type.members.entries ≠ [] ∧
      ∀ member ∈ type.members.entries, ∃ object, schema.inputObject? member.text = some object
  acyclic : ∀ name, ¬ schema.OnCycle name

/-- The traces with which an input object is reported as recursive. -/
def recursionTraces (schema : Schema) (name : Name) : List (List FieldCoordinate) :=
  schema.errors.filterMap (SchemaError.recursion? name)

variable {schema : Schema}

theorem inputObject?_name_of_get? {name : String} {object : InputObjectType}
    (h : schema.get? name = some (.inputObject object)) :
    schema.inputObject? object.name.text = some object := by
  have hname : object.name.text = name := Catalog.name_of_get? h
  rw [hname]
  exact inputObject?_eq_some_iff.mpr h

/-! ### Validity -/

theorem definitionErrors_inputObject_eq_nil_iff {object : InputObjectType}
    (hobject : schema.inputObject? object.name.text = some object) :
    schema.definitionErrors (.inputObject object) = [] ↔
      (∀ field ∈ object.fields.entries, field.name.text ≠ inputNameKey ∧
        (schema.get? field.type.innerName.text).isSome = true) ∧ ¬ schema.OnCycle object.name := by
  rw [definitionErrors, List.append_eq_nil_iff, List.flatMap_eq_nil_iff]
  simp only [fieldErrors_eq_nil_iff, ← findCycle?_eq_none_iff hobject]
  simp

theorem definitionErrors_inputUnion_eq_nil_iff {type : InputUnionType} :
    schema.definitionErrors (.inputUnion type) = [] ↔
      type.members.entries ≠ [] ∧
        ∀ member ∈ type.members.entries,
          ∃ object, schema.inputObject? member.text = some object := by
  rw [definitionErrors, List.append_eq_nil_iff, List.flatMap_eq_nil_iff]
  simp only [memberErrors_eq_nil_iff]
  simp

theorem IsValid.wellFormed (h : schema.IsValid) : schema.WellFormed where
  fieldTypes name object hobject field hfield :=
    h.fieldType_defined (inputObject?_eq_some_iff.mp hobject) hfield
  fieldNames name object hobject field hfield :=
    h.fieldName_ne (inputObject?_eq_some_iff.mp hobject) hfield
  members name type found :=
    definitionErrors_inputUnion_eq_nil_iff.mp (h.definitionErrors_eq_nil found)
  acyclic := by
    intro name hcycle
    obtain ⟨trace, hchain⟩ := hcycle
    -- Whatever lies on a cycle has fields, so it is an input object of the schema.
    obtain ⟨object, hobject⟩ := hchain.exists_inputObject?
    obtain rfl := name_of_inputObject? hobject
    have hnil := h.definitionErrors_eq_nil (inputObject?_eq_some_iff.mp hobject)
    exact ((definitionErrors_inputObject_eq_nil_iff hobject).mp hnil).2 ⟨trace, hchain⟩

theorem WellFormed.isValid (h : schema.WellFormed) : schema.IsValid := by
  apply List.flatMap_eq_nil_iff.mpr
  intro definition hmem
  have found : schema.get? (Named.text definition) = some definition :=
    Catalog.get?_text_of_mem hmem
  cases definition with
  | scalar type | enum type => rfl
  | inputObject object =>
    have hobject := inputObject?_name_of_get? found
    refine (definitionErrors_inputObject_eq_nil_iff hobject).mpr ⟨fun field hfield => ?_, ?_⟩
    · exact ⟨h.fieldNames _ object hobject field hfield, h.fieldTypes _ object hobject field hfield⟩
    · exact h.acyclic object.name
  | inputUnion type => exact definitionErrors_inputUnion_eq_nil_iff.mpr (h.members _ type found)

/-! ### Induction along non-null fields -/

theorem exists_chain_of_transGen {owner target : Name}
    (h : Relation.TransGen (fun owner next => ∃ field, schema.Requires owner field next) owner
      target) : ∃ trace, schema.Chain target owner trace := by
  induction h using Relation.TransGen.head_induction_on with
  | single required =>
    obtain ⟨field, required⟩ := required
    exact ⟨_, .last required⟩
  | head required _ ih =>
    obtain ⟨field, required⟩ := required
    obtain ⟨trace, rest⟩ := ih
    exact ⟨_, .cons required rest⟩

theorem WellFormed.isSome_get?_of_requires (h : schema.WellFormed) {owner next : Name}
    {field : InputField} (required : schema.Requires owner field next) :
    (schema.get? next.text).isSome = true := by
  obtain ⟨object, hobject, hfield, hnext⟩ := required
  have hdefined := h.fieldTypes owner.text object hobject field hfield
  rw [InputField.required?_eq_some_iff.mp hnext] at hdefined
  exact hdefined

/-- Non-null fields lead only finitely far, since a schema has finitely many names and none of them
is on a cycle. -/
theorem WellFormed.wellFounded_requires (h : schema.WellFormed) :
    WellFounded fun next owner => ∃ field, schema.Requires owner field next := by
  let reaches (next owner : {name // name ∈ schema.types.names}) : Prop :=
    Relation.TransGen (fun owner next => ∃ field, schema.Requires owner field next) owner.1 next.1
  have htrans : IsTrans _ reaches := ⟨fun _ _ _ hab hbc => hbc.trans hab⟩
  have hirrefl : Std.Irrefl reaches :=
    ⟨fun name hname => h.acyclic name.1 (exists_chain_of_transGen hname)⟩
  have hfinite : Finite {name // name ∈ schema.types.names} := schema.types.names.finite_toSet
  have hwf : WellFounded reaches := Finite.wellFounded_of_trans_of_irrefl reaches
  have hdefined (name : {name // name ∈ schema.types.names}) :
      Acc (fun next owner => ∃ field, schema.Requires owner field next) name.1 := by
    induction name using hwf.induction with
    | _ name ih =>
      refine Acc.intro _ fun next required => ?_
      obtain ⟨field, required⟩ := required
      have hnext := Catalog.isSome_get?_iff.mp (h.isSome_get?_of_requires required)
      exact ih ⟨next, hnext⟩ (.single ⟨field, required⟩)
  -- A name that is not defined requires nothing.
  refine ⟨fun name => Acc.intro _ fun next required => ?_⟩
  obtain ⟨field, required⟩ := required
  exact hdefined ⟨next, Catalog.isSome_get?_iff.mp (h.isSome_get?_of_requires required)⟩

/-! ### The cycles that are reported -/

theorem filterMap_fieldErrors (owner name : Name) (field : InputField) :
    (schema.fieldErrors owner field).filterMap (SchemaError.recursion? name) = [] := by
  rw [fieldErrors, List.filterMap_append]
  split <;> split <;> rfl

theorem filterMap_memberErrors (owner member name : Name) :
    (schema.memberErrors owner member).filterMap (SchemaError.recursion? name) = [] := by
  rw [memberErrors]
  split <;> rfl

/-- Of all errors of a definition only a cycle is reported as recursion, under the name of the
definition. -/
theorem filterMap_definitionErrors (definition : TypeDefinition) (name : Name) :
    (schema.definitionErrors definition).filterMap (SchemaError.recursion? name) =
      match definition.inputObject? with
      | some object => if object.name = name then (schema.findCycle? object).toList else []
      | none => [] := by
  cases definition with
  | scalar type | enum type => rfl
  | inputObject object =>
    have hfields : (object.fields.entries.flatMap (schema.fieldErrors object.name)).filterMap
        (SchemaError.recursion? name) = [] := by
      rw [List.filterMap_flatMap, List.flatMap_eq_nil_iff]
      exact fun field _ => filterMap_fieldErrors object.name name field
    rw [definitionErrors, List.filterMap_append, hfields, List.nil_append]
    simp only [TypeDefinition.inputObject?]
    cases schema.findCycle? object with
    | none => simp
    | some trace => by_cases hname : object.name = name <;> simp [SchemaError.recursion?, hname]
  | inputUnion type =>
    have hmembers : (type.members.entries.flatMap (schema.memberErrors type.name)).filterMap
        (SchemaError.recursion? name) = [] := by
      rw [List.filterMap_flatMap, List.flatMap_eq_nil_iff]
      exact fun member _ => filterMap_memberErrors type.name member name
    rw [definitionErrors, List.filterMap_append, hmembers, List.append_nil]
    split <;> rfl

/-- What is reported for a name is the cycle that is found from its input object. -/
theorem recursionTraces_eq (schema : Schema) (name : Name) :
    schema.recursionTraces name =
      match schema.inputObject? name.text with
      | some object => (schema.findCycle? object).toList
      | none => [] := by
  have hother : ∀ definition ∈ schema.types.entries, Named.text definition ≠ name.text →
      (schema.definitionErrors definition).filterMap (SchemaError.recursion? name) = [] := by
    intro definition hmem hne
    rw [filterMap_definitionErrors]
    cases definition with
    | inputObject object =>
      have hname : object.name ≠ name := fun h => hne (congrArg Name.text h)
      exact if_neg hname
    | _ => rfl
  have hfind : Keyed.find? Named.text name.text schema.types.entries = schema.get? name.text := rfl
  rw [recursionTraces, errors, List.filterMap_flatMap,
    Keyed.flatMap_eq_of_nodup schema.types.nodup_texts hother, hfind, inputObject?]
  cases hget : schema.get? name.text with
  | none => rfl
  | some definition =>
    have htext : Named.text definition = name.text := Catalog.name_of_get? hget
    simp only [Option.map_some, Option.getD_some, filterMap_definitionErrors,
      Option.bind_eq_bind, Option.bind_some]
    cases definition with
    | inputObject object => exact if_pos (Name.ext htext)
    | _ => rfl

/-- A schema has no errors exactly if it is well-formed. An input object is reported as recursive
exactly if it lies on a cycle, and then once, with a chain from it back to it that goes through no
input object twice. The search for cycles ends on every schema: what it answers is the result of a
run. -/
theorem isValid_iff_wellFormed_and_recursionTraces (schema : Schema) :
    (schema.IsValid ↔ schema.WellFormed) ∧
      (∀ name, (schema.recursionTraces name ≠ [] ↔ schema.OnCycle name) ∧
        (schema.recursionTraces name).length ≤ 1 ∧
        ∀ trace ∈ schema.recursionTraces name,
          schema.Chain name name trace ∧ (trace.map FieldCoordinate.owner).Nodup) ∧
      ∀ name object, schema.inputObject? name = some object →
        ∃ result,
          schema.SearchRun object.name object.name object.fields.entries [object.name] result ∧
            schema.findCycle? object = result.trace? := by
  refine ⟨⟨IsValid.wellFormed, WellFormed.isValid⟩, fun name => ?_, fun _ object _ =>
    exists_searchRun_findCycle? schema object⟩
  rw [recursionTraces_eq]
  cases hobject : schema.inputObject? name.text with
  | none =>
    have hnot : ¬ schema.OnCycle name := by
      rintro ⟨trace, hchain⟩
      obtain ⟨object, hsome⟩ := hchain.exists_inputObject?
      rw [hobject] at hsome
      cases hsome
    simp [hnot]
  | some object =>
    obtain rfl := name_of_inputObject? hobject
    have hnone := findCycle?_eq_none_iff hobject
    cases hcycle : schema.findCycle? object with
    | none => simp [hcycle, hnone.mp hcycle]
    | some trace =>
      obtain ⟨hchain, hnodup⟩ := chain_of_findCycle? hobject hcycle
      have hon : schema.OnCycle object.name := ⟨trace, hchain⟩
      simp [hcycle, hon, hchain, hnodup]

/-- Two input objects that require each other, and a third that requires one of them. -/
def twoCycle : Schema :=
  .ofDefinitions [
    .inputObject (.ofFields ⟨"Day", rfl⟩ [⟨⟨"night", rfl⟩, .named ⟨"Night", rfl⟩ true, none⟩]),
    .inputObject (.ofFields ⟨"Night", rfl⟩ [⟨⟨"day", rfl⟩, .named ⟨"Day", rfl⟩ true, none⟩]),
    .inputObject (.ofFields ⟨"Week", rfl⟩ [⟨⟨"start", rfl⟩, .named ⟨"Day", rfl⟩ true, none⟩])]

example :
    (twoCycle.recursionTraces ⟨"Day", rfl⟩).map (List.map FieldCoordinate.text) =
        [["Day.night", "Night.day"]] ∧
      (twoCycle.recursionTraces ⟨"Night", rfl⟩).map (List.map FieldCoordinate.text) =
        [["Night.day", "Day.night"]] ∧
      twoCycle.recursionTraces ⟨"Week", rfl⟩ = [] := by
  decide +kernel

end Schema

end InputCoercion
