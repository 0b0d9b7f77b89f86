import InputCoercion.Proofs.Literal.Recursion
import InputCoercion.Proofs.Value.Conformance

/-!
The values of variables are not looked at when a literal is interpreted. This is safe if they have
been coerced before, to types that fit where the variables stand. What a literal then comes to
conforms to its type, whatever mixture of variables and written values it is.

A type fits where another is expected if it promises more, that is, if the other one is left when
some of its non-null marks are dropped. An unbound variable needs no type, since it is never taken
for a value.
-/

namespace InputCoercion

/-! ### Types that promise more -/

/-- Whether a type becomes another one when some of its non-null marks are dropped, at any depth. -/
inductive InputType.RelaxesTo : InputType → InputType → Prop
  | named {name : Name} {nonNull nonNull' : Bool} (kept : nonNull' = true → nonNull = true) :
      RelaxesTo (.named name nonNull) (.named name nonNull')
  | list {item item' : InputType} {nonNull nonNull' : Bool}
      (kept : nonNull' = true → nonNull = true) (inner : RelaxesTo item item') :
      RelaxesTo (.list item nonNull) (.list item' nonNull')

theorem InputType.RelaxesTo.nullable {declared type : InputType} (h : declared.RelaxesTo type)
    (hnullable : declared.isNonNull = false) : type.isNonNull = false := by
  cases h with
  | @named name nonNull nonNull' kept | @list item item' nonNull nonNull' kept inner =>
    have hdropped : nonNull = false := hnullable
    cases hmark : nonNull' with
    | false => rfl
    | true =>
      rw [kept hmark] at hdropped
      cases hdropped

section Conformance

variable {schema : Schema} {admits : ScalarType → Json → Prop}

/-- What conforms to a type conforms to the types that it relaxes to. The marks of a type matter to
null alone. -/
theorem Conforms.relax {declared type : InputType} (h : declared.RelaxesTo type) {w : Json}
    (hw : Conforms schema admits declared w) : Conforms schema admits type w := by
  induction h generalizing w with
  | named kept =>
    cases hw with
    | null nullable => exact .null ((InputType.RelaxesTo.named kept).nullable nullable)
    | scalar found admitted => exact .scalar found admitted
    | enum found declared => exact .enum found declared
    | object found ordered present each => exact .object found ordered present each
    | member found listed rest => exact .member found listed rest
  | list kept inner ih =>
    cases hw with
    | null nullable => exact .null ((InputType.RelaxesTo.list kept inner).nullable nullable)
    | list each => exact .list fun value hmem => ih (each value hmem)

end Conformance

/-! ### Where variables stand -/

/-- Whether a variable stands in a literal where a type is expected of it. -/
inductive VariableAt (schema : Schema) : InputType → Literal → InputType → Name → Prop
  | here {type : InputType} {name : Name} : VariableAt schema type (.var name) type name
  | item {item : InputType} {nonNull : Bool} {literals : List Literal} {literal : Literal}
      {position : InputType} {name : Name} (listed : literal ∈ literals)
      (inner : VariableAt schema item literal position name) :
      VariableAt schema (.list item nonNull) (.list literals) position name
  | single {item : InputType} {nonNull : Bool} {literal : Literal} {position : InputType}
      {name : Name} (single : literal.isSingle = true)
      (inner : VariableAt schema item literal position name) :
      VariableAt schema (.list item nonNull) literal position name
  /-- In an object it stands in the last occurrence of a field of the selected variant. -/
  | field {typeName : Name} {nonNull : Bool} {tag : Entries} {object : InputObjectType}
      {fields : List (Name × Literal)} {field : InputField} {literal : Literal}
      {position : InputType} {name : Name}
      (variant : schema.HasVariant typeName tag object)
      (selected : Interpretation.Carries fields tag)
      (declared : field ∈ object.fields.entries)
      (last : Literal.lastField? (Named.text field) fields = some literal)
      (inner : VariableAt schema field.type literal position name) :
      VariableAt schema (.named typeName nonNull) (.object fields) position name

theorem VariableAt.position_eq {schema : Schema} {type position : InputType} {name name' : Name}
    (h : VariableAt schema type (.var name') position name) : position = type := by
  cases h with
  | here => rfl
  | single hsingle => cases hsingle

namespace Literal

mutual

/-- The variables in a literal, in the order in which they are written. -/
def variableNames : Literal → List Name
  | var name => [name]
  | list items => itemVariableNames items
  | object fields => fieldVariableNames fields
  | _ => []

def itemVariableNames : List Literal → List Name
  | [] => []
  | item :: items => item.variableNames ++ itemVariableNames items

def fieldVariableNames : List (Name × Literal) → List Name
  | [] => []
  | (_, value) :: fields => value.variableNames ++ fieldVariableNames fields

end

theorem itemVariableNames_eq_flatMap (items : List Literal) :
    itemVariableNames items = items.flatMap variableNames := by
  induction items with
  | nil => rfl
  | cons item items ih => rw [itemVariableNames, ih, List.flatMap_cons]

theorem fieldVariableNames_eq_flatMap (fields : List (Name × Literal)) :
    fieldVariableNames fields = fields.flatMap fun field => field.2.variableNames := by
  induction fields with
  | nil => rfl
  | cons field fields ih => rw [fieldVariableNames, ih, List.flatMap_cons]

end Literal

theorem VariableAt.mem_variableNames {schema : Schema} {type position : InputType}
    {literal : Literal} {name : Name} (h : VariableAt schema type literal position name) :
    name ∈ literal.variableNames := by
  induction h with
  | here =>
    rw [Literal.variableNames]
    exact List.mem_singleton.mpr rfl
  | item listed inner ih =>
    rw [Literal.variableNames, Literal.itemVariableNames_eq_flatMap]
    exact List.mem_flatMap.mpr ⟨_, listed, ih⟩
  | single hsingle inner ih => exact ih
  | field variant selected declared last inner ih =>
    obtain ⟨given, hmem, -, rfl⟩ := Literal.mem_of_lastField?_eq_some last
    rw [Literal.variableNames, Literal.fieldVariableNames_eq_flatMap]
    exact List.mem_flatMap.mpr ⟨given, hmem, ih⟩

/-- The values that a scalar makes of literals. No parser is ever given null or a variable. -/
def ScalarType.ParsesLiteralTo (vars : Entries) (scalar : ScalarType) (w : Json) : Prop :=
  ∃ literal, literal.isChecked = true ∧ scalar.parser.parseLiteral literal vars = .ok w

/-- The values that a scalar makes of values or of literals. -/
def ScalarType.Makes (vars : Entries) (scalar : ScalarType) (w : Json) : Prop :=
  scalar.ParsesTo w ∨ scalar.ParsesLiteralTo vars w

section Soundness

variable {schema : Schema} {vars : Entries} {admits : ScalarType → Json → Prop}

open Interpretation

/-- Variables are safe in a literal at a type if each has a value that conforms to every type that
is expected where it stands. -/
def SafeVariables (schema : Schema) (vars : Entries) (admits : ScalarType → Json → Prop)
    (type : InputType) (literal : Literal) : Prop :=
  ∀ position name w, VariableAt schema type literal position name →
    Entries.get? name.text vars = some w → Conforms schema admits position w

namespace SafeVariables

theorem of_variableNames_eq_nil {type : InputType} {literal : Literal}
    (h : literal.variableNames = []) : SafeVariables schema vars admits type literal := by
  intro position name w hat _
  have hmem := hat.mem_variableNames
  rw [h] at hmem
  cases hmem

/-! Variables that are safe in a literal are safe in what is inside, at the types there. -/

theorem item {item : InputType} {nonNull : Bool} {literals : List Literal} {literal : Literal}
    (h : SafeVariables schema vars admits (.list item nonNull) (.list literals))
    (listed : literal ∈ literals) : SafeVariables schema vars admits item literal := by
  intro position name w hat hbound
  exact h position name w (.item listed hat) hbound

theorem single {item : InputType} {nonNull : Bool} {literal : Literal}
    (h : SafeVariables schema vars admits (.list item nonNull) literal)
    (hsingle : literal.isSingle = true) : SafeVariables schema vars admits item literal := by
  intro position name w hat hbound
  exact h position name w (.single hsingle hat) hbound

theorem field {typeName : Name} {nonNull : Bool} {tag : Entries} {object : InputObjectType}
    {fields : List (Name × Literal)} {field : InputField} {literal : Literal}
    (h : SafeVariables schema vars admits (.named typeName nonNull) (.object fields))
    (variant : schema.HasVariant typeName tag object) (selected : Carries fields tag)
    (declared : field ∈ object.fields.entries)
    (last : Literal.lastField? (Named.text field) fields = some literal) :
    SafeVariables schema vars admits field.type literal := by
  intro position name w hat hbound
  exact h position name w (.field variant selected declared last hat) hbound

end SafeVariables

/-- Whether the scalars of a schema admit what their parsers make of literals. -/
def AdmitsParsedLiterals (schema : Schema) (vars : Entries) (admits : ScalarType → Json → Prop) :
    Prop :=
  ∀ name scalar w, schema.get? name = some (.scalar scalar) → scalar.ParsesLiteralTo vars w →
    admits scalar w

/-- The step at a named type: what a literal comes to conforms if what is inside does. -/
theorem conforms_of_interpretNamed (hvalid : schema.IsValid)
    (hadmits : AdmitsParsedLiterals schema vars admits) {name : Name} {nonNull : Bool}
    {literal : Literal} {w : Json} (hchecked : literal.isChecked = true)
    (hsafe : SafeVariables schema vars admits (.named name nonNull) literal)
    (hfields : ∀ given ∈ literal.fields, ∀ type w,
      SafeVariables schema vars admits type given.2 →
        interpret schema vars given.2 type = .ok w → Conforms schema admits type w)
    (h : interpretNamed schema vars literal (interpretFields schema vars literal.fields) name =
      .ok w) : Conforms schema admits (.named name nonNull) w := by
  rcases interpretNamed_eq_ok h with ⟨scalar, found, hparse⟩ | ⟨type, enumValue, found, hmem, rfl⟩ |
    ⟨tag, object, raw, variant, rfl, htag, hobject⟩
  · exact .scalar found (hadmits name.text scalar w found ⟨literal, hchecked, hparse⟩)
  · exact .enum found hmem
  · obtain ⟨hfailures, rfl⟩ := interpretObject_eq_ok_iff.mp hobject
    refine Conforms.of_fields hvalid variant hfailures ?_
    intro field hfield w hgiven
    rw [coerceField_literalFields, Option.bind_eq_some_iff] at hgiven
    obtain ⟨inner, hlast, hmap⟩ := hgiven
    obtain ⟨given, hmem, -, rfl⟩ := Literal.mem_of_lastField?_eq_some hlast
    rw [interpretField] at hmap
    split at hmap
    · cases hmap
    · have hinner := hsafe.field variant htag hfield hlast
      exact hfields given hmem field.type w hinner (Option.some.inj hmap)

/-- Interpretation is sound for conformance, if its variables are safe. -/
theorem conforms_of_interpret (hvalid : schema.IsValid)
    (hadmits : AdmitsParsedLiterals schema vars admits) {type : InputType} {literal : Literal}
    (hsafe : SafeVariables schema vars admits type literal) {w : Json}
    (h : interpret schema vars literal type = .ok w) : Conforms schema admits type w := by
  induction type, literal using Literal.interpretationInduction generalizing w with
  | null type =>
    rw [interpret_null] at h
    exact .of_null h
  | var type name =>
    -- Nothing is checked here, so all that is known about the value comes from outside.
    have hbound := (interpret_var_eq_ok_iff schema vars).mp h
    exact hsafe type name w .here hbound
  | named name nonNull literal hchecked ih =>
    rw [interpret_named schema vars hchecked] at h
    refine conforms_of_interpretNamed hvalid hadmits hchecked hsafe ?_ h
    intro given hmem type w hsafe hgiven
    exact ih given hmem type hsafe hgiven
  | list item nonNull literals ih =>
    rw [interpret_list, map_eq_ok_iff] at h
    obtain ⟨values, hvalues, rfl⟩ := h
    refine .list fun value hmem => ?_
    have hmapped : Except.ok value ∈ literals.map (interpretItem schema vars item) :=
      interpretItems_eq_ok_iff.mp hvalues ▸ List.mem_map_of_mem hmem
    obtain ⟨literal, hliteral, hitem⟩ := List.mem_map.mp hmapped
    rw [interpretItem] at hitem
    split at hitem
    · -- An item that is not given is null, and only where it may be.
      exact .of_null hitem
    · exact ih literal hliteral (hsafe.item hliteral) hitem
  | single item nonNull literal hsingle ih =>
    rw [interpret_single schema vars hsingle] at h
    obtain ⟨inner, hinner, rfl⟩ := map_eq_ok_iff.mp h
    exact (ih (hsafe.single hsingle) hinner).singleton

end Soundness

/-- If variables hold what their values were coerced to, and their types fit wherever they stand,
then a literal is absent or has a value that conforms to its type. Null then stands only where it
may, unless a parser or an enum value has it stand for something that is not null. -/
theorem Schema.interpret_eq_absent_or_conforms {schema : Schema} (hvalid : schema.IsValid)
    {type : InputType} (hdefined : (schema.get? type.innerName.text).isSome = true)
    {literal : Literal} {vars : Entries} (declared : Name → InputType)
    (hcoerced : ∀ name w, Entries.get? name.text vars = some w →
      ∃ value? span?, schema.coerce (declared name) value? span? = .ok w)
    (hfits : ∀ position name w, VariableAt schema type literal position name →
      Entries.get? name.text vars = some w → (declared name).RelaxesTo position) :
    schema.interpret type (some literal) vars = .error .absent ∨
      ∃ w, schema.interpret type (some literal) vars = .ok w ∧
        Conforms schema (ScalarType.Makes vars) type w ∧
        ∀ position, ValueAt schema type w position .null →
          position.isNonNull = false ∨ NullStandsIn schema (ScalarType.Makes vars) position := by
  have hsafe : SafeVariables schema vars (ScalarType.Makes vars) type literal := by
    intro position name w hat hbound
    obtain ⟨value?, span?, hcoerce⟩ := hcoerced name w hbound
    have hdeclared : Conforms schema (ScalarType.Makes vars) (declared name) w :=
      conforms_of_coerceJson_eq_ok hvalid (fun _ _ _ _ hparses => .inl hparses) _ _ [] w hcoerce
    exact hdeclared.relax (hfits position name w hat hbound)
  cases hinterpret : schema.interpret type (some literal) vars with
  | ok w =>
    have hconforms : Conforms schema (ScalarType.Makes vars) type w :=
      conforms_of_interpret hvalid (fun _ _ _ _ hparses => .inr hparses) hsafe hinterpret
    refine .inr ⟨w, rfl, hconforms, fun position hat => ?_⟩
    exact Conforms.null_iff.mp (hat.conforms hconforms)
  | error e =>
    rw [Interpretation.eq_absent_of_interpret_eq_error hvalid hdefined hinterpret]
    exact .inl rfl

/-- A list of a friend and of nobody. -/
def Schema.friends : Literal := .list [.var ⟨"friend", rfl⟩, .var ⟨"nobody", rfl⟩]

/-- Only the friend is bound, to a dog that has been coerced to a pet that is not null. The list
would take null as well, and has it for nobody. -/
theorem Schema.interpret_friends_conforms :
    pets.IsValid ∧ pets.coerce petType (some dog) none = .ok coercedDog ∧
      pets.interpret (.list petType.nullable true) (some friends) [("friend", coercedDog)] =
        .ok (.array [coercedDog, .null]) ∧
      Conforms pets (ScalarType.Makes [("friend", coercedDog)]) (.list petType.nullable true)
        (.array [coercedDog, .null]) ∧
      ValueAt pets (.list petType.nullable true) (.array [coercedDog, .null]) petType.nullable
        .null ∧
      ∀ position,
        ValueAt pets (.list petType.nullable true) (.array [coercedDog, .null]) position .null →
          position.isNonNull = false ∨
            NullStandsIn pets (ScalarType.Makes [("friend", coercedDog)]) position := by
  have hdog : pets.coerce petType (some dog) none = .ok coercedDog := rfl
  have hfriends : pets.interpret (.list petType.nullable true) (some friends)
      [("friend", coercedDog)] = .ok (.array [coercedDog, .null]) := rfl
  have hcoerced (name : Name) (w : Json)
      (hbound : Entries.get? name.text [("friend", coercedDog)] = some w) :
      ∃ value? span?, pets.coerce petType value? span? = .ok w := by
    rw [Entries.get?_cons] at hbound
    split at hbound <;> cases hbound
    exact ⟨some dog, none, hdog⟩
  have hfits (position : InputType) (name : Name) (w : Json)
      (hat : VariableAt pets (.list petType.nullable true) friends position name)
      (_ : Entries.get? name.text [("friend", coercedDog)] = some w) :
      petType.RelaxesTo position := by
    cases hat with
    | single hsingle => cases hsingle
    | item listed inner =>
      simp only [List.mem_cons, List.not_mem_nil, or_false] at listed
      rcases listed with rfl | rfl
      all_goals
        rw [inner.position_eq]
        exact .named fun h => by cases h
  rcases interpret_eq_absent_or_conforms pets_isValid rfl (fun _ => petType) hcoerced hfits with
    habsent | ⟨w, hok, hconforms, hnull⟩
  · cases habsent.symm.trans hfriends
  · cases hok.symm.trans hfriends
    exact ⟨pets_isValid, hdog, hfriends, hconforms,
      .item (List.mem_cons_of_mem _ (List.mem_singleton_self _)) .here, hnull⟩

end InputCoercion
