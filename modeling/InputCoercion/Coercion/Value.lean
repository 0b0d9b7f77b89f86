import InputCoercion.Coercion.Error
import InputCoercion.Coercion.Fields
import InputCoercion.Coercion.Promotion

/-!
Coercion of values, such as the variables of a request, to input types. Every problem of a value is
reported, in the order in which the value is read: the items of a list by position, the declared
fields of an object in their order, and then its keys that are no fields.

The recursion is on the value. A value that is no list stands for a list that holds it alone, so at
a list type it is coerced at the named type inside, and put into as many lists as the type has.

Nothing is written to a log on the way. The result depends on the schema and the value alone, but
for the place in the source that errors carry with them.
-/

namespace InputCoercion

/-- Why a value is not coerced. -/
inductive Failure where
  /-- The value has errors. -/
  | invalid (errors : List CoercionError)
  /-- The type leads to a name that the schema does not define. This is no fault of the value, and
  does not happen with a valid schema. -/
  | undefinedType (name : Name)
  deriving DecidableEq

namespace Failure

def undefinedType? : Failure → Option Name
  | undefinedType name => some name
  | invalid _ => none

def errors : Failure → List CoercionError
  | undefinedType _ => []
  | invalid errors => errors

/-- Several failures as one: the first name that is not defined, or else all errors in order. -/
def join (failures : List Failure) : Failure :=
  match failures.findSome? undefinedType? with
  | some name => undefinedType name
  | none => invalid (failures.flatMap errors)

end Failure

/-- How an undefined type is reported. -/
def undefinedTypeMessage (name : Name) : String :=
  "Undefined type " ++ name.text ++ ": coercion requires a valid schema"

abbrev Coerced := Except Failure Json

/-- A value that waits for its type and for the path that leads to it. -/
abbrev Coercer := InputType → Path → Coerced

namespace Coerced

/-- The values of all items, or the failures of those that fail. -/
def collect : List Coerced → Except (List Failure) (List Json)
  | [] => .ok []
  | .ok value :: rest =>
    match collect rest with
    | .ok values => .ok (value :: values)
    | .error failures => .error failures
  | .error failure :: rest =>
    match collect rest with
    | .ok _ => .error [failure]
    | .error failures => .error (failure :: failures)

/-- The items are collected exactly if none of them fails. -/
theorem collect_eq_ok_iff {items : List Coerced} {values : List Json} :
    collect items = .ok values ↔ items = values.map .ok := by
  induction items generalizing values with
  | nil => cases values <;> simp [collect]
  | cons item items ih =>
    cases item with
    | error failure =>
      simp only [collect]
      split <;> cases values <;> simp
    | ok value =>
      simp only [collect]
      split
      · rename_i rest h
        cases values <;> simp [ih.1 h, List.map_inj_right]
      · rename_i failures h
        cases values with
        | nil => simp
        | cons w ws =>
          have hne : items ≠ ws.map .ok := fun he => by simp [ih.2 he] at h
          simp [hne]

/-- An array of all items. -/
def array (items : List Coerced) : Coerced :=
  match collect items with
  | .ok values => .ok (.array values)
  | .error failures => .error (.join failures)

theorem array_eq_ok_iff {items : List Coerced} {w : Json} :
    array items = .ok w ↔ ∃ values, items = values.map .ok ∧ w = .array values := by
  rw [array]
  split
  · rename_i values h
    have hitems := collect_eq_ok_iff.mp h
    constructor
    · rintro ⟨rfl⟩
      exact ⟨values, hitems, rfl⟩
    · rintro ⟨others, hothers, rfl⟩
      rw [collect_eq_ok_iff.mpr hothers] at h
      cases h
      rfl
  · rename_i failures h
    simp only [reduceCtorEq, false_iff]
    rintro ⟨values, hvalues, -⟩
    rw [collect_eq_ok_iff.mpr hvalues] at h
    cases h

end Coerced

/-- The failure of a value that has one problem. -/
def Failure.single (span? : Option Span) (problem : Problem) (path : Path) : Failure :=
  .invalid [⟨problem, path, span?⟩]

namespace Coercion

variable (schema : Schema) (span? : Option Span)

/-- The fields of an object, each of them waiting for its type. The key that selects a member of an
input union is no undefined field where it has done so. -/
def valueFields (entries : List (String × Coercer)) (discriminated : Bool) :
    FieldSource Failure where
  coerceField field path :=
    (Keyed.find? Prod.fst field.name.text entries).map fun entry => entry.2 field.type path
  requiredFieldMissing field path := .single span? (.missingField field.type) path
  stopsAtFirstFailure := false
  undefinedFields object path :=
    ((entries.map Prod.fst).filter fun key =>
        !(discriminated && key == inputNameKey) && !object.fields.contains key).map fun key =>
      .single span? (.undefinedField key object.name object.fields.texts) path

/-- Coerces the entries of an object to an input object. -/
def coerceObject (object : InputObjectType) (entries : List (String × Coercer))
    (discriminated : Bool) (result : Entries) (path : Path) : Coerced :=
  match (valueFields span? entries discriminated).coerceFields object path result with
  | .ok entries => .ok (.object entries)
  | .error failures => .error (.join failures)

/-- The text under the key that selects a member of an input union. It is empty where there is no
text. -/
def selection (entries : Entries) : String :=
  ((Entries.get? inputNameKey entries) >>= Json.string?).getD ""

/-- The member of an input union that a text selects. -/
def selectedMember? (type : InputUnionType) (text : String) : Option InputObjectType :=
  type.members.get? text >>= fun member => schema.inputObject? member.text

/-- The text of a value that is looked up among the values of an enum, or for which similar ones are
suggested. -/
def enumInput : Json → String
  | .string text => text
  | value => value.text

/-- Coerces a value that is not null at a named type. If the value is an object, its entries are
given with the values waiting for their types. -/
def coerceNamed (value : Json) (entries : List (String × Coercer)) (name : Name) (path : Path) :
    Coerced :=
  let fail problem : Coerced := .error (.single span? problem path)
  match schema.get? name.text with
  | none => .error (.undefinedType name)
  | some (.scalar type) =>
    match type.parser.parseValue value with
    | .ok value => .ok value
    | .error error => fail (.rejected type.name error)
  | some (.enum type) =>
    match value.string? >>= type.values.get? with
    | some enumValue => .ok enumValue.value
    | none => fail (.notEnumValue type.name (enumInput value) type.values.texts)
  | some (.inputObject object) =>
    match value with
    | .object _ => coerceObject span? object entries false [] path
    | _ => fail (.notObject object.name)
  | some (.inputUnion type) =>
    match value with
    | .object raw =>
      let text := selection raw
      match selectedMember? schema type text with
      | some member =>
        coerceObject span? member entries true
          (Entries.insert inputNameKey (.string member.name.text) []) path
      | none => fail (.unknownMember type.name type.members.texts text)
    | _ => fail (.notObject type.name)

mutual

/-- Coerces a value to a type. -/
def coerceJson : Json → Coercer
  | .null => fun type path =>
    if type.isNonNull then .error (.single span? (.null type) path) else .ok .null
  | .bool value => fun type path =>
    type.promote fun name => coerceNamed schema span? (.bool value) [] name path
  | .number value => fun type path =>
    type.promote fun name => coerceNamed schema span? (.number value) [] name path
  | .string value => fun type path =>
    type.promote fun name => coerceNamed schema span? (.string value) [] name path
  | .array items => fun type path =>
    match type with
    | .named name _ => coerceNamed schema span? (.array items) [] name path
    | .list item _ => .array (coerceItems items item path 0)
  | .object entries => fun type path =>
    type.promote fun name =>
      coerceNamed schema span? (.object entries) (coerceEntries entries) name path

/-- Coerces the items of a list from a position on. -/
def coerceItems : List Json → InputType → Path → Nat → List Coerced
  | [], _, _, _ => []
  | item :: items, type, path, position =>
    coerceJson item type (path ++ [.index position]) :: coerceItems items type path (position + 1)

/-- The entries of an object, with the values waiting for their types. -/
def coerceEntries : List (String × Json) → List (String × Coercer)
  | [] => []
  | (key, value) :: entries => (key, coerceJson value) :: coerceEntries entries

end

end Coercion

/-- Coerces a value to a type. A value that is not given counts as null. The span is attached to
every error. -/
def Schema.coerce (schema : Schema) (type : InputType) (value? : Option Json)
    (span? : Option Span) : Coerced :=
  Coercion.coerceJson schema span? (value?.getD .null) type []

end InputCoercion
