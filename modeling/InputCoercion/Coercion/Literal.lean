import InputCoercion.Coercion.Value
import InputCoercion.Literal.Untyped

/-!
Interpretation of literals at input types. A document has been validated before its literals are
interpreted, so a literal that does not fit its type has no value, and no reason is given. A
variable stands for the value bound to it, which is not looked at again. An unbound variable counts
as a field that is not given, and as null in a list whose items may be null.

Which fields an object has is decided by the same rules as for values.
-/

namespace InputCoercion

/-- Why a literal has no value. -/
inductive NoValue where
  /-- The literal does not fit, or is not given. -/
  | absent
  | undefinedType (name : Name)
  deriving DecidableEq

abbrev Interpreted := Except NoValue Json

/-- A literal that waits for its type. -/
abbrev Interpreter := InputType → Interpreted

namespace Interpretation

variable (schema : Schema) (vars : Entries)

/-- The fields of an object literal, each of them waiting for its type. Of a repeated field the
last occurrence counts. A field that holds an unbound variable is not given. -/
def literalFields (fields : List (Name × Option Interpreter)) : FieldSource NoValue where
  coerceField field _ :=
    (Keyed.find? Prod.fst field.name fields.reverse) >>= fun entry =>
      entry.2.map fun interpret => interpret field.type
  requiredFieldMissing _ _ := .absent
  stopsAtFirstFailure := true
  undefinedFields _ _ := []

/-- Interprets the fields of an object literal at an input object. -/
def interpretObject (object : InputObjectType) (fields : List (Name × Option Interpreter))
    (result : Entries) : Interpreted :=
  match (literalFields fields).coerceFields object [] result with
  | .ok entries => .ok (.object entries)
  | .error failures => .error (failures.headD .absent)

/-- The member that the fields of an object literal select. Only a string literal selects one. -/
def selectedMember? (type : InputUnionType) (fields : List (Name × Literal)) :
    Option InputObjectType := do
  let text ← (← Literal.lastField? inputNameKey fields).string?
  Coercion.selectedMember? schema type text

/-- Interprets a literal that is neither null nor a variable at a named type. If the literal is an
object, its fields are given with the literals waiting for their types. -/
def interpretNamed (literal : Literal) (fields : List (Name × Option Interpreter)) (name : Name) :
    Interpreted :=
  match schema.get? name.text with
  | none => .error (.undefinedType name)
  | some (.scalar type) =>
    match type.parser.parseLiteral literal vars with
    | .ok value => .ok value
    | .error _ => .error .absent
  | some (.enum type) =>
    match literal with
    | .enum text =>
      match type.values.get? text.text with
      | some enumValue => .ok enumValue.value
      | none => .error .absent
    | _ => .error .absent
  | some (.inputObject object) =>
    match literal with
    | .object _ => interpretObject object fields []
    | _ => .error .absent
  | some (.inputUnion type) =>
    match literal with
    | .object raw =>
      match selectedMember? schema type raw with
      | some member =>
        interpretObject member fields
          (Entries.insert inputNameKey (.string member.name.text) [])
      | none => .error .absent
    | _ => .error .absent

mutual

/-- Interprets a literal at a type. -/
def interpret : Literal → Interpreter
  | .null => fun type => if type.isNonNull then .error .absent else .ok .null
  | .var name => fun _ =>
    match Entries.get? name.text vars with
    | some value => .ok value
    | none => .error .absent
  | .enum value => InputType.promote (interpretNamed schema vars (.enum value) [])
  | .string value => InputType.promote (interpretNamed schema vars (.string value) [])
  | .float numeral => InputType.promote (interpretNamed schema vars (.float numeral) [])
  | .int numeral => InputType.promote (interpretNamed schema vars (.int numeral) [])
  | .boolean value => InputType.promote (interpretNamed schema vars (.boolean value) [])
  | .list items => fun type =>
    match type with
    | .named name _ => interpretNamed schema vars (.list items) [] name
    | .list item _ => .array <$> interpretItems items item
  | .object fields =>
    InputType.promote (interpretNamed schema vars (.object fields) (interpretFields fields))

/-- Interprets the items of a list up to the first that has no value. -/
def interpretItems : List Literal → InputType → Except NoValue (List Json)
  | [], _ => .ok []
  | item :: items, type => do
    let value ←
      if item.isMissingVariable vars then
        if type.isNonNull then .error .absent else .ok .null
      else
        interpret item type
    let values ← interpretItems items type
    .ok (value :: values)

/-- The fields of an object literal, with the literals waiting for their types and none for unbound
variables. -/
def interpretFields : List (Name × Literal) → List (Name × Option Interpreter)
  | [] => []
  | (name, value) :: fields =>
    (name, if value.isMissingVariable vars then none else some (interpret value)) ::
      interpretFields fields

end

end Interpretation

/-- Interprets a literal at a type. A literal that is not given has no value. -/
def Schema.interpret (schema : Schema) (type : InputType) (literal? : Option Literal)
    (vars : Entries) : Interpreted :=
  match literal? with
  | none => .error .absent
  | some literal => Interpretation.interpret schema vars literal type

end InputCoercion
