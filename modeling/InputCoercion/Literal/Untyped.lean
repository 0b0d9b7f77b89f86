import InputCoercion.Json.Basic
import InputCoercion.Literal.Basic

/-!
The JSON value of a literal without regard to any type. A variable stands for the value bound to
it. An unbound variable has no value: in a list it is null instead, and in an object its field is
left out. A number that JSON cannot hold has no value either, and neither has a literal around it.
-/

namespace InputCoercion.Literal

/-- Whether a literal is a variable that is not bound. -/
def isMissingVariable (vars : Entries) : Literal → Bool
  | var name => !Entries.contains name.text vars
  | _ => false

mutual

/-- The value of a literal. -/
def toJson? (vars : Entries) : Literal → Option Json
  | null => some .null
  | var name => Entries.get? name.text vars
  | enum value => some (.string value.text)
  | string value => some (.string value)
  | boolean value => some (.bool value)
  | int numeral => .number <$> numeral.toNumber?
  | float numeral => .number <$> numeral.toNumber?
  | list items => .array <$> itemsToJson? vars items
  | object fields => (.object ∘ Entries.ofList) <$> fieldsToJson? vars fields

/-- The values of the items of a list. -/
def itemsToJson? (vars : Entries) : List Literal → Option (List Json)
  | [] => some []
  | item :: items => do
    let value ← if item.isMissingVariable vars then some .null else item.toJson? vars
    let values ← itemsToJson? vars items
    pure (value :: values)

/-- The entries of the fields of an object, in the order in which they are written. -/
def fieldsToJson? (vars : Entries) : List (Name × Literal) → Option Entries
  | [] => some []
  | (name, value) :: fields =>
    if value.isMissingVariable vars then
      fieldsToJson? vars fields
    else do
      let value ← value.toJson? vars
      let entries ← fieldsToJson? vars fields
      pure ((name.text, value) :: entries)

end

end InputCoercion.Literal
