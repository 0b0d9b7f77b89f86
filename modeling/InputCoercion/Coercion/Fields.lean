import InputCoercion.Path
import InputCoercion.Schema.Basic

/-!
The fields of an input object. A value of a request and a literal of a document give fields in
different ways, but which fields end up in the result is decided here for both: the declared ones
in their order, a default where a field is not given, and nothing for a nullable field without a
default.

A source of fields may end at its first failure. That decides how many failures are found, and not
whether there is one.
-/

namespace InputCoercion

/-- Where the fields of an input object come from. `ε` is what a field contributes when it cannot be
coerced. -/
structure FieldSource (ε : Type) where
  /-- The value of a field at the path that leads to it, or none if the field is not given. -/
  coerceField : InputField → Path → Option (Except ε Json)
  /-- The failure of a field that is not given but has to be. -/
  requiredFieldMissing : InputField → Path → ε
  stopsAtFirstFailure : Bool
  /-- The failures of what is given beside the declared fields. -/
  undefinedFields : InputObjectType → Path → List ε

/-- What becomes of a field. -/
inductive Resolution (ε : Type) where
  | present (value : Json)
  | omitted
  | failed (failure : ε)

namespace FieldSource

variable {ε : Type}

/-- What becomes of a field of an object at a path. -/
def resolve (source : FieldSource ε) (path : Path) (field : InputField) : Resolution ε :=
  let path := path ++ [.field field.name]
  match source.coerceField field path with
  | some (.ok value) => .present value
  | some (.error failure) => .failed failure
  | none =>
    match field.default? with
    | some value => .present value
    | none =>
      if field.type.isNonNull then .failed (source.requiredFieldMissing field path)
      else .omitted

/-- Inserts the fields of a list into entries. If there are failures, the result has all of them,
or only the first if the source ends there; otherwise `last` are the failures that follow. -/
def coerceList (source : FieldSource ε) (path : Path) (last : List ε) :
    List InputField → Entries → Except (List ε) Entries
  | [], entries => if last.isEmpty then .ok entries else .error last
  | field :: fields, entries =>
    match source.resolve path field with
    | .present value =>
      source.coerceList path last fields (Entries.insert field.name.text value entries)
    | .omitted => source.coerceList path last fields entries
    | .failed failure =>
      if source.stopsAtFirstFailure then .error [failure]
      else
        match source.coerceList path last fields entries with
        | .ok _ => .error [failure]
        | .error failures => .error (failure :: failures)

/-- Inserts the declared fields of an input object into entries, which keep their places ahead of
the fields. -/
def coerceFields (source : FieldSource ε) (object : InputObjectType) (path : Path)
    (entries : Entries) : Except (List ε) Entries :=
  source.coerceList path (source.undefinedFields object path) object.fields.entries entries

end FieldSource

end InputCoercion
