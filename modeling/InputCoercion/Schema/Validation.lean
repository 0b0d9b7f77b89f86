import InputCoercion.Report
import InputCoercion.Schema.Basic

/-!
What makes a schema fit for coercion. Every type that is referred to has to be defined, the members
of an input union have to be input objects, no field may take the key that selects a member, and no
input object may require itself through non-null fields, as no finite value could satisfy it.

The search for such a cycle goes depth first through the non-null fields, and never enters an input
object twice.
-/

namespace InputCoercion

/-- A field of an input object, as it is referred to in errors. -/
structure FieldCoordinate where
  owner : Name
  field : Name
  deriving DecidableEq

def FieldCoordinate.text (c : FieldCoordinate) : String :=
  c.owner.text ++ "." ++ c.field.text

/-- The place in a schema that refers to a type: a field, or an input union. -/
inductive Coordinate where
  | field (coordinate : FieldCoordinate)
  | inputUnion (name : Name)
  deriving DecidableEq

def Coordinate.text : Coordinate → String
  | field coordinate => coordinate.text
  | inputUnion name => name.text

/-- What can be wrong with a schema. -/
inductive SchemaError where
  | undefinedType (name : Name) (coordinate : Coordinate)
  | emptyInputUnion (name : Name)
  | nonInputObjectMember (name member : Name) (kind : TypeKind)
  | reservedField (coordinate : FieldCoordinate)
  /-- The trace leads from the input object back to it. -/
  | recursiveInputObject (name : Name) (trace : List FieldCoordinate)
  deriving DecidableEq

def SchemaError.message : SchemaError → String
  | undefinedType name coordinate =>
    "cannot find type `" ++ name.text ++ "` in this document (referenced by `" ++
      coordinate.text ++ "`)"
  | emptyInputUnion name =>
    "input union `" ++ name.text ++ "` must have at least one member type"
  | nonInputObjectMember name member kind =>
    "input union `" ++ name.text ++ "` member `" ++ member.text ++
      "` must be an input object type, found " ++ kind.text
  | reservedField coordinate =>
    "`" ++ coordinate.text ++ "` is reserved for input union member selection, " ++
      "it cannot be declared as an input object field"
  | recursiveInputObject name _ =>
    "`" ++ name.text ++ "` input object cannot reference itself through non-null fields"

/-- The type that a value of the field has to contain: a list may be empty, and a nullable field
may be null. -/
def InputField.required? (field : InputField) : Option Name :=
  match field.type with
  | .named name true => some name
  | _ => none

theorem InputField.required?_eq_some_iff {field : InputField} {name : Name} :
    field.required? = some name ↔ field.type = .named name true := by
  rw [InputField.required?]
  split
  · rename_i other htype
    simp [htype]
  · rename_i hnot
    simpa using hnot name

namespace Schema

/-- The result of a search: a trace to its target, or the input objects that have been entered and
need not be entered again. -/
inductive Search where
  | found (trace : List FieldCoordinate)
  | exhausted (seen : List Name)
  deriving DecidableEq

/-- Searches through fields from left to right, entering input objects by `enter`. -/
def searchFields (schema : Schema) (target owner : Name)
    (enter : InputObjectType → List Name → Search) : List InputField → List Name → Search
  | [], seen => .exhausted seen
  | field :: fields, seen =>
    match field.required? with
    | none => schema.searchFields target owner enter fields seen
    | some name =>
      if name = target then
        .found [⟨owner, field.name⟩]
      else if name ∈ seen then
        schema.searchFields target owner enter fields seen
      else
        match schema.inputObject? name.text with
        | none => schema.searchFields target owner enter fields seen
        | some object =>
          match enter object (name :: seen) with
          | .found trace => .found (⟨owner, field.name⟩ :: trace)
          | .exhausted seen => schema.searchFields target owner enter fields seen

/-- Searches for a way from an input object to the target that enters at most `depth` input
objects, one inside the other. -/
def search (schema : Schema) (target : Name) : Nat → InputObjectType → List Name → Search
  | 0, _, seen => .exhausted seen
  | depth + 1, object, seen =>
    schema.searchFields target object.name (schema.search target depth) object.fields.entries seen

/-- A way from an input object back to it through non-null fields. No input object is entered
twice, so that the number of definitions bounds the depth of the search. -/
def findCycle? (schema : Schema) (object : InputObjectType) : Option (List FieldCoordinate) :=
  match schema.search object.name (schema.types.entries.length + 1) object [object.name] with
  | .found trace => some trace
  | .exhausted _ => none

/-- The errors of a field. -/
def fieldErrors (schema : Schema) (owner : Name) (field : InputField) : List SchemaError :=
  let coordinate : FieldCoordinate := ⟨owner, field.name⟩
  let name := field.type.innerName
  (if field.name.text = inputNameKey then [.reservedField coordinate] else []) ++
    (if (schema.get? name.text).isSome then [] else [.undefinedType name (.field coordinate)])

/-- The errors of a member of an input union. -/
def memberErrors (schema : Schema) (owner member : Name) : List SchemaError :=
  match schema.get? member.text with
  | some (.inputObject _) => []
  | some other => [.nonInputObjectMember owner member other.kind]
  | none => [.undefinedType member (.inputUnion owner)]

/-- The errors of a definition. -/
def definitionErrors (schema : Schema) : TypeDefinition → List SchemaError
  | .scalar _ | .enum _ => []
  | .inputObject object =>
    object.fields.entries.flatMap (schema.fieldErrors object.name) ++
      ((schema.findCycle? object).map (.recursiveInputObject object.name)).toList
  | .inputUnion type =>
    (if type.members.entries = [] then [.emptyInputUnion type.name] else []) ++
      type.members.entries.flatMap (schema.memberErrors type.name)

/-- All errors of a schema, in the order of its definitions. -/
def errors (schema : Schema) : List SchemaError :=
  schema.types.entries.flatMap schema.definitionErrors

/-- A schema without errors. -/
def IsValid (schema : Schema) : Prop :=
  schema.errors = []

instance (schema : Schema) : Decidable schema.IsValid :=
  inferInstanceAs (Decidable (schema.errors = []))

end Schema

end InputCoercion
