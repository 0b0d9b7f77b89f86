import InputCoercion.Catalog
import InputCoercion.InputType
import InputCoercion.Scalar.BuiltIn

/-!
Schemas: the definitions of the named input types. Definitions refer to each other by name alone,
so an input object may contain itself.
-/

namespace InputCoercion

/-- The key under which a value of an input union names its member. -/
def inputNameKey : String := "__inputname"

structure ScalarType where
  name : Name
  parser : ScalarParser

/-- A value of an enum, with the JSON value that stands for it after coercion. -/
structure EnumValue where
  name : Name
  value : Json
  deriving DecidableEq

instance : Named EnumValue := ⟨EnumValue.name⟩

/-- A value that stands for itself. -/
def EnumValue.ofName (name : Name) : EnumValue :=
  ⟨name, .string name.text⟩

structure EnumType where
  name : Name
  values : Catalog EnumValue
  deriving DecidableEq

/-- A field of an input object. A default may be null, which is not the same as none. -/
structure InputField where
  name : Name
  type : InputType
  default? : Option Json
  deriving DecidableEq

instance : Named InputField := ⟨InputField.name⟩

structure InputObjectType where
  name : Name
  fields : Catalog InputField
  deriving DecidableEq

/-- A choice between input objects, made by a key of the value. -/
structure InputUnionType where
  name : Name
  members : Catalog Name
  deriving DecidableEq

/-- The definition of a named input type. -/
inductive TypeDefinition where
  | scalar (type : ScalarType)
  | enum (type : EnumType)
  | inputObject (type : InputObjectType)
  | inputUnion (type : InputUnionType)

/-- The kinds of definitions. -/
inductive TypeKind where
  | scalar
  | enum
  | inputObject
  | inputUnion
  deriving DecidableEq, Repr

def TypeKind.text : TypeKind → String
  | scalar => "SCALAR"
  | enum => "ENUM"
  | inputObject => "INPUT_OBJECT"
  | inputUnion => "INPUT_UNION"

namespace TypeDefinition

def name : TypeDefinition → Name
  | scalar type => type.name
  | enum type => type.name
  | inputObject type => type.name
  | inputUnion type => type.name

instance : Named TypeDefinition := ⟨name⟩

def kind : TypeDefinition → TypeKind
  | scalar _ => .scalar
  | enum _ => .enum
  | inputObject _ => .inputObject
  | inputUnion _ => .inputUnion

/-- Whether this is a scalar with a name of one of the scalars of every schema. Its parser may be
another one. -/
def isBuiltIn : TypeDefinition → Bool
  | scalar type => (ScalarParser.builtIn.map Prod.fst).contains type.name
  | _ => false

def scalar? : TypeDefinition → Option ScalarType
  | scalar type => some type
  | _ => none

def enum? : TypeDefinition → Option EnumType
  | enum type => some type
  | _ => none

def inputObject? : TypeDefinition → Option InputObjectType
  | inputObject type => some type
  | _ => none

end TypeDefinition

/-- An enum whose values stand for themselves, unless they are set to another value. -/
def EnumType.ofValues (name : Name) (values : List Name) (set : List EnumValue) : EnumType :=
  ⟨name, (Catalog.ofList (values.map EnumValue.ofName)).defineAll set⟩

def InputObjectType.ofFields (name : Name) (fields : List InputField) : InputObjectType :=
  ⟨name, .ofList fields⟩

def InputUnionType.ofMembers (name : Name) (members : List Name) : InputUnionType :=
  ⟨name, .ofList members⟩

/-- A set of definitions. -/
structure Schema where
  types : Catalog TypeDefinition

namespace Schema

/-- The schema that defines nothing but the five scalars. -/
def builtIn : Schema where
  types := .ofList (ScalarParser.builtIn.map fun (name, parser) => .scalar ⟨name, parser⟩)

/-- Adds a definition, or replaces the one that has its name. -/
def define (schema : Schema) (definition : TypeDefinition) : Schema :=
  ⟨schema.types.define definition⟩

/-- The five scalars with definitions added from left to right. -/
def ofDefinitions (definitions : List TypeDefinition) : Schema :=
  ⟨builtIn.types.defineAll definitions⟩

/-- The definition of a name. -/
def get? (schema : Schema) (name : String) : Option TypeDefinition :=
  schema.types.get? name

def scalar? (schema : Schema) (name : String) : Option ScalarType :=
  schema.get? name >>= TypeDefinition.scalar?

def enum? (schema : Schema) (name : String) : Option EnumType :=
  schema.get? name >>= TypeDefinition.enum?

def inputObject? (schema : Schema) (name : String) : Option InputObjectType :=
  schema.get? name >>= TypeDefinition.inputObject?

/-- What a schema defines is one of the five scalars or has been added. -/
theorem mem_of_get?_ofDefinitions {definitions : List TypeDefinition} {name : String}
    {definition : TypeDefinition} (h : (ofDefinitions definitions).get? name = some definition) :
    (∃ entry ∈ ScalarParser.builtIn, definition = .scalar ⟨entry.1, entry.2⟩) ∨
      definition ∈ definitions := by
  have hmem := Catalog.mem_of_get? h
  rw [ofDefinitions, Catalog.entries_defineAll, builtIn, Catalog.ofList,
    Catalog.entries_defineAll] at hmem
  rcases Keyed.mem_of_mem_insertAll hmem with hmem | hmem
  · rcases Keyed.mem_of_mem_insertAll hmem with hmem | hmem
    · cases hmem
    · obtain ⟨entry, hentry, rfl⟩ := List.mem_map.mp hmem
      exact .inl ⟨entry, hentry, rfl⟩
  · exact .inr hmem

end Schema

end InputCoercion
