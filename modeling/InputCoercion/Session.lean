import InputCoercion.Coercion.Literal

/-!
Sessions: a schema that grows, variables, and the value of the last coercion. A step that fails
leaves the session as it was. Schemas are not validated here, so that a coercion may meet a type
that is not defined.
-/

namespace InputCoercion

structure Session where
  schema : Schema
  vars : Entries
  /-- The last value, or none where nothing was coerced yet or the last literal had no value. -/
  last? : Option Json

namespace Session

/-- A session with nothing coerced yet. -/
def start (schema : Schema) (vars : Entries) : Session :=
  ⟨schema, vars, none⟩

/-- Adds a definition to the schema. -/
def define (s : Session) (definition : TypeDefinition) : Session :=
  { s with schema := s.schema.define definition }

/-- Coerces a value to a type. -/
def coerce (s : Session) (type : InputType) (value? : Option Json) : Coerced × Session :=
  match s.schema.coerce type value? none with
  | .ok value => (.ok value, { s with last? := some value })
  | .error failure => (.error failure, s)

/-- Coerces the last value to a type. -/
def coerceLast (s : Session) (type : InputType) : Coerced × Session :=
  s.coerce type s.last?

/-- Interprets a literal at a type. -/
def interpret (s : Session) (type : InputType) (literal? : Option Literal) :
    Interpreted × Session :=
  match s.schema.interpret type literal? s.vars with
  | .ok value => (.ok value, { s with last? := some value })
  | .error .absent => (.error .absent, { s with last? := none })
  | .error failure => (.error failure, s)

/-- Binds a variable to the last value, or unbinds it where there is none. -/
def bind (s : Session) (name : String) : Session :=
  { s with
    vars := match s.last? with
      | some value => Entries.insert name value s.vars
      | none => Entries.erase name s.vars }

end Session

end InputCoercion
