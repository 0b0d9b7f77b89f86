import InputCoercion.Literal.Untyped

/-!
Scalar parsers: what a scalar type makes of the values and literals that are given for it. They are
the one part of coercion that a schema may choose freely.
-/

namespace InputCoercion

/-- Why a scalar parser rejects a value. -/
inductive ScalarError where
  /-- No reason is given. -/
  | invalid
  | message (text : String)
  deriving DecidableEq, Repr

namespace ScalarError

/-- The error as it is displayed. -/
def text : ScalarError → String
  | invalid => "invalid scalar value"
  | message text => text

/-- The reason that is given, if any. -/
def reason? : ScalarError → Option String
  | invalid => none
  | message text => some text

end ScalarError

/-- Parses the values of requests and the literals of documents. -/
structure ScalarParser where
  parseValue : Json → Except ScalarError Json
  parseLiteral : Literal → Entries → Except ScalarError Json

namespace ScalarParser

/-- Takes the value of a literal without regard to any type. -/
def untypedLiteral (literal : Literal) (vars : Entries) : Except ScalarError Json :=
  match literal.toJson? vars with
  | some value => .ok value
  | none => .error .invalid

/-- A parser of literals that looks at nothing but the literal, and rejects without a reason. -/
def ofLiteral? (f : Literal → Option Json) (literal : Literal) (_ : Entries) :
    Except ScalarError Json :=
  match f literal with
  | some value => .ok value
  | none => .error .invalid

/-- Accepts every value as it is, and every literal that has a value. -/
def any : ScalarParser where
  parseValue := .ok
  parseLiteral := untypedLiteral

end ScalarParser

end InputCoercion
