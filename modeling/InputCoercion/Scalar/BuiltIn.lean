import InputCoercion.Json.Printer
import InputCoercion.Scalar.Basic

/-!
The five scalars of every schema. Each rejects a value with a message that shows the value, and a
literal without a reason.
-/

namespace InputCoercion

namespace Name

def int : Name := ⟨"Int", by decide⟩
def float : Name := ⟨"Float", by decide⟩
def string : Name := ⟨"String", by decide⟩
def boolean : Name := ⟨"Boolean", by decide⟩
def id : Name := ⟨"ID", by decide⟩

end Name

/-- Rejects a value with a message that ends with its text. -/
def ScalarError.showing (message : String) (value : Json) : ScalarError :=
  .message (message ++ ": " ++ value.text)

namespace ScalarParser

/-- Numbers of any kind whose value is an integer of 32 bits. -/
def int : ScalarParser where
  parseValue value :=
    let notInteger := ScalarError.showing "Int cannot represent non-integer value" value
    match value with
    | .number number =>
      match number.toInt? with
      | some n =>
        if -(Nat.pow 2 31 : Int) ≤ n ∧ n < Nat.pow 2 31 then .ok (.ofInt n)
        else .error (.showing "Int cannot represent non 32-bit signed integer value" value)
      | none => .error notInteger
    | _ => .error notInteger
  parseLiteral := ofLiteral? fun literal => .ofInt <$> literal.toInt32?

/-- All numbers, and of literals those that are near a finite float. -/
def float : ScalarParser where
  parseValue
    | .number number => .ok (.number number)
    | value => .error (.showing "Float cannot represent non numeric value" value)
  parseLiteral := ofLiteral? fun literal => (.number ∘ .float) <$> literal.toDouble?

def string : ScalarParser where
  parseValue
    | .string text => .ok (.string text)
    | value => .error (.showing "String cannot represent a non string value" value)
  parseLiteral := ofLiteral? fun literal => .string <$> literal.string?

def boolean : ScalarParser where
  parseValue
    | .bool b => .ok (.bool b)
    | value => .error (.showing "Boolean cannot represent a non boolean value" value)
  parseLiteral := ofLiteral? fun literal => .bool <$> literal.boolean?

/-- Strings and integers, both as strings. -/
def id : ScalarParser where
  parseValue
    | .string text => .ok (.string text)
    | .number (.int n) => .ok (.string (Number.int n).text)
    | value => .error (.showing "ID cannot represent value" value)
  parseLiteral := ofLiteral? fun
    | .string text => some (.string text)
    | .int numeral => some (.string numeral.text)
    | _ => none

/-- The scalars of every schema in their order. -/
def builtIn : List (Name × ScalarParser) :=
  [(.int, int), (.float, float), (.string, string), (.boolean, boolean), (.id, id)]

end ScalarParser

end InputCoercion
