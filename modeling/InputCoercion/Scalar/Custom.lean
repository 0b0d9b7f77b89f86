import InputCoercion.Scalar.BuiltIn

/-!
Further scalar parsers, and the texts by which they are chosen.
-/

namespace InputCoercion.ScalarParser

/-- Gives null for everything. -/
def null : ScalarParser where
  parseValue _ := .ok .null
  parseLiteral _ _ := .ok .null

/-- Rejects everything. -/
def reject (error : ScalarError) : ScalarParser where
  parseValue _ := .error error
  parseLiteral _ _ := .error error

/-- Puts a value under the key `raw` of an object. -/
def wrap : ScalarParser where
  parseValue value := .ok (.object [("raw", value)])
  parseLiteral := untypedLiteral

/-- Accepts an even integer of 64 bits. -/
def evenOf (value : Int) : Except ScalarError Json :=
  if value % 2 = 0 then .ok (.ofInt value) else .error (.message (toString value ++ " is odd"))

/-- Accepts the even integers among the values and literals that are integers of 64 bits. -/
def even : ScalarParser where
  parseValue
    | .number (.int value) =>
      if -(Nat.pow 2 63 : Int) ≤ value ∧ value < Nat.pow 2 63 then evenOf value
      else .error .invalid
    | _ => .error .invalid
  parseLiteral
    | .int numeral, _ =>
      match numeral.toSigned 64 with
      | .ok value => evenOf value
      | .error _ => .error .invalid
    | _, _ => .error .invalid

/-- The parser of a given description: the name of one of the scalars of every schema, or of one of
the parsers here. A rejection gives its message behind a colon. -/
def ofDescription? (description : String) : Option ScalarParser :=
  match builtIn.find? (fun p => p.1.text = description) with
  | some (_, parser) => some parser
  | none =>
    if description = "any" then some any
    else if description = "even" then some even
    else if description = "null" then some null
    else if description = "invalid" then some (reject .invalid)
    else if description = "wrap" then some wrap
    else
      let (kind, message) := description.toList.splitAt "reject:".length
      if kind = "reject:".toList then some (reject (.message (String.ofList message))) else none

end InputCoercion.ScalarParser
