import InputCoercion.Name.Json

/-!
Paths into nested values: which field of an object, which item of a list, from the outside to the
inside. Both their texts and their JSON forms tell any two paths apart.
-/

namespace InputCoercion

/-- A step into a value. -/
inductive PathElement where
  | field (name : Name)
  | index (position : Nat)
  deriving DecidableEq

/-- Steps into a value, the outermost first. -/
abbrev Path := List PathElement

namespace PathElement

/-- The text of a step behind those before it. -/
def text : PathElement → String
  | field name => "." ++ name.text
  | index position => "[" ++ Nat.repr position ++ "]"

def toJson : PathElement → Json
  | field name => name.toJson
  | index position => .ofInt position

/-- Positions are numbers of 64 bits. -/
def positionBound : Nat := Nat.pow 2 64

/-- A string that is a name, or a position. -/
def ofJson? : Json → Option PathElement
  | .number (.int value) =>
    if 0 ≤ value ∧ value < positionBound then some (index value.toNat) else none
  | value => field <$> Name.ofJson? value

end PathElement

namespace Path

/-- The text of a path, such as `value.pets[0].name`. The path of a whole value has none. -/
def text (path : Path) : String :=
  match path with
  | [] => ""
  | _ => "value" ++ String.join (path.map PathElement.text)

def toJson (path : Path) : Json :=
  .array (path.map PathElement.toJson)

def ofJson? : Json → Option Path
  | .array items => items.mapM PathElement.ofJson?
  | _ => none

end Path

end InputCoercion
