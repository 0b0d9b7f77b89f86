import InputCoercion.Json.Basic
import InputCoercion.Name

/-!
Names in JSON: strings that are names.
-/

namespace InputCoercion.Name

def toJson (name : Name) : Json :=
  .string name.text

def ofJson? : Json → Option Name
  | .string text => (ofString text).toOption
  | _ => none

end InputCoercion.Name
