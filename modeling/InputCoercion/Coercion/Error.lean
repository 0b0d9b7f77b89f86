import InputCoercion.Path
import InputCoercion.Report
import InputCoercion.Scalar.Basic
import InputCoercion.Schema.Basic
import InputCoercion.Source
import InputCoercion.Suggestion

/-!
What a value can get wrong, where in the value it does, and how that is said. The message of an
error is assembled from its cause and its path.
-/

namespace InputCoercion

/-- What is wrong with a value at the place where it stands. -/
inductive Problem where
  /-- Null at a non-null type. -/
  | null (type : InputType)
  /-- The parser of a scalar rejects the value. -/
  | rejected (type : Name) (error : ScalarError)
  /-- The text of the value is no value of an enum. The options are those of the enum. -/
  | notEnumValue (type : Name) (input : String) (options : List String)
  /-- No object, at an input object or an input union. -/
  | notObject (type : Name)
  /-- The key that selects a member of an input union does not hold the name of one. -/
  | unknownMember (type : Name) (members : List String) (input : String)
  /-- A non-null field without a default is not given. The path ends with the field. -/
  | missingField (type : InputType)
  /-- A key that is no field. The options are the fields of the input object. -/
  | undefinedField (key : String) (type : Name) (options : List String)
  deriving DecidableEq

/-- A problem, with the path that leads to it in the value, and with the place in a document that
the caller holds responsible for the value. -/
structure CoercionError where
  problem : Problem
  path : Path
  span? : Option Span
  deriving DecidableEq

namespace Problem

/-- What the value is expected to be. -/
def expectation : Problem → String
  | null type => "Expected non-nullable type " ++ type.text ++ " not to be null"
  | rejected type _ => "Expected type " ++ type.text
  | notEnumValue type _ _ => "Expected type " ++ type.text
  | notObject type => "Expected type " ++ type.text ++ " to be an object"
  | unknownMember type members input =>
    "Expected " ++ type.text ++ "." ++ inputNameKey ++ " to be one of " ++
      ", ".intercalate members ++ ". Saw \"" ++ input ++ "\""
  | missingField type => "of required type " ++ type.text ++ " was not provided"
  | undefinedField key type _ =>
    "Field \"" ++ key ++ "\" is not defined by type " ++ type.text

/-- What can be said further: the reason that a scalar parser gives, or the spellings that may have
been meant. -/
def detail? : Problem → Option String
  | rejected _ error => error.reason?
  | notEnumValue _ input options => Suggestion.didYouMean? input options
  | undefinedField key _ options => Suggestion.didYouMean? key options
  | _ => none

/-- The error of a scalar parser, if it gives a reason. -/
def scalarError? : Problem → Option ScalarError
  | rejected _ (.message text) => some (.message text)
  | _ => none

end Problem

namespace CoercionError

/-- The path in a sentence. The path of a whole value is left out. -/
def clause (path : Path) : String :=
  if path = [] then "" else " at " ++ path.text

/-- A further sentence, if there is one. -/
def detailClause : Option String → String
  | none => ""
  | some detail => "; " ++ detail

/-- The full message. That of a missing field names the field first. -/
def message (e : CoercionError) : String :=
  match e.problem with
  | .missingField _ => "Field " ++ e.path.text ++ " " ++ e.problem.expectation ++ "."
  | _ => e.problem.expectation ++ clause e.path ++ detailClause e.problem.detail? ++ "."

end CoercionError

/-- The text of the errors of a value. -/
def CoercionError.reportAll (errors : List CoercionError) : String :=
  report (errors.map message)

end InputCoercion
