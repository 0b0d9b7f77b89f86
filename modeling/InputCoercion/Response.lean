import InputCoercion.Coercion.Error
import InputCoercion.Json.Reader

/-!
Errors as a server sends them to a client: a message, positions in a document, and any further
data. A position is left out if it cannot be found in the document.

The JSON form is read strictly. An object must not have other keys than those of an error, nor
repeat one. It may also be written as an array of its values in order, of which the last may be
left out where they have a default.
-/

namespace InputCoercion

/-- An error of a response. -/
structure ResponseError where
  message : String
  locations : List Position
  extensions : Entries
  deriving DecidableEq

namespace ResponseError

/-- An error that has a message alone. -/
def ofMessage (message : String) : ResponseError :=
  ⟨message, [], []⟩

/-- The response to an error of a value that a document holds responsible. -/
def ofCoercionError (source? : Option String) (e : CoercionError) : ResponseError :=
  let position? := do Position.ofOffset? (← source?) (← e.span?).start
  ⟨e.message, position?.toList, []⟩

end ResponseError

/-! ### Writing -/

def Position.toJson (p : Position) : Json :=
  .object [("line", .ofInt p.line), ("column", .ofInt p.column)]

/-- The JSON form, in which empty parts are left out. -/
def ResponseError.toJson (e : ResponseError) : Json :=
  .object <|
    [("message", .string e.message)] ++
    (if e.locations = [] then [] else [("locations", .array (e.locations.map Position.toJson))]) ++
    (if e.extensions = [] then [] else [("extensions", .object e.extensions)])

/-! ### Reading -/

namespace Json

/-- The values of a record in the order of its keys, none for those that are left out. A record is
an object with no other keys and no repeated ones, or an array that is no longer than the keys. -/
def record? (keys : List String) : Json → Option (List (Option Json))
  | object entries =>
    if (∀ entry ∈ entries, entry.1 ∈ keys) ∧ (Entries.keys entries).Nodup then
      some (keys.map (Entries.get? · entries))
    else
      none
  | array items =>
    if items.length ≤ keys.length then
      some (items.map some ++ List.replicate (keys.length - items.length) none)
    else
      none
  | _ => none

/-- An integer that is not negative. -/
def nat? : Json → Option Nat
  | number (.int value) => if 0 ≤ value then some value.toNat else none
  | _ => none

/-- The items of an array, each read by a function. -/
def list? {α : Type} (f : Json → Option α) : Json → Option (List α)
  | array items => items.mapM f
  | _ => none

/-- The entries of an object, in which repeated keys are merged. -/
def entries? : Json → Option Entries
  | object entries => some (Entries.ofList (mergeRepeatsEntries entries))
  | _ => none

end Json

def Position.ofJson? (value : Json) : Option Position := do
  match ← value.record? ["line", "column"] with
  | [some line, some column] => some ⟨← line.nat?, ← column.nat?⟩
  | _ => none

namespace ResponseError

/-- Reads a value that may be left out. -/
def orDefault {α : Type} (f : Json → Option (List α)) : Option Json → Option (List α)
  | none => some []
  | some value => f value

/-- Reads an error from a value that may repeat keys. -/
def ofJson? (value : Json) : Option ResponseError := do
  match ← value.record? ["message", "locations", "extensions"] with
  | [some message, locations?, extensions?] =>
    some ⟨← message.string?, ← orDefault (Json.list? Position.ofJson?) locations?,
      ← orDefault Json.entries? extensions?⟩
  | _ => none

/-- Reads an error from its JSON text. -/
def ofString? (s : String) : Option ResponseError :=
  Json.read? s >>= ofJson?

end ResponseError

end InputCoercion
