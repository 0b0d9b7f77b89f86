import InputCoercion.Name

/-!
References to input types: a name, or a list of another type, each either nullable or non-null.
Non-null is a mark on the reference and no wrapper around it, so a type cannot be made non-null
twice. The text of a reference reads back to it.
-/

namespace InputCoercion

/-- A reference to an input type. -/
inductive InputType where
  | named (name : Name) (nonNull : Bool)
  | list (item : InputType) (nonNull : Bool)
  deriving DecidableEq

namespace InputType

def isNonNull : InputType → Bool
  | named _ nonNull => nonNull
  | list _ nonNull => nonNull

/-- The same type, not admitting null. -/
def nonNull : InputType → InputType
  | named name _ => named name true
  | list item _ => list item true

/-- The same type, admitting null. -/
def nullable : InputType → InputType
  | named name _ => named name false
  | list item _ => list item false

/-- The type of the items, for a list type. -/
def item? : InputType → Option InputType
  | named _ _ => none
  | list item _ => some item

/-- The name that is left when all lists and marks are taken off. -/
def innerName : InputType → Name
  | named name _ => name
  | list item _ => item.innerName

@[simp] theorem isNonNull_nonNull (t : InputType) : t.nonNull.isNonNull = true := by
  cases t <;> rfl

@[simp] theorem isNonNull_nullable (t : InputType) : t.nullable.isNonNull = false := by
  cases t <;> rfl

@[simp] theorem innerName_nonNull (t : InputType) : t.nonNull.innerName = t.innerName := by
  cases t <;> rfl

@[simp] theorem innerName_nullable (t : InputType) : t.nullable.innerName = t.innerName := by
  cases t <;> rfl

/-- The mark behind a type that is non-null. -/
def mark (nonNull : Bool) : String :=
  if nonNull then "!" else ""

/-- The text of a reference, such as `[PetInput!]!`. -/
def text : InputType → String
  | named name nonNull => name.text ++ mark nonNull
  | list item nonNull => "[" ++ item.text ++ "]" ++ mark nonNull

instance : ToString InputType := ⟨text⟩

/-- Takes a character off the end of a text. -/
def dropLast? (c : Char) (cs : List Char) : Option (List Char) :=
  if cs.getLast? = some c then some cs.dropLast else none

theorem length_of_dropLast? {c : Char} {cs r : List Char} (h : dropLast? c cs = some r) :
    r.length < cs.length := by
  cases cs with
  | nil => simp [dropLast?] at h
  | cons a as =>
    simp only [dropLast?] at h
    split at h
    · cases h; simp
    · cases h

/-- Takes the brackets off a text that stands in brackets. -/
def dropBrackets? : List Char → Option (List Char)
  | '[' :: cs => dropLast? ']' cs
  | _ => none

theorem length_of_dropBrackets? {cs r : List Char} (h : dropBrackets? cs = some r) :
    r.length < cs.length := by
  simp only [dropBrackets?] at h
  split at h
  · have := length_of_dropLast? h
    simp only [List.length_cons]
    omega
  · cases h

/-- Reads a reference from characters. A trailing mark makes the rest non-null, brackets make a
list, and anything else has to be a name. -/
def ofChars (cs : List Char) : Except InvalidName InputType :=
  match _h : dropLast? '!' cs with
  | some rest => nonNull <$> ofChars rest
  | none =>
    match _h' : dropBrackets? cs with
    | some inner => (list · false) <$> ofChars inner
    | none => (named · false) <$> Name.ofString (String.ofList cs)
termination_by cs.length
decreasing_by
  · exact length_of_dropLast? _h
  · exact length_of_dropBrackets? _h'

/-- Reads a reference from its text. -/
def ofString (s : String) : Except InvalidName InputType :=
  ofChars s.toList

end InputType

end InputCoercion
