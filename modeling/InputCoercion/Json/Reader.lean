import InputCoercion.Json.Token

/-!
Reading a JSON text from its tokens. The reader keeps a stack of the containers that are open and
knows what may come next, so it takes one step for each token.
-/

namespace InputCoercion.Json

namespace Reader

/-- An open container with what it holds so far, the last first. An object has a key while the
value of that key is read. -/
inductive Frame where
  | array (items : List Json)
  | object (entries : List (String × Json)) (key : String)

/-- What may come next. -/
inductive Expected where
  /-- A value, or the end of an array that holds none. -/
  | firstItem
  | value
  /-- A key, or the end of an object that holds none. -/
  | firstKey
  | key (entries : List (String × Json))
  | colon (entries : List (String × Json)) (key : String)
  /-- A comma, or the end of the container. -/
  | next (complete : Frame)
  /-- Nothing: the value of the whole text has been read. -/
  | finished (value : Json)

/-- What is expected at the place of reading, and the containers that wait for the value that is
read there. -/
structure State where
  stack : List Frame
  expected : Expected

/-- Containers may be nested this deep. -/
def maxDepth : Nat := 127

/-- Gives a value to the innermost open container. -/
def place (value : Json) : List Frame → State
  | [] => ⟨[], .finished value⟩
  | .array items :: stack => ⟨stack, .next (.array (value :: items))⟩
  | .object entries key :: stack => ⟨stack, .next (.object ((key, value) :: entries) key)⟩

/-- Reads a token at which a value starts. -/
def startValue (stack : List Frame) : Token → Option State
  | .string value => some (place (.string value) stack)
  | .atom value => some (place value stack)
  | .beginArray => if stack.length < maxDepth then some ⟨stack, .firstItem⟩ else none
  | .beginObject => if stack.length < maxDepth then some ⟨stack, .firstKey⟩ else none
  | _ => none

/-- Reads one token. -/
def step (s : State) (token : Token) : Option State :=
  match s.expected, token with
  | .value, token => startValue s.stack token
  | .firstItem, .endArray => some (place (.array []) s.stack)
  | .firstItem, token => startValue (.array [] :: s.stack) token
  | .firstKey, .endObject => some (place (.object []) s.stack)
  | .firstKey, .string key => some ⟨s.stack, .colon [] key⟩
  | .key entries, .string key => some ⟨s.stack, .colon entries key⟩
  | .colon entries key, .colon => some ⟨.object entries key :: s.stack, .value⟩
  | .next (.array items), .comma => some ⟨.array items :: s.stack, .value⟩
  | .next (.array items), .endArray => some (place (.array items.reverse) s.stack)
  | .next (.object entries _), .comma => some ⟨s.stack, .key entries⟩
  | .next (.object entries _), .endObject => some (place (.object entries.reverse) s.stack)
  | _, _ => none

end Reader

open Reader in
/-- The value of a text, with all entries of its objects as they are written. -/
def read? (s : String) : Option Json := do
  let tokens ← Token.ofChars? s.toList
  let state ← tokens.foldlM step ⟨[], .value⟩
  match state.expected with
  | .finished value => some value
  | _ => none

/-- The value of a text. Of a repeated key the last value counts, at the position of the first. -/
def ofString? (s : String) : Option Json :=
  mergeRepeats <$> read? s

end InputCoercion.Json
