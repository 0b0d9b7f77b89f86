import InputCoercion.Json.Basic

/-!
The tokens of a JSON text. The text is read by an automaton, one character at a time: it is between
tokens, inside a word (a number or one of the three constants), or inside a string.
-/

namespace InputCoercion.Json

/-- What a JSON text consists of, blanks apart. -/
inductive Token where
  | beginArray
  | endArray
  | beginObject
  | endObject
  | colon
  | comma
  | string (value : String)
  /-- A number or a constant. -/
  | atom (value : Json)
  deriving DecidableEq

namespace Token

/-- Where the automaton stands. Characters collected so far are kept in reverse. -/
inductive Mode where
  | between
  | word (chars : List Char)
  | string (chars : List Char)
  /-- Behind a backslash. -/
  | escape (chars : List Char)
  /-- Behind `\u`, with the digits read so far. -/
  | code (chars : List Char) (digits : List Nat)
  /-- Behind the escape of a first surrogate, which a second one has to follow. -/
  | surrogate (chars : List Char) (first : Nat)
  | surrogateEscape (chars : List Char) (first : Nat)
  | surrogateCode (chars : List Char) (first : Nat) (digits : List Nat)

def isBlank (c : Char) : Bool :=
  c = ' ' || c = '\t' || c = '\n' || c = '\r'

/-- The tokens of one character. -/
def ofPunctuation? (c : Char) : Option Token :=
  if c = '[' then some beginArray
  else if c = ']' then some endArray
  else if c = '{' then some beginObject
  else if c = '}' then some endObject
  else if c = ':' then some colon
  else if c = ',' then some comma
  else none

/-- The constant or number that a word is. -/
def ofWord? (chars : List Char) : Option Token :=
  if chars = "null".toList then some (atom .null)
  else if chars = "true".toList then some (atom (.bool true))
  else if chars = "false".toList then some (atom (.bool false))
  else (atom ∘ .number) <$> Number.ofChars? chars

/-- The character that a letter behind a backslash stands for, `u` apart. -/
def unescape? (c : Char) : Option Char :=
  if c = '"' ∨ c = '\\' ∨ c = '/' then some c
  else if c = 'b' then some '\x08'
  else if c = 'f' then some '\x0c'
  else if c = 'n' then some '\n'
  else if c = 'r' then some '\r'
  else if c = 't' then some '\t'
  else none

/-- The value of a hexadecimal digit of either case. -/
def hexDigit? (c : Char) : Option Nat :=
  if c.isDigit then some (c.toNat - '0'.toNat)
  else if 'a' ≤ c ∧ c ≤ 'f' then some (c.toNat - 'a'.toNat + 10)
  else if 'A' ≤ c ∧ c ≤ 'F' then some (c.toNat - 'A'.toNat + 10)
  else none

/-- The number that four digits denote, once there are four. The last digit comes first. -/
def ofHexDigits? : List Nat → Option Nat
  | [d, c, b, a] => some (((a * 16 + b) * 16 + c) * 16 + d)
  | _ => none

def isFirstSurrogate (n : Nat) : Bool := 0xD800 ≤ n && n < 0xDC00

def isSecondSurrogate (n : Nat) : Bool := 0xDC00 ≤ n && n < 0xE000

/-- Starts a token. -/
def start (c : Char) : List Token × Mode :=
  if isBlank c then ([], .between)
  else if c = '"' then ([], .string [])
  else match ofPunctuation? c with
    | some token => ([token], .between)
    | none => ([], .word [c])

/-- Whether a character ends a word. -/
def endsWord (c : Char) : Bool :=
  isBlank c || c = '"' || (ofPunctuation? c).isSome

/-- Reads one character. The result has the tokens that it completes. -/
def step : Mode → Char → Option (List Token × Mode)
  | .between, c => some (start c)
  | .word chars, c =>
    if endsWord c then do
      let token ← ofWord? chars.reverse
      let (tokens, mode) := start c
      pure (token :: tokens, mode)
    else
      some ([], .word (c :: chars))
  | .string chars, c =>
    if c = '"' then some ([string (String.ofList chars.reverse)], .between)
    else if c = '\\' then some ([], .escape chars)
    else if c < ' ' then none
    else some ([], .string (c :: chars))
  | .escape chars, c =>
    if c = 'u' then some ([], .code chars [])
    else (fun e => ([], .string (e :: chars))) <$> unescape? c
  | .code chars digits, c => do
    let digits := (← hexDigit? c) :: digits
    match ofHexDigits? digits with
    | none => pure ([], .code chars digits)
    | some n =>
      if isFirstSurrogate n then pure ([], .surrogate chars n)
      else if isSecondSurrogate n then none
      else pure ([], .string (Char.ofNat n :: chars))
  | .surrogate chars first, c =>
    if c = '\\' then some ([], .surrogateEscape chars first) else none
  | .surrogateEscape chars first, c =>
    if c = 'u' then some ([], .surrogateCode chars first []) else none
  | .surrogateCode chars first digits, c => do
    let digits := (← hexDigit? c) :: digits
    match ofHexDigits? digits with
    | none => pure ([], .surrogateCode chars first digits)
    | some n =>
      if isSecondSurrogate n then
        let code := 0x10000 + (first - 0xD800) * 0x400 + (n - 0xDC00)
        pure ([], .string (Char.ofNat code :: chars))
      else none

/-- The token that the end of the text completes. A string has to be closed. -/
def finish : Mode → Option (List Token)
  | .between => some []
  | .word chars => ([·]) <$> ofWord? chars.reverse
  | _ => none

/-- The tokens of the rest of a text, in front of which the automaton stands. -/
def ofCharsFrom : Mode → List Char → Option (List Token)
  | mode, [] => finish mode
  | mode, c :: cs => do
    let (tokens, mode) ← step mode c
    return tokens ++ (← ofCharsFrom mode cs)

/-- The tokens of a text, or none where it has a part that is no token. -/
def ofChars? (cs : List Char) : Option (List Token) :=
  ofCharsFrom .between cs

end Token

end InputCoercion.Json
