import InputCoercion.Number

/-!
The numbers of a document as they are written. An integer literal is a sign and a magnitude of any
size: `-0` and `0` are two literals of one value, and no precision is lost before a scalar decides
what to do with the number. A float literal is a text.
-/

namespace InputCoercion

/-- An integer literal. -/
structure IntNumeral where
  negative : Bool
  magnitude : Nat
  deriving DecidableEq, Repr

/-- Why an integer does not fit a width. -/
inductive IntRangeError where
  | tooLarge
  | tooSmall
  deriving DecidableEq, Repr

def IntRangeError.message : IntRangeError → String
  | tooLarge => "number too large to fit in target type"
  | tooSmall => "number too small to fit in target type"

/-- A number beyond the finite floats. -/
structure FloatOverflow where
  deriving DecidableEq, Repr

def FloatOverflow.message (_ : FloatOverflow) : String :=
  "value magnitude too large to be converted to a 64-bit float"

/-- The short form of the message, for logs. -/
def FloatOverflow.summary (_ : FloatOverflow) : String :=
  "value magnitude too large to be converted to f64"

namespace IntNumeral

/-- The literal of a given value. -/
def ofInt (value : Int) : IntNumeral :=
  ⟨decide (value < 0), value.natAbs⟩

/-- The grammar of magnitudes: digits, and no zero in front of another digit. -/
def IsMagnitude (cs : List Char) : Prop :=
  cs ≠ [] ∧ (∀ c ∈ cs, c.isDigit = true) ∧ (cs.head? = some '0' → cs = ['0'])

instance (cs : List Char) : Decidable (IsMagnitude cs) :=
  inferInstanceAs (Decidable (_ ∧ _ ∧ _))

/-- Reads a magnitude behind a sign. -/
def ofMagnitude? (negative : Bool) (cs : List Char) : Option IntNumeral :=
  if IsMagnitude cs then some ⟨negative, Numeral.ofDigits cs⟩ else none

def ofChars? : List Char → Option IntNumeral
  | '-' :: cs => ofMagnitude? true cs
  | cs => ofMagnitude? false cs

/-- Reads an integer literal. -/
def ofString? (s : String) : Option IntNumeral :=
  ofChars? s.toList

/-- The literal as it is written. -/
def text (n : IntNumeral) : String :=
  (if n.negative then "-" else "") ++ Nat.repr n.magnitude

/-- The value, in which the sign of zero is lost. -/
def value (n : IntNumeral) : Int :=
  if n.negative then -n.magnitude else n.magnitude

/-- The value, if it fits a signed integer of a number of bits. -/
def toSigned (n : IntNumeral) (bits : Nat) : Except IntRangeError Int :=
  if Nat.pow 2 (bits - 1) ≤ n.value then .error .tooLarge
  else if n.value < -(Nat.pow 2 (bits - 1) : Int) then .error .tooSmall
  else .ok n.value

/-- The nearest float. -/
def toDouble (n : IntNumeral) : Except FloatOverflow Double :=
  match Decimal.toDouble? ⟨n.negative, n.magnitude, 0⟩ with
  | some x => .ok x
  | none => .error {}

/-- The JSON number with the text of the literal. -/
def toNumber? (n : IntNumeral) : Option Number :=
  Number.ofSignMagnitude? n.negative n.magnitude

end IntNumeral

/-- What the text of a float denotes. -/
inductive FloatReading where
  | nan
  | infinite (negative : Bool)
  | finite (value : Double)
  deriving DecidableEq

namespace FloatReading

/-- Reads a word, in letters of either case. -/
def ofWord? (negative : Bool) (cs : List Char) : Option FloatReading :=
  let lower := cs.map Char.toLower
  if lower = "nan".toList then some .nan
  else if lower = "inf".toList ∨ lower = "infinity".toList then some (.infinite negative)
  else none

/-- Reads a float text: a word or a decimal, with a sign or without. A decimal beyond the largest
float denotes an infinity. -/
def ofChars? (cs : List Char) : Option FloatReading :=
  let (sign?, rest) := Numeral.splitSign cs
  match ofWord? (sign? = some .minus) rest with
  | some reading => some reading
  | none => do
    let n ← Numeral.ofChars? cs
    if n.IsFloat then
      match n.toDecimal.toDouble? with
      | some x => some (.finite x)
      | none => some (.infinite n.negative)
    else
      none

def ofString? (s : String) : Option FloatReading :=
  ofChars? s.toList

/-- Floats of a document are never written with an exponent, and a tie goes to the greater
decimal. -/
def layout : FloatLayout where
  tie := .up
  positional _ := true

/-- The text of a float. -/
def text : FloatReading → String
  | nan => "NaN"
  | infinite negative => if negative then "-inf" else "inf"
  | finite value => layout.write value

end FloatReading

/-- A float literal: a text that can be read as a float. -/
structure FloatNumeral where
  text : String
  readable : (FloatReading.ofString? text).isSome = true
  deriving DecidableEq

namespace FloatNumeral

/-- Reads a float literal. -/
def ofString? (s : String) : Option FloatNumeral :=
  if h : (FloatReading.ofString? s).isSome = true then some ⟨s, h⟩ else none

/-- The text of a float is a float text. -/
theorem isSome_ofString?_text (r : FloatReading) :
    (FloatReading.ofString? r.text).isSome = true := by
  cases r with
  | nan => decide
  | infinite negative => cases negative <;> decide
  | finite x =>
    have hd : ∀ c ∈ Nat.toDigits 10 (x.shortest .up).1, c.isDigit = true :=
      fun _ hc => Nat.isDigit_of_mem_toDigits (by decide) (by decide) hc
    obtain ⟨hw, hne, hf, hfne⟩ :=
      splitAtPoint_digits (x.shortest .up).2 Nat.toDigits_ne_nil hd
    have hchars := Numeral.ofChars?_point x.negative hw hne hf
    simp only [FloatReading.ofString?, FloatReading.text, FloatLayout.write, String.toList_ofList,
      FloatReading.ofChars?, FloatLayout.magnitudeChars, FloatReading.layout, if_true,
      FloatLayout.positionalChars, hchars, Option.bind_eq_bind, Option.bind_some]
    split
    · rfl
    · rw [if_pos ⟨.inl hne, by simp [Numeral.HasExponentDigits]⟩]
      split <;> rfl

/-- The literal of a float. -/
def ofReading (r : FloatReading) : FloatNumeral :=
  ⟨r.text, isSome_ofString?_text r⟩

/-- What the literal denotes. -/
def reading (n : FloatNumeral) : FloatReading :=
  (FloatReading.ofString? n.text).get n.readable

/-- The value, if it is finite. -/
def toDouble (n : FloatNumeral) : Except FloatOverflow Double :=
  match n.reading with
  | .finite x => .ok x
  | _ => .error {}

/-- The JSON number with the text of the literal. JSON has a narrower grammar for floats. -/
def toNumber? (n : FloatNumeral) : Option Number :=
  Number.ofString? n.text

end FloatNumeral

end InputCoercion
