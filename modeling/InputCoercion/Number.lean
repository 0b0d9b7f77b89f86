import InputCoercion.Number.Layout
import InputCoercion.Number.Numeral

/-!
JSON numbers, which keep two kinds apart: integers that fit 64 bits, and floats. A text without
fraction and exponent denotes an integer if it is in range, and a float otherwise; `-0` is the
float, as integers have one zero.
-/

namespace InputCoercion

/-- A JSON number. -/
inductive Number where
  | int (value : Int)
  | float (value : Double)
  deriving DecidableEq

namespace Number

/-- Integers from here on are too large for the integer kind. -/
def intBound : Int := Nat.pow 2 64

/-- The least integer of the integer kind. -/
def intMin : Int := -Nat.pow 2 63

/-- The number that a sign and a magnitude denote, or none where it is beyond all floats. -/
def ofSignMagnitude? (negative : Bool) (magnitude : Nat) : Option Number :=
  let value : Int := if negative then -magnitude else magnitude
  if negative ∧ magnitude = 0 then some (.float (.zero true))
  else if intMin ≤ value ∧ value < intBound then some (.int value)
  else .float <$> Decimal.toDouble? ⟨negative, magnitude, 0⟩

/-- The number that a JSON numeral denotes. -/
def ofNumeral? (n : Numeral) : Option Number :=
  if n.isInteger then
    ofSignMagnitude? n.negative (Numeral.ofDigits n.whole)
  else
    .float <$> n.toDecimal.toDouble?

/-- Reads a number under the JSON grammar. -/
def ofChars? (cs : List Char) : Option Number := do
  let n ← Numeral.ofChars? cs
  if n.IsJson then ofNumeral? n else none

def ofString? (s : String) : Option Number :=
  ofChars? s.toList

/-- Floats are written positionally from `1e-5` up to `1e16`, and ties go to the even digit. -/
def layout : FloatLayout where
  tie := .even
  positional e := -5 ≤ e && e < 16

/-- The JSON text of a number. -/
def text : Number → String
  | int value => toString value
  | float value => layout.write value

/-- The value, if it is an integer. -/
def toInt? : Number → Option Int
  | int value => some value
  | float value => value.toInt?

end Number

end InputCoercion
