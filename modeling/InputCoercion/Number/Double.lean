/-!
Finite binary64 numbers, exactly. A number is a sign and a product `mantissa * 2 ^ exponent` in the
one form that the format has for it, so that two numbers of equal sign and value are equal as data.
Rounding takes an exact quotient to the nearest number, and of two nearest to the one with an even
mantissa.
-/

namespace InputCoercion

/-- A finite binary64 number. Below `2 ^ 52` the mantissa may only stand at the least exponent,
which is where zero and the subnormal numbers are. -/
structure Double where
  negative : Bool
  mantissa : Nat
  exponent : Int
  mantissa_lt : mantissa < Nat.pow 2 53
  le_exponent : -1074 ≤ exponent
  exponent_le : exponent ≤ 971
  normal : exponent = -1074 ∨ Nat.pow 2 52 ≤ mantissa
  deriving DecidableEq

namespace Double

def zero (negative : Bool) : Double :=
  ⟨negative, 0, -1074, by decide, by decide, by decide, .inl rfl⟩

/-- The number with the given parts, if there is one. -/
def ofParts? (negative : Bool) (mantissa : Nat) (exponent : Int) : Option Double :=
  if h : mantissa < Nat.pow 2 53 ∧ -1074 ≤ exponent ∧ exponent ≤ 971 ∧
      (exponent = -1074 ∨ Nat.pow 2 52 ≤ mantissa) then
    some ⟨negative, mantissa, exponent, h.1, h.2.1, h.2.2.1, h.2.2.2⟩
  else
    none

/-- The value without its sign, if it is an integer. -/
def magnitude? (x : Double) : Option Nat :=
  let scale := Nat.pow 2 (-x.exponent).toNat
  if x.mantissa % scale = 0 then
    some (x.mantissa / scale * Nat.pow 2 x.exponent.toNat)
  else
    none

/-- The value, if it is an integer. Both zeros are `0`. -/
def toInt? (x : Double) : Option Int :=
  x.magnitude?.map fun n => if x.negative then -(n : Int) else n

/-- A quotient rounded to the nearest integer, a tie to the even one. -/
def roundDiv (num den : Nat) : Nat :=
  let quotient := num / den
  let twice := 2 * (num % den)
  if twice < den then quotient
  else if den < twice then quotient + 1
  else quotient + quotient % 2

/-- Numerator and denominator of `num / den / 2 ^ e`. -/
def scaled (num den : Nat) (e : Int) : Nat × Nat :=
  (num * Nat.pow 2 (-e).toNat, den * Nat.pow 2 e.toNat)

/-- The exponent of the greatest power of two that a positive quotient reaches. -/
def log2Div (num den : Nat) : Int :=
  let e := (num.log2 : Int) - den.log2
  let (n, d) := scaled num den e
  if n < d then e - 1 else e

/-- The number nearest to a quotient, or none where that lies beyond the largest number. -/
def ofRatio? (negative : Bool) (num den : Nat) : Option Double :=
  if num = 0 then
    some (zero negative)
  else
    let exponent := max (log2Div num den) (-1022) - 52
    let (n, d) := scaled num den exponent
    let mantissa := roundDiv n d
    if mantissa = Nat.pow 2 53 then
      ofParts? negative (Nat.pow 2 52) (exponent + 1)
    else
      ofParts? negative mantissa exponent

end Double

end InputCoercion
