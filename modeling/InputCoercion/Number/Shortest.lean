import InputCoercion.Number.Double

/-!
The shortest decimal of a binary64 number: of all decimals that round to the number, one on the
coarsest grid of tenths, tens or hundreds that holds any, and of those the one nearest to the
number. All comparisons are exact.
-/

namespace InputCoercion

/-- Which of two equally near decimals is taken: the one with the even last digit, or the greater
one. -/
inductive Tie where
  | even
  | up
  deriving DecidableEq, Repr

namespace Double

/-- A grid of decimals beside the binary grid of a number, both in a unit that makes them whole: a
quarter of the last place of the mantissa is `quarter` units long, and a step from one decimal to
the next is `step` units long. -/
structure Grid where
  quarter : Nat
  step : Nat

/-- The grid of the multiples of `10 ^ e`. -/
def grid (x : Double) (e : Int) : Grid where
  quarter := Nat.pow 10 (-e).toNat * Nat.pow 2 (x.exponent - 2).toNat
  step := Nat.pow 10 e.toNat * Nat.pow 2 (2 - x.exponent).toNat

namespace Grid

/-- The magnitude of the number. -/
def middle (g : Grid) (x : Double) : Nat :=
  4 * x.mantissa * g.quarter

/-- Halfway to the next smaller number, which is nearer where the exponent changes. -/
def lower (g : Grid) (x : Double) : Nat :=
  let quarters := if x.mantissa = Nat.pow 2 52 ∧ -1074 < x.exponent then 1 else 2
  (4 * x.mantissa - quarters) * g.quarter

/-- Halfway to the next greater number. -/
def upper (g : Grid) (x : Double) : Nat :=
  (4 * x.mantissa + 2) * g.quarter

/-- Whether the `n`-th point of the grid rounds to the number. A point halfway between two numbers
does if the mantissa is even. -/
def reads (g : Grid) (x : Double) (n : Nat) : Bool :=
  let point := n * g.step
  if x.mantissa % 2 = 0 then
    g.lower x ≤ point && point ≤ g.upper x
  else
    g.lower x < point && point < g.upper x

/-- The point of the grid that rounds to the number and lies nearest to it. Only the two points
around the number can. -/
def nearest? (g : Grid) (x : Double) (tie : Tie) : Option Nat :=
  let middle := g.middle x
  let n := middle / g.step
  match g.reads x n, g.reads x (n + 1) with
  | false, false => none
  | true, false => some n
  | false, true => some (n + 1)
  | true, true =>
    let below := middle - n * g.step
    let above := (n + 1) * g.step - middle
    if below < above then some n
    else if above < below then some (n + 1)
    else match tie with
      | .even => some (n + n % 2)
      | .up => some (n + 1)

end Grid

/-- Tries one grid after the other, each ten times finer than the one before. -/
def shortestFrom (x : Double) (tie : Tie) : Nat → Int → Nat × Int
  | 0, e => ((x.grid e).middle x / (x.grid e).step, e)
  | steps + 1, e =>
    match (x.grid e).nearest? x tie with
    | some n => (n, e)
    | none => shortestFrom x tie steps (e - 1)

/-- The digits of the magnitude, read as one number, and the exponent of the last of them. No
number reaches `10 ^ 309`, and every number has a point on the grid `10 ^ -324` or on a coarser one
than `10 ^ -341`. -/
def shortest (x : Double) (tie : Tie) : Nat × Int :=
  if x.mantissa = 0 then (0, 0) else x.shortestFrom tie 650 308

end Double

end InputCoercion
