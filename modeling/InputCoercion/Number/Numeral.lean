import InputCoercion.Number.Double

/-!
Decimal numerals: a sign, whole digits, a fraction and an exponent, as far as they are written.
Splitting a text into these parts is common to all grammars of numbers; which parts a grammar
allows and requires is a predicate on the result. The value of a numeral is an exact decimal, and
rounding it to binary64 is the last step.
-/

namespace InputCoercion

/-- The exact value `digits * 10 ^ exponent`, negated or not. -/
structure Decimal where
  negative : Bool
  digits : Nat
  exponent : Int
  deriving DecidableEq, Repr

namespace Decimal

/-- The exponent below which a decimal rounds to zero whatever its digits, and above whose opposite
it is beyond the largest number. -/
def exponentBound : Int := 400

/-- The nearest binary64 number, or none beyond the largest. Decimals far outside the range are
settled by the position of their leading digit, so that no huge power is computed. -/
def toDouble? (d : Decimal) : Option Double :=
  if d.digits = 0 then
    some (.zero d.negative)
  else
    let top := (Nat.toDigits 10 d.digits).length + d.exponent
    if top < -exponentBound then some (.zero d.negative)
    else if exponentBound < top then none
    else
      Double.ofRatio? d.negative (d.digits * Nat.pow 10 d.exponent.toNat)
        (Nat.pow 10 (-d.exponent).toNat)

end Decimal

/-- A sign in front of digits. -/
inductive Sign where
  | plus
  | minus
  deriving DecidableEq, Repr

/-- The written parts of a number. -/
structure Numeral where
  sign? : Option Sign
  whole : List Char
  fraction? : Option (List Char)
  exponent? : Option (Option Sign × List Char)
  deriving DecidableEq, Repr

namespace Numeral

/-- The digits at the start of a text, and the rest. -/
def splitDigits (cs : List Char) : List Char × List Char :=
  (cs.takeWhile Char.isDigit, cs.dropWhile Char.isDigit)

def splitSign : List Char → Option Sign × List Char
  | '+' :: cs => (some .plus, cs)
  | '-' :: cs => (some .minus, cs)
  | cs => (none, cs)

/-- A point and the digits behind it, if there is a point. -/
def splitFraction : List Char → Option (List Char) × List Char
  | '.' :: cs => ((splitDigits cs).map some id)
  | cs => (none, cs)

/-- The sign and the digits of an exponent, if there is an `e` of either case. -/
def splitExponent : List Char → Option (Option Sign × List Char) × List Char
  | c :: cs =>
    if c = 'e' ∨ c = 'E' then
      let (sign?, cs) := splitSign cs
      let (digits, cs) := splitDigits cs
      (some (sign?, digits), cs)
    else
      (none, c :: cs)
  | [] => (none, [])

/-- The parts of a text, which has to consist of them entirely. Each part may be empty. -/
def ofChars? (cs : List Char) : Option Numeral :=
  let (sign?, cs) := splitSign cs
  let (whole, cs) := splitDigits cs
  let (fraction?, cs) := splitFraction cs
  let (exponent?, cs) := splitExponent cs
  if cs = [] then some ⟨sign?, whole, fraction?, exponent?⟩ else none

theorem splitDigits_append {digits rest : List Char} (hd : ∀ c ∈ digits, c.isDigit = true)
    (hr : ∀ c ∈ rest.head?, c.isDigit = false) :
    splitDigits (digits ++ rest) = (digits, rest) := by
  have hrest : rest.takeWhile Char.isDigit = [] ∧ rest.dropWhile Char.isDigit = rest := by
    cases rest with
    | nil => simp
    | cons c cs => simp [hr c (by simp)]
  simp [splitDigits, List.takeWhile_append_of_pos hd, List.dropWhile_append_of_pos hd, hrest]

/-- Digits on both sides of a point are split at the point. -/
theorem ofChars?_point (negative : Bool) {whole fraction : List Char}
    (hw : ∀ c ∈ whole, c.isDigit = true) (hne : whole ≠ [])
    (hf : ∀ c ∈ fraction, c.isDigit = true) :
    ofChars? ((if negative then ['-'] else []) ++ (whole ++ '.' :: fraction)) =
      some ⟨if negative then some .minus else none, whole, some fraction, none⟩ := by
  have hsign : splitSign ((if negative then ['-'] else []) ++ (whole ++ '.' :: fraction)) =
      (if negative then some .minus else none, whole ++ '.' :: fraction) := by
    cases negative with
    | true => rfl
    | false =>
      obtain ⟨c, cs, rfl⟩ := List.exists_cons_of_ne_nil hne
      have hc := hw c (by simp)
      simp only [Bool.false_eq_true, if_false, List.nil_append, List.cons_append]
      rw [splitSign.eq_3]
      · rintro _ h
        cases h
        exact absurd hc (by decide)
      · rintro _ h
        cases h
        exact absurd hc (by decide)
  have hpoint : splitDigits (whole ++ '.' :: fraction) = (whole, '.' :: fraction) :=
    splitDigits_append hw (by simp)
  have hrest : splitDigits fraction = (fraction, []) := by
    simpa using @splitDigits_append fraction [] hf (by simp)
  simp [ofChars?, hsign, hpoint, hrest, splitFraction, splitExponent]

/-- An exponent, where one is written, has digits. -/
def HasExponentDigits (n : Numeral) : Prop :=
  ∀ e ∈ n.exponent?, e.2 ≠ []

instance (n : Numeral) : Decidable n.HasExponentDigits :=
  inferInstanceAs (Decidable (∀ e ∈ n.exponent?, e.2 ≠ []))

/-- The grammar of JSON numbers: no plus sign, a whole part without needless zeros, and digits in
every part that is written. -/
def IsJson (n : Numeral) : Prop :=
  n.sign? ≠ some .plus ∧ n.whole ≠ [] ∧ (n.whole.head? = some '0' → n.whole = ['0']) ∧
    n.fraction? ≠ some [] ∧ n.HasExponentDigits

instance (n : Numeral) : Decidable n.IsJson :=
  inferInstanceAs (Decidable (_ ∧ _ ∧ _ ∧ _ ∧ _))

/-- The grammar of float texts, which asks for a digit before or after the point. -/
def IsFloat (n : Numeral) : Prop :=
  (n.whole ≠ [] ∨ n.fraction?.getD [] ≠ []) ∧ n.HasExponentDigits

instance (n : Numeral) : Decidable n.IsFloat :=
  inferInstanceAs (Decidable (_ ∧ _))

def negative (n : Numeral) : Bool :=
  n.sign? = some .minus

/-- Whether neither a fraction nor an exponent is written. -/
def isInteger (n : Numeral) : Bool :=
  n.fraction?.isNone && n.exponent?.isNone

/-- The number that decimal digits denote. -/
def ofDigits (digits : List Char) : Nat :=
  Nat.ofDigitChars 10 digits 0

/-- The value of the written exponent, zero where none is written. -/
def exponent (n : Numeral) : Int :=
  match n.exponent? with
  | none => 0
  | some (sign?, digits) =>
    if sign? = some .minus then -(ofDigits digits : Int) else ofDigits digits

/-- The exact value. -/
def toDecimal (n : Numeral) : Decimal :=
  let fraction := n.fraction?.getD []
  ⟨n.negative, ofDigits (n.whole ++ fraction), n.exponent - fraction.length⟩

end Numeral

end InputCoercion
