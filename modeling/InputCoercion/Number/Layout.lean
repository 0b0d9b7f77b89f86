import InputCoercion.Number.Shortest

/-!
Texts of binary64 numbers. A layout says how a tie between two shortest decimals is settled and
which numbers are written positionally; the others are written with an exponent.
-/

namespace InputCoercion

/-- The decisions of a number format. The exponent is that of the leading digit. -/
structure FloatLayout where
  tie : Tie
  positional : Int → Bool

/-- A decimal written out in full: the digits before the point and those behind it, at least one on
each side. -/
def splitAtPoint (digits : List Char) (exponent : Int) : List Char × List Char :=
  let point := digits.length + exponent
  if point ≤ 0 then
    (['0'], List.replicate (-point).toNat '0' ++ digits)
  else if digits.length ≤ point then
    (digits ++ List.replicate exponent.toNat '0', ['0'])
  else
    (digits.take point.toNat, digits.drop point.toNat)

/-- Both sides of the point have digits. -/
theorem splitAtPoint_digits {digits : List Char} (exponent : Int) (h : digits ≠ [])
    (hd : ∀ c ∈ digits, c.isDigit = true) :
    (∀ c ∈ (splitAtPoint digits exponent).1, c.isDigit = true) ∧
      (splitAtPoint digits exponent).1 ≠ [] ∧
      (∀ c ∈ (splitAtPoint digits exponent).2, c.isDigit = true) ∧
      (splitAtPoint digits exponent).2 ≠ [] := by
  have zero : ('0' : Char).isDigit = true := rfl
  simp only [splitAtPoint]
  split
  · refine ⟨by simp, by simp, ?_, by simp [h]⟩
    simp only [List.mem_append, List.mem_replicate]
    rintro c (⟨_, rfl⟩ | hc)
    · exact zero
    · exact hd c hc
  · split
    · refine ⟨?_, by simp [h], by simp, by simp⟩
      simp only [List.mem_append, List.mem_replicate]
      rintro c (hc | ⟨_, rfl⟩)
      · exact hd c hc
      · exact zero
    · refine ⟨fun c hc => hd c (List.mem_of_mem_take hc), ?_,
        fun c hc => hd c (List.mem_of_mem_drop hc), ?_⟩
      · simp only [ne_eq, List.take_eq_nil_iff, not_or]
        exact ⟨by omega, h⟩
      · simp only [ne_eq, List.drop_eq_nil_iff]
        omega

namespace FloatLayout

/-- Digits with a point where the exponent of the last digit puts it. -/
def positionalChars (digits : List Char) (exponent : Int) : List Char :=
  let (whole, fraction) := splitAtPoint digits exponent
  whole ++ '.' :: fraction

/-- Digits with a point behind the first, if there are more, and the exponent of the first. -/
def scientificChars (digits : List Char) (exponent : Int) : List Char :=
  let leading := digits.length - 1 + exponent
  let mantissa := match digits with
    | d :: e :: rest => d :: '.' :: e :: rest
    | short => short
  mantissa ++ 'e' :: (if leading < 0 then '-' else '+') :: Nat.toDigits 10 leading.natAbs

/-- The characters of a number without its sign. -/
def magnitudeChars (layout : FloatLayout) (x : Double) : List Char :=
  let (n, exponent) := x.shortest layout.tie
  let digits := Nat.toDigits 10 n
  if layout.positional (digits.length - 1 + exponent) then
    positionalChars digits exponent
  else
    scientificChars digits exponent

/-- The text of a number. -/
def write (layout : FloatLayout) (x : Double) : String :=
  String.ofList ((if x.negative then ['-'] else []) ++ layout.magnitudeChars x)

end FloatLayout

end InputCoercion
