/-!
Tables of characters as ranges of code points.
-/

namespace InputCoercion.Text

/-- Every `stride`-th character from `first` to `last` is mapped to the one `shift` places on. -/
structure CaseRange where
  first : Nat
  last : Nat
  stride : Nat
  shift : Int

/-- The code point to which a range maps one, if that is in it. -/
def CaseRange.map? (r : CaseRange) (code : Nat) : Option Nat :=
  if r.first ≤ code ∧ code ≤ r.last ∧ (code - r.first) % r.stride = 0 then
    some (code + r.shift).toNat
  else
    none

/-- Whether a character is in one of the ranges, each given by its first and its last. -/
def inRanges (ranges : List (Nat × Nat)) (c : Char) : Bool :=
  ranges.any fun (first, last) => first ≤ c.toNat && c.toNat ≤ last

end InputCoercion.Text
