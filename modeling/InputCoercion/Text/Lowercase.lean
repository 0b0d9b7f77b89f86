import InputCoercion.Text.CaseTables

/-!
Lower case. A letter has one lower-case form wherever it stands, but for two: the dotted capital I
becomes two characters, and a capital sigma becomes the final form at the end of a word.
-/

namespace InputCoercion.Text

/-- The lower-case form of a character by itself. -/
def lowerChar (c : Char) : Char :=
  if c.toNat < 0x80 then c.toLower
  else ((lowerRanges.findSome? (·.map? c.toNat)).map Char.ofNat).getD c

/-- Whether the next character that is not overlooked is a letter. -/
def startsWithLetter (cs : List Char) : Bool :=
  match cs.dropWhile (inRanges ignorableRanges) with
  | [] => false
  | c :: _ => inRanges casedRanges c

/-- The lower-case form of a character between others. Those before it are in reverse. -/
def lowerBetween (before : List Char) (c : Char) (after : List Char) : List Char :=
  if c = 'Σ' then
    if startsWithLetter before && !startsWithLetter after then ['ς'] else ['σ']
  else if c = 'İ' then
    ['i', '\u0307']
  else
    [lowerChar c]

/-- The lower-case form of the rest of a text, given what stands before it in reverse. -/
def lowerFrom (before : List Char) : List Char → List Char
  | [] => []
  | c :: cs => lowerBetween before c cs ++ lowerFrom (c :: before) cs

/-- The lower-case form of a text. -/
def lower (cs : List Char) : List Char :=
  lowerFrom [] cs

end InputCoercion.Text
