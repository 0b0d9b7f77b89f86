import InputCoercion.Text.Lowercase

/-!
The distance between two spellings: how many characters have to be inserted, deleted, replaced or
swapped with their neighbour to turn one into the other, in lower case. No character takes part in
two of these edits. Two spellings that differ in case alone have distance one.

The distances between all beginnings of the two texts form a matrix. Its rows are computed from the
two rows above, and the computation ends as soon as a row exceeds the limit.
-/

namespace InputCoercion.Distance

/-- The entries of a row from some column on. The row is that of the character `c`, which stands
behind `previous`, and the columns are those of the given characters, the first of which stands
behind `before`. Of the two rows above, the lower is given from the column before the first on, and
the upper from two columns before, as far as there are such columns; `left` is the entry of the
column before in this row. -/
def nextEntries (previous : Option Char) (c : Char) :
    Option Char → List Char → List Nat → List Nat → Nat → List Nat
  | before, d :: ds, upper, diagonal :: above :: row, left =>
    let cost := if c = d then 0 else 1
    let entry := min (min (above + 1) (left + 1)) (diagonal + cost)
    match before, upper with
    | some b, swapped :: upper =>
      let entry := if b = c ∧ previous = some d then min entry (swapped + cost) else entry
      entry :: nextEntries previous c (some d) ds upper (above :: row) entry
    | _, upper =>
      entry :: nextEntries previous c (some d) ds upper (above :: row) entry
  | _, _, _, _, _ => []

/-- The row of a character below two rows. The first entry counts the characters so far. -/
def nextRow (previous : Option Char) (c : Char) (ds : List Char) (upper row : List Nat)
    (count : Nat) : List Nat :=
  count :: nextEntries previous c none ds upper row count

/-- The least entry of a row. -/
def rowMin (row : List Nat) : Nat :=
  row.foldl min (row.headD 0)

/-- The last entry of the matrix, given two of its rows and the characters of the rows below them.
There is none if the entry exceeds the limit, or if all entries of a row do. -/
def lastEntry? (limit : Nat) (ds : List Char) :
    Option Char → List Char → List Nat → List Nat → Nat → Option Nat
  | _, [], _, row, _ =>
    let distance := row.getLastD 0
    if distance ≤ limit then some distance else none
  | previous, c :: cs, upper, row, count =>
    let next := nextRow previous c ds upper row (count + 1)
    if limit < rowMin next then none
    else lastEntry? limit ds (some c) cs row next (count + 1)

/-- The distance of two texts by the matrix, if it does not exceed the limit. It is never less than
the difference of the lengths. -/
def alignment? (limit : Nat) (cs ds : List Char) : Option Nat :=
  if limit < max cs.length ds.length - min cs.length ds.length then none
  else lastEntry? limit ds none cs [] (List.range (ds.length + 1)) 0

/-- The distance of two spellings, if it does not exceed the limit. -/
def within? (limit : Nat) (a b : String) : Option Nat :=
  if a = b then some 0
  else
    let cs := Text.lower a.toList
    let ds := Text.lower b.toList
    if cs = ds then (if 1 ≤ limit then some 1 else none)
    else alignment? limit cs ds

end InputCoercion.Distance
