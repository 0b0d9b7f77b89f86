/-!
Places in a source text. A span is a range of byte offsets. A position is a line and a column,
which a reader of the text can find.

A span does not tell in which file it lies. Nothing is computed from that, and whoever asks for a
position gives the text in which it is to be found.
-/

namespace InputCoercion

/-- A range of byte offsets into a source text. -/
structure Span where
  start : Nat
  stop : Nat
  start_le_stop : start ≤ stop
  stop_lt : stop < Nat.pow 2 32
  deriving DecidableEq

namespace Span

/-- The greatest offset that a span can have. Greater ones count as this one. -/
def maxOffset : Nat := Nat.pow 2 32 - 1

/-- The span between two offsets. It is empty if the second lies before the first. -/
def ofOffsets (start stop : Nat) : Span where
  start := min start maxOffset
  stop := min (max stop start) maxOffset
  start_le_stop := by omega
  stop_lt := by simp only [maxOffset, Nat.pow_eq]; omega

/-- The length in bytes. -/
def length (s : Span) : Nat :=
  s.stop - s.start

/-- The text of a span, such as `4..9`. -/
def text (s : Span) : String :=
  Nat.repr s.start ++ ".." ++ Nat.repr s.stop

end Span

/-- A value with the place where it was written, if it was read from a text. -/
structure Located (α : Type) where
  value : α
  span? : Option Span

namespace Located

/-- Places do not take part in the comparison of located values. -/
instance {α : Type} [BEq α] : BEq (Located α) := ⟨fun a b => a.value == b.value⟩

end Located

/-- A line and a column, both counted from one. Columns count characters. -/
structure Position where
  line : Nat
  column : Nat
  deriving DecidableEq, Repr

namespace Position

/-- The position of a byte offset, counted from a given position on. There is none past the end of
the text or inside a character. -/
def walk : Position → List Char → Nat → Option Position
  | p, _, 0 => some p
  | _, [], _ + 1 => none
  | p, c :: cs, offset + 1 =>
    if c.utf8Size ≤ offset + 1 then
      let next : Position := if c = '\n' then ⟨p.line + 1, 1⟩ else ⟨p.line, p.column + 1⟩
      next.walk cs (offset + 1 - c.utf8Size)
    else
      none

/-- The position of a byte offset in a source text. -/
def ofOffset? (source : String) (offset : Nat) : Option Position :=
  walk ⟨1, 1⟩ source.toList offset

end Position

end InputCoercion
