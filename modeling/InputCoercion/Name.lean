/-!
GraphQL names: a letter or an underscore, followed by letters, digits and underscores, all ASCII.
The check walks over the UTF-8 bytes of a text. It needs no decoding, because every byte of a
character outside ASCII lies above the bytes that it accepts.
-/

namespace InputCoercion

/-- The bytes of a text in UTF-8. -/
def utf8Bytes (s : String) : List UInt8 :=
  s.toByteArray.data.toList

namespace Name

/-- The letters and the underscore. -/
def isStartByte (b : UInt8) : Bool :=
  (0x41 ≤ b && b ≤ 0x5A) || (0x61 ≤ b && b ≤ 0x7A) || b == 0x5F

/-- The letters, the digits and the underscore. -/
def isContinueByte (b : UInt8) : Bool :=
  isStartByte b || (0x30 ≤ b && b ≤ 0x39)

/-- Whether a text is a name. -/
def isValid (s : String) : Bool :=
  match utf8Bytes s with
  | [] => false
  | b :: bs => isStartByte b && bs.all isContinueByte

end Name

/-- The name of a type, field, enum value or variable. -/
structure Name where
  text : String
  valid : Name.isValid text = true
  deriving DecidableEq

/-- A text that was given as a name and is none. -/
structure InvalidName where
  text : String
  deriving DecidableEq, Repr

def InvalidName.message (e : InvalidName) : String :=
  "`" ++ e.text ++ "` is not a valid GraphQL name"

namespace Name

/-- Reads a name from a text. -/
def ofString (s : String) : Except InvalidName Name :=
  if h : isValid s = true then .ok ⟨s, h⟩ else .error ⟨s⟩

/-- Names are ordered byte by byte. -/
protected def compare (a b : Name) : Ordering :=
  compare (utf8Bytes a.text) (utf8Bytes b.text)

instance : Ord Name := ⟨Name.compare⟩

instance : ToString Name := ⟨Name.text⟩

theorem ext {a b : Name} (h : a.text = b.text) : a = b := by
  cases a; cases b; simp_all

theorem text_inj {a b : Name} : a.text = b.text ↔ a = b :=
  ⟨ext, congrArg text⟩

/-- A name has at least one character. -/
theorem text_ne_empty (n : Name) : n.text ≠ "" := by
  intro h
  have hvalid := n.valid
  rw [h] at hvalid
  exact absurd hvalid (by decide)

/-- Reading gives back the text that was read. -/
theorem text_of_ofString {s : String} {n : Name} (h : ofString s = .ok n) : n.text = s := by
  simp only [ofString] at h
  split at h
  · cases h; rfl
  · cases h

@[simp] theorem ofString_text (n : Name) : ofString n.text = .ok n := by
  simp [ofString, n.valid]

end Name

end InputCoercion
