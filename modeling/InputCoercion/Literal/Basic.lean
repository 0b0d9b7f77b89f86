import InputCoercion.Keyed
import InputCoercion.Literal.Numeral
import InputCoercion.Name

/-!
Literals of a document: the values that are written as arguments and defaults. Numbers keep the way
in which they are written, and the fields of an object literal keep their order and may repeat a
name, so two literals are equal exactly if they are written alike.
-/

namespace InputCoercion

/-- A literal. -/
inductive Literal where
  | null
  | enum (value : Name)
  | var (name : Name)
  | string (value : String)
  | float (numeral : FloatNumeral)
  | int (numeral : IntNumeral)
  | boolean (value : Bool)
  | list (items : List Literal)
  | object (fields : List (Name × Literal))

namespace Literal

/-- The literal of an integer. -/
def ofInt (value : Int) : Literal :=
  .int (.ofInt value)

/-- The literal of a float. -/
def ofFloat (value : FloatReading) : Literal :=
  .float (.ofReading value)

def isNull : Literal → Bool
  | null => true
  | _ => false

def string? : Literal → Option String
  | string value => some value
  | _ => none

def boolean? : Literal → Option Bool
  | boolean value => some value
  | _ => none

/-- The value of an integer literal that fits 32 bits. -/
def toInt32? : Literal → Option Int
  | int numeral => (numeral.toSigned 32).toOption
  | _ => none

/-- The value of a number literal that has a finite float near it. -/
def toDouble? : Literal → Option Double
  | int numeral => numeral.toDouble.toOption
  | float numeral => numeral.toDouble.toOption
  | _ => none

/-- The last of the fields of an object literal that have a given name. -/
def lastField? (name : String) (fields : List (Name × Literal)) : Option Literal :=
  (Keyed.find? (fun f => f.1.text) name fields.reverse).map Prod.snd

/-! ### Equality -/

mutual

/-- Whether two literals are written alike. -/
def beq : Literal → Literal → Bool
  | null, null => true
  | enum a, enum b => a == b
  | var a, var b => a == b
  | string a, string b => a == b
  | float a, float b => a == b
  | int a, int b => a == b
  | boolean a, boolean b => a == b
  | list as, list bs => beqItems as bs
  | object as, object bs => beqFields as bs
  | _, _ => false

def beqItems : List Literal → List Literal → Bool
  | [], [] => true
  | a :: as, b :: bs => beq a b && beqItems as bs
  | _, _ => false

def beqFields : List (Name × Literal) → List (Name × Literal) → Bool
  | [], [] => true
  | (m, a) :: as, (n, b) :: bs => m == n && beq a b && beqFields as bs
  | _, _ => false

end

mutual

theorem beq_iff (a b : Literal) : beq a b = true ↔ a = b := by
  cases a <;> cases b <;> simp [beq, beqItems_iff, beqFields_iff]

theorem beqItems_iff (as bs : List Literal) : beqItems as bs = true ↔ as = bs := by
  match as, bs with
  | [], [] => simp [beqItems]
  | [], _ :: _ => simp [beqItems]
  | _ :: _, [] => simp [beqItems]
  | a :: as, b :: bs => simp [beqItems, beq_iff a b, beqItems_iff as bs]

theorem beqFields_iff (as bs : List (Name × Literal)) : beqFields as bs = true ↔ as = bs := by
  match as, bs with
  | [], [] => simp [beqFields]
  | [], _ :: _ => simp [beqFields]
  | _ :: _, [] => simp [beqFields]
  | (m, a) :: as, (n, b) :: bs => simp [beqFields, beq_iff a b, beqFields_iff as bs, and_assoc]

end

instance : DecidableEq Literal := fun a b => decidable_of_iff _ (beq_iff a b)

end Literal

end InputCoercion
