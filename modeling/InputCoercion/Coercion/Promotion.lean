import InputCoercion.InputType
import InputCoercion.Json.Basic

/-!
Single values at list types. A value that is no list stands for a list that holds it alone, at any
number of list levels.
-/

namespace InputCoercion.InputType

/-- Coerces at the named type inside a type, and puts the result into the lists around it. -/
def promote {ε : Type} (atName : Name → Except ε Json) : InputType → Except ε Json
  | .named name _ => atName name
  | .list item _ => (fun value => .array [value]) <$> item.promote atName

@[simp] theorem promote_named {ε : Type} (atName : Name → Except ε Json) (name : Name)
    (nonNull : Bool) : (named name nonNull).promote atName = atName name := rfl

@[simp] theorem promote_list {ε : Type} (atName : Name → Except ε Json) (item : InputType)
    (nonNull : Bool) : (list item nonNull).promote atName =
      (fun value => Json.array [value]) <$> item.promote atName := rfl

end InputCoercion.InputType

namespace InputCoercion

/-- A mapped result is a value exactly if it is mapped from one. -/
theorem map_eq_ok_iff {ε α β : Type} {f : α → β} {result : Except ε α} {b : β} :
    f <$> result = .ok b ↔ ∃ a, result = .ok a ∧ f a = b := by
  cases result <;> simp [Functor.map, Except.map]

/-- A mapped result is a failure exactly if it is mapped from that failure. -/
theorem map_eq_error_iff {ε α β : Type} {f : α → β} {result : Except ε α} {e : ε} :
    f <$> result = .error e ↔ result = .error e := by
  cases result <;> simp [Functor.map, Except.map]

end InputCoercion
