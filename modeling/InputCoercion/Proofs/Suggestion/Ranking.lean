import InputCoercion.Proofs.Suggestion.Distance
import InputCoercion.Suggestion
import Mathlib.Data.List.Basic

/-!
Suggestions are the near options, the nearest first. Which options are near depends on each of them
alone, so the list of suggestions is the given list with the others left out, in the order of a
stable sort by distance. Everything about membership, repeats and ties is read off from this.
-/

namespace InputCoercion

namespace Distance

/-- The distance of two spellings. -/
noncomputable def distance (a b : String) : ℕ :=
  (exists_isDistance a b).choose

theorem isDistance_distance (a b : String) : IsDistance a b (distance a b) :=
  (exists_isDistance a b).choose_spec

theorem within?_eq (limit : ℕ) (a b : String) :
    within? limit a b = if distance a b ≤ limit then some (distance a b) else none :=
  within?_eq_of_isDistance (isDistance_distance a b)

end Distance

/-! ### Stable sorting -/

section StableSort

variable {α : Type} (key : α → ℕ)

end StableSort

namespace Suggestion

/-! ### The list of suggestions -/

/-- Whether an option is near enough to be suggested. -/
noncomputable def isNear (input option : String) : Bool :=
  Distance.distance input option ≤ limit input option

theorem near_eq (input : String) (options : List String) :
    near input options =
      (options.filter (isNear input)).map fun option =>
        (Distance.distance input option, option) := by
  induction options with
  | nil => rfl
  | cons option options ih =>
    rw [near] at ih ⊢
    rw [List.filterMap_cons, ih, Distance.within?_eq, List.filter_cons, isNear]
    by_cases hnear : Distance.distance input option ≤ limit input option
    · simp [hnear]
    · simp [hnear]

/-- The suggestions are the near options in the order of a stable sort by distance. -/
theorem list_eq (input : String) (options : List String) :
    list input options =
      (options.filter (isNear input)).mergeSort fun a b =>
        Distance.distance input a ≤ Distance.distance input b := by
  have hpairs (a b : String) :
      (Distance.distance input a ≤ Distance.distance input b : Bool) =
        ((Distance.distance input a, a).1 ≤ (Distance.distance input b, b).1 : Bool) := rfl
  rw [list, near_eq, ← List.map_mergeSort fun a _ b _ => hpairs a b, List.map_map]
  exact List.map_id _

end Suggestion

end InputCoercion
