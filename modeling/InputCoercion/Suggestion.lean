import InputCoercion.Suggestion.Distance

/-!
Suggestions for misspelled names: the options near to what was written, the nearest first.
-/

namespace InputCoercion.Suggestion

/-- At most this many suggestions are written out. -/
def maxCount : Nat := 5

/-- The distance up to which an option is near: half the length of the longer text, at least one. -/
def limit (input option : String) : Nat :=
  max (max (input.length / 2) (option.length / 2)) 1

/-- The near options with their distances, in the given order. -/
def near (input : String) (options : List String) : List (Nat × String) :=
  options.filterMap fun option =>
    (Distance.within? (limit input option) input option).map (·, option)

/-- The near options, the nearest first. Of equally near ones the given order is kept. -/
def list (input : String) (options : List String) : List String :=
  ((near input options).mergeSort fun a b => a.1 ≤ b.1).map Prod.snd

/-- Quotes an option. -/
def quote (option : String) : String :=
  "\"" ++ option ++ "\""

/-- What follows the first of three or more texts. -/
def commaList : List String → String
  | [] => ""
  | [last] => ", or " ++ last
  | item :: items => ", " ++ item ++ commaList items

/-- The texts in a sentence, such as `A, B, or C`. -/
def alternatives : List String → String
  | [] => ""
  | [a] => a
  | [a, b] => a ++ " or " ++ b
  | a :: items => a ++ commaList items

/-- The first options in quotes, as alternatives. -/
def orList (options : List String) : String :=
  alternatives ((options.take maxCount).map quote)

/-- The question which of some options was meant, if there is any. -/
def question? (options : List String) : Option String :=
  if options = [] then none else some ("did you mean " ++ orList options ++ "?")

/-- The question which of the near options was meant. -/
def didYouMean? (input : String) (options : List String) : Option String :=
  question? (list input options)

end InputCoercion.Suggestion
