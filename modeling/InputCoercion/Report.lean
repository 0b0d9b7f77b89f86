/-!
Reports: several messages as one text, one after the other.
-/

namespace InputCoercion

/-- The text of a report, in which every message starts on a line of its own. -/
def report (messages : List String) : String :=
  "\n".intercalate (messages.map ("Error: " ++ ·))

end InputCoercion
