/-!
# Texts of literals and lists

The spellings that source text, rendered values and debug text have in common.
-/

namespace TreeWalk

/-- The boolean as it is written. -/
def boolText (b : Bool) : String :=
  if b then "true" else "false"

/-- The integer in decimal, with a minus sign when it is negative. -/
def intText (n : Int64) : String :=
  toString n.toInt

/-- The texts in order, with a comma and a space between neighbours. -/
def commaSeparated (texts : List String) : String :=
  ", ".intercalate texts

end TreeWalk
