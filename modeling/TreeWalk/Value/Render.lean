import TreeWalk.Syntax.Source
import TreeWalk.Value.Basic

/-!
# Rendering

The text of a value as it is shown to the user. Strings are shown verbatim and a value on its way
out of a function is shown as itself, so the text does not always determine the value.

There are two styles, which differ in the bracket that closes the parameter list of a function.
-/

namespace TreeWalk

/-- How functions are shown. -/
inductive RenderStyle where
  /-- The parameter list ends with a round bracket. -/
  | canonical
  /-- The parameter list ends with a curly bracket, as it once did. -/
  | legacy
  deriving DecidableEq, Repr

/-- The bracket that closes a parameter list. -/
def RenderStyle.closing : RenderStyle → String
  | .canonical => ")"
  | .legacy => "\x7d"

/-- The text of a function. -/
def Closure.render (style : RenderStyle) (f : Closure) : String :=
  "fn(" ++ commaSeparated f.params ++ style.closing ++ " \x7b\n" ++ Block.source f.body ++ "\n\x7d"

mutual

/-- The text of a value. -/
def Value.render (style : RenderStyle) : Value → String
  | .int n => intText n
  | .bool b => boolText b
  | .null => "null"
  | .str text => text
  | .array items => "[" ++ commaSeparated (Value.renderList style items) ++ "]"
  | .fn f => f.render style
  | .builtin _ => "builtin function"
  | .ret v => v.render style
  | .err message => "ERROR: " ++ message

/-- The texts of the values of a list. -/
def Value.renderList (style : RenderStyle) : List Value → List String
  | [] => []
  | v :: vs => v.render style :: Value.renderList style vs

end

end TreeWalk
