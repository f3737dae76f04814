import TreeWalk.Scope.Heap.Basic
import TreeWalk.Syntax.Source
import TreeWalk.Text.Quoted

/-!
# Debug text

The text of a value, a closure or a scope for those who look into the program. Strings are quoted
and nothing is transparent, so the text of data tells it from all other data. A closure is shown
with the depth of its scope and not with the scope, which may lead back to the closure.
-/

namespace TreeWalk

/-- The debug text of a scope that binds the given names at the given depth. -/
def scopeDebug (names : List String) (depth : Nat) : String :=
  "Env \x7b bindings: " ++ quotedList names ++ ", depth: " ++ toString depth ++ " \x7d"

/-- The debug text of a scope: its own names and its depth. -/
def Heap.debug (h : Heap) (s : ScopeId) : String :=
  scopeDebug (h.names s) (h.depth s)

/-- The debug text of a closure. -/
def Closure.debug (h : Heap) (f : Closure) : String :=
  "Function \x7b parameters: " ++ quotedList f.params ++ ", body: " ++
    quoted (Block.source f.body) ++ ", scope_depth: " ++ toString (h.depth f.scope) ++ " \x7d"

/-- The debug text of a builtin. -/
def Builtin.debug (b : Builtin) : String :=
  "<builtin " ++ b.name ++ ">"

mutual

/-- The debug text of a value. -/
def Value.debug (h : Heap) : Value → String
  | .int n => "Integer(" ++ intText n ++ ")"
  | .bool b => "Boolean(" ++ boolText b ++ ")"
  | .null => "Null"
  | .str text => "Str(" ++ quoted text ++ ")"
  | .array items => "Array([" ++ commaSeparated (Value.debugList h items) ++ "])"
  | .fn f => "Function(" ++ f.debug h ++ ")"
  | .builtin b => "Builtin(" ++ b.debug ++ ")"
  | .ret v => "ReturnValue(" ++ v.debug h ++ ")"
  | .err message => "Error(" ++ quoted message ++ ")"

/-- The debug texts of the values of a list. -/
def Value.debugList (h : Heap) : List Value → List String
  | [] => []
  | v :: vs => v.debug h :: Value.debugList h vs

end

end TreeWalk
