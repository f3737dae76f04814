import TreeWalk.Value.Callable

/-!
# Values

What expressions evaluate to. Two kinds of value are not data but say how evaluation goes on: a
`ret` carries the value of a `return` on its way to the end of the function, and an `err` carries
the message of a fault on its way to the end of the program. They are called sentinels.
-/

namespace TreeWalk

/-! ## Kinds -/

inductive Kind where
  | integer
  | boolean
  | null
  | string
  | array
  | function
  | builtin
  | returnValue
  | error
  deriving DecidableEq, Repr

/-- The kinds in the order in which they are listed. -/
def Kind.all : List Kind :=
  [.integer, .boolean, .null, .string, .array, .function, .builtin, .returnValue, .error]

/-- The name of a kind in messages. -/
def Kind.name : Kind → String
  | .integer => "INTEGER"
  | .boolean => "BOOLEAN"
  | .null => "NULL"
  | .string => "STRING"
  | .array => "ARRAY"
  | .function => "FUNCTION"
  | .builtin => "BUILTIN"
  | .returnValue => "RETURN_VALUE"
  | .error => "ERROR"

/-- The kind of a name. -/
def Kind.named? (name : String) : Option Kind :=
  Kind.all.find? fun k => k.name = name

/-- Every kind is found under its name, so different kinds have different names. -/
theorem Kind.named?_name (k : Kind) : Kind.named? k.name = some k := by
  cases k <;> rfl

/-! ## Values -/

inductive Value where
  /-- A 64-bit signed integer. -/
  | int (n : Int64)
  | bool (b : Bool)
  /-- The absence of a value. -/
  | null
  | str (text : String)
  | array (items : List Value)
  | fn (f : Closure)
  | builtin (b : Builtin)
  /-- The value of a `return` that has not yet reached the end of its function. -/
  | ret (value : Value)
  /-- The message of a fault. -/
  | err (message : String)

namespace Value

def kind : Value → Kind
  | int _ => .integer
  | bool _ => .boolean
  | null => .null
  | str _ => .string
  | array _ => .array
  | fn _ => .function
  | builtin _ => .builtin
  | ret _ => .returnValue
  | err _ => .error

/-- The null value and `false` are falsy, and everything else is truthy. -/
def isTruthy : Value → Bool
  | null => false
  | bool b => b
  | _ => true

/-- Whether a value is the message of a fault. -/
def isError : Value → Bool
  | err _ => true
  | _ => false

/-- Whether a value ends the evaluation of what surrounds it. -/
def isSentinel : Value → Bool
  | ret _ => true
  | err _ => true
  | _ => false

/-- The end of a function or of a program: a `return` has arrived, and gives its value. -/
def unwrapReturn : Value → Value
  | ret v => v
  | v => v

end Value

end TreeWalk
