import TreeWalk.Syntax.Equality
import TreeWalk.Syntax.Origin
import TreeWalk.Text.Utf8

/-!
# Callables

What can be called: closures made by function literals, the standard builtins, and builtins that
the host adds.

A callable is identified and not compared by what it does. A closure is the parameter list, the
body and the scope it was made with, the first two by their origin; a builtin is the interpreter
that owns it, or the identifier that the host gave it.
-/

namespace TreeWalk

/-! ## Identifiers -/

/-- A scope of the heap, by the order in which scopes were made. -/
structure ScopeId where
  index : Nat
  deriving DecidableEq, Repr

/-- An interpreter, by the order in which interpreters were made. -/
structure InterpreterId where
  index : Nat
  deriving DecidableEq, Repr

/-- A builtin of the host. -/
structure HostId where
  index : Nat
  deriving DecidableEq, Repr

/-! ## Closures -/

/-- A user function together with the scope in which its literal was evaluated. Its contents go
with its origin: two closures of one origin have the same parameters and the same body. -/
structure Closure where
  /-- Which parameter list and which body these are. -/
  origin : Origin
  /-- The parameter names, in order and possibly repeated. -/
  params : List String
  /-- The statements that a call runs. -/
  body : Block Origin
  /-- The scope that encloses the scope of every call. -/
  scope : ScopeId
  deriving DecidableEq

/-- How many arguments a call takes. -/
def Closure.arity (f : Closure) : Nat :=
  f.params.length

/-! ## Builtins -/

/-- The builtins that every interpreter has. -/
inductive Standard where
  /-- The length of a string in characters, or of an array. -/
  | len
  | first
  | last
  /-- An array without its first element. -/
  | rest
  /-- An array with one element more at its end. -/
  | push
  /-- Writes its arguments to the sink of the interpreter. -/
  | puts
  deriving DecidableEq, Repr

/-- The standard builtins in the order of the table. -/
def Standard.all : List Standard :=
  [.len, .first, .last, .rest, .push, .puts]

/-- The name under which a standard builtin is found. -/
def Standard.name : Standard → String
  | .len => "len"
  | .first => "first"
  | .last => "last"
  | .rest => "rest"
  | .push => "push"
  | .puts => "puts"

/-- The standard builtin of a name. -/
def Standard.named? (name : String) : Option Standard :=
  Standard.all.find? fun op => op.name = name

/-- The names of the standard builtins in alphabetical order. -/
def Standard.names : List String :=
  sortedBy id (Standard.all.map Standard.name)

/-- A function that is not written in the language. -/
inductive Builtin where
  /-- A standard builtin of one interpreter. -/
  | standard (owner : InterpreterId) (op : Standard)
  /-- A builtin of the host, under the name it was made with. -/
  | host (id : HostId) (name : String)
  deriving DecidableEq, Repr

/-- The name a builtin was made with. -/
def Builtin.name : Builtin → String
  | .standard _ op => op.name
  | .host _ name => name

/-- Every standard builtin is found under its name. -/
theorem Standard.named?_name (op : Standard) : Standard.named? op.name = some op := by
  cases op <;> rfl

end TreeWalk
