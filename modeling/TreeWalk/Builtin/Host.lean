import TreeWalk.Value.Basic

/-!
# Builtins of the host

A host may add functions of its own. Whatever they do, they see nothing but their arguments, and
they report failure by an error value. A few of them are ready for use.
-/

namespace TreeWalk

/-- What the builtins of a host do. -/
abbrev Host := HostId → List Value → Value

/-- A host without builtins. Whatever it is asked for gives null. -/
def Host.empty : Host :=
  fun _ _ => .null

/-- Ready-made builtins. -/
inductive Stock where
  /-- The number of arguments. -/
  | count
  /-- Twice the one integer that it takes. -/
  | strict
  /-- The first argument, or null. -/
  | id
  /-- An array of the arguments. -/
  | list
  /-- A `return` of the first argument, or of null. -/
  | ret
  /-- The name of the kind of the first argument, or null. -/
  | kind
  deriving DecidableEq, Repr

namespace Stock

/-- The ready-made builtins. -/
def all : List Stock :=
  [count, strict, id, list, ret, kind]

/-- The name of a ready-made builtin. -/
def name : Stock → String
  | count => "count"
  | strict => "strict"
  | id => "id"
  | list => "list"
  | ret => "return"
  | kind => "kind"

/-- The ready-made builtin of a name. -/
def named? (text : String) : Option Stock :=
  all.find? fun b => b.name = text

/-- What a ready-made builtin does. -/
def run : Stock → List Value → Value
  | count, args => .int (Int64.ofNat args.length)
  | strict, [.int n] => .int (n * 2)
  | strict, _ => .err "strict expects one INTEGER"
  | id, args => args.head?.getD .null
  | list, args => .array args
  | ret, args => .ret (args.head?.getD .null)
  | kind, v :: _ => .str v.kind.name
  | kind, [] => .null

end Stock

/-- A host of ready-made builtins, in the order in which they were added. -/
def Host.ofStock (added : Array Stock) : Host := fun i args =>
  match added[i.index]? with
  | some b => b.run args
  | none => .null

end TreeWalk
