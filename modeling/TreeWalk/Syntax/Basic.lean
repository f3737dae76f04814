/-!
# Syntax trees

The language has expressions and statements. A block (a function body, a branch of an `if`) and a
whole program are both lists of statements.

A tree is parameterised by the type `σ` of the mark that each function literal carries. A plain
tree (`σ = Unit`) has nothing but its shape. A tree that is evaluated carries an `Origin` at every
literal (`Syntax.Origin`), which is what tells two functions of equal text apart.
-/

namespace TreeWalk

/-! ## Operators -/

/-- The operators in front of one operand. -/
inductive PrefixOp where
  | not
  | negate
  deriving DecidableEq, Repr

/-- The operators between two operands. -/
inductive InfixOp where
  | add
  | sub
  | mul
  | div
  | lt
  | gt
  | eq
  | ne
  deriving DecidableEq, Repr

/-! ## Trees -/

mutual

/-- An expression. -/
inductive Expr (σ : Type) where
  | ident (name : String)
  /-- An integer literal, which may be negative. -/
  | int (n : Int64)
  | str (text : String)
  | bool (b : Bool)
  | prefixOp (op : PrefixOp) (operand : Expr σ)
  | infixOp (left : Expr σ) (op : InfixOp) (right : Expr σ)
  /-- A choice between two blocks. To have no alternative is not to have an empty one. -/
  | ifElse (condition : Expr σ) (consequence : List (Stmt σ)) (alternative : Option (List (Stmt σ)))
  /-- A function literal: its mark, its parameter names and its body. -/
  | fn (mark : σ) (params : List String) (body : List (Stmt σ))
  | call (callee : Expr σ) (args : List (Expr σ))
  | array (elements : List (Expr σ))
  | index (left : Expr σ) (position : Expr σ)

/-- A statement. -/
inductive Stmt (σ : Type) where
  /-- Binds a name in the scope in which the statement runs. -/
  | bind (name : String) (value : Expr σ)
  /-- Leaves the enclosing function or program with a value. -/
  | ret (value : Expr σ)
  /-- An expression, whose value is the value of the statement. -/
  | expr (e : Expr σ)

end

/-- The statements of a function body or of a branch. -/
abbrev Block (σ : Type) := List (Stmt σ)

/-- The statements at top level. -/
abbrev Program (σ : Type) := List (Stmt σ)

end TreeWalk
