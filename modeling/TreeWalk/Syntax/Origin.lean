import TreeWalk.Syntax.Basic

/-!
# Origins of function literals

Two evaluations of one literal make functions with the same parameter list and the same body. Two
literals never do, whatever their text. So a tree that is to be evaluated has an origin at each of
its literals: the labels of that parameter list and of that body.

Labels come from a counter. A literal whose labels are drawn from a counter that no earlier tree
has passed shares them with no other literal.
-/

namespace TreeWalk

/-- Where the parameter list and the body of a function come from. The two are labelled apart,
since a function may join a parameter list and a body that were made separately. -/
structure Origin where
  /-- The label of the parameter list. -/
  params : Nat
  /-- The label of the body. -/
  body : Nat
  deriving DecidableEq, Repr

/-- A tree under construction: it takes the next free label and gives back the one after its last.
-/
abbrev Labelling := StateM Nat

/-- A label that was not used before. -/
def freshLabel : Labelling Nat :=
  modifyGet fun n => (n, n + 1)

mutual

/-- Gives every function literal of the expression an origin of its own. -/
def Expr.label : Expr Unit → Labelling (Expr Origin)
  | .ident name => pure (.ident name)
  | .int n => pure (.int n)
  | .str text => pure (.str text)
  | .bool b => pure (.bool b)
  | .prefixOp op e => return .prefixOp op (← e.label)
  | .infixOp l op r => return .infixOp (← l.label) op (← r.label)
  | .ifElse c t none => return .ifElse (← c.label) (← Block.label t) none
  | .ifElse c t (some e) => return .ifElse (← c.label) (← Block.label t) (some (← Block.label e))
  | .fn _ params body => do
      let n ← freshLabel
      return .fn ⟨n, n⟩ params (← Block.label body)
  | .call f args => return .call (← f.label) (← Expr.labelList args)
  | .array es => return .array (← Expr.labelList es)
  | .index l i => return .index (← l.label) (← i.label)

/-- Gives every function literal of the statement an origin of its own. -/
def Stmt.label : Stmt Unit → Labelling (Stmt Origin)
  | .bind name e => return .bind name (← e.label)
  | .ret e => return .ret (← e.label)
  | .expr e => return .expr (← e.label)

/-- Gives every function literal of the expressions an origin of its own. -/
def Expr.labelList : List (Expr Unit) → Labelling (List (Expr Origin))
  | [] => pure []
  | e :: es => return (← e.label) :: (← Expr.labelList es)

/-- Gives every function literal of the block an origin of its own. -/
def Block.label : Block Unit → Labelling (Block Origin)
  | [] => pure []
  | s :: ss => return (← s.label) :: (← Block.label ss)

end

end TreeWalk
