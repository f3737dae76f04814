import TreeWalk.Syntax.Basic

/-!
# Operands

The parts of an expression that are always evaluated, from left to right, before the expression
does anything of its own. The branches of an `if` and the body of a function literal are none.
-/

namespace TreeWalk

variable {σ : Type}

/-- The operands of an expression, in the order of their evaluation. -/
def Expr.operands : Expr σ → List (Expr σ)
  | .prefixOp _ e => [e]
  | .infixOp l _ r => [l, r]
  | .ifElse c _ _ => [c]
  | .call f args => f :: args
  | .array es => es
  | .index l i => [l, i]
  | _ => []

end TreeWalk
