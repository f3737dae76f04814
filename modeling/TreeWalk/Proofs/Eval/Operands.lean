import TreeWalk.Proofs.Eval.Equations
import TreeWalk.Proofs.Syntax.Operands

/-!
# Evaluation by operands

An expression evaluates its operands as one list and then does something of its own. So there is
one place where a sentinel among the operands is passed on, whatever the expression.

Results:
1. `evalExpr_eq`: the operands come first.
2. `andThen_eq_some`, `withOperands_eq_some`: what a result of the whole says about the parts.
-/

namespace TreeWalk

open Run

namespace Run

/-- Goes on with the values of operands. A sentinel among them is the result. -/
def withOperands (x : Run (Except Value (List Value))) (k : List Value → Run Value) :
    Run Value := do
  match ← x with
  | .ok values => k values
  | .error sentinel => return sentinel

theorem withOperands_eq_some {x : Run (Except Value (List Value))} {k : List Value → Run Value}
    {w w' : World} {v : Value} :
    (withOperands x k).run w = some (v, w') ↔
      x.run w = some (.error v, w') ∨
        ∃ values u, x.run w = some (.ok values, u) ∧ (k values).run u = some (v, w') := by
  rw [withOperands, bind_eq_some]
  constructor
  · rintro ⟨r, u, first, next⟩
    cases r with
    | ok values => exact .inr ⟨values, u, first, next⟩
    | error sentinel =>
      cases next
      exact .inl first
  · rintro (first | ⟨values, u, first, next⟩)
    · exact ⟨.error v, w', first, rfl⟩
    · exact ⟨.ok values, u, first, next⟩

theorem andThen_eq_some {x : Run Value} {f : Value → Run Value} {w w' : World} {v : Value} :
    (andThen x f).run w = some (v, w') ↔
      (v.isSentinel = true ∧ x.run w = some (v, w')) ∨
        ∃ a u, a.isSentinel = false ∧ x.run w = some (a, u) ∧ (f a).run u = some (v, w') := by
  rw [run_andThen, Option.bind_eq_some_iff]
  constructor
  · rintro ⟨⟨a, u⟩, first, next⟩
    dsimp only at next
    split at next
    · next sentinel =>
      cases next
      exact .inl ⟨sentinel, first⟩
    · next notSentinel => exact .inr ⟨a, u, by simpa using notSentinel, first, next⟩
  · rintro (⟨sentinel, first⟩ | ⟨a, u, notSentinel, first, next⟩)
    · exact ⟨(v, w'), first, by rw [if_pos sentinel]⟩
    · exact ⟨(a, u), first, by rw [notSentinel]; exact next⟩

end Run

section Walk

variable (host : Host) (me : InterpreterId) (call : Closure → List Value → Run Value) (s : ScopeId)

/-- The part of an `if` after its condition. -/
def evalBranch (t : Block Origin) (e : Option (Block Origin)) (v : Value) : Run Value :=
  if v.isTruthy then evalBlock host me call s .null t
  else
    match e with
    | none => pure .null
    | some e => evalBlock host me call s .null e

/-- What an expression does with the values of its operands. -/
def finish : Expr Origin → List Value → Run Value
  | .ident name, _ => evalName me s name
  | .int n, _ => pure (.int n)
  | .str text, _ => pure (.str text)
  | .bool b, _ => pure (.bool b)
  | .fn origin params body, _ => pure (.fn ⟨origin, params, body, s⟩)
  | .prefixOp op _, [v] => orRaise me (op.apply v)
  | .infixOp _ op _, [a, b] => orRaise me (op.apply a b)
  | .ifElse _ t e, [v] => evalBranch host me call s t e v
  | .call _ _, callee :: values => evalCall host me call callee values
  | .array _, values => pure (.array values)
  | .index _ _, [a, b] => orRaise me (a.at b)
  | _, _ => failure

theorem withOperands_nil (k : List Value → Run Value) :
    withOperands (evalExprs host me call s []) k = k [] := rfl

/-- The first operand comes before the others. -/
theorem withOperands_cons (e : Expr Origin) (es : List (Expr Origin))
    (k : List Value → Run Value) :
    withOperands (evalExprs host me call s (e :: es)) k =
      andThen (evalExpr host me call s e) fun v =>
        withOperands (evalExprs host me call s es) fun values => k (v :: values) := by
  simp only [withOperands, andThen, evalExprs, bind_assoc]
  congr
  funext v
  split
  · rw [pure_bind]
  · rw [bind_assoc]
    congr
    funext r
    cases r with
    | ok values => rw [pure_bind]
    | error sentinel => rw [pure_bind]

/-- An expression is what it does with the values of its operands. -/
theorem evalExpr_eq (e : Expr Origin) :
    evalExpr host me call s e =
      withOperands (evalExprs host me call s e.operands) (finish host me call s e) := by
  cases e with
  | ident name | int n | str text | bool b | fn origin params body => rfl
  | prefixOp op e =>
    rw [Expr.operands, withOperands_cons]
    rfl
  | infixOp l op r =>
    simp only [Expr.operands, withOperands_cons, withOperands_nil]
    rfl
  | ifElse c t e =>
    rw [Expr.operands, withOperands_cons]
    cases e <;> rfl
  | call f args =>
    rw [Expr.operands, withOperands_cons]
    rfl
  | array es => rfl
  | index l i =>
    simp only [Expr.operands, withOperands_cons, withOperands_nil]
    rfl

end Walk

end TreeWalk
