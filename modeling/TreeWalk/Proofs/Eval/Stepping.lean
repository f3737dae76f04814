import TreeWalk.Proofs.Eval.Operands

/-!
# Evaluation step by step

What an evaluation comes to when the results of its first steps are known: the rest of it, from the
state in which the steps have ended. With these laws a given program is followed through the
evaluator. They hold whatever the calls of functions do, and say nothing of them.

Results:
1. `run_ident`, `run_standardName`: names.
2. `run_infixOp`, `run_index`, `run_ifElse`, `run_evalBlock_bind`: operators, branches and bindings.
3. `run_call`, `run_operand`: a call and its operands.
4. `run_applyValue_fn`, `run_applyStandard`: what is called.
-/

namespace TreeWalk

open Run

/-- The state after a call of a standard builtin of the interpreter itself. -/
def World.called (w : World) (me : InterpreterId) (op : Standard) (args : List Value) : World :=
  (w.calling me (.standard me op) args.length).computed me op args

@[simp] theorem World.heap_called (w : World) (me : InterpreterId) (op : Standard)
    (args : List Value) : (w.called me op args).heap = w.heap :=
  World.heap_computed _ me op args

namespace Run

/-- What goes on from a value that is known and no sentinel. -/
theorem run_andThen_of {x : Run Value} {f : Value → Run Value} {w u : World} {v : Value}
    (first : x.run w = some (v, u)) (notSentinel : v.isSentinel = false) :
    (andThen x f).run w = (f v).run u := by
  rw [run_andThen, first, Option.bind_some, notSentinel]
  rfl

/-- What goes on from runs that come to the same comes to the same. -/
theorem run_andThen_congr {x y : Run Value} {w u : World} (same : x.run w = y.run u)
    (f : Value → Run Value) : (andThen x f).run w = (andThen y f).run u := by
  rw [run_andThen, run_andThen, same]

/-- To go on with a value and do nothing is no more than to come to it. -/
theorem andThen_pure_right (x : Run Value) : andThen x Pure.pure = x := by
  rw [andThen]
  simp only [ite_self, bind_pure]

end Run

section Steps

variable {host : Host} {me : InterpreterId} {call : Closure → List Value → Run Value}
variable {s : ScopeId} {w u u' : World} {v : Value}

/-! ## Names -/

theorem run_ident {name : String} (found : w.heap.resolve s name = some v) :
    (evalExpr host me call s (.ident name)).run w = some (v, w) := by
  rw [evalExpr, run_evalName, found]

theorem run_standardName {name : String} {op : Standard} (unbound : w.heap.resolve s name = none)
    (named : Standard.named? name = some op) :
    (evalExpr host me call s (.ident name)).run w = some (.builtin (.standard me op), w) := by
  rw [evalExpr, run_evalName, unbound, named]

/-! ## Operators, branches and bindings -/

theorem run_prefixOp {e : Expr Origin} {op : PrefixOp} {a : Value}
    (operand : (evalExpr host me call s e).run w = some (a, u)) (data : a.isSentinel = false)
    (value : op.apply a = .ok v) :
    (evalExpr host me call s (.prefixOp op e)).run w = some (v, u) := by
  rw [evalExpr, run_andThen_of operand data, value]
  rfl

theorem run_infixOp {l r : Expr Origin} {op : InfixOp} {a b : Value}
    (left : (evalExpr host me call s l).run w = some (a, u)) (leftData : a.isSentinel = false)
    (right : (evalExpr host me call s r).run u = some (b, u')) (rightData : b.isSentinel = false)
    (value : op.apply a b = .ok v) :
    (evalExpr host me call s (.infixOp l op r)).run w = some (v, u') := by
  rw [evalExpr, run_andThen_of left leftData, run_andThen_of right rightData, value]
  rfl

theorem run_index {l i : Expr Origin} {a b : Value}
    (left : (evalExpr host me call s l).run w = some (a, u)) (leftData : a.isSentinel = false)
    (position : (evalExpr host me call s i).run u = some (b, u')) (data : b.isSentinel = false)
    (value : a.at b = .ok v) :
    (evalExpr host me call s (.index l i)).run w = some (v, u') := by
  rw [evalExpr, run_andThen_of left leftData, run_andThen_of position data, value]
  rfl

/-- A condition that comes to a boolean chooses the branch. -/
theorem run_ifElse {c : Expr Origin} {t e : Block Origin} {b : Bool}
    (condition : (evalExpr host me call s c).run w = some (.bool b, u)) :
    (evalExpr host me call s (.ifElse c t (some e))).run w =
      (evalBlock host me call s .null (bif b then t else e)).run u := by
  rw [evalExpr, run_andThen_of condition rfl]
  cases b with
  | true => rfl
  | false => rfl

/-- A `let` binds a name to what is known, and the rest of the block comes next. -/
theorem run_evalBlock_bind {name : String} {e : Expr Origin} {before : Value}
    {rest : Block Origin} (value : (evalExpr host me call s e).run w = some (v, u))
    (data : v.isSentinel = false) :
    (evalBlock host me call s before (.bind name e :: rest)).run w =
      (evalBlock host me call s .null rest).run { u with heap := u.heap.define s name v } := by
  have bound : (evalStmt host me call s (.bind name e)).run w =
      some (.null, { u with heap := u.heap.define s name v }) := by
    rw [evalStmt, run_andThen_of value data]
    rfl
  rw [evalBlock, run_andThen_of bound rfl]

/-- A block of one expression is the expression. -/
theorem evalBlock_single (before : Value) (e : Expr Origin) :
    evalBlock host me call s before [.expr e] = evalExpr host me call s e := by
  rw [evalBlock, evalStmt]
  exact andThen_pure_right _

/-! ## Calls -/

/-- When the callee is known, the arguments come next. -/
theorem run_call {f : Expr Origin} {args : List (Expr Origin)} {callee : Value}
    (first : (evalExpr host me call s f).run w = some (callee, u))
    (data : callee.isSentinel = false) :
    (evalExpr host me call s (.call f args)).run w =
      (withOperands (evalExprs host me call s args) (evalCall host me call callee)).run u := by
  rw [evalExpr, run_andThen_of first data]
  rfl

/-- When the first of some operands is known, the others come next. -/
theorem run_operand {e : Expr Origin} {es : List (Expr Origin)} {k : List Value → Run Value}
    (first : (evalExpr host me call s e).run w = some (v, u)) (data : v.isSentinel = false) :
    (withOperands (evalExprs host me call s (e :: es)) k).run w =
      (withOperands (evalExprs host me call s es) fun values => k (v :: values)).run u := by
  rw [withOperands_cons, run_andThen_of first data]

/-- When all operands are known, what is done with them comes next. -/
theorem run_withOperands_of {x : Run (Except Value (List Value))} {k : List Value → Run Value}
    {values : List Value} (first : x.run w = some (.ok values, u)) :
    (withOperands x k).run w = (k values).run u := by
  rw [withOperands, run_bind, first]
  rfl

/-- Where some expressions have values, none of these is a sentinel. -/
theorem notSentinel_of_evalExprs {es : List (Expr Origin)} {values : List Value}
    (result : (evalExprs host me call s es).run w = some (.ok values, u)) :
    ∀ v ∈ values, v.isSentinel = false := by
  induction es generalizing w values with
  | nil =>
    cases result
    exact List.forall_mem_nil _
  | cons e es ih =>
    rw [evalExprs, bind_eq_some] at result
    obtain ⟨v, x, -, result⟩ := result
    split at result
    · cases result
    · next data =>
      obtain ⟨r, x, rest, result⟩ := bind_eq_some.mp result
      cases r with
      | ok others =>
        cases result
        exact List.forall_mem_cons.mpr ⟨by simpa using data, ih rest⟩
      | error sentinel => cases result

/-- A call of a closure runs its body in the new scope, one level deeper. -/
theorem run_applyValue_fn {f : Closure} {args : List Value} (arity : f.arity = args.length)
    (depth : Nat) :
    (applyValue host me (depth + 1) (.fn f) args).run w =
      ((evalBlock host me (invoke host me depth) w.heap.next .null f.body).run
        (w.entered me f args)).map
          fun r => (r.1.unwrapReturn, r.2.record (.leave (f.span w.heap))) := by
  rw [applyValue, evalCall, if_pos arity, run_invoke]

/-- A standard builtin that does not fail. -/
theorem run_applyStandard {op : Standard} {args : List Value}
    (value : ∀ i : Interpreter, (i.compute op args).1 = .ok v) :
    (evalCall host me call (.builtin (.standard me op)) args).run w =
      some (v, w.called me op args) := by
  rw [run_evalCall_builtin, callBuiltin, run_standard, value]
  rfl

/-- A standard builtin by its name, on the value of a name. -/
theorem run_standardOnName {builtin name : String} {op : Standard} {a : Value}
    (unbound : w.heap.resolve s builtin = none) (named : Standard.named? builtin = some op)
    (found : w.heap.resolve s name = some a) (data : a.isSentinel = false)
    (value : ∀ i : Interpreter, (i.compute op [a]).1 = .ok v) :
    (evalExpr host me call s (.call (.ident builtin) [.ident name])).run w =
      some (v, w.called me op [a]) := by
  rw [run_call (run_standardName unbound named) rfl, run_operand (run_ident found) data,
    withOperands_nil, run_applyStandard value]

end Steps

end TreeWalk
