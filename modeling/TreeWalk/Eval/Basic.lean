import TreeWalk.Builtin.Host
import TreeWalk.Builtin.Standard
import TreeWalk.Value.Operators

/-!
# Evaluation

Evaluation walks the tree in a scope. Operands, elements and arguments are evaluated from left to
right, a callee before its arguments. A sentinel, the result of a `return` or of a fault, becomes
the result of everything around it up to the end of the function or of the program.

Branches of an `if` run in the scope around them. The body of a function runs in a new scope,
which lies within the scope that the function captured and not within that of its caller.

The statements of a block and those of a program run in loops of their own: a block passes on what a
`return` in it has wrapped, and a program takes the wrapper off.

The walk is by recursion on the tree, and leaves the call of a user function to a parameter. Calls
are tied to the walk by a bound on how deeply they nest (`invoke`). Where the bound is reached
there is no result, and all other results do not depend on it.
-/

namespace TreeWalk

open Run

/-! ## Names and calls -/

/-- The value of a name: that of the innermost scope that binds it, or else the standard builtin
of that name. -/
def evalName (me : InterpreterId) (s : ScopeId) (name : String) : Run Value := do
  match (← get).heap.resolve s name with
  | some v => return v
  | none =>
      match Standard.named? name with
      | some op => return .builtin (.standard me op)
      | none => raise me (.unbound name)

/-- The value of a builtin on its arguments. -/
def callBuiltin (host : Host) (b : Builtin) (args : List Value) : Run Value :=
  match b with
  | .standard owner op => standard owner op args
  | .host id _ => pure (host id args)

/-- The value of a call. A builtin takes what arguments there are, and a function takes as many as
it has parameters. -/
def evalCall (host : Host) (me : InterpreterId) (call : Closure → List Value → Run Value)
    (callee : Value) (args : List Value) : Run Value :=
  match callee with
  | .fn f =>
      if f.arity = args.length then call f args
      else raise me (.arityMismatch f.arity args.length)
  | .builtin b => do
      tally me fun s => { s with builtinCalls := s.builtinCalls + 1 }
      record (.notice (.builtinCalled b.name args.length))
      callBuiltin host b args
  | v => raise me (.notCallable v.kind)

/-! ## The walk -/

section Walk

variable (host : Host) (me : InterpreterId) (call : Closure → List Value → Run Value)

mutual

/-- The value of an expression in a scope. -/
def evalExpr (s : ScopeId) : Expr Origin → Run Value
  | .ident name => evalName me s name
  | .int n => pure (.int n)
  | .str text => pure (.str text)
  | .bool b => pure (.bool b)
  | .prefixOp op e => andThen (evalExpr s e) fun v => orRaise me (op.apply v)
  | .infixOp l op r =>
      andThen (evalExpr s l) fun a =>
        andThen (evalExpr s r) fun b => orRaise me (op.apply a b)
  | .ifElse c t none =>
      andThen (evalExpr s c) fun v => if v.isTruthy then evalBlock s .null t else pure .null
  | .ifElse c t (some e) =>
      andThen (evalExpr s c) fun v =>
        if v.isTruthy then evalBlock s .null t else evalBlock s .null e
  | .fn origin params body => pure (.fn ⟨origin, params, body, s⟩)
  | .call f args =>
      andThen (evalExpr s f) fun callee => do
        match ← evalExprs s args with
        | .ok values => evalCall host me call callee values
        | .error sentinel => return sentinel
  | .array es => do
      match ← evalExprs s es with
      | .ok values => return .array values
      | .error sentinel => return sentinel
  | .index l i =>
      andThen (evalExpr s l) fun a =>
        andThen (evalExpr s i) fun b => orRaise me (a.at b)

/-- The values of some expressions, or the first sentinel among them. -/
def evalExprs (s : ScopeId) : List (Expr Origin) → Run (Except Value (List Value))
  | [] => pure (.ok [])
  | e :: es => do
      let v ← evalExpr s e
      if v.isSentinel then return .error v
      else
        match ← evalExprs s es with
        | .ok values => return .ok (v :: values)
        | .error sentinel => return .error sentinel

/-- The value of a statement in a scope. A binding has no value of its own. -/
def evalStmt (s : ScopeId) : Stmt Origin → Run Value
  | .bind name e =>
      andThen (evalExpr s e) fun v => do
        onHeap fun h => ((), h.define s name v)
        return .null
  | .ret e => andThen (evalExpr s e) fun v => return .ret v
  | .expr e => evalExpr s e

/-- The value of the last of some statements, or the first sentinel among their values. Where no
statement is left, it is the value of the one before, which is null where a block begins. -/
def evalBlock (s : ScopeId) (before : Value) : Block Origin → Run Value
  | [] => pure before
  | stmt :: rest => andThen (evalStmt s stmt) fun v => evalBlock s v rest

end

end Walk

/-! ## Functions and programs -/

/-- Calls a closure on as many arguments as it has parameters, with calls nested to at most the
given depth. -/
def invoke (host : Host) (me : InterpreterId) : Nat → Closure → List Value → Run Value
  | 0, _, _ => failure
  | depth + 1, f, args => do
      let span := Span.application f.arity ((← get).heap.depth f.scope)
      record (.enter span)
      tally me fun s => { s with functionCalls := s.functionCalls + 1 }
      let s ← onHeap fun h => h.callScope f args
      let h := (← get).heap
      record (.notice (.scopeEntered (h.names s) (h.depth s)))
      let v ← evalBlock host me (invoke host me depth) s .null f.body
      record (.leave span)
      return v.unwrapReturn

/-- Runs the statements of a program one after the other. A `return` ends them with the value that it
returns, and a fault with its error value. Where no statement is left, they have the value of the one
before, which is null where the program begins. -/
def evalStatements (host : Host) (me : InterpreterId) (call : Closure → List Value → Run Value)
    (s : ScopeId) (before : Value) : Program Origin → Run Value
  | [] => pure before
  | stmt :: rest => do
      match ← evalStmt host me call s stmt with
      | .ret v => return v
      | .err message => return .err message
      | v => evalStatements host me call s v rest

/-- Evaluates a program in a scope by an interpreter, with calls nested to at most the given depth. -/
def evalProgram (host : Host) (me : InterpreterId) (depth : Nat) (s : ScopeId)
    (program : Program Origin) : Run Value := do
  let span := Span.program program.length
  record (.enter span)
  let v ← evalStatements host me (invoke host me depth) s .null program
  record (.leave span)
  return v

/-- Calls a value on arguments by an interpreter, with calls nested to at most the given depth. -/
def applyValue (host : Host) (me : InterpreterId) (depth : Nat) (callee : Value)
    (args : List Value) : Run Value :=
  evalCall host me (invoke host me depth) callee args

end TreeWalk
