import TreeWalk.Proofs.Eval.Equations

/-!
# The walk over any monad

The evaluator does basic runs, such as to look a name up or to raise a fault, and puts them
together. Here it is written over any monad into which the basic runs can be lifted. Over the runs
themselves it is the evaluator. Over a monad that does more, such as to keep what the basic runs
lead through, it is the evaluator that does more.

What the walk does over a monad and what the evaluator does stand in a relation for all programs, if
the basic runs do, and if the relation is kept when runs are put together. The relation may rely on
error values being passed on: it is told how they look as a result (`stop`).

Results:
1. `run_walkBuiltin`, `run_walkBody`, `run_walkSpan`: calls and spans over runs.
2. `Carried.walkBlock`, `Carried.walkInvoke`, `Carried.walkProgram`: such a relation holds of the
   walk, of calls at every bound on their nesting, and of the loop of a program.
3. `walkProgram_id`: the walk over runs is the evaluator.
-/

namespace TreeWalk

namespace Run

/-- Opens the span of a call of a closure. -/
def openCall (f : Closure) : Run Span := do
  let span := Span.application f.arity ((← get).heap.depth f.scope)
  record (.enter span)
  return span

/-- Reports the scope of a call. -/
def noteScope (s : ScopeId) : Run Unit := do
  let h := (← get).heap
  record (.notice (.scopeEntered (h.names s) (h.depth s)))

end Run

open Run

/-! ## The walk -/

section Walk

variable {m : Type → Type} [Monad m] (lift : {α : Type} → Run α → m α)

/-- Does one thing after another with the value of the first. A sentinel is the result of both. -/
def walkThen (x : m Value) (f : Value → m Value) : m Value := do
  let v ← x
  if v.isSentinel then pure v else f v

/-- Binds a name, which has no value of its own. -/
def walkDefine (s : ScopeId) (name : String) (v : Value) : m Value := do
  lift (onHeap fun h => ((), h.define s name v))
  return .null

/-- The call of a builtin. -/
def walkBuiltin (host : Host) (me : InterpreterId) (b : Builtin) (args : List Value) : m Value := do
  lift (tally me fun s => { s with builtinCalls := s.builtinCalls + 1 })
  lift (record (.notice (.builtinCalled b.name args.length)))
  lift (callBuiltin host b args)

/-- The body of a closure, in a span and in a scope of its own. -/
def walkBody (me : InterpreterId) (f : Closure) (args : List Value) (body : ScopeId → m Value) :
    m Value := do
  let span ← lift (openCall f)
  lift (tally me fun s => { s with functionCalls := s.functionCalls + 1 })
  let s ← lift (onHeap fun h => h.callScope f args)
  lift (noteScope s)
  let v ← body s
  lift (record (.leave span))
  return v.unwrapReturn

/-- What is done in a span. -/
def walkSpan (span : Span) (body : m Value) : m Value := do
  lift (record (.enter span))
  let v ← body
  lift (record (.leave span))
  return v

variable (host : Host) (me : InterpreterId) (call : Closure → List Value → m Value)

/-- The call of a value. -/
def walkCall (callee : Value) (args : List Value) : m Value :=
  match callee with
  | .fn f =>
      if f.arity = args.length then call f args
      else lift (orRaise me (.error (.arityMismatch f.arity args.length)))
  | .builtin b => walkBuiltin lift host me b args
  | v => lift (orRaise me (.error (.notCallable v.kind)))

mutual

/-- The evaluation of an expression. -/
def walkExpr (s : ScopeId) : Expr Origin → m Value
  | .ident name => lift (evalName me s name)
  | .int n => pure (.int n)
  | .str text => pure (.str text)
  | .bool b => pure (.bool b)
  | .prefixOp op e => walkThen (walkExpr s e) fun v => lift (orRaise me (op.apply v))
  | .infixOp l op r =>
      walkThen (walkExpr s l) fun a =>
        walkThen (walkExpr s r) fun b => lift (orRaise me (op.apply a b))
  | .ifElse c t none =>
      walkThen (walkExpr s c) fun v => if v.isTruthy then walkBlock s .null t else pure .null
  | .ifElse c t (some e) =>
      walkThen (walkExpr s c) fun v =>
        if v.isTruthy then walkBlock s .null t else walkBlock s .null e
  | .fn origin params body => pure (.fn ⟨origin, params, body, s⟩)
  | .call f args =>
      walkThen (walkExpr s f) fun callee => do
        match ← walkExprs s args with
        | .ok values => walkCall lift host me call callee values
        | .error sentinel => return sentinel
  | .array es => do
      match ← walkExprs s es with
      | .ok values => return .array values
      | .error sentinel => return sentinel
  | .index l i =>
      walkThen (walkExpr s l) fun a =>
        walkThen (walkExpr s i) fun b => lift (orRaise me (a.at b))

/-- The evaluation of some expressions. -/
def walkExprs (s : ScopeId) : List (Expr Origin) → m (Except Value (List Value))
  | [] => pure (.ok [])
  | e :: es => do
      let v ← walkExpr s e
      if v.isSentinel then return .error v
      else
        match ← walkExprs s es with
        | .ok values => return .ok (v :: values)
        | .error sentinel => return .error sentinel

/-- The evaluation of a statement. -/
def walkStmt (s : ScopeId) : Stmt Origin → m Value
  | .bind name e => walkThen (walkExpr s e) fun v => walkDefine lift s name v
  | .ret e => walkThen (walkExpr s e) fun v => return .ret v
  | .expr e => walkExpr s e

/-- The evaluation of some statements. -/
def walkBlock (s : ScopeId) (before : Value) : Block Origin → m Value
  | [] => pure before
  | stmt :: rest => walkThen (walkStmt s stmt) fun v => walkBlock s v rest

end

/-- The call of a closure, with calls nested to at most the given depth. -/
def walkInvoke : Nat → Closure → List Value → m Value
  | 0, _, _ => lift failure
  | depth + 1, f, args =>
      walkBody lift me f args fun s => walkBlock lift host me (walkInvoke depth) s .null f.body

/-- The evaluation of the statements of a program. -/
def walkStatements (s : ScopeId) (before : Value) : Program Origin → m Value
  | [] => pure before
  | stmt :: rest => do
      match ← walkStmt lift host me call s stmt with
      | .ret v => return v
      | .err message => return .err message
      | v => walkStatements s v rest

/-- The evaluation of a program, with calls nested to at most the given depth. -/
def walkProgram (depth : Nat) (s : ScopeId) (program : Program Origin) : m Value :=
  walkSpan lift (.program program.length)
    (walkStatements lift host me (walkInvoke lift host me depth) s .null program)

end Walk

/-! ## Calls and spans over runs -/

section Runs

variable (me : InterpreterId) (w : World)

theorem run_walkBuiltin (host : Host) (b : Builtin) (args : List Value) :
    (walkBuiltin (m := Run) id host me b args).run w =
      (callBuiltin host b args).run (w.calling me b args.length) := rfl

theorem run_walkBody (f : Closure) (args : List Value) (body : ScopeId → Run Value) :
    (walkBody id me f args body).run w =
      ((body w.heap.next).run (w.entered me f args)).map fun r =>
        (r.1.unwrapReturn, r.2.record (.leave (f.span w.heap))) := by
  rw [Option.map_eq_bind]
  rfl

theorem run_walkSpan (span : Span) (body : Run Value) :
    (walkSpan id span body).run w =
      (body.run (w.record (.enter span))).map fun r => (r.1, r.2.record (.leave span)) := by
  rw [Option.map_eq_bind]
  rfl

end Runs

/-! ## Relations to the evaluator -/

/-- A relation between the walk over a monad and the evaluator that is kept when runs are put
together. Where a first part gives an error value, what comes after it may be relied on to give the
error value as well, and to do nothing. -/
structure Carried (host : Host) (me : InterpreterId) {m : Type → Type} [Monad m]
    (lift : {α : Type} → Run α → m α) where
  Rel : {α : Type} → (Value → α) → m α → Run α → Prop
  pure : ∀ {α : Type} {stop : Value → α} (a : α), Rel stop (pure a) (pure a)
  bind : ∀ {α β : Type} {stop : Value → α} {stop' : Value → β} {x : m α} {y : Run α}
    {f : α → m β} {g : α → Run β}, Rel stop x y → (∀ a, Rel stop' (f a) (g a)) →
    (∀ message, f (stop (.err message)) = Pure.pure (stop' (.err message)) ∧
      g (stop (.err message)) = Pure.pure (stop' (.err message))) →
    Rel stop' (x >>= f) (y >>= g)
  name : ∀ s name, Rel id (lift (evalName me s name)) (evalName me s name)
  operation : ∀ r, Rel id (lift (orRaise me r)) (orRaise me r)
  define : ∀ s name v, Rel id (walkDefine lift s name v) (walkDefine (m := Run) id s name v)
  builtin : ∀ b args,
    Rel id (walkBuiltin lift host me b args) (walkBuiltin (m := Run) id host me b args)
  cutShort : Rel id (lift failure) (failure : Run Value)
  body : ∀ f args {x : ScopeId → m Value} {y : ScopeId → Run Value},
    (∀ s, Rel id (x s) (y s)) → Rel id (walkBody lift me f args x) (walkBody id me f args y)
  span : ∀ span {x : m Value} {y : Run Value},
    Rel id x y → Rel id (walkSpan lift span x) (walkSpan id span y)

namespace Carried

variable {host : Host} {me : InterpreterId} {m : Type → Type} [Monad m]
variable {lift : {α : Type} → Run α → m α} (C : Carried host me lift)
variable {call : Closure → List Value → m Value} {call' : Closure → List Value → Run Value}

/-- An error value is a sentinel, so nothing is done with it. -/
theorem andThen {x : m Value} {y : Run Value} {f : Value → m Value} {g : Value → Run Value}
    (first : C.Rel id x y) (next : ∀ v, C.Rel id (f v) (g v)) :
    C.Rel id (walkThen x f) (Run.andThen y g) := by
  refine C.bind first (fun v => ?_) fun _ => ⟨rfl, rfl⟩
  split
  · exact C.pure v
  · exact next v

theorem walkCall (calls : ∀ f args, C.Rel id (call f args) (call' f args)) (callee : Value)
    (args : List Value) :
    C.Rel id (walkCall lift host me call callee args) (evalCall host me call' callee args) := by
  cases callee with
  | fn f =>
    rw [TreeWalk.walkCall, evalCall]
    split
    · exact calls f args
    · exact C.operation (.error _)
  | builtin b => exact C.builtin b args
  | int n | bool b | null | str text | array items | ret v | err message =>
    exact C.operation (.error _)

mutual

theorem walkExpr (calls : ∀ f args, C.Rel id (call f args) (call' f args)) (s : ScopeId) :
    (e : Expr Origin) →
    C.Rel id (walkExpr lift host me call s e) (evalExpr host me call' s e)
  | .ident name => C.name s name
  | .int n => C.pure _
  | .str text => C.pure _
  | .bool b => C.pure _
  | .prefixOp op e => C.andThen (walkExpr calls s e) fun v => C.operation (op.apply v)
  | .infixOp l op r =>
    C.andThen (walkExpr calls s l) fun a =>
      C.andThen (walkExpr calls s r) fun b => C.operation (op.apply a b)
  | .ifElse c t none => by
    refine C.andThen (walkExpr calls s c) fun v => ?_
    split
    · exact walkBlock calls s .null t
    · exact C.pure _
  | .ifElse c t (some e) => by
    refine C.andThen (walkExpr calls s c) fun v => ?_
    split
    · exact walkBlock calls s .null t
    · exact walkBlock calls s .null e
  | .fn origin params body => C.pure _
  | .call f args => by
    refine C.andThen (walkExpr calls s f) fun callee => ?_
    refine C.bind (walkExprs calls s args) (fun r => ?_) fun _ => ⟨rfl, rfl⟩
    cases r with
    | ok values => exact C.walkCall calls callee values
    | error sentinel => exact C.pure sentinel
  | .array es => by
    refine C.bind (walkExprs calls s es) (fun r => ?_) fun _ => ⟨rfl, rfl⟩
    cases r with
    | ok values => exact C.pure _
    | error sentinel => exact C.pure sentinel
  | .index l i =>
    C.andThen (walkExpr calls s l) fun a =>
      C.andThen (walkExpr calls s i) fun b => C.operation (a.at b)

theorem walkExprs (calls : ∀ f args, C.Rel id (call f args) (call' f args)) (s : ScopeId) :
    (es : List (Expr Origin)) →
    C.Rel Except.error (walkExprs lift host me call s es) (evalExprs host me call' s es)
  | [] => C.pure _
  | e :: es => by
    refine C.bind (walkExpr calls s e) (fun v => ?_) fun _ => ⟨rfl, rfl⟩
    split
    · exact C.pure _
    · refine C.bind (walkExprs calls s es) (fun r => ?_) fun _ => ⟨rfl, rfl⟩
      cases r with
      | ok values => exact C.pure _
      | error sentinel => exact C.pure _

theorem walkStmt (calls : ∀ f args, C.Rel id (call f args) (call' f args)) (s : ScopeId) :
    (stmt : Stmt Origin) →
    C.Rel id (walkStmt lift host me call s stmt) (evalStmt host me call' s stmt)
  | .bind name e => C.andThen (walkExpr calls s e) fun v => C.define s name v
  | .ret e => C.andThen (walkExpr calls s e) fun _ => C.pure _
  | .expr e => walkExpr calls s e

theorem walkBlock (calls : ∀ f args, C.Rel id (call f args) (call' f args)) (s : ScopeId)
    (before : Value) : (block : Block Origin) →
    C.Rel id (walkBlock lift host me call s before block) (evalBlock host me call' s before block)
  | [] => C.pure before
  | stmt :: rest => C.andThen (walkStmt calls s stmt) fun v => walkBlock calls s v rest

end

theorem walkInvoke (depth : Nat) (f : Closure) (args : List Value) :
    C.Rel id (walkInvoke lift host me depth f args) (invoke host me depth f args) := by
  induction depth generalizing f args with
  | zero => exact C.cutShort
  | succ depth ih => exact C.body f args fun s => C.walkBlock ih s .null f.body

theorem walkStatements (calls : ∀ f args, C.Rel id (call f args) (call' f args)) (s : ScopeId)
    (before : Value) (program : Program Origin) :
    C.Rel id (walkStatements lift host me call s before program)
      (evalStatements host me call' s before program) := by
  induction program generalizing before with
  | nil => exact C.pure before
  | cons stmt rest ih =>
    refine C.bind (C.walkStmt calls s stmt) (fun v => ?_) fun _ => ⟨rfl, rfl⟩
    cases v with
    | ret v => exact C.pure v
    | err message => exact C.pure _
    | int n | bool b | null | str text | array items | fn f | builtin b => exact ih _

theorem walkProgram (depth : Nat) (s : ScopeId) (program : Program Origin) :
    C.Rel id (walkProgram lift host me depth s program) (evalProgram host me depth s program) :=
  C.span _ (C.walkStatements (C.walkInvoke depth) s .null program)

end Carried

/-- Equality, which is kept by whatever is done with runs. -/
def carriedEq (host : Host) (me : InterpreterId) : Carried host me (m := Run) id where
  Rel _ x y := x = y
  pure _ := rfl
  bind first next _ := by
    subst first
    exact congrArg _ (funext next)
  name _ _ := rfl
  operation _ := rfl
  define _ _ _ := rfl
  builtin _ _ := rfl
  cutShort := rfl
  body _ _ _ _ same := congrArg _ (funext same)
  span _ _ _ same := congrArg _ same

/-- The walk over runs is the evaluator. -/
theorem walkProgram_id (host : Host) (me : InterpreterId) (depth : Nat) (s : ScopeId)
    (program : Program Origin) :
    walkProgram (m := Run) id host me depth s program = evalProgram host me depth s program :=
  (carriedEq host me).walkProgram depth s program

end TreeWalk
