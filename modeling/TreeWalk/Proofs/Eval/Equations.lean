import TreeWalk.Eval.Basic

/-!
# Equations of the evaluator

What the parts of the evaluator do to a state, one equation each, so that nobody has to open them
again.

Results:
1. `run_orRaise`, `run_evalName`, `run_evalCall_builtin`: an operation, a name, and a call of a
   builtin.
2. `run_invoke`: a call of a closure runs its body in the state `World.entered`.
3. `evalStatements_eq`: the loop of a program and that of a block.
4. `run_evalProgram`: a program runs as a block between two events.
-/

namespace TreeWalk

open Run

/-! ## States around a body -/

/-- The span of a call of a closure. -/
def Closure.span (h : Heap) (f : Closure) : Span :=
  .application f.arity (h.depth f.scope)

/-- The state in which a fault of the evaluator was counted and reported. -/
def World.raised (w : World) (me : InterpreterId) (fault : EvalFault) : World :=
  (w.tally me fun s => { s with errorsRaised := s.errorsRaised + 1 }).record
    (.notice (.faultRaised fault))

/-- The state in which a call of a builtin was counted and reported. -/
def World.calling (w : World) (me : InterpreterId) (b : Builtin) (count : Nat) : World :=
  (w.tally me fun s => { s with builtinCalls := s.builtinCalls + 1 }).record
    (.notice (.builtinCalled b.name count))

/-- The state in which the body of a closure starts: its span is open, the call is counted, and
there is a new scope for it. -/
def World.entered (w : World) (me : InterpreterId) (f : Closure) (args : List Value) : World :=
  let heap := (w.heap.callScope f args).2
  { (w.record (.enter (f.span w.heap))).tally me
      (fun s => { s with functionCalls := s.functionCalls + 1 }) with heap := heap }.record
    (.notice (.scopeEntered (heap.names w.heap.next) (heap.depth w.heap.next)))

/-- The state after a standard builtin: its interpreter may have written, and a failure is
reported. -/
def World.computed (w : World) (owner : InterpreterId) (op : Standard) (args : List Value) :
    World :=
  let r := (w.interpreter owner).compute op args
  match r.1 with
  | .ok _ => w.update owner fun _ => r.2
  | .error fault => (w.update owner fun _ => r.2).record (.notice (.builtinFailed fault))

@[simp] theorem World.heap_record (w : World) (e : Event) : (w.record e).heap = w.heap := rfl

@[simp] theorem World.heap_entered (w : World) (me : InterpreterId) (f : Closure)
    (args : List Value) : (w.entered me f args).heap = (w.heap.callScope f args).2 := rfl

@[simp] theorem World.heap_computed (w : World) (owner : InterpreterId) (op : Standard)
    (args : List Value) : (w.computed owner op args).heap = w.heap := by
  rw [World.computed]
  split <;> rfl

/-- Of a standard builtin a failure alone is reported. -/
theorem World.log_computed (w : World) (owner : InterpreterId) (op : Standard)
    (args : List Value) :
    (w.computed owner op args).log =
      match ((w.interpreter owner).compute op args).1 with
      | .ok _ => w.log
      | .error fault => w.log.push (.notice (.builtinFailed fault)) := by
  rw [World.computed]
  cases ((w.interpreter owner).compute op args).1 with
  | ok v => rfl
  | error fault => rfl

/-- A standard builtin changes the interpreter that owns it alone. -/
theorem World.interpreter_computed (w : World) (owner : InterpreterId) (op : Standard)
    (args : List Value) (i : InterpreterId) :
    (w.computed owner op args).interpreter i =
      if i = owner then ((w.interpreter owner).compute op args).2 else w.interpreter i := by
  rw [World.computed]
  cases ((w.interpreter owner).compute op args).1 with
  | ok v => exact w.interpreter_update owner i _
  | error fault => exact w.interpreter_update owner i _

/-- What a builtin does is counted by its caller and not by itself. -/
theorem Interpreter.stats_compute (x : Interpreter) (op : Standard) (args : List Value) :
    (x.compute op args).2.stats = x.stats := by
  cases op with
  | puts =>
    rw [compute, puts]
    split
    · rfl
    · split
      · rfl
      · split <;> rfl
  | len | first | last | rest | push => rfl

/-- The state after an operation, whose fault was counted and reported. -/
def World.operated (w : World) (me : InterpreterId) : Except EvalFault Value → World
  | .ok _ => w
  | .error fault => w.raised me fault

/-! ## Operations, names and builtins -/

/-- The value of a result of an operation. A fault is its error value. -/
def operationValue : Except EvalFault Value → Value
  | .ok v => v
  | .error fault => fault.toValue

theorem run_orRaise (me : InterpreterId) (r : Except EvalFault Value) (w : World) :
    (orRaise me r).run w = some (operationValue r, w.operated me r) := by
  cases r with
  | ok v => rfl
  | error fault => rfl

/-- A name has the value of its binding, or else is a standard builtin, or else is a fault. -/
theorem run_evalName (me : InterpreterId) (s : ScopeId) (name : String) (w : World) :
    (evalName me s name).run w =
      match w.heap.resolve s name with
      | some v => some (v, w)
      | none =>
          match Standard.named? name with
          | some op => some (.builtin (.standard me op), w)
          | none => some ((EvalFault.unbound name).toValue, w.raised me (.unbound name)) := by
  rw [evalName, run_bind, run_get]
  simp only [Option.bind_some]
  cases w.heap.resolve s name with
  | some v => rfl
  | none => cases Standard.named? name <;> rfl

/-- The value of a result of a standard builtin. A fault is its error value. -/
def Standard.value : Except BuiltinFault Value → Value
  | .ok v => v
  | .error fault => fault.toValue

theorem run_standard (owner : InterpreterId) (op : Standard) (args : List Value) (w : World) :
    (Run.standard owner op args).run w =
      some (Standard.value ((w.interpreter owner).compute op args).1,
        w.computed owner op args) := by
  rw [Run.standard, run_bind, World.computed]
  simp only [StateT.run_modifyGet, Option.pure_def, Option.bind_some]
  cases ((w.interpreter owner).compute op args).1 with
  | ok v => rfl
  | error fault => rfl

/-- A call of a builtin is counted and reported before the builtin runs. -/
theorem run_evalCall_builtin (host : Host) (me : InterpreterId)
    (call : Closure → List Value → Run Value) (b : Builtin) (args : List Value) (w : World) :
    (evalCall host me call (.builtin b) args).run w =
      (callBuiltin host b args).run (w.calling me b args.length) := rfl

/-! ## Closures and programs -/

/-- A call of a closure runs its body in the new scope, and unwraps what was returned. -/
theorem run_invoke (host : Host) (me : InterpreterId) (depth : Nat) (f : Closure)
    (args : List Value) (w : World) :
    (invoke host me (depth + 1) f args).run w =
      ((evalBlock host me (invoke host me depth) w.heap.next .null f.body).run
        (w.entered me f args)).map
        fun r => (r.1.unwrapReturn, r.2.record (.leave (f.span w.heap))) := by
  rw [Option.map_eq_bind]
  rfl

/-- The loop of a program and that of a block come to the same, but that the former takes the wrapper
off a value that is returned. -/
theorem evalStatements_eq (host : Host) (me : InterpreterId)
    (call : Closure → List Value → Run Value) (s : ScopeId) {before : Value}
    (notSentinel : before.isSentinel = false) (program : Program Origin) :
    evalStatements host me call s before program =
      Value.unwrapReturn <$> evalBlock host me call s before program := by
  induction program generalizing before with
  | nil =>
    cases before with
    | ret v | err message => cases notSentinel
    | int n | bool b | null | str text | array items | fn f | builtin b => rfl
  | cons stmt rest ih =>
    rw [evalStatements, evalBlock, andThen, map_bind]
    refine congrArg (evalStmt host me call s stmt >>= ·) (funext fun v => ?_)
    -- The arms of the loop are the sentinels, which end the block as well, and all other values.
    cases v with
    | ret v | err message => rfl
    | int n | bool b | null | str text | array items | fn f | builtin b => exact ih rfl

/-- A program runs as a block, between the events of its span, and unwraps what was returned. -/
theorem run_evalProgram (host : Host) (me : InterpreterId) (depth : Nat) (s : ScopeId)
    (program : Program Origin) (w : World) :
    (evalProgram host me depth s program).run w =
      ((evalBlock host me (invoke host me depth) s .null program).run
        (w.record (.enter (.program program.length)))).map
        fun r => (r.1.unwrapReturn, r.2.record (.leave (.program program.length))) := by
  rw [evalProgram, evalStatements_eq host me _ s rfl, Option.map_eq_bind]
  exact Option.bind_assoc ..

end TreeWalk
