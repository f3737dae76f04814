import TreeWalk.Builtin.Host
import TreeWalk.Builtin.Standard
import TreeWalk.Proofs.Syntax.Operands
import TreeWalk.Value.Operators

/-!
# The reference semantics

What programs mean, with control flow kept apart from values. An evaluation ends normally, or by a
`return`, or by a fault. The last two are outcomes and no values, and whatever does not end
normally ends all that surrounds it up to the end of the function or of the program.

The semantics is a relation between states and outcomes. It has no bound on the nesting of calls:
what does not end has no outcome.

There is one rule by which expressions pass on what did not end normally (`Evaluates.operand`). All
the others say what happens when the operands have ended normally.
-/

namespace TreeWalk.Reference

/-! ## Outcomes -/

/-- How an evaluation can end otherwise than normally. -/
inductive Abrupt where
  | returning (v : Value)
  | failing (message : String)

/-- How an evaluation ends. -/
inductive Outcome (α : Type) where
  | normal (a : α)
  | abrupt (why : Abrupt)

namespace Outcome

/-- A `return` is on its way. -/
abbrev returning {α : Type} (v : Value) : Outcome α :=
  .abrupt (.returning v)

/-- A fault has happened. -/
abbrev failing {α : Type} (message : String) : Outcome α :=
  .abrupt (.failing message)

/-- The end of a function or of a program: a `return` has arrived. -/
def caught : Outcome Value → Outcome Value
  | .abrupt (.returning v) => .normal v
  | o => o

/-- The outcome of an operation. -/
def ofOperation : Except EvalFault Value → Outcome Value
  | .ok v => .normal v
  | .error fault => .failing fault.message

/-- The outcome of a standard builtin. -/
def ofStandard : Except BuiltinFault Value → Outcome Value
  | .ok v => .normal v
  | .error fault => .failing fault.message

/-- The outcome of a builtin of the host. It fails by the value it gives. -/
def ofHost : Value → Outcome Value
  | .err message => .failing message
  | v => .normal v

end Outcome

/-! ## States -/

/-- A state of the reference: the scopes, and the interpreters with what they have written and
counted. -/
structure Store where
  heap : Heap
  interpreters : Interpreters

namespace Store

/-- Counts something that an interpreter did. -/
def tally (σ : Store) (i : InterpreterId) (f : Stats → Stats) : Store :=
  { σ with interpreters := σ.interpreters.update i fun x => { x with stats := f x.stats } }

/-- A fault of the evaluator is counted. -/
def raised (σ : Store) (me : InterpreterId) : Store :=
  σ.tally me fun s => { s with errorsRaised := s.errorsRaised + 1 }

/-- The state after an operation. -/
def operated (σ : Store) (me : InterpreterId) : Except EvalFault Value → Store
  | .ok _ => σ
  | .error _ => σ.raised me

/-- A call of a builtin is counted. -/
def calling (σ : Store) (me : InterpreterId) : Store :=
  σ.tally me fun s => { s with builtinCalls := s.builtinCalls + 1 }

/-- A call of a closure is counted, and there is a new scope for it. -/
def entered (σ : Store) (me : InterpreterId) (f : Closure) (args : List Value) : Store :=
  { σ.tally me fun s => { s with functionCalls := s.functionCalls + 1 } with
    heap := (σ.heap.callScope f args).2 }

/-- What a standard builtin of an interpreter does, which may write. -/
def compute (σ : Store) (owner : InterpreterId) (op : Standard) (args : List Value) :
    Except BuiltinFault Value × Store :=
  let r := (σ.interpreters.get owner).compute op args
  (r.1, { σ with interpreters := σ.interpreters.update owner fun _ => r.2 })

end Store

/-! ## Rules -/

section Rules

variable (host : Host) (me : InterpreterId)

mutual

/-- `Evaluates host me σ s e o τ`: the expression `e`, evaluated in the scope `s`, leads from the
state `σ` to `τ` with the outcome `o`.

* `operand`: an operand has not ended normally. Nothing else happens.
* `bound`, `standard`, `unbound`: a name is that of a binding, or else of a standard builtin, or
  else a fault.
* `chosen`, `other`, `neither`: an `if` runs the block that its condition selects, in the same
  scope. Where there is none its value is null.
* `call`: a callee is applied when all arguments are there. -/
inductive Evaluates : Store → ScopeId → Expr Origin → Outcome Value → Store → Prop
  | operand {σ τ : Store} {s : ScopeId} {e : Expr Origin} {why : Abrupt} :
      EvaluatesAll σ s e.operands (.abrupt why) τ → Evaluates σ s e (.abrupt why) τ
  | bound {σ : Store} {s : ScopeId} {name : String} {v : Value} :
      σ.heap.resolve s name = some v → Evaluates σ s (.ident name) (.normal v) σ
  | standard {σ : Store} {s : ScopeId} {name : String} {op : Standard} :
      σ.heap.resolve s name = none → Standard.named? name = some op →
      Evaluates σ s (.ident name) (.normal (.builtin (.standard me op))) σ
  | unbound {σ : Store} {s : ScopeId} {name : String} :
      σ.heap.resolve s name = none → Standard.named? name = none →
      Evaluates σ s (.ident name) (.failing (EvalFault.unbound name).message) (σ.raised me)
  | int {σ : Store} {s : ScopeId} {n : Int64} : Evaluates σ s (.int n) (.normal (.int n)) σ
  | str {σ : Store} {s : ScopeId} {text : String} :
      Evaluates σ s (.str text) (.normal (.str text)) σ
  | bool {σ : Store} {s : ScopeId} {b : Bool} : Evaluates σ s (.bool b) (.normal (.bool b)) σ
  | prefixOp {σ τ : Store} {s : ScopeId} {op : PrefixOp} {e : Expr Origin} {v : Value} :
      EvaluatesAll σ s [e] (.normal [v]) τ →
      Evaluates σ s (.prefixOp op e) (.ofOperation (op.apply v)) (τ.operated me (op.apply v))
  | infixOp {σ τ : Store} {s : ScopeId} {l r : Expr Origin} {op : InfixOp} {a b : Value} :
      EvaluatesAll σ s [l, r] (.normal [a, b]) τ →
      Evaluates σ s (.infixOp l op r) (.ofOperation (op.apply a b)) (τ.operated me (op.apply a b))
  | chosen {σ τ υ : Store} {s : ScopeId} {c : Expr Origin} {t : Block Origin}
      {e : Option (Block Origin)} {v : Value} {o : Outcome Value} :
      EvaluatesAll σ s [c] (.normal [v]) τ → v.isTruthy = true → Runs τ s .null t o υ →
      Evaluates σ s (.ifElse c t e) o υ
  | other {σ τ υ : Store} {s : ScopeId} {c : Expr Origin} {t e : Block Origin} {v : Value}
      {o : Outcome Value} :
      EvaluatesAll σ s [c] (.normal [v]) τ → v.isTruthy = false → Runs τ s .null e o υ →
      Evaluates σ s (.ifElse c t (some e)) o υ
  | neither {σ τ : Store} {s : ScopeId} {c : Expr Origin} {t : Block Origin} {v : Value} :
      EvaluatesAll σ s [c] (.normal [v]) τ → v.isTruthy = false →
      Evaluates σ s (.ifElse c t none) (.normal .null) τ
  | fn {σ : Store} {s : ScopeId} {origin : Origin} {params : List String} {body : Block Origin} :
      Evaluates σ s (.fn origin params body) (.normal (.fn ⟨origin, params, body, s⟩)) σ
  | call {σ τ υ : Store} {s : ScopeId} {f : Expr Origin} {args : List (Expr Origin)}
      {callee : Value} {values : List Value} {o : Outcome Value} :
      EvaluatesAll σ s (f :: args) (.normal (callee :: values)) τ → Applies τ callee values o υ →
      Evaluates σ s (.call f args) o υ
  | array {σ τ : Store} {s : ScopeId} {es : List (Expr Origin)} {values : List Value} :
      EvaluatesAll σ s es (.normal values) τ →
      Evaluates σ s (.array es) (.normal (.array values)) τ
  | index {σ τ : Store} {s : ScopeId} {l i : Expr Origin} {a b : Value} :
      EvaluatesAll σ s [l, i] (.normal [a, b]) τ →
      Evaluates σ s (.index l i) (.ofOperation (a.at b)) (τ.operated me (a.at b))

/-- `EvaluatesAll host me σ s es o τ`: the expressions are evaluated from left to right, up to the
first that does not end normally. -/
inductive EvaluatesAll :
    Store → ScopeId → List (Expr Origin) → Outcome (List Value) → Store → Prop
  | nil {σ : Store} {s : ScopeId} : EvaluatesAll σ s [] (.normal []) σ
  | head {σ τ : Store} {s : ScopeId} {e : Expr Origin} {es : List (Expr Origin)} {why : Abrupt} :
      Evaluates σ s e (.abrupt why) τ → EvaluatesAll σ s (e :: es) (.abrupt why) τ
  | tail {σ τ υ : Store} {s : ScopeId} {e : Expr Origin} {es : List (Expr Origin)} {v : Value}
      {why : Abrupt} :
      Evaluates σ s e (.normal v) τ → EvaluatesAll τ s es (.abrupt why) υ →
      EvaluatesAll σ s (e :: es) (.abrupt why) υ
  | cons {σ τ υ : Store} {s : ScopeId} {e : Expr Origin} {es : List (Expr Origin)} {v : Value}
      {values : List Value} :
      Evaluates σ s e (.normal v) τ → EvaluatesAll τ s es (.normal values) υ →
      EvaluatesAll σ s (e :: es) (.normal (v :: values)) υ

/-- `Executes host me σ s stmt o τ`: a statement. A name is bound only to what ended normally. -/
inductive Executes : Store → ScopeId → Stmt Origin → Outcome Value → Store → Prop
  | bindAbrupt {σ τ : Store} {s : ScopeId} {name : String} {e : Expr Origin} {why : Abrupt} :
      Evaluates σ s e (.abrupt why) τ → Executes σ s (.bind name e) (.abrupt why) τ
  | bind {σ τ : Store} {s : ScopeId} {name : String} {e : Expr Origin} {v : Value} :
      Evaluates σ s e (.normal v) τ →
      Executes σ s (.bind name e) (.normal .null) { τ with heap := τ.heap.define s name v }
  | retAbrupt {σ τ : Store} {s : ScopeId} {e : Expr Origin} {why : Abrupt} :
      Evaluates σ s e (.abrupt why) τ → Executes σ s (.ret e) (.abrupt why) τ
  | ret {σ τ : Store} {s : ScopeId} {e : Expr Origin} {v : Value} :
      Evaluates σ s e (.normal v) τ → Executes σ s (.ret e) (.returning v) τ
  | expr {σ τ : Store} {s : ScopeId} {e : Expr Origin} {o : Outcome Value} :
      Evaluates σ s e o τ → Executes σ s (.expr e) o τ

/-- `Runs host me σ s before block o τ`: the statements of a block one after the other, up to the
first that does not end normally. Where none is left the value is that of the one before. -/
inductive Runs : Store → ScopeId → Value → Block Origin → Outcome Value → Store → Prop
  | nil {σ : Store} {s : ScopeId} {before : Value} : Runs σ s before [] (.normal before) σ
  | stop {σ τ : Store} {s : ScopeId} {before : Value} {stmt : Stmt Origin} {rest : Block Origin}
      {why : Abrupt} :
      Executes σ s stmt (.abrupt why) τ → Runs σ s before (stmt :: rest) (.abrupt why) τ
  | step {σ τ υ : Store} {s : ScopeId} {before v : Value} {stmt : Stmt Origin}
      {rest : Block Origin} {o : Outcome Value} :
      Executes σ s stmt (.normal v) τ → Runs τ s v rest o υ →
      Runs σ s before (stmt :: rest) o υ

/-- `Applies host me σ callee args o τ`: a value is called on arguments. The body of a closure runs
in a new scope, and its `return` ends here. -/
inductive Applies : Store → Value → List Value → Outcome Value → Store → Prop
  | closure {σ τ : Store} {f : Closure} {args : List Value} {o : Outcome Value} :
      f.arity = args.length → Runs (σ.entered me f args) σ.heap.next .null f.body o τ →
      Applies σ (.fn f) args o.caught τ
  | arity {σ : Store} {f : Closure} {args : List Value} :
      f.arity ≠ args.length →
      Applies σ (.fn f) args (.failing (EvalFault.arityMismatch f.arity args.length).message)
        (σ.raised me)
  | standard {σ : Store} {owner : InterpreterId} {op : Standard} {args : List Value} :
      Applies σ (.builtin (.standard owner op)) args
        (.ofStandard ((σ.calling me).compute owner op args).1)
        ((σ.calling me).compute owner op args).2
  | host {σ : Store} {id : HostId} {name : String} {args : List Value} :
      Applies σ (.builtin (.host id name)) args (.ofHost (host id args)) (σ.calling me)
  | notCallable {σ : Store} {callee : Value} {args : List Value} :
      callee.kind ≠ .function → callee.kind ≠ .builtin →
      Applies σ callee args (.failing (EvalFault.notCallable callee.kind).message) (σ.raised me)

end

/-- `RunsProgram host me σ s program o τ`: a program runs as a block, and its `return` ends it. -/
inductive RunsProgram (σ : Store) (s : ScopeId) (program : Program Origin) :
    Outcome Value → Store → Prop
  | of {o : Outcome Value} {τ : Store} :
      Runs host me σ s .null program o τ → RunsProgram σ s program o.caught τ

end Rules

end TreeWalk.Reference
