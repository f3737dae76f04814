import TreeWalk.Fault
import TreeWalk.Scope.Debug

/-!
# Events

What an evaluation reports while it runs: spans that are entered and left around programs and
around the bodies of user functions, and notices in between. Events carry the facts; how these are
worded is said here once for all of them.
-/

namespace TreeWalk

/-! ## Events -/

/-- How important an event is, from the most to the least. -/
inductive Level where
  | error
  | warn
  | info
  | debug
  | trace
  deriving DecidableEq, Repr

/-- The name of a level. -/
def Level.name : Level → String
  | .error => "ERROR"
  | .warn => "WARN"
  | .info => "INFO"
  | .debug => "DEBUG"
  | .trace => "TRACE"

/-- A stretch of an evaluation. -/
inductive Span where
  /-- A program of so many statements. -/
  | program (statements : Nat)
  /-- The body of a user function of an arity, which captured a scope at a depth. -/
  | application (arity : Nat) (scopeDepth : Nat)
  deriving DecidableEq, Repr

/-- Something that happens at one point of an evaluation. -/
inductive Notice where
  /-- The scope of a call was made: its names and its depth. -/
  | scopeEntered (names : List String) (depth : Nat)
  /-- A builtin is called with so many arguments. -/
  | builtinCalled (name : String) (args : Nat)
  /-- The evaluator found a fault. -/
  | faultRaised (fault : EvalFault)
  /-- A standard builtin failed. -/
  | builtinFailed (fault : BuiltinFault)
  deriving DecidableEq, Repr

/-- An event of an evaluation. -/
inductive Event where
  | enter (span : Span)
  | leave (span : Span)
  | notice (what : Notice)
  deriving DecidableEq, Repr

/-! ## Their wording -/

/-- A named fact of a span or of a notice. -/
structure Field where
  name : String
  text : String
  /-- Whether a log line shows the text in quotes. -/
  inQuotes : Bool
  deriving DecidableEq, Repr

/-- The name of a span. -/
def Span.name : Span → String
  | .program _ => "eval_program"
  | .application _ _ => "apply_function"

/-- The facts of a span. -/
def Span.fields : Span → List Field
  | .program statements => [⟨"statements", toString statements, false⟩]
  | .application arity scopeDepth =>
      [⟨"arity", toString arity, false⟩, ⟨"scope_depth", toString scopeDepth, false⟩]

/-- The level of a span. -/
def Span.level : Span → Level
  | .program _ => .trace
  | .application _ _ => .trace

/-- The level of a notice. Faults are reported above the ordinary course of a run. -/
def Notice.level : Notice → Level
  | .scopeEntered _ _ => .trace
  | .builtinCalled _ _ => .trace
  | .faultRaised _ => .debug
  | .builtinFailed _ => .debug

/-- What a notice says. -/
def Notice.message : Notice → String
  | .scopeEntered _ _ => "entered call scope"
  | .builtinCalled _ _ => "calling builtin"
  | .faultRaised _ => "raised runtime error"
  | .builtinFailed _ => "builtin failed"

/-- The facts of a notice. -/
def Notice.fields : Notice → List Field
  | .scopeEntered names depth => [⟨"bindings", scopeDebug names depth, false⟩]
  | .builtinCalled name args => [⟨"builtin", name, true⟩, ⟨"args", toString args, false⟩]
  | .faultRaised fault => [⟨"error", fault.message, false⟩]
  | .builtinFailed fault => [⟨"error", fault.message, false⟩]

/-! ## Where they come from -/

/-- The part of the program that spans and most notices come from. -/
def interpreterTarget : String := "donkey_eval::interpreter"

/-- The part of the program that the failures of builtins come from. -/
def builtinsTarget : String := "donkey_eval::builtins"

/-- The part of the program that a span comes from. -/
def Span.target : Span → String
  | .program _ => interpreterTarget
  | .application _ _ => interpreterTarget

/-- The part of the program that a notice comes from. -/
def Notice.target : Notice → String
  | .builtinFailed _ => builtinsTarget
  | _ => interpreterTarget

end TreeWalk
