import TreeWalk.Syntax.Source
import TreeWalk.Value.Basic

/-!
# Faults

What can go wrong in an evaluation, by cause. A fault becomes an error value with its message, and
from then on evaluation sees nothing but the message.
-/

namespace TreeWalk

/-- A fault that the evaluator itself finds. -/
inductive EvalFault where
  /-- A name that neither a scope of the chain nor the table of builtins has. -/
  | unbound (name : String)
  /-- A prefix operator on an operand of a kind for which it is not defined. -/
  | unknownPrefix (op : PrefixOp) (operand : Kind)
  /-- An infix operator on operands of one kind, for which it is not defined. -/
  | unknownInfix (left : Kind) (op : InfixOp) (right : Kind)
  /-- An infix operator, not a comparison for equality, on operands of two kinds. -/
  | typeMismatch (left : Kind) (op : InfixOp) (right : Kind)
  /-- A call of something that is neither a function nor a builtin. -/
  | notCallable (kind : Kind)
  /-- A call of a function with too few or too many arguments. -/
  | arityMismatch (expected received : Nat)
  /-- An index into something other than an array, or an index that is no integer. -/
  | notIndexable (kind : Kind)
  | divisionByZero
  deriving DecidableEq, Repr

/-- A fault inside a standard builtin. -/
inductive BuiltinFault where
  | wrongCount (got want : Nat)
  /-- An argument of a kind that the builtin does not take. -/
  | unsupported (name : String) (kind : Kind)
  /-- An argument that should have been an array. -/
  | notArray (name : String) (kind : Kind)
  /-- The sink refused to write or to flush, for the given reason. -/
  | output (reason : String)
  deriving DecidableEq, Repr

/-- An infix operator between the kinds of its operands. -/
def infixText (left : Kind) (op : InfixOp) (right : Kind) : String :=
  left.name ++ " " ++ op.symbol ++ " " ++ right.name

/-- The message of a fault of the evaluator. -/
def EvalFault.message : EvalFault → String
  | .unbound name => "identifier not found: " ++ name
  | .unknownPrefix op operand => "unknown operator: " ++ op.symbol ++ operand.name
  | .unknownInfix l op r => "unknown operator: " ++ infixText l op r
  | .typeMismatch l op r => "type mismatch: " ++ infixText l op r
  | .notCallable kind => "not a function: " ++ kind.name
  | .arityMismatch expected received =>
      "wrong number of arguments: want=" ++ toString expected ++ ", got=" ++ toString received
  | .notIndexable kind => "index operator not supported: " ++ kind.name
  | .divisionByZero => "division by zero"

/-- The message of a fault of a builtin. -/
def BuiltinFault.message : BuiltinFault → String
  | .wrongCount got want =>
      "wrong number of arguments. got=" ++ toString got ++ ", want=" ++ toString want
  | .unsupported name kind => "argument to `" ++ name ++ "` not supported, got " ++ kind.name
  | .notArray name kind => "argument to `" ++ name ++ "` must be ARRAY, got " ++ kind.name
  | .output reason => "could not write output: " ++ reason

/-- The error value that a fault of the evaluator becomes. -/
def EvalFault.toValue (f : EvalFault) : Value :=
  .err f.message

/-- The error value that a fault of a builtin becomes. -/
def BuiltinFault.toValue (f : BuiltinFault) : Value :=
  .err f.message

end TreeWalk
