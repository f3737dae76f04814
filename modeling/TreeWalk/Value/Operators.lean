import TreeWalk.Fault
import TreeWalk.Value.Equality

/-!
# Operators

What the operators and the index do with the values of their operands. Integer arithmetic is
modulo 2 ^ 64 with results from -2 ^ 63 on, and division truncates towards zero. Equality is
defined for all values, and for integers and strings it is equality of values too.
-/

namespace TreeWalk

/-- A prefix operator on an operand. Negation of truth is defined for every value. -/
def PrefixOp.apply : PrefixOp → Value → Except EvalFault Value
  | .not, v => .ok (.bool (!v.isTruthy))
  | .negate, .int n => .ok (.int (-n))
  | .negate, v => .error (.unknownPrefix .negate v.kind)

/-- An infix operator on two integers. -/
def InfixOp.onIntegers (a : Int64) (op : InfixOp) (b : Int64) : Except EvalFault Value :=
  match op with
  | .add => .ok (.int (a + b))
  | .sub => .ok (.int (a - b))
  | .mul => .ok (.int (a * b))
  | .div => if b = 0 then .error .divisionByZero else .ok (.int (a / b))
  | .lt => .ok (.bool (a < b))
  | .gt => .ok (.bool (b < a))
  | .eq => .ok (.bool (a = b))
  | .ne => .ok (.bool (a ≠ b))

/-- An infix operator on two strings. -/
def InfixOp.onStrings (a : String) (op : InfixOp) (b : String) : Except EvalFault Value :=
  match op with
  | .add => .ok (.str (a ++ b))
  | .eq => .ok (.bool (a = b))
  | .ne => .ok (.bool (a ≠ b))
  | _ => .error (.unknownInfix .string op .string)

/-- An infix operator on operands that are not both integers and not both strings. -/
def InfixOp.onOthers (l : Value) (op : InfixOp) (r : Value) : Except EvalFault Value :=
  match op with
  | .eq => .ok (.bool (l = r))
  | .ne => .ok (.bool (l ≠ r))
  | _ =>
      if l.kind = r.kind then .error (.unknownInfix l.kind op r.kind)
      else .error (.typeMismatch l.kind op r.kind)

/-- An infix operator on its operands. -/
def InfixOp.apply (l : Value) (op : InfixOp) (r : Value) : Except EvalFault Value :=
  match l, r with
  | .int a, .int b => op.onIntegers a b
  | .str a, .str b => op.onStrings a b
  | l, r => op.onOthers l r

/-- The element of an array at a position from zero on, and null where the array has none. -/
def elementAt (items : List Value) (position : Int64) : Value :=
  if position < 0 then .null else items[position.toInt.toNat]?.getD .null

/-- The value at a position. Only arrays have positions, which are integers. -/
def Value.at (left position : Value) : Except EvalFault Value :=
  match left, position with
  | .array items, .int i => .ok (elementAt items i)
  | v, _ => .error (.notIndexable v.kind)

end TreeWalk
