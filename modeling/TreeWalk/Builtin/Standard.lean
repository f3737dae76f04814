import TreeWalk.Run

/-!
# Standard builtins

What the builtins do that every interpreter has. All of them check the number of their arguments
before the kinds. Those on arrays make new arrays and leave their arguments as they are. `puts`
alone has an effect, on the sink of the interpreter that owns it.
-/

namespace TreeWalk

/-! ## Strings and arrays -/

namespace Standard

/-- The length of a string in characters, or of an array. -/
def length : List Value → Except BuiltinFault Value
  | [.str text] => .ok (.int (Int64.ofNat text.length))
  | [.array items] => .ok (.int (Int64.ofNat items.length))
  | [v] => .error (.unsupported len.name v.kind)
  | args => .error (.wrongCount args.length 1)

/-- A builtin on one array. -/
def onArray (op : Standard) (f : List Value → Value) : List Value → Except BuiltinFault Value
  | [.array items] => .ok (f items)
  | [v] => .error (.notArray op.name v.kind)
  | args => .error (.wrongCount args.length 1)

/-- The first of some values, or null. -/
def firstOf (items : List Value) : Value :=
  items.head?.getD .null

/-- The last of some values, or null. -/
def lastOf (items : List Value) : Value :=
  items.getLast?.getD .null

/-- An array of all values but the first, or null where there is no first. -/
def restOf : List Value → Value
  | [] => .null
  | _ :: items => .array items

/-- An array with a value added at its end. -/
def append : List Value → Except BuiltinFault Value
  | [.array items, v] => .ok (.array (items ++ [v]))
  | [v, _] => .error (.notArray push.name v.kind)
  | args => .error (.wrongCount args.length 2)

end Standard

/-! ## Output -/

/-- Writes each argument on a line of its own, and flushes. A silent interpreter does neither. -/
def Interpreter.puts (i : Interpreter) (args : List Value) :
    Except BuiltinFault Value × Interpreter :=
  if i.config.silent then (.ok .null, i)
  else
    match i.sink.writeLines (args.map i.render) with
    | (some reason, sink) => (.error (.output reason), { i with sink := sink })
    | (none, sink) =>
        match sink.flush with
        | (some reason, sink) => (.error (.output reason), { i with sink := sink })
        | (none, sink) => (.ok .null, { i with sink := sink })

/-! ## All of them -/

/-- The result of a standard builtin of an interpreter, and the interpreter after it. -/
def Interpreter.compute (i : Interpreter) (op : Standard) (args : List Value) :
    Except BuiltinFault Value × Interpreter :=
  match op with
  | .len => (Standard.length args, i)
  | .first => (op.onArray Standard.firstOf args, i)
  | .last => (op.onArray Standard.lastOf args, i)
  | .rest => (op.onArray Standard.restOf args, i)
  | .push => (Standard.append args, i)
  | .puts => i.puts args

namespace Run

/-- The value of a standard builtin of an interpreter. A failure is reported, and its error value
is the result. -/
def standard (owner : InterpreterId) (op : Standard) (args : List Value) : Run Value := do
  let result ← modifyGet fun w =>
    let r := (w.interpreter owner).compute op args
    (r.1, w.update owner fun _ => r.2)
  match result with
  | .ok v => return v
  | .error fault => do
      record (.notice (.builtinFailed fault))
      return fault.toValue

end Run

end TreeWalk
