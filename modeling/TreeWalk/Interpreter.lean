import TreeWalk.Config
import TreeWalk.Sink

/-!
# Interpreters

An interpreter has a configuration, a sink for what `puts` writes, and counts of what it did. It
has no scopes of its own: those are shared by all interpreters of a session.

The law of the collection is `Interpreters.get_update`: an update of one interpreter is seen by
that interpreter alone.
-/

namespace TreeWalk

/-! ## One interpreter -/

/-- What an interpreter has done since it was made or since its counts were reset. -/
structure Stats where
  /-- Calls of user functions. -/
  functionCalls : Nat
  /-- Calls of builtins. -/
  builtinCalls : Nat
  /-- Faults that the evaluator found. -/
  errorsRaised : Nat
  deriving DecidableEq, Repr

def Stats.zero : Stats :=
  ⟨0, 0, 0⟩

/-- An interpreter: how it is configured, where its `puts` writes, and what it has done. -/
structure Interpreter where
  config : Config
  sink : Sink
  stats : Stats
  deriving DecidableEq, Repr

/-- A new interpreter of a configuration and a sink. -/
def Interpreter.new (config : Config) (sink : Sink) : Interpreter :=
  ⟨config, sink, .zero⟩

instance : Inhabited Interpreter :=
  ⟨Interpreter.new default default⟩

/-- A value as the user of an interpreter sees it. -/
def Interpreter.render (i : Interpreter) (v : Value) : String :=
  v.render i.config.style

/-- The names of the builtins of an interpreter, in alphabetical order. -/
def Interpreter.builtinNames (_ : Interpreter) : List String :=
  Standard.names

/-! ## The interpreters of a session -/

/-- The interpreters of a session. One that was not made yet is a new one of the default
configuration. -/
structure Interpreters where
  made : List Interpreter

namespace Interpreters

/-- No interpreter was made yet. -/
def empty : Interpreters :=
  ⟨[]⟩

def get (t : Interpreters) (i : InterpreterId) : Interpreter :=
  t.made.getD i.index default

/-- Changes one element of a list that goes on with default elements for ever. -/
def updateAt (f : Interpreter → Interpreter) : Nat → List Interpreter → List Interpreter
  | 0, [] => [f default]
  | 0, x :: xs => f x :: xs
  | n + 1, [] => default :: updateAt f n []
  | n + 1, x :: xs => x :: updateAt f n xs

/-- Changes one interpreter. -/
def update (t : Interpreters) (i : InterpreterId) (f : Interpreter → Interpreter) : Interpreters :=
  ⟨updateAt f i.index t.made⟩

/-- The interpreter that will be made next. -/
def next (t : Interpreters) : InterpreterId :=
  ⟨t.made.length⟩

/-- Adds an interpreter, which is `t.next`. -/
def add (t : Interpreters) (x : Interpreter) : Interpreters :=
  ⟨t.made ++ [x]⟩

theorem getD_updateAt (f : Interpreter → Interpreter) (n m : Nat) (xs : List Interpreter) :
    (updateAt f n xs).getD m default =
      if m = n then f (xs.getD n default) else xs.getD m default := by
  induction n generalizing m xs with
  | zero => cases xs <;> cases m <;> simp [updateAt]
  | succ n ih =>
    cases xs with
    | nil =>
      cases m with
      | zero => simp [updateAt]
      | succ m => simpa [updateAt] using ih m []
    | cons x xs =>
      cases m with
      | zero => simp [updateAt]
      | succ m => simpa [updateAt] using ih m xs

/-- A change of one interpreter is a change of no other. -/
theorem get_update (t : Interpreters) (i j : InterpreterId) (f : Interpreter → Interpreter) :
    (t.update i f).get j = if j = i then f (t.get i) else t.get j := by
  obtain ⟨i⟩ := i
  obtain ⟨j⟩ := j
  simp only [get, update, getD_updateAt, InterpreterId.mk.injEq]

end Interpreters

end TreeWalk
