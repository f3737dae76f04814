import TreeWalk.Interpreter
import TreeWalk.Log.Event

/-!
# The state of a session

All that an evaluation can read and change: the heap of scopes, the interpreters, and the log. The
heap and the log are shared by all interpreters of a session.
-/

namespace TreeWalk

/-- The state of a session. -/
structure World where
  heap : Heap
  interpreters : Interpreters
  /-- The events in the order in which they happened. -/
  log : Array Event

/-- The state before anything was made. -/
def World.empty : World :=
  ⟨.empty, .empty, #[]⟩

/-- An interpreter of the session. -/
def World.interpreter (w : World) (i : InterpreterId) : Interpreter :=
  w.interpreters.get i

/-- Reports an event. -/
def World.record (w : World) (e : Event) : World :=
  { w with log := w.log.push e }

/-- Changes one interpreter. -/
def World.update (w : World) (i : InterpreterId) (f : Interpreter → Interpreter) : World :=
  { w with interpreters := w.interpreters.update i f }

/-- Counts something that an interpreter did. -/
def World.tally (w : World) (i : InterpreterId) (f : Stats → Stats) : World :=
  w.update i fun x => { x with stats := f x.stats }

/-- An update of one interpreter is seen by that interpreter alone. -/
theorem World.interpreter_update (w : World) (i j : InterpreterId) (f : Interpreter → Interpreter) :
    (w.update i f).interpreter j = if j = i then f (w.interpreter i) else w.interpreter j :=
  Interpreters.get_update w.interpreters i j f

end TreeWalk
