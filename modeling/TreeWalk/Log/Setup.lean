import TreeWalk.Log.Event

/-!
# Setting up a log

A program keeps a log of its events if its user asks for one by a setting. Which events a filter lets
through, how filters are spelled and how lines are worded is up to the library that keeps the log, and
is a parameter here (`Logging`). This module says when there is a log at all.

Results:
1. `Tracing.setUp_setUp`, `Tracing.repeat_setUp`: to ask again changes nothing.
2. `Tracing.listener_setUp_none`, `Tracing.listener_setUp_of_taken`: without a setting there is no log,
   and whoever listens already goes on listening.
-/

namespace TreeWalk

/-! ## Logs and listeners -/

/-- What a library that keeps logs does with settings and events. -/
structure Logging (Filter : Type) where
  /-- Reads a filter, if the text is one. -/
  read? : String → Option Filter
  /-- Reads a filter from a text, without the parts of it that cannot be read. -/
  readLossy : String → Filter
  /-- The lines that a filter lets through of some events. -/
  lines : Filter → List Event → List String

/-- Who receives the events of a program. -/
inductive Listener (Filter : Type) where
  /-- Nobody does. -/
  | nobody
  /-- The host receives all of them. -/
  | host
  /-- A log receives those that a filter lets through. -/
  | log (filter : Filter)

/-- What was set up so far. -/
structure Tracing (Filter : Type) where
  /-- Whether logging was asked for. -/
  asked : Bool
  listener : Listener Filter

variable {Filter : Type} (L : Logging Filter)

/-- The filter of a setting. One that cannot be read stands for warnings. -/
def Logging.filterOf (setting : String) : Filter :=
  (L.read? setting).getD (L.readLossy "warn")

/-- The listener after a log is to be kept by a filter. Whoever listens already goes on listening. -/
def Listener.keep (filter : Filter) : Listener Filter → Listener Filter
  | .nobody => .log filter
  | .host => .host
  | .log other => .log other

namespace Tracing

/-- Asks for a log. Only the first time anything is done, and then only with a setting. -/
def setUp (setting : Option String) (t : Tracing Filter) : Tracing Filter :=
  if t.asked then t
  else
    let listener := match setting with
      | none => t.listener
      | some text => t.listener.keep (L.filterOf text)
    ⟨true, listener⟩

/-- The lines that the log of a program has. -/
def lines (t : Tracing Filter) (events : List Event) : List String :=
  match t.listener with
  | .log filter => L.lines filter events
  | _ => []

/-! ## Asking for a log -/

variable (t : Tracing Filter)

@[simp] theorem asked_setUp (setting : Option String) : (t.setUp L setting).asked = true := by
  unfold setUp
  split
  · next asked => exact asked
  · rfl

/-- To ask again changes nothing, whatever the setting is by then. -/
theorem setUp_setUp (setting later : Option String) :
    (t.setUp L setting).setUp L later = t.setUp L setting :=
  if_pos (t.asked_setUp L setting)

/-- To ask any number of times is to ask once. -/
theorem repeat_setUp (setting : Option String) (times : Nat) :
    Nat.repeat (setUp L setting) (times + 1) t = t.setUp L setting := by
  induction times with
  | zero => rfl
  | succ times ih => rw [Nat.repeat, ih, setUp_setUp]

/-- Without a setting nobody comes to listen. -/
theorem listener_setUp_none : (t.setUp L none).listener = t.listener := by
  rw [setUp]
  split <;> rfl

/-- Whoever listens already goes on listening. -/
theorem listener_setUp_of_taken {t : Tracing Filter} (taken : t.listener ≠ .nobody)
    (setting : Option String) : (t.setUp L setting).listener = t.listener := by
  unfold setUp
  split
  · rfl
  · cases setting with
    | none => rfl
    | some text =>
      show t.listener.keep _ = _
      cases eq : t.listener with
      | nobody => exact absurd eq taken
      | host | log => rfl

end Tracing

end TreeWalk
