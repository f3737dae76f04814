import TreeWalk.Proofs.Eval.Course
import TreeWalk.Proofs.Eval.Reported

/-!
# Counts and events

An interpreter counts the calls of functions and of builtins and the faults that it finds, and all of
these are reported as well. So its counts grow by what can be counted in the log, and by nothing
else. Scopes are made for calls of functions only, so their number grows with the count of those.

Results:
1. `World.Counted.trans`: two runs one after the other.
2. `counting`: counts and scopes agree with the log, as a course of every run.
3. `counted_evalProgram`, `counted_applyValue`: programs and calls count what they report.
-/

namespace TreeWalk

/-! ## Events that are counted -/

namespace Event

/-- The body of a user function is entered. -/
def isCall : Event → Bool
  | .enter (.application _ _) => true
  | _ => false

/-- The scope of a call was made. -/
def isCallScope : Event → Bool
  | .notice (.scopeEntered _ _) => true
  | _ => false

/-- A builtin is called. -/
def isBuiltinCall : Event → Bool
  | .notice (.builtinCalled _ _) => true
  | _ => false

/-- The evaluator found a fault. -/
def isFault : Event → Bool
  | .notice (.faultRaised _) => true
  | _ => false

end Event

/-- The counts after some events. -/
def Stats.after (s : Stats) (events : List Event) : Stats where
  functionCalls := s.functionCalls + events.countP Event.isCall
  builtinCalls := s.builtinCalls + events.countP Event.isBuiltinCall
  errorsRaised := s.errorsRaised + events.countP Event.isFault

theorem Stats.after_append (s : Stats) (events more : List Event) :
    s.after (events ++ more) = (s.after events).after more := by
  simp only [after, List.countP_append, Nat.add_assoc]

/-- The events of a standard builtin are not counted. -/
theorem Stats.after_events (s : Stats) (r : Except BuiltinFault Value) :
    s.after (Standard.events r) = s := by
  cases r <;> rfl

theorem World.stats_tally (w : World) (me i : InterpreterId) (f : Stats → Stats) :
    ((w.tally me f).interpreter i).stats =
      if i = me then f (w.interpreter i).stats else (w.interpreter i).stats := by
  rw [tally, interpreter_update]
  by_cases mine : i = me
  · rw [if_pos mine, if_pos mine, mine]
  · rw [if_neg mine, if_neg mine]

/-! ## Counts between two states -/

/-- From `w` to `x` the interpreter counted the events, which were reported, and no other interpreter
counted any; and for each call of a function there is one scope more. -/
structure World.Counted (me : InterpreterId) (w : World) (events : List Event) (x : World) :
    Prop where
  reported : w.Reported events x
  stats : ∀ i, (x.interpreter i).stats =
    if i = me then (w.interpreter i).stats.after events else (w.interpreter i).stats
  size : x.heap.size = w.heap.size + events.countP Event.isCall

namespace World

variable {me : InterpreterId} {w x y : World} {events more : List Event}

theorem Counted.trans (first : w.Counted me events x) (next : x.Counted me more y) :
    w.Counted me (events ++ more) y where
  reported := first.reported.trans next.reported
  stats i := by
    rw [next.stats, first.stats, Stats.after_append]
    split <;> rfl
  size := by
    rw [next.size, first.size, List.countP_append, Nat.add_assoc]

/-- What is not reported is not counted, if it makes no scope. -/
theorem counted_of_log (log : x.log = w.log)
    (stats : ∀ i, (x.interpreter i).stats = (w.interpreter i).stats)
    (size : x.heap.size = w.heap.size) : w.Counted me [] x where
  reported := by rw [Reported, log, List.append_nil]
  stats i := by
    rw [stats]
    split <;> rfl
  size := size

/-- Something is counted and reported. -/
theorem counted_notice (w : World) {f : Stats → Stats} {what : Notice}
    (counts : ∀ s : Stats, s.after [.notice what] = f s) :
    w.Counted me [.notice what] ((w.tally me f).record (.notice what)) where
  reported := (w.tally me f).reported_record _
  stats i := by
    rw [counts]
    exact w.stats_tally me i f
  size := rfl

theorem counted_raised (w : World) (fault : EvalFault) :
    w.Counted me [.notice (.faultRaised fault)] (w.raised me fault) :=
  w.counted_notice fun _ => rfl

theorem counted_calling (w : World) (b : Builtin) (count : Nat) :
    w.Counted me [.notice (.builtinCalled b.name count)] (w.calling me b count) :=
  w.counted_notice fun _ => rfl

theorem counted_computed (w : World) (owner : InterpreterId) (op : Standard) (args : List Value) :
    w.Counted me (Standard.events ((w.interpreter owner).compute op args).1)
      (w.computed owner op args) where
  reported := w.reported_computed owner op args
  stats i := by
    rw [Stats.after_events, ite_self, interpreter_computed]
    split
    · next mine => rw [Interpreter.stats_compute, mine]
    · rfl
  size := by
    rw [heap_computed]
    cases ((w.interpreter owner).compute op args).1 <;> rfl

theorem counted_entered (w : World) (f : Closure) (args : List Value) :
    w.Counted me [.enter (f.span w.heap), .notice (w.scopeNotice f args)]
      (w.entered me f args) where
  reported := w.reported_entered me f args
  stats i := (w.record (.enter (f.span w.heap))).stats_tally me i
    fun s => { s with functionCalls := s.functionCalls + 1 }
  size := by
    rw [heap_entered, Heap.callScope, Heap.size_allocate]
    rfl

/-- An event that is not counted is reported, such as that a span is left. -/
theorem counted_record (w : World) {e : Event} (uncounted : ∀ s : Stats, s.after [e] = s)
    (noCall : e.isCall = false) : w.Counted me [e] (w.record e) where
  reported := w.reported_record e
  stats i := by
    rw [uncounted]
    exact (ite_self _).symm
  size := by
    rw [List.countP_singleton, noCall]
    rfl

theorem counted_leave (w : World) (span : Span) :
    w.Counted me [.leave span] (w.record (.leave span)) :=
  w.counted_record (fun _ => rfl) rfl

theorem counted_enterProgram (w : World) (statements : Nat) :
    w.Counted me [.enter (.program statements)] (w.record (.enter (.program statements))) :=
  w.counted_record (fun _ => rfl) rfl

/-- What a builtin does itself is not counted. -/
theorem counted_callBuiltin {host : Host} {b : Builtin} {args : List Value} {v : Value}
    (result : (callBuiltin host b args).run w = some (v, x)) : ∃ events, w.Counted me events x := by
  cases b with
  | standard owner op =>
    rw [callBuiltin, run_standard] at result
    cases result
    exact ⟨_, w.counted_computed owner op args⟩
  | host id name =>
    cases result
    exact ⟨[], counted_of_log rfl (fun _ => rfl) rfl⟩

end World

/-! ## All runs -/

/-- Every run counts what it reports. -/
def counting (host : Host) (me : InterpreterId) : Course (HeapInvariant.any host OneStage) me where
  Rel w x := ∃ events, w.Counted me events x
  refl w := ⟨[], World.counted_of_log rfl (fun _ => rfl) rfl⟩
  trans := by
    rintro w x y ⟨events, first⟩ ⟨more, next⟩
    exact ⟨_, first.trans next⟩
  define w s name v := ⟨[], World.counted_of_log rfl (fun _ => rfl) (Heap.size_define _ _ _ _)⟩
  raised w fault := ⟨_, w.counted_raised fault⟩
  builtin {b args w v w'} result := by
    obtain ⟨events, counted⟩ := World.counted_callBuiltin result
    exact ⟨_, (w.counted_calling b args.length).trans counted⟩
  call {_ f args _ w w'} _ _ _ _ := by
    rintro ⟨events, body⟩
    exact ⟨_, ((w.counted_entered f args).trans body).trans (w'.counted_leave _)⟩

section Runs

variable {host : Host} {me : InterpreterId} {depth : Nat} {w w' : World} {v : Value}
variable {events : List Event}

/-- The statements of a block count what they report. -/
theorem counted_evalBlock {s : ScopeId} {block : Block Origin}
    (result : (evalBlock host me (invoke host me depth) s .null block).run w = some (v, w'))
    (reported : w.Reported events w') : w.Counted me events w' := by
  obtain ⟨more, counted⟩ :=
    (counting host me).evalBlock (g := .only) trivial (fun _ _ => trivial) result
  rwa [reported.unique counted.reported]

/-- Some events are counted in the course of a program. -/
theorem exists_counted_evalProgram {s : ScopeId} {program : Program Origin}
    (result : (evalProgram host me depth s program).run w = some (v, w')) :
    ∃ events, w.Counted me events w' := by
  obtain ⟨x, ⟨events, counted⟩, rfl⟩ :=
    (counting host me).evalProgram (g := .only) trivial (fun _ _ => trivial) result
  exact ⟨_, ((w.counted_enterProgram program.length).trans counted).trans
    (x.counted_leave (.program program.length))⟩

/-- A program counts what it reports. -/
theorem counted_evalProgram {s : ScopeId} {program : Program Origin}
    (result : (evalProgram host me depth s program).run w = some (v, w'))
    (reported : w.Reported events w') : w.Counted me events w' := by
  obtain ⟨more, counted⟩ := exists_counted_evalProgram result
  rwa [reported.unique counted.reported]

/-- Some events are counted in the course of a call. -/
theorem exists_counted_applyValue {callee : Value} {args : List Value}
    (result : (applyValue host me depth callee args).run w = some (v, w')) :
    ∃ events, w.Counted me events w' :=
  (counting host me).call_rel (g := .only) trivial trivial (fun _ _ => trivial) result

/-- A call counts what it reports. -/
theorem counted_applyValue {callee : Value} {args : List Value}
    (result : (applyValue host me depth callee args).run w = some (v, w'))
    (reported : w.Reported events w') : w.Counted me events w' := by
  obtain ⟨more, counted⟩ := exists_counted_applyValue result
  rwa [reported.unique counted.reported]

end Runs

end TreeWalk
