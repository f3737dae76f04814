import TreeWalk.Proofs.Eval.Equations
import TreeWalk.Proofs.Sink.Writing

/-!
# A limit on a sink

Two states that differ in the limit of one sink: in one of them it takes everything, and in the
other it takes a certain number of bytes in all. As long as no more than that were written the
states go on to differ in the limit alone. When more was written the limited sink is full, with as
much of it as went in.

Results:
1. `Interpreter.compute_limit`: a standard builtin with and without the limit.
2. `World.Limited`, `World.Within`, `World.Exceeded`: the states before and after the limit was
   exceeded.
-/

namespace TreeWalk

/-! ## One interpreter -/

/-- The same sink, which accepts so many bytes in all and then refuses for the reason given. -/
def Sink.limit (k : Sink) (capacity : Nat) (refusal : String) : Sink :=
  { k with capacity := some capacity, refusal := refusal }

/-- The same interpreter with a limit on its sink. -/
def Interpreter.limit (x : Interpreter) (capacity : Nat) (refusal : String) : Interpreter :=
  { x with sink := x.sink.limit capacity refusal }

/-- The result of `puts` when everything was written, which is up to flushing. -/
def Sink.flushed (k : Sink) : Except BuiltinFault Value :=
  match k.flushRefusal with
  | some reason => .error (.output reason)
  | none => .ok .null

/-- The bytes that `puts` is to write. -/
def Interpreter.output (x : Interpreter) (args : List Value) : List UInt8 :=
  lineBytes (args.map x.render)

section Interpreter

variable {x : Interpreter} {args : List Value} {capacity : Nat} {refusal : String}

/-- Where everything fits it is written, and then the sink is flushed. -/
theorem Interpreter.puts_of_fits (loud : x.config.silent = false)
    (fits : x.sink.Fits (x.output args).length) :
    x.puts args =
      (x.sink.flushed, { x with sink := ((x.sink.taken (x.output args)).flush).2 }) := by
  rw [output] at fits ⊢
  rw [puts, loud, if_neg Bool.false_ne_true, Sink.writeLines_eq, Sink.write_of_fits fits]
  simp only [Sink.flush, Sink.taken, Sink.flushed]
  cases x.sink.flushRefusal with
  | some reason => rfl
  | none => rfl

/-- Where not everything fits, the sink refuses when it is full. -/
theorem Interpreter.puts_of_lt (loud : x.config.silent = false)
    (limit : x.sink.capacity = some capacity)
    (lt : capacity - x.sink.received.length < (x.output args).length) :
    x.puts args = (.error (.output x.sink.refusal), { x with
      sink := x.sink.taken ((x.output args).take (capacity - x.sink.received.length)) }) := by
  rw [output] at lt ⊢
  rw [puts, loud, if_neg Bool.false_ne_true, Sink.writeLines_eq, Sink.write_of_lt limit lt]

/-- Without a limit a builtin only ever adds to what was written. -/
theorem Interpreter.compute_grows (free : x.sink.capacity = none) (op : Standard)
    (args : List Value) : (x.compute op args).2.sink.capacity = none ∧
      x.sink.received <+: (x.compute op args).2.sink.received := by
  have fits : x.sink.Fits (x.output args).length := Sink.fits_of_unlimited free _
  cases op with
  | puts =>
    rw [compute]
    cases loud : x.config.silent with
    | true =>
      rw [puts, loud, if_pos rfl]
      exact ⟨free, List.prefix_rfl⟩
    | false =>
      rw [puts_of_fits loud fits]
      exact ⟨free, List.prefix_append _ _⟩
  | len | first | last | rest | push => exact ⟨free, List.prefix_rfl⟩

/-- With a limit a builtin does the same, as long as the limit is not exceeded. If it is, the
builtin fails and the sink is full. -/
theorem Interpreter.compute_limit (free : x.sink.capacity = none)
    (le : x.sink.received.length ≤ capacity) (op : Standard) (args : List Value) :
    (x.limit capacity refusal).compute op args =
        ((x.compute op args).1, (x.compute op args).2.limit capacity refusal) ∧
      (x.compute op args).2.sink.received.length ≤ capacity ∨
    ((x.limit capacity refusal).compute op args).1 = .error (.output refusal) ∧
      ((x.limit capacity refusal).compute op args).2.sink.received.length = capacity ∧
      ((x.limit capacity refusal).compute op args).2.sink.received <+:
        (x.compute op args).2.sink.received ∧
      capacity < (x.compute op args).2.sink.received.length := by
  cases op with
  | puts =>
    rw [compute, compute]
    cases loud : x.config.silent with
    | true =>
      rw [puts, puts, limit, loud, if_pos rfl, if_pos rfl]
      exact .inl ⟨rfl, le⟩
    | false =>
      have fits : x.sink.Fits (x.output args).length := Sink.fits_of_unlimited free _
      rw [puts_of_fits loud fits]
      rcases Nat.lt_or_ge (capacity - x.sink.received.length) (x.output args).length with lt | ge
      · rw [puts_of_lt (x := x.limit capacity refusal) loud rfl lt]
        have part : (x.sink.received ++
            (x.output args).take (capacity - x.sink.received.length)).length = capacity := by
          rw [List.length_append, List.length_take_of_le (Nat.le_of_lt lt)]
          omega
        have whole : capacity < (x.sink.received ++ x.output args).length := by
          rw [List.length_append]
          omega
        exact .inr ⟨rfl, part, List.prefix_append_right_inj _ |>.mpr (List.take_prefix _ _), whole⟩
      · have fitsLimit : (x.limit capacity refusal).sink.Fits (x.output args).length := by
          intro c eq
          cases eq
          exact ge
        rw [puts_of_fits (x := x.limit capacity refusal) loud fitsLimit]
        refine .inl ⟨rfl, ?_⟩
        show (x.sink.received ++ x.output args).length ≤ capacity
        rw [List.length_append]
        omega
  | len | first | last | rest | push => exact .inl ⟨rfl, le⟩

end Interpreter

/-! ## What leaves sinks alone -/

namespace World

variable (w : World) (me i : InterpreterId)

theorem interpreter_record (e : Event) : (w.record e).interpreter i = w.interpreter i := rfl

theorem sink_tally (f : Stats → Stats) :
    ((w.tally me f).interpreter i).sink = (w.interpreter i).sink := by
  rw [World.tally, World.interpreter_update]
  split
  · next mine => rw [mine]
  · rfl

theorem sink_raised (fault : EvalFault) :
    ((w.raised me fault).interpreter i).sink = (w.interpreter i).sink := by
  rw [World.raised, interpreter_record, sink_tally]

theorem sink_calling (b : Builtin) (count : Nat) :
    ((w.calling me b count).interpreter i).sink = (w.interpreter i).sink := by
  rw [World.calling, interpreter_record, sink_tally]

theorem sink_entered (f : Closure) (args : List Value) :
    ((w.entered me f args).interpreter i).sink = (w.interpreter i).sink := by
  rw [World.entered, interpreter_record]
  exact sink_tally (w.record (.enter (f.span w.heap))) me i
    fun s => { s with functionCalls := s.functionCalls + 1 }

end World

/-! ## Two states -/

section States

variable (i : InterpreterId) (capacity : Nat) (refusal : String)

/-- What an interpreter has written. -/
def World.written (w : World) (i : InterpreterId) : List UInt8 :=
  (w.interpreter i).sink.received

/-- The sink of the interpreter takes everything. -/
def World.Unlimited (w : World) (i : InterpreterId) : Prop :=
  (w.interpreter i).sink.capacity = none

/-- The state `u` is `w` with a limit on the sink of an interpreter. -/
structure World.Limited (w u : World) : Prop where
  heap : u.heap = w.heap
  log : u.log = w.log
  own : u.interpreter i = (w.interpreter i).limit capacity refusal
  others : ∀ j, j ≠ i → u.interpreter j = w.interpreter j

/-- The limit was not exceeded. -/
structure World.Within (w u : World) : Prop where
  unlimited : w.Unlimited i
  le : (w.written i).length ≤ capacity
  limited : w.Limited i capacity refusal u

/-- The limit was exceeded, and the limited sink is full. -/
structure World.Exceeded (w u : World) : Prop where
  full : (u.written i).length = capacity
  first : u.written i <+: w.written i
  lt : capacity < (w.written i).length

variable {i capacity refusal} {w u : World}

namespace World

/-- The state with a limit on the sink of an interpreter. -/
def limitOutput (w : World) (i : InterpreterId) (capacity : Nat) (refusal : String) : World :=
  w.update i fun x => x.limit capacity refusal

theorem limited_limitOutput (w : World) (i : InterpreterId) (capacity : Nat) (refusal : String) :
    w.Limited i capacity refusal (w.limitOutput i capacity refusal) := by
  refine ⟨rfl, rfl, ?_, fun j ne => ?_⟩
  · rw [limitOutput, interpreter_update, if_pos rfl]
  · rw [limitOutput, interpreter_update, if_neg ne]

namespace Limited

theorem record (limited : w.Limited i capacity refusal u) (e : Event) :
    (w.record e).Limited i capacity refusal (u.record e) where
  heap := limited.heap
  log := congrArg (·.push e) limited.log
  own := limited.own
  others := limited.others

theorem tally (limited : w.Limited i capacity refusal u) (me : InterpreterId)
    (f : Stats → Stats) : (w.tally me f).Limited i capacity refusal (u.tally me f) where
  heap := limited.heap
  log := limited.log
  own := by
    rw [World.tally, World.tally, interpreter_update, interpreter_update]
    by_cases mine : i = me
    · rw [if_pos mine, if_pos mine, ← mine, limited.own]
      rfl
    · rw [if_neg mine, if_neg mine, limited.own]
  others j ne := by
    rw [World.tally, World.tally, interpreter_update, interpreter_update]
    by_cases mine : j = me
    · rw [if_pos mine, if_pos mine, ← mine, limited.others j ne]
    · rw [if_neg mine, if_neg mine, limited.others j ne]

theorem onHeap (limited : w.Limited i capacity refusal u) (heap : Heap) :
    { w with heap := heap }.Limited i capacity refusal { u with heap := heap } where
  heap := rfl
  log := limited.log
  own := limited.own
  others := limited.others

theorem entered (limited : w.Limited i capacity refusal u) (me : InterpreterId) (f : Closure)
    (args : List Value) :
    (w.entered me f args).Limited i capacity refusal (u.entered me f args) := by
  rw [World.entered, World.entered, limited.heap]
  exact (((limited.record _).tally me _).onHeap _).record _

/-- A standard builtin that gives the same value in both states reports the same. -/
theorem log_computed (limited : w.Limited i capacity refusal u) {owner : InterpreterId}
    {op : Standard} {args : List Value}
    (same : ((u.interpreter owner).compute op args).1 = ((w.interpreter owner).compute op args).1) :
    (u.computed owner op args).log = (w.computed owner op args).log := by
  rw [World.log_computed, World.log_computed, same, limited.log]

/-- What the builtins of other interpreters do has nothing to do with the limit. -/
theorem computed_of_ne (limited : w.Limited i capacity refusal u) {owner : InterpreterId}
    (ne : owner ≠ i) (op : Standard) (args : List Value) :
    (w.computed owner op args).Limited i capacity refusal (u.computed owner op args) where
  heap := by rw [heap_computed, heap_computed, limited.heap]
  log := limited.log_computed (by rw [limited.others owner ne])
  own := by
    rw [interpreter_computed, interpreter_computed, if_neg ne.symm, if_neg ne.symm, limited.own]
  others j other := by
    rw [interpreter_computed, interpreter_computed, limited.others owner ne,
      limited.others j other]

end Limited

/-- What does not touch the interpreter's sink does not touch the limit. -/
theorem Within.of_sink (within : w.Within i capacity refusal u) {w' u' : World}
    (same : (w'.interpreter i).sink = (w.interpreter i).sink)
    (limited : w'.Limited i capacity refusal u') : w'.Within i capacity refusal u' where
  unlimited := (congrArg Sink.capacity same).trans within.unlimited
  le := by
    rw [written, same]
    exact within.le
  limited := limited

/-- When the limited sink is full it does not matter how much more the other one takes. -/
theorem Exceeded.mono (exceeded : w.Exceeded i capacity u) {w' u' : World}
    (grown : w.written i <+: w'.written i)
    (same : (u'.interpreter i).sink = (u.interpreter i).sink) : w'.Exceeded i capacity u' := by
  have written : u'.written i = u.written i := congrArg Sink.received same
  refine ⟨?_, ?_, Nat.lt_of_lt_of_le exceeded.lt grown.length_le⟩
  · rw [written]
    exact exceeded.full
  · rw [written]
    exact exceeded.first.trans grown

/-- A builtin of the interpreter itself does the same with and without the limit, or exceeds it. -/
theorem Within.computed_own (within : w.Within i capacity refusal u) (op : Standard)
    (args : List Value) :
    ((u.interpreter i).compute op args).1 = ((w.interpreter i).compute op args).1 ∧
        (w.computed i op args).Within i capacity refusal (u.computed i op args) ∨
      ((u.interpreter i).compute op args).1 = .error (.output refusal) ∧
        (w.computed i op args).Exceeded i capacity (u.computed i op args) := by
  have limited := within.limited
  have after : ∀ x : World,
      (x.computed i op args).interpreter i = ((x.interpreter i).compute op args).2 := by
    intro x
    rw [interpreter_computed, if_pos rfl]
  have grows := Interpreter.compute_grows within.unlimited op args
  rcases Interpreter.compute_limit within.unlimited within.le op args with ⟨same, le⟩ | beyond
  · rw [← limited.own] at same
    have value := congrArg Prod.fst same
    refine .inl ⟨value, ?_, ?_, ?_, limited.log_computed value, ?_, fun j ne => ?_⟩
    · rw [Unlimited, after]
      exact grows.1
    · rw [written, after]
      exact le
    · rw [heap_computed, heap_computed, limited.heap]
    · rw [after, after, same]
    · rw [interpreter_computed, interpreter_computed, if_neg ne, if_neg ne, limited.others j ne]
  · rw [← limited.own] at beyond
    obtain ⟨failed, full, first, lt⟩ := beyond
    refine .inr ⟨failed, ?_, ?_, ?_⟩
    · rw [written, after]
      exact full
    · rw [written, written, after, after]
      exact first
    · rw [written, after]
      exact lt

end World

end States

end TreeWalk
