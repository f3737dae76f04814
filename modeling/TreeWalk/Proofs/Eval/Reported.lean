import TreeWalk.Proofs.Eval.Alongside

/-!
# Reported events

What a run reports is added to the log, in the order in which it happens. Between two states of a
run lie the events by which the later log is longer.

Results:
1. `World.reported_raised`, `World.reported_entered` and the like: what each step reports.
2. `HeapInvariant.reporting`: what can be said of all events of a run, where an invariant of the
   heap keeps certain faults from happening.
-/

namespace TreeWalk

/-! ## Events between two states -/

/-- From `w` to `x` the events were reported, in this order. -/
def World.Reported (w : World) (events : List Event) (x : World) : Prop :=
  x.log.toList = w.log.toList ++ events

/-- All events from `w` to `x` satisfy `P`. -/
def World.OnlyReports (P : Event → Prop) (w x : World) : Prop :=
  ∃ events, w.Reported events x ∧ ∀ e ∈ events, P e

/-- The events of a standard builtin. Only a failure is reported. -/
def Standard.events : Except BuiltinFault Value → List Event
  | .ok _ => []
  | .error fault => [.notice (.builtinFailed fault)]

/-- The notice of the scope of a call. -/
def World.scopeNotice (w : World) (f : Closure) (args : List Value) : Notice :=
  let heap := (w.heap.callScope f args).2
  .scopeEntered (heap.names w.heap.next) (heap.depth w.heap.next)

namespace World

variable {w x y : World} {events more : List Event}

theorem Reported.refl (w : World) : w.Reported [] w :=
  (List.append_nil _).symm

theorem Reported.trans (first : w.Reported events x) (next : x.Reported more y) :
    w.Reported (events ++ more) y := by
  rw [Reported] at first next ⊢
  rw [next, first, List.append_assoc]

/-- What was reported between two states is determined by them. -/
theorem Reported.unique (h : w.Reported events x) (k : w.Reported more x) : events = more :=
  List.append_cancel_left (h.symm.trans k)

theorem reported_record (w : World) (e : Event) : w.Reported [e] (w.record e) :=
  Array.toList_push

theorem reported_raised (w : World) (me : InterpreterId) (fault : EvalFault) :
    w.Reported [.notice (.faultRaised fault)] (w.raised me fault) :=
  Array.toList_push

theorem reported_calling (w : World) (me : InterpreterId) (b : Builtin) (count : Nat) :
    w.Reported [.notice (.builtinCalled b.name count)] (w.calling me b count) :=
  Array.toList_push

theorem reported_computed (w : World) (owner : InterpreterId) (op : Standard) (args : List Value) :
    w.Reported (Standard.events ((w.interpreter owner).compute op args).1)
      (w.computed owner op args) := by
  rw [World.computed]
  cases ((w.interpreter owner).compute op args).1 with
  | ok v => exact (List.append_nil _).symm
  | error fault => exact Array.toList_push

theorem reported_entered (w : World) (me : InterpreterId) (f : Closure) (args : List Value) :
    w.Reported [.enter (f.span w.heap), .notice (w.scopeNotice f args)] (w.entered me f args) := by
  show ((w.log.push _).push _).toList = _
  rw [Array.toList_push, Array.toList_push, List.append_assoc]
  rfl

theorem OnlyReports.refl (P : Event → Prop) (w : World) : OnlyReports P w w :=
  ⟨[], .refl w, List.forall_mem_nil P⟩

theorem OnlyReports.add {P : Event → Prop} (only : OnlyReports P w x) (next : x.Reported more y)
    (all : ∀ e ∈ more, P e) : OnlyReports P w y := by
  obtain ⟨events, reported, before⟩ := only
  exact ⟨events ++ more, reported.trans next, List.forall_mem_append.mpr ⟨before, all⟩⟩

end World

/-! ## All events of a run -/

section Reporting

variable {host : Host} {γ : Type} [Preorder γ] {P : Event → Prop}

/-- The event that the evaluator found a fault. -/
def Event.raises (e : Event) (fault : EvalFault) : Prop :=
  e = .notice (.faultRaised fault)

/-- The fault of the evaluator that an event reports. -/
def Event.raised? : Event → Option EvalFault
  | .notice (.faultRaised fault) => some fault
  | _ => none

theorem Event.not_raises {e : Event} (other : e.raised? = none) (fault : EvalFault) :
    ¬ e.raises fault := by
  intro raises
  rw [raises] at other
  cases other

/-- What a builtin reports is no fault of the evaluator. -/
theorem onlyReports_callBuiltin (ordinary : ∀ e : Event, e.raised? = none → P e) {b : Builtin}
    {args : List Value} {w w' : World} {v : Value}
    (result : (callBuiltin host b args).run w = some (v, w')) : w.OnlyReports P w' := by
  cases b with
  | standard owner op =>
    rw [callBuiltin, run_standard] at result
    cases result
    refine ⟨_, w.reported_computed owner op args, ?_⟩
    cases ((w.interpreter owner).compute op args).1 with
    | ok v => exact List.forall_mem_nil P
    | error fault => exact List.forall_mem_singleton.mpr (ordinary _ rfl)
  | host id name =>
    cases result
    exact .refl P w

/-- All events satisfy `P`, alongside an invariant of the heap: those that raise no fault do anyhow,
and the others where the invariant lets the fault happen. -/
def HeapInvariant.reporting (I : HeapInvariant host γ) (me : InterpreterId)
    (ordinary : ∀ e : Event, e.raised? = none → P e)
    (raised : ∀ {g h fault}, I.Holds g h →
      (∀ name, fault = .unbound name → ∃ s, I.Allows g s (.look name) ∧
        h.resolve s name = none ∧ Standard.named? name = none) →
      P (.notice (.faultRaised fault)))
    (start : World) : Alongside I me where
  State := start.OnlyReports P
  Result _ := start.OnlyReports P
  ofData only _ := only
  ofReturn only := only
  goOn only _ := only
  bind only := only
  fault {g w f} only holds missing :=
    only.add (w.reported_raised me f) (List.forall_mem_singleton.mpr (raised holds missing))
  builtin {g b args w v w'} only _ result := by
    have called := only.add (w.reported_calling me b args.length)
      (List.forall_mem_singleton.mpr (ordinary _ rfl))
    obtain ⟨events, reported, satisfied⟩ := onlyReports_callBuiltin ordinary result
    exact called.add reported satisfied
  enter {f args w} only := by
    refine only.add (w.reported_entered me f args) ?_
    simp only [List.forall_mem_cons]
    exact ⟨ordinary _ rfl, ordinary _ rfl, List.forall_mem_nil P⟩
  leave {g v w} span _ only :=
    only.add (w.reported_record (.leave span))
      (List.forall_mem_singleton.mpr (ordinary _ rfl))

/-- A program that keeps an invariant of the heap reports events that satisfy `P` only. -/
theorem HeapInvariant.onlyReports_evalProgram (I : HeapInvariant host γ) {me : InterpreterId}
    (ordinary : ∀ e : Event, e.raised? = none → P e)
    (raised : ∀ {g h fault}, I.Holds g h →
      (∀ name, fault = .unbound name → ∃ s, I.Allows g s (.look name) ∧
        h.resolve s name = none ∧ Standard.named? name = none) →
      P (.notice (.faultRaised fault)))
    {depth : Nat} {g : γ} {s : ScopeId} {program : Program Origin} {w w' : World} {v : Value}
    (holds : I.Holds g w.heap) (allowed : ∀ use ∈ Block.uses program, I.Allows g s use)
    (result : (TreeWalk.evalProgram host me depth s program).run w = some (v, w')) :
    w.OnlyReports P w' := by
  have opened : w.OnlyReports P (w.record (.enter (.program program.length))) :=
    (World.OnlyReports.refl P w).add (w.reported_record _)
      (List.forall_mem_singleton.mpr (ordinary _ rfl))
  exact (I.reporting me ordinary raised w).evalProgram holds allowed opened result

end Reporting

end TreeWalk
