import TreeWalk.Proofs.Eval.Reported

/-!
# Spans and errors of events

What can be read off the events of a run: the errors that were reported, and the spans that were
entered and not left. The latter form a stack, with the innermost span first.

Results:
1. `Opens.append`: what two parts of a run leave open.
2. `World.leaving`, `World.leaveAll`: leaving spans one after another.
-/

namespace TreeWalk

/-! ## Errors -/

/-- The error value of the fault that an event reports, be it of the evaluator or of a standard
builtin. -/
def Event.error? : Event → Option Value
  | .notice (.faultRaised fault) => some fault.toValue
  | .notice (.builtinFailed fault) => some fault.toValue
  | _ => none

/-- The errors that some events report. -/
def errorsOf (events : List Event) : List Value :=
  events.filterMap Event.error?

@[simp] theorem errorsOf_append (events more : List Event) :
    errorsOf (events ++ more) = errorsOf events ++ errorsOf more :=
  List.filterMap_append

/-! ## Open spans -/

/-- The open spans after an event. -/
def Event.spans (stack : List Span) : Event → List Span
  | .enter span => span :: stack
  | .leave _ => stack.tail
  | .notice _ => stack

/-- The open spans after some events, of which the first are open before. -/
def spansAfter (stack : List Span) (events : List Event) : List Span :=
  events.foldl Event.spans stack

theorem spansAfter_append (stack : List Span) (events more : List Event) :
    spansAfter stack (events ++ more) = spansAfter (spansAfter stack events) more :=
  List.foldl_append

/-- Some events leave these spans open, whatever was open before. -/
def Opens (events : List Event) (spans : List Span) : Prop :=
  ∀ stack, spansAfter stack events = spans ++ stack

theorem Opens.append {events more : List Event} {spans inner : List Span}
    (first : Opens events spans) (next : Opens more inner) :
    Opens (events ++ more) (inner ++ spans) := by
  intro stack
  rw [spansAfter_append, first, next, List.append_assoc]

/-- A span that is left after all spans within it is open no more. -/
theorem Opens.leave {events : List Event} {span : Span} (opens : Opens events [span]) :
    Opens (events ++ [.leave span]) [] := by
  intro stack
  rw [spansAfter_append, opens]
  rfl

/-! ## Leaving spans -/

namespace World

/-- The state in which some spans were left, one after another. -/
def leaveAll (w : World) (spans : List Span) : World :=
  spans.foldl (fun x span => x.record (.leave span)) w

/-- The states in which more and more of some spans were left. -/
def leaving (w : World) : List Span → List World
  | [] => []
  | span :: spans => w.record (.leave span) :: (w.record (.leave span)).leaving spans

theorem leaveAll_append (w : World) (spans more : List Span) :
    w.leaveAll (spans ++ more) = (w.leaveAll spans).leaveAll more :=
  List.foldl_append

theorem leaving_append (w : World) (spans more : List Span) :
    w.leaving (spans ++ more) = w.leaving spans ++ (w.leaveAll spans).leaving more := by
  induction spans generalizing w with
  | nil => rfl
  | cons span spans ih =>
    rw [List.cons_append, leaving, leaving, List.cons_append, ih]
    rfl

/-- Leaving spans is all that is reported while they are left. -/
theorem reported_leaveAll (w : World) (spans : List Span) :
    w.Reported (spans.map .leave) (w.leaveAll spans) := by
  induction spans generalizing w with
  | nil => exact .refl w
  | cons span spans ih => exact (w.reported_record _).trans (ih _)

theorem interpreter_leaveAll (w : World) (spans : List Span) (i : InterpreterId) :
    (w.leaveAll spans).interpreter i = w.interpreter i := by
  induction spans generalizing w with
  | nil => rfl
  | cons span spans ih => exact ih _

end World

theorem errorsOf_leave (spans : List Span) : errorsOf (spans.map .leave) = [] := by
  rw [errorsOf, List.filterMap_eq_nil_iff]
  intro e mem
  obtain ⟨span, -, rfl⟩ := List.mem_map.mp mem
  rfl

end TreeWalk
