import TreeWalk.Proofs.Eval.Walk

/-!
# Watching an evaluation

What happens in an evaluation at which moment cannot be told from its result. So here the evaluator
walks over a monad that keeps the state after each basic run: `walkProgram Watched.step`.

Results:
1. `Watched.runAfter_step`, `Watched.runAfter_bind`: a step, and one thing after another.
2. `Watched.runAfter_builtin`, `Watched.runAfter_body`, `Watched.runAfter_span`: builtins, and what
   is around bodies.
-/

namespace TreeWalk

open Run

/-- A run that keeps the states through which it goes, in their order. -/
abbrev Watched := StateT (List World) Run

namespace Watched

/-- Runs after some moments, from a state. -/
def runAfter {α : Type} (x : Watched α) (moments : List World) (w : World) :
    Option ((α × List World) × World) :=
  (x.run moments).run w

/-- One step, after which the state is kept. -/
def step {α : Type} (x : Run α) : Watched α := fun moments w =>
  (x.run w).map fun r => ((r.1, moments ++ [r.2]), r.2)

/-- The end of a span, and what becomes of the value of what was done in it. -/
def leave (finish : Value → Value) (span : Span) (r : (Value × List World) × World) :
    (Value × List World) × World :=
  ((finish r.1.1, r.1.2 ++ [r.2.record (.leave span)]), r.2.record (.leave span))

variable {α β : Type} (moments : List World) (w : World)

theorem runAfter_step (x : Run α) :
    (step x).runAfter moments w = (x.run w).map fun r => ((r.1, moments ++ [r.2]), r.2) := rfl

theorem runAfter_bind (x : Watched α) (f : α → Watched β) :
    (x >>= f).runAfter moments w =
      (x.runAfter moments w).bind fun r => (f r.1.1).runAfter r.1.2 r.2 := rfl

end Watched

/-! ## Steps of calls -/

namespace World

/-- The states in which a call of a builtin was counted, and was reported. -/
def callingSteps (w : World) (me : InterpreterId) (b : Builtin) (count : Nat) : List World :=
  [w.tally me fun s => { s with builtinCalls := s.builtinCalls + 1 }, w.calling me b count]

/-- The states in which a call of a closure has opened its span, was counted, has made its scope,
and has reported it. -/
def enteringSteps (w : World) (me : InterpreterId) (f : Closure) (args : List Value) :
    List World :=
  let opened := w.record (.enter (f.span w.heap))
  let counted := opened.tally me fun s => { s with functionCalls := s.functionCalls + 1 }
  [opened, counted, { counted with heap := (w.heap.callScope f args).2 }, w.entered me f args]

end World

namespace Watched

variable (me : InterpreterId) (moments : List World) (w : World)

theorem runAfter_builtin (host : Host) (b : Builtin) (args : List Value) :
    (walkBuiltin step host me b args).runAfter moments w =
      (step (callBuiltin host b args)).runAfter (moments ++ w.callingSteps me b args.length)
        (w.calling me b args.length) := by
  rw [World.callingSteps, List.append_cons]
  rfl

theorem runAfter_body (f : Closure) (args : List Value) (body : ScopeId → Watched Value) :
    (walkBody step me f args body).runAfter moments w =
      ((body w.heap.next).runAfter (moments ++ w.enteringSteps me f args)
        (w.entered me f args)).map (leave Value.unwrapReturn (f.span w.heap)) := by
  rw [World.enteringSteps, List.append_cons, List.append_cons, List.append_cons,
    Option.map_eq_bind]
  rfl

theorem runAfter_span (span : Span) (body : Watched Value) :
    (walkSpan step span body).runAfter moments w =
      (body.runAfter (moments ++ [w.record (.enter span)]) (w.record (.enter span))).map
        (leave id span) := by
  rw [Option.map_eq_bind]
  rfl

end Watched

end TreeWalk
