import TreeWalk.World

/-!
# Runs

Something that can be done in a session. It changes the state and gives a result, or gives none
because it was cut short. What runs do in sequence is stated by equations, so that nobody has to look
inside the state monad.

Results:
1. `run_pure`, `run_bind`, `bind_eq_some`: doing nothing, and one thing after another.
2. `run_raise`: a fault is counted and reported.
3. `run_andThen`, `andThen_assoc`: going on unless there is a sentinel.
-/

namespace TreeWalk

/-- A run in a session. -/
abbrev Run := StateT World Option

namespace Run

/-! ## Sequences -/

theorem run_pure {α : Type} (a : α) (w : World) : (pure a : Run α).run w = some (a, w) := rfl

theorem run_bind {α β : Type} (x : Run α) (f : α → Run β) (w : World) :
    (x >>= f).run w = (x.run w).bind fun r => (f r.1).run r.2 := rfl

theorem run_get (w : World) : (get : Run World).run w = some (w, w) := rfl

/-- A sequence has a result exactly when its first part has one and its second part goes on from
there. -/
theorem bind_eq_some {α β : Type} {x : Run α} {f : α → Run β} {w : World} {r : β × World} :
    (x >>= f).run w = some r ↔ ∃ a w', x.run w = some (a, w') ∧ (f a).run w' = some r := by
  rw [run_bind, Option.bind_eq_some_iff]
  exact ⟨fun ⟨p, hx, hf⟩ => ⟨p.1, p.2, hx, hf⟩, fun ⟨a, w', hx, hf⟩ => ⟨(a, w'), hx, hf⟩⟩

/-! ## Basic runs -/

/-- Reports an event. -/
def record (e : Event) : Run Unit :=
  modify (·.record e)

/-- Counts something that an interpreter did. -/
def tally (i : InterpreterId) (f : Stats → Stats) : Run Unit :=
  modify (·.tally i f)

/-- Makes or changes scopes. -/
def onHeap {α : Type} (f : Heap → α × Heap) : Run α :=
  modifyGet fun w =>
    let r := f w.heap
    (r.1, { w with heap := r.2 })

/-- Reports a fault that the evaluator found. The error value is the result. -/
def raise (me : InterpreterId) (fault : EvalFault) : Run Value := do
  tally me fun s => { s with errorsRaised := s.errorsRaised + 1 }
  record (.notice (.faultRaised fault))
  return fault.toValue

/-- The result of an operation, whose fault is raised. -/
def orRaise (me : InterpreterId) : Except EvalFault Value → Run Value
  | .ok v => pure v
  | .error fault => raise me fault

/-- Does one thing after another with the value of the first. A sentinel is the result of both. -/
def andThen (x : Run Value) (f : Value → Run Value) : Run Value := do
  let v ← x
  if v.isSentinel then pure v else f v

theorem run_raise (me : InterpreterId) (fault : EvalFault) (w : World) :
    (raise me fault).run w =
      some (fault.toValue,
        (w.tally me fun s => { s with errorsRaised := s.errorsRaised + 1 }).record
          (.notice (.faultRaised fault))) := rfl

/-- A sentinel stays, and any other value is gone on with. -/
theorem run_andThen (x : Run Value) (f : Value → Run Value) (w : World) :
    (andThen x f).run w =
      (x.run w).bind fun r => if r.1.isSentinel then some r else (f r.1).run r.2 := by
  simp only [andThen, run_bind]
  congr
  funext r
  split <;> rfl

/-- Going on twice is going on with what goes on. -/
theorem andThen_assoc (x : Run Value) (f g : Value → Run Value) :
    andThen (andThen x f) g = andThen x fun v => andThen (f v) g := by
  funext w
  change (andThen (andThen x f) g).run w = (andThen x fun v => andThen (f v) g).run w
  simp only [run_andThen]
  cases x.run w with
  | none => rfl
  | some r => by_cases sentinel : r.1.isSentinel = true <;> simp [sentinel]

end Run

end TreeWalk
