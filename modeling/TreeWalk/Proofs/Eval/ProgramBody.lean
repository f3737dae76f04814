import TreeWalk.Proofs.Eval.Correspondence

/-!
# Programs and bodies of functions

Statements mean the same as a program and as the body of a function without parameters. They run in
loops of their own, but the one takes off the wrapper of what is returned, and for the other the call
does (`run_evalProgram`, `run_invoke`). What is left of the difference is around the loops: a function
makes its scope itself and counts its call.

Results:
1. `recounted`: runs of an interpreter that has counted something else correspond.
2. `program_as_body`: a program in a new scope is a call of a function, but for the count.
-/

namespace TreeWalk

open Run

/-! ## An interpreter that has counted something else -/

/-- The counts do not matter to `puts`. -/
theorem Interpreter.puts_stats (x : Interpreter) (a : Stats) (args : List Value) :
    ({ x with stats := a }).puts args =
      ((x.puts args).1, { (x.puts args).2 with stats := a }) := by
  have render : ({ x with stats := a } : Interpreter).render = x.render := rfl
  rw [puts, puts, render]
  dsimp only
  split
  · rfl
  · split
    · rfl
    · split <;> rfl

theorem Heap.map_rename_id (h : Heap) : h.map (Value.rename id) = h := by
  rw [Value.rename_eq_id, Heap.map_id]

/-- An interpreter and itself, with other counts. -/
def recounted (host : Host) (me : InterpreterId) : Correspondence host where
  ρ := id
  injective := Function.injective_id
  me := me
  Like x y := ∃ a, y = { x with stats := a }
  counts := by
    rintro x y a b ⟨_, rfl⟩
    exact ⟨b, rfl⟩
  puts := by
    rintro x y args ⟨a, rfl⟩
    rw [x.puts_stats a args]
    exact ⟨rfl, a, rfl⟩
  host := host.ignores_id

section

variable {host : Host} {me : InterpreterId} {w u : World}

/-- States correspond when they differ in the counts of the interpreter only. -/
theorem recounted_state (heap : u.heap = w.heap) {a : Stats}
    (mine : u.interpreter me = { w.interpreter me with stats := a })
    (others : ∀ i, i ≠ me → u.interpreter i = w.interpreter i) :
    (recounted host me).State w u where
  heap := by
    rw [heap]
    exact w.heap.map_rename_id.symm
  mine := ⟨a, mine⟩
  others := others

/-- Blocks in such states have the same value, and end in states with the same heap, in which the
other interpreters are the same, and this one but for the counts. It counts the same in both. -/
theorem evalBlock_recounted (depth : Nat) (state : (recounted host me).State w u) (s : ScopeId)
    (block : Block Origin) :
    Option.Rel
      (fun r q => q.1 = r.1 ∧ q.2.heap = r.2.heap ∧
        (∀ i, i ≠ me → q.2.interpreter i = r.2.interpreter i) ∧
        ∃ events, q.2.interpreter me =
            { r.2.interpreter me with stats := (u.interpreter me).stats.after events } ∧
          (r.2.interpreter me).stats = (w.interpreter me).stats.after events)
      ((evalBlock host me (invoke host me depth) s .null block).run w)
      ((evalBlock host me (invoke host me depth) s .null block).run u) := by
  have step : Option.Rel ((recounted host me).Agrees w u)
      ((evalBlock host me (invoke host me depth) s .null block).run w)
      ((evalBlock host me (invoke host me depth) s .null block).run u) :=
    Correspondence.evalBlock_agrees depth state s block
  refine rel_imp step fun r q agrees => ?_
  obtain ⟨value, ⟨heap, ⟨a, mine⟩, others⟩, events, left, right⟩ := agrees
  have mine : q.2.interpreter me = { r.2.interpreter me with stats := a } := mine
  have counted : (r.2.interpreter me).stats = (w.interpreter me).stats.after events :=
    (left.stats me).trans (if_pos rfl)
  have counted' : (q.2.interpreter me).stats = (u.interpreter me).stats.after events :=
    (right.stats me).trans (if_pos rfl)
  refine ⟨value.trans (Value.rename_id r.1), heap.trans (Heap.map_rename_id r.2.heap), others,
    events, ?_, counted⟩
  rw [← counted', mine]

end

/-! ## Programs and calls -/

/-- One call more of a user function. -/
def Stats.called (s : Stats) : Stats :=
  { s with functionCalls := s.functionCalls + 1 }

theorem Stats.after_called (s : Stats) (events : List Event) :
    s.called.after events = (s.after events).called := by
  simp only [called, after, Nat.add_right_comm]

theorem World.interpreter_entered (w : World) (me : InterpreterId) (f : Closure)
    (args : List Value) (i : InterpreterId) :
    (w.entered me f args).interpreter i =
      if i = me then { w.interpreter me with stats := (w.interpreter me).stats.called }
      else w.interpreter i :=
  w.interpreter_update me i _

/-- A program in a new scope within another means the same as a call of the function that has captured
the latter, has no parameters and has the statements as its body. Both are cut short or none is, where
the call is one level of nesting itself. Then the value is the same and so is the heap, with the
contents of the new scope, and so are the interpreters with their sinks, but that the call is
counted. -/
theorem program_as_body (host : Host) (me : InterpreterId) (depth : Nat) (origin : Origin)
    (body : Block Origin) (e : ScopeId) (w : World) :
    Option.Rel
      (fun r q => q.1 = r.1 ∧ q.2.heap = r.2.heap ∧
        q.2.interpreter me =
          { r.2.interpreter me with stats := (r.2.interpreter me).stats.called } ∧
        ∀ i, i ≠ me → q.2.interpreter i = r.2.interpreter i)
      ((evalProgram host me depth (w.heap.enclose e).1 body).run
        { w with heap := (w.heap.enclose e).2 })
      ((applyValue host me (depth + 1) (.fn ⟨origin, [], body, e⟩) []).run w) := by
  let f : Closure := ⟨origin, [], body, e⟩
  let opened : World :=
    { w with heap := (w.heap.enclose e).2 }.record (.enter (.program body.length))
  have call : (applyValue host me (depth + 1) (.fn f) []).run w = _ :=
    run_invoke host me depth f [] w
  have scope : (w.heap.enclose e).1 = w.heap.next := rfl
  rw [call, run_evalProgram, scope]
  have mine : (w.entered me f []).interpreter me =
      { w.interpreter me with stats := (w.interpreter me).stats.called } :=
    (w.interpreter_entered me f [] me).trans (if_pos rfl)
  -- The scope of the call is the one in which the program runs, and the call was counted.
  have state : (recounted host me).State opened (w.entered me f []) :=
    recounted_state rfl mine fun i ne => (w.interpreter_entered me f [] i).trans (if_neg ne)
  refine rel_map (evalBlock_recounted depth state w.heap.next body) fun r q ends => ?_
  obtain ⟨value, heap, others, events, ended, counted⟩ := ends
  have counted : (r.2.interpreter me).stats = (w.interpreter me).stats.after events := counted
  rw [mine, Stats.after_called, ← counted] at ended
  exact ⟨congrArg Value.unwrapReturn value, heap, ended, others⟩

end TreeWalk
