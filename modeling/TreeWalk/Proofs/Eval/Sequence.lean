import TreeWalk.Proofs.Eval.ProgramBody

/-!
# Statements in sequence

A block of two parts is the one part and then the other, unless a statement of the first yields a
sentinel. So it does not matter where a program is cut into programs, nor whether the statements of
a branch stand in an `if` whose condition is known or in its place: a branch runs in the scope around
it, and a sentinel leaves the loop of the branch and that of the program alike. What the latter does
with its statements is what a block does with them, up to a wrapper (`run_evalProgram`).

Programs that come to the same report different spans, and what runs in them starts with different
logs. But the log is never read: runs from states which differ in it end in states which differ in it.

Results:
1. `evalBlock_append`: the parts of a block.
2. `evalBlock_alike`: the log is never read.
3. `RunsThrough.run_evalBlock`, `Stops.run_evalBlock`: statements before a cut.
4. `program_in_parts`: a program that is cut in two.
5. `branch_in_place`: a branch and its statements.
-/

namespace TreeWalk

open Run

/-! ## Parts of a block -/

namespace Run

/-- What goes on with a value that is no sentinel matters only for such values. -/
theorem andThen_congr {x : Run Value} {f g : Value → Run Value}
    (same : ∀ v, v.isSentinel = false → f v = g v) : andThen x f = andThen x g := by
  refine congrArg (x >>= ·) (funext fun v => ?_)
  cases sentinel : v.isSentinel with
  | true => rfl
  | false => exact same v sentinel

theorem andThen_pure {v : Value} (notSentinel : v.isSentinel = false) (f : Value → Run Value) :
    andThen (pure v) f = f v := by
  rw [andThen, pure_bind, notSentinel]
  rfl

end Run

section Parts

variable {host : Host} {me : InterpreterId} {call : Closure → List Value → Run Value}

/-- The second part of a block goes on from the value of the first. -/
theorem evalBlock_append (s : ScopeId) {before : Value} (notSentinel : before.isSentinel = false)
    (first rest : Block Origin) :
    evalBlock host me call s before (first ++ rest) =
      andThen (evalBlock host me call s before first) fun v =>
        evalBlock host me call s v rest := by
  induction first generalizing before with
  | nil => exact (andThen_pure notSentinel fun v => evalBlock host me call s v rest).symm
  | cons stmt first ih =>
    rw [List.cons_append, evalBlock, evalBlock, andThen_assoc]
    exact andThen_congr fun v notSentinel => ih notSentinel

/-- A choice by `true` is the first branch. -/
theorem evalExpr_choose_first (s : ScopeId) (t : Block Origin) (e : Option (Block Origin)) :
    evalExpr host me call s (.ifElse (.bool true) t e) = evalBlock host me call s .null t := by
  cases e with
  | none => exact andThen_pure rfl _
  | some e => exact andThen_pure rfl _

/-- A choice by `false` is the second branch. -/
theorem evalExpr_choose_second (s : ScopeId) (t e : Block Origin) :
    evalExpr host me call s (.ifElse (.bool false) t (some e)) =
      evalBlock host me call s .null e :=
  andThen_pure rfl _

/-- An expression that comes to a block can be replaced by the statements of the block. -/
theorem evalBlock_inline {s : ScopeId} {e : Expr Origin} {block : Block Origin}
    (same : evalExpr host me call s e = evalBlock host me call s .null block)
    (rest : Block Origin) :
    evalBlock host me call s .null (.expr e :: rest) =
      evalBlock host me call s .null (block ++ rest) := by
  rw [evalBlock_append s rfl, ← same]
  rfl

end Parts

/-! ## The log is never read -/

/-- The states differ in their logs only. -/
structure World.Alike (w u : World) : Prop where
  heap : u.heap = w.heap
  interpreter : ∀ i, u.interpreter i = w.interpreter i

namespace World.Alike

variable {w u x : World}

theorem symm (alike : w.Alike u) : u.Alike w :=
  ⟨alike.heap.symm, fun i => (alike.interpreter i).symm⟩

theorem trans (first : w.Alike u) (next : u.Alike x) : w.Alike x :=
  ⟨next.heap.trans first.heap, fun i => (next.interpreter i).trans (first.interpreter i)⟩

theorem record (w : World) (e : Event) : w.Alike (w.record e) :=
  ⟨rfl, fun _ => rfl⟩

/-- Whatever is reported in the one and in the other. -/
theorem records (alike : w.Alike u) (a b : Event) : (w.record a).Alike (u.record b) :=
  ((record w a).symm.trans alike).trans (record u b)

end World.Alike

/-- Two runs came to the same, but for what they reported. -/
structure SameEnd (r q : Value × World) : Prop where
  value : q.1 = r.1
  state : r.2.Alike q.2

section Logs

variable {host : Host} {me : InterpreterId} {depth : Nat} {w u : World}

/-- Blocks in states that differ in their logs come to the same. -/
theorem evalBlock_alike (alike : w.Alike u) (s : ScopeId) (block : Block Origin) :
    Option.Rel SameEnd ((evalBlock host me (invoke host me depth) s .null block).run w)
      ((evalBlock host me (invoke host me depth) s .null block).run u) := by
  have state : (recounted host me).State w u :=
    recounted_state alike.heap (alike.interpreter me) fun i _ => alike.interpreter i
  refine rel_imp (evalBlock_recounted depth state s block) fun r q ends => ?_
  obtain ⟨value, heap, others, events, mine, counted⟩ := ends
  refine ⟨value, heap, fun i => ?_⟩
  by_cases eq : i = me
  · rw [eq, mine, alike.interpreter me, ← counted]
  · exact others i eq

/-- The value before a block does not matter to what the block leads to, nor to its value if there is a
statement in it. -/
theorem evalBlock_alike_before (alike : w.Alike u) (s : ScopeId) (before : Value)
    (block : Block Origin) :
    Option.Rel (fun r q => r.2.Alike q.2 ∧ (block ≠ [] → q.1 = r.1))
      ((evalBlock host me (invoke host me depth) s .null block).run w)
      ((evalBlock host me (invoke host me depth) s before block).run u) := by
  cases block with
  | nil => exact .some ⟨alike, fun nonempty => absurd rfl nonempty⟩
  | cons stmt rest =>
    exact rel_imp (evalBlock_alike alike s (stmt :: rest)) fun _ _ ends =>
      ⟨ends.state, fun _ => ends.value⟩

/-- Programs that are the same as blocks come to the same, though their spans may differ. -/
theorem evalProgram_sameEnd {s : ScopeId} {p q : Program Origin}
    (same : evalBlock host me (invoke host me depth) s .null p =
      evalBlock host me (invoke host me depth) s .null q) (w : World) :
    Option.Rel SameEnd ((evalProgram host me depth s p).run w)
      ((evalProgram host me depth s q).run w) := by
  rw [run_evalProgram, run_evalProgram, same]
  have opened : (w.record (.enter (.program p.length))).Alike
      (w.record (.enter (.program q.length))) :=
    (World.Alike.record w _).symm.trans (World.Alike.record w _)
  refine rel_map (evalBlock_alike opened s q) fun r t ends => ?_
  exact ⟨congrArg Value.unwrapReturn ends.value, ends.state.records _ _⟩

end Logs

/-! ## Statements before a cut -/

section Cuts

variable (host : Host) (me : InterpreterId) (depth : Nat) (s : ScopeId)

/-- The statements run one after the other from a state to a state, and none yields a sentinel. -/
inductive RunsThrough : Block Origin → World → World → Prop
  | nil {w : World} : RunsThrough [] w w
  | cons {stmt : Stmt Origin} {rest : Block Origin} {w x y : World} {v : Value} :
      (evalStmt host me (invoke host me depth) s stmt).run w = some (v, x) →
      v.isSentinel = false → RunsThrough rest x y → RunsThrough (stmt :: rest) w y

/-- The statements run one after the other from a state up to one that yields a sentinel. -/
def Stops (block : Block Origin) (w : World) : Prop :=
  ∃ before stmt after x v y, block = before ++ stmt :: after ∧
    RunsThrough host me depth s before w x ∧
    (evalStmt host me (invoke host me depth) s stmt).run x = some (v, y) ∧ v.isSentinel = true

variable {host me depth s} {block : Block Origin} {w x : World}

/-- Statements that run through are a block that has a value. -/
theorem RunsThrough.run_evalBlock (through : RunsThrough host me depth s block w x)
    {before : Value} (notSentinel : before.isSentinel = false) :
    ∃ v, v.isSentinel = false ∧
      (evalBlock host me (invoke host me depth) s before block).run w = some (v, x) := by
  induction through generalizing before with
  | nil => exact ⟨before, notSentinel, rfl⟩
  | cons ran value _ ih =>
    obtain ⟨v, last, rest⟩ := ih value
    refine ⟨v, last, ?_⟩
    rw [evalBlock, run_andThen, ran, Option.bind_some, value]
    exact rest

/-- Statements that stop are a block that has a sentinel for its value. -/
theorem Stops.run_evalBlock (stops : Stops host me depth s block w) :
    ∃ v y, v.isSentinel = true ∧
      (evalBlock host me (invoke host me depth) s .null block).run w = some (v, y) := by
  obtain ⟨before, stmt, after, x, v, y, rfl, through, ran, sentinel⟩ := stops
  obtain ⟨a, notSentinel, first⟩ := through.run_evalBlock (rfl : Value.null.isSentinel = false)
  refine ⟨v, y, sentinel, ?_⟩
  rw [evalBlock_append s rfl, run_andThen, first, Option.bind_some, notSentinel]
  show (evalBlock host me (invoke host me depth) s a (stmt :: after)).run x = some (v, y)
  rw [evalBlock, run_andThen, ran, Option.bind_some, sentinel]
  rfl

end Cuts

/-! ## Programs in parts -/

/-- A program that is cut in two. If no statement of the first part yields a sentinel, the whole is cut
short exactly when the parts are that run as programs one after the other. Otherwise both lead to the
same heap, sinks and counts, and the whole has the value of the second part, where that has a
statement. If a statement of the first part yields a sentinel, the whole and the first part alone come
to the same. -/
theorem program_in_parts (host : Host) (me : InterpreterId) (depth : Nat) (s : ScopeId)
    (first rest : Program Origin) (w : World) :
    (∀ x, RunsThrough host me depth s first w x →
      Option.Rel (fun r q => r.2.Alike q.2 ∧ (rest ≠ [] → q.1 = r.1))
        ((evalProgram host me depth s first >>= fun _ => evalProgram host me depth s rest).run w)
        ((evalProgram host me depth s (first ++ rest)).run w)) ∧
    (Stops host me depth s first w →
      ∃ r q, (evalProgram host me depth s first).run w = some r ∧
        (evalProgram host me depth s (first ++ rest)).run w = some q ∧ SameEnd r q) := by
  -- The first part comes to the same, whichever span was opened before.
  have opened : ∀ (p : Program Origin) {v x},
      (evalBlock host me (invoke host me depth) s .null first).run w = some (v, x) →
      ∃ y, (evalBlock host me (invoke host me depth) s .null first).run
        (w.record (.enter (.program p.length))) = some (v, y) ∧ x.Alike y := by
    intro p v x ran
    have step : Option.Rel SameEnd
        ((evalBlock host me (invoke host me depth) s .null first).run w) _ :=
      evalBlock_alike (World.Alike.record w (.enter (.program p.length))) s first
    rw [ran] at step
    obtain ⟨⟨_, y⟩, again, rfl, alike⟩ := exists_of_rel step
    exact ⟨y, again, alike⟩
  constructor
  · intro x through
    obtain ⟨v, notSentinel, ran⟩ := through.run_evalBlock (rfl : Value.null.isSentinel = false)
    obtain ⟨y, alone, fromAlone⟩ := opened first ran
    obtain ⟨z, within, fromWithin⟩ := opened (first ++ rest) ran
    rw [run_bind, run_evalProgram host me depth s first, alone, Option.map_some, Option.bind_some,
      run_evalProgram, run_evalProgram, evalBlock_append s rfl, run_andThen, within,
      Option.bind_some, notSentinel]
    let left := y.record (.leave (.program first.length))
    have goesOn : (left.record (.enter (.program rest.length))).Alike z :=
      ((World.Alike.record left _).symm.trans (World.Alike.record y _).symm).trans
        (fromAlone.symm.trans fromWithin)
    refine rel_map (evalBlock_alike_before goesOn s v rest) fun r q ends => ⟨?_, fun nonempty => ?_⟩
    · exact ends.1.records _ _
    · exact congrArg Value.unwrapReturn (ends.2 nonempty)
  · intro stops
    obtain ⟨v, x, sentinel, ran⟩ := stops.run_evalBlock
    obtain ⟨y, alone, fromAlone⟩ := opened first ran
    obtain ⟨z, within, fromWithin⟩ := opened (first ++ rest) ran
    refine ⟨(v.unwrapReturn, y.record (.leave (.program first.length))),
      (v.unwrapReturn, z.record (.leave (.program (first ++ rest).length))), ?_, ?_, rfl,
      (fromAlone.symm.trans fromWithin).records _ _⟩
    · rw [run_evalProgram, alone, Option.map_some]
    · rw [run_evalProgram, evalBlock_append s rfl, run_andThen, within, Option.bind_some, sentinel]
      rfl

/-- Two statements: a function, and a name for its scope to find. -/
def announcing : Program Origin :=
  [.bind "f" (.fn ⟨0, 0⟩ ["x"] [.ret (.infixOp (.ident "x") .add (.ident "y"))]),
    .bind "y" (.int 2)]

/-- A call of the function. -/
def relying : Program Origin :=
  [.expr (.call (.ident "f") [.int 3])]

/-- A statement that returns the value of a call, and one that is never reached. -/
def leaving : Program Origin :=
  [.ret (.call (.fn ⟨1, 1⟩ [] [.ret (.int 1)]) []), .bind "y" (.int 2)]

/-- A function is called after the cut, and a program is left before it. -/
theorem program_in_parts_announcing :
    (∃ w' u', (evalProgram .empty ⟨0⟩ 1 ⟨0⟩ announcing >>= fun _ =>
          evalProgram .empty ⟨0⟩ 1 ⟨0⟩ relying).run .rooted = some (.int 5, w') ∧
        (evalProgram .empty ⟨0⟩ 1 ⟨0⟩ (announcing ++ relying)).run .rooted = some (.int 5, u') ∧
        w'.Alike u') ∧
      ∃ w' u', (evalProgram .empty ⟨0⟩ 1 ⟨0⟩ leaving).run .rooted = some (.int 1, w') ∧
        (evalProgram .empty ⟨0⟩ 1 ⟨0⟩ (leaving ++ relying)).run .rooted = some (.int 1, u') ∧
        w'.Alike u' := by
  constructor
  · have step := (program_in_parts .empty ⟨0⟩ 1 ⟨0⟩ announcing relying .rooted).1 _
      (.cons rfl rfl (.cons rfl rfl .nil))
    obtain ⟨w', ran⟩ : ∃ w', (evalProgram .empty ⟨0⟩ 1 ⟨0⟩ announcing >>= fun _ =>
        evalProgram .empty ⟨0⟩ 1 ⟨0⟩ relying).run .rooted = some (.int 5, w') := ⟨_, rfl⟩
    rw [ran] at step
    obtain ⟨⟨v, u'⟩, whole, alike, same⟩ := exists_of_rel step
    obtain rfl : v = .int 5 := same (List.cons_ne_nil _ _)
    exact ⟨w', u', ran, whole, alike⟩
  · have stops : Stops .empty ⟨0⟩ 1 ⟨0⟩ leaving .rooted :=
      ⟨[], _, _, _, _, _, rfl, .nil, rfl, rfl⟩
    obtain ⟨⟨v, w'⟩, ⟨b, u'⟩, alone, whole, value, alike⟩ :=
      (program_in_parts .empty ⟨0⟩ 1 ⟨0⟩ leaving relying .rooted).2 stops
    obtain rfl : b = v := value
    obtain ⟨x, ran⟩ : ∃ x, (evalProgram .empty ⟨0⟩ 1 ⟨0⟩ leaving).run .rooted = some (.int 1, x) :=
      ⟨_, rfl⟩
    obtain rfl : b = .int 1 := congrArg Prod.fst (Option.some.inj (alone.symm.trans ran))
    exact ⟨w', u', alone, whole, alike⟩

/-- A branch and its statements. A program that starts with an `if` whose condition is `true` comes to
the same as the statements of the first branch and then those after the `if`, whatever the other branch
is, if there is one. And so it is with `false` and the second branch. -/
theorem branch_in_place (host : Host) (me : InterpreterId) (depth : Nat) (s : ScopeId)
    (chosen : Block Origin) (rest : Program Origin) (w : World) :
    (∀ other : Option (Block Origin), Option.Rel SameEnd
      ((evalProgram host me depth s (.expr (.ifElse (.bool true) chosen other) :: rest)).run w)
      ((evalProgram host me depth s (chosen ++ rest)).run w)) ∧
    ∀ other : Block Origin, Option.Rel SameEnd
      ((evalProgram host me depth s
        (.expr (.ifElse (.bool false) other (some chosen)) :: rest)).run w)
      ((evalProgram host me depth s (chosen ++ rest)).run w) :=
  ⟨fun other => evalProgram_sameEnd (evalBlock_inline (evalExpr_choose_first s chosen other) rest) w,
    fun other => evalProgram_sameEnd (evalBlock_inline (evalExpr_choose_second s other chosen) rest) w⟩

end TreeWalk
