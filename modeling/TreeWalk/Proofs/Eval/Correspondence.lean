import TreeWalk.Proofs.Eval.Counting
import TreeWalk.Proofs.Scope.Image
import TreeWalk.Proofs.Value.Renaming

/-!
# Corresponding runs

The same program, run by two interpreters of two sessions. The interpreters are those of one session
renamed, and so are the owners of the builtins in the heap. The two that run the program may differ in
what they counted and in whatever `puts` does not show in its result. Then the runs correspond: both
are cut short or none is, the values are the same up to the renaming, and so are the heaps, and the
same events are reported.

The walk is gone through once, for every such relation between the two interpreters.

Results:
1. `Matches.bind`, `Matches.andThen`: one run after another.
2. `State.raised`, `State.computed`, `State.entered`: what each step does to both states.
3. `Correspondence.evalBlock`, `Correspondence.invoke`: the walk and calls.
4. `Correspondence.evalProgram`, `Correspondence.applyValue`: programs, and calls of any value.
5. `evalBlock_agrees`, `evalProgram_agrees`: what was counted is the same as well.
-/

namespace TreeWalk

open Run

variable {host : Host} {α α' β β' : Type} {w u w' u' : World}

/-! ## Correspondences -/

/-- A renaming of the interpreters of a session, and a relation between the interpreter that
evaluates and the one that it becomes. -/
structure Correspondence (host : Host) where
  ρ : InterpreterId → InterpreterId
  injective : Function.Injective ρ
  /-- The interpreter that evaluates. -/
  me : InterpreterId
  Like : Interpreter → Interpreter → Prop
  /-- What was counted does not matter. -/
  counts : ∀ {x y} (a b : Stats), Like x y → Like { x with stats := a } { y with stats := b }
  puts : ∀ {x y} (args : List Value), Like x y →
    (y.puts args).1 = (x.puts args).1 ∧ Like (x.puts args).2 (y.puts args).2
  /-- The builtins of the host do not look at owners. -/
  host : host.Ignores ρ

/-- What the values of some expressions become, or the sentinel among them. -/
def renameResults (ρ : InterpreterId → InterpreterId) :
    Except Value (List Value) → Except Value (List Value)
  | .ok values => .ok (values.map (Value.rename ρ))
  | .error sentinel => .error (sentinel.rename ρ)

namespace Correspondence

variable (C : Correspondence host)

/-! ## Corresponding states -/

/-- The two states correspond. -/
structure State (w u : World) : Prop where
  heap : u.heap = w.heap.map (Value.rename C.ρ)
  mine : C.Like (w.interpreter C.me) (u.interpreter (C.ρ C.me))
  others : ∀ i, i ≠ C.me → u.interpreter (C.ρ i) = w.interpreter i

/-- From corresponding states on the same was reported, and the states correspond again. -/
structure Since (w u w' u' : World) : Prop where
  state : C.State w' u'
  events : ∃ events, w.Reported events w' ∧ u.Reported events u'

/-- The results are related by a function, and the states correspond. -/
def Ends (f : α → β) (w u : World) (r : α × World) (q : β × World) : Prop :=
  q.1 = f r.1 ∧ C.Since w u r.2 q.2

/-- From corresponding states the runs have corresponding results, if they have any. -/
def Matches (f : α → β) (x : Run α) (y : Run β) : Prop :=
  ∀ w u, C.State w u → Option.Rel (C.Ends f w u) (x.run w) (y.run u)

variable {C}

theorem State.refl (state : C.State w u) : C.Since w u w u :=
  ⟨state, [], .refl w, .refl u⟩

theorem Since.trans {w₁ u₁ w₂ u₂ : World} (first : C.Since w u w₁ u₁)
    (next : C.Since w₁ u₁ w₂ u₂) : C.Since w u w₂ u₂ := by
  obtain ⟨-, events, left, right⟩ := first
  obtain ⟨state, more, left', right'⟩ := next
  exact ⟨state, events ++ more, left.trans left', right.trans right'⟩

/-! ## One run after another -/

namespace Matches

theorem pure {f : α → β} {a : α} {b : β} (eq : b = f a) :
    C.Matches f (Pure.pure a) (Pure.pure b) :=
  fun _ _ state => .some ⟨eq, state.refl⟩

theorem bind {f : α → α'} {k : β → β'} {x : Run α} {x' : Run α'} {g : α → Run β}
    {g' : α' → Run β'} (first : C.Matches f x x') (next : ∀ a, C.Matches k (g a) (g' (f a))) :
    C.Matches k (x >>= g) (x' >>= g') := by
  intro w u state
  rw [run_bind, run_bind]
  refine rel_bind (first w u state) fun r q ends => ?_
  rw [ends.1]
  exact rel_imp (next r.1 _ _ ends.2.state) fun _ _ ends' => ⟨ends'.1, ends.2.trans ends'.2⟩

/-- Going on unless there is a sentinel, which the one value is when the other is. -/
theorem andThen {x x' : Run Value} {g g' : Value → Run Value}
    (first : C.Matches (Value.rename C.ρ) x x')
    (next : ∀ v, C.Matches (Value.rename C.ρ) (g v) (g' (v.rename C.ρ))) :
    C.Matches (Value.rename C.ρ) (Run.andThen x g) (Run.andThen x' g') := by
  refine first.bind fun v => ?_
  rw [Value.isSentinel_rename]
  cases v.isSentinel with
  | true => exact .pure rfl
  | false => exact next v

end Matches

/-! ## What each step does to both states -/

namespace State

theorem record (state : C.State w u) (e : Event) : C.Since w u (w.record e) (u.record e) :=
  ⟨⟨state.heap, state.mine, state.others⟩, [e], w.reported_record e, u.reported_record e⟩

/-- The two interpreters that evaluate are changed. -/
theorem updateMine (state : C.State w u) {f k : Interpreter → Interpreter}
    (like : C.Like (f (w.interpreter C.me)) (k (u.interpreter (C.ρ C.me)))) :
    C.State (w.update C.me f) (u.update (C.ρ C.me) k) where
  heap := state.heap
  mine := by
    rw [World.interpreter_update, World.interpreter_update, if_pos rfl, if_pos rfl]
    exact like
  others i ne := by
    rw [World.interpreter_update, World.interpreter_update, if_neg ne,
      if_neg fun eq => ne (C.injective eq)]
    exact state.others i ne

/-- Another interpreter becomes the same in both. -/
theorem updateOther (state : C.State w u) {i : InterpreterId} (other : i ≠ C.me)
    (x : Interpreter) : C.State (w.update i fun _ => x) (u.update (C.ρ i) fun _ => x) where
  heap := state.heap
  mine := by
    rw [World.interpreter_update, World.interpreter_update, if_neg other.symm,
      if_neg fun eq => other (C.injective eq).symm]
    exact state.mine
  others j ne := by
    rw [World.interpreter_update, World.interpreter_update]
    by_cases eq : j = i
    · rw [if_pos eq, if_pos (congrArg C.ρ eq)]
    · rw [if_neg eq, if_neg fun same => eq (C.injective same)]
      exact state.others j ne

theorem tally (state : C.State w u) (f k : Stats → Stats) :
    C.State (w.tally C.me f) (u.tally (C.ρ C.me) k) :=
  state.updateMine (C.counts _ _ state.mine)

theorem raised (state : C.State w u) (fault : EvalFault) :
    C.Since w u (w.raised C.me fault) (u.raised (C.ρ C.me) fault) :=
  ⟨((state.tally _ _).record _).state, _, w.reported_raised _ fault, u.reported_raised _ fault⟩

theorem calling (state : C.State w u) (b : Builtin) (count : Nat) :
    C.Since w u (w.calling C.me b count) (u.calling (C.ρ C.me) (b.rename C.ρ) count) := by
  have name : (b.rename C.ρ).name = b.name := by cases b <;> rfl
  rw [World.calling, World.calling, name]
  refine ⟨((state.tally _ _).record _).state, _, Array.toList_push, Array.toList_push⟩

theorem define (state : C.State w u) (s : ScopeId) (name : String) (v : Value) :
    C.Since w u { w with heap := w.heap.define s name v }
      { u with heap := u.heap.define s name (v.rename C.ρ) } where
  state.heap := by rw [state.heap, Heap.map_define]
  state.mine := state.mine
  state.others := state.others
  events := ⟨[], .refl w, .refl u⟩

theorem span (state : C.State w u) (f : Closure) : f.span u.heap = f.span w.heap := by
  rw [Closure.span, state.heap, Heap.depth_map, Closure.span]

theorem entered (state : C.State w u) (f : Closure) (args : List Value) :
    C.Since w u (w.entered C.me f args)
      (u.entered (C.ρ C.me) f (args.map (Value.rename C.ρ))) := by
  have heap : (u.heap.callScope f (args.map (Value.rename C.ρ))).2 =
      (w.heap.callScope f args).2.map (Value.rename C.ρ) := by
    rw [state.heap, Heap.map_callScope]
  have counted := state.tally (fun s => { s with functionCalls := s.functionCalls + 1 })
    fun s => { s with functionCalls := s.functionCalls + 1 }
  refine ⟨⟨heap, counted.mine, counted.others⟩, _, w.reported_entered _ f args, ?_⟩
  have notice : u.scopeNotice f (args.map (Value.rename C.ρ)) = w.scopeNotice f args := by
    rw [World.scopeNotice, heap, state.heap]
    simp only [Heap.next_map, Heap.names_map, Heap.depth_map]
    rfl
  rw [← state.span f, ← notice]
  exact u.reported_entered _ f _

end State

/-! ## Names, operations and builtins -/

variable (C) in
theorem evalName (s : ScopeId) (name : String) :
    C.Matches (Value.rename C.ρ) (TreeWalk.evalName C.me s name)
      (TreeWalk.evalName (C.ρ C.me) s name) := by
  intro w u state
  rw [run_evalName, run_evalName, state.heap, Heap.resolve_map]
  cases w.heap.resolve s name with
  | some v => exact .some ⟨rfl, state.refl⟩
  | none =>
    cases Standard.named? name with
    | some op => exact .some ⟨rfl, state.refl⟩
    | none => exact .some ⟨rfl, state.raised _⟩

variable (C) in
theorem raise (fault : EvalFault) :
    C.Matches (Value.rename C.ρ) (Run.raise C.me fault) (Run.raise (C.ρ C.me) fault) :=
  fun _ _ state => .some ⟨rfl, state.raised fault⟩

variable (C) in
theorem orRaise (r : Except EvalFault Value) :
    C.Matches (Value.rename C.ρ) (Run.orRaise C.me r)
      (Run.orRaise (C.ρ C.me) (r.map (Value.rename C.ρ))) := by
  cases r with
  | ok v => exact .pure rfl
  | error fault => exact C.raise fault

/-- A standard builtin of two interpreters that are alike gives the same, and they are alike again. -/
theorem compute {x y : Interpreter} (like : C.Like x y) (op : Standard) (args : List Value) :
    (y.compute op args).1 = (x.compute op args).1 ∧
      C.Like (x.compute op args).2 (y.compute op args).2 := by
  cases op with
  | puts => exact C.puts args like
  | len | first | last | rest | push => exact ⟨rfl, like⟩

/-- A standard builtin of any owner gives the same, and leaves interpreters that correspond. -/
theorem State.updated (state : C.State w u) (owner : InterpreterId) (op : Standard)
    (args : List Value) :
    ((u.interpreter (C.ρ owner)).compute op args).1 = ((w.interpreter owner).compute op args).1 ∧
      C.State (w.update owner fun _ => ((w.interpreter owner).compute op args).2)
        (u.update (C.ρ owner) fun _ => ((u.interpreter (C.ρ owner)).compute op args).2) := by
  by_cases mine : owner = C.me
  · subst mine
    obtain ⟨same, like⟩ := C.compute state.mine op args
    exact ⟨same, state.updateMine like⟩
  · rw [state.others owner mine]
    exact ⟨rfl, state.updateOther mine _⟩

/-- A standard builtin on renamed arguments does to both states what corresponds. -/
theorem State.computed (state : C.State w u) (owner : InterpreterId) (op : Standard)
    (args : List Value) :
    ((u.interpreter (C.ρ owner)).compute op (args.map (Value.rename C.ρ))).1 =
        ((w.interpreter owner).compute op args).1.map (Value.rename C.ρ) ∧
      C.Since w u (w.computed owner op args)
        (u.computed (C.ρ owner) op (args.map (Value.rename C.ρ))) := by
  obtain ⟨same, updated⟩ := state.updated owner op args
  rw [World.computed, World.computed, Interpreter.compute_rename]
  dsimp only
  rw [same]
  refine ⟨rfl, ?_⟩
  cases ((w.interpreter owner).compute op args).1 with
  | ok v => exact ⟨updated, [], .refl w, .refl u⟩
  | error fault =>
    exact ⟨(updated.record _).state, [.notice (.builtinFailed fault)], Array.toList_push,
      Array.toList_push⟩

variable (C) in
theorem callBuiltin (b : Builtin) (args : List Value) :
    C.Matches (Value.rename C.ρ) (TreeWalk.callBuiltin host b args)
      (TreeWalk.callBuiltin host (b.rename C.ρ) (args.map (Value.rename C.ρ))) := by
  cases b with
  | standard owner op =>
    intro w u state
    obtain ⟨value, since⟩ := state.computed owner op args
    show Option.Rel _ ((Run.standard owner op args).run w)
      ((Run.standard (C.ρ owner) op (args.map (Value.rename C.ρ))).run u)
    rw [run_standard, run_standard, value]
    refine .some ⟨?_, since⟩
    cases ((w.interpreter owner).compute op args).1 with
    | ok v => rfl
    | error fault => rfl
  | host id name =>
    intro w u state
    exact .some ⟨C.host id args, state.refl⟩

/-! ## Calls -/

section Walk

variable {call call' : Closure → List Value → Run Value}

/-- What the calls do corresponds. -/
def Calls (C : Correspondence host) (call call' : Closure → List Value → Run Value) : Prop :=
  ∀ f args, C.Matches (Value.rename C.ρ) (call f args) (call' f (args.map (Value.rename C.ρ)))

theorem evalCall (calls : C.Calls call call') (callee : Value) (args : List Value) :
    C.Matches (Value.rename C.ρ) (TreeWalk.evalCall host C.me call callee args)
      (TreeWalk.evalCall host (C.ρ C.me) call' (callee.rename C.ρ)
        (args.map (Value.rename C.ρ))) := by
  cases callee with
  | fn f =>
    rw [Value.rename, TreeWalk.evalCall, TreeWalk.evalCall, List.length_map]
    split
    · exact calls f args
    · exact C.raise _
  | builtin b =>
    intro w u state
    rw [Value.rename, run_evalCall_builtin, run_evalCall_builtin, List.length_map]
    have called := state.calling b args.length
    exact rel_imp (C.callBuiltin b args _ _ called.state) fun _ _ ends =>
      ⟨ends.1, called.trans ends.2⟩
  | int _ | bool _ | null | str _ | array _ | ret _ | err _ => exact C.raise _

/-! ## The walk -/

mutual

theorem evalExpr (calls : C.Calls call call') (s : ScopeId) : (e : Expr Origin) →
    C.Matches (Value.rename C.ρ) (TreeWalk.evalExpr host C.me call s e)
      (TreeWalk.evalExpr host (C.ρ C.me) call' s e)
  | .ident name => C.evalName s name
  | .int n => .pure rfl
  | .str text => .pure rfl
  | .bool b => .pure rfl
  | .prefixOp op e => by
    refine (evalExpr calls s e).andThen fun v => ?_
    rw [PrefixOp.apply_rename]
    exact C.orRaise _
  | .infixOp l op r => by
    refine (evalExpr calls s l).andThen fun a => (evalExpr calls s r).andThen fun b => ?_
    -- Comparing looks at owners. It cannot tell the renaming, which is injective.
    rw [InfixOp.apply_rename C.injective]
    exact C.orRaise _
  | .ifElse c t none => by
    refine (evalExpr calls s c).andThen fun v => ?_
    rw [Value.isTruthy_rename]
    split
    · exact evalBlock calls s .null t
    · exact .pure rfl
  | .ifElse c t (some e) => by
    refine (evalExpr calls s c).andThen fun v => ?_
    rw [Value.isTruthy_rename]
    split
    · exact evalBlock calls s .null t
    · exact evalBlock calls s .null e
  | .fn origin params body => .pure rfl
  | .call f args => by
    refine (evalExpr calls s f).andThen fun callee => (evalExprs calls s args).bind fun r => ?_
    cases r with
    | ok values => exact evalCall calls callee values
    | error sentinel => exact .pure rfl
  | .array es => by
    refine (evalExprs calls s es).bind fun r => ?_
    cases r with
    | ok values =>
      exact .pure (congrArg Value.array (Value.renameAll_eq_map C.ρ values).symm)
    | error sentinel => exact .pure rfl
  | .index l i => by
    refine (evalExpr calls s l).andThen fun a => (evalExpr calls s i).andThen fun b => ?_
    rw [Value.at_rename]
    exact C.orRaise _

theorem evalExprs (calls : C.Calls call call') (s : ScopeId) : (es : List (Expr Origin)) →
    C.Matches (renameResults C.ρ) (TreeWalk.evalExprs host C.me call s es)
      (TreeWalk.evalExprs host (C.ρ C.me) call' s es)
  | [] => .pure rfl
  | e :: es => by
    refine (evalExpr calls s e).bind fun v => ?_
    rw [Value.isSentinel_rename]
    split
    · exact .pure rfl
    · refine (evalExprs calls s es).bind fun r => ?_
      cases r with
      | ok values => exact .pure rfl
      | error sentinel => exact .pure rfl

theorem evalStmt (calls : C.Calls call call') (s : ScopeId) : (stmt : Stmt Origin) →
    C.Matches (Value.rename C.ρ) (TreeWalk.evalStmt host C.me call s stmt)
      (TreeWalk.evalStmt host (C.ρ C.me) call' s stmt)
  | .bind name e => by
    refine (evalExpr calls s e).andThen fun v => ?_
    intro w u state
    exact .some ⟨rfl, state.define s name v⟩
  | .ret e => (evalExpr calls s e).andThen fun v => .pure rfl
  | .expr e => evalExpr calls s e

theorem evalBlock (calls : C.Calls call call') (s : ScopeId) (before : Value) :
    (block : Block Origin) →
    C.Matches (Value.rename C.ρ) (TreeWalk.evalBlock host C.me call s before block)
      (TreeWalk.evalBlock host (C.ρ C.me) call' s (before.rename C.ρ) block)
  | [] => .pure rfl
  | stmt :: block => (evalStmt calls s stmt).andThen fun v => evalBlock calls s v block

end

end Walk

/-! ## Functions and programs -/

/-- A body that runs between two events, and whose result is unwrapped. -/
theorem Matches.unwrapped {x y : Run Value} (body : C.Matches (Value.rename C.ρ) x y)
    {w₁ u₁ : World} (opened : C.Since w u w₁ u₁) (e : Event) :
    Option.Rel (C.Ends (Value.rename C.ρ) w u)
      ((x.run w₁).map fun r => (r.1.unwrapReturn, r.2.record e))
      ((y.run u₁).map fun r => (r.1.unwrapReturn, r.2.record e)) := by
  refine rel_map (body _ _ opened.state) fun r q ends =>
    ⟨?_, opened.trans (ends.2.trans (ends.2.state.record e))⟩
  show q.1.unwrapReturn = r.1.unwrapReturn.rename C.ρ
  rw [ends.1, Value.unwrapReturn_rename]

variable (C) (depth : Nat)

/-- Calls correspond at every bound on their nesting. -/
theorem invoke : C.Calls (TreeWalk.invoke host C.me depth)
    (TreeWalk.invoke host (C.ρ C.me) depth) := by
  induction depth with
  | zero =>
    -- Both runs are cut short where the bound is reached.
    exact fun f args w u state => .none
  | succ depth ih =>
    intro f args w u state
    have next : u.heap.next = w.heap.next := by rw [state.heap, Heap.next_map]
    rw [run_invoke, run_invoke, state.span f, next]
    exact Matches.unwrapped (evalBlock ih w.heap.next .null f.body) (state.entered f args) _

/-- Programs correspond. -/
theorem evalProgram (s : ScopeId) (program : Program Origin) :
    C.Matches (Value.rename C.ρ) (TreeWalk.evalProgram host C.me depth s program)
      (TreeWalk.evalProgram host (C.ρ C.me) depth s program) := by
  intro w u state
  rw [run_evalProgram, run_evalProgram]
  exact Matches.unwrapped (evalBlock (C.invoke depth) s .null program) (state.record _) _

/-- Calls of any value correspond. -/
theorem applyValue (callee : Value) (args : List Value) :
    C.Matches (Value.rename C.ρ) (TreeWalk.applyValue host C.me depth callee args)
      (TreeWalk.applyValue host (C.ρ C.me) depth (callee.rename C.ρ)
        (args.map (Value.rename C.ρ))) :=
  evalCall (C.invoke depth) callee args

/-! ## What is counted -/

variable {C}

/-- The results correspond, and what was counted is the same. -/
structure Agrees (C : Correspondence host) (w u : World) (r q : Value × World) : Prop where
  value : q.1 = r.1.rename C.ρ
  state : C.State r.2 q.2
  counted : ∃ events, w.Counted C.me events r.2 ∧ u.Counted (C.ρ C.me) events q.2

/-- Runs that correspond count the same where each counts what it reports. -/
theorem agrees_of_ends {x y : Run Value}
    (step : Option.Rel (C.Ends (Value.rename C.ρ) w u) (x.run w) (y.run u))
    (left : ∀ {v w' events}, x.run w = some (v, w') → w.Reported events w' →
      w.Counted C.me events w')
    (right : ∀ {v u' events}, y.run u = some (v, u') → u.Reported events u' →
      u.Counted (C.ρ C.me) events u') :
    Option.Rel (C.Agrees w u) (x.run w) (y.run u) := by
  generalize ranLeft : x.run w = r at step ⊢
  generalize ranRight : y.run u = q at step ⊢
  cases step with
  | none => exact .none
  | some ends =>
    obtain ⟨value, state, events, reported, reported'⟩ := ends
    exact .some ⟨value, state, events, left ranLeft reported, right ranRight reported'⟩

theorem evalBlock_agrees (state : C.State w u) (s : ScopeId) (block : Block Origin) :
    Option.Rel (C.Agrees w u)
      ((TreeWalk.evalBlock host C.me (TreeWalk.invoke host C.me depth) s .null block).run w)
      ((TreeWalk.evalBlock host (C.ρ C.me) (TreeWalk.invoke host (C.ρ C.me) depth) s .null
        block).run u) :=
  agrees_of_ends (evalBlock (C.invoke depth) s .null block w u state) counted_evalBlock
    counted_evalBlock

theorem evalProgram_agrees (state : C.State w u) (s : ScopeId) (program : Program Origin) :
    Option.Rel (C.Agrees w u) ((TreeWalk.evalProgram host C.me depth s program).run w)
      ((TreeWalk.evalProgram host (C.ρ C.me) depth s program).run u) :=
  agrees_of_ends (C.evalProgram depth s program w u state) counted_evalProgram
    counted_evalProgram

end Correspondence

end TreeWalk
