import TreeWalk.Proofs.Eval.Counting
import TreeWalk.Proofs.Scope.Existing

/-!
# Nested spans

Spans are nested: within the span of a program or of a call the spans of further calls are entered
and left again, one after another. The first event within the span of a call shows the scope that was
made for it. So each call is in the log with its span, and with its scope right after it.

A log alone does not say whose parameters are shown. So what is nested are stretches of a run, from
state to state (`Nested`): each call is that of a closure on its arguments, from the state in which its
span is entered to the one in which it is left, and the names are those of the closure's parameters.

Results:
1. `Nested.reported`, `Nested.append`: the events of a stretch, and one stretch after another.
2. `Nested.count`: there are as many calls as scopes are shown.
3. `nesting`: all that a run reports is nested.
4. `log_agrees_with_counts`: the log, the counts and the scopes agree.
-/

namespace TreeWalk

/-! ## What runs go through -/

/-- The notice shows the scope of a call, with these names and at this depth. -/
def Notice.Shows (what : Notice) (names : List String) (depth : Nat) : Prop :=
  what.message = "entered call scope" ∧
    what.fields = [⟨"bindings", scopeDebug names depth, false⟩]

theorem Notice.shows_scopeEntered (names : List String) (depth : Nat) :
    (scopeEntered names depth).Shows names depth :=
  ⟨rfl, rfl⟩

section Events

variable (host : Host) (me : InterpreterId)

/-- What an evaluation does from one state to another, other than to call a function, and the notices
of it: a name is bound, a fault is found, or a builtin is called, which reports its failure. -/
inductive PlainStep : World → List Event → World → Prop
  | define (w : World) (s : ScopeId) (name : String) (v : Value) :
      PlainStep w [] { w with heap := w.heap.define s name v }
  | raise (w : World) (fault : EvalFault) :
      PlainStep w [.notice (.faultRaised fault)] (w.raised me fault)
  | builtin {b : Builtin} {args : List Value} {outcome : Except BuiltinFault Value} {w x : World} :
      (callBuiltin host b args).run (w.calling me b args.length) =
        some (Standard.value outcome, x) →
      (w.calling me b args.length).Reported (Standard.events outcome) x →
      PlainStep w (.notice (.builtinCalled b.name args.length) :: Standard.events outcome) x

/-- From one state to another there are plain steps and calls of closures, with these events. A call
starts where its span is entered and comes to the state in which its span is left. Right after the span
was entered, the scope of the call is shown: with the names of the parameters of this very closure, and
one deeper than the span says. In between, its body goes by plain steps and calls again. -/
inductive Nested : World → List Event → World → Prop
  | nil (w : World) : Nested w [] w
  | step {w x y : World} {events more : List Event} :
      PlainStep host me w events x → Nested x more y → Nested w (events ++ more) y
  | call {depth : Nat} {f : Closure} {args : List Value} {v : Value} {names : List String}
      {w x y : World} {inner more : List Event} :
      f.arity = args.length →
      (applyValue host me depth (.fn f) args).run w =
        some (v, x.record (.leave (.application f.arity (w.heap.depth f.scope)))) →
      InOrder names f.params →
      (w.scopeNotice f args).Shows names (w.heap.depth f.scope + 1) →
      Nested (w.entered me f args) inner x →
      Nested (x.record (.leave (.application f.arity (w.heap.depth f.scope)))) more y →
      Nested w (.enter (.application f.arity (w.heap.depth f.scope)) ::
        .notice (w.scopeNotice f args) ::
        (inner ++ .leave (.application f.arity (w.heap.depth f.scope)) :: more)) y

end Events

variable {host : Host} {me : InterpreterId} {w x y : World} {events more : List Event}

/-! ## Plain steps -/

/-- In a plain step nothing is called and no scope of a call is shown. -/
theorem PlainStep.plain (step : PlainStep host me w events x) :
    ∀ e ∈ events, e.isCall = false ∧ e.isCallScope = false := by
  cases step with
  | define s name v => exact List.forall_mem_nil _
  | raise => exact List.forall_mem_singleton.mpr ⟨rfl, rfl⟩
  | @builtin _ _ outcome =>
    refine List.forall_mem_cons.mpr ⟨⟨rfl, rfl⟩, ?_⟩
    cases outcome with
    | ok v => exact List.forall_mem_nil _
    | error fault => exact List.forall_mem_singleton.mpr ⟨rfl, rfl⟩

theorem PlainStep.reported (step : PlainStep host me w events x) : w.Reported events x := by
  cases step with
  | define s name v => exact .refl w
  | raise => exact w.reported_raised me _
  | @builtin b args _ _ _ _ reported => exact (w.reported_calling me b args.length).trans reported

/-- The call of a builtin that has a result is a plain step. -/
theorem exists_plainStep {b : Builtin} {args : List Value} {v : Value}
    (result : (callBuiltin host b args).run (w.calling me b args.length) = some (v, x)) :
    ∃ events, PlainStep host me w events x := by
  cases b with
  | standard owner op =>
    have ran : (callBuiltin host (.standard owner op) args).run _ = _ :=
      run_standard owner op args (w.calling me (.standard owner op) args.length)
    obtain ⟨-, rfl⟩ := Prod.mk.inj (Option.some.inj (ran.symm.trans result))
    exact ⟨_, .builtin ran (World.reported_computed _ owner op args)⟩
  | host id name =>
    have ran : (callBuiltin host (.host id name) args).run _ =
        some (Standard.value (.ok (host id args)), w.calling me (.host id name) args.length) := rfl
    obtain ⟨-, rfl⟩ := Prod.mk.inj (Option.some.inj (ran.symm.trans result))
    exact ⟨_, .builtin ran (.refl _)⟩

/-! ## Nested events -/

namespace Nested

/-- The events are those by which the log grows. -/
theorem reported (nested : Nested host me w events x) : w.Reported events x := by
  induction nested with
  | nil w => exact .refl w
  | step step _ ih => exact step.reported.trans ih
  | @call depth f args v names w x y inner more _ _ _ _ _ _ within after =>
    exact (w.reported_entered me f args).trans (within.trans ((x.reported_record _).trans after))

theorem append (first : Nested host me w events x) (next : Nested host me x more y) :
    Nested host me w (events ++ more) y := by
  induction first with
  | nil w => exact next
  | step step _ ih =>
    rw [List.append_assoc]
    exact .step step (ih next)
  | call arity ran order shows inside _ _ ih =>
    rw [List.cons_append, List.cons_append, List.append_assoc, List.cons_append]
    exact .call arity ran order shows inside (ih next)

theorem single (step : PlainStep host me w events x) : Nested host me w events x := by
  have nested : Nested host me w (events ++ []) x := .step step (.nil x)
  rwa [List.append_nil] at nested

/-- There is one scope shown for each call. -/
theorem count (nested : Nested host me w events x) :
    events.countP Event.isCallScope = events.countP Event.isCall := by
  induction nested with
  | nil w => rfl
  | @step w x y events more step _ ih =>
    have plain := step.plain
    have scopes : events.countP Event.isCallScope = 0 :=
      List.countP_eq_zero.mpr fun e mem => by simp [(plain e mem).2]
    have calls : events.countP Event.isCall = 0 :=
      List.countP_eq_zero.mpr fun e mem => by simp [(plain e mem).1]
    rw [List.countP_append, List.countP_append, ih, scopes, calls]
  | call _ _ _ _ _ _ within after =>
    simp only [List.countP_cons, List.countP_append, within, after]
    rfl

end Nested

/-! ## All runs -/

/-- The notice of a call shows the names of the parameters, one deeper than the captured scope. -/
theorem World.shows_scopeNotice {f : Closure} {args : List Value}
    (exist : f.scope.index < w.heap.size) (arity : f.arity = args.length) :
    ∃ names, InOrder names f.params ∧
      (w.scopeNotice f args).Shows names (w.heap.depth f.scope + 1) := by
  refine ⟨_, Heap.inOrder_callScope (h := w.heap) arity, ?_⟩
  rw [scopeNotice, Heap.depth_callScope args exist]
  exact Notice.shows_scopeEntered _ _

/-- A run is nested, where all closures are of scopes that exist. -/
def nesting {size : Nat} (confined : host.ConfinedTo size) (me : InterpreterId) :
    Course (existingInvariant confined) me where
  Rel w x := ∃ events, Nested host me w events x
  refl w := ⟨[], .nil w⟩
  trans := by
    rintro w x y ⟨events, first⟩ ⟨more, next⟩
    exact ⟨_, first.append next⟩
  define w s name v := ⟨_, .single (.define w s name v)⟩
  raised w fault := ⟨_, .single (.raise w fault)⟩
  builtin result := by
    obtain ⟨events, step⟩ := exists_plainStep result
    exact ⟨events, .single step⟩
  call {_ f args _ w w'} holds data arity := by
    rintro ⟨depth, ran⟩ ⟨inner, nested⟩
    -- The depths in the two events are of one chain only because the captured scope exists.
    have exist : f.scope.index < w.heap.size := by
      rw [holds.1]
      exact Value.within_fn.mp data
    obtain ⟨names, order, shows⟩ := World.shows_scopeNotice exist arity
    exact ⟨_, .call arity ran order shows nested (.nil _)⟩

/-! ## The log and the counts -/

section Agreement

variable {depth : Nat} {v : Value}
variable (confined : host.ConfinedTo w.heap.size) (grounded : w.heap.Grounded)

include confined grounded

theorem nested_evalProgram {s : ScopeId} {program : Program Origin} (exist : s.index < w.heap.size)
    (result : (evalProgram host me depth s program).run w = some (v, y)) :
    ∃ inner x, Nested host me (w.record (.enter (.program program.length))) inner x ∧
      y = x.record (.leave (.program program.length)) := by
  obtain ⟨x, ⟨inner, nested⟩, last⟩ :=
    (nesting confined me).evalProgram (g := ⟨_, le_refl _⟩) ⟨rfl, grounded⟩ (fun _ _ => exist)
      result
  exact ⟨inner, x, nested, last⟩

theorem nested_applyValue {f : Closure} {args : List Value} (exist : f.scope.index < w.heap.size)
    (all : ∀ a ∈ args, a.Within fun s => s.index < w.heap.size) (arity : f.arity = args.length)
    (result : (applyValue host me depth (.fn f) args).run w = some (v, y)) :
    ∃ inner x, Nested host me (w.entered me f args) inner x ∧
      y = x.record (.leave (f.span w.heap)) := by
  obtain ⟨x, ⟨inner, nested⟩, last⟩ :=
    (nesting confined me).applyValue (g := ⟨_, le_refl _⟩) ⟨rfl, grounded⟩
      (Value.within_fn.mpr exist) all arity result
  exact ⟨inner, x, nested, last⟩

end Agreement

/-- The log agrees with the counts, in a session in which all closures are of scopes that exist. What a
program reports begins with its own span, ends with leaving it, and is nested in between, whatever the
result is: the calls in it are those of closures, each with the names of its own parameters. There are
as many calls in it as scopes were shown, as scopes were made and as the interpreter has counted, and as
many calls of builtins and faults as it has counted. What a call of a function reports is its own span,
in which first the names of its own parameters are shown, and nested after that. -/
theorem log_agrees_with_counts (host : Host) (me : InterpreterId) (depth : Nat) (w w' : World)
    (v : Value) (confined : host.ConfinedTo w.heap.size) (grounded : w.heap.Grounded) :
    (∀ s program, s.index < w.heap.size →
      (evalProgram host me depth s program).run w = some (v, w') →
      ∃ inner x log, log = .enter (.program program.length) ::
          (inner ++ [.leave (.program program.length)]) ∧
        Nested host me (w.record (.enter (.program program.length))) inner x ∧
        w' = x.record (.leave (.program program.length)) ∧ w.Counted me log w' ∧
        log.countP Event.isCallScope = log.countP Event.isCall) ∧
    (∀ f args, f.scope.index < w.heap.size →
      (∀ a ∈ args, a.Within fun s => s.index < w.heap.size) → f.arity = args.length →
      (applyValue host me depth (.fn f) args).run w = some (v, w') →
      ∃ names inner x log, log = .enter (.application f.arity (w.heap.depth f.scope)) ::
          .notice (w.scopeNotice f args) ::
          (inner ++ [.leave (.application f.arity (w.heap.depth f.scope))]) ∧
        InOrder names f.params ∧
        (w.scopeNotice f args).Shows names (w.heap.depth f.scope + 1) ∧
        Nested host me (w.entered me f args) inner x ∧ Nested host me w log w' ∧
        w' = x.record (.leave (.application f.arity (w.heap.depth f.scope))) ∧
        w.Counted me log w' ∧ log.countP Event.isCallScope = log.countP Event.isCall) := by
  constructor
  · intro s program exist result
    obtain ⟨inner, x, nested, rfl⟩ := nested_evalProgram confined grounded exist result
    have reported : w.Reported (.enter (.program program.length) ::
        (inner ++ [.leave (.program program.length)])) _ :=
      (w.reported_record _).trans (nested.reported.trans (x.reported_record _))
    refine ⟨inner, x, _, rfl, nested, rfl, counted_evalProgram result reported, ?_⟩
    simp only [List.countP_cons, List.countP_append, nested.count]
    rfl
  · intro f args exist all arity result
    obtain ⟨inner, x, nested, rfl⟩ := nested_applyValue confined grounded exist all arity result
    obtain ⟨names, order, shows⟩ := World.shows_scopeNotice exist arity
    have whole := Nested.call arity result order shows nested (.nil _)
    exact ⟨names, inner, x, _, rfl, order, shows, nested, whole, rfl,
      counted_applyValue result whole.reported, whole.count⟩

/-- A program that calls a function in a function, and then calls the former once more with too few
arguments. The function has two parameters of one name. -/
def recalling : Program Origin :=
  [.bind "pair" (.fn ⟨0, 0⟩ ["y", "x", "y"]
      [.expr (.array [.ident "x", .call (.ident "len") [.ident "y"]])]),
    .bind "twice" (.fn ⟨1, 1⟩ ["f"]
      [.expr (.call (.ident "f") [.int 1, .int 2, .str "ab"]), .expr (.call (.ident "f") [])]),
    .expr (.call (.ident "twice") [.ident "pair"])]

theorem log_agrees_with_counts_recalling :
    ∃ w' inner x, (evalProgram .empty ⟨0⟩ 2 ⟨0⟩ recalling).run .rooted =
        some (.err "wrong number of arguments: want=3, got=0", w') ∧
      Nested .empty ⟨0⟩ (World.rooted.record (.enter (.program 3))) inner x ∧
      World.rooted.Counted ⟨0⟩
        (.enter (.program 3) :: (inner ++ [.leave (.program 3)])) w' ∧
      (w'.interpreter ⟨0⟩).stats = ⟨2, 1, 1⟩ ∧ w'.heap.size = 3 := by
  have confined : Host.empty.ConfinedTo World.rooted.heap.size := fun _ _ s mentions =>
    ((Value.hereditary_within fun _ => False).null s mentions).elim
  have grounded : World.rooted.heap.Grounded := by
    intro c n v _ found
    rw [World.bindings_rooted] at found
    cases found
  have ends : ((evalProgram .empty ⟨0⟩ 2 ⟨0⟩ recalling).run .rooted).map
      (fun r => (r.1, (r.2.interpreter ⟨0⟩).stats, r.2.heap.size)) =
      some (.err "wrong number of arguments: want=3, got=0", ⟨2, 1, 1⟩, 3) := by decide +kernel
  obtain ⟨⟨v, w'⟩, result, eq⟩ := Option.map_eq_some_iff.mp ends
  simp only [Prod.mk.injEq] at eq
  obtain ⟨rfl, stats, size⟩ := eq
  obtain ⟨inner, x, _, rfl, nested, -, counted, -⟩ :=
    (log_agrees_with_counts .empty ⟨0⟩ 2 .rooted w' _ confined grounded).1 ⟨0⟩ recalling
      (by decide) result
  exact ⟨w', inner, x, result, nested, counted, stats, size⟩

end TreeWalk
