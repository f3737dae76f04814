import TreeWalk.Proofs.Eval.Ends
import TreeWalk.Proofs.Eval.Sentinel
import TreeWalk.Proofs.Eval.Watched

/-!
# Faults end evaluations

As soon as the evaluator finds a fault or a standard builtin fails, nothing happens any more but
that the open spans are left, and the program ends with the error value. This is about all moments
of an evaluation, so it is proved of the watched evaluator: together with the fact that it does what
the evaluator does.

Results:
1. `Watches.carried`: the watched evaluator does what the evaluator does, and ends as it should.
2. `explaining`: where no sentinel is bound, every error value comes from a fault.
3. `faults_end_programs`: programs.
-/

namespace TreeWalk

open Run Watched

/-! ## Watching runs -/

/-- The watched run does what the run does, and its moments end as they should. -/
def Watches {α : Type} (stop : Value → α) (x : Watched α) (y : Run α) : Prop :=
  ∀ ⦃w a w'⦄, y.run w = some (a, w') → ∃ moments,
    (∀ before, x.runAfter before w = some ((a, before ++ moments), w')) ∧
      Ends stop w a moments w'

namespace Watches

variable {α β : Type} {stop : Value → α} {stop' : Value → β}

theorem pure (a : α) : Watches stop (Pure.pure a) (Pure.pure a) := by
  intro w b w' result
  cases result
  exact ⟨[], fun before => by rw [List.append_nil]; rfl, .pure stop w a⟩

theorem step {x : Run α} (ends : ∀ ⦃w a w'⦄, x.run w = some (a, w') → Ends stop w a [w'] w') :
    Watches stop (Watched.step x) x := by
  intro w a w' result
  refine ⟨[w'], fun before => ?_, ends result⟩
  rw [runAfter_step, result]
  rfl

/-- What comes after a fault passes the error value on and does nothing. -/
theorem bind {x : Watched α} {y : Run α} {f : α → Watched β} {g : α → Run β}
    (first : Watches stop x y) (next : ∀ a, Watches stop' (f a) (g a))
    (passes : ∀ message, f (stop (.err message)) = Pure.pure (stop' (.err message)) ∧
      g (stop (.err message)) = Pure.pure (stop' (.err message))) :
    Watches stop' (x >>= f) (y >>= g) := by
  intro w b w' result
  obtain ⟨a, u, ran, result⟩ := bind_eq_some.mp result
  obtain ⟨moments, kept, ends⟩ := first ran
  cases ends with
  | calm calm all =>
    obtain ⟨more, keptRest, ends⟩ := next a result
    refine ⟨moments ++ more, fun before => ?_, ends.after calm all⟩
    rw [runAfter_bind, kept, Option.bind_some, keptRest, List.append_assoc]
  | struck all struck =>
    -- The result of the first run is the error value, which `g` and `f` pass on.
    rw [(passes _).2] at result
    cases result
    refine ⟨_, fun before => ?_, .struck all struck⟩
    rw [runAfter_bind, kept, Option.bind_some, (passes _).1]
    rfl

/-! ## Pieces of the walk -/

section Pieces

variable {host : Host} {me : InterpreterId}

theorem raise (fault : EvalFault) :
    Watches id (Watched.step (Run.raise me fault)) (Run.raise me fault) := by
  refine step fun w a w' result => ?_
  cases result
  exact .step_struck (w.struck_raised me fault)

theorem orRaise (r : Except EvalFault Value) :
    Watches id (Watched.step (Run.orRaise me r)) (Run.orRaise me r) := by
  cases r with
  | ok v =>
    refine step fun w a w' result => ?_
    cases result
    exact .step_calm (.refl w)
  | error fault => exact raise fault

theorem evalName (s : ScopeId) (name : String) :
    Watches id (Watched.step (evalName me s name)) (evalName me s name) := by
  refine step fun w a w' result => ?_
  rw [run_evalName] at result
  cases found : w.heap.resolve s name with
  | some v =>
    rw [found] at result
    cases result
    exact .step_calm (.refl w)
  | none =>
    rw [found] at result
    cases named : Standard.named? name with
    | some op =>
      rw [named] at result
      cases result
      exact .step_calm (.refl w)
    | none =>
      rw [named] at result
      cases result
      exact .step_struck (w.struck_raised me _)

theorem define (s : ScopeId) (name : String) (v : Value) :
    Watches id (walkDefine Watched.step s name v) (walkDefine (m := Run) id s name v) := by
  intro w a w' result
  cases result
  exact ⟨[_], fun _ => rfl, .step_calm (World.calm_of_log rfl fun _ => rfl)⟩

theorem callBuiltin (b : Builtin) (args : List Value) :
    Watches id (Watched.step (callBuiltin host b args)) (callBuiltin host b args) := by
  refine step fun w a w' result => ?_
  cases b with
  | host id name =>
    cases result
    exact .step_calm (.refl w)
  | standard owner op =>
    rw [TreeWalk.callBuiltin, run_standard] at result
    cases result
    cases value : ((w.interpreter owner).compute op args).1 with
    | ok v => exact .step_calm (World.calm_computed value)
    | error fault => exact .step_struck (World.struck_computed value)

/-- A call of a builtin is counted and reported without a fault, and then it may fail. -/
theorem builtin (b : Builtin) (args : List Value) :
    Watches id (walkBuiltin Watched.step host me b args)
      (walkBuiltin (m := Run) id host me b args) := by
  intro w a w' result
  rw [run_walkBuiltin] at result
  obtain ⟨moments, kept, ends⟩ := callBuiltin b args result
  let counted := w.tally me fun s => { s with builtinCalls := s.builtinCalls + 1 }
  have calm : w.Calm [] counted := w.calm_tally me fun _ => rfl
  have called : w.Calm [] (w.calling me b args.length) := calm.trans (counted.calm_notice rfl)
  refine ⟨w.callingSteps me b args.length ++ moments, fun before => ?_, ends.after called ?_⟩
  · rw [runAfter_builtin, kept, List.append_assoc]
  · exact List.forall_mem_cons.mpr ⟨⟨[], calm⟩, List.forall_mem_singleton.mpr ⟨[], called⟩⟩

/-- Before the body of a closure its span is opened, and nothing goes wrong. -/
theorem calm_enteringSteps (w : World) (f : Closure) (args : List Value) :
    (∀ m ∈ w.enteringSteps me f args, ∃ spans, w.Calm spans m) ∧
      w.Calm [f.span w.heap] (w.entered me f args) := by
  let opened := w.record (.enter (f.span w.heap))
  let counted := opened.tally me fun s => { s with functionCalls := s.functionCalls + 1 }
  let made : World := { counted with heap := (w.heap.callScope f args).2 }
  have counting : opened.Calm [] counted := opened.calm_tally me fun _ => rfl
  have making : counted.Calm [] made := World.calm_of_log rfl fun _ => rfl
  have opens : w.Calm [f.span w.heap] opened := w.calm_enter _
  have counts : w.Calm [f.span w.heap] counted := opens.trans counting
  have makes : w.Calm [f.span w.heap] made := counts.trans making
  have notes : w.Calm [f.span w.heap] (w.entered me f args) := makes.trans (made.calm_notice rfl)
  refine ⟨?_, notes⟩
  simp only [World.enteringSteps, List.forall_mem_cons]
  exact ⟨⟨_, opens⟩, ⟨_, counts⟩, ⟨_, makes⟩, ⟨_, notes⟩, List.forall_mem_nil _⟩

theorem body (f : Closure) (args : List Value) {x : ScopeId → Watched Value}
    {y : ScopeId → Run Value} (inner : ∀ s, Watches id (x s) (y s)) :
    Watches id (walkBody Watched.step me f args x) (walkBody id me f args y) := by
  intro w a w' result
  rw [run_walkBody, Option.map_eq_some_iff] at result
  obtain ⟨⟨b, u⟩, ran, eq⟩ := result
  cases eq
  obtain ⟨moments, kept, ends⟩ := inner w.heap.next ran
  obtain ⟨steps, opened⟩ := calm_enteringSteps w f args
  refine ⟨_, fun before => ?_, ends.around Value.unwrapReturn (fun _ => rfl) opened steps⟩
  rw [runAfter_body, kept]
  simp only [Option.map_some, Watched.leave, List.append_assoc]

theorem span (span : Span) {x : Watched Value} {y : Run Value} (inner : Watches id x y) :
    Watches id (walkSpan Watched.step span x) (walkSpan id span y) := by
  intro w a w' result
  rw [run_walkSpan, Option.map_eq_some_iff] at result
  obtain ⟨⟨b, u⟩, ran, eq⟩ := result
  cases eq
  obtain ⟨moments, kept, ends⟩ := inner ran
  have opened := w.calm_enter span
  refine ⟨_, fun before => ?_,
    ends.around id (fun _ => rfl) opened (List.forall_mem_singleton.mpr ⟨_, opened⟩)⟩
  rw [runAfter_span, kept]
  simp only [Option.map_some, Watched.leave, List.append_assoc, id]

/-- The watched evaluator does what the evaluator does, and its moments end as they should. -/
def carried (host : Host) (me : InterpreterId) : Carried host me Watched.step where
  Rel := Watches
  pure := pure
  bind := bind
  name := evalName
  operation := orRaise
  define := define
  builtin := builtin
  cutShort _ _ _ result := nomatch result
  body f args _ _ := body f args
  span s _ _ := span s

end Pieces

end Watches

/-! ## Errors come from faults -/

/-- On clean arguments the builtins of the host give clean values, and so do not fail. -/
def Host.StaysClean (host : Host) : Prop :=
  ∀ id args, (∀ v ∈ args, v.Clean) → (host id args).Clean

theorem Host.StaysClean.keepsClean {host : Host} (stays : host.StaysClean) : host.KeepsClean :=
  fun id args all => .inr (stays id args all)

theorem Value.Clean.notError {v : Value} (clean : v.Clean) : v.isError ≠ true := by
  intro error
  have notSentinel := clean.notSentinel
  cases v with
  | err message => cases notSentinel
  | int n | bool b | null | str text | array items | fn f | builtin b | ret v => cases error

/-- Where the value is an error, one was reported since `w`. -/
def World.Explains (w : World) (v : Value) (x : World) : Prop :=
  ∃ events, w.Reported events x ∧ (v.isError = true → errorsOf events ≠ [])

/-- On clean heaps every error value comes from a fault. -/
def explaining {host : Host} (stays : host.StaysClean) (me : InterpreterId) (start : World) :
    Alongside (cleanInvariant stays.keepsClean) me where
  State w := ∃ events, start.Reported events w
  Result := start.Explains
  ofData := by
    rintro g v w ⟨events, reported⟩ data
    exact ⟨events, reported, fun error => absurd error (Value.Clean.notError data)⟩
  ofReturn := by
    rintro v w ⟨events, reported⟩
    exact ⟨events, reported, fun error => nomatch error⟩
  goOn := by
    rintro v w ⟨events, reported, -⟩ -
    exact ⟨events, reported⟩
  bind state := state
  fault := by
    rintro g w f ⟨events, reported⟩ - -
    refine ⟨_, reported.trans (w.reported_raised me f), fun _ => ?_⟩
    rw [errorsOf_append]
    exact List.append_ne_nil_of_right_ne_nil _ (List.cons_ne_nil f.toValue [])
  builtin := by
    rintro g b args w v w' ⟨events, reported⟩ all result
    have called := reported.trans (w.reported_calling me b args.length)
    cases b with
    | host id name =>
      cases result
      exact ⟨_, called, fun error => absurd error (stays id args all).notError⟩
    | standard owner op =>
      rw [callBuiltin, run_standard] at result
      cases result
      let caller := w.calling me (.standard owner op) args.length
      refine ⟨_, called.trans (caller.reported_computed owner op args), ?_⟩
      cases value : ((caller.interpreter owner).compute op args).1 with
      | ok v =>
        intro error
        exact absurd error (Value.hereditary_clean.compute all value).notError
      | error fault =>
        intro _
        rw [errorsOf_append]
        exact List.append_ne_nil_of_right_ne_nil _ (List.cons_ne_nil fault.toValue [])
  enter := by
    rintro f args w ⟨events, reported⟩
    exact ⟨_, reported.trans (w.reported_entered me f args)⟩
  leave := by
    rintro g v w span carries ⟨events, reported, explained⟩
    refine ⟨_, reported.trans (w.reported_record (.leave span)), fun error => ?_⟩
    rw [errorsOf_append]
    refine List.append_ne_nil_of_left_ne_nil (explained ?_) _
    -- Leaving a body takes a return value apart, and what is within is clean.
    cases v with
    | ret x =>
      have clean : x.Clean := carries
      exact absurd error clean.notError
    | int n | bool b | null | str text | array items | fn f | builtin b | err message => exact error

/-! ## Programs -/

/-- A program whose result is no error value has had no fault. -/
theorem calm_evalProgram {host : Host} {me : InterpreterId} {depth : Nat} {s : ScopeId}
    {program : Program Origin} {w w' : World} {v : Value}
    (result : (evalProgram host me depth s program).run w = some (v, w'))
    (notError : v.isError = false) : w.Calm [] w' := by
  obtain ⟨moments, -, ends⟩ := (Watches.carried host me).walkProgram depth s program result
  cases ends with
  | calm calm _ => exact calm
  | struck _ _ => cases notError

/-- Faults end programs. A program counts at most one fault. If the evaluator finds one or a standard
builtin fails, this is the last that happens but that the open spans are left: so say the moments of
the program. Its result is then the error value of the fault. And where no bound value contains a
sentinel, and the builtins of the host give none, a program has an error value as its result only if
exactly one fault was reported. -/
theorem faults_end_programs (host : Host) (me : InterpreterId) (depth : Nat) (s : ScopeId)
    (program : Program Origin) (w w' : World) (v : Value)
    (result : (evalProgram host me depth s program).run w = some (v, w')) :
    ∃ moments events,
      (walkProgram Watched.step host me depth s program).runAfter [] w = some ((v, moments), w') ∧
      w.Reported events w' ∧ (∀ i, w'.faults i ≤ w.faults i + 1) ∧
      (errorsOf events = [] ∨ errorsOf events = [v] ∧ ∃ before x spans,
        moments = before ++ x :: x.leaving spans ∧ w' = x.leaveAll spans ∧ w.Struck v spans x) ∧
      (host.StaysClean → w.heap.Clean → v.isError = true → errorsOf events = [v]) := by
  obtain ⟨moments, watched, ends⟩ := (Watches.carried host me).walkProgram depth s program result
  cases ends with
  | calm calm all =>
    -- Without a fault nothing explains an error value, so on clean heaps the result is none.
    obtain ⟨⟨events, reported, none, -⟩, counted⟩ := calm
    refine ⟨moments, events, watched [], reported, fun i => counted i ▸ Nat.le_succ _, .inl none,
      fun stays clean error => ?_⟩
    have explained : w.Explains v w' := (explaining stays me w).evalProgram (g := .only)
      (Heap.clean_iff.mp clean) (fun _ _ => trivial) ⟨_, w.reported_record _⟩ result
    obtain ⟨more, reported', some⟩ := explained
    rw [reported'.unique reported] at some
    exact absurd none (some error)
  | @struck message before x spans all struck =>
    obtain ⟨⟨events, fault, reported, none, is, opens⟩, counted⟩ := struck
    have one : errorsOf (events ++ [fault] ++ spans.map .leave) = [.err message] := by
      rw [errorsOf_append, errorsOf_append, none, errorsOf_leave]
      simp [errorsOf, is]
    refine ⟨_, _, watched [], reported.trans (x.reported_leaveAll spans), fun i => ?_,
      .inr ⟨one, before, x, spans, rfl, rfl, ⟨events, fault, reported, none, is, opens⟩, counted⟩,
      fun _ _ _ => one⟩
    rw [World.faults, x.interpreter_leaveAll]
    exact counted i

/-- A program with a fault in a call, in an element of an array, in the value of a `let`. -/
def interrupted : Program Origin :=
  [.bind "f" (.fn ⟨0, 0⟩ ["x"]
      [.expr (.infixOp (.ident "x") .add (.str "a")),
        .expr (.call (.ident "puts") [.ident "x"])]),
    .bind "y" (.array [.call (.ident "f") [.int 1], .call (.ident "f") [.int 2]]),
    .expr (.ident "z")]

theorem faults_end_programs_interrupted :
    ∃ w' moments before x spans,
      (evalProgram .empty ⟨0⟩ 1 ⟨0⟩ interrupted).run .rooted =
        some (.err "type mismatch: INTEGER + STRING", w') ∧
      (walkProgram Watched.step .empty ⟨0⟩ 1 ⟨0⟩ interrupted).runAfter [] .rooted =
        some ((.err "type mismatch: INTEGER + STRING", moments), w') ∧
      moments = before ++ x :: x.leaving spans ∧ w' = x.leaveAll spans ∧
      World.rooted.Struck (.err "type mismatch: INTEGER + STRING") spans x := by
  have ends : ((evalProgram .empty ⟨0⟩ 1 ⟨0⟩ interrupted).run .rooted).map Prod.fst =
      some (.err "type mismatch: INTEGER + STRING") := by decide +kernel
  obtain ⟨⟨v, w'⟩, result, eq⟩ := Option.map_eq_some_iff.mp ends
  dsimp only at eq
  subst eq
  have stays : Host.empty.StaysClean := fun _ _ _ => Value.hereditary_clean.null
  obtain ⟨moments, events, watched, -, -, fault, one⟩ :=
    faults_end_programs .empty ⟨0⟩ 1 ⟨0⟩ interrupted .rooted w' _ result
  rcases fault with none | ⟨-, before, x, spans, since, last, struck⟩
  · rw [one stays World.clean_rooted rfl] at none
    cases none
  · exact ⟨w', moments, before, x, spans, result, watched, since, last, struck⟩

end TreeWalk
