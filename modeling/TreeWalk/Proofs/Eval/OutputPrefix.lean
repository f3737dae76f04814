import TreeWalk.Proofs.Eval.InStep
import TreeWalk.Proofs.Eval.Term
import TreeWalk.Proofs.Eval.Walk
import TreeWalk.Proofs.Sink.Limit

/-!
# What a full sink gets

A run whose sink takes everything is compared to the same run with a limit on the sink. They go on
alike until a write exceeds the limit. At that write the limited sink takes what it still can, and
the builtin fails. The error value is then the result of everything around, and nothing more is
written, so the limited sink has received the first bytes of what the other one receives.

Results:
1. `Truncates`: a run with and without the limit, kept by putting runs together.
2. `Truncates.carried`: the evaluator with and without the limit.
3. `output_prefix`: programs.
-/

namespace TreeWalk

open Run

/-- The result of writing more than a sink takes. -/
def refused (refusal : String) : Value :=
  .err ("could not write output: " ++ refusal)

/-- A run never takes back what was written. With a limit on the sink it does the same as long as
the limit is not exceeded, and else it stops with a result of its own. -/
structure Truncates (i : InterpreterId) (capacity : Nat) (refusal : String) {α : Type} (stop : α)
    (x : Run α) : Prop where
  grows : ∀ {w a w'}, w.Unlimited i → x.run w = some (a, w') →
    w'.Unlimited i ∧ w.written i <+: w'.written i
  follows : ∀ {w u a w'}, w.Within i capacity refusal u → x.run w = some (a, w') →
    ∃ b u', x.run u = some (b, u') ∧
      (b = a ∧ w'.Within i capacity refusal u' ∨ b = stop ∧ w'.Exceeded i capacity u')

namespace Truncates

variable {i : InterpreterId} {capacity : Nat} {refusal : String} {α β : Type}

/-! ## Putting runs together -/

/-- A run that leaves the sink alone. -/
theorem of_inStep {stop : α} {x : Run α}
    (h : ∀ w u : World, w.Limited i capacity refusal u → InStep x w u fun _ w' u' =>
      w'.Limited i capacity refusal u' ∧ (w'.interpreter i).sink = (w.interpreter i).sink) :
    Truncates i capacity refusal stop x where
  grows {w a w'} free result := by
    have limited := w.limited_limitOutput i capacity refusal
    obtain ⟨u', -, -, same⟩ := (h w _ limited).other result
    rw [World.Unlimited, World.written, World.written, same]
    exact ⟨free, List.prefix_rfl⟩
  follows {w u a w'} within result := by
    obtain ⟨u', ran, limited, same⟩ := (h w u within.limited).other result
    exact ⟨a, u', ran, .inl ⟨rfl, within.of_sink same limited⟩⟩

/-- A run that starts by leaving the sink alone. -/
theorem after {stop : α} {x : Run α} {y : World → Run α} {start : World → World}
    (run : ∀ w, x.run w = (y w).run (start w))
    (same : ∀ w u, w.Limited i capacity refusal u →
      y u = y w ∧ (start w).Limited i capacity refusal (start u))
    (silent : ∀ w, ((start w).interpreter i).sink = (w.interpreter i).sink)
    (rest : ∀ w, Truncates i capacity refusal stop (y w)) :
    Truncates i capacity refusal stop x where
  grows {w a w'} free result := by
    rw [run] at result
    obtain ⟨free, grown⟩ := (rest w).grows ((congrArg Sink.capacity (silent w)).trans free) result
    rw [World.written, silent] at grown
    exact ⟨free, grown⟩
  follows {w u a w'} within result := by
    obtain ⟨sameRest, limited⟩ := same w u within.limited
    rw [run] at result
    rw [run, sameRest]
    exact (rest w).follows (within.of_sink (silent w) limited) result

/-- Where the first run stops, what comes after it passes the result on and writes nothing. -/
theorem bind {stop : α} {stop' : β} {x : Run α} {f : α → Run β}
    (first : Truncates i capacity refusal stop x)
    (next : ∀ a, Truncates i capacity refusal stop' (f a))
    (passes : ∀ u, ∃ u', (f stop).run u = some (stop', u') ∧
      (u'.interpreter i).sink = (u.interpreter i).sink) :
    Truncates i capacity refusal stop' (x >>= f) where
  grows free result := by
    obtain ⟨a, x, ran, result⟩ := bind_eq_some.mp result
    obtain ⟨free, grown⟩ := first.grows free ran
    obtain ⟨free, more⟩ := (next a).grows free result
    exact ⟨free, grown.trans more⟩
  follows {w u b w'} within result := by
    obtain ⟨a, x, ran, result⟩ := bind_eq_some.mp result
    obtain ⟨a', y, ran', ⟨rfl, within⟩ | ⟨rfl, exceeded⟩⟩ := first.follows within ran
    · obtain ⟨b', u', result', ends⟩ := (next a').follows within result
      exact ⟨b', u', bind_eq_some.mpr ⟨a', y, ran', result'⟩, ends⟩
    · -- The other run goes on and may write more, which leaves the limit exceeded.
      obtain ⟨u', passed, same⟩ := passes y
      obtain ⟨free, -⟩ := first.grows within.unlimited ran
      obtain ⟨-, grown⟩ := (next a).grows free result
      exact ⟨stop', u', bind_eq_some.mpr ⟨a', y, ran', passed⟩, .inr ⟨rfl, exceeded.mono grown same⟩⟩

theorem pure {stop : α} (a : α) : Truncates i capacity refusal stop (Pure.pure a) :=
  of_inStep fun _ _ limited => .pure ⟨limited, rfl⟩

/-! ## Pieces of the walk -/

section Pieces

variable {me : InterpreterId} {stop : Value}

theorem raise (fault : EvalFault) : Truncates i capacity refusal stop (Run.raise me fault) :=
  of_inStep fun w u limited => .ofResults (run_raise me fault w) (run_raise me fault u)
    ⟨(limited.tally me _).record _, w.sink_raised me i fault⟩

theorem orRaise (r : Except EvalFault Value) :
    Truncates i capacity refusal stop (Run.orRaise me r) := by
  cases r with
  | ok v => exact pure v
  | error fault => exact raise fault

theorem evalName (s : ScopeId) (name : String) :
    Truncates i capacity refusal stop (evalName me s name) := by
  refine of_inStep fun w u limited => ?_
  have left := run_evalName me s name w
  have right := run_evalName me s name u
  rw [limited.heap] at right
  cases found : w.heap.resolve s name with
  | some v =>
    rw [found] at left right
    exact .ofResults left right ⟨limited, rfl⟩
  | none =>
    rw [found] at left right
    cases named : Standard.named? name with
    | some op =>
      rw [named] at left right
      exact .ofResults left right ⟨limited, rfl⟩
    | none =>
      rw [named] at left right
      exact .ofResults left right ⟨(limited.tally me _).record _, w.sink_raised me i _⟩

theorem define (s : ScopeId) (name : String) (v : Value) :
    Truncates i capacity refusal stop
      (walkDefine (m := Run) id s name v) := by
  refine of_inStep fun w u limited => .ofResults rfl rfl ⟨?_, rfl⟩
  rw [limited.heap]
  exact limited.onHeap _

/-- A builtin may write, and is then refused if that exceeds the limit. -/
theorem callBuiltin (host : Host) (b : Builtin) (args : List Value) :
    Truncates i capacity refusal (refused refusal) (callBuiltin host b args) := by
  cases b with
  | host id name => exact pure _
  | standard owner op =>
    by_cases mine : owner = i
    · subst mine
      refine ⟨?_, ?_⟩
      · intro w v w' free result
        rw [TreeWalk.callBuiltin, run_standard] at result
        cases result
        rw [World.Unlimited, World.written, World.written, World.interpreter_computed, if_pos rfl]
        exact Interpreter.compute_grows free op args
      · intro w u v w' within result
        rw [TreeWalk.callBuiltin, run_standard] at result
        cases result
        refine ⟨_, _, run_standard owner op args u, ?_⟩
        rcases within.computed_own op args with ⟨same, within⟩ | ⟨failed, exceeded⟩
        · exact .inl ⟨by rw [same], within⟩
        · exact .inr ⟨by rw [failed]; rfl, exceeded⟩
    · refine of_inStep fun w u limited => ?_
      have right := run_standard owner op args u
      rw [limited.others owner mine] at right
      refine .ofResults (run_standard owner op args w) right
        ⟨limited.computed_of_ne mine op args, ?_⟩
      rw [World.interpreter_computed, if_neg (Ne.symm mine)]

/-- A call of a builtin is counted and reported before the builtin runs. -/
theorem builtin (host : Host) (b : Builtin) (args : List Value) :
    Truncates i capacity refusal (refused refusal) (walkBuiltin (m := Run) id host me b args) :=
  after (run_walkBuiltin me · host b args)
    (fun _ _ limited => ⟨rfl, (limited.tally me _).record _⟩)
    (fun w => w.sink_calling me i b args.length) fun _ => callBuiltin host b args

/-- The span around a body is left also when the body was refused something. What is then done with the
value of the body leaves error values as they are. -/
theorem leave {finish : Value → Value} (keeps : ∀ message, finish (.err message) = .err message)
    {x : Run Value} (body : Truncates i capacity refusal (refused refusal) x) (span : Span) :
    Truncates i capacity refusal (refused refusal)
      (do let v ← x; record (.leave span); return finish v) := by
  refine bind body (fun v => ?_) fun u => ⟨u.record (.leave span), ?_, rfl⟩
  · exact of_inStep fun w u limited => .ofResults rfl rfl ⟨limited.record _, rfl⟩
  · show some (finish (refused refusal), _) = _
    rw [refused, keeps]

theorem body (f : Closure) (args : List Value) {y : ScopeId → Run Value}
    (inner : ∀ s, Truncates i capacity refusal (refused refusal) (y s)) :
    Truncates i capacity refusal (refused refusal) (walkBody id me f args y) := by
  have enter : ∀ w, (walkBody id me f args y).run w =
      (do let v ← y w.heap.next; record (.leave (f.span w.heap)); return v.unwrapReturn :
        Run Value).run (w.entered me f args) := fun _ => rfl
  refine after enter (fun w u limited => ⟨?_, limited.entered me f args⟩)
    (fun w => w.sink_entered me i f args) fun w => ?_
  · rw [limited.heap]
  · exact leave (fun _ => rfl) (inner w.heap.next) (f.span w.heap)

theorem span (span : Span) {y : Run Value}
    (inner : Truncates i capacity refusal (refused refusal) y) :
    Truncates i capacity refusal (refused refusal) (walkSpan id span y) := by
  have enter : ∀ w, (walkSpan id span y).run w =
      (do let v ← y; record (.leave span); return v : Run Value).run (w.record (.enter span)) :=
    fun _ => rfl
  exact after enter (fun w u limited => ⟨rfl, limited.record _⟩) (fun _ => rfl)
    fun _ => leave (fun _ => rfl) inner span

end Pieces

/-- The evaluator with and without the limit. The walk is over runs, so nothing is said of it that
is not said of the evaluator. -/
def carried (i : InterpreterId) (capacity : Nat) (refusal : String) (host : Host)
    (me : InterpreterId) : Carried host me (m := Run) id where
  Rel stop _ y := Truncates i capacity refusal (stop (refused refusal)) y
  pure := pure
  bind first next passes := by
    refine bind first next fun u => ⟨u, ?_, rfl⟩
    rw [refused, (passes _).2, run_pure]
  name := evalName
  operation := orRaise
  define := define
  builtin := builtin host
  cutShort := ⟨nofun, nofun⟩
  body f args _ _ := body f args
  span s _ _ := span s

end Truncates

/-- What a full sink gets. A program that writes some text to a sink which takes everything does
the same where the sink takes that much: the two states in the end differ in the limit alone. Where
the sink takes less, the program ends with the refusal as its error value, and the sink has received
the first bytes of the text, as many as it takes. -/
theorem output_prefix (host : Host) (me i : InterpreterId) (depth : Nat) (s : ScopeId)
    (program : Program Origin) (room : Nat) (refusal : String) (w w' u : World) (v : Value)
    (unlimited : w.Unlimited i) (limited : w.Limited i ((w.written i).length + room) refusal u)
    (result : (evalProgram host me depth s program).run w = some (v, w')) :
    ∃ text, w'.written i = w.written i ++ text ∧
      (text.length ≤ room → ∃ u', (evalProgram host me depth s program).run u = some (v, u') ∧
        w'.Limited i ((w.written i).length + room) refusal u') ∧
      (room < text.length → ∃ u', (evalProgram host me depth s program).run u =
          some (.err ("could not write output: " ++ refusal), u') ∧
        u'.written i = w.written i ++ text.take room) := by
  have truncates : Truncates i ((w.written i).length + room) refusal (refused refusal)
      (evalProgram host me depth s program) :=
    (Truncates.carried i _ refusal host me).walkProgram depth s program
  obtain ⟨-, text, written⟩ := truncates.grows unlimited result
  have length : (w'.written i).length = (w.written i).length + text.length := by
    rw [← written, List.length_append]
  obtain ⟨b, u', ran, ⟨rfl, within⟩ | ⟨rfl, exceeded⟩⟩ :=
    truncates.follows ⟨unlimited, Nat.le_add_right _ _, limited⟩ result
  · refine ⟨text, written.symm, fun _ => ⟨u', ran, within.limited⟩, fun lt => ?_⟩
    have := within.le
    omega
  · refine ⟨text, written.symm, fun le => ?_, fun _ => ⟨u', ran, ?_⟩⟩
    · have := exceeded.lt
      omega
    · rw [List.prefix_iff_eq_take.mp exceeded.first, exceeded.full, ← written,
        List.take_length_add_append]

/-- A program that writes within a call, on three lines. -/
def greeting : Program Origin :=
  [.bind "say" (.fn ⟨0, 0⟩ ["x"]
      [.expr (.call (.ident "puts") [.ident "x"]),
        .expr (.call (.ident "puts") [.str "é", .ident "x"])]),
    .expr (.call (.ident "say") [.str "ab"])]

/-- A sink that takes all nine bytes, and one that is full within the letter of two bytes. -/
theorem output_prefix_greeting :
    ∃ w', (evalProgram .empty ⟨0⟩ 1 ⟨0⟩ greeting).run .rooted = some (.null, w') ∧
      (∃ u', (evalProgram .empty ⟨0⟩ 1 ⟨0⟩ greeting).run (World.rooted.limitOutput ⟨0⟩ 9 "full") =
          some (.null, u') ∧ w'.Limited ⟨0⟩ 9 "full" u') ∧
      ∃ u', (evalProgram .empty ⟨0⟩ 1 ⟨0⟩ greeting).run (World.rooted.limitOutput ⟨0⟩ 4 "full") =
          some (.err "could not write output: full", u') ∧
        u'.written ⟨0⟩ = [97, 98, 10, 195] := by
  have ends : ((evalProgram .empty ⟨0⟩ 1 ⟨0⟩ greeting).run .rooted).map
      (fun r => (r.1, r.2.written ⟨0⟩)) =
        some (.null, [97, 98, 10, 195, 169, 10, 97, 98, 10]) := by decide +kernel
  obtain ⟨⟨v, w'⟩, result, eq⟩ := Option.map_eq_some_iff.mp ends
  obtain ⟨rfl, bytes⟩ := Prod.mk.inj eq
  have within := output_prefix .empty ⟨0⟩ ⟨0⟩ 1 ⟨0⟩ greeting 9 "full" .rooted w' _ .null rfl
    (World.limited_limitOutput _ _ 9 _) result
  have beyond := output_prefix .empty ⟨0⟩ ⟨0⟩ 1 ⟨0⟩ greeting 4 "full" .rooted w' _ .null rfl
    (World.limited_limitOutput _ _ 4 _) result
  rw [bytes] at within beyond
  obtain ⟨text, rfl, same, -⟩ := within
  obtain ⟨text, rfl, -, full⟩ := beyond
  exact ⟨w', result, same (by decide), full (by decide)⟩

end TreeWalk
