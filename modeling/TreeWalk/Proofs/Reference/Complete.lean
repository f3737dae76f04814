import TreeWalk.Proofs.Eval.Eventually
import TreeWalk.Proofs.Reference.Encoding

/-!
# The reference is followed to its end

Every outcome of the reference from a clean heap is eventually a result of the evaluator: there is
a bound on the nesting of calls from which on the evaluator gives it. The proof is by induction on
the rules that led to the outcome.

Results:
1. `Evaluates.reaches`, `EvaluatesAll.reaches`, `Executes.reaches`, `Runs.reaches`: the walk.
2. `Applies.reaches`, `RunsProgram.reaches`: calls and programs.
-/

namespace TreeWalk.Reference

open Run Outcome

/-! ## Outcomes that are reached -/

/-- The run eventually has a result that stands for the outcome, and comes to the state. -/
def Reaches (x : Nat → Run Value) (w : World) (o : Outcome Value) (τ : Store) : Prop :=
  ∃ v u, ofValue v = o ∧ u.store = τ ∧ Eventually x w v u

/-- The list of expressions eventually has the outcome, and comes to the state. -/
def ReachesAll (host : Host) (me : InterpreterId) (s : ScopeId) (es : List (Expr Origin))
    (w : World) (o : Outcome (List Value)) (τ : Store) : Prop :=
  ∃ u, u.store = τ ∧
    Eventually (fun n => evalExprs host me (invoke host me n) s es) w (toExcept o) u

namespace Reaches

variable {x : Nat → Run Value} {w : World} {τ : Store}

theorem normal {v : Value} (h : Reaches x w (.normal v) τ) :
    ∃ u, v.isSentinel = false ∧ u.store = τ ∧ Eventually x w v u := by
  obtain ⟨a, u, eq, store, ran⟩ := h
  obtain ⟨rfl, notSentinel⟩ := ofValue_eq_normal.mp eq
  exact ⟨u, notSentinel, store, ran⟩

theorem abrupt {why : Abrupt} (h : Reaches x w (.abrupt why) τ) :
    ∃ u, u.store = τ ∧ Eventually x w why.toValue u := by
  obtain ⟨a, u, eq, store, ran⟩ := h
  obtain rfl := ofValue_eq_abrupt.mp eq
  exact ⟨u, store, ran⟩

theorem ofAbrupt {why : Abrupt} {u : World} (store : u.store = τ)
    (ran : Eventually x w why.toValue u) : Reaches x w (.abrupt why) τ :=
  ⟨why.toValue, u, ofValue_eq_abrupt.mpr rfl, store, ran⟩

theorem ofNormal {v : Value} {u : World} (notSentinel : v.isSentinel = false)
    (store : u.store = τ) (ran : Eventually x w v u) : Reaches x w (.normal v) τ :=
  ⟨v, u, ofValue_of_notSentinel notSentinel, store, ran⟩

/-- What did not end normally ends what goes on from it. -/
theorem stop {f : Nat → Value → Run Value} {why : Abrupt} (h : Reaches x w (.abrupt why) τ) :
    Reaches (fun n => andThen (x n) (f n)) w (.abrupt why) τ := by
  obtain ⟨u, store, ran⟩ := h.abrupt
  exact .ofAbrupt store (ran.andThen_stop why.isSentinel_toValue)

end Reaches

variable {host : Host} {me : InterpreterId} {w : World}

theorem reaches_orRaise {r : Except EvalFault Value} (cleanResult : ∀ v, r = .ok v → v.Clean) :
    Reaches (fun _ => orRaise me r) w (ofOperation r) (w.store.operated me r) :=
  ⟨operationValue r, w.operated me r, ofValue_operationValue cleanResult,
    World.store_operated w me r, .always fun _ => run_orRaise me r w⟩

/-- An expression comes to its end when its operands and what it does with their values do. -/
theorem reaches_of (keeps : host.KeepsClean) {s : ScopeId} {e : Expr Origin} {values : List Value}
    {τ υ : Store} {o : Outcome Value} (clean : w.heap.Clean)
    (all : ReachesAll host me s e.operands w (.normal values) τ)
    (last : ∀ u : World, u.store = τ → u.heap.Clean → (∀ a ∈ values, a.Clean) →
      Reaches (fun n => finish host me (invoke host me n) s e values) u o υ) :
    Reaches (fun n => evalExpr host me (invoke host me n) s e) w o υ := by
  obtain ⟨u, store, first⟩ := all
  obtain ⟨n, result⟩ := first.exists_run
  obtain ⟨cleanAfter, cleanValues⟩ := clean_evalExprs keeps clean result
  obtain ⟨v, w', outcome, final, rest⟩ := last u store cleanAfter (cleanValues values rfl)
  exact ⟨v, w', outcome, final, .of_eq (first.withOperands rest) fun n => evalExpr_eq ..⟩

/-! ## The walk -/

mutual

theorem Evaluates.reaches (keeps : host.KeepsClean) : ∀ {σ s e o τ},
    Evaluates host me σ s e o τ → ∀ {w : World}, w.store = σ → w.heap.Clean →
    Reaches (fun n => evalExpr host me (invoke host me n) s e) w o τ
  | _, _, e, _, _, .operand all, w, store, clean => by
    obtain ⟨u, final, ran⟩ := all.reaches keeps store clean
    exact .ofAbrupt final (.of_eq ran.withOperands_stop fun n => evalExpr_eq ..)
  | _, s, .ident name, _, _, .bound found, w, store, clean => by
    obtain rfl := store
    have ran : (evalName me s name).run w = _ := run_evalName me s name w
    rw [show w.heap.resolve s name = _ from found] at ran
    exact .ofNormal (clean.resolve found).notSentinel rfl (.always fun _ => ran)
  | _, s, .ident name, _, _, .standard unbound named, w, store, clean => by
    obtain rfl := store
    have ran : (evalName me s name).run w = _ := run_evalName me s name w
    rw [show w.heap.resolve s name = _ from unbound, named] at ran
    exact .ofNormal rfl rfl (.always fun _ => ran)
  | _, s, .ident name, _, _, .unbound unbound unnamed, w, store, clean => by
    obtain rfl := store
    have ran : (evalName me s name).run w = _ := run_evalName me s name w
    rw [show w.heap.resolve s name = _ from unbound, unnamed] at ran
    exact .ofAbrupt rfl (.always fun _ => ran)
  | _, _, _, _, _, .int, w, store, clean => .ofNormal rfl store (.always fun _ => rfl)
  | _, _, _, _, _, .str, w, store, clean => .ofNormal rfl store (.always fun _ => rfl)
  | _, _, _, _, _, .bool, w, store, clean => .ofNormal rfl store (.always fun _ => rfl)
  | _, _, _, _, _, .fn, w, store, clean => .ofNormal rfl store (.always fun _ => rfl)
  | _, _, _, _, _, .prefixOp all, w, store, clean => by
    refine reaches_of keeps clean (all.reaches keeps store clean) ?_
    rintro u rfl clean values
    exact reaches_orRaise fun _ eq => Value.hereditary_clean.onPrefix eq
  | _, _, _, _, _, .infixOp all, w, store, clean => by
    refine reaches_of keeps clean (all.reaches keeps store clean) ?_
    rintro u rfl clean values
    exact reaches_orRaise fun _ eq => Value.hereditary_clean.onInfix eq
  | _, _, _, _, _, .chosen all truthy runs, w, store, clean => by
    refine reaches_of keeps clean (all.reaches keeps store clean) ?_
    intro u store clean values
    simp only [finish, evalBranch, truthy]
    exact runs.reaches keeps store rfl clean
  | _, _, _, _, _, .other all falsy runs, w, store, clean => by
    refine reaches_of keeps clean (all.reaches keeps store clean) ?_
    intro u store clean values
    simp only [finish, evalBranch, falsy]
    exact runs.reaches keeps store rfl clean
  | _, _, _, _, _, .neither all falsy, w, store, clean => by
    refine reaches_of keeps clean (all.reaches keeps store clean) ?_
    intro u store clean values
    simp only [finish, evalBranch, falsy]
    exact .ofNormal rfl store (.always fun _ => rfl)
  | _, _, _, _, _, .call all applies, w, store, clean => by
    refine reaches_of keeps clean (all.reaches keeps store clean) ?_
    intro u store clean values
    exact applies.reaches keeps store clean fun a mem => values a (List.mem_cons_of_mem _ mem)
  | _, _, _, _, _, .array all, w, store, clean => by
    refine reaches_of keeps clean (all.reaches keeps store clean) ?_
    intro u store clean values
    exact .ofNormal rfl store (.always fun _ => rfl)
  | _, _, _, _, _, .index all, w, store, clean => by
    refine reaches_of keeps clean (all.reaches keeps store clean) ?_
    rintro u rfl clean values
    exact reaches_orRaise fun _ eq =>
      Value.hereditary_clean.atPosition (values _ List.mem_cons_self) eq

theorem EvaluatesAll.reaches (keeps : host.KeepsClean) : ∀ {σ s es o τ},
    EvaluatesAll host me σ s es o τ → ∀ {w : World}, w.store = σ → w.heap.Clean →
    ReachesAll host me s es w o τ
  | _, _, _, _, _, .nil, w, store, clean => ⟨w, store, .always fun _ => rfl⟩
  | _, _, _, _, _, .head first, w, store, clean => by
    obtain ⟨u, final, ran⟩ := (first.reaches keeps store clean).abrupt
    refine ⟨u, final, .of_eq (ran.bind (.always fun n => ?_)) fun n => by rw [evalExprs]⟩
    rw [Abrupt.isSentinel_toValue]
    rfl
  | _, _, _, _, _, .tail first rest, w, store, clean => by
    obtain ⟨u, notSentinel, store, ran⟩ := (first.reaches keeps store clean).normal
    obtain ⟨n, result⟩ := ran.exists_run
    obtain ⟨x, final, last⟩ := rest.reaches keeps store (clean_eval keeps (.expr _) clean result).1
    refine ⟨x, final, .of_eq (ran.bind ?_) fun n => by rw [evalExprs]⟩
    rw [notSentinel]
    exact last.bind (.always fun _ => rfl)
  | _, _, _, _, _, .cons first rest, w, store, clean => by
    obtain ⟨u, notSentinel, store, ran⟩ := (first.reaches keeps store clean).normal
    obtain ⟨n, result⟩ := ran.exists_run
    obtain ⟨x, final, last⟩ := rest.reaches keeps store (clean_eval keeps (.expr _) clean result).1
    refine ⟨x, final, .of_eq (ran.bind ?_) fun n => by rw [evalExprs]⟩
    rw [notSentinel]
    exact last.bind (.always fun _ => rfl)

theorem Executes.reaches (keeps : host.KeepsClean) : ∀ {σ s stmt o τ},
    Executes host me σ s stmt o τ → ∀ {w : World}, w.store = σ → w.heap.Clean →
    Reaches (fun n => evalStmt host me (invoke host me n) s stmt) w o τ
  | _, _, _, _, _, .bindAbrupt value, w, store, clean => by
    simp only [evalStmt]
    exact (value.reaches keeps store clean).stop
  | _, _, _, _, _, .bind value, w, store, clean => by
    obtain ⟨u, notSentinel, rfl, ran⟩ := (value.reaches keeps store clean).normal
    simp only [evalStmt]
    exact .ofNormal rfl rfl (ran.andThen notSentinel (.always fun _ => rfl))
  | _, _, _, _, _, .retAbrupt value, w, store, clean => by
    simp only [evalStmt]
    exact (value.reaches keeps store clean).stop
  | _, _, _, _, _, .ret value, w, store, clean => by
    obtain ⟨u, notSentinel, store, ran⟩ := (value.reaches keeps store clean).normal
    simp only [evalStmt]
    exact .ofAbrupt store (ran.andThen notSentinel (.always fun _ => rfl))
  | _, _, _, _, _, .expr value, w, store, clean => by
    simp only [evalStmt]
    exact value.reaches keeps store clean

theorem Runs.reaches (keeps : host.KeepsClean) : ∀ {σ s before block o τ},
    Runs host me σ s before block o τ → ∀ {w : World}, w.store = σ →
    before.isSentinel = false → w.heap.Clean →
    Reaches (fun n => evalBlock host me (invoke host me n) s before block) w o τ
  | _, _, _, _, _, _, .nil, w, store, notSentinel, clean =>
    .ofNormal notSentinel store (.always fun _ => rfl)
  | _, _, _, _, _, _, .stop first, w, store, _, clean => by
    simp only [evalBlock]
    exact (first.reaches keeps store clean).stop
  | _, _, _, _, _, _, .step first rest, w, store, _, clean => by
    obtain ⟨u, notSentinel, store, ran⟩ := (first.reaches keeps store clean).normal
    obtain ⟨n, result⟩ := ran.exists_run
    have cleanAfter := (clean_eval keeps (.stmt _) clean result).1
    obtain ⟨v, x, outcome, final, last⟩ := rest.reaches keeps store notSentinel cleanAfter
    simp only [evalBlock]
    exact ⟨v, x, outcome, final, ran.andThen notSentinel last⟩

theorem Applies.reaches (keeps : host.KeepsClean) : ∀ {σ callee args o τ},
    Applies host me σ callee args o τ → ∀ {w : World}, w.store = σ → w.heap.Clean →
    (∀ a ∈ args, a.Clean) → Reaches (fun n => applyValue host me n callee args) w o τ
  | _, .fn f, args, _, _, .closure arity runs, w, store, clean, all => by
    -- The body is no part of the call, but the rules for it are a part of those for the call.
    have entered : (w.entered me f args).heap.Clean := clean.callScope f all
    obtain ⟨b, u, outcome, final, ran⟩ := runs.reaches keeps
      (w := w.entered me f args) (by rw [World.store_entered, store]) rfl entered
    obtain rfl := store
    obtain ⟨n, result⟩ := ran.exists_run
    have carries := (clean_eval keeps (.block f.body) entered result).2
    refine ⟨b.unwrapReturn, u.record (.leave (f.span w.heap)), ?_, final, ?_⟩
    · rw [ofValue_unwrapReturn carries, outcome]
    · have calls : ∀ n, (applyValue host me (n + 1) (.fn f) args).run w =
          ((evalBlock host me (invoke host me n) w.heap.next .null f.body).run
            (w.entered me f args)).map
              fun r => (r.1.unwrapReturn, r.2.record (.leave (f.span w.heap))) := by
        intro n
        rw [applyValue, evalCall, if_pos arity, run_invoke]
      exact (ran.map calls).shift
  | _, .fn f, args, _, _, .arity arity, w, store, clean, all => by
    obtain rfl := store
    refine .ofAbrupt (World.store_raised w me (.arityMismatch f.arity args.length)) (.always fun n => ?_)
    rw [applyValue, evalCall, if_neg arity]
    rfl
  | _, .builtin (.standard owner op), args, _, _, .standard, w, store, clean, all => by
    obtain rfl := store
    have called :=
      run_standard owner op args (w.calling me (.standard owner op) args.length)
    refine ⟨_, _, ofValue_standard fun v eq => ?_, ?_, .always fun _ => called⟩
    · exact Value.hereditary_clean.compute all eq
    · rw [World.store_computed, World.store_calling]
  | _, _, _, _, _, .host, w, store, clean, all => by
    obtain rfl := store
    exact ⟨_, _, ofValue_host (keeps _ _ all), World.store_calling w me _ _, .always fun _ => rfl⟩
  | _, callee, _, _, _, .notCallable notFunction notBuiltin, w, store, clean, all => by
    obtain rfl := store
    refine .ofAbrupt (World.store_raised w me (.notCallable callee.kind)) (.always fun n => ?_)
    cases callee with
    | fn f => exact absurd rfl notFunction
    | builtin b => exact absurd rfl notBuiltin
    | int n | bool b | null | str text | array items | ret x | err message => rfl

end

/-! ## Programs -/

theorem RunsProgram.reaches (keeps : host.KeepsClean) {s : ScopeId} {program : Program Origin}
    {o : Outcome Value} {τ : Store} (runs : RunsProgram host me w.store s program o τ)
    (clean : w.heap.Clean) : Reaches (fun n => evalProgram host me n s program) w o τ := by
  cases runs with
  | of runs =>
    have opened : (w.record (.enter (.program program.length))).heap.Clean := by
      rw [World.heap_record]
      exact clean
    obtain ⟨b, u, outcome, final, ran⟩ := runs.reaches keeps
      (w := w.record (.enter (.program program.length))) rfl rfl opened
    obtain ⟨n, result⟩ := ran.exists_run
    have carries := (clean_eval keeps (.block program) opened result).2
    refine ⟨b.unwrapReturn, u.record (.leave (.program program.length)), ?_, final, ?_⟩
    · rw [ofValue_unwrapReturn carries, outcome]
    · exact ran.map fun n => run_evalProgram host me n s program w

end TreeWalk.Reference
