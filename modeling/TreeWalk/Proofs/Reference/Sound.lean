import TreeWalk.Proofs.Eval.Operands
import TreeWalk.Proofs.Reference.Encoding

/-!
# The evaluator follows the reference

Every result of the evaluator on a clean heap is an outcome of the reference. The proof is by
recursion on the tree, inside an induction on the bound on the nesting of calls. That no value is
mistaken for a sentinel comes from the cleanness of all that was evaluated before.

Results:
1. `soundExpr`, `soundAll`, `soundStmt`, `soundBlock`: the walk.
2. `soundCalls`, `soundCall`, `soundProgram`: calls and programs.
-/

namespace TreeWalk.Reference

open Run Outcome

section Sound

variable (host : Host) (me : InterpreterId) (depth : Nat)

/-! ## What is shown -/

def SoundExpr (e : Expr Origin) : Prop :=
  ∀ ⦃s w v w'⦄, w.heap.Clean → (evalExpr host me (invoke host me depth) s e).run w = some (v, w') →
    Evaluates host me w.store s e (ofValue v) w'.store

def SoundAll (es : List (Expr Origin)) : Prop :=
  ∀ ⦃s w r w'⦄, w.heap.Clean →
    (evalExprs host me (invoke host me depth) s es).run w = some (r, w') →
    ∃ o, r = toExcept o ∧ EvaluatesAll host me w.store s es o w'.store

def SoundCalls : Prop :=
  ∀ ⦃f args w v w'⦄, w.heap.Clean → (∀ a ∈ args, a.Clean) → f.arity = args.length →
    (invoke host me depth f args).run w = some (v, w') →
    Applies host me w.store (.fn f) args (ofValue v) w'.store

end Sound

variable {host : Host} {me : InterpreterId} {depth : Nat}

/-! ## Operands -/

theorem soundAll_nil : SoundAll host me depth [] := by
  intro s w r w' clean result
  cases result
  exact ⟨.normal [], rfl, .nil⟩

theorem soundAll_cons (keeps : host.KeepsClean) {e : Expr Origin} {es : List (Expr Origin)}
    (head : SoundExpr host me depth e) (tail : SoundAll host me depth es) :
    SoundAll host me depth (e :: es) := by
  intro s w r w' clean result
  rw [evalExprs, bind_eq_some] at result
  obtain ⟨v, u, first, rest⟩ := result
  have firstRule := head clean first
  split at rest
  · next sentinel =>
    cases rest
    obtain ⟨why, rfl⟩ := exists_of_sentinel sentinel
    rw [ofValue_eq_abrupt.mpr rfl] at firstRule
    exact ⟨.abrupt why, rfl, .head firstRule⟩
  · next notSentinel =>
    rw [ofValue_of_notSentinel (by simpa using notSentinel)] at firstRule
    rw [bind_eq_some] at rest
    obtain ⟨r, x, rest, last⟩ := rest
    obtain ⟨o, rfl, restRule⟩ := tail (clean_eval keeps (.expr e) clean first).1 rest
    cases o with
    | normal values =>
      cases last
      exact ⟨.normal (v :: values), rfl, .cons firstRule restRule⟩
    | abrupt why =>
      cases last
      exact ⟨.abrupt why, rfl, .tail firstRule restRule⟩

/-- An expression follows the reference when its operands do, and when what it does with their
values does. -/
theorem soundExpr_of (keeps : host.KeepsClean) {e : Expr Origin}
    (all : SoundAll host me depth e.operands)
    (last : ∀ ⦃s values v⦄ ⦃w u w' : World⦄,
      EvaluatesAll host me w.store s e.operands (.normal values) u.store → u.heap.Clean →
      (∀ a ∈ values, a.Clean) →
      (finish host me (invoke host me depth) s e values).run u = some (v, w') →
      Evaluates host me w.store s e (ofValue v) w'.store) :
    SoundExpr host me depth e := by
  intro s w v w' clean result
  rw [evalExpr_eq, withOperands_eq_some] at result
  rcases result with result | ⟨values, u, first, rest⟩
  · obtain ⟨o, eq, rule⟩ := all clean result
    cases o with
    | normal values => cases eq
    | abrupt why =>
      cases eq
      rw [ofValue_eq_abrupt.mpr rfl]
      exact .operand rule
  · obtain ⟨o, eq, rule⟩ := all clean first
    obtain ⟨clean, cleanValues⟩ := clean_evalExprs keeps clean first
    cases o with
    | abrupt why => cases eq
    | normal values =>
      cases eq
      exact last rule clean (cleanValues values rfl) rest

/-! ## Operations, names and calls -/

/-- A sequence follows the reference when its first part does, and when what goes on from a normal
end does. -/
theorem sound_andThen {x : Run Value} {f : Value → Run Value} {R Q : Outcome Value → Store → Prop}
    {w w' : World} {v : Value} (result : (andThen x f).run w = some (v, w'))
    (first : ∀ {a u}, x.run w = some (a, u) → R (ofValue a) u.store)
    (stop : ∀ {why τ}, R (.abrupt why) τ → Q (.abrupt why) τ)
    (next : ∀ {a u}, a.isSentinel = false → x.run w = some (a, u) → R (.normal a) u.store →
      (f a).run u = some (v, w') → Q (ofValue v) w'.store) :
    Q (ofValue v) w'.store := by
  rcases andThen_eq_some.mp result with ⟨sentinel, result⟩ | ⟨a, u, notSentinel, ran, rest⟩
  · obtain ⟨why, rfl⟩ := exists_of_sentinel sentinel
    have rule := first result
    rw [ofValue_eq_abrupt.mpr rfl] at rule ⊢
    exact stop rule
  · have rule := first ran
    rw [ofValue_of_notSentinel notSentinel] at rule
    exact next notSentinel ran rule rest

theorem sound_orRaise {r : Except EvalFault Value} (cleanResult : ∀ v, r = .ok v → v.Clean)
    {w w' : World} {v : Value} (result : (orRaise me r).run w = some (v, w')) :
    ofValue v = ofOperation r ∧ w'.store = w.store.operated me r := by
  rw [run_orRaise] at result
  cases result
  exact ⟨ofValue_operationValue cleanResult, World.store_operated w me r⟩

theorem sound_ident (name : String) : SoundExpr host me depth (.ident name) := by
  intro s w v w' clean result
  rw [evalExpr, run_evalName] at result
  split at result
  · next x found =>
    cases result
    rw [ofValue_of_notSentinel (clean.resolve found).notSentinel]
    exact .bound found
  · next unbound =>
    split at result
    · next op named =>
      cases result
      exact .standard unbound named
    · next none =>
      cases result
      exact .unbound unbound none

theorem soundCall (keeps : host.KeepsClean) (calls : SoundCalls host me depth) {callee : Value}
    {args : List Value} {w w' : World} {v : Value} (clean : w.heap.Clean)
    (all : ∀ a ∈ args, a.Clean)
    (result : (applyValue host me depth callee args).run w = some (v, w')) :
    Applies host me w.store callee args (ofValue v) w'.store := by
  cases callee with
  | fn f =>
    rw [applyValue, evalCall] at result
    split at result
    · next arity => exact calls clean all arity result
    · next arity =>
      cases result
      exact .arity arity
  | builtin b =>
    rw [applyValue, run_evalCall_builtin] at result
    cases b with
    | standard owner op =>
      rw [callBuiltin, run_standard] at result
      cases result
      rw [ofValue_standard fun v eq => Value.hereditary_clean.compute all eq]
      rw [World.store_computed]
      exact .standard
    | host id name =>
      cases result
      rw [ofValue_host (keeps id args all)]
      exact .host
  | int n | bool b | null | str text | array items | ret x | err message =>
    cases result
    refine .notCallable ?_ ?_ <;> intro eq <;> cases eq

/-! ## The walk -/

mutual

theorem soundExpr (keeps : host.KeepsClean) (calls : SoundCalls host me depth) :
    (e : Expr Origin) → SoundExpr host me depth e
  | .ident name => sound_ident name
  | .int n => by
    intro s w v w' clean result
    cases result
    exact .int
  | .str text => by
    intro s w v w' clean result
    cases result
    exact .str
  | .bool b => by
    intro s w v w' clean result
    cases result
    exact .bool
  | .fn origin params body => by
    intro s w v w' clean result
    cases result
    exact .fn
  | .prefixOp op e => by
    refine soundExpr_of keeps (soundAll_cons keeps (soundExpr keeps calls e) soundAll_nil) ?_
    intro s values v w u w' rule clean all result
    -- With any other number of values there would be no result.
    match values, rule, result with
    | [a], rule, result =>
      obtain ⟨outcome, store⟩ :=
        sound_orRaise (fun _ eq => Value.hereditary_clean.onPrefix eq) result
      rw [outcome, store]
      exact .prefixOp rule
  | .infixOp l op r => by
    refine soundExpr_of keeps (soundAll_cons keeps (soundExpr keeps calls l)
      (soundAll_cons keeps (soundExpr keeps calls r) soundAll_nil)) ?_
    intro s values v w u w' rule clean all result
    match values, rule, result with
    | [a, b], rule, result =>
      obtain ⟨outcome, store⟩ :=
        sound_orRaise (fun _ eq => Value.hereditary_clean.onInfix eq) result
      rw [outcome, store]
      exact .infixOp rule
  | .ifElse c t none => by
    refine soundExpr_of keeps (soundAll_cons keeps (soundExpr keeps calls c) soundAll_nil) ?_
    intro s values v w u w' rule clean all result
    match values, rule, result with
    | [a], rule, result =>
      rw [finish, evalBranch] at result
      split at result
      · next truthy => exact .chosen rule truthy (soundBlock keeps calls t rfl clean result)
      · next falsy =>
        cases result
        exact .neither rule (by simpa using falsy)
  | .ifElse c t (some e) => by
    refine soundExpr_of keeps (soundAll_cons keeps (soundExpr keeps calls c) soundAll_nil) ?_
    intro s values v w u w' rule clean all result
    match values, rule, result with
    | [a], rule, result =>
      rw [finish, evalBranch] at result
      split at result
      · next truthy => exact .chosen rule truthy (soundBlock keeps calls t rfl clean result)
      · next falsy =>
        exact .other rule (by simpa using falsy) (soundBlock keeps calls e rfl clean result)
  | .call f args => by
    refine soundExpr_of keeps
      (soundAll_cons keeps (soundExpr keeps calls f) (soundAll keeps calls args)) ?_
    intro s values v w u w' rule clean all result
    match values, rule, all, result with
    | callee :: values, rule, all, result =>
      exact .call rule
        (soundCall keeps calls clean (fun a mem => all a (List.mem_cons_of_mem _ mem)) result)
  | .array es => by
    refine soundExpr_of keeps (soundAll keeps calls es) ?_
    intro s values v w u w' rule clean all result
    cases result
    exact .array rule
  | .index l i => by
    refine soundExpr_of keeps (soundAll_cons keeps (soundExpr keeps calls l)
      (soundAll_cons keeps (soundExpr keeps calls i) soundAll_nil)) ?_
    intro s values v w u w' rule clean all result
    match values, rule, all, result with
    | [a, b], rule, all, result =>
      have left : a.Clean := all a List.mem_cons_self
      obtain ⟨outcome, store⟩ :=
        sound_orRaise (fun _ eq => Value.hereditary_clean.atPosition left eq) result
      rw [outcome, store]
      exact .index rule

theorem soundAll (keeps : host.KeepsClean) (calls : SoundCalls host me depth) :
    (es : List (Expr Origin)) → SoundAll host me depth es
  | [] => soundAll_nil
  | e :: es => soundAll_cons keeps (soundExpr keeps calls e) (soundAll keeps calls es)

theorem soundStmt (keeps : host.KeepsClean) (calls : SoundCalls host me depth) :
    (stmt : Stmt Origin) → ∀ {s w v w'}, w.heap.Clean →
    (evalStmt host me (invoke host me depth) s stmt).run w = some (v, w') →
    Executes host me w.store s stmt (ofValue v) w'.store
  | .bind name e, s, w, v, w', clean, result => by
    rw [evalStmt] at result
    refine sound_andThen (R := Evaluates host me w.store s e)
      (Q := Executes host me w.store s (.bind name e)) result
      (soundExpr keeps calls e clean) .bindAbrupt ?_
    intro a u _ _ rule rest
    cases rest
    exact .bind rule
  | .ret e, s, w, v, w', clean, result => by
    rw [evalStmt] at result
    refine sound_andThen (R := Evaluates host me w.store s e)
      (Q := Executes host me w.store s (.ret e)) result
      (soundExpr keeps calls e clean) .retAbrupt ?_
    intro a u _ _ rule rest
    cases rest
    exact .ret rule
  | .expr e, s, w, v, w', clean, result => .expr (soundExpr keeps calls e clean result)

theorem soundBlock (keeps : host.KeepsClean) (calls : SoundCalls host me depth) :
    (block : Block Origin) → ∀ {s before w v w'}, before.isSentinel = false → w.heap.Clean →
    (evalBlock host me (invoke host me depth) s before block).run w = some (v, w') →
    Runs host me w.store s before block (ofValue v) w'.store
  | [], s, before, w, v, w', notSentinel, clean, result => by
    cases result
    rw [ofValue_of_notSentinel notSentinel]
    exact .nil
  | stmt :: rest, s, before, w, v, w', _, clean, result => by
    rw [evalBlock] at result
    refine sound_andThen (R := Executes host me w.store s stmt)
      (Q := Runs host me w.store s before (stmt :: rest)) result
      (soundStmt keeps calls stmt clean) .stop ?_
    intro a u notSentinel first rule last
    have cleanAfter := (clean_eval keeps (.stmt stmt) clean first).1
    exact .step rule (soundBlock keeps calls rest notSentinel cleanAfter last)

end

/-! ## Calls and programs -/

theorem soundCalls (keeps : host.KeepsClean) (depth : Nat) : SoundCalls host me depth := by
  induction depth with
  | zero =>
    intro f args w v w' clean all arity result
    -- Where the bound is reached there is no result.
    cases result
  | succ depth ih =>
    intro f args w v w' clean all arity result
    rw [run_invoke, Option.map_eq_some_iff] at result
    obtain ⟨⟨b, u⟩, ran, eq⟩ := result
    cases eq
    have entered : (w.entered me f args).heap.Clean := by
      rw [World.heap_entered]
      exact clean.callScope f all
    -- What is unwrapped here is clean, so it is not taken for the next sentinel.
    have carries := (clean_eval keeps (.block f.body) entered ran).2
    have rule := soundBlock keeps ih f.body rfl entered ran
    rw [ofValue_unwrapReturn carries, World.store_record]
    exact .closure arity rule

theorem soundProgram (keeps : host.KeepsClean) {s : ScopeId} {program : Program Origin}
    {w w' : World} {v : Value} (clean : w.heap.Clean)
    (result : (evalProgram host me depth s program).run w = some (v, w')) :
    RunsProgram host me w.store s program (ofValue v) w'.store := by
  rw [run_evalProgram, Option.map_eq_some_iff] at result
  obtain ⟨⟨b, u⟩, ran, eq⟩ := result
  cases eq
  have opened : (w.record (.enter (.program program.length))).heap.Clean := by
    rw [World.heap_record]
    exact clean
  have carries := (clean_eval keeps (.block program) opened ran).2
  have rule := soundBlock keeps (soundCalls keeps depth) program rfl opened ran
  rw [ofValue_unwrapReturn carries, World.store_record]
  exact .of rule

end TreeWalk.Reference
