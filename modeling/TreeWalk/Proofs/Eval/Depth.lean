import TreeWalk.Proofs.Eval.Eventually
import TreeWalk.Proofs.Eval.Spans
import TreeWalk.Proofs.Eval.Walk

/-!
# Results do not depend on the bound

A bound on the nesting of calls cuts runs short and does nothing else. A run that has a result at
some bound has the same one at every higher bound. So a result at one bound is eventually the
result.

The proof is that of a relation which is kept by whatever is done with runs: a run that has the
results of another one, and perhaps more.

A call that ends with another call gives what the other one gives, one level deeper. Once the bound
is high enough for all that comes before, the one run is around the other (`Around`).

Results:
1. `invoke_mono`, `applyValue_mono`, `evalProgram_mono`: results at higher bounds.
2. `eventually_applyValue_iff`, `eventually_evalProgram_iff`: results from some bound on.
3. `Around.trans`, `Around.eventually`, `Around.exists_run`: a run around another.
-/

namespace TreeWalk

open Run

/-- The run has all the results of the other one. -/
def HasResultsOf {α : Type} (x y : Run α) : Prop :=
  ∀ ⦃w r⦄, y.run w = some r → x.run w = some r

theorem HasResultsOf.refl {α : Type} (x : Run α) : HasResultsOf x x :=
  fun _ _ result => result

theorem HasResultsOf.trans {α : Type} {x y z : Run α} (left : HasResultsOf x y)
    (right : HasResultsOf y z) : HasResultsOf x z :=
  fun _ _ result => left (right result)

theorem HasResultsOf.bind {α β : Type} {x y : Run α} {f g : α → Run β} (first : HasResultsOf x y)
    (next : ∀ a, HasResultsOf (f a) (g a)) : HasResultsOf (x >>= f) (y >>= g) := by
  intro w r result
  obtain ⟨a, u, ran, result⟩ := bind_eq_some.mp result
  exact bind_eq_some.mpr ⟨a, u, first ran, next a result⟩

/-- To have more results is kept by whatever is done with runs. -/
def carriedResults (host : Host) (me : InterpreterId) : Carried host me (m := Run) id where
  Rel _ x y := HasResultsOf x y
  pure a := .refl (Pure.pure a)
  bind first next _ := first.bind next
  name _ _ := .refl _
  operation _ := .refl _
  define _ _ _ := .refl _
  builtin _ _ := .refl _
  cutShort := .refl _
  body f args x y more := by
    intro w r result
    rw [run_walkBody, Option.map_eq_some_iff] at result ⊢
    obtain ⟨q, ran, eq⟩ := result
    exact ⟨q, more _ ran, eq⟩
  span span x y more := by
    intro w r result
    rw [run_walkSpan, Option.map_eq_some_iff] at result ⊢
    obtain ⟨q, ran, eq⟩ := result
    exact ⟨q, more ran, eq⟩

section Bounds

variable {host : Host} {me : InterpreterId} {m n : Nat}

/-- The body of a function has more results when the calls in it have more. -/
theorem evalBlock_hasResultsOf {call call' : Closure → List Value → Run Value}
    (calls : ∀ f args, HasResultsOf (call f args) (call' f args)) (s : ScopeId) (before : Value)
    (block : Block Origin) :
    HasResultsOf (evalBlock host me call s before block)
      (evalBlock host me call' s before block) := by
  have same : walkBlock (m := Run) id host me call s before block =
      evalBlock host me call s before block :=
    (carriedEq host me).walkBlock (fun _ _ => rfl) s before block
  rw [← same]
  exact (carriedResults host me).walkBlock calls s before block

theorem evalCall_hasResultsOf {call call' : Closure → List Value → Run Value}
    (calls : ∀ f args, HasResultsOf (call f args) (call' f args)) (callee : Value)
    (args : List Value) :
    HasResultsOf (evalCall host me call callee args) (evalCall host me call' callee args) := by
  have same : walkCall (m := Run) id host me call callee args =
      evalCall host me call callee args :=
    (carriedEq host me).walkCall (fun _ _ => rfl) callee args
  rw [← same]
  exact (carriedResults host me).walkCall calls callee args

theorem invoke_succ (n : Nat) (f : Closure) (args : List Value) :
    HasResultsOf (invoke host me (n + 1) f args) (invoke host me n f args) := by
  induction n generalizing f args with
  | zero =>
    intro w r result
    cases result
  | succ n ih =>
    intro w r result
    rw [run_invoke, Option.map_eq_some_iff] at result ⊢
    obtain ⟨q, ran, eq⟩ := result
    exact ⟨q, evalBlock_hasResultsOf ih _ _ _ ran, eq⟩

theorem invoke_mono (le : m ≤ n) (f : Closure) (args : List Value) :
    HasResultsOf (invoke host me n f args) (invoke host me m f args) := by
  induction le with
  | refl => exact .refl _
  | step _ ih => exact (invoke_succ _ f args).trans ih

theorem applyValue_mono (le : m ≤ n) (callee : Value) (args : List Value) :
    HasResultsOf (applyValue host me n callee args) (applyValue host me m callee args) :=
  evalCall_hasResultsOf (invoke_mono le) callee args

theorem evalProgram_mono (le : m ≤ n) (s : ScopeId) (program : Program Origin) :
    HasResultsOf (evalProgram host me n s program) (evalProgram host me m s program) := by
  intro w r result
  rw [run_evalProgram, Option.map_eq_some_iff] at result ⊢
  obtain ⟨q, ran, eq⟩ := result
  exact ⟨q, evalBlock_hasResultsOf (invoke_mono le) _ _ _ ran, eq⟩

variable {w w' : World} {v : Value}

/-- A call eventually has a result when it has it at some bound. -/
theorem eventually_applyValue_iff {callee : Value} {args : List Value} :
    Eventually (fun n => applyValue host me n callee args) w v w' ↔
      ∃ n, (applyValue host me n callee args).run w = some (v, w') := by
  refine ⟨Eventually.exists_run, ?_⟩
  rintro ⟨n, result⟩
  exact ⟨n, fun _ le => applyValue_mono le callee args result⟩

/-- A program eventually has a result when it has it at some bound. -/
theorem eventually_evalProgram_iff {s : ScopeId} {program : Program Origin} :
    Eventually (fun n => evalProgram host me n s program) w v w' ↔
      ∃ n, (evalProgram host me n s program).run w = some (v, w') := by
  refine ⟨Eventually.exists_run, ?_⟩
  rintro ⟨n, result⟩
  exact ⟨n, fun _ le => evalProgram_mono le s program result⟩

end Bounds

/-! ## A run around another -/

/-- From some bound on the run `x` from `w` gives what the run `y` gives from `u`, and leaves some
spans after it. It nests so many levels deeper, and may unwrap what `y` returns. -/
def Around (spans : List Span) (x : Nat → Run Value) (w : World) (y : Nat → Run Value) (u : World) :
    Prop :=
  ∃ (extra bound : Nat) (unwrap : Value → Value), (∀ v : Value, v.unwrapReturn = v → unwrap v = v) ∧
    ∀ n, bound ≤ n →
      (x (n + extra)).run w = ((y n).run u).map fun r => (unwrap r.1, r.2.leaveAll spans)

namespace Around

variable {x y z : Nat → Run Value} {w u t w' : World} {v : Value} {spans inner : List Span}

theorem trans (outer : Around spans x w y u) (next : Around inner y u z t) :
    Around (inner ++ spans) x w z t := by
  obtain ⟨m, bound, unwrap, plain, same⟩ := outer
  obtain ⟨k, bound', unwrap', plain', same'⟩ := next
  refine ⟨k + m, max bound bound', unwrap ∘ unwrap', fun v kept => ?_, fun n le => ?_⟩
  · rw [Function.comp_apply, plain' v kept, plain v kept]
  · have first : bound ≤ n + k :=
      Nat.le_trans (Nat.le_max_left _ _) (Nat.le_trans le (Nat.le_add_right n k))
    rw [← Nat.add_assoc, same _ first, same' n (Nat.le_trans (Nat.le_max_right _ _) le),
      Option.map_map]
    simp only [World.leaveAll_append]
    rfl

/-- What is no `return` passes through. -/
theorem eventually (around : Around spans x w y u) (result : Eventually y u v w')
    (kept : v.unwrapReturn = v) : Eventually x w v (w'.leaveAll spans) := by
  obtain ⟨m, bound, unwrap, plain, same⟩ := around
  obtain ⟨bound', result⟩ := result
  refine ⟨max bound bound' + m, fun n le => ?_⟩
  obtain ⟨l, rfl⟩ := Nat.exists_eq_add_of_le' (Nat.le_trans (Nat.le_add_left m _) le)
  have le : max bound bound' ≤ l := Nat.le_of_add_le_add_right le
  rw [same l (Nat.le_trans (Nat.le_max_left _ _) le),
    result l (Nat.le_trans (Nat.le_max_right _ _) le), Option.map_some, plain v kept]

/-- Where the outer run ends, the inner one does. -/
theorem exists_run (around : Around spans x w y u) (result : Eventually x w v w') :
    ∃ n r, (y n).run u = some r := by
  obtain ⟨m, bound, unwrap, -, same⟩ := around
  obtain ⟨bound', result⟩ := result
  have le : bound' ≤ max bound bound' + m :=
    Nat.le_trans (Nat.le_max_right _ _) (Nat.le_add_right _ m)
  have ran := result _ le
  rw [same _ (Nat.le_max_left _ _), Option.map_eq_some_iff] at ran
  obtain ⟨r, ran, -⟩ := ran
  exact ⟨_, r, ran⟩

end Around

end TreeWalk
