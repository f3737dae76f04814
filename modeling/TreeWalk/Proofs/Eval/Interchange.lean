import TreeWalk.Proofs.Eval.Objects
import TreeWalk.Proofs.Eval.Stepping
import TreeWalk.Scope.Debug

/-!
# Equal values are interchangeable

Two values that have the same data and share their callables cannot be told apart, by looking at
them or by calling them, and the language compares by just this equality. Integers and strings are
compared on paths of their own, which come to the same.

Results:
1. `InfixOp.apply_eq`, `InfixOp.apply_ne`: the comparisons, on all paths.
2. `run_eq_alike`: in a session the language compares callables by identity.
3. `equal_values_interchangeable`: what follows from equality, and where the language finds it.
-/

namespace TreeWalk

/-! ## The operators -/

theorem Value.decide_eq (a b : Value) : decide (a = b) = a.same b := by
  rw [Bool.eq_iff_iff, decide_eq_true_iff, same_iff]

/-- The operator is equality of values, whatever the operands. -/
theorem InfixOp.apply_eq (l r : Value) : InfixOp.apply l .eq r = .ok (.bool (l.same r)) := by
  unfold InfixOp.apply
  split
  · rfl
  · rfl
  · rw [InfixOp.onOthers, Value.decide_eq]

theorem InfixOp.apply_ne (l r : Value) : InfixOp.apply l .ne r = .ok (.bool (!l.same r)) := by
  unfold InfixOp.apply
  split
  · rw [InfixOp.onIntegers, decide_not, Value.same]
  · rw [InfixOp.onStrings, decide_not, Value.same]
  · rw [InfixOp.onOthers, decide_not, Value.decide_eq]

/-- In a state and for operands of the same objects, the operator says whether the operands share
their callables and agree in their data. -/
theorem run_eq_alike {host : Host} {o : Objects} (keeps : host.Keeps (Value.MadeOf o))
    (closed : o.Closed) {me : InterpreterId} {depth : Nat} {s : ScopeId} {l r : Expr Origin}
    (left : ∀ use ∈ l.uses, use.MadeOf o) (right : ∀ use ∈ r.uses, use.MadeOf o)
    {w u u' : World} {a b : Value} (heap : w.heap.MadeOf o)
    (first : (evalExpr host me (invoke host me depth) s l).run w = some (a, u))
    (firstData : a.isSentinel = false)
    (second : (evalExpr host me (invoke host me depth) s r).run u = some (b, u'))
    (secondData : b.isSentinel = false) :
    (evalExpr host me (invoke host me depth) s (.infixOp l .eq r)).run w =
      some (.bool (a.alike b), u') := by
  obtain ⟨between, madeLeft⟩ := madeOf_eval keeps closed me depth (.expr l) heap left first
  obtain ⟨-, madeRight⟩ := madeOf_eval keeps closed me depth (.expr r) between right second
  rw [← Value.same_eq_alike madeLeft madeRight]
  exact run_infixOp first firstData second secondData (InfixOp.apply_eq a b)

/-! ## Values -/

/-- Equality is an equivalence, and so is being alike. Between values of the same objects they are
one, and values that are alike look the same and do the same when they are called. The language
compares by it: where the operands have values that are data, `==` says whether these are equal and
`!=` whether they are not, and nothing happens but the evaluation of the operands. -/
theorem equal_values_interchangeable (host : Host) (me : InterpreterId) :
    (Equivalence fun a b : Value => a.same b = true) ∧
    (Equivalence fun a b : Value => a.alike b = true) ∧
    (∀ (o : Objects) (a b : Value), a.MadeOf o → b.MadeOf o →
      a.same b = a.alike b ∧
      (a.alike b = true → a.kind = b.kind ∧ a.isTruthy = b.isTruthy ∧
        (∀ style, a.render style = b.render style) ∧ (∀ h : Heap, a.debug h = b.debug h) ∧
        ∀ depth args w, (applyValue host me depth a args).run w =
          (applyValue host me depth b args).run w)) ∧
    ∀ (call : Closure → List Value → Run Value) (s : ScopeId) (l r : Expr Origin)
      (w u u' : World) (a b : Value), (evalExpr host me call s l).run w = some (a, u) →
      a.isSentinel = false → (evalExpr host me call s r).run u = some (b, u') →
      b.isSentinel = false →
      (evalExpr host me call s (.infixOp l .eq r)).run w = some (.bool (a.same b), u') ∧
      (evalExpr host me call s (.infixOp l .ne r)).run w = some (.bool (!a.same b), u') := by
  refine ⟨Value.same_equivalence, Value.alike_equivalence, fun o a b left right => ?_, ?_⟩
  · refine ⟨Value.same_eq_alike left right, fun same => ?_⟩
    obtain rfl := (Value.alike_iff_eq left right).mp same
    exact ⟨rfl, rfl, fun _ => rfl, fun _ => rfl, fun _ _ _ => rfl⟩
  · intro call s l r w u u' a b first firstData second secondData
    exact ⟨run_infixOp first firstData second secondData (InfixOp.apply_eq a b),
      run_infixOp first firstData second secondData (InfixOp.apply_ne a b)⟩

/-- One function with one parameter, and one builtin of the host. -/
def Objects.doubling : Objects where
  params _ := ["x"]
  body _ := [.ret (.ident "x")]
  name _ := "double"

/-- A function and a builtin in an array. -/
def functionAndBuiltin : Value :=
  .array [.fn ⟨⟨0, 0⟩, ["x"], [.ret (.ident "x")], ⟨0⟩⟩, .builtin (.host ⟨0⟩ "double")]

theorem madeOf_functionAndBuiltin : functionAndBuiltin.MadeOf .doubling := by
  refine ((Value.hereditary_madeOf _).array _).mpr ?_
  rw [List.forall_mem_cons, List.forall_mem_singleton]
  exact ⟨Value.madeOf_fn.mpr ⟨rfl, rfl⟩, Value.madeOf_builtin.mpr rfl⟩

/-- The rooted state with the array bound to a name. -/
def World.withPair : World :=
  { World.rooted with heap := World.rooted.heap.define ⟨0⟩ "pair" functionAndBuiltin }

theorem equal_values_interchangeable_pair :
    functionAndBuiltin.same functionAndBuiltin =
      functionAndBuiltin.alike functionAndBuiltin ∧
    (evalExpr .empty ⟨0⟩ (invoke .empty ⟨0⟩ 0) ⟨0⟩ (.infixOp (.ident "pair") .eq
      (.array [.index (.ident "pair") (.int 0), .index (.ident "pair") (.int 1)]))).run .withPair =
        some (.bool true, .withPair) := by
  obtain ⟨-, -, values, operators⟩ := equal_values_interchangeable .empty ⟨0⟩
  refine ⟨(values _ _ _ madeOf_functionAndBuiltin madeOf_functionAndBuiltin).1, ?_⟩
  have same : functionAndBuiltin.same functionAndBuiltin = true := (Value.same_iff _ _).mpr rfl
  rw [(operators _ _ _ _ _ _ _ functionAndBuiltin functionAndBuiltin rfl rfl rfl rfl).1, same]

end TreeWalk
