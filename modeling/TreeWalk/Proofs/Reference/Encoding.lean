import TreeWalk.Proofs.Eval.Sentinel
import TreeWalk.Proofs.Reference.Semantics

/-!
# Outcomes as values

The evaluator has no outcomes but values, among them the sentinels. A value stands for an outcome:
a sentinel for an end that is not normal, and any other value for itself.

Results:
1. `Outcome.ofValue_eq_normal`, `Outcome.ofValue_eq_abrupt`: what stands for what.
2. `ofValue_operationValue`, `ofValue_standard`, `ofValue_host`: operations and builtins on clean
   values.
-/

namespace TreeWalk

namespace Reference

/-! ## Values and outcomes -/

/-- The sentinel of an end that is not normal. -/
def Abrupt.toValue : Abrupt → Value
  | .returning v => .ret v
  | .failing message => .err message

theorem Abrupt.isSentinel_toValue (why : Abrupt) : why.toValue.isSentinel = true := by
  cases why <;> rfl

namespace Outcome

/-- The outcome that a value stands for. -/
def ofValue : Value → Outcome Value
  | .ret v => .returning v
  | .err message => .failing message
  | v => .normal v

/-- Values for all of some expressions, or the sentinel among them. -/
def toExcept {α : Type} : Outcome α → Except Value α
  | .normal a => .ok a
  | .abrupt why => .error why.toValue

theorem ofValue_eq_normal {v x : Value} :
    ofValue v = .normal x ↔ v = x ∧ v.isSentinel = false := by
  constructor
  · intro eq
    cases v <;> cases eq <;> exact ⟨rfl, rfl⟩
  · rintro ⟨rfl, notSentinel⟩
    cases v <;> first | rfl | cases notSentinel

theorem ofValue_eq_abrupt {v : Value} {why : Abrupt} :
    ofValue v = .abrupt why ↔ v = why.toValue := by
  constructor
  · intro eq
    cases v <;> cases eq <;> rfl
  · rintro rfl
    cases why <;> rfl

theorem ofValue_of_notSentinel {v : Value} (notSentinel : v.isSentinel = false) :
    ofValue v = .normal v :=
  ofValue_eq_normal.mpr ⟨rfl, notSentinel⟩

theorem exists_of_sentinel {v : Value} (sentinel : v.isSentinel = true) :
    ∃ why : Abrupt, v = why.toValue := by
  cases v with
  | ret x => exact ⟨.returning x, rfl⟩
  | err message => exact ⟨.failing message, rfl⟩
  | int n | bool b | null | str text | array items | fn f | builtin b => cases sentinel

/-- To unwrap a value is to catch the outcome that it stands for, when what it carries is clean. -/
theorem ofValue_unwrapReturn {v : Value} (carries : v.Carries Value.Clean) :
    ofValue v.unwrapReturn = (ofValue v).caught := by
  cases v with
  | ret x => exact ofValue_of_notSentinel (Value.Clean.notSentinel carries)
  | int n | bool b | null | str text | array items | fn f | builtin b | err message => rfl

end Outcome

/-! ## Operations and builtins -/

theorem ofValue_operationValue {r : Except EvalFault Value} (clean : ∀ v, r = .ok v → v.Clean) :
    Outcome.ofValue (operationValue r) = .ofOperation r := by
  cases r with
  | ok v => exact Outcome.ofValue_of_notSentinel (clean v rfl).notSentinel
  | error fault => rfl

theorem ofValue_standard {r : Except BuiltinFault Value} (clean : ∀ v, r = .ok v → v.Clean) :
    Outcome.ofValue (Standard.value r) = .ofStandard r := by
  cases r with
  | ok v => exact Outcome.ofValue_of_notSentinel (clean v rfl).notSentinel
  | error fault => rfl

theorem ofValue_host {v : Value} (result : v.isError = true ∨ v.Clean) :
    Outcome.ofValue v = .ofHost v := by
  cases v with
  | ret x =>
    rcases result with error | clean
    · cases error
    · cases clean.notSentinel
  | int n | bool b | null | str text | array items | fn f | builtin b | err message => rfl

end Reference

/-! ## States -/

/-- What the reference knows of a state: all but the log. -/
def World.store (w : World) : Reference.Store :=
  ⟨w.heap, w.interpreters⟩

namespace World

@[simp] theorem store_record (w : World) (e : Event) : (w.record e).store = w.store := rfl

@[simp] theorem store_raised (w : World) (me : InterpreterId) (fault : EvalFault) :
    (w.raised me fault).store = w.store.raised me := rfl

@[simp] theorem store_operated (w : World) (me : InterpreterId) (r : Except EvalFault Value) :
    (w.operated me r).store = w.store.operated me r := by
  cases r <;> rfl

@[simp] theorem store_calling (w : World) (me : InterpreterId) (b : Builtin) (count : Nat) :
    (w.calling me b count).store = w.store.calling me := rfl

@[simp] theorem store_entered (w : World) (me : InterpreterId) (f : Closure) (args : List Value) :
    (w.entered me f args).store = w.store.entered me f args := rfl

@[simp] theorem store_computed (w : World) (owner : InterpreterId) (op : Standard)
    (args : List Value) :
    (w.computed owner op args).store = (w.store.compute owner op args).2 := by
  rw [World.computed]
  split <;> rfl

end World

end TreeWalk
