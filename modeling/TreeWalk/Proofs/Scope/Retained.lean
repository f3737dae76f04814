import TreeWalk.Proofs.Scope.Frame
import TreeWalk.Proofs.Scope.Growth

/-!
# Scopes that are retained

A call of any value leaves all scopes as they are that were there before it. So whatever was found
from a scope is found from it after the call as well, and a program may rely on the names in scope
whatever it calls.

Results:
1. `Heap.Retained.resolve_eq`: names in a heap whose scopes were retained.
2. `retained_applyValue`: a call retains all scopes.
3. `Heap.resolve_callScope`, `Heap.resolve_callScope_two`: what is found from the scope of a call.
-/

namespace TreeWalk

namespace Heap

/-- The heap `k` has all the scopes of `h` as they were. -/
structure Retained (h k : Heap) : Prop where
  size_le : h.size ≤ k.size
  same : ∀ c, c.index < h.size → SameAt h k c

namespace Retained

variable {h k l : Heap} {s : ScopeId}

theorem trans (first : h.Retained k) (next : k.Retained l) : h.Retained l where
  size_le := Nat.le_trans first.size_le next.size_le
  same c exist := by
    obtain ⟨bindings, parent⟩ := first.same c exist
    obtain ⟨bindings', parent'⟩ := next.same c (Nat.lt_of_lt_of_le exist first.size_le)
    exact ⟨bindings'.trans bindings, parent'.trans parent⟩

theorem allocate (h : Heap) (outer : Option ScopeId) (b : Bindings Value) :
    h.Retained (h.allocate outer b) where
  size_le := (h.extends_allocate outer b).size_le
  same c exist := by
    have old : c ≠ h.next := fun eq => Nat.lt_irrefl h.size (by rwa [eq] at exist)
    refine ⟨?_, (h.extends_allocate outer b).parent c exist⟩
    rw [bindings_allocate, if_neg old]

theorem exists_of (retained : h.Retained k) (exist : s.index < h.size) : s.index < k.size :=
  Nat.lt_of_lt_of_le exist retained.size_le

/-- What is found from a scope that was there is found as before. -/
theorem resolve_eq (retained : h.Retained k) (exist : s.index < h.size) (name : String) :
    k.resolve s name = h.resolve s name := by
  induction s using h.chain_induction with
  | step s ih =>
    rw [k.resolve_eq, h.resolve_eq, (retained.same s exist).1, (retained.same s exist).2]
    cases (h.bindings s).get? name with
    | some v => rfl
    | none =>
      cases parent : h.parent? s with
      | none => rfl
      | some p => exact ih p parent (Nat.lt_trans (index_lt_of_parent? parent) exist)

end Retained

/-- The scope that is made next is there when it was made. -/
theorem next_lt_size_allocate (h : Heap) (outer : Option ScopeId) (b : Bindings Value) :
    h.next.index < (h.allocate outer b).size := by
  rw [size_allocate]
  exact Nat.lt_succ_self _

/-- From the scope of a call one finds the parameters, and behind them what is found from the scope
that was captured. -/
theorem resolve_callScope {h : Heap} {f : Closure} (args : List Value)
    (exist : f.scope.index < h.size) (name : String) :
    (h.callScope f args).2.resolve h.next name =
      match (callBindings f.params args).get? name with
      | some v => some v
      | none => h.resolve f.scope name := by
  rw [resolve_eq, callScope, bindings_allocate, if_pos rfl, parent?_allocate_next exist]
  cases (callBindings f.params args).get? name with
  | some v => rfl
  | none => exact (Retained.allocate h _ _).resolve_eq exist name

/-- From the scope of a call with two arguments one finds the second parameter before the first. -/
theorem resolve_callScope_two {h : Heap} {f : Closure} {p q : String} (params : f.params = [p, q])
    (a b : Value) (exist : f.scope.index < h.size) (name : String) :
    (h.callScope f [a, b]).2.resolve h.next name =
      if name = q then some b else if name = p then some a else h.resolve f.scope name := by
  have own : (callBindings f.params [a, b]).get? name =
      if name = q then some b else if name = p then some a else none := by
    rw [params]
    show ((Bindings.empty.set p a).set q b).get? name = _
    rw [Bindings.get?_set, Bindings.get?_set, Bindings.get?_empty]
  rw [resolve_callScope _ exist, own]
  by_cases second : name = q
  · rw [if_pos second, if_pos second]
  · rw [if_neg second, if_neg second]
    by_cases first : name = p
    · rw [if_pos first, if_pos first]
    · rw [if_neg first, if_neg first]

end Heap

/-- A call retains all scopes. -/
theorem retained_applyValue {host : Host} {me : InterpreterId} {depth : Nat} {callee : Value}
    {args : List Value} {w w' : World} {v : Value}
    (result : (applyValue host me depth callee args).run w = some (v, w')) :
    w.heap.Retained w'.heap :=
  ⟨(applyValue_framed result).size_le, fun _ old => sameAt_call result old⟩

end TreeWalk
