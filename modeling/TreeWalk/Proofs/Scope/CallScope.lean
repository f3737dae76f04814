import TreeWalk.Proofs.Scope.Retained

/-!
# The scope of a call

A call makes one scope and touches no other. The new scope lies within the one that the function
captured, and has its parameters bound by position. How many arguments there are does not matter to
the scope, and is checked before it is made.

Results:
1. `Heap.resolve_callScope_of_unbound`: the names that the new scope leaves to the captured one.
2. `Heap.exists_get?_callBindings`: enough arguments bind all parameters.
3. `call_scope_positional`: what there is after the scope was made.
-/

namespace TreeWalk

namespace Heap

variable {h : Heap} {f : Closure} {args : List Value} {name : String}

/-- A name that has no position with an argument is not bound. -/
theorem get?_callBindings_eq_none {params : List String}
    (absent : ∀ i < args.length, params[i]? ≠ some name) :
    (callBindings params args).get? name = none := by
  refine Option.eq_none_iff_forall_ne_some.mpr fun v found => ?_
  obtain ⟨i, ⟨bound, param, -⟩, -⟩ := get?_callBindings_eq_some_iff.mp found
  exact absent i bound param

/-- With an argument for each parameter, all parameters are bound. -/
theorem exists_get?_callBindings {params : List String} (arity : params.length = args.length)
    (param : name ∈ params) : ∃ v ∈ args, (callBindings params args).get? name = some v := by
  have bound : (callBindings params args).get? name ≠ none := by
    rwa [get?_callBindings_ne_none_iff, List.map_fst_zip (Nat.le_of_eq arity)]
  obtain ⟨v, found⟩ := Option.ne_none_iff_exists'.mp bound
  exact ⟨v, mem_of_get?_callBindings found, found⟩

/-- A name that the new scope does not bind is found where the captured scope finds it, which is
where it was found before. -/
theorem resolve_callScope_of_unbound (exist : f.scope.index < h.size)
    (unbound : (callBindings f.params args).get? name = none) :
    (h.callScope f args).2.resolve h.next name = (h.callScope f args).2.resolve f.scope name ∧
      (h.callScope f args).2.resolve f.scope name = h.resolve f.scope name := by
  have captured : (h.callScope f args).2.resolve f.scope name = h.resolve f.scope name :=
    (Retained.allocate h _ _).resolve_eq exist name
  rw [resolve_callScope args exist, unbound, captured]
  exact ⟨rfl, rfl⟩

end Heap

/-- The scope that is made for a call of a function, whatever its parameters and with any number of
arguments. It is none of the scopes that were there, all of which are left as they were, and the
scope around it is the one that the function captured. In it, a name is bound to the argument at its
last position among the parameters, as far as there are arguments. A name without such a position is
not bound, and from the new scope it is found as it is from the captured one. With as many arguments
as parameters every parameter is bound, and with another number there is a fault and no scope. -/
theorem call_scope_positional (h : Heap) (f : Closure) (args : List Value)
    (exist : f.scope.index < h.size) :
    let own := (h.callScope f args).1
    let k := (h.callScope f args).2
    (∀ c : ScopeId, c.index < h.size → c ≠ own ∧ SameAt h k c) ∧
    own.index < k.size ∧ k.parent? own = some f.scope ∧
    (∀ name v, (k.bindings own).get? name = some v ↔
      ∃ i, LastAt f.params args.length name i ∧ args[i]? = some v) ∧
    (∀ name, (∀ i < args.length, f.params[i]? ≠ some name) →
      (k.bindings own).get? name = none ∧ k.resolve own name = k.resolve f.scope name ∧
        k.resolve f.scope name = h.resolve f.scope name) ∧
    (f.arity = args.length → ∀ name ∈ f.params, ∃ v ∈ args, (k.bindings own).get? name = some v) ∧
    (f.arity ≠ args.length → ∀ host me call w,
      let fault := EvalFault.arityMismatch f.arity args.length
      (evalCall host me call (.fn f) args).run w = some (fault.toValue, w.raised me fault)) := by
  intro own k
  have bindings : k.bindings own = Heap.callBindings f.params args := by
    show (h.allocate _ _).bindings h.next = _
    rw [Heap.bindings_allocate, if_pos rfl]
  refine ⟨fun c old => ?_, h.next_lt_size_allocate _ _, h.parent?_allocate_next exist _, ?_, ?_, ?_,
    ?_⟩
  · refine ⟨?_, (Heap.Retained.allocate h _ _).same c old⟩
    rintro rfl
    exact Nat.lt_irrefl _ old
  · intro name v
    rw [bindings]
    exact Heap.get?_callBindings_eq_some_iff
  · intro name absent
    have unbound := Heap.get?_callBindings_eq_none absent
    rw [bindings]
    exact ⟨unbound, Heap.resolve_callScope_of_unbound exist unbound⟩
  · intro arity name param
    rw [bindings]
    exact Heap.exists_get?_callBindings arity param
  · intro arity host me call w fault
    rw [evalCall, if_neg arity]
    rfl

/-- A function that has a parameter twice, with the innermost of three scopes captured. -/
def repeated : Closure :=
  ⟨⟨0, 0⟩, ["y", "z", "y"], [.expr (.ident "y")], ⟨2⟩⟩

/-- With more arguments than parameters the second position of `y` counts, and with a single one the
first. Then `z` is not bound. -/
theorem call_scope_positional_repeated :
    ((Heap.threefold.callScope repeated [.int 1, .int 2, .int 3, .int 4]).2.bindings ⟨3⟩).get? "y" =
        some (.int 3) ∧
      ((Heap.threefold.callScope repeated [.int 1]).2.bindings ⟨3⟩).get? "y" = some (.int 1) ∧
      ((Heap.threefold.callScope repeated [.int 1]).2.bindings ⟨3⟩).get? "z" = none := by
  have exist : repeated.scope.index < Heap.threefold.size := by decide
  obtain ⟨-, -, -, surplus, -⟩ :=
    call_scope_positional .threefold repeated [.int 1, .int 2, .int 3, .int 4] exist
  obtain ⟨-, -, -, single, absent, -⟩ := call_scope_positional .threefold repeated [.int 1] exist
  have second : LastAt repeated.params 4 "y" 2 := by
    refine ⟨by decide, rfl, fun j behind _ => ?_⟩
    rw [List.getElem?_eq_none (show repeated.params.length ≤ j from behind)]
    nofun
  have first : LastAt repeated.params 1 "y" 0 :=
    ⟨by decide, rfl, fun j behind bound => absurd bound (Nat.not_lt_of_le behind)⟩
  exact ⟨(surplus "y" _).mpr ⟨2, second, rfl⟩, (single "y" _).mpr ⟨0, first, rfl⟩,
    (absent "z" (by decide)).1⟩

end TreeWalk
