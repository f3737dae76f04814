import TreeWalk.Proofs.Scope.Retained

/-!
# Histories of scopes

Three things change scopes: a root is made, a scope is made within another, and a name is bound. The
scope of a call is made by these, and so is all that programs do. Whatever is done to other scopes, a
name has in a scope what it was bound to last in that very scope.

Results:
1. `Heap.get?_step`, `Heap.get?_after`: what a name is bound to after one step, and after many.
2. `Heap.callScope_eq_after`: the scope of a call.
3. `Heap.exists_after_eval`: evaluation goes by such steps.
-/

namespace TreeWalk

/-! ## Steps -/

/-- What changes scopes. -/
inductive ScopeStep
  | root
  | enclosed (outer : ScopeId)
  | defined (s : ScopeId) (name : String) (v : Value)

/-- The name was bound in the scope, and to this value at last. -/
def LastDefined (s : ScopeId) (steps : List ScopeStep) (name : String) (v : Value) : Prop :=
  ∃ before later, steps = before ++ .defined s name v :: later ∧ ∀ x, .defined s name x ∉ later

section Histories

variable {s : ScopeId} {name : String} {v : Value} {steps : List ScopeStep} {step : ScopeStep}

theorem not_lastDefined_nil : ¬ LastDefined s [] name v := by
  rintro ⟨before, later, eq, -⟩
  exact List.append_ne_nil_of_right_ne_nil before (List.cons_ne_nil _ _) eq.symm

/-- What was bound last was bound after the first step, or by it and not again. -/
theorem lastDefined_cons : LastDefined s (step :: steps) name v ↔ LastDefined s steps name v ∨
    step = .defined s name v ∧ ∀ x, .defined s name x ∉ steps := by
  constructor
  · rintro ⟨before, later, eq, last⟩
    cases before with
    | nil =>
      obtain ⟨rfl, rfl⟩ := List.cons.inj eq
      exact .inr ⟨rfl, last⟩
    | cons first before =>
      obtain ⟨-, rfl⟩ := List.cons.inj eq
      exact .inl ⟨before, later, rfl, last⟩
  · rintro (⟨before, later, rfl, last⟩ | ⟨rfl, last⟩)
    · exact ⟨step :: before, later, rfl, last⟩
    · exact ⟨[], steps, rfl, last⟩

/-- What was bound at all was bound to something last. -/
theorem exists_lastDefined_iff :
    (∃ v, LastDefined s steps name v) ↔ ∃ v, .defined s name v ∈ steps := by
  constructor
  · rintro ⟨v, before, later, rfl, -⟩
    exact ⟨v, List.mem_append_right before List.mem_cons_self⟩
  · rintro ⟨v, mem⟩
    induction steps generalizing v with
    | nil => cases mem
    | cons step steps ih =>
      by_cases again : ∃ x, .defined s name x ∈ steps
      · obtain ⟨x, mem⟩ := again
        obtain ⟨y, last⟩ := ih x mem
        exact ⟨y, lastDefined_cons.mpr (.inl last)⟩
      · rcases List.mem_cons.mp mem with rfl | mem
        · exact ⟨v, lastDefined_cons.mpr (.inr ⟨rfl, not_exists.mp again⟩)⟩
        · exact absurd ⟨v, mem⟩ again

end Histories

namespace Heap

/-- The scopes after a step. -/
def step (h : Heap) : ScopeStep → Heap
  | .root => h.newRoot.2
  | .enclosed outer => (h.enclose outer).2
  | .defined s name v => h.define s name v

/-- The scopes after some steps. -/
def after (h : Heap) (steps : List ScopeStep) : Heap :=
  steps.foldl step h

variable {h : Heap} {s : ScopeId} {name : String} {v : Value}

theorem size_le_step (step : ScopeStep) : h.size ≤ (h.step step).size := by
  cases step with
  | root | enclosed => exact (h.extends_allocate _ _).size_le
  | defined s name v => exact (h.extends_define s name v).size_le

/-- A step binds a name in its scope, and leaves to all other names and scopes what they have. -/
theorem get?_step (exist : s.index < h.size) (step : ScopeStep) :
    ((h.step step).bindings s).get? name = some v ↔ step = .defined s name v ∨
      (∀ x, step ≠ .defined s name x) ∧ (h.bindings s).get? name = some v := by
  have old : s ≠ h.next := by
    rintro rfl
    exact Nat.lt_irrefl _ exist
  cases step with
  | root | enclosed =>
    show ((h.allocate _ _).bindings s).get? name = some v ↔ _
    rw [bindings_allocate, if_neg old]
    simp
  | defined t n x =>
    show ((h.define t n x).bindings s).get? name = some v ↔ _
    rw [bindings_define]
    by_cases scope : s = t
    · subst scope
      rw [if_pos ⟨rfl, exist⟩, Bindings.get?_set]
      by_cases written : name = n
      · subst written
        simp
      · rw [if_neg written]
        simp [Ne.symm written]
    · rw [if_neg fun both => scope both.1]
      simp [Ne.symm scope]

/-- After some steps a name has what it was bound to last, if it was bound at all. -/
theorem get?_after (exist : s.index < h.size) (steps : List ScopeStep) :
    ((h.after steps).bindings s).get? name = some v ↔ LastDefined s steps name v ∨
      (∀ x, .defined s name x ∉ steps) ∧ (h.bindings s).get? name = some v := by
  induction steps generalizing h with
  | nil => simp [after, not_lastDefined_nil]
  | cons step steps ih =>
    have unbound : (∀ x, .defined s name x ∉ step :: steps) ↔
        (∀ x, .defined s name x ∉ steps) ∧ ∀ x, step ≠ .defined s name x := by
      simp only [List.mem_cons, not_or, forall_and, eq_comm, and_comm, ne_eq]
    show (((h.step step).after steps).bindings s).get? name = some v ↔ _
    rw [ih (Nat.lt_of_lt_of_le exist (size_le_step step)), get?_step exist, lastDefined_cons,
      unbound, and_or_left, or_assoc, and_assoc, and_comm]

/-- The scope is there and binds nothing yet. -/
structure Fresh (h : Heap) (s : ScopeId) : Prop where
  exist : s.index < h.size
  unbound : h.bindings s = .empty

theorem fresh_allocate (h : Heap) (outer : Option ScopeId) :
    (h.allocate outer .empty).Fresh h.next where
  exist := h.next_lt_size_allocate outer .empty
  unbound := by rw [bindings_allocate, if_pos rfl]

/-- In a scope that was new, a name has what it was bound to last. -/
theorem Fresh.get?_after (fresh : h.Fresh s) (steps : List ScopeStep) :
    ((h.after steps).bindings s).get? name = some v ↔ LastDefined s steps name v := by
  rw [Heap.get?_after fresh.exist, fresh.unbound]
  simp

/-! ## What programs do -/

theorem after_append (h : Heap) (steps more : List ScopeStep) :
    h.after (steps ++ more) = (h.after steps).after more :=
  List.foldl_append

/-- Names are bound in a new scope as if it had been made with them. -/
theorem define_allocate (h : Heap) (outer : Option ScopeId) (b : Bindings Value) (name : String)
    (v : Value) : (h.allocate outer b).define h.next name v = h.allocate outer (b.set name v) := by
  refine ext (Array.ext_getElem? fun i => ?_)
  show ((h.scopes.push _).modify h.scopes.size _)[i]? = (h.scopes.push _)[i]?
  rw [Array.getElem?_modify, Array.getElem?_push, Array.getElem?_push]
  by_cases last : i = h.scopes.size
  · subst last
    simp
  · rw [if_neg (Ne.symm last), if_neg last, if_neg last]

/-- The scope of a call is made within the captured one, and then the parameters are bound in it. -/
theorem callScope_eq_after (h : Heap) (f : Closure) (args : List Value) : (h.callScope f args).2 =
    h.after (.enclosed f.scope :: (f.params.zip args).map fun e => .defined h.next e.1 e.2) := by
  suffices ∀ (pairs : List (String × Value)) (b : Bindings Value),
      h.allocate (some f.scope) (pairs.foldl (fun b e => b.set e.1 e.2) b) =
        (h.allocate (some f.scope) b).after (pairs.map fun e => .defined h.next e.1 e.2) from
    this (f.params.zip args) .empty
  intro pairs
  induction pairs with
  | nil => exact fun _ => rfl
  | cons pair pairs ih =>
    intro b
    rw [List.foldl_cons, ih, ← define_allocate]
    rfl

/-- Whatever is evaluated, the scopes come about by steps. -/
theorem exists_after_eval {host : Host} {me : InterpreterId} {depth : Nat} {t : Term} {s : ScopeId}
    {w w' : World} {v : Value} (result : (t.eval host me depth s).run w = some (v, w')) :
    ∃ steps, w'.heap = w.heap.after steps := by
  refine heap_after_eval (P := fun k => ∃ steps, k = w.heap.after steps) ?_ ?_ ⟨[], rfl⟩ result
  · rintro _ c name x ⟨steps, rfl⟩
    refine ⟨steps ++ [.defined c name x], ?_⟩
    rw [after_append]
    rfl
  · rintro _ f args ⟨steps, rfl⟩
    rw [callScope_eq_after, ← after_append]
    exact ⟨_, rfl⟩

end Heap

end TreeWalk
