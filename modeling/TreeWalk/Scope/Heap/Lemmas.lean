import TreeWalk.Scope.Heap.Basic

/-!
# Laws of the heap

Results:
1. `resolve_eq`, `depth_eq`: look-up and depth by one step along the chain.
2. `bindings_define`, `parent?_define`: what a write changes.
3. `bindings_allocate`, `parent?_allocate`: what a new scope changes.
4. `bindings_of_size_le`, `parent?_of_size_le`: a scope that does not exist.
-/

namespace TreeWalk

namespace Heap

/-! ## Along the chain -/

@[ext] theorem ext {h k : Heap} (eq : h.scopes = k.scopes) : h = k := by
  cases h
  cases k
  simpa using eq

/-- A bound that the scope does not exceed does not cut the look-up short. -/
theorem resolveWithin_eq (h : Heap) (name : String) {n : Nat} {s : ScopeId} (le : s.index ≤ n) :
    h.resolveWithin name n s = h.resolve s name := by
  suffices ∀ k n s, s.index ≤ k → s.index ≤ n →
      h.resolveWithin name n s = h.resolveWithin name s.index s from this s.index n s (by omega) le
  intro k
  induction k with
  | zero =>
    intro n s hk hn
    have zero : s.index = 0 := by omega
    have root : h.parent? s = none := by
      cases eq : h.parent? s with
      | none => rfl
      | some p =>
        have := index_lt_of_parent? eq
        omega
    rw [zero]
    cases n with
    | zero => rfl
    | succ n =>
      simp only [resolveWithin, root]
      cases (h.bindings s).get? name <;> rfl
  | succ k ih =>
    intro n s hk hn
    cases n with
    | zero =>
      have zero : s.index = 0 := by omega
      rw [zero]
    | succ n =>
      cases eq : h.parent? s with
      | none =>
        cases index : s.index with
        | zero =>
          simp only [resolveWithin, eq]
          cases (h.bindings s).get? name <;> rfl
        | succ i => simp only [resolveWithin, eq]
      | some p =>
        have lt := index_lt_of_parent? eq
        cases index : s.index with
        | zero => omega
        | succ i =>
          simp only [resolveWithin, eq]
          cases (h.bindings s).get? name with
          | some v => rfl
          | none =>
            simp only
            rw [ih n p (by omega) (by omega), ih i p (by omega) (by omega)]

/-- Look-up by one step along the chain. -/
theorem resolve_eq (h : Heap) (s : ScopeId) (name : String) :
    h.resolve s name =
      match (h.bindings s).get? name with
      | some v => some v
      | none => (h.parent? s).bind fun p => h.resolve p name := by
  rw [← resolveWithin_eq h name (Nat.le_succ s.index)]
  simp only [resolveWithin]
  cases (h.bindings s).get? name with
  | some v => rfl
  | none =>
    cases eq : h.parent? s with
    | none => rfl
    | some p =>
      have := index_lt_of_parent? eq
      simp [resolveWithin_eq h name (show p.index ≤ s.index by omega)]

theorem depthWithin_eq (h : Heap) {n : Nat} {s : ScopeId} (le : s.index ≤ n) :
    h.depthWithin n s = h.depth s := by
  suffices ∀ k n s, s.index ≤ k → s.index ≤ n →
      h.depthWithin n s = h.depthWithin s.index s from this s.index n s (by omega) le
  intro k
  induction k with
  | zero =>
    intro n s hk hn
    have zero : s.index = 0 := by omega
    have root : h.parent? s = none := by
      cases eq : h.parent? s with
      | none => rfl
      | some p =>
        have := index_lt_of_parent? eq
        omega
    rw [zero]
    cases n with
    | zero => rfl
    | succ n => simp only [depthWithin, root]
  | succ k ih =>
    intro n s hk hn
    cases n with
    | zero =>
      have zero : s.index = 0 := by omega
      rw [zero]
    | succ n =>
      cases eq : h.parent? s with
      | none => cases index : s.index <;> simp only [depthWithin, eq]
      | some p =>
        have lt := index_lt_of_parent? eq
        cases index : s.index with
        | zero => omega
        | succ i =>
          simp only [depthWithin, eq]
          rw [ih n p (by omega) (by omega), ih i p (by omega) (by omega)]

/-- Depth by one step along the chain. -/
theorem depth_eq (h : Heap) (s : ScopeId) :
    h.depth s = ((h.parent? s).map fun p => h.depth p + 1).getD 0 := by
  rw [← depthWithin_eq h (Nat.le_succ s.index)]
  simp only [depthWithin]
  cases eq : h.parent? s with
  | none => rfl
  | some p =>
    have := index_lt_of_parent? eq
    simp [depthWithin_eq h (show p.index ≤ s.index by omega)]

/-! ## Writes -/

@[simp] theorem size_define (h : Heap) (s : ScopeId) (name : String) (v : Value) :
    (h.define s name v).size = h.size := by
  simp [define, size]

@[simp] theorem parent?_define (h : Heap) (s t : ScopeId) (name : String) (v : Value) :
    (h.define s name v).parent? t = h.parent? t := by
  simp only [define, parent?, Array.getElem?_modify]
  split
  · cases h.scopes[t.index]? <;> rfl
  · rfl

/-- A write changes the bindings of its scope alone. -/
theorem bindings_define (h : Heap) (s t : ScopeId) (name : String) (v : Value) :
    (h.define s name v).bindings t =
      if t = s ∧ s.index < h.size then (h.bindings s).set name v else h.bindings t := by
  obtain ⟨s⟩ := s
  obtain ⟨t⟩ := t
  simp only [define, bindings, Array.getElem?_modify, ScopeId.mk.injEq, size]
  by_cases eq : s = t
  · subst eq
    by_cases lt : s < h.scopes.size
    · simp [lt]
    · simp [lt]
  · have : t ≠ s := fun h => eq h.symm
    simp [eq, this]

/-! ## New scopes -/

@[simp] theorem size_allocate (h : Heap) (outer : Option ScopeId) (b : Bindings Value) :
    (h.allocate outer b).size = h.size + 1 := by
  simp [allocate, size]

/-- A new scope has the bindings it was made with, and all others keep theirs. -/
theorem bindings_allocate (h : Heap) (outer : Option ScopeId) (b : Bindings Value) (t : ScopeId) :
    (h.allocate outer b).bindings t = if t = h.next then b else h.bindings t := by
  obtain ⟨t⟩ := t
  simp only [allocate, bindings, Array.getElem?_push, next, size, ScopeId.mk.injEq]
  by_cases eq : t = h.scopes.size <;> simp [eq]

/-- A new scope has the parent it was made with if that one exists, and all others keep theirs. -/
theorem parent?_allocate (h : Heap) (outer : Option ScopeId) (b : Bindings Value) (t : ScopeId) :
    (h.allocate outer b).parent? t =
      if t = h.next then outer.filter fun p => p.index < h.size else h.parent? t := by
  obtain ⟨t⟩ := t
  simp only [allocate, parent?, Array.getElem?_push, next, size, ScopeId.mk.injEq]
  by_cases eq : t = h.scopes.size <;> simp [eq]

/-! ## Scopes that do not exist -/

theorem bindings_of_size_le (h : Heap) {s : ScopeId} (le : h.size ≤ s.index) :
    h.bindings s = .empty := by
  rw [bindings, Array.getElem?_eq_none le]

theorem parent?_of_size_le (h : Heap) {s : ScopeId} (le : h.size ≤ s.index) :
    h.parent? s = none := by
  rw [parent?, Array.getElem?_eq_none le, Option.bind_none]

/-- Only a scope that exists binds a name. -/
theorem lt_size_of_get? {h : Heap} {s : ScopeId} {name : String} {v : Value}
    (found : (h.bindings s).get? name = some v) : s.index < h.size := by
  refine Nat.lt_of_not_le fun le => ?_
  rw [h.bindings_of_size_le le] at found
  cases found

/-- Only from a scope that exists a name is found. -/
theorem lt_size_of_resolve {h : Heap} {s : ScopeId} {name : String} {v : Value}
    (found : h.resolve s name = some v) : s.index < h.size := by
  refine Nat.lt_of_not_le fun le => ?_
  rw [resolve_eq, h.bindings_of_size_le le, h.parent?_of_size_le le] at found
  cases found

end Heap

end TreeWalk
