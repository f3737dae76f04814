import TreeWalk.Proofs.Scope.Chain

/-!
# Heaps that have grown

Scopes are made and never removed, and the scope around a scope is settled when it is made. So of two
states of a heap the later one has all scopes of the earlier, around each the same scope. Whatever
follows from parents alone is the same in both.

Results:
1. `Heap.extends_define`, `Heap.extends_allocate`: what is done with a heap makes it grow.
2. `Heap.Extends.chain`, `Heap.Extends.depth_eq`: chains and depths stay.
3. `Heap.parent?_allocate_next`, `Heap.depth_allocate_next`: a new scope within another.
-/

namespace TreeWalk

namespace Heap

/-- The heap `k` has all scopes of `h`, around each the same scope. -/
structure Extends (h k : Heap) : Prop where
  size_le : h.size ≤ k.size
  parent : ∀ s, s.index < h.size → k.parent? s = h.parent? s

/-! ## What makes a heap grow -/

variable {h k l : Heap} {s : ScopeId}

theorem Extends.refl (h : Heap) : h.Extends h :=
  ⟨Nat.le_refl _, fun _ _ => rfl⟩

theorem Extends.trans (first : h.Extends k) (next : k.Extends l) : h.Extends l where
  size_le := Nat.le_trans first.size_le next.size_le
  parent s exist :=
    (next.parent s (Nat.lt_of_lt_of_le exist first.size_le)).trans (first.parent s exist)

theorem extends_define (h : Heap) (s : ScopeId) (name : String) (v : Value) :
    h.Extends (h.define s name v) where
  size_le := Nat.le_of_eq (h.size_define s name v).symm
  parent t _ := h.parent?_define s t name v

theorem extends_allocate (h : Heap) (outer : Option ScopeId) (b : Bindings Value) :
    h.Extends (h.allocate outer b) where
  size_le := by
    rw [size_allocate]
    exact Nat.le_succ _
  parent s exist := by
    have old : s ≠ h.next := fun eq => Nat.lt_irrefl h.size (by rwa [eq] at exist)
    rw [parent?_allocate, if_neg old]

/-- Around a new scope there is the scope that was asked for, if it exists. -/
theorem parent?_allocate_next {outer : ScopeId} (exist : outer.index < h.size)
    (b : Bindings Value) : (h.allocate (some outer) b).parent? h.next = some outer := by
  rw [parent?_allocate, if_pos rfl, Option.filter_some, if_pos (decide_eq_true exist)]

/-! ## What stays -/

/-- A scope keeps its chain. -/
theorem Extends.chain (grown : h.Extends k) (exist : s.index < h.size) {chain : List ScopeId}
    (of : h.Chain s chain) : k.Chain s chain := by
  induction of with
  | root none => exact .root ((grown.parent _ exist).trans none)
  | inside parent _ ih =>
    refine .inside ((grown.parent _ exist).trans parent) (ih ?_)
    exact Nat.lt_trans (index_lt_of_parent? parent) exist

/-- A scope keeps its depth. -/
theorem Extends.depth_eq (grown : h.Extends k) (exist : s.index < h.size) :
    k.depth s = h.depth s := by
  induction s using h.chain_induction with
  | step s ih =>
    rw [k.depth_eq, h.depth_eq, grown.parent s exist]
    cases parent : h.parent? s with
    | none => rfl
    | some p =>
      exact congrArg (· + 1) (ih p parent (Nat.lt_trans (index_lt_of_parent? parent) exist))

/-- A new scope is one deeper than the scope around it. -/
theorem depth_allocate_next {outer : ScopeId} (exist : outer.index < h.size)
    (b : Bindings Value) : (h.allocate (some outer) b).depth h.next = h.depth outer + 1 := by
  rw [depth_eq, parent?_allocate_next exist]
  exact congrArg (· + 1) ((h.extends_allocate _ b).depth_eq exist)

end Heap

end TreeWalk
