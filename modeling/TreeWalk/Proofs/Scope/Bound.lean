import TreeWalk.Proofs.Scope.Positional

/-!
# Bound values

What is said of all values that are bound in some scopes. A write keeps it when the value written
has the property, and a new scope of a call when the arguments have it.

Results:
1. `Heap.chain_induction`: induction along the chain of parents.
2. `BoundIn.define`, `BoundIn.allocate`, `BoundIn.callScope`: writes, new scopes and calls.
3. `BoundIn.resolve`: what is found by looking a name up.
-/

namespace TreeWalk

namespace Heap

/-- A property that passes from the parent of a scope to the scope holds everywhere. -/
theorem chain_induction {motive : ScopeId → Prop} (h : Heap)
    (step : ∀ s, (∀ p, h.parent? s = some p → motive p) → motive s) (s : ScopeId) : motive s := by
  suffices ∀ n s, s.index < n → motive s from this (s.index + 1) s (Nat.lt_succ_self _)
  intro n
  induction n with
  | zero =>
    intro s lt
    exact absurd lt (Nat.not_lt_zero _)
  | succ n ih =>
    intro s lt
    refine step s fun p parent => ih p ?_
    exact Nat.lt_of_lt_of_le (index_lt_of_parent? parent) (Nat.le_of_lt_succ lt)

end Heap

/-- All values that are bound in the scopes of `S` satisfy `D`. -/
def BoundIn (S : ScopeId → Prop) (D : Value → Prop) (h : Heap) : Prop :=
  ∀ c n v, S c → (h.bindings c).get? n = some v → D v

namespace BoundIn

variable {S : ScopeId → Prop} {D E : Value → Prop} {h : Heap}

theorem imp (bound : BoundIn S D h) (imp : ∀ v, D v → E v) : BoundIn S E h :=
  fun c n v inS found => imp v (bound c n v inS found)

theorem define (bound : BoundIn S D h) (s : ScopeId) (name : String) {v : Value} (data : D v) :
    BoundIn S D (h.define s name v) := by
  intro c n x inS found
  rw [Heap.bindings_define] at found
  split at found
  · next written =>
    rw [Bindings.get?_set] at found
    split at found
    · cases found
      exact data
    · exact bound s n x (written.1 ▸ inS) found
  · exact bound c n x inS found

theorem allocate (bound : BoundIn S D h) (outer : Option ScopeId) {b : Bindings Value}
    (all : ∀ n v, b.get? n = some v → D v) : BoundIn S D (h.allocate outer b) := by
  intro c n x inS found
  rw [Heap.bindings_allocate] at found
  split at found
  · exact all n x found
  · exact bound c n x inS found

theorem callScope (bound : BoundIn S D h) (f : Closure) {args : List Value}
    (all : ∀ v ∈ args, D v) : BoundIn S D (h.callScope f args).2 :=
  bound.allocate _ fun _ v found => all v (Heap.mem_of_get?_callBindings found)

/-- A name is found in a scope of the chain, so its value has the property if the chain lies in
the scopes of which this is known. -/
theorem resolve (bound : BoundIn S D h) (up : ∀ c p, S c → h.parent? c = some p → S p)
    (s : ScopeId) {name : String} {v : Value} (inS : S s) (found : h.resolve s name = some v) :
    D v := by
  induction s using h.chain_induction with
  | step s ih =>
    rw [Heap.resolve_eq] at found
    split at found
    · next x own =>
      cases found
      exact bound s name v inS own
    · obtain ⟨p, parent, found⟩ := Option.bind_eq_some_iff.mp found
      exact ih p parent (up s p inS parent) found

end BoundIn

end TreeWalk
