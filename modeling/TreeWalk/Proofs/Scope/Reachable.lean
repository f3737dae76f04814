import TreeWalk.Proofs.Scope.Bound
import TreeWalk.Proofs.Value.Closures

/-!
# Reachable scopes

A value mentions the scopes that the closures in it captured. From a scope one reaches the scope
around it and the scopes that its bound values mention.

Two heaps that agree on what is reachable in one of them cannot be told apart from there: the same
scopes are reachable, and names and depths are the same.

Results:
1. `Value.hereditary_within`: to mention no scopes but some is hereditary.
2. `Heap.Reachable.agree`: reachability depends on reachable scopes only.
3. `Closed.resolve_eq`, `Closed.depth_eq`: names and depths in heaps that agree.
4. `closed_reachableOrNew`: the reachable scopes with those that will be made are a closed set.
-/

namespace TreeWalk

/-! ## Mentioned scopes -/

/-- A closure inside the value captured the scope. -/
def Value.Mentions (v : Value) (s : ScopeId) : Prop :=
  ∃ f : Closure, (Value.fn f).PartOf v ∧ f.scope = s

/-- The value mentions no scopes but those of `S`. -/
def Value.Within (S : ScopeId → Prop) (v : Value) : Prop :=
  ∀ s, v.Mentions s → S s

namespace Value

variable {S : ScopeId → Prop}

/-- Mentioned scopes are captured ones, so this is a property of the closures in the value. -/
theorem within_iff {v : Value} : v.Within S ↔ v.Closures fun f => S f.scope := by
  constructor
  · exact fun within f part => within f.scope ⟨f, part, rfl⟩
  · rintro all s ⟨f, part, rfl⟩
    exact all f part

theorem hereditary_within (S : ScopeId → Prop) : Hereditary (Value.Within S) := by
  have same : Value.Within S = Value.Closures fun f => S f.scope :=
    funext fun v => propext within_iff
  rw [same]
  exact hereditary_closures _

theorem within_fn {f : Closure} : (Value.fn f).Within S ↔ S f.scope :=
  within_iff.trans closures_fn

theorem within_builtin (b : Builtin) : (Value.builtin b).Within S :=
  within_iff.mpr (closures_builtin b)

theorem within_err (message : String) : (Value.err message).Within S :=
  within_iff.mpr (closures_err message)

theorem within_ret {v : Value} : (Value.ret v).Within S ↔ v.Within S :=
  within_iff.trans (closures_ret.trans within_iff.symm)

end Value

/-! ## Reachability -/

/-- The scopes that are reached from some scopes: by way of parents, and of the values that are
bound on the way. -/
inductive Heap.Reachable (h : Heap) (roots : ScopeId → Prop) : ScopeId → Prop
  | root {s : ScopeId} : roots s → Reachable h roots s
  | parent {s p : ScopeId} : Reachable h roots s → h.parent? s = some p → Reachable h roots p
  | bound {s t : ScopeId} {name : String} {v : Value} : Reachable h roots s →
      (h.bindings s).get? name = some v → v.Mentions t → Reachable h roots t

/-- A scope has the same own bindings and the same parent in two heaps. -/
def SameAt (h h' : Heap) (c : ScopeId) : Prop :=
  h'.bindings c = h.bindings c ∧ h'.parent? c = h.parent? c

/-- Two heaps that agree on what is reachable in the first reach the same scopes. -/
theorem Heap.Reachable.agree {h k : Heap} {roots : ScopeId → Prop}
    (agree : ∀ c, h.Reachable roots c → SameAt h k c) {s : ScopeId} :
    h.Reachable roots s ↔ k.Reachable roots s := by
  constructor
  · intro reachable
    induction reachable with
    | root mem => exact .root mem
    | parent reachable parent ih =>
      rw [← (agree _ reachable).2] at parent
      exact .parent ih parent
    | bound reachable found mentions ih =>
      rw [← (agree _ reachable).1] at found
      exact .bound ih found mentions
  · intro reachable
    induction reachable with
    | root mem => exact .root mem
    | parent _ parent ih =>
      rw [(agree _ ih).2] at parent
      exact .parent ih parent
    | bound _ found mentions ih =>
      rw [(agree _ ih).1] at found
      exact .bound ih found mentions

/-! ## Closed sets -/

/-- No parent and no bound value leads out of `S`. -/
structure Closed (S : ScopeId → Prop) (h : Heap) : Prop where
  parent : ∀ c p, S c → h.parent? c = some p → S p
  bound : BoundIn S (Value.Within S) h

namespace Closed

variable {S : ScopeId → Prop} {h k : Heap}

theorem define (closed : Closed S h) (s : ScopeId) (name : String) {v : Value}
    (within : v.Within S) : Closed S (h.define s name v) where
  parent c p inS parent := by
    rw [Heap.parent?_define] at parent
    exact closed.parent c p inS parent
  bound := closed.bound.define s name within

theorem callScope (closed : Closed S h) {f : Closure} {args : List Value} (inS : S f.scope)
    (all : ∀ v ∈ args, v.Within S) : Closed S (h.callScope f args).2 where
  parent c p inC parent := by
    rw [Heap.callScope, Heap.parent?_allocate] at parent
    split at parent
    · obtain ⟨eq, _⟩ := Option.filter_eq_some_iff.mp parent
      cases eq
      exact inS
    · exact closed.parent c p inC parent
  bound := closed.bound.callScope f all

/-- The reachable scopes are the least closed set around the roots. -/
theorem mem_of_reachable (closed : Closed S h) {roots : ScopeId → Prop}
    (rooted : ∀ s, roots s → S s) {s : ScopeId} (reachable : h.Reachable roots s) : S s := by
  induction reachable with
  | root mem => exact rooted _ mem
  | parent _ parent ih => exact closed.parent _ _ ih parent
  | bound _ found mentions ih => exact closed.bound _ _ _ ih found _ mentions

/-- A name has the same value in heaps that agree on a closed set. -/
theorem resolve_eq (closed : Closed S h) (agree : ∀ c, S c → SameAt h k c) {s : ScopeId}
    (inS : S s) (name : String) : k.resolve s name = h.resolve s name := by
  induction s using h.chain_induction with
  | step s ih =>
    rw [k.resolve_eq, h.resolve_eq, (agree s inS).1, (agree s inS).2]
    cases parent : h.parent? s with
    | none => rfl
    | some p =>
      have there := ih p parent (closed.parent s p inS parent)
      dsimp only [Option.bind_some]
      rw [there]

theorem depth_eq (closed : Closed S h) (agree : ∀ c, S c → SameAt h k c) {s : ScopeId}
    (inS : S s) : k.depth s = h.depth s := by
  induction s using h.chain_induction with
  | step s ih =>
    rw [k.depth_eq, h.depth_eq, (agree s inS).2]
    cases parent : h.parent? s with
    | none => rfl
    | some p =>
      have there := ih p parent (closed.parent s p inS parent)
      show k.depth p + 1 = h.depth p + 1
      rw [there]

end Closed

/-! ## What is reachable or does not exist yet -/

/-- The scope is reached from some scopes, or does not exist yet. -/
def Heap.ReachableOrNew (h : Heap) (roots : ScopeId → Prop) (c : ScopeId) : Prop :=
  h.Reachable roots c ∨ h.size ≤ c.index

/-- What holds of all values that are bound in reachable scopes holds as well when the scopes are
counted in that do not exist yet. -/
theorem boundIn_reachableOrNew {h : Heap} {roots : ScopeId → Prop} {D : Value → Prop}
    (bound : BoundIn (h.Reachable roots) D h) : BoundIn (h.ReachableOrNew roots) D h := by
  rintro c n v (reachable | new) found
  · exact bound c n v reachable found
  · exact absurd (Heap.lt_size_of_get? found) (Nat.not_lt_of_le new)

/-- Nothing leads from what is reachable to what is not, nor from scopes that do not exist yet. -/
theorem closed_reachableOrNew (h : Heap) (roots : ScopeId → Prop) :
    Closed (h.ReachableOrNew roots) h where
  parent := by
    rintro c p (reachable | new) parent
    · exact .inl (.parent reachable parent)
    · rw [h.parent?_of_size_le new] at parent
      cases parent
  bound := boundIn_reachableOrNew fun _ _ _ reachable found _ mentions =>
    .inl (.bound reachable found mentions)

end TreeWalk
