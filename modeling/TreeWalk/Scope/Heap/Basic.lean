import TreeWalk.Scope.Bindings
import TreeWalk.Text.Utf8
import TreeWalk.Value.Basic

/-!
# The heap of scopes

Scopes are shared: closures and inner scopes refer to them by identifier, and a write through one
reference is seen through all. They live in a heap in the order in which they were made, and are
never removed. The parent of a scope was made before it, so a chain of parents ends, though values
bound in a scope may well refer back to that scope.

An identifier of a scope that does not exist reads as an empty root, and writes to it are lost.
-/

namespace TreeWalk

/-! ## Scopes and heaps -/

/-- One scope: its own bindings and the scope around it, which a root scope lacks. -/
structure Scope where
  bindings : Bindings Value
  parent : Option ScopeId

/-- All the scopes. -/
structure Heap where
  /-- The scopes in the order in which they were made. -/
  scopes : Array Scope
  /-- A scope is younger than its parent. -/
  parent_older : ∀ (i : Nat) (c : Scope) (p : ScopeId),
    scopes[i]? = some c → c.parent = some p → p.index < i

namespace Heap

/-- The heap without scopes. -/
def empty : Heap :=
  ⟨#[], by simp⟩

/-- How many scopes there are. -/
def size (h : Heap) : Nat :=
  h.scopes.size

/-- The own bindings of a scope. -/
def bindings (h : Heap) (s : ScopeId) : Bindings Value :=
  match h.scopes[s.index]? with
  | none => .empty
  | some c => c.bindings

/-- The scope around a scope. -/
def parent? (h : Heap) (s : ScopeId) : Option ScopeId :=
  h.scopes[s.index]?.bind Scope.parent

theorem index_lt_of_parent? {h : Heap} {s p : ScopeId} (eq : h.parent? s = some p) :
    p.index < s.index := by
  obtain ⟨c, found, parent⟩ := Option.bind_eq_some_iff.mp eq
  exact h.parent_older s.index c p found parent

/-! ## Making scopes and binding names -/

/-- The scope that will be made next. -/
def next (h : Heap) : ScopeId :=
  ⟨h.size⟩

/-- The heap with one scope more, which is `h.next`. -/
def allocate (h : Heap) (outer : Option ScopeId) (b : Bindings Value) : Heap where
  scopes := h.scopes.push ⟨b, outer.filter fun p => p.index < h.size⟩
  parent_older := by
    intro i c p found parent
    rw [Array.getElem?_push] at found
    split at found
    · rename_i last
      subst last
      cases found
      exact of_decide_eq_true (Option.filter_eq_some_iff.mp parent).2
    · exact h.parent_older i c p found parent

/-- A new root scope. -/
def newRoot (h : Heap) : ScopeId × Heap :=
  (h.next, h.allocate none .empty)

/-- A new scope inside another. -/
def enclose (h : Heap) (outer : ScopeId) : ScopeId × Heap :=
  (h.next, h.allocate (some outer) .empty)

/-- Binds a name in a scope, and never in the scopes around it. -/
def define (h : Heap) (s : ScopeId) (name : String) (v : Value) : Heap where
  scopes := h.scopes.modify s.index fun c => { c with bindings := c.bindings.set name v }
  parent_older := by
    intro i c p found parent
    rw [Array.getElem?_modify] at found
    split at found
    · obtain ⟨d, old, rfl⟩ := Option.map_eq_some_iff.mp found
      exact h.parent_older i d p old parent
    · exact h.parent_older i c p found parent

/-! ## Following the chain -/

/-- Looks a name up along at most so many parents. -/
def resolveWithin (h : Heap) (name : String) : Nat → ScopeId → Option Value
  | 0, s => (h.bindings s).get? name
  | n + 1, s =>
      match (h.bindings s).get? name with
      | some v => some v
      | none =>
          match h.parent? s with
          | none => none
          | some p => resolveWithin h name n p

/-- The value of a name in the innermost scope that binds it, from a scope outwards. As parents
are older, no chain is longer than the identifier of its first scope says. -/
def resolve (h : Heap) (s : ScopeId) (name : String) : Option Value :=
  h.resolveWithin name s.index s

/-- The number of parents up to a bound. -/
def depthWithin (h : Heap) : Nat → ScopeId → Nat
  | 0, _ => 0
  | n + 1, s =>
      match h.parent? s with
      | none => 0
      | some p => depthWithin h n p + 1

/-- The number of scopes around a scope. -/
def depth (h : Heap) (s : ScopeId) : Nat :=
  h.depthWithin s.index s

/-- Whether a scope has no scope around it. -/
def isRoot (h : Heap) (s : ScopeId) : Bool :=
  (h.parent? s).isNone

/-! ## Listings -/

/-- The names that a scope binds itself with what they are bound to, sorted by name. -/
def snapshot (h : Heap) (s : ScopeId) : List (String × Value) :=
  sortedBy Prod.fst (h.bindings s).entries

/-- The names that a scope binds itself, sorted. -/
def names (h : Heap) (s : ScopeId) : List String :=
  sortedBy id (h.bindings s).names

/-! ## The scope of a call -/

/-- The parameters bound to the arguments at their positions, later ones in place of earlier ones
of the same name. Arguments beyond the parameters are dropped, and parameters without an argument
stay unbound. -/
def callBindings (params : List String) (args : List Value) : Bindings Value :=
  (params.zip args).foldl (fun b e => b.set e.1 e.2) .empty

/-- A new scope for a call: the parameters are bound to the arguments, and around it is the scope
that the closure captured. -/
def callScope (h : Heap) (f : Closure) (args : List Value) : ScopeId × Heap :=
  (h.next, h.allocate (some f.scope) (callBindings f.params args))

end Heap

end TreeWalk
