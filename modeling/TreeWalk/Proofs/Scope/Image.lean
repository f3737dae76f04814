import TreeWalk.Proofs.Scope.Bound

/-!
# Images of heaps

A heap in which every bound value was replaced by its image under a function. Scopes, names and
parents are the same. What is done with a heap and with images of values gives the image of what is
done with the heap and the values.

Results:
1. `Bindings.get?_map`, `Bindings.map_set`: the image of the bindings of one scope.
2. `Heap.map_define`, `Heap.map_callScope`: the image of a write and of a call.
3. `Heap.resolve_map`, `Heap.depth_map`: names and depths in the image.
-/

namespace TreeWalk

/-! ## One scope -/

namespace Bindings

variable {α β : Type} (f : α → β)

/-- The same names, bound to the images. -/
def map (b : Bindings α) : Bindings β where
  entries := b.entries.map fun e => (e.1, f e.2)
  increasing := by
    rw [List.map_map]
    exact b.increasing

@[simp] theorem names_map (b : Bindings α) : (b.map f).names = b.names :=
  List.map_map

theorem find?_map (name : String) (entries : List (String × α)) :
    find? name (entries.map fun e => (e.1, f e.2)) = (find? name entries).map f := by
  induction entries with
  | nil => rfl
  | cons e rest ih =>
    rw [List.map_cons, find?, find?, ih]
    split <;> rfl

@[simp] theorem get?_map (b : Bindings α) (name : String) :
    (b.map f).get? name = (b.get? name).map f :=
  find?_map f name b.entries

theorem map_empty : (empty : Bindings α).map f = empty := rfl

theorem map_set (b : Bindings α) (name : String) (a : α) :
    (b.set name a).map f = (b.map f).set name (f a) := by
  refine ext_get? fun n => ?_
  rw [get?_map, get?_set, get?_set, get?_map]
  split <;> rfl

theorem map_id (b : Bindings α) : b.map id = b :=
  ext (List.map_id _)

end Bindings

/-! ## Heaps -/

namespace Heap

/-- Heaps are equal when they have equally many scopes, with the same bindings and parents. -/
theorem ext_scope {h k : Heap} (size : h.size = k.size)
    (bindings : ∀ s, h.bindings s = k.bindings s) (parent : ∀ s, h.parent? s = k.parent? s) :
    h = k := by
  refine Heap.ext (Array.ext size fun i left right => ?_)
  have own := bindings ⟨i⟩
  have around := parent ⟨i⟩
  simp only [Heap.bindings, Heap.parent?, Array.getElem?_eq_getElem left,
    Array.getElem?_eq_getElem right, Option.bind_some] at own around
  cases eq : h.scopes[i]
  cases eq' : k.scopes[i]
  rw [eq, eq'] at own around
  rw [Scope.mk.injEq]
  exact ⟨own, around⟩

variable (f : Value → Value) (h : Heap)

/-- The same scopes, in which the images are bound. -/
def map : Heap where
  scopes := h.scopes.map fun c => { c with bindings := c.bindings.map f }
  parent_older := by
    intro i c p found parent
    rw [Array.getElem?_map] at found
    obtain ⟨d, old, rfl⟩ := Option.map_eq_some_iff.mp found
    exact h.parent_older i d p old parent

@[simp] theorem size_map : (h.map f).size = h.size :=
  Array.size_map

@[simp] theorem next_map : (h.map f).next = h.next :=
  congrArg ScopeId.mk (h.size_map f)

@[simp] theorem parent?_map (s : ScopeId) : (h.map f).parent? s = h.parent? s := by
  rw [parent?, map, Array.getElem?_map, parent?]
  cases h.scopes[s.index]? <;> rfl

@[simp] theorem bindings_map (s : ScopeId) : (h.map f).bindings s = (h.bindings s).map f := by
  rw [bindings, map, Array.getElem?_map, bindings]
  cases h.scopes[s.index]? <;> rfl

@[simp] theorem names_map (s : ScopeId) : (h.map f).names s = h.names s := by
  rw [names, bindings_map, Bindings.names_map, names]

theorem map_id : h.map id = h := by
  refine ext_scope (h.size_map id) (fun s => ?_) (h.parent?_map id)
  rw [bindings_map, Bindings.map_id]

/-! ## Names and depths -/

theorem resolve_map (s : ScopeId) (name : String) :
    (h.map f).resolve s name = (h.resolve s name).map f := by
  induction s using h.chain_induction with
  | step s ih =>
    rw [resolve_eq, h.resolve_eq, bindings_map, Bindings.get?_map, parent?_map]
    cases (h.bindings s).get? name with
    | some v => rfl
    | none =>
      cases parent : h.parent? s with
      | none => rfl
      | some p => exact ih p parent

theorem depth_map (s : ScopeId) : (h.map f).depth s = h.depth s := by
  induction s using h.chain_induction with
  | step s ih =>
    rw [depth_eq, h.depth_eq, parent?_map]
    cases parent : h.parent? s with
    | none => rfl
    | some p => exact congrArg (· + 1) (ih p parent)

/-! ## Writes and calls -/

theorem map_define (s : ScopeId) (name : String) (v : Value) :
    (h.define s name v).map f = (h.map f).define s name (f v) := by
  refine ext_scope ?_ (fun t => ?_) fun t => ?_
  · rw [size_map, size_define, size_define, size_map]
  · rw [bindings_map, bindings_define, bindings_define, size_map, bindings_map, bindings_map]
    split
    · exact Bindings.map_set f _ name v
    · rfl
  · rw [parent?_map, parent?_define, parent?_define, parent?_map]

theorem map_allocate (outer : Option ScopeId) (b : Bindings Value) :
    (h.allocate outer b).map f = (h.map f).allocate outer (b.map f) := by
  refine ext_scope ?_ (fun t => ?_) fun t => ?_
  · rw [size_map, size_allocate, size_allocate, size_map]
  · rw [bindings_map, bindings_allocate, bindings_allocate, next_map, bindings_map]
    split <;> rfl
  · rw [parent?_map, parent?_allocate, parent?_allocate, next_map, size_map, parent?_map]

/-- Parameters are bound to the images of the arguments. -/
theorem map_callBindings (params : List String) (args : List Value) :
    (callBindings params args).map f = callBindings params (args.map f) := by
  suffices ∀ (pairs : List (String × Value)) (b : Bindings Value),
      (pairs.foldl (fun b e => b.set e.1 e.2) b).map f =
        (pairs.map fun e => (e.1, f e.2)).foldl (fun b e => b.set e.1 e.2) (b.map f) by
    rw [callBindings, this, callBindings, List.zip_map_right]
    rfl
  intro pairs
  induction pairs with
  | nil => exact fun _ => rfl
  | cons pair pairs ih =>
    intro b
    rw [List.foldl_cons, ih, Bindings.map_set, List.map_cons, List.foldl_cons]

theorem map_callScope (c : Closure) (args : List Value) :
    (h.callScope c args).2.map f = ((h.map f).callScope c (args.map f)).2 := by
  rw [callScope, callScope, map_allocate, map_callBindings]

end Heap

end TreeWalk
