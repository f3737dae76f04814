import TreeWalk.Proofs.Scope.Existing
import TreeWalk.Proofs.Scope.Frame
import TreeWalk.Proofs.Scope.Growth
import TreeWalk.Scope.Debug

/-!
# Scopes over a session

In a session scopes are made, names are bound and programs are evaluated, in any order and by way of
any scope that is there. Closures that are bound may lead back to the scope that binds them, so what
can be reached from a scope goes round in circles. The chain of parents does not: it ends, and it never
changes. So do the depths of scopes, and the debug text of a value, which shows of a closure how deep
its scope is.

That a scope is younger than its parent is a matter of how heaps are made, and a parent that did not
exist would be lost. In a session none is: all closures are of scopes that exist.

Results:
1. `Later.extends`, `Later.grounded`: what is kept by all that can happen.
2. `Heap.Chain.laws`: depth and look-up along the chain.
3. `Value.debug_eq`: the debug text depends on depths only.
4. `scope_chains_fixed`: chains, depths and debug texts over a session.
-/

namespace TreeWalk

/-! ## Sessions -/

/-- What can happen in a session from a state on. A scope is made, on its own or within another; a name
is bound in a scope; the scope of a call is made; a program is evaluated in a scope, by any
interpreter; or something else happens that leaves the scopes alone. The scopes that are referred to
exist, and so do those of the closures that are bound or passed, or that a host keeps for its
builtins. -/
inductive Later (host : Host) (w : World) : World → Prop
  | now : Later host w w
  | root {x : World} : Later host w x → Later host w { x with heap := x.heap.newRoot.2 }
  | enclosed {outer : ScopeId} {x : World} : Later host w x → outer.index < x.heap.size →
      Later host w { x with heap := (x.heap.enclose outer).2 }
  | defined {s : ScopeId} {name : String} {v : Value} {x : World} : Later host w x →
      s.index < x.heap.size → v.GroundedIn x.heap →
      Later host w { x with heap := x.heap.define s name v }
  | called {f : Closure} {args : List Value} {x : World} : Later host w x →
      f.scope.index < x.heap.size → (∀ a ∈ args, a.GroundedIn x.heap) →
      Later host w { x with heap := (x.heap.callScope f args).2 }
  | evaluated {me : InterpreterId} {depth : Nat} {s : ScopeId} {program : Program Origin}
      {v : Value} {x y : World} : Later host w x → host.ConfinedTo x.heap.size →
      s.index < x.heap.size → (evalProgram host me depth s program).run x = some (v, y) →
      Later host w y
  | elsewhere {x y : World} : Later host w x → y.heap = x.heap → Later host w y

theorem eval_extends {host : Host} {me : InterpreterId} {depth : Nat} {t : Term} {s : ScopeId}
    {w w' : World} {v : Value} (result : (t.eval host me depth s).run w = some (v, w')) :
    w.heap.Extends w'.heap :=
  ⟨(eval_framed result).size_le, (eval_framed result).parent⟩

section Session

variable {host : Host} {w x : World}

/-- Whatever happens makes the heap grow. -/
theorem Later.extends (later : Later host w x) : w.heap.Extends x.heap := by
  induction later with
  | now => exact .refl _
  | root _ ih => exact ih.trans (Heap.extends_allocate _ _ _)
  | enclosed _ _ ih => exact ih.trans (Heap.extends_allocate _ _ _)
  | defined _ _ _ ih => exact ih.trans (Heap.extends_define _ _ _ _)
  | called _ _ _ ih => exact ih.trans (Heap.extends_allocate _ _ _)
  | @evaluated _ _ _ program _ _ _ _ _ _ result ih =>
    exact ih.trans (eval_extends (t := .program program) result)
  | elsewhere _ same ih =>
    rw [same]
    exact ih

/-- With one scope more the closures are of scopes that exist as before. -/
theorem grounded_allocate {h : Heap} (grounded : h.Grounded) (outer : Option ScopeId)
    {b : Bindings Value} (all : ∀ n v, b.get? n = some v → v.GroundedIn h) :
    (h.allocate outer b).Grounded := by
  have mono : ∀ v : Value, v.GroundedIn h → v.GroundedIn (h.allocate outer b) := fun v =>
    Value.Within.imp fun s lt => Nat.lt_of_lt_of_le lt (h.extends_allocate outer b).size_le
  exact BoundIn.allocate (grounded.imp mono) outer fun n v found => mono v (all n v found)

/-- Whatever happens, all closures are of scopes that exist. -/
theorem Later.grounded (later : Later host w x) (start : w.heap.Grounded) : x.heap.Grounded := by
  induction later with
  | now => exact start
  | root _ ih => exact grounded_allocate ih none nofun
  | enclosed _ _ ih => exact grounded_allocate ih _ nofun
  | @defined s name v x _ _ data ih =>
    rw [Heap.Grounded, Heap.size_define]
    exact ih.define s name data
  | called _ _ all ih =>
    exact grounded_allocate ih _ fun n v found => all v (Heap.mem_of_get?_callBindings found)
  | evaluated _ confined exist result ih =>
    exact (grounded_evalProgram confined (Nat.le_refl _) ih exist result).1
  | elsewhere _ same ih =>
    rw [same]
    exact ih

theorem grounded_empty : World.empty.heap.Grounded := by
  intro c n v _ found
  exact absurd (Heap.lt_size_of_get? found) (Nat.not_lt_zero _)

end Session

/-! ## Chains -/

namespace Heap

variable {h : Heap} {s : ScopeId} {chain : List ScopeId}

/-- What the chain of a scope says about it. It is a list, so it ends, and no scope is on it twice. The
scopes on it exist. The depth is the number of scopes behind the first, and a name is looked up in
one scope after another. -/
structure ChainLaws (h : Heap) (s : ScopeId) (chain : List ScopeId) : Prop where
  isChain : h.Chain s chain
  nodup : chain.Nodup
  exist : ∀ c ∈ chain, c.index < h.size
  depth : h.depth s + 1 = chain.length
  resolve : ∀ name, h.resolve s name = chain.findSome? fun c => (h.bindings c).get? name

theorem Chain.depth_eq (of : h.Chain s chain) : h.depth s + 1 = chain.length := by
  induction of with
  | root none =>
    rw [Heap.depth_eq, none]
    rfl
  | inside parent _ ih =>
    rw [Heap.depth_eq, parent, List.length_cons, ← ih]
    rfl

theorem Chain.resolve_eq_findSome? (of : h.Chain s chain) (name : String) :
    h.resolve s name = chain.findSome? fun c => (h.bindings c).get? name := by
  induction of with
  | @root s none =>
    rw [Heap.resolve_eq, none, List.findSome?_singleton]
    cases (h.bindings s).get? name <;> rfl
  | @inside s p outer parent _ ih =>
    rw [Heap.resolve_eq, parent, Option.bind_some, ih, List.findSome?_cons]
    cases (h.bindings s).get? name <;> rfl

theorem Chain.laws (of : h.Chain s chain) (exist : s.index < h.size) : h.ChainLaws s chain where
  isChain := of
  nodup := of.nodup
  exist _ mem := Nat.lt_of_le_of_lt (of.index_le mem) exist
  depth := of.depth_eq
  resolve := of.resolve_eq_findSome?

/-! ## New scopes -/

/-- What is so when a new scope was made within another: it was not there before, the other is around
it, and it is one deeper. -/
structure Encloses (h : Heap) (outer : ScopeId) (made : ScopeId × Heap) : Prop where
  fresh : h.size ≤ made.1.index ∧ made.1.index < made.2.size
  parent : made.2.parent? made.1 = some outer
  depth : made.2.depth made.1 = h.depth outer + 1

theorem encloses_allocate {outer : ScopeId} (exist : outer.index < h.size) (b : Bindings Value) :
    h.Encloses outer (h.next, h.allocate (some outer) b) where
  fresh := by
    rw [size_allocate]
    exact ⟨Nat.le_refl _, Nat.lt_succ_self _⟩
  parent := parent?_allocate_next exist b
  depth := depth_allocate_next exist b

end Heap

/-! ## Debug texts -/

theorem Closure.debug_eq {h k : Heap} {f : Closure} (depth : k.depth f.scope = h.depth f.scope) :
    f.debug k = f.debug h := by
  unfold Closure.debug
  rw [depth]

mutual

/-- Of scopes the debug text of a value shows depths only. -/
theorem Value.debug_eq {S : ScopeId → Prop} {h k : Heap}
    (depths : ∀ s, S s → k.depth s = h.depth s) :
    ∀ v : Value, v.Within S → v.debug k = v.debug h
  | .fn f, within => by
    rw [Value.debug, Value.debug, Closure.debug_eq (depths _ (Value.within_fn.mp within))]
  | .array items, within => by
    have all := ((Value.hereditary_within S).array items).mp within
    rw [Value.debug, Value.debug, Value.debugList_eq depths items all]
  | .ret v, within => by
    rw [Value.debug, Value.debug, Value.debug_eq depths v (Value.within_ret.mp within)]
  | .int _, _ | .bool _, _ | .null, _ | .str _, _ | .builtin _, _ | .err _, _ => by
    rw [Value.debug, Value.debug]

theorem Value.debugList_eq {S : ScopeId → Prop} {h k : Heap}
    (depths : ∀ s, S s → k.depth s = h.depth s) :
    ∀ items : List Value, (∀ v ∈ items, v.Within S) →
      Value.debugList k items = Value.debugList h items
  | [], _ => rfl
  | v :: items, all => by
    obtain ⟨first, others⟩ := List.forall_mem_cons.mp all
    rw [Value.debugList, Value.debugList, Value.debug_eq depths v first,
      Value.debugList_eq depths items others]

end

/-! ## The law -/

/-- What is settled about the scopes of `h`, and about the values that mention no others, once the heap
has grown to `k`. -/
structure Heap.SettledIn (h k : Heap) : Prop where
  parent : ∀ s, s.index < h.size → k.parent? s = h.parent? s
  chain : ∀ s, s.index < h.size → ∀ chain, h.Chain s chain → k.Chain s chain
  depth : ∀ s, s.index < h.size → k.depth s = h.depth s
  debug : ∀ v : Value, v.GroundedIn h → v.debug k = v.debug h

theorem Heap.Extends.settled {h k : Heap} (grown : h.Extends k) : h.SettledIn k where
  parent := grown.parent
  chain _ exist _ of := grown.chain exist of
  depth _ exist := grown.depth_eq exist
  debug v grounded := v.debug_eq (fun _ exist => grown.depth_eq exist) grounded

/-- Chains of scopes end and stay as they are. At any time of a session that began with nothing, every
scope has a chain of parents that ends and does not come back, along which names are looked up and
depths are counted. A scope that is made within another, for a call or not, is one deeper. Whatever
happens later, all scopes keep their parents, chains and depths, and all values that exist keep their
debug texts: those that are bound somewhere, and those that programs give. -/
theorem scope_chains_fixed (host : Host) (w x : World) (session : Later host .empty w)
    (later : Later host w x) :
    (∀ s, s.index < w.heap.size → ∃ chain, w.heap.ChainLaws s chain) ∧
    (∀ outer, outer.index < w.heap.size → w.heap.Encloses outer (w.heap.enclose outer)) ∧
    (∀ (f : Closure) (args : List Value), f.scope.index < w.heap.size →
      w.heap.Encloses f.scope (w.heap.callScope f args)) ∧
    w.heap.SettledIn x.heap ∧
    (∀ c n v, (w.heap.bindings c).get? n = some v → v.GroundedIn w.heap) ∧
    ∀ (me : InterpreterId) (depth : Nat) (s : ScopeId) (program : Program Origin) (v : Value)
      (y : World), host.ConfinedTo w.heap.size → s.index < w.heap.size →
      (evalProgram host me depth s program).run w = some (v, y) → v.GroundedIn y.heap := by
  have grounded := session.grounded grounded_empty
  refine ⟨fun s exist => ?_, fun outer exist => Heap.encloses_allocate exist _,
    fun f args exist => Heap.encloses_allocate exist _, later.extends.settled,
    fun c n v found => grounded c n v trivial found, ?_⟩
  · obtain ⟨chain, of⟩ := w.heap.exists_chain s
    exact ⟨chain, of.laws exist⟩
  · intro me depth s program v y confined exist result
    exact (grounded_evalProgram confined (Nat.le_refl _) grounded exist result).2

/-- A function of the root scope that returns what its own name is bound to. -/
def itself : Closure :=
  ⟨⟨0, 0⟩, [], [.expr (.ident "f")], ⟨0⟩⟩

/-- A state with a root scope that binds a function to its name. The function captured this very
scope. -/
def World.circular : World :=
  { World.rooted with heap := World.rooted.heap.define ⟨0⟩ "f" (.fn itself) }

/-- The state comes about in a session. Later a scope is made within the root, in which another
interpreter calls the function. -/
theorem scope_chains_fixed_circular :
    Later .empty .empty .circular ∧
      (World.circular.heap.bindings itself.scope).get? "f" = some (.fn itself) ∧
      (∃ chain, World.circular.heap.ChainLaws itself.scope chain) ∧
      ∃ x, Later .empty .circular x ∧ x.heap.size = 3 ∧ World.circular.heap.SettledIn x.heap ∧
        (Value.fn itself).debug x.heap = (Value.fn itself).debug World.circular.heap := by
  have confined := Host.confinedTo_empty
  obtain ⟨w, defined, heap⟩ : ∃ w, (evalProgram .empty ⟨0⟩ 1 ⟨0⟩
      [.bind "f" (.fn itself.origin itself.params itself.body)]).run .rooted = some (.null, w) ∧
        World.circular.heap = w.heap := ⟨_, rfl, rfl⟩
  have session : Later .empty .empty .circular :=
    .elsewhere (.evaluated (.root .now) (confined _) (by decide) defined) heap
  obtain ⟨x, called, size⟩ : ∃ x, (evalProgram .empty ⟨1⟩ 1 ⟨1⟩
      [.expr (.call (.ident "f") [])]).run
        { World.circular with heap := (World.circular.heap.enclose ⟨0⟩).2 } =
          some (.fn itself, x) ∧ x.heap.size = 3 := ⟨_, rfl, rfl⟩
  have later : Later .empty .circular x :=
    .evaluated (.enclosed .now (by decide)) (confined _) (by decide) called
  obtain ⟨chains, -, -, settled, bound, -⟩ := scope_chains_fixed .empty _ _ session later
  have found : (World.circular.heap.bindings itself.scope).get? "f" = some (.fn itself) := rfl
  exact ⟨session, found, chains ⟨0⟩ (by decide), x, later, size, settled,
    settled.debug _ (bound ⟨0⟩ "f" _ found)⟩

end TreeWalk
