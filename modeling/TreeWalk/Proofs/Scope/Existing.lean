import Mathlib.Data.Nat.Basic
import TreeWalk.Proofs.Eval.HeapInvariant
import TreeWalk.Proofs.Scope.Growth
import TreeWalk.Proofs.Scope.Listing
import TreeWalk.Proofs.Scope.Reachable

/-!
# Scopes that exist

In a session every closure has captured a scope that was made before. An identifier of a scope that
does not exist comes from nowhere: evaluation makes none, as scopes are never removed and closures
are made in scopes that exist.

Results:
1. `existingInvariant`: closures of scopes that exist, as an invariant of evaluation.
2. `grounded_evalProgram`: programs in a session keep to it.
3. `Heap.depth_callScope`, `Heap.inOrder_callScope`: the depth and the names of the scope of a call.
-/

namespace TreeWalk

/-! ## The invariant -/

/-- The value mentions scopes only that exist. -/
def Value.GroundedIn (h : Heap) (v : Value) : Prop :=
  v.Within fun s => s.index < h.size

/-- The bound values mention scopes only that exist. -/
def Heap.Grounded (h : Heap) : Prop :=
  BoundIn (fun _ => True) (Value.Within fun s => s.index < h.size) h

/-- The builtins of the host mention only scopes that their arguments mention, or that are among the
first so many. -/
def Host.ConfinedTo (host : Host) (size : Nat) : Prop :=
  ∀ id args s, (host id args).Mentions s → s.index < size ∨ ∃ v ∈ args, v.Mentions s

theorem Host.confinedTo_empty (size : Nat) : Host.empty.ConfinedTo size :=
  fun _ _ s mentions => (Value.hereditary_within fun _ => False).null s mentions |>.elim

theorem Value.Within.imp {S T : ScopeId → Prop} (imp : ∀ s, S s → T s) {v : Value}
    (within : v.Within S) : v.Within T :=
  fun s mentions => imp s (within s mentions)

/-- Evaluation keeps closures to scopes that exist. The stage is the number of scopes. -/
def existingInvariant {host : Host} {size : Nat} (confined : host.ConfinedTo size) :
    HeapInvariant host { n : Nat // size ≤ n } where
  Holds n h := h.size = n ∧ BoundIn (fun _ => True) (Value.Within fun s => s.index < n) h
  Data n := Value.Within fun s => s.index < n
  Allows n s _ := s.index < n
  data_mono le := Value.Within.imp fun _ lt => Nat.lt_of_lt_of_le lt le
  allows_mono le lt := Nat.lt_of_lt_of_le lt le
  hereditary n := Value.hereditary_within _
  standard _ me op := Value.within_builtin (.standard me op)
  host {n id name args} _ all := by
    refine .inr fun s mentions => ?_
    rcases confined id args s mentions with old | ⟨v, mem, mentions⟩
    · exact Nat.lt_of_lt_of_le old n.2
    · exact all v mem s mentions
  look {_ s _ _ _} holds _ found := holds.2.resolve (fun _ _ _ _ => trivial) s trivial found
  capture exist := Value.within_fn.mpr exist
  bind {n s name h v} holds _ data := by
    refine ⟨n, le_refl n, ?_, holds.2.define s name data⟩
    rw [Heap.size_define]
    exact holds.1
  enter {n f args h} holds _ all _ := by
    have grown : (h.callScope f args).2.size = n + 1 := by
      rw [Heap.callScope, Heap.size_allocate, holds.1]
    have le : ∀ s : ScopeId, s.index < n → s.index < n + 1 := fun _ => Nat.lt_succ_of_lt
    refine ⟨⟨n + 1, Nat.le_succ_of_le n.2⟩, Nat.le_succ _, ⟨grown, ?_⟩, fun _ _ => ?_⟩
    · exact (holds.2.imp fun _ => Value.Within.imp le).callScope f fun v mem => (all v mem).imp le
    · show h.size < n + 1
      rw [holds.1]
      exact Nat.lt_succ_self _

/-- After a program all closures are of scopes that exist again, those in its value too. -/
theorem grounded_evalProgram {host : Host} {size : Nat} (confined : host.ConfinedTo size)
    {me : InterpreterId} {depth : Nat} {s : ScopeId} {program : Program Origin} {w w' : World}
    {v : Value} (le : size ≤ w.heap.size) (grounded : w.heap.Grounded)
    (exist : s.index < w.heap.size)
    (result : (evalProgram host me depth s program).run w = some (v, w')) :
    w'.heap.Grounded ∧ v.GroundedIn w'.heap := by
  obtain ⟨n, -, ⟨same, bound⟩, value⟩ := (existingInvariant confined).evalProgram me depth
    (g := ⟨_, le⟩) ⟨rfl, grounded⟩ (fun _ _ => exist) result
  rw [Heap.Grounded, Value.GroundedIn, same]
  exact ⟨bound, Value.within_iff.mpr (Value.closures_of_or (value.imp_right Value.within_iff.mp))⟩

/-! ## The scope of a call -/

/-- The names are those of a list, each once, in increasing order. -/
structure InOrder (names all : List String) : Prop where
  increasing : names.Pairwise (· < ·)
  mem_iff : ∀ n, n ∈ names ↔ n ∈ all

namespace Heap

variable {h : Heap}

/-- The scope of a call is one deeper than the scope that was captured. -/
theorem depth_callScope {f : Closure} (args : List Value) (exist : f.scope.index < h.size) :
    (h.callScope f args).2.depth h.next = h.depth f.scope + 1 :=
  depth_allocate_next exist _

/-- With an argument for each parameter, the scope of a call has the names of the parameters. -/
theorem inOrder_callScope {f : Closure} {args : List Value} (arity : f.arity = args.length) :
    InOrder ((h.callScope f args).2.names h.next) f.params where
  increasing := Heap.increasing_names _ _
  mem_iff n := by
    rw [names_eq, Bindings.mem_names_iff, callScope, bindings_allocate, if_pos rfl,
      get?_callBindings_ne_none_iff, List.map_fst_zip (Nat.le_of_eq arity)]

end Heap

end TreeWalk
