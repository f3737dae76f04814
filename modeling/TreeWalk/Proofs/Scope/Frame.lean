import TreeWalk.Proofs.Eval.HeapInvariant
import TreeWalk.Proofs.Scope.Reachable

/-!
# The frame of an evaluation

What an evaluation leaves as it was. It writes to the scope in which it runs, at the targets of
its own `let` statements, and to scopes that it makes itself. Nothing else changes: a call has a
scope of its own, so its body reaches neither the scope of the caller nor the one that the function
captured, and when it has returned nobody writes to its scope again.

Results:
1. `Framed`, `frameInvariant`: writes to allowed names only, as an invariant of evaluation.
2. `evaluation_frame`: the frame of a term, of a call, and of what comes after a call.
-/

namespace TreeWalk

/-! ## Heaps that differ at allowed names -/

/-- The heap `h'` comes from `h` by new scopes and by writes of allowed names to old ones. -/
structure Framed (allowed : ScopeId → String → Prop) (h h' : Heap) : Prop where
  size_le : h.size ≤ h'.size
  parent : ∀ c, c.index < h.size → h'.parent? c = h.parent? c
  keeps : ∀ c n, c.index < h.size → (h.bindings c).get? n ≠ none → (h'.bindings c).get? n ≠ none
  same : ∀ c n, c.index < h.size → ¬ allowed c n →
    (h'.bindings c).get? n = (h.bindings c).get? n

namespace Framed

variable {allowed : ScopeId → String → Prop} {h h' : Heap}

theorem refl (allowed : ScopeId → String → Prop) (h : Heap) : Framed allowed h h where
  size_le := Nat.le_refl _
  parent _ _ := rfl
  keeps _ _ _ bound := bound
  same _ _ _ _ := rfl

theorem define (framed : Framed allowed h h') {s : ScopeId} {name : String} (v : Value)
    (may : h.size ≤ s.index ∨ allowed s name) : Framed allowed h (h'.define s name v) where
  size_le := by
    rw [Heap.size_define]
    exact framed.size_le
  parent c old := by
    rw [Heap.parent?_define]
    exact framed.parent c old
  keeps c n old bound := by
    rw [Heap.bindings_define]
    have kept := framed.keeps c n old bound
    split
    · next written =>
      rw [Bindings.get?_set, ← written.1]
      split
      · exact Option.some_ne_none v
      · exact kept
    · exact kept
  same c n old free := by
    rw [Heap.bindings_define]
    split
    · next written =>
      -- An old scope is written only at an allowed name, which `n` is not.
      have ne : n ≠ name := by
        rintro rfl
        rcases may with new | may
        · rw [← written.1] at new
          exact Nat.lt_irrefl _ (Nat.lt_of_lt_of_le old new)
        · rw [← written.1] at may
          exact free may
      rw [Bindings.get?_set_of_ne _ v ne, ← written.1]
      exact framed.same c n old free
    · exact framed.same c n old free

theorem ne_next (framed : Framed allowed h h') {c : ScopeId} (old : c.index < h.size) :
    c ≠ h'.next := by
  rintro rfl
  exact Nat.lt_irrefl _ (Nat.lt_of_lt_of_le old framed.size_le)

theorem callScope (framed : Framed allowed h h') (f : Closure) (args : List Value) :
    Framed allowed h (h'.callScope f args).2 where
  size_le := by
    rw [Heap.callScope, Heap.size_allocate]
    exact Nat.le_succ_of_le framed.size_le
  parent c old := by
    rw [Heap.callScope, Heap.parent?_allocate, if_neg (framed.ne_next old)]
    exact framed.parent c old
  keeps c n old bound := by
    rw [Heap.callScope, Heap.bindings_allocate, if_neg (framed.ne_next old)]
    exact framed.keeps c n old bound
  same c n old free := by
    rw [Heap.callScope, Heap.bindings_allocate, if_neg (framed.ne_next old)]
    exact framed.same c n old free

/-- A name that is found stays found, as no binding and no parent is ever lost. -/
theorem finds (framed : Framed allowed h h') {s : ScopeId} {n : String}
    (found : h.resolve s n ≠ none) : h'.resolve s n ≠ none := by
  induction s using h.chain_induction with
  | step s ih =>
    obtain ⟨v, eq⟩ := Option.ne_none_iff_exists'.mp found
    have old := Heap.lt_size_of_resolve eq
    rw [Heap.resolve_eq] at found ⊢
    cases own : (h'.bindings s).get? n with
    | some x => exact Option.some_ne_none x
    | none =>
      have lost : (h.bindings s).get? n = none := by
        by_contra bound
        exact framed.keeps s n old bound own
      rw [lost] at found
      rw [framed.parent s old]
      cases parent : h.parent? s with
      | none => simp [parent] at found
      | some p =>
        rw [parent] at found
        exact ih p parent found

/-- A scope of which no name may be written keeps its bindings. -/
theorem bindings_eq (framed : Framed allowed h h') {c : ScopeId} (old : c.index < h.size)
    (free : ∀ n, ¬ allowed c n) : h'.bindings c = h.bindings c :=
  Bindings.ext_get? fun n => framed.same c n old (free n)

end Framed

/-! ## The frame as an invariant -/

/-- In an old scope only allowed names are bound, and in a new one any. -/
def MayBind (allowed : ScopeId → String → Prop) (h : Heap) (s : ScopeId) : Use Origin → Prop
  | .bind name => h.size ≤ s.index ∨ allowed s name
  | .look _ => True
  | .capture _ _ _ => True

/-- Evaluation keeps the frame of the heap in which it started. -/
def frameInvariant (host : Host) (allowed : ScopeId → String → Prop) (h : Heap) :
    HeapInvariant host OneStage where
  Holds _ := Framed allowed h
  Data _ _ := True
  Allows _ := MayBind allowed h
  data_mono _ data := data
  allows_mono _ may := may
  hereditary _ :=
    ⟨fun _ => trivial, fun _ => trivial, trivial, fun _ => trivial,
      fun _ => ⟨fun _ _ _ => trivial, fun _ => trivial⟩, fun _ _ => trivial⟩
  standard _ _ _ := trivial
  host _ _ := .inr trivial
  look _ _ _ := trivial
  capture _ := trivial
  bind framed may _ := ⟨.only, le_refl _, framed.define _ may⟩
  enter := by
    intro _ f args h' framed _ _ _
    refine ⟨.only, le_refl _, framed.callScope f args, fun use _ => ?_⟩
    cases use with
    | bind name => exact .inl framed.size_le
    | look name => trivial
    | capture origin params body => trivial

/-- The term may bind its own targets. -/
theorem mayBind_targets (t : Term) (h : Heap) (s : ScopeId) :
    ∀ use ∈ t.uses, MayBind (fun c n => c = s ∧ n ∈ t.targets) h s use := by
  intro use mem
  cases use with
  | bind name => exact .inr ⟨rfl, Use.mem_targets_iff.mpr mem⟩
  | look name => trivial
  | capture origin params body => trivial

theorem eval_framed {host : Host} {me : InterpreterId} {depth : Nat} {t : Term} {s : ScopeId}
    {w w' : World} {v : Value} (result : (t.eval host me depth s).run w = some (v, w')) :
    Framed (fun c n => c = s ∧ n ∈ t.targets) w.heap w'.heap := by
  obtain ⟨_, _, framed, _⟩ :=
    (frameInvariant host (fun c n => c = s ∧ n ∈ t.targets) w.heap).eval me depth (g := .only) t
      (Framed.refl _ _) (mayBind_targets t w.heap s) result
  exact framed

theorem applyValue_framed {host : Host} {me : InterpreterId} {depth : Nat} {callee : Value}
    {args : List Value} {w w' : World} {v : Value}
    (result : (applyValue host me depth callee args).run w = some (v, w')) :
    Framed (fun _ _ => False) w.heap w'.heap := by
  obtain ⟨_, _, framed, _⟩ :=
    (frameInvariant host (fun _ _ => False) w.heap).applyValue me depth (g := .only)
      (Framed.refl _ _) trivial (fun _ _ => trivial) result
  exact framed

/-! ## The frame law -/

/-- What evaluating a term with the given targets in the scope `s` leaves as it was. -/
structure FrameOf (targets : List String) (s : ScopeId) (h h' : Heap) : Prop where
  /-- The other scopes have the bindings that they had. -/
  others : ∀ c, c.index < h.size → c ≠ s → h'.bindings c = h.bindings c
  /-- All scopes have the parents that they had. -/
  parents : ∀ c, c.index < h.size → h'.parent? c = h.parent? c
  /-- The scope itself loses no name. -/
  loses_none : ∀ n ∈ (h.bindings s).names, n ∈ (h'.bindings s).names
  /-- The scope itself differs at targets only. -/
  at_targets : ∀ n, n ∉ targets → (h'.bindings s).get? n = (h.bindings s).get? n

/-- What can happen from a state on, as long as nobody asks for certain scopes to be written: terms
are evaluated in other scopes, and values are called, by any interpreter; scopes are made, and names
are bound in other scopes; and what is not on the heap changes. -/
inductive Onward (host : Host) (avoided : ScopeId → Prop) (w : World) : World → Prop
  | start : Onward host avoided w w
  | eval {me : InterpreterId} {depth : Nat} {t : Term} {s : ScopeId} {x y : World} {v : Value} :
      Onward host avoided w x → ¬ avoided s → s.index < x.heap.size →
      (t.eval host me depth s).run x = some (v, y) → Onward host avoided w y
  | call {me : InterpreterId} {depth : Nat} {callee : Value} {args : List Value} {x y : World}
      {v : Value} : Onward host avoided w x →
      (applyValue host me depth callee args).run x = some (v, y) → Onward host avoided w y
  | make {outer : Option ScopeId} {b : Bindings Value} {x : World} : Onward host avoided w x →
      Onward host avoided w { x with heap := x.heap.allocate outer b }
  | write {s : ScopeId} {name : String} {v : Value} {x : World} : Onward host avoided w x →
      ¬ avoided s → Onward host avoided w { x with heap := x.heap.define s name v }
  | elsewhere {x y : World} : Onward host avoided w x → y.heap = x.heap → Onward host avoided w y

theorem frameOf_eval {host : Host} {me : InterpreterId} {depth : Nat} {t : Term} {s : ScopeId}
    {w w' : World} {v : Value} (old : s.index < w.heap.size)
    (result : (t.eval host me depth s).run w = some (v, w')) :
    FrameOf t.targets s w.heap w'.heap := by
  have framed := eval_framed result
  refine ⟨fun c old ne => ?_, framed.parent, fun n bound => ?_, fun n free => ?_⟩
  · exact framed.bindings_eq old fun n may => ne may.1
  · rw [Bindings.mem_names_iff] at bound ⊢
    exact framed.keeps s n old bound
  · exact framed.same s n old fun may => free may.2

theorem sameAt_call {host : Host} {me : InterpreterId} {depth : Nat} {callee : Value}
    {args : List Value} {w w' : World} {v : Value}
    (result : (applyValue host me depth callee args).run w = some (v, w')) {c : ScopeId}
    (old : c.index < w.heap.size) : SameAt w.heap w'.heap c := by
  have framed := applyValue_framed result
  exact ⟨framed.bindings_eq old fun _ => id, framed.parent c old⟩

/-- The avoided scopes stay as they are. -/
theorem Onward.sameAt {host : Host} {avoided : ScopeId → Prop} {w x : World}
    (onward : Onward host avoided w x) {c : ScopeId} (old : c.index < w.heap.size)
    (avoid : avoided c) : w.heap.size ≤ x.heap.size ∧ SameAt w.heap x.heap c := by
  induction onward with
  | start => exact ⟨Nat.le_refl _, rfl, rfl⟩
  | eval _ free exist result ih =>
    obtain ⟨le, bindings, parent⟩ := ih
    have there := Nat.lt_of_lt_of_le old le
    have frame := frameOf_eval exist result
    refine ⟨Nat.le_trans le (eval_framed result).size_le, ?_, ?_⟩
    · rw [frame.others c there (fun eq => free (eq ▸ avoid)), bindings]
    · rw [frame.parents c there, parent]
  | call _ result ih =>
    obtain ⟨le, bindings, parent⟩ := ih
    obtain ⟨sameBindings, sameParent⟩ := sameAt_call result (Nat.lt_of_lt_of_le old le)
    exact ⟨Nat.le_trans le (applyValue_framed result).size_le, sameBindings.trans bindings,
      sameParent.trans parent⟩
  | @make outer b x _ ih =>
    obtain ⟨le, bindings, parent⟩ := ih
    have ne : c ≠ x.heap.next := by
      rintro rfl
      exact Nat.lt_irrefl _ (Nat.lt_of_lt_of_le old le)
    refine ⟨?_, ?_, ?_⟩
    · rw [Heap.size_allocate]
      exact Nat.le_succ_of_le le
    · rw [Heap.bindings_allocate, if_neg ne, bindings]
    · rw [Heap.parent?_allocate, if_neg ne, parent]
  | @write s name v x _ free ih =>
    obtain ⟨le, bindings, parent⟩ := ih
    have other : ¬ (c = s ∧ s.index < x.heap.size) := fun written => free (written.1 ▸ avoid)
    refine ⟨?_, ?_, ?_⟩
    · rw [Heap.size_define]
      exact le
    · rw [Heap.bindings_define, if_neg other, bindings]
    · rw [Heap.parent?_define, parent]
  | elsewhere _ same ih =>
    rw [same]
    exact ih

/-- The frame law. A term that is evaluated in a scope changes that scope at its targets only, and
no other. A call changes no scope that was there, neither the caller's nor the captured one. Of the
scopes that were made while the call ran, its own among them, none is ever changed by what comes
after its return. -/
theorem evaluation_frame (host : Host) (me : InterpreterId) (depth : Nat) (w w' : World)
    (v : Value) :
    (∀ (t : Term) (s : ScopeId), s.index < w.heap.size →
      (t.eval host me depth s).run w = some (v, w') → FrameOf t.targets s w.heap w'.heap) ∧
    ∀ (callee : Value) (args : List Value),
      (applyValue host me depth callee args).run w = some (v, w') →
      (∀ c, c.index < w.heap.size → SameAt w.heap w'.heap c) ∧
      ∀ x, Onward host (fun s => w.heap.size ≤ s.index ∧ s.index < w'.heap.size) w' x →
        ∀ c, w.heap.size ≤ c.index → c.index < w'.heap.size → SameAt w'.heap x.heap c := by
  refine ⟨fun t s old result => frameOf_eval old result, fun callee args result => ⟨?_, ?_⟩⟩
  · exact fun c old => sameAt_call result old
  · exact fun x onward c new old => (onward.sameAt old ⟨new, old⟩).2

/-- A closure of the scope that the first call in a rooted state makes. -/
def kept : Closure :=
  ⟨⟨1, 1⟩, [], [.bind "x" (.int 2), .expr (.ident "y")], ⟨1⟩⟩

/-- A function that binds a name in its own scope and returns the closure of that scope. -/
def keeper : Closure :=
  ⟨⟨0, 0⟩, ["x"], [.bind "y" (.ident "x"), .expr (.fn kept.origin kept.params kept.body)], ⟨0⟩⟩

/-- A program that binds a name, and the call of a function after which its closure is called. -/
theorem evaluation_frame_keeper :
    (∃ v w', (evalProgram .empty ⟨0⟩ 2 ⟨0⟩ [.bind "x" (.int 1)]).run .rooted = some (v, w') ∧
      FrameOf ["x"] ⟨0⟩ World.rooted.heap w'.heap) ∧
    ∃ w' x, (applyValue .empty ⟨0⟩ 2 (.fn keeper) [.int 3]).run .rooted = some (.fn kept, w') ∧
      (applyValue .empty ⟨0⟩ 2 (.fn kept) []).run w' = some (.int 3, x) ∧
      SameAt World.rooted.heap w'.heap ⟨0⟩ ∧ SameAt w'.heap x.heap ⟨1⟩ := by
  refine ⟨⟨_, _, rfl, ?_⟩, _, _, rfl, rfl, ?_, ?_⟩
  · exact (evaluation_frame .empty ⟨0⟩ 2 .rooted _ _).1 (.program [.bind "x" (.int 1)]) ⟨0⟩
      (by decide) rfl
  · exact ((evaluation_frame .empty ⟨0⟩ 2 .rooted _ (.fn kept)).2 (.fn keeper) [.int 3] rfl).1 ⟨0⟩
      (by decide)
  · refine ((evaluation_frame .empty ⟨0⟩ 2 .rooted _ (.fn kept)).2 (.fn keeper) [.int 3] rfl).2 _
      ?_ ⟨1⟩ (by decide) (by decide)
    exact @Onward.call _ _ _ ⟨0⟩ 2 (.fn kept) [] _ _ (.int 3) .start rfl

end TreeWalk
