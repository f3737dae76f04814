import TreeWalk.Proofs.Eval.Reported
import TreeWalk.Proofs.Scope.Frame
import TreeWalk.Proofs.Scope.Growth
import TreeWalk.Proofs.Syntax.Free
import TreeWalk.Proofs.Value.Closures

/-!
# Scoping is sound

A closure is well-scoped when each free name of its body is a parameter of it, or is found from the
scope it captured, or is the name of a standard builtin. If this is so of all closures in the heap,
and the free names of a program are known where it runs, then no name is ever missed, and all
closures are well-scoped again.

What is known only grows: a binding is never removed, and a `let` that has not run yet is not
counted on. The stage of the invariant is therefore a relation that says which names are found from
which scopes. A call adds to it what its new scope finds.

Results:
1. `Heap.finds_callScope`: what is found from the scope of a call.
2. `scopingInvariant`: well-scoped closures, as an invariant of evaluation.
3. `scoping_sound`: no missing names.
-/

namespace TreeWalk

/-! ## Well-scoped closures -/

/-- The name is found from the scope, or is that of a standard builtin. -/
def Known (found : ScopeId → String → Prop) (s : ScopeId) (name : String) : Prop :=
  found s name ∨ Standard.named? name ≠ none

/-- Each free name of the body is a parameter or is known in the captured scope. -/
def Closure.ScopedBy (found : ScopeId → String → Prop) (f : Closure) : Prop :=
  ∀ n ∈ Block.free f.body, n ∈ f.params ∨ Known found f.scope n

/-- Looking the name up from the scope outwards finds a value. -/
def Heap.Finds (h : Heap) (s : ScopeId) (name : String) : Prop :=
  h.resolve s name ≠ none

/-- All closures in bound values are well-scoped. -/
def Heap.WellScoped (h : Heap) : Prop :=
  ∀ c n v, (h.bindings c).get? n = some v → v.Closures (Closure.ScopedBy h.Finds)

variable {found found' : ScopeId → String → Prop}

theorem Known.mono (le : found ≤ found') {s : ScopeId} {name : String}
    (known : Known found s name) : Known found' s name :=
  known.imp_left (le s name)

theorem Closure.ScopedBy.mono (le : found ≤ found') {f : Closure} (covered : f.ScopedBy found) :
    f.ScopedBy found' :=
  fun n free => (covered n free).imp_right (Known.mono le)

/-! ## What is found from the scope of a call -/

/-- What is found when a closure was entered: what was found before, and from the new scope the
parameters and what is found from the captured scope. -/
def foundWithin (found : ScopeId → String → Prop) (new : ScopeId) (f : Closure) (s : ScopeId)
    (name : String) : Prop :=
  found s name ∨ s = new ∧ (name ∈ f.params ∨ found f.scope name)

/-- With an argument for each parameter, all parameters are found from the scope of a call, and so
is what is found from the captured scope. -/
theorem Heap.finds_callScope {h : Heap} {f : Closure} {args : List Value} {name : String}
    (arity : f.arity = args.length) (given : name ∈ f.params ∨ h.Finds f.scope name) :
    (h.callScope f args).2.Finds h.next name := by
  rw [Heap.Finds, Heap.resolve_eq, Heap.callScope, Heap.bindings_allocate, if_pos rfl]
  cases own : (Heap.callBindings f.params args).get? name with
  | some v => exact Option.some_ne_none v
  | none =>
    rcases given with param | outer
    · -- A parameter has an argument at its position, so it is bound.
      have zip : (f.params.zip args).map Prod.fst = f.params :=
        List.map_fst_zip (Nat.le_of_eq arity)
      rw [← zip] at param
      exact absurd own (Heap.get?_callBindings_ne_none_iff.mpr param)
    · obtain ⟨v, eq⟩ := Option.ne_none_iff_exists'.mp outer
      have old := Heap.lt_size_of_resolve eq
      rw [Heap.parent?_allocate_next old]
      exact ((Framed.refl (fun _ _ => True) h).callScope f args).finds outer

/-! ## The invariant -/

/-- Evaluation keeps all closures well-scoped. -/
def scopingInvariant {host : Host} (makesNone : host.MakesNoClosure) :
    HeapInvariant host (ScopeId → String → Prop) where
  Holds found h := (∀ s n, found s n → h.Finds s n) ∧
    BoundIn (fun _ => True) (Value.Closures (Closure.ScopedBy found)) h
  Data found := Value.Closures (Closure.ScopedBy found)
  Allows found s use := ∀ n ∈ use.free, Known found s n
  data_mono le data := data.imp fun _ => Closure.ScopedBy.mono le
  allows_mono le allowed n free := (allowed n free).mono le
  hereditary found := Value.hereditary_closures (Closure.ScopedBy found)
  standard _ me op := Value.closures_builtin (.standard me op)
  host _ all := .inr (makesNone.closures all)
  look {_ s _ _ _} holds _ eq := holds.2.resolve (fun _ _ _ _ => trivial) s trivial eq
  capture {_ _ _ params _} allowed := by
    refine Value.closures_fn.mpr fun n free => ?_
    by_cases param : n ∈ params
    · exact .inl param
    · exact .inr (allowed n (List.mem_filter.mpr ⟨free, decide_eq_true param⟩))
  bind {found s name h v} holds _ data := by
    have framed : Framed (fun _ _ => True) h (h.define s name v) :=
      (Framed.refl _ h).define v (.inr trivial)
    refine ⟨found, le_refl found, fun t n known => ?_, holds.2.define s name data⟩
    exact framed.finds (holds.1 t n known)
  enter {found f args h} holds data all arity := by
    have le : found ≤ foundWithin found h.next f := fun _ _ => .inl
    refine ⟨foundWithin found h.next f, le, ⟨?_, ?_⟩, fun use mem n free => ?_⟩
    · rintro s n (old | ⟨rfl, given⟩)
      · exact ((Framed.refl (fun _ _ => True) h).callScope f args).finds (holds.1 s n old)
      · exact Heap.finds_callScope arity (given.imp_right (holds.1 f.scope n))
    · exact (holds.2.callScope f all).imp fun v covered => covered.imp fun _ => Closure.ScopedBy.mono le
    · have covered := Value.closures_fn.mp data n (Block.mem_free_iff.mpr ⟨use, mem, free⟩)
      rcases covered with param | known | builtin
      · exact .inl (.inr ⟨rfl, .inl param⟩)
      · exact .inl (.inr ⟨rfl, .inr known⟩)
      · exact .inr builtin

/-- Scoping is sound. Where all closures are well-scoped and the free names of a program are known,
the program raises no fault of a missing name. Afterwards all closures in the heap and in the result
are well-scoped again. -/
theorem scoping_sound (host : Host) (makesNone : host.MakesNoClosure) (me : InterpreterId)
    (depth : Nat) (s : ScopeId) (program : Program Origin) (w w' : World) (v : Value)
    (wellScoped : w.heap.WellScoped)
    (known : ∀ n ∈ Block.free program, Known w.heap.Finds s n)
    (result : (evalProgram host me depth s program).run w = some (v, w')) :
    w.OnlyReports (fun e => ∀ n, ¬ e.raises (.unbound n)) w' ∧ w'.heap.WellScoped ∧
      v.Closures (Closure.ScopedBy w'.heap.Finds) := by
  let I := scopingInvariant makesNone
  have holds : I.Holds w.heap.Finds w.heap :=
    ⟨fun _ _ finds => finds, fun c n v _ found => wellScoped c n v found⟩
  have allowed : ∀ use ∈ Block.uses program, I.Allows w.heap.Finds s use :=
    fun use mem n free => known n (Block.mem_free_iff.mpr ⟨use, mem, free⟩)
  constructor
  · refine I.onlyReports_evalProgram (fun e other n => Event.not_raises other _) ?_ holds allowed
      result
    rintro found h fault ⟨finds, _⟩ missing n eq
    cases eq
    obtain ⟨t, looked, unresolved, unnamed⟩ := missing n rfl
    rcases looked n (List.mem_singleton_self n) with resolved | named
    · exact finds t n resolved unresolved
    · exact named unnamed
  · obtain ⟨k, _, ⟨finds, bound⟩, value⟩ := I.evalProgram me depth holds allowed result
    have covered : ∀ f, Closure.ScopedBy k f → Closure.ScopedBy w'.heap.Finds f :=
      fun f => Closure.ScopedBy.mono finds
    exact ⟨fun c n x eq => (bound c n x trivial eq).imp covered,
      (Value.closures_of_or value).imp covered⟩

/-- The closure of the inner literal of `nested`, made by the call of the outer one. -/
def inner : Closure :=
  ⟨⟨1, 1⟩, ["z"], [.expr (.call (.ident "len") [.array [.ident "y", .ident "z"]])], ⟨1⟩⟩

/-- A program that calls a function, which returns a function of a name of its own, of its
parameter and of a builtin. -/
def nested : Program Origin :=
  [.expr (.call (.fn ⟨0, 0⟩ ["y"] [.expr (.fn inner.origin inner.params inner.body)]) [.int 2])]

theorem scoping_sound_nested :
    ∃ w', (evalProgram (.ofStock #[.id]) ⟨0⟩ 1 ⟨0⟩ nested).run .rooted = some (.fn inner, w') ∧
      World.rooted.OnlyReports (fun e => ∀ n, ¬ e.raises (.unbound n)) w' ∧
      inner.ScopedBy w'.heap.Finds := by
  have wellScoped : World.rooted.heap.WellScoped := by
    intro c n v found
    rw [World.bindings_rooted] at found
    cases found
  have known : ∀ n ∈ Block.free nested, Known World.rooted.heap.Finds ⟨0⟩ n := by
    intro n free
    have free : n ∈ ["len"] := free
    cases List.mem_singleton.mp free
    exact .inr (by decide)
  obtain ⟨only, -, covered⟩ := scoping_sound _ (Host.makesNoClosure_ofStock #[.id]) ⟨0⟩ 1 ⟨0⟩
    nested .rooted _ (.fn inner) wellScoped known rfl
  exact ⟨_, rfl, only, Value.closures_fn.mp covered⟩

end TreeWalk
