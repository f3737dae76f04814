import TreeWalk.Proofs.Eval.Lockstep
import TreeWalk.Proofs.Eval.Term
import TreeWalk.Proofs.Scope.Chain
import TreeWalk.Proofs.Scope.Image
import TreeWalk.Proofs.Syntax.Names
import TreeWalk.Proofs.Value.Closures

/-!
# Bindings that nobody mentions

A name that stands nowhere in a program, nor in any closure of the heap, is never looked up, bound
or taken as a parameter. To bind it in some scope before the program runs makes no difference: the
write commutes with every step of the run. So the run ends alike, and the binding is there
afterwards as if it had been written only then.

The value bound may be a closure that does mention the name. Nobody gets hold of it.

Results:
1. `Heap.define_comm`, `Heap.allocate_define`: a write and what is done after it.
2. `besideBinding`: the two runs in lockstep.
3. `unmentioned_binding_irrelevant`: with and without the binding, a program does the same.
-/

namespace TreeWalk

/-! ## A write and what is done after it -/

namespace Heap

variable {h : Heap} {s : ScopeId} {n m : String}

@[simp] theorem next_define (h : Heap) (s : ScopeId) (n : String) (v : Value) :
    (h.define s n v).next = h.next :=
  congrArg ScopeId.mk (h.size_define s n v)

/-- Writes of different names can be done in either order. -/
theorem define_comm (h : Heap) (s t : ScopeId) (ne : n ≠ m) (v x : Value) :
    (h.define s n v).define t m x = (h.define t m x).define s n v := by
  -- What a write does to one name of one scope, also when the written scope does not exist.
  have get?_write : ∀ (k : Heap) (s : ScopeId) (n : String) (v : Value) (c : ScopeId)
      (name : String), ((k.define s n v).bindings c).get? name =
        if name = n ∧ c = s ∧ s.index < k.size then some v else (k.bindings c).get? name := by
    intro k s n v c name
    rw [bindings_define]
    by_cases written : c = s ∧ s.index < k.size
    · rw [if_pos written, Bindings.get?_set, written.1]
      simp only [written.2, and_self, and_true]
    · rw [if_neg written, if_neg fun both => written both.2]
  refine ext_scope ?_ (fun c => Bindings.ext_get? fun name => ?_) fun c => ?_
  · simp only [size_define]
  · simp only [get?_write, size_define]
    by_cases first : name = n
    · have other : name ≠ m := fun eq => ne (first.symm.trans eq)
      simp only [other, false_and, if_false]
    · simp only [first, false_and, if_false]
  · simp only [parent?_define]

/-- A write to a scope that is there can be done before or after another scope is made. -/
theorem allocate_define (exist : s.index < h.size) (outer : Option ScopeId) (b : Bindings Value)
    (v : Value) : (h.define s n v).allocate outer b = (h.allocate outer b).define s n v := by
  have old : s ≠ h.next := fun eq => Nat.lt_irrefl h.size (by rwa [eq] at exist)
  refine ext_scope ?_ (fun c => ?_) fun c => ?_
  · simp only [size_define, size_allocate]
  · rw [bindings_allocate, next_define, bindings_define, bindings_define, size_allocate]
    by_cases new : c = h.next
    · have other : c ≠ s := fun eq => old (eq.symm.trans new)
      rw [if_pos new, if_neg fun both => other both.1, bindings_allocate, if_pos new]
    · rw [if_neg new]
      simp only [exist, Nat.lt_succ_of_lt exist, bindings_allocate, new, old, if_false]
  · rw [parent?_define, parent?_allocate, parent?_allocate, next_define, size_define,
      parent?_define]

/-- A write moves no scope. -/
@[simp] theorem depth_define (h : Heap) (s : ScopeId) (n : String) (v : Value) (t : ScopeId) :
    (h.define s n v).depth t = h.depth t := by
  induction t using h.chain_induction with
  | step t ih =>
    rw [depth_eq, h.depth_eq, parent?_define]
    cases parent : h.parent? t with
    | none => rfl
    | some p => exact congrArg (· + 1) (ih p parent)

end Heap

/-! ## Closures that do not mention a name -/

/-- The name is no parameter of the closure, and stands nowhere in its body. -/
def Closure.Avoids (n : String) (f : Closure) : Prop :=
  n ∉ f.params ∧ n ∉ Block.names f.body

/-- No closure in a bound value mentions the name. -/
def Heap.Avoids (n : String) (h : Heap) : Prop :=
  ∀ c m v, (h.bindings c).get? m = some v → v.Closures (Closure.Avoids n)

/-! ## The state with the binding -/

/-- The state in which a name is bound in a scope besides. -/
def World.binding (w : World) (s : ScopeId) (n : String) (v : Value) : World :=
  { w with heap := w.heap.define s n v }

section Binding

variable (w : World) (me : InterpreterId) {s : ScopeId} (n : String) (v : Value)

theorem World.binding_record (e : Event) :
    (w.binding s n v).record e = (w.record e).binding s n v := rfl

theorem World.binding_raised (fault : EvalFault) :
    (w.binding s n v).raised me fault = (w.raised me fault).binding s n v := rfl

theorem World.binding_calling (b : Builtin) (count : Nat) :
    (w.binding s n v).calling me b count = (w.calling me b count).binding s n v := rfl

theorem World.binding_computed (owner : InterpreterId) (op : Standard) (args : List Value) :
    (w.binding s n v).computed owner op args = (w.computed owner op args).binding s n v := by
  have same : (w.binding s n v).interpreter owner = w.interpreter owner := rfl
  rw [World.computed, World.computed, same]
  cases ((w.interpreter owner).compute op args).1 with
  | ok x => rfl
  | error fault => rfl

theorem Closure.span_binding (f : Closure) :
    f.span (w.binding s n v).heap = f.span w.heap := by
  rw [Closure.span, World.binding, Heap.depth_define, Closure.span]

theorem World.binding_entered (exist : s.index < w.heap.size) (f : Closure) (args : List Value) :
    (w.binding s n v).entered me f args = (w.entered me f args).binding s n v := by
  have heap : ((w.binding s n v).heap.callScope f args).2 =
      (w.heap.callScope f args).2.define s n v :=
    Heap.allocate_define exist _ _ v
  -- The event that reports the new scope lists its names, and the scope is not the written one.
  have old : w.heap.next ≠ s := fun eq => Nat.lt_irrefl w.heap.size (by rwa [← eq] at exist)
  have names : ((w.heap.callScope f args).2.define s n v).names w.heap.next =
      (w.heap.callScope f args).2.names w.heap.next := by
    rw [Heap.names, Heap.bindings_define, if_neg fun both => old both.1, Heap.names]
  have next : (w.binding s n v).heap.next = w.heap.next := Heap.next_define _ _ _ _
  unfold World.entered
  dsimp only
  rw [heap, next, names, Heap.depth_define, Closure.span_binding]
  rfl

end Binding

/-! ## The two runs -/

/-- A run beside one in which the name is bound besides. -/
def besideBinding {host : Host} (me : InterpreterId) (s : ScopeId) (n : String) (v : Value)
    (keeps : host.Keeps (Value.Closures (Closure.Avoids n))) : Lockstep host me OneStage where
  State _ w u := u = w.binding s n v ∧ s.index < w.heap.size ∧
    BoundIn (fun _ => True) (Value.Closures (Closure.Avoids n)) w.heap
  Data _ := Value.Closures (Closure.Avoids n)
  Result _ x w u := (u = w.binding s n v ∧ s.index < w.heap.size ∧
    BoundIn (fun _ => True) (Value.Closures (Closure.Avoids n)) w.heap) ∧
    x.Closures (Closure.Avoids n)
  Allows _ _ use := n ∉ use.names
  data_mono _ data := data
  allows_mono _ allowed := allowed
  hereditary _ := Value.hereditary_closures (Closure.Avoids n)
  standard _ op := Value.closures_builtin (.standard me op)
  ofData state data := ⟨state, data⟩
  ofReturn state data := ⟨state, Value.closures_ret.mpr data⟩
  goOn result _ := result
  look := by
    rintro _ t name w u ⟨rfl, exist, bound⟩ allowed
    have ne : name ≠ n := fun eq => allowed (List.mem_singleton.mpr eq.symm)
    refine ⟨(Heap.resolve_define_of_ne exist ne v t).symm, fun x found => ?_⟩
    exact bound.resolve (fun _ _ _ _ => trivial) t trivial found
  capture {_ _ _ params body} allowed := by
    have avoids : n ∉ params ∧ n ∉ Block.names body := by simpa [Use.names] using allowed
    exact Value.closures_fn.mpr avoids
  bind := by
    rintro _ t name x w u ⟨rfl, exist, bound⟩ allowed data
    have ne : n ≠ name := fun eq => allowed (List.mem_singleton.mpr eq)
    refine ⟨.only, le_refl _, ?_, ?_, bound.define t name data⟩
    · exact congrArg (fun h : Heap => { w with heap := h }) (Heap.define_comm w.heap s t ne v x)
    · rwa [Heap.size_define]
  fault := by
    rintro _ w u f ⟨rfl, exist, bound⟩ -
    exact ⟨.only, le_refl _, ⟨World.binding_raised w me n v f, exist, bound⟩,
      Value.closures_err _⟩
  builtin := by
    rintro _ b args w u ⟨rfl, exist, bound⟩ - all
    rw [World.binding_calling]
    let x := w.calling me b args.length
    cases b with
    | standard owner op =>
      refine .ofResults (run_standard owner op args x)
        (run_standard owner op args (x.binding s n v)) ⟨.only, le_refl _, ⟨?_, ?_⟩, ?_⟩
      · exact World.binding_computed x n v owner op args
      · rw [World.heap_computed]
        exact ⟨exist, bound⟩
      · cases eq : ((x.interpreter owner).compute op args).1 with
        | ok r => exact (Value.hereditary_closures _).compute all eq
        | error fault => exact Value.closures_err _
    | host id name =>
      exact .ofResults rfl rfl ⟨.only, le_refl _, ⟨rfl, exist, bound⟩, keeps id args all⟩
  enter := by
    rintro _ f args w u ⟨rfl, exist, bound⟩ data all -
    have avoids : f.Avoids n := Value.closures_fn.mp data
    refine ⟨(Heap.next_define w.heap s n v).symm, .only, ⟨?_, ?_, bound.callScope f all⟩, ?_, ?_⟩
    · exact World.binding_entered w me n v exist f args
    · rw [World.heap_entered, Heap.callScope, Heap.size_allocate]
      exact Nat.lt_succ_of_lt exist
    · exact fun use mem inUse => avoids.2 (Block.mem_names_iff.mpr ⟨use, mem, inUse⟩)
    · rintro _ x w' u' - ⟨⟨rfl, exist, bound⟩, data⟩ -
      refine ⟨.only, le_refl _, ⟨?_, exist, bound⟩, ?_⟩
      · rw [Closure.span_binding, World.binding_record]
      · exact (Value.hereditary_closures _).unwrapReturn data

/-- A binding that nobody mentions is irrelevant. Where a name stands nowhere in a program nor in
any closure of the heap, the program ends alike with and without a binding of the name in a scope,
whatever it is bound to: at every bound on the nesting of calls both runs are cut short or none is.
The results are the same, the interpreters have counted and written the same, the logs are the
same, and the heaps differ by the binding alone. -/
theorem unmentioned_binding_irrelevant (host : Host) (me : InterpreterId) (depth : Nat)
    (program : Program Origin) (e s : ScopeId) (n : String) (v : Value) (w : World)
    (keeps : host.Keeps (Value.Closures (Closure.Avoids n))) (exist : s.index < w.heap.size)
    (unmentioned : n ∉ Block.names program) (avoids : w.heap.Avoids n) :
    Option.Rel
      (fun r q => q.1 = r.1 ∧ q.2.interpreters = r.2.interpreters ∧ q.2.log = r.2.log ∧
        q.2.heap = r.2.heap.define s n v)
      ((evalProgram host me depth e program).run w)
      ((evalProgram host me depth e program).run (w.binding s n v)) := by
  let L := besideBinding me s n v keeps
  let start := w.record (.enter (.program program.length))
  have body : InStep (evalBlock host me (invoke host me depth) e .null program) start
      (start.binding s n v) (L.Post .only) := by
    refine L.evalBlock (L.invoke depth) program ⟨rfl, exist, ?_⟩ (L.hereditary .only).null ?_
    · exact fun c m x _ found => avoids c m x found
    · exact fun use mem inUse => unmentioned (Block.mem_names_iff.mpr ⟨use, mem, inUse⟩)
  rw [run_evalProgram, run_evalProgram]
  refine rel_map body ?_
  rintro ⟨x, w'⟩ ⟨y, u'⟩ ⟨rfl, _, _, ⟨rfl, -, -⟩, -⟩
  exact ⟨rfl, rfl, rfl, rfl⟩

/-- A function of the root scope with a free name. -/
def shift : Closure :=
  ⟨⟨0, 0⟩, ["x"], [.expr (.infixOp (.ident "x") .add (.ident "k"))], ⟨0⟩⟩

/-- A state whose root scope binds a name and a function that looks it up. -/
def World.shifting : World :=
  { World.rooted with
    heap := (World.rooted.heap.define ⟨0⟩ "k" (.int 5)).define ⟨0⟩ "shift" (.fn shift) }

theorem World.avoids_shifting : World.shifting.heap.Avoids "y" := by
  have holds : BoundIn (fun _ => True) (Value.Closures (Closure.Avoids "y"))
      World.shifting.heap := by
    refine BoundIn.define (BoundIn.define ?_ _ _ ?_) _ _ ?_
    · intro c m v _ found
      rw [World.bindings_rooted] at found
      cases found
    · exact (Value.hereditary_closures _).int 5
    · exact Value.closures_fn.mpr ⟨by decide, by decide⟩
  exact fun c m v found => holds c m v trivial found

/-- A program that makes a function and calls it, and with it the one that was there. -/
def shiftTwice : Program Origin :=
  [.bind "twice" (.fn ⟨1, 1⟩ ["a"]
      [.expr (.call (.ident "shift") [.call (.ident "shift") [.ident "a"]])]),
    .expr (.call (.ident "twice") [.int 3])]

/-- A function that mentions a name is bound to that name, and is not noticed. -/
theorem unmentioned_binding_irrelevant_shifting :
    ∃ w' u', (evalProgram .empty ⟨0⟩ 2 ⟨0⟩ shiftTwice).run .shifting = some (.int 13, w') ∧
      (evalProgram .empty ⟨0⟩ 2 ⟨0⟩ shiftTwice).run
        (World.shifting.binding ⟨0⟩ "y" (.fn ⟨⟨2, 2⟩, [], [.expr (.ident "y")], ⟨0⟩⟩)) =
          some (.int 13, u') ∧
      u'.log = w'.log ∧
      u'.heap = w'.heap.define ⟨0⟩ "y" (.fn ⟨⟨2, 2⟩, [], [.expr (.ident "y")], ⟨0⟩⟩) := by
  have step := unmentioned_binding_irrelevant .empty ⟨0⟩ 2 shiftTwice ⟨0⟩ ⟨0⟩ "y"
    (.fn ⟨⟨2, 2⟩, [], [.expr (.ident "y")], ⟨0⟩⟩) .shifting (Host.makesNoClosure_empty.keeps _)
    (by decide) (by decide) World.avoids_shifting
  have value : ((evalProgram .empty ⟨0⟩ 2 ⟨0⟩ shiftTwice).run .shifting).map Prod.fst =
      some (.int 13) := by decide +kernel
  obtain ⟨⟨_, w'⟩, left, rfl⟩ := Option.map_eq_some_iff.mp value
  rw [left] at step
  obtain ⟨⟨x, u'⟩, right, rfl, -, log, heap⟩ := exists_of_rel step
  exact ⟨w', u', left, right, log, heap⟩

end TreeWalk
