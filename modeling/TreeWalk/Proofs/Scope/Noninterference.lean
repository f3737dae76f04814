import TreeWalk.Proofs.Scope.Frame

/-!
# Lexical scoping

A call sees what can be reached from the function and its arguments, and nothing else. In two
states that agree on this, however they differ elsewhere, it does the same.

Both calls run in lockstep. The scopes on which their states agree are those that were reachable at
the start and those that the calls make; they form a closed set, so nothing leads out of it. The
host is asked not to get hold of scopes in other ways.

Results:
1. `together`: two runs that agree on a closed set of scopes, in lockstep.
2. `call_noninterference`: calls in states that agree on the reachable scopes.
-/

namespace TreeWalk

/-- The builtins of the host mention only scopes that their arguments mention. -/
def Host.Confined (host : Host) : Prop :=
  ∀ id args s, (host id args).Mentions s → ∃ v ∈ args, v.Mentions s

/-- A host that makes no closure mentions no scope of its own. -/
theorem Host.MakesNoClosure.confined {host : Host} (makesNone : host.MakesNoClosure) :
    host.Confined := by
  rintro id args s ⟨f, part, rfl⟩
  obtain ⟨v, mem, part⟩ := makesNone id args f part
  exact ⟨v, mem, f, part, rfl⟩

theorem Host.Confined.within {host : Host} (confined : host.Confined) {S : ScopeId → Prop}
    {id : HostId} {args : List Value} (all : ∀ v ∈ args, v.Within S) :
    (host id args).Within S := by
  intro s mentions
  obtain ⟨v, mem, mentions⟩ := confined id args s mentions
  exact all v mem s mentions

/-! ## Two runs that agree on a closed set -/

/-- Two runs that started in `w` and `u` have come to `w'` and `u'`, and agree on `S`. -/
structure Together (S : ScopeId → Prop) (w u w' u' : World) : Prop where
  grown : w.heap.size ≤ w'.heap.size
  size : u'.heap.size = w'.heap.size
  interpreters : u'.interpreters = w'.interpreters
  /-- The same events were added to what was in the logs. -/
  events : ∃ events : Array Event, w'.log = w.log ++ events ∧ u'.log = u.log ++ events
  closed : Closed S w'.heap
  agree : ∀ c, S c → SameAt w'.heap u'.heap c

namespace Together

variable {S : ScopeId → Prop} {w u w' u' : World}

theorem interpreter (t : Together S w u w' u') (i : InterpreterId) :
    u'.interpreter i = w'.interpreter i := by
  show u'.interpreters.get i = w'.interpreters.get i
  rw [t.interpreters]

theorem record (t : Together S w u w' u') (e : Event) :
    Together S w u (w'.record e) (u'.record e) := by
  obtain ⟨events, left, right⟩ := t.events
  refine ⟨t.grown, t.size, t.interpreters, ⟨events.push e, ?_, ?_⟩, t.closed, t.agree⟩
  · show w'.log.push e = w.log ++ events.push e
    rw [left, Array.push_append]
  · show u'.log.push e = u.log ++ events.push e
    rw [right, Array.push_append]

theorem update (t : Together S w u w' u') (i : InterpreterId) (f : Interpreter → Interpreter) :
    Together S w u (w'.update i f) (u'.update i f) := by
  refine ⟨t.grown, t.size, ?_, t.events, t.closed, t.agree⟩
  show u'.interpreters.update i f = w'.interpreters.update i f
  rw [t.interpreters]

theorem withHeap (t : Together S w u w' u') {h k : Heap} (grown : w'.heap.size ≤ h.size)
    (size : k.size = h.size) (closed : Closed S h) (agree : ∀ c, S c → SameAt h k c) :
    Together S w u { w' with heap := h } { u' with heap := k } :=
  ⟨Nat.le_trans t.grown grown, size, t.interpreters, t.events, closed, agree⟩

theorem next (t : Together S w u w' u') : u'.heap.next = w'.heap.next := by
  show ScopeId.mk u'.heap.size = ScopeId.mk w'.heap.size
  rw [t.size]

theorem span (t : Together S w u w' u') {f : Closure} (inS : S f.scope) :
    f.span u'.heap = f.span w'.heap := by
  show Span.application f.arity (u'.heap.depth f.scope) =
    Span.application f.arity (w'.heap.depth f.scope)
  rw [t.closed.depth_eq t.agree inS]

theorem raised (t : Together S w u w' u') (me : InterpreterId) (fault : EvalFault) :
    Together S w u (w'.raised me fault) (u'.raised me fault) :=
  (t.update me _).record _

theorem calling (t : Together S w u w' u') (me : InterpreterId) (b : Builtin) (count : Nat) :
    Together S w u (w'.calling me b count) (u'.calling me b count) :=
  (t.update me _).record _

theorem computed (t : Together S w u w' u') (owner : InterpreterId) (op : Standard)
    (args : List Value) :
    Together S w u (w'.computed owner op args) (u'.computed owner op args) := by
  rw [World.computed, World.computed, t.interpreter owner]
  cases ((w'.interpreter owner).compute op args).1 with
  | ok v => exact t.update owner _
  | error fault => exact (t.update owner _).record _

/-- Both runs bind a name in a scope of the set. -/
theorem define (t : Together S w u w' u') {s : ScopeId} (inS : S s) (name : String) {v : Value}
    (within : v.Within S) :
    Together S w u { w' with heap := w'.heap.define s name v }
      { u' with heap := u'.heap.define s name v } := by
  refine t.withHeap ?_ ?_ (t.closed.define s name within) fun c inC => ⟨?_, ?_⟩
  · exact Nat.le_of_eq (Heap.size_define _ _ _ _).symm
  · rw [Heap.size_define, Heap.size_define, t.size]
  · rw [Heap.bindings_define, Heap.bindings_define, t.size, (t.agree s inS).1, (t.agree c inC).1]
  · rw [Heap.parent?_define, Heap.parent?_define, (t.agree c inC).2]

/-- Both runs enter a closure whose scope is in the set. The scope of the call is in it as well. -/
theorem entered (t : Together S w u w' u') (new : ∀ c : ScopeId, w.heap.size ≤ c.index → S c)
    (me : InterpreterId) {f : Closure} {args : List Value} (inS : S f.scope)
    (all : ∀ v ∈ args, v.Within S) :
    Together S w u (w'.entered me f args) (u'.entered me f args) := by
  have closed : Closed S (w'.heap.callScope f args).2 := t.closed.callScope inS all
  have agree : ∀ c, S c → SameAt (w'.heap.callScope f args).2 (u'.heap.callScope f args).2 c := by
    intro c inC
    constructor
    · rw [Heap.callScope, Heap.callScope, Heap.bindings_allocate, Heap.bindings_allocate, t.next,
        (t.agree c inC).1]
    · rw [Heap.callScope, Heap.callScope, Heap.parent?_allocate, Heap.parent?_allocate, t.next,
        t.size, (t.agree c inC).2]
  have inNext : S w'.heap.next := new _ t.grown
  -- The event that reports the new scope lists its names and its depth.
  have names : (u'.heap.callScope f args).2.names u'.heap.next =
      (w'.heap.callScope f args).2.names w'.heap.next := by
    rw [Heap.names, t.next, (agree _ inNext).1, Heap.names]
  have depth : (u'.heap.callScope f args).2.depth u'.heap.next =
      (w'.heap.callScope f args).2.depth w'.heap.next := by
    rw [t.next, closed.depth_eq agree inNext]
  unfold World.entered
  dsimp only
  rw [names, depth, t.span inS]
  refine Together.record (Together.withHeap ((t.record _).update me _) ?_ ?_ closed agree) _
  · show w'.heap.size ≤ (w'.heap.callScope f args).2.size
    rw [Heap.callScope, Heap.size_allocate]
    exact Nat.le_succ _
  · rw [Heap.callScope, Heap.callScope, Heap.size_allocate, Heap.size_allocate, t.size]

end Together

/-- Runs that agree on a closed set of scopes go on together. -/
def together {host : Host} (confined : host.Confined) (me : InterpreterId) (S : ScopeId → Prop)
    (w u : World) (new : ∀ c : ScopeId, w.heap.size ≤ c.index → S c) :
    Lockstep host me OneStage where
  State _ := Together S w u
  Data _ := Value.Within S
  Result _ v w' u' := Together S w u w' u' ∧ v.Within S
  Allows _ s _ := S s
  data_mono _ within := within
  allows_mono _ inS := inS
  hereditary _ := Value.hereditary_within S
  standard _ op := Value.within_builtin (.standard me op)
  ofData t within := ⟨t, within⟩
  ofReturn t within := ⟨t, Value.within_ret.mpr within⟩
  goOn result _ := result
  look {_ s name _ _} t inS := by
    refine ⟨(t.closed.resolve_eq t.agree inS name).symm, fun v found => ?_⟩
    exact t.closed.bound.resolve t.closed.parent s inS found
  capture inS := Value.within_fn.mpr inS
  bind {_ _ name _ _ _} t inS within := ⟨.only, le_refl _, t.define inS name within⟩
  fault {_ _ _ f} t _ := ⟨.only, le_refl _, t.raised me f, Value.within_err _⟩
  builtin := by
    intro _ b args w' u' t _ all
    have calling := t.calling me b args.length
    cases b with
    | standard owner op =>
      have left := run_standard owner op args (w'.calling me (.standard owner op) args.length)
      have right := run_standard owner op args (u'.calling me (.standard owner op) args.length)
      rw [calling.interpreter owner] at right
      refine .ofResults left right ⟨.only, le_refl _, calling.computed owner op args, ?_⟩
      let i := (w'.calling me (.standard owner op) args.length).interpreter owner
      cases eq : (i.compute op args).1 with
      | ok v => exact (Value.hereditary_within S).compute all eq
      | error fault => exact Value.within_err _
    | host id name => exact .ofResults rfl rfl ⟨.only, le_refl _, calling, confined.within all⟩
  enter := by
    intro _ f args w' u' t within all _
    have inS : S f.scope := Value.within_fn.mp within
    refine ⟨t.next.symm, .only, t.entered new me inS all, fun _ _ => new _ t.grown, ?_⟩
    rintro l v x y - ⟨t', within⟩ -
    refine ⟨.only, le_refl _, ?_, ?_⟩
    · rw [t.span inS]
      exact t'.record _
    · exact (Value.hereditary_within S).unwrapReturn within

/-! ## Calls -/

/-- The scopes that a callee and its arguments mention. -/
def callRoots (callee : Value) (args : List Value) (s : ScopeId) : Prop :=
  ∃ v ∈ callee :: args, v.Mentions s

/-- What is the same after two calls that started in `w` and `u`, and what each has left alone. -/
structure SameEffect (reached : ScopeId → Prop) (w u w' u' : World) : Prop where
  /-- The same was written, and the same was counted. -/
  interpreters : u'.interpreters = w'.interpreters
  events : ∃ events : Array Event, w'.log = w.log ++ events ∧ u'.log = u.log ++ events
  size : u'.heap.size = w'.heap.size
  new : ∀ c : ScopeId, w.heap.size ≤ c.index → SameAt w'.heap u'.heap c
  same : ∀ c, reached c → SameAt w'.heap u'.heap c
  left : ∀ c : ScopeId, c.index < w.heap.size → ¬ reached c → SameAt w.heap w'.heap c
  right : ∀ c : ScopeId, c.index < u.heap.size → ¬ reached c → SameAt u.heap u'.heap c

/-- A scope that does not exist reads the same everywhere. -/
theorem sameAt_of_size_le {h k : Heap} {c : ScopeId} (left : h.size ≤ c.index)
    (right : k.size ≤ c.index) : SameAt h k c := by
  constructor
  · rw [h.bindings_of_size_le left, k.bindings_of_size_le right]
  · rw [h.parent?_of_size_le left, k.parent?_of_size_le right]

/-- The start of two calls, in states that agree on what is reachable. -/
theorem together_start {callee : Value} {args : List Value} {w u : World}
    (size : u.heap.size = w.heap.size) (interpreters : u.interpreters = w.interpreters)
    (agree : ∀ c, w.heap.Reachable (callRoots callee args) c → SameAt w.heap u.heap c) :
    Together (w.heap.ReachableOrNew (callRoots callee args)) w u w u := by
  refine ⟨Nat.le_refl _, size, interpreters, ⟨#[], ?_, ?_⟩, closed_reachableOrNew _ _, ?_⟩
  · rw [Array.append_empty]
  · rw [Array.append_empty]
  · rintro c (reachable | new)
    · exact agree c reachable
    · exact sameAt_of_size_le new (size ▸ new)

/-- Lexical scoping. In two states with equally many scopes and the same interpreters, which agree
on all scopes that are reachable from a callee and its arguments, either both calls are cut short or
both have the same result and the same effect. What is not reachable keeps its contents in each. -/
theorem call_noninterference (host : Host) (confined : host.Confined) (me : InterpreterId)
    (depth : Nat) (callee : Value) (args : List Value) (w u : World)
    (size : u.heap.size = w.heap.size) (interpreters : u.interpreters = w.interpreters)
    (agree : ∀ c, w.heap.Reachable (callRoots callee args) c → SameAt w.heap u.heap c) :
    Option.Rel
      (fun r q => r.1 = q.1 ∧
        SameEffect (w.heap.Reachable (callRoots callee args)) w u r.2 q.2)
      ((applyValue host me depth callee args).run w)
      ((applyValue host me depth callee args).run u) := by
  let L := together confined me (w.heap.ReachableOrNew (callRoots callee args)) w u fun _ => .inr
  have within : ∀ v ∈ callee :: args, L.Data .only v :=
    fun v mem s mentions => .inl (.root ⟨v, mem, mentions⟩)
  have step : InStep (applyValue host me depth callee args) w u (L.Post .only) :=
    L.applyValue depth (together_start size interpreters agree) (within _ List.mem_cons_self)
      fun v mem => within v (List.mem_cons_of_mem _ mem)
  rw [InStep] at step
  generalize left : (applyValue host me depth callee args).run w = r,
    right : (applyValue host me depth callee args).run u = q at step ⊢
  cases step with
  | none => exact .none
  | @some r q h =>
    obtain ⟨v, w'⟩ := r
    obtain ⟨x, u'⟩ := q
    obtain ⟨same, _, _, t, _⟩ := h
    refine .some ⟨same, t.interpreters, t.events, t.size, ?_, ?_, ?_, ?_⟩
    · exact fun c new => t.agree c (.inr new)
    · exact fun c reachable => t.agree c (.inl reachable)
    -- A call changes no scope that was there, reachable or not.
    · exact fun c old _ => sameAt_call left old
    · exact fun c old _ => sameAt_call right old

/-- A state with a root scope and a caller's scope in it. Both bind the same name, the caller's to
a value of choice. -/
def World.withLocal (v : Value) : World :=
  { World.empty with
    heap := ((World.rooted.heap.define ⟨0⟩ "x" (.int 1)).enclose ⟨0⟩).2.define ⟨1⟩ "x" v }

/-- A function of the root scope with a free name. -/
def plusFree : Closure :=
  ⟨⟨0, 0⟩, ["y"], [.expr (.infixOp (.ident "x") .add (.ident "y"))], ⟨0⟩⟩

theorem World.agree_withLocal (a b : Value) (c : ScopeId)
    (reachable : (withLocal a).heap.Reachable (callRoots (.fn plusFree) [.int 3]) c) :
    SameAt (withLocal a).heap (withLocal b).heap c := by
  have closed : Closed (· = ⟨0⟩) (withLocal a).heap := by
    constructor
    · rintro c p rfl parent
      cases parent
    · rintro c n v rfl found
      have own : (withLocal a).heap.bindings ⟨0⟩ = Bindings.empty.set "x" (.int 1) := rfl
      rw [own, Bindings.get?_set] at found
      split at found
      · cases found
        exact (Value.hereditary_within _).int 1
      · cases found
  have rooted : ∀ s, callRoots (.fn plusFree) [.int 3] s → s = ⟨0⟩ := by
    rintro s ⟨v, mem, mentions⟩
    rcases List.mem_cons.mp mem with rfl | mem
    · have own : (Value.fn plusFree).Within (· = ⟨0⟩) := Value.within_fn.mpr rfl
      exact own s mentions
    · obtain rfl := List.mem_singleton.mp mem
      exact (Value.hereditary_within (· = ⟨0⟩)).int 3 s mentions
  obtain rfl := closed.mem_of_reachable rooted reachable
  exact ⟨rfl, rfl⟩

/-- What the caller has bound to the free name does not matter. -/
theorem call_noninterference_plusFree :
    ∃ w' u', (applyValue .empty ⟨0⟩ 1 (.fn plusFree) [.int 3]).run (.withLocal (.int 5)) =
        some (.int 4, w') ∧
      (applyValue .empty ⟨0⟩ 1 (.fn plusFree) [.int 3]).run (.withLocal (.str "five")) =
        some (.int 4, u') ∧
      SameEffect ((World.withLocal (.int 5)).heap.Reachable (callRoots (.fn plusFree) [.int 3]))
        (.withLocal (.int 5)) (.withLocal (.str "five")) w' u' := by
  have confined : Host.empty.Confined :=
    fun _ _ s mentions => (Value.hereditary_within fun _ => False).null s mentions |>.elim
  have step := call_noninterference .empty confined ⟨0⟩ 1 (.fn plusFree) [.int 3]
    (.withLocal (.int 5)) (.withLocal (.str "five")) rfl rfl (World.agree_withLocal _ _)
  obtain ⟨w', left⟩ : ∃ w', (applyValue .empty ⟨0⟩ 1 (.fn plusFree) [.int 3]).run
      (.withLocal (.int 5)) = some (.int 4, w') := ⟨_, rfl⟩
  obtain ⟨u', right⟩ : ∃ u', (applyValue .empty ⟨0⟩ 1 (.fn plusFree) [.int 3]).run
      (.withLocal (.str "five")) = some (.int 4, u') := ⟨_, rfl⟩
  rw [left, right] at step
  cases step with
  | some h => exact ⟨w', u', left, right, h.2⟩

end TreeWalk
