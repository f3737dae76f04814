import TreeWalk.Proofs.Eval.Counting
import TreeWalk.Proofs.Scope.Noninterference
import TreeWalk.Proofs.Sink.Limit

/-!
# Interpreters that share scopes

A standard builtin that is called by its name is that of the interpreter that runs. As a value it
goes where values go, and writes to the sink of its owner whoever calls it. So an interpreter writes
to the sink of another one only by way of a builtin that the other one has let out of hand.

No evaluation gets hold of such a builtin by itself. What it reads and calls is bound in scopes that
it reaches, and all else it makes. Functions that the other interpreter made are no exception: in
them, too, a name that is not bound stands for a builtin of the interpreter that runs.

A wrapper is what a value is in on its way out of a function, and the end of the function takes it
off. A host may bind one as well, so what is in a wrapper counts as reachable
(`reachable_through_wrappers`).

Results:
1. `Value.hereditary_not_lends`: no operation makes a builtin.
2. `apart`: runs that reach no builtin of another interpreter, in lockstep.
3. `interpreters_isolated`: one evaluation, and the other interpreters.
-/

namespace TreeWalk

/-! ## Builtins of an interpreter -/

/-- The value contains a standard builtin of the interpreter, inside arrays and wrappers. -/
def Value.Lends (a : InterpreterId) (v : Value) : Prop :=
  ∃ op, (Value.builtin (.standard a op)).PartOf v

/-- Some scope that is reached from the roots binds a value with a standard builtin of the
interpreter. -/
def Heap.Lends (h : Heap) (a : InterpreterId) (roots : ScopeId → Prop) : Prop :=
  ∃ c n v, h.Reachable roots c ∧ (h.bindings c).get? n = some v ∧ v.Lends a

/-- The builtins of the host give no standard builtin of the interpreter but those that they were
given. -/
def Host.LendsNone (host : Host) (a : InterpreterId) : Prop :=
  ∀ id args, (host id args).Lends a → ∃ v ∈ args, v.Lends a

variable {a : InterpreterId}

namespace Value

/-- To contain no builtin of an interpreter is hereditary. -/
theorem hereditary_not_lends (a : InterpreterId) : Hereditary fun v => ¬ v.Lends a := by
  have parts : Hereditary fun v =>
      ∀ p : Value, p.PartOf v → ∀ op, p ≠ .builtin (.standard a op) := by
    refine hereditary_parts fun v plain op eq => ?_
    rw [eq] at plain
    cases plain
  have same : (fun v : Value => ¬ v.Lends a) =
      fun v => ∀ p : Value, p.PartOf v → ∀ op, p ≠ .builtin (.standard a op) := by
    funext v
    refine propext ⟨?_, fun all ⟨op, part⟩ => all _ part op rfl⟩
    rintro none p part op rfl
    exact none ⟨op, part⟩
  rw [same]
  exact parts

theorem not_lends_fn (f : Closure) : ¬ (Value.fn f).Lends a := by
  rintro ⟨op, part⟩
  cases eq_of_partOf part nofun nofun

theorem not_lends_err (message : String) : ¬ (Value.err message).Lends a := by
  rintro ⟨op, part⟩
  cases eq_of_partOf part nofun nofun

theorem lends_builtin_iff {b : Builtin} :
    (Value.builtin b).Lends a ↔ ∃ op, b = .standard a op := by
  constructor
  · rintro ⟨op, part⟩
    cases eq_of_partOf part nofun nofun
    exact ⟨op, rfl⟩
  · rintro ⟨op, rfl⟩
    exact ⟨op, .whole⟩

theorem lends_ret {v : Value} : (Value.ret v).Lends a ↔ v.Lends a := by
  constructor
  · rintro ⟨op, part⟩
    cases part with
    | wrapped part => exact ⟨op, part⟩
  · exact fun ⟨op, part⟩ => ⟨op, .wrapped part⟩

end Value

theorem Host.LendsNone.keeps {host : Host} (lendsNone : host.LendsNone a) {id : HostId}
    {args : List Value} (all : ∀ v ∈ args, ¬ v.Lends a) : ¬ (host id args).Lends a := by
  intro lends
  obtain ⟨v, mem, lends⟩ := lendsNone id args lends
  exact all v mem lends

/-- The ready-made builtins pass on what they are given. -/
theorem Host.lendsNone_ofStock (added : Array Stock) : (Host.ofStock added).LendsNone a := by
  intro id args lends
  by_contra none
  refine Host.ofStock_keeps (Value.hereditary_not_lends a) Value.not_lends_err
    (fun _ => mt Value.lends_ret.mp) added id (fun v mem lends => ?_) lends
  exact none ⟨v, mem, lends⟩

/-! ## Runs that reach no builtin of another interpreter -/

/-- A run that started in `w` has come to `x`. Nothing leads out of `S`, no value that is bound there
contains a builtin of the interpreter, and its sink is as it was. -/
structure Apart (S : ScopeId → Prop) (a : InterpreterId) (w x : World) : Prop where
  grown : w.heap.size ≤ x.heap.size
  closed : Closed S x.heap
  bound : BoundIn S (fun v => ¬ v.Lends a) x.heap
  sink : (x.interpreter a).sink = (w.interpreter a).sink

/-- The value mentions scopes of `S` only, and contains no builtin of the interpreter. -/
def Value.ApartIn (S : ScopeId → Prop) (a : InterpreterId) (v : Value) : Prop :=
  v.Within S ∧ ¬ v.Lends a

theorem Value.hereditary_apartIn (S : ScopeId → Prop) (a : InterpreterId) :
    Hereditary (Value.ApartIn S a) :=
  (hereditary_within S).and (hereditary_not_lends a)

namespace Apart

variable {S : ScopeId → Prop} {w x : World}

/-- What touches neither the heap nor the sink of the interpreter. -/
theorem elsewhere (apart : Apart S a w x) {y : World} (heap : y.heap = x.heap)
    (sink : (y.interpreter a).sink = (x.interpreter a).sink) : Apart S a w y where
  grown := heap ▸ apart.grown
  closed := heap ▸ apart.closed
  bound := heap ▸ apart.bound
  sink := sink.trans apart.sink

theorem define (apart : Apart S a w x) (s : ScopeId) (name : String) {v : Value}
    (data : v.ApartIn S a) : Apart S a w { x with heap := x.heap.define s name v } where
  grown := by
    rw [Heap.size_define]
    exact apart.grown
  closed := apart.closed.define s name data.1
  bound := apart.bound.define s name data.2
  sink := apart.sink

theorem entered (apart : Apart S a w x) (me : InterpreterId) {f : Closure} {args : List Value}
    (inS : S f.scope) (all : ∀ v ∈ args, v.ApartIn S a) : Apart S a w (x.entered me f args) where
  grown := by
    rw [World.heap_entered, Heap.callScope, Heap.size_allocate]
    exact Nat.le_succ_of_le apart.grown
  closed := apart.closed.callScope inS fun v mem => (all v mem).1
  bound := apart.bound.callScope f fun v mem => (all v mem).2
  sink := (x.sink_entered me a f args).trans apart.sink

/-- A builtin that was called belongs to another interpreter, or to the host. -/
theorem callBuiltin {host : Host} (apart : Apart S a w x) (confined : host.Confined)
    (lendsNone : host.LendsNone a) {b : Builtin} {args : List Value} {v : Value} {y : World}
    (data : (Value.builtin b).ApartIn S a) (all : ∀ v ∈ args, v.ApartIn S a)
    (result : (callBuiltin host b args).run x = some (v, y)) :
    Apart S a w y ∧ v.ApartIn S a := by
  cases b with
  | standard owner op =>
    rw [TreeWalk.callBuiltin, run_standard] at result
    cases result
    have ne : a ≠ owner := by
      rintro rfl
      exact data.2 (Value.lends_builtin_iff.mpr ⟨op, rfl⟩)
    refine ⟨apart.elsewhere (x.heap_computed owner op args) ?_, ?_⟩
    · rw [World.interpreter_computed, if_neg ne]
    · cases eq : ((x.interpreter owner).compute op args).1 with
      | ok v => exact (Value.hereditary_apartIn S a).compute all eq
      | error fault => exact ⟨Value.within_err _, Value.not_lends_err _⟩
  | host id name =>
    cases result
    exact ⟨apart, confined.within fun v mem => (all v mem).1,
      lendsNone.keeps fun v mem => (all v mem).2⟩

end Apart

/-- The run of an interpreter goes on to be apart from another one. -/
def apart {host : Host} (confined : host.Confined) {a : InterpreterId}
    (lendsNone : host.LendsNone a) {me : InterpreterId} (other : me ≠ a) (S : ScopeId → Prop)
    (w : World) (new : ∀ c : ScopeId, w.heap.size ≤ c.index → S c) : Lockstep host me OneStage where
  State _ x y := y = x ∧ Apart S a w x
  Data _ := Value.ApartIn S a
  Result _ v x y := y = x ∧ Apart S a w x ∧ v.ApartIn S a
  Allows _ s _ := S s
  data_mono _ data := data
  allows_mono _ inS := inS
  hereditary _ := Value.hereditary_apartIn S a
  standard _ op := by
    refine ⟨Value.within_builtin _, fun lends => ?_⟩
    obtain ⟨op, eq⟩ := Value.lends_builtin_iff.mp lends
    cases eq
    exact other rfl
  ofData state data := ⟨state.1, state.2, data⟩
  ofReturn state data :=
    ⟨state.1, state.2, Value.within_ret.mpr data.1, mt Value.lends_ret.mp data.2⟩
  goOn result _ := ⟨⟨result.1, result.2.1⟩, result.2.2⟩
  look {_ s _ _ _} state inS := by
    obtain ⟨rfl, apart⟩ := state
    exact ⟨rfl, fun v found =>
      ⟨apart.closed.bound.resolve apart.closed.parent s inS found,
        apart.bound.resolve apart.closed.parent s inS found⟩⟩
  capture inS := ⟨Value.within_fn.mpr inS, Value.not_lends_fn _⟩
  bind {_ s name _ _ _} state _ data := by
    obtain ⟨rfl, apart⟩ := state
    exact ⟨.only, le_refl _, rfl, apart.define s name data⟩
  fault {_ _ x f} state _ := by
    obtain ⟨rfl, apart⟩ := state
    exact ⟨.only, le_refl _, rfl, apart.elsewhere rfl (x.sink_raised me a f),
      Value.within_err _, Value.not_lends_err _⟩
  builtin := by
    rintro _ b args _ x ⟨rfl, apart⟩ data all
    have calling : Apart S a w (x.calling me b args.length) :=
      apart.elsewhere rfl (x.sink_calling me a b args.length)
    cases result : (callBuiltin host b args).run (x.calling me b args.length) with
    | none =>
      rw [InStep, result]
      exact .none
    | some r =>
      exact .ofResults result result
        ⟨.only, le_refl _, rfl, calling.callBuiltin confined lendsNone data all result⟩
  enter := by
    rintro _ f args _ x ⟨rfl, apart⟩ data all _
    have inS : S f.scope := Value.within_fn.mp data.1
    refine ⟨rfl, .only, ⟨rfl, apart.entered me inS all⟩, fun _ _ => new _ apart.grown, ?_⟩
    rintro l v x' y' - ⟨rfl, apart', data'⟩ -
    exact ⟨.only, le_refl _, rfl, apart'.elsewhere rfl rfl,
      (Value.hereditary_apartIn S a).unwrapReturn data'⟩

/-- At the start the scopes are counted in that do not exist yet. -/
theorem apart_start {w : World} {roots : ScopeId → Prop} (none : ¬ w.heap.Lends a roots) :
    Apart (w.heap.ReachableOrNew roots) a w w where
  grown := Nat.le_refl _
  closed := closed_reachableOrNew _ _
  bound := boundIn_reachableOrNew fun c n v reachable found lends =>
    none ⟨c, n, v, reachable, found, lends⟩
  sink := rfl

/-- From scopes of the set no builtin of the interpreter is reached. -/
theorem Apart.not_lends {S : ScopeId → Prop} {w x : World} (apart : Apart S a w x)
    {roots : ScopeId → Prop} (rooted : ∀ s, roots s → S s) : ¬ x.heap.Lends a roots := by
  rintro ⟨c, n, v, reachable, found, lends⟩
  exact apart.bound c n v (apart.closed.mem_of_reachable rooted reachable) found lends

/-! ## One evaluation -/

section Isolation

variable {host : Host} {me : InterpreterId} {depth : Nat} {s : ScopeId}
variable {program : Program Origin} {w w' : World} {v : Value}

/-- A program is counted by the interpreter that runs alone. -/
theorem stats_evalProgram (other : me ≠ a)
    (result : (evalProgram host me depth s program).run w = some (v, w')) :
    (w'.interpreter a).stats = (w.interpreter a).stats := by
  obtain ⟨x, ⟨events, counted⟩, rfl⟩ :=
    (counting host me).evalProgram (g := .only) trivial (fun _ _ => trivial) result
  have stats := counted.stats a
  rwa [if_neg other.symm] at stats

/-- A program that reaches no builtin of another interpreter ends apart from it. -/
theorem apart_evalProgram (confined : host.Confined) (lendsNone : host.LendsNone a)
    (other : me ≠ a) (none : ¬ w.heap.Lends a (· = s))
    (result : (evalProgram host me depth s program).run w = some (v, w')) :
    Apart (w.heap.ReachableOrNew (· = s)) a w w' ∧
      v.ApartIn (w.heap.ReachableOrNew (· = s)) a := by
  rw [run_evalProgram, Option.map_eq_some_iff] at result
  obtain ⟨⟨b, x⟩, ran, eq⟩ := result
  cases eq
  let L := apart confined lendsNone other (w.heap.ReachableOrNew (· = s)) w fun _ => .inr
  let start := w.record (.enter (.program program.length))
  have state : L.State .only start start := ⟨rfl, (apart_start none).elsewhere rfl rfl⟩
  obtain ⟨-, -, -, ends, data⟩ := (Lockstep.evalBlock (L.invoke depth) program state
    (L.hereditary .only).null fun _ _ => .inl (.root rfl)).fromOne ran
  exact ⟨ends.elsewhere rfl rfl, (L.hereditary .only).unwrapReturn data⟩

end Isolation

/-- Interpreters are isolated. A program is counted by the interpreter that runs it alone. If no
builtin of another interpreter is reached from its scope, nothing is written to the sink of the other
one, nor is it flushed, whoever made the functions that are called. Afterwards still no builtin of the
other one is reached from the scope, nor from the result. -/
theorem interpreters_isolated (host : Host) (confined : host.Confined) (a me : InterpreterId)
    (lendsNone : host.LendsNone a) (other : me ≠ a) (depth : Nat) (s : ScopeId)
    (program : Program Origin) (w w' : World) (v : Value)
    (result : (evalProgram host me depth s program).run w = some (v, w')) :
    (w'.interpreter a).stats = (w.interpreter a).stats ∧
    (¬ w.heap.Lends a (· = s) →
      (w'.interpreter a).sink = (w.interpreter a).sink ∧
      ¬ w'.heap.Lends a (· = s) ∧
      ¬ v.Lends a ∧ ¬ w'.heap.Lends a v.Mentions) := by
  refine ⟨stats_evalProgram other result, fun none => ?_⟩
  obtain ⟨ends, data⟩ := apart_evalProgram confined lendsNone other none result
  refine ⟨ends.sink, ends.not_lends ?_, data.2, ends.not_lends data.1⟩
  rintro _ rfl
  exact .inl (.root rfl)

/-- A function that writes what a builtin of the host makes of its argument. -/
def say : Closure :=
  ⟨⟨0, 0⟩, ["x"], [.expr (.call (.ident "puts") [.call (.ident "same") [.ident "x"]])], ⟨0⟩⟩

/-- A state with a root scope that binds a builtin of the host and the function. -/
def World.saying : World :=
  { World.rooted with
    heap := (World.rooted.heap.define ⟨0⟩ "same" (.builtin (.host ⟨0⟩ "same"))).define ⟨0⟩ "say"
      (.fn say) }

/-- In the root scope alone nothing is bound. -/
theorem World.boundIn_rooted (S : ScopeId → Prop) (D : Value → Prop) : BoundIn S D rooted.heap := by
  intro c n v _ found
  rw [bindings_rooted] at found
  cases found

theorem World.not_lends_saying (a : InterpreterId) (roots : ScopeId → Prop) :
    ¬ saying.heap.Lends a roots := by
  have bound := boundIn_rooted (fun _ => True) fun v => ¬ v.Lends a
  have same : ¬ (Value.builtin (.host ⟨0⟩ "same")).Lends a := by
    intro lends
    obtain ⟨op, eq⟩ := Value.lends_builtin_iff.mp lends
    cases eq
  rintro ⟨c, n, v, -, found, lends⟩
  exact (bound.define ⟨0⟩ "same" same).define ⟨0⟩ "say" (Value.not_lends_fn say) c n v trivial found
    lends

/-- One interpreter makes a function that writes, and another one calls it. The line goes to the sink
of the one that calls. -/
theorem interpreters_isolated_saying :
    (∃ v w, (evalProgram (.ofStock #[.id]) ⟨0⟩ 0 ⟨0⟩
        [.bind "say" (.fn say.origin say.params say.body)]).run
        { World.rooted with
          heap := World.rooted.heap.define ⟨0⟩ "same" (.builtin (.host ⟨0⟩ "same")) } =
          some (v, w) ∧ w.heap = World.saying.heap) ∧
    ∃ w', (evalProgram (.ofStock #[.id]) ⟨1⟩ 1 ⟨0⟩
        [.expr (.call (.ident "say") [.str "hi"])]).run .saying = some (.null, w') ∧
      (w'.interpreter ⟨1⟩).sink.received = utf8 "hi\n" ∧
      (w'.interpreter ⟨0⟩).stats = (World.saying.interpreter ⟨0⟩).stats ∧
      (w'.interpreter ⟨0⟩).sink = (World.saying.interpreter ⟨0⟩).sink ∧
      ¬ w'.heap.Lends ⟨0⟩ (· = ⟨0⟩) := by
  refine ⟨⟨_, _, rfl, rfl⟩, ?_⟩
  obtain ⟨w', result, wrote⟩ : ∃ w', (evalProgram (.ofStock #[.id]) ⟨1⟩ 1 ⟨0⟩
      [.expr (.call (.ident "say") [.str "hi"])]).run .saying = some (.null, w') ∧
        (w'.interpreter ⟨1⟩).sink.received = utf8 "hi\n" := ⟨_, rfl, by decide +kernel⟩
  obtain ⟨stats, isolated⟩ := interpreters_isolated (.ofStock #[.id])
    (Host.makesNoClosure_ofStock _).confined ⟨0⟩ ⟨1⟩ (Host.lendsNone_ofStock _) (by decide) 1 ⟨0⟩ _
    .saying w' .null result
  obtain ⟨sink, none, -⟩ := isolated (World.not_lends_saying ⟨0⟩ _)
  exact ⟨w', result, wrote, stats, sink, none⟩

/-! ## Wrappers -/

/-- The value is contained in another one, inside arrays. -/
inductive Value.ElementOf (p : Value) : Value → Prop
  | whole : ElementOf p p
  | item {v : Value} {items : List Value} : v ∈ items → ElementOf p v → ElementOf p (.array items)

/-- A state with a root scope that binds a wrapper with `puts` of the first interpreter. -/
def World.wrapping : World :=
  { World.rooted with
    heap := World.rooted.heap.define ⟨0⟩ "x" (.ret (.builtin (.standard ⟨0⟩ .puts))) }

/-- Inside arrays alone, no scope that is reached binds a builtin of the first interpreter. Yet the
second one writes to its sink: the end of a function takes the wrapper off. -/
theorem reachable_through_wrappers :
    (∀ c n v op, World.wrapping.heap.Reachable (· = ⟨0⟩) c →
      (World.wrapping.heap.bindings c).get? n = some v →
      ¬ (Value.builtin (.standard ⟨0⟩ op)).ElementOf v) ∧
    ∃ w', (evalProgram .empty ⟨1⟩ 1 ⟨0⟩
        [.expr (.call (.call (.fn ⟨0, 0⟩ [] [.expr (.ident "x")]) []) [.str "leak"])]).run .wrapping =
          some (.null, w') ∧
      (World.wrapping.interpreter ⟨0⟩).sink.received = [] ∧
      (w'.interpreter ⟨0⟩).sink.received = utf8 "leak\n" := by
  constructor
  · intro c n v op _ found element
    have bound : BoundIn (fun _ => True) (· = .ret (.builtin (.standard ⟨0⟩ .puts)))
        World.wrapping.heap := (World.boundIn_rooted _ _).define _ _ rfl
    rw [bound c n v trivial found] at element
    cases element
  · exact ⟨_, rfl, rfl, by decide +kernel⟩

end TreeWalk
