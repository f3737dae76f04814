import TreeWalk.Proofs.Eval.Correspondence
import TreeWalk.Proofs.Sink.Limit
import TreeWalk.Proofs.Value.Styles

/-!
# Configuration and computation

How an interpreter is configured does not influence what it computes. Two interpreters whose sinks
never fail, one of the canonical and one of the legacy style, and one that is silent, run a program
alike: their values, scopes, counts and events are the same. What the first two write is the same up
to the brackets that close parameter lists, and the third writes nothing.

The interpreters may have different identifiers in sessions of their own. Then the owners of builtins
are renamed.

Results:
1. `Interpreter.puts_of_neverFails`: what `puts` does where the sink never fails.
2. `restyled`, `silenced`: runs in two styles correspond, and so do runs of which one is silent.
3. `configuration_is_invisible`: the three runs.
-/

namespace TreeWalk

variable {host : Host} {ρ : InterpreterId → InterpreterId} {me : InterpreterId}

/-! ## Sinks that never fail -/

/-- The sink takes everything, and can be flushed. -/
def Sink.NeverFails (k : Sink) : Prop :=
  k.capacity = none ∧ k.flushRefusal = none

/-- The sink after some bytes more were written, and it was flushed so many times more. -/
def Sink.after (k : Sink) (bytes : List UInt8) (flushes : Nat) : Sink :=
  { k with received := k.received ++ bytes, flushes := k.flushes + flushes }

theorem Sink.after_nil (k : Sink) : k.after [] 0 = k := by
  rw [after, List.append_nil]
  rfl

theorem Sink.after_after (k : Sink) (bytes more : List UInt8) (m n : Nat) :
    (k.after bytes m).after more n = k.after (bytes ++ more) (m + n) := by
  simp only [after, List.append_assoc, Nat.add_assoc]

/-- Where the sink never fails everything is written, and the sink is flushed once. -/
theorem Interpreter.puts_of_neverFails {x : Interpreter} (loud : x.config.silent = false)
    (never : x.sink.NeverFails) (args : List Value) :
    x.puts args = (.ok .null, { x with sink := x.sink.after (x.output args) 1 }) := by
  rw [puts_of_fits loud (Sink.fits_of_unlimited never.1 _), Sink.flushed, never.2]
  rfl

theorem Interpreter.puts_of_silent {x : Interpreter} (silent : x.config.silent = true)
    (args : List Value) : x.puts args = (.ok .null, x) := by
  rw [puts, if_pos silent]

/-! ## Two interpreters -/

/-- Since they were `x₀` and `y₀`, an interpreter of the canonical and one of the legacy style have
written the same up to closing brackets, and have flushed equally often. -/
structure Restyled (x₀ y₀ x y : Interpreter) : Prop where
  canonical : x.config = ⟨.canonical, false⟩
  legacy : y.config = ⟨.legacy, false⟩
  neverFails : x.sink.NeverFails ∧ y.sink.NeverFails
  written : ∃ text other flushes, x.sink = x₀.sink.after text flushes ∧
    y.sink = y₀.sink.after other flushes ∧ List.Forall₂ AlignedByte text other

theorem Restyled.puts {x₀ y₀ x y : Interpreter} (like : Restyled x₀ y₀ x y) (args : List Value) :
    (y.puts args).1 = (x.puts args).1 ∧ Restyled x₀ y₀ (x.puts args).2 (y.puts args).2 := by
  obtain ⟨canonical, legacy, ⟨never, never'⟩, text, other, flushes, left, right, aligned⟩ := like
  have loud : x.config.silent = false := congrArg Config.silent canonical
  have loud' : y.config.silent = false := congrArg Config.silent legacy
  rw [Interpreter.puts_of_neverFails loud never, Interpreter.puts_of_neverFails loud' never']
  refine ⟨rfl, canonical, legacy, ⟨never, never'⟩, text ++ x.output args, other ++ y.output args,
    flushes + 1, ?_, ?_, ?_⟩
  · rw [← Sink.after_after, ← left]
  · rw [← Sink.after_after, ← right]
  · have shown : x.render = Value.render .canonical := by
      funext v
      rw [Interpreter.render, canonical]
    have shown' : y.render = Value.render .legacy := by
      funext v
      rw [Interpreter.render, legacy]
    rw [Interpreter.output, Interpreter.output, shown, shown']
    exact List.rel_append aligned (aligned_lineBytes args)

/-- An interpreter that writes and never fails, and one that is silent and has the sink. -/
structure Silenced (k : Sink) (x y : Interpreter) : Prop where
  loud : x.config.silent = false
  neverFails : x.sink.NeverFails
  silent : y.config.silent = true
  untouched : y.sink = k

theorem Silenced.puts {k : Sink} {x y : Interpreter} (like : Silenced k x y) (args : List Value) :
    (y.puts args).1 = (x.puts args).1 ∧ Silenced k (x.puts args).2 (y.puts args).2 := by
  obtain ⟨loud, never, silent, untouched⟩ := like
  rw [Interpreter.puts_of_neverFails loud never, Interpreter.puts_of_silent silent]
  exact ⟨rfl, loud, never, silent, untouched⟩

/-! ## Two sessions -/

/-- Interpreters that have written in the two styles since the start correspond. -/
def restyled (ignores : host.Ignores ρ) (injective : Function.Injective ρ) (me : InterpreterId)
    (x₀ y₀ : Interpreter) : Correspondence host where
  ρ := ρ
  injective := injective
  me := me
  Like := Restyled x₀ y₀
  counts _ _ like := ⟨like.canonical, like.legacy, like.neverFails, like.written⟩
  puts args like := like.puts args
  host := ignores

/-- An interpreter that writes corresponds to one that is silent. -/
def silenced (ignores : host.Ignores ρ) (injective : Function.Injective ρ) (me : InterpreterId)
    (k : Sink) : Correspondence host where
  ρ := ρ
  injective := injective
  me := me
  Like := Silenced k
  counts _ _ like := ⟨like.loud, like.neverFails, like.silent, like.untouched⟩
  puts args like := like.puts args
  host := ignores

/-- The two sessions are the same up to a renaming, but for the log and for one interpreter. -/
structure SameSession (ρ : InterpreterId → InterpreterId) (me : InterpreterId) (w u : World) :
    Prop where
  heap : u.heap = w.heap.map (Value.rename ρ)
  others : ∀ i, i ≠ me → u.interpreter (ρ i) = w.interpreter i

/-- The two runs have the same value, end in the same session, and have reported and counted the
same. -/
structure SameRun (ρ : InterpreterId → InterpreterId) (me : InterpreterId) (w u : World)
    (r q : Value × World) : Prop where
  value : q.1 = r.1.rename ρ
  session : SameSession ρ me r.2 q.2
  counted : ∃ events, w.Counted me events r.2 ∧ u.Counted (ρ me) events q.2

/-! ## The three runs -/

section Pairs

variable {w u : World} {depth : Nat} {s : ScopeId} {program : Program Origin}
variable (ignores : host.Ignores ρ) (injective : Function.Injective ρ)

include ignores injective

/-- Of two runs in two styles the outputs are aligned. -/
theorem sameRun_restyled (same : SameSession ρ me w u)
    (canonical : (w.interpreter me).config = ⟨.canonical, false⟩)
    (legacy : (u.interpreter (ρ me)).config = ⟨.legacy, false⟩)
    (neverFails : (w.interpreter me).sink.NeverFails ∧ (u.interpreter (ρ me)).sink.NeverFails) :
    Option.Rel
      (fun r q => SameRun ρ me w u r q ∧ ∃ text other flushes,
        (r.2.interpreter me).sink = (w.interpreter me).sink.after text flushes ∧
        (q.2.interpreter (ρ me)).sink = (u.interpreter (ρ me)).sink.after other flushes ∧
        List.Forall₂ AlignedByte text other)
      ((evalProgram host me depth s program).run w)
      ((evalProgram host (ρ me) depth s program).run u) := by
  let C := restyled ignores injective me (w.interpreter me) (u.interpreter (ρ me))
  have start : Restyled (w.interpreter me) (u.interpreter (ρ me)) (w.interpreter me)
      (u.interpreter (ρ me)) :=
    ⟨canonical, legacy, neverFails, [], [], 0, (Sink.after_nil _).symm, (Sink.after_nil _).symm,
      .nil⟩
  have state : C.State w u := ⟨same.heap, start, same.others⟩
  refine rel_imp (C.evalProgram_agrees depth state s program) fun r q agrees => ?_
  exact ⟨⟨agrees.value, ⟨agrees.state.heap, agrees.state.others⟩, agrees.counted⟩,
    agrees.state.mine.written⟩

/-- Of two runs of which one is silent this leaves its sink alone. -/
theorem sameRun_silenced (same : SameSession ρ me w u)
    (loud : (w.interpreter me).config.silent = false)
    (neverFails : (w.interpreter me).sink.NeverFails)
    (silent : (u.interpreter (ρ me)).config.silent = true) :
    Option.Rel
      (fun r q => SameRun ρ me w u r q ∧
        (q.2.interpreter (ρ me)).sink = (u.interpreter (ρ me)).sink)
      ((evalProgram host me depth s program).run w)
      ((evalProgram host (ρ me) depth s program).run u) := by
  let C := silenced ignores injective me (u.interpreter (ρ me)).sink
  have state : C.State w u := ⟨same.heap, ⟨loud, neverFails, silent, rfl⟩, same.others⟩
  refine rel_imp (C.evalProgram_agrees depth state s program) fun r q agrees => ?_
  exact ⟨⟨agrees.value, ⟨agrees.state.heap, agrees.state.others⟩, agrees.counted⟩,
    agrees.state.mine.untouched⟩

end Pairs

/-- Configuration is invisible. A program is run in three sessions, which are the same up to a renaming
but for the interpreter that runs it: this is of the canonical style in the first session and of the
legacy style in the second, with sinks that never fail, and silent in the third, with any sink. Then
all runs are cut short or none is, and their values, heaps, counts and events are the same up to the
renaming. What was written in the first two is aligned and was flushed equally often, and the sink in
the third is as it was. -/
theorem configuration_is_invisible (host : Host) (ρ σ : InterpreterId → InterpreterId)
    (ignores : host.Ignores ρ ∧ host.Ignores σ)
    (injective : Function.Injective ρ ∧ Function.Injective σ) (me : InterpreterId)
    (w u x : World) (same : SameSession ρ me w u ∧ SameSession σ me w x)
    (canonical : (w.interpreter me).config = ⟨.canonical, false⟩)
    (legacy : (u.interpreter (ρ me)).config = ⟨.legacy, false⟩)
    (neverFails : (w.interpreter me).sink.NeverFails ∧ (u.interpreter (ρ me)).sink.NeverFails)
    (silent : (x.interpreter (σ me)).config.silent = true)
    (depth : Nat) (s : ScopeId) (program : Program Origin) :
    Option.Rel
      (fun r q => SameRun ρ me w u r q ∧ ∃ text other flushes,
        (r.2.interpreter me).sink = (w.interpreter me).sink.after text flushes ∧
        (q.2.interpreter (ρ me)).sink = (u.interpreter (ρ me)).sink.after other flushes ∧
        List.Forall₂ AlignedByte text other)
      ((evalProgram host me depth s program).run w)
      ((evalProgram host (ρ me) depth s program).run u) ∧
    Option.Rel
      (fun r q => SameRun σ me w x r q ∧
        (q.2.interpreter (σ me)).sink = (x.interpreter (σ me)).sink)
      ((evalProgram host me depth s program).run w)
      ((evalProgram host (σ me) depth s program).run x) := by
  have loud : (w.interpreter me).config.silent = false := congrArg Config.silent canonical
  exact ⟨sameRun_restyled ignores.1 injective.1 same.1 canonical legacy neverFails,
    sameRun_silenced ignores.2 injective.2 same.2 loud neverFails.1 silent⟩

/-- A state with a root scope that binds `puts` of an interpreter to another name. -/
def World.lending (i : InterpreterId) (made : List Interpreter) : World where
  heap := World.rooted.heap.define ⟨0⟩ "out" (.builtin (.standard i .puts))
  interpreters := ⟨made⟩
  log := #[]

/-- The interpreter so many places later. -/
def InterpreterId.later (n : Nat) (i : InterpreterId) : InterpreterId :=
  ⟨i.index + n⟩

theorem InterpreterId.later_injective (n : Nat) : Function.Injective (later n) := by
  rintro ⟨i⟩ ⟨j⟩ eq
  simp only [later, mk.injEq, Nat.add_right_cancel_iff] at eq
  rw [eq]

/-- A sink that refuses everything. -/
def Sink.closed : Sink :=
  ⟨[], some 0, "full", some "broken", 0⟩

/-- A program that shows a function in it and the builtin that it shows it with. -/
def showing : Program Origin :=
  [.bind "show" (.fn ⟨0, 0⟩ ["f"]
      [.expr (.call (.ident "out") [.ident "f", .ident "show"]), .expr (.ident "f")]),
    .expr (.call (.ident "show") [.array [.ident "show", .ident "out"]])]

theorem World.sameSession_lending (n : Nat) (x : Interpreter) :
    SameSession (InterpreterId.later n) ⟨0⟩ (lending ⟨0⟩ [])
      (lending ⟨n⟩ (List.replicate n default ++ [x])) where
  heap := by
    have root : rooted.heap.map (Value.rename (InterpreterId.later n)) = rooted.heap := by
      refine Heap.ext_scope (Heap.size_map _ _) (fun s => ?_) (Heap.parent?_map _ _)
      rw [Heap.bindings_map, bindings_rooted, Bindings.map_empty]
    have first : InterpreterId.later n ⟨0⟩ = ⟨n⟩ := congrArg InterpreterId.mk (Nat.zero_add n)
    rw [lending, lending, Heap.map_define, root, Value.rename, Builtin.rename, first]
  others i ne := by
    have after : (List.replicate n default ++ [x]).length ≤ i.index + n := by
      have pos : i.index ≠ 0 := fun eq => ne (congrArg InterpreterId.mk eq)
      rw [List.length_append, List.length_replicate, List.length_singleton]
      omega
    show (List.replicate n default ++ [x]).getD (i.index + n) default = default
    rw [List.getD_eq_getElem?_getD, List.getElem?_eq_none after]
    rfl

/-- The second interpreter of a session is of the legacy style, and the third of another one is silent
and has a sink that refuses everything. -/
theorem configuration_is_invisible_showing :
    ∃ shown w' u' x' text other,
      (evalProgram (.ofStock #[.id]) ⟨0⟩ 1 ⟨0⟩ showing).run (.lending ⟨0⟩ []) =
        some (.array [.fn shown, .builtin (.standard ⟨0⟩ .puts)], w') ∧
      (evalProgram (.ofStock #[.id]) ⟨1⟩ 1 ⟨0⟩ showing).run
          (.lending ⟨1⟩ [default, .new ⟨.legacy, false⟩ .unlimited]) =
        some (.array [.fn shown, .builtin (.standard ⟨1⟩ .puts)], u') ∧
      (evalProgram (.ofStock #[.id]) ⟨2⟩ 1 ⟨0⟩ showing).run
          (.lending ⟨2⟩ [default, default, .new ⟨.legacy, true⟩ .closed]) =
        some (.array [.fn shown, .builtin (.standard ⟨2⟩ .puts)], x') ∧
      (w'.interpreter ⟨0⟩).sink = Sink.unlimited.after text 1 ∧
      (u'.interpreter ⟨1⟩).sink = Sink.unlimited.after other 1 ∧
      List.Forall₂ AlignedByte text other ∧
      (x'.interpreter ⟨2⟩).sink = .closed := by
  let shown : Closure :=
    ⟨⟨0, 0⟩, ["f"], [.expr (.call (.ident "out") [.ident "f", .ident "show"]),
      .expr (.ident "f")], ⟨0⟩⟩
  have ends : ((evalProgram (.ofStock #[.id]) ⟨0⟩ 1 ⟨0⟩ showing).run (.lending ⟨0⟩ [])).map
      (fun r => (r.1, (r.2.interpreter ⟨0⟩).sink.flushes)) =
      some (.array [.fn shown, .builtin (.standard ⟨0⟩ .puts)], 1) := by decide +kernel
  obtain ⟨⟨v, w'⟩, left, eq⟩ := Option.map_eq_some_iff.mp ends
  simp only [Prod.mk.injEq] at eq
  obtain ⟨rfl, once⟩ := eq
  have ignores : ∀ n, (Host.ofStock #[.id]).Ignores (.later n) :=
    fun _ => Host.ignores_ofStock #[.id]
  obtain ⟨restyled, silenced⟩ := configuration_is_invisible (.ofStock #[.id]) (.later 1) (.later 2)
    ⟨ignores 1, ignores 2⟩ ⟨InterpreterId.later_injective 1, InterpreterId.later_injective 2⟩ ⟨0⟩
    (.lending ⟨0⟩ []) _ _
    ⟨World.sameSession_lending 1 (.new ⟨.legacy, false⟩ .unlimited),
      World.sameSession_lending 2 (.new ⟨.legacy, true⟩ .closed)⟩
    rfl rfl ⟨⟨rfl, rfl⟩, rfl, rfl⟩ rfl 1 ⟨0⟩ showing
  rw [left] at restyled silenced
  obtain ⟨⟨v, u'⟩, second, run, text, other, flushes, wrote, wrote', aligned⟩ :=
    exists_of_rel restyled
  obtain ⟨⟨v', x'⟩, third, run', untouched⟩ := exists_of_rel silenced
  obtain rfl : v = .array [.fn shown, .builtin (.standard ⟨1⟩ .puts)] := run.value
  obtain rfl : v' = .array [.fn shown, .builtin (.standard ⟨2⟩ .puts)] := run'.value
  obtain rfl : flushes = 1 :=
    calc flushes = 0 + flushes := (Nat.zero_add flushes).symm
      _ = (w'.interpreter ⟨0⟩).sink.flushes := (congrArg Sink.flushes wrote).symm
      _ = 1 := once
  exact ⟨shown, w', u', x', text, other, left, second, third, wrote, wrote', aligned, untouched⟩

end TreeWalk
