import TreeWalk.Proofs.Eval.HeapInvariant

/-!
# The course of a run

What holds between the start and the end of every run, such as how far the log and the counts have
grown. It is enough that it holds of the steps, that it holds of two runs one after the other, and
that it holds of a call when it holds of the body. An invariant of the heap may be relied on.

The body of a call is a course of its own, which starts when the call has been entered. So the stage
of the lockstep keeps the state in which the current course has started.

Results:
1. `Course.evalProgram`: the statements of a program.
2. `Course.call_rel`, `Course.applyValue`: a call as a whole, and the body of a closure.
-/

namespace TreeWalk

/-- A relation between the start and the end of runs that keep an invariant of the heap. -/
structure Course {host : Host} {γ : Type} [Preorder γ] (I : HeapInvariant host γ)
    (me : InterpreterId) where
  Rel : World → World → Prop
  refl : ∀ w, Rel w w
  trans : ∀ {w x y}, Rel w x → Rel x y → Rel w y
  define : ∀ w s name v, Rel w { w with heap := w.heap.define s name v }
  raised : ∀ w fault, Rel w (w.raised me fault)
  builtin : ∀ {b args w v w'},
    (callBuiltin host b args).run (w.calling me b args.length) = some (v, w') → Rel w w'
  /-- A call of a closure, which is known to have come to the state after its body, when its span has
  been left. -/
  call : ∀ {g f args v w w'}, I.Holds g w.heap → I.Data g (.fn f) → f.arity = args.length →
    (∃ depth, (applyValue host me depth (.fn f) args).run w =
      some (v, w'.record (.leave (f.span w.heap)))) →
    Rel (w.entered me f args) w' → Rel w (w'.record (.leave (f.span w.heap)))

/-- A stage of an invariant, and the state in which the current course has started. -/
structure Leg (γ : Type) where
  stage : γ
  start : World

instance {γ : Type} [Preorder γ] : Preorder (Leg γ) where
  le a b := a.stage ≤ b.stage ∧ a.start = b.start
  le_refl _ := ⟨le_refl _, rfl⟩
  le_trans _ _ _ ab bc := ⟨le_trans ab.1 bc.1, ab.2.trans bc.2⟩

namespace Course

variable {host : Host} {γ : Type} [Preorder γ] {I : HeapInvariant host γ} {me : InterpreterId}

/-- The lockstep of a run with itself, from the start of its course. -/
def lockstep (C : Course I me) : Lockstep host me (Leg γ) where
  State a w u := (I.lockstep me).State a.stage w u ∧ C.Rel a.start w
  Data a := I.Data a.stage
  Result a v w u := (I.lockstep me).Result a.stage v w u ∧ C.Rel a.start w
  Allows a := I.Allows a.stage
  data_mono le := I.data_mono le.1
  allows_mono le := I.allows_mono le.1
  hereditary a := I.hereditary a.stage
  standard a op := I.standard a.stage me op
  ofData state data := ⟨(I.lockstep me).ofData state.1 data, state.2⟩
  ofReturn state data := ⟨(I.lockstep me).ofReturn state.1 data, state.2⟩
  goOn result notSentinel := by
    obtain ⟨state, data⟩ := (I.lockstep me).goOn result.1 notSentinel
    exact ⟨⟨state, result.2⟩, data⟩
  look state allowed := (I.lockstep me).look state.1 allowed
  capture := I.capture
  bind {a s name v w u} state allowed data := by
    obtain ⟨k, le, next⟩ := (I.lockstep me).bind state.1 allowed data
    exact ⟨⟨k, a.start⟩, ⟨le, rfl⟩, next, C.trans state.2 (C.define w s name v)⟩
  fault {a w u f} state missing := by
    obtain ⟨k, le, result⟩ := (I.lockstep me).fault state.1 missing
    exact ⟨⟨k, a.start⟩, ⟨le, rfl⟩, result, C.trans state.2 (C.raised w f)⟩
  builtin := by
    rintro a b args w u ⟨⟨rfl, holds⟩, since⟩ data all
    have step := (I.lockstep me).builtin ⟨rfl, holds⟩ data all
    cases result : (TreeWalk.callBuiltin host b args).run (u.calling me b args.length) with
    | none =>
      rw [InStep, result]
      exact .none
    | some r =>
      obtain ⟨k, le, ends⟩ := step.fromOne result
      exact .ofResults result result
        ⟨⟨k, a.start⟩, ⟨le, rfl⟩, ends, C.trans since (C.builtin result)⟩
  enter := by
    rintro a f args w u ⟨⟨rfl, holds⟩, since⟩ data all arity
    obtain ⟨next, k, entered, allowed, left⟩ :=
      (I.lockstep me).enter ⟨rfl, holds⟩ data all arity
    refine ⟨next, ⟨k, u.entered me f args⟩, ⟨entered, C.refl _⟩, allowed, ?_⟩
    rintro ⟨l, start⟩ v w' u' ⟨le, rfl⟩ ⟨result, body⟩ ran
    obtain ⟨m, le', ends⟩ := left le result ran
    exact ⟨⟨m, a.start⟩, ⟨le', rfl⟩, ends, C.trans since (C.call holds data arity ran body)⟩

variable (C : Course I me) {depth : Nat} {g : γ} {s : ScopeId} {w w' : World} {v : Value}

theorem evalBlock {block : Block Origin} (holds : I.Holds g w.heap)
    (allowed : ∀ use ∈ Block.uses block, I.Allows g s use)
    (result : (TreeWalk.evalBlock host me (TreeWalk.invoke host me depth) s .null block).run w =
      some (v, w')) : C.Rel w w' := by
  have start : C.lockstep.State ⟨g, w⟩ w w := ⟨⟨rfl, holds⟩, C.refl w⟩
  obtain ⟨⟨k, w⟩, ⟨_, rfl⟩, _, since⟩ := (Lockstep.evalBlock (C.lockstep.invoke depth) block start
    (I.hereditary g).null allowed).fromOne result
  exact since

/-- The statements of a program are a course between the events of its span. -/
theorem evalProgram {program : Program Origin} (holds : I.Holds g w.heap)
    (allowed : ∀ use ∈ Block.uses program, I.Allows g s use)
    (result : (TreeWalk.evalProgram host me depth s program).run w = some (v, w')) :
    ∃ x, C.Rel (w.record (.enter (.program program.length))) x ∧
      w' = x.record (.leave (.program program.length)) := by
  rw [run_evalProgram, Option.map_eq_some_iff] at result
  obtain ⟨⟨b, x⟩, ran, eq⟩ := result
  cases eq
  exact ⟨x, C.evalBlock (by exact holds) allowed ran, rfl⟩

/-- A call of any value is a course, from before its span is entered to after it is left. -/
theorem call_rel {callee : Value} {args : List Value} (holds : I.Holds g w.heap)
    (data : I.Data g callee) (all : ∀ a ∈ args, I.Data g a)
    (result : (TreeWalk.applyValue host me depth callee args).run w = some (v, w')) :
    C.Rel w w' := by
  have start : C.lockstep.State ⟨g, w⟩ w w := ⟨⟨rfl, holds⟩, C.refl w⟩
  obtain ⟨⟨k, w⟩, ⟨_, rfl⟩, _, since⟩ := (C.lockstep.applyValue depth start data all).fromOne result
  exact since

/-- The body of a closure is a course after the call was entered and before its span is left. -/
theorem applyValue {f : Closure} {args : List Value} (holds : I.Holds g w.heap)
    (data : I.Data g (.fn f)) (all : ∀ a ∈ args, I.Data g a) (arity : f.arity = args.length)
    (result : (TreeWalk.applyValue host me depth (.fn f) args).run w = some (v, w')) :
    ∃ x, C.Rel (w.entered me f args) x ∧ w' = x.record (.leave (f.span w.heap)) := by
  rw [TreeWalk.applyValue, evalCall, if_pos arity] at result
  cases depth with
  | zero => cases result
  | succ depth =>
    rw [run_invoke, Option.map_eq_some_iff] at result
    obtain ⟨⟨b, x⟩, ran, eq⟩ := result
    cases eq
    obtain ⟨k, le, entered, allowed⟩ := I.enter holds data all arity
    exact ⟨x, C.evalBlock (by exact entered) allowed ran, rfl⟩

end Course

end TreeWalk
