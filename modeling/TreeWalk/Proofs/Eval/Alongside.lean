import TreeWalk.Proofs.Eval.HeapInvariant

/-!
# Properties of states alongside an invariant of the heap

An invariant of the heap says nothing about the log, the counts and the sinks. Where something is
to be said of these, it may well depend on the heap: which faults happen, for one, depends on what
is bound. Such a property is proved alongside the invariant, which is not proved again.

Result: `Alongside.evalProgram`, for programs.
-/

namespace TreeWalk

/-- A property of states, and one of the results with which a part of a run ends, which evaluation
keeps where it keeps an invariant of the heap. -/
structure Alongside {host : Host} {γ : Type} [Preorder γ] (I : HeapInvariant host γ)
    (me : InterpreterId) where
  State : World → Prop
  Result : Value → World → Prop
  ofData : ∀ {g v w}, State w → I.Data g v → Result v w
  ofReturn : ∀ {v w}, State w → Result (.ret v) w
  goOn : ∀ {v w}, Result v w → v.isSentinel = false → State w
  bind : ∀ {s name v w}, State w → State { w with heap := w.heap.define s name v }
  /-- A fault is raised. That of a missing name comes from a name that was looked up. -/
  fault : ∀ {g w} {f : EvalFault}, State w → I.Holds g w.heap →
    (∀ name, f = .unbound name → ∃ s, I.Allows g s (.look name) ∧
      w.heap.resolve s name = none ∧ Standard.named? name = none) →
    Result f.toValue (w.raised me f)
  builtin : ∀ {g b args w v w'}, State w → (∀ a ∈ args, I.Data g a) →
    (callBuiltin host b args).run (w.calling me b args.length) = some (v, w') → Result v w'
  enter : ∀ {f args w}, State w → State (w.entered me f args)
  leave : ∀ {g v w} (span : Span), v.Carries (I.Data g) → Result v w →
    Result v.unwrapReturn (w.record (.leave span))

namespace Alongside

variable {host : Host} {γ : Type} [Preorder γ] {I : HeapInvariant host γ} {me : InterpreterId}

/-- The lockstep of a run with itself. -/
def lockstep (A : Alongside I me) : Lockstep host me γ where
  State g w u := (I.lockstep me).State g w u ∧ A.State w
  Data := I.Data
  Result g v w u := (I.lockstep me).Result g v w u ∧ A.Result v w
  Allows := I.Allows
  data_mono := I.data_mono
  allows_mono := I.allows_mono
  hereditary := I.hereditary
  standard g op := I.standard g me op
  ofData state data := ⟨(I.lockstep me).ofData state.1 data, A.ofData state.2 data⟩
  ofReturn state data := ⟨(I.lockstep me).ofReturn state.1 data, A.ofReturn state.2⟩
  goOn result notSentinel := by
    obtain ⟨state, data⟩ := (I.lockstep me).goOn result.1 notSentinel
    exact ⟨⟨state, A.goOn result.2 notSentinel⟩, data⟩
  look state allowed := (I.lockstep me).look state.1 allowed
  capture := I.capture
  bind state allowed data := by
    obtain ⟨k, le, next⟩ := (I.lockstep me).bind state.1 allowed data
    exact ⟨k, le, next, A.bind state.2⟩
  fault state missing := by
    obtain ⟨k, le, result⟩ := (I.lockstep me).fault state.1 missing
    exact ⟨k, le, result, A.fault state.2 state.1.2 missing⟩
  builtin := by
    rintro g b args w u ⟨⟨rfl, holds⟩, state⟩ data all
    have step := (I.lockstep me).builtin ⟨rfl, holds⟩ data all
    cases result : (TreeWalk.callBuiltin host b args).run (u.calling me b args.length) with
    | none =>
      rw [InStep, result]
      exact .none
    | some r =>
      obtain ⟨k, le, h⟩ := step.fromOne result
      exact .ofResults result result ⟨k, le, h, A.builtin state all result⟩
  enter := by
    intro g f args w u state data all arity
    obtain ⟨next, k, entered, allowed, left⟩ := (I.lockstep me).enter state.1 data all arity
    refine ⟨next, k, ⟨entered, A.enter state.2⟩, allowed, ?_⟩
    rintro l v w' u' le ⟨result, kept⟩ ran
    obtain ⟨m, le', ends⟩ := left le result ran
    exact ⟨m, le', ends, A.leave _ result.2.2 kept⟩

/-- A program that starts in a state of the property ends with a result of the property. -/
theorem evalProgram (A : Alongside I me) {depth : Nat} {g : γ} {s : ScopeId}
    {program : Program Origin} {w w' : World} {v : Value} (holds : I.Holds g w.heap)
    (allowed : ∀ use ∈ Block.uses program, I.Allows g s use)
    (state : A.State (w.record (.enter (.program program.length))))
    (result : (TreeWalk.evalProgram host me depth s program).run w = some (v, w')) :
    A.Result v w' := by
  rw [run_evalProgram, Option.map_eq_some_iff] at result
  obtain ⟨⟨b, u⟩, ran, eq⟩ := result
  cases eq
  let start := w.record (.enter (.program program.length))
  have both : A.lockstep.State g start start := ⟨⟨rfl, holds⟩, state⟩
  obtain ⟨k, le, ends, kept⟩ := (Lockstep.evalBlock (A.lockstep.invoke depth) program both
    (I.hereditary g).null allowed).fromOne ran
  exact A.leave _ ends.2.2 kept

end Alongside

end TreeWalk
