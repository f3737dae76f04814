import Mathlib.Order.Basic
import TreeWalk.Proofs.Eval.Equations
import TreeWalk.Proofs.Eval.InStep
import TreeWalk.Proofs.Syntax.Uses
import TreeWalk.Proofs.Value.Hereditary

/-!
# The evaluator in lockstep

Most of what can be said of all evaluations follows one scheme. There is a relation between the
states of two runs, and a property of the values that are about. Both hold at the start, both are
kept by each thing that the evaluator does to a state, and so both hold at the end. Where the two
runs are one, this is an invariant of a single run.

A `Lockstep` is such a relation with what has to be checked of it. What may be done in which scope
is a part of it too (`Allows`), as it may depend on the scope which names are looked up or bound.
Relation and properties may refer to a stage that grows along a run, such as an assignment of
scopes to literals.

Results:
1. `Lockstep.evalExpr`, `Lockstep.evalStmt`, `Lockstep.evalBlock`: the walk.
2. `Lockstep.invoke`, `Lockstep.evalCall`: calls, at every bound on their nesting.
-/

namespace TreeWalk

open Run

/-- The stage of all times, for what does not change along a run. -/
inductive OneStage where
  | only

instance : Preorder OneStage where
  le _ _ := True
  le_refl _ := trivial
  le_trans _ _ _ _ _ := trivial

/-- A relation between the states of two runs which all evaluations keep. -/
structure Lockstep (host : Host) (me : InterpreterId) (γ : Type) [Preorder γ] where
  /-- The states between which the runs go on. -/
  State : γ → World → World → Prop
  /-- The values that may be bound, passed and returned. -/
  Data : γ → Value → Prop
  /-- The results with which a part of a run may end, and the states then. -/
  Result : γ → Value → World → World → Prop
  /-- What may be done in a scope. -/
  Allows : γ → ScopeId → Use Origin → Prop
  data_mono : ∀ {g k v}, g ≤ k → Data g v → Data k v
  allows_mono : ∀ {g k s use}, g ≤ k → Allows g s use → Allows k s use
  hereditary : ∀ g, Hereditary (Data g)
  /-- The standard builtins can be found by name. -/
  standard : ∀ g op, Data g (.builtin (.standard me op))
  ofData : ∀ {g v w u}, State g w u → Data g v → Result g v w u
  ofReturn : ∀ {g v w u}, State g w u → Data g v → Result g (.ret v) w u
  /-- Where there is no sentinel the runs go on. -/
  goOn : ∀ {g v w u}, Result g v w u → v.isSentinel = false → State g w u ∧ Data g v
  look : ∀ {g s name w u}, State g w u → Allows g s (.look name) →
    w.heap.resolve s name = u.heap.resolve s name ∧
      ∀ v, w.heap.resolve s name = some v → Data g v
  capture : ∀ {g s origin params body}, Allows g s (.capture origin params body) →
    Data g (.fn ⟨origin, params, body, s⟩)
  bind : ∀ {g s name v w u}, State g w u → Allows g s (.bind name) → Data g v →
    ∃ k, g ≤ k ∧ State k { w with heap := w.heap.define s name v }
      { u with heap := u.heap.define s name v }
  /-- A fault is raised. That of a missing name comes from a name that was looked up. -/
  fault : ∀ {g w u} {f : EvalFault}, State g w u →
    (∀ name, f = .unbound name → ∃ s, Allows g s (.look name) ∧
      w.heap.resolve s name = none ∧ Standard.named? name = none) →
    ∃ k, g ≤ k ∧ Result k f.toValue (w.raised me f) (u.raised me f)
  builtin : ∀ {g b args w u}, State g w u → Data g (.builtin b) → (∀ v ∈ args, Data g v) →
    InStep (callBuiltin host b args) (w.calling me b args.length) (u.calling me b args.length)
      fun v w' u' => ∃ k, g ≤ k ∧ Result k v w' u'
  /-- A closure is called. Its body starts at a stage of its own. What this comes to when the body
  has ended is what the call comes to, and is a result for the caller. -/
  enter : ∀ {g f args w u}, State g w u → Data g (.fn f) → (∀ v ∈ args, Data g v) →
    f.arity = args.length → w.heap.next = u.heap.next ∧
      ∃ k, State k (w.entered me f args) (u.entered me f args) ∧
        (∀ use ∈ Block.uses f.body, Allows k w.heap.next use) ∧
        ∀ {l v w' u'}, k ≤ l → Result l v w' u' →
          (∃ depth, (applyValue host me depth (.fn f) args).run w =
            some (v.unwrapReturn, w'.record (.leave (f.span w.heap)))) →
          ∃ m, g ≤ m ∧ Result m v.unwrapReturn (w'.record (.leave (f.span w.heap)))
            (u'.record (.leave (f.span u.heap)))

namespace Lockstep

variable {host : Host} {me : InterpreterId} {γ : Type} [Preorder γ] (L : Lockstep host me γ)
variable {g : γ} {w u : World}

/-- The end of a part of a run that started at stage `g`. -/
def Post (g : γ) (v : Value) (w u : World) : Prop :=
  ∃ k, g ≤ k ∧ L.Result k v w u

/-- The end of a list of expressions: values for all of them, or the first sentinel. -/
def PostAll (g : γ) (r : Except Value (List Value)) (w u : World) : Prop :=
  match r with
  | .ok vs => ∃ k, g ≤ k ∧ L.State k w u ∧ ∀ v ∈ vs, L.Data k v
  | .error v => v.isSentinel = true ∧ L.Post g v w u

variable {L}

theorem post_trans {k : γ} (le : g ≤ k) {v : Value} (h : L.Post k v w u) : L.Post g v w u := by
  obtain ⟨l, le', h⟩ := h
  exact ⟨l, le_trans le le', h⟩

theorem postAll_trans {k : γ} (le : g ≤ k) {r : Except Value (List Value)}
    (h : L.PostAll k r w u) : L.PostAll g r w u := by
  cases r with
  | ok vs =>
    obtain ⟨l, le', h⟩ := h
    exact ⟨l, le_trans le le', h⟩
  | error v => exact ⟨h.1, post_trans le h.2⟩

theorem inStep_weaken {k : γ} (le : g ≤ k) {x : Run Value} (h : InStep x w u (L.Post k)) :
    InStep x w u (L.Post g) :=
  h.weaken fun _ _ _ => post_trans le

theorem allows_all_mono {k : γ} {s : ScopeId} {uses : List (Use Origin)} (le : g ≤ k)
    (h : ∀ use ∈ uses, L.Allows g s use) : ∀ use ∈ uses, L.Allows k s use :=
  fun use mem => L.allows_mono le (h use mem)

/-! ## Pieces of the walk -/

theorem pure (state : L.State g w u) {v : Value} (data : L.Data g v) :
    InStep (Pure.pure v) w u (L.Post g) :=
  .pure ⟨g, le_refl g, L.ofData state data⟩

/-- An operand comes first, and what is done with its value starts at a later stage. -/
theorem operand {x : Run Value} {f : Value → Run Value} (h : InStep x w u (L.Post g))
    (next : ∀ k v w' u', g ≤ k → L.State k w' u' → L.Data k v → InStep (f v) w' u' (L.Post k)) :
    InStep (Run.andThen x f) w u (L.Post g) := by
  refine h.andThen (fun v w' u' hv _ => hv) fun v w' u' hv notSentinel => ?_
  obtain ⟨k, le, hv⟩ := hv
  obtain ⟨state, data⟩ := L.goOn hv notSentinel
  exact inStep_weaken le (next k v w' u' le state data)

theorem raise (state : L.State g w u) {f : EvalFault} (ne : ∀ name, f ≠ .unbound name) :
    InStep (Run.raise me f) w u (L.Post g) :=
  .ofResults (run_raise me f w) (run_raise me f u)
    (L.fault state fun name eq => absurd eq (ne name))

theorem orRaise (state : L.State g w u) {r : Except EvalFault Value}
    (data : ∀ v, r = .ok v → L.Data g v) (ne : ∀ name, r ≠ .error (.unbound name)) :
    InStep (Run.orRaise me r) w u (L.Post g) := by
  cases r with
  | ok v => exact pure state (data v rfl)
  | error f => exact raise state fun name eq => ne name (congrArg _ eq)

theorem evalName (state : L.State g w u) {s : ScopeId} {name : String}
    (allowed : L.Allows g s (.look name)) : InStep (evalName me s name) w u (L.Post g) := by
  obtain ⟨same, data⟩ := L.look state allowed
  have left := run_evalName me s name w
  have right := run_evalName me s name u
  rw [← same] at right
  cases found : w.heap.resolve s name with
  | some v =>
    rw [found] at left right
    exact .ofResults left right ⟨g, le_refl g, L.ofData state (data v found)⟩
  | none =>
    rw [found] at left right
    cases named : Standard.named? name with
    | some op =>
      rw [named] at left right
      exact .ofResults left right ⟨g, le_refl g, L.ofData state (L.standard g op)⟩
    | none =>
      rw [named] at left right
      refine .ofResults left right (L.fault state fun n eq => ?_)
      cases eq
      exact ⟨s, allowed, found, named⟩

variable (L) in
/-- The calls of closures go in step when closures and arguments are data. -/
def Calls (call : Closure → List Value → Run Value) : Prop :=
  ∀ ⦃g w u f args⦄, L.State g w u → L.Data g (.fn f) → (∀ v ∈ args, L.Data g v) →
    f.arity = args.length → InStep (call f args) w u (L.Post g)

theorem evalCall {call : Closure → List Value → Run Value} (calls : L.Calls call)
    (state : L.State g w u) {callee : Value} {args : List Value} (data : L.Data g callee)
    (all : ∀ v ∈ args, L.Data g v) :
    InStep (evalCall host me call callee args) w u (L.Post g) := by
  cases callee with
  | fn f =>
    rw [TreeWalk.evalCall]
    split
    · next arity => exact calls state data all arity
    · exact raise state fun _ eq => nomatch eq
  | builtin b => exact .after rfl rfl (L.builtin state data all)
  | int n | bool b | null | str text | array items | ret v | err message =>
    exact raise state fun _ eq => nomatch eq

/-! ## The walk -/

variable {call : Closure → List Value → Run Value}

mutual

theorem evalExpr (calls : L.Calls call) : (e : Expr Origin) → ∀ {g s w u}, L.State g w u →
    (∀ use ∈ e.uses, L.Allows g s use) → InStep (evalExpr host me call s e) w u (L.Post g)
  | .ident name, g, s, w, u, state, allowed => evalName state (allowed _ (by simp [Expr.uses]))
  | .int n, g, s, w, u, state, allowed => pure state ((L.hereditary g).int n)
  | .str text, g, s, w, u, state, allowed => pure state ((L.hereditary g).str text)
  | .bool b, g, s, w, u, state, allowed => pure state ((L.hereditary g).bool b)
  | .prefixOp op e, g, s, w, u, state, allowed => by
    refine operand (evalExpr calls e state allowed) fun k v w' u' le state data => ?_
    exact orRaise state (fun r eq => (L.hereditary k).onPrefix eq) (op.apply_ne_unbound v)
  | .infixOp l op r, g, s, w, u, state, allowed => by
    simp only [Expr.uses, List.forall_mem_append] at allowed
    refine operand (evalExpr calls l state allowed.1) fun k a w' u' le state data => ?_
    have allowedRight := allows_all_mono le allowed.2
    refine operand (evalExpr calls r state allowedRight) fun k b w' u' le state data => ?_
    exact orRaise state (fun r eq => (L.hereditary k).onInfix eq) (op.apply_ne_unbound a b)
  | .ifElse c t none, g, s, w, u, state, allowed => by
    simp only [Expr.uses, List.forall_mem_append] at allowed
    refine operand (evalExpr calls c state allowed.1) fun k v w' u' le state data => ?_
    split
    · exact evalBlock calls t state ((L.hereditary k).null) (allows_all_mono le allowed.2)
    · exact pure state (L.hereditary k).null
  | .ifElse c t (some e), g, s, w, u, state, allowed => by
    simp only [Expr.uses, List.forall_mem_append] at allowed
    refine operand (evalExpr calls c state allowed.1) fun k v w' u' le state data => ?_
    split
    · exact evalBlock calls t state ((L.hereditary k).null) (allows_all_mono le allowed.2.1)
    · exact evalBlock calls e state ((L.hereditary k).null) (allows_all_mono le allowed.2.2)
  | .fn origin params body, g, s, w, u, state, allowed =>
    pure state (L.capture (allowed _ (by simp [Expr.uses])))
  | .call f args, g, s, w, u, state, allowed => by
    simp only [Expr.uses, List.forall_mem_append] at allowed
    refine operand (evalExpr calls f state allowed.1) fun k callee w' u' le state data => ?_
    refine (evalExprs calls args state (allows_all_mono le allowed.2)).bind fun r w' u' h => ?_
    cases r with
    | ok values =>
      obtain ⟨l, le, state, all⟩ := h
      exact inStep_weaken le (evalCall calls state (L.data_mono le data) all)
    | error v => exact .pure h.2
  | .array es, g, s, w, u, state, allowed => by
    refine (evalExprs calls es state allowed).bind fun r w' u' h => ?_
    cases r with
    | ok values =>
      obtain ⟨k, le, state, all⟩ := h
      exact inStep_weaken le (pure state (((L.hereditary k).array values).mpr all))
    | error v => exact .pure h.2
  | .index l i, g, s, w, u, state, allowed => by
    simp only [Expr.uses, List.forall_mem_append] at allowed
    refine operand (evalExpr calls l state allowed.1) fun k a w' u' le state left => ?_
    have allowedRight := allows_all_mono le allowed.2
    refine operand (evalExpr calls i state allowedRight) fun m b w' u' le state data => ?_
    exact orRaise state (fun r eq => (L.hereditary m).atPosition (L.data_mono le left) eq)
      (Value.at_ne_unbound a b)

theorem evalExprs (calls : L.Calls call) : (es : List (Expr Origin)) → ∀ {g s w u}, L.State g w u →
    (∀ use ∈ Expr.usesOfAll es, L.Allows g s use) →
    InStep (evalExprs host me call s es) w u (L.PostAll g)
  | [], g, s, w, u, state, allowed =>
    .pure ⟨g, le_refl g, state, fun v mem => absurd mem List.not_mem_nil⟩
  | e :: es, g, s, w, u, state, allowed => by
    simp only [Expr.usesOfAll, List.forall_mem_append] at allowed
    refine (evalExpr calls e state allowed.1).bind fun v w' u' h => ?_
    split
    · next sentinel => exact .pure ⟨sentinel, h⟩
    · next notSentinel =>
      obtain ⟨k, le, h⟩ := h
      obtain ⟨state, data⟩ := L.goOn h (by simpa using notSentinel)
      refine (evalExprs calls es state (allows_all_mono le allowed.2)).bind fun r w' u' h => ?_
      cases r with
      | ok values =>
        obtain ⟨l, le', state, all⟩ := h
        refine .pure ⟨l, le_trans le le', state, ?_⟩
        exact List.forall_mem_cons.mpr ⟨L.data_mono le' data, all⟩
      | error sentinel => exact .pure (postAll_trans le h)

theorem evalStmt (calls : L.Calls call) : (stmt : Stmt Origin) → ∀ {g s w u}, L.State g w u →
    (∀ use ∈ stmt.uses, L.Allows g s use) → InStep (evalStmt host me call s stmt) w u (L.Post g)
  | .bind name e, g, s, w, u, state, allowed => by
    simp only [Stmt.uses, List.forall_mem_append, List.forall_mem_singleton] at allowed
    refine operand (evalExpr calls e state allowed.1) fun k v w' u' le state data => ?_
    obtain ⟨l, le', state⟩ := L.bind state (L.allows_mono le allowed.2) data
    exact .ofResults rfl rfl ⟨l, le', L.ofData state (L.hereditary l).null⟩
  | .ret e, g, s, w, u, state, allowed => by
    refine operand (evalExpr calls e state allowed) fun k v w' u' le state data => ?_
    exact .pure ⟨k, le_refl k, L.ofReturn state data⟩
  | .expr e, g, s, w, u, state, allowed => evalExpr calls e state allowed

theorem evalBlock (calls : L.Calls call) :
    (block : Block Origin) → ∀ {g s before w u}, L.State g w u → L.Data g before → (∀ use ∈ Block.uses block, L.Allows g s use) →
    InStep (evalBlock host me call s before block) w u (L.Post g)
  | [], g, s, before, w, u, state, data, allowed => pure state data
  | stmt :: rest, g, s, before, w, u, state, data, allowed => by
    simp only [Block.uses, List.forall_mem_append] at allowed
    refine operand (evalStmt calls stmt state allowed.1) fun k v w' u' le state data => ?_
    exact evalBlock calls rest state data (allows_all_mono le allowed.2)

end

/-! ## Calls -/

variable (L) in
/-- Calls go in step at every bound on their nesting. -/
theorem invoke (depth : Nat) : L.Calls (invoke host me depth) := by
  induction depth with
  | zero =>
    -- Both runs are cut short where the bound is reached.
    intro g w u f args state data all arity
    exact .cutShort
  | succ depth ih =>
    intro g w u f args state data all arity
    -- The body runs at a stage of its own, which the caller never sees.
    obtain ⟨next, k, entered, allowed, left⟩ := L.enter state data all arity
    have right := run_invoke host me depth f args u
    rw [← next] at right
    refine .map (run_invoke host me depth f args w) right
      (evalBlock ih f.body entered (L.hereditary k).null allowed).ran ?_
    rintro v w' u' ⟨⟨l, le, h⟩, ran⟩
    refine ⟨rfl, left le h ⟨depth + 1, ?_⟩⟩
    rw [TreeWalk.applyValue, TreeWalk.evalCall, if_pos arity, run_invoke, ran]
    rfl

/-- A call of any value, at every bound on the nesting of calls. -/
theorem applyValue (depth : Nat) (state : L.State g w u) {callee : Value} {args : List Value}
    (data : L.Data g callee) (all : ∀ v ∈ args, L.Data g v) :
    InStep (applyValue host me depth callee args) w u (L.Post g) :=
  evalCall (L.invoke depth) state data all

end Lockstep

end TreeWalk
