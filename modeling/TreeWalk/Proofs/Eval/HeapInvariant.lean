import TreeWalk.Proofs.Eval.Lockstep
import TreeWalk.Proofs.Eval.Term

/-!
# Invariants of the heap

A property of the scopes and of the values in them that one run keeps. It is a lockstep of the run
with itself, in which all that does not touch the heap has been checked already.

Results:
1. `HeapInvariant.eval`: the evaluation of a term.
2. `HeapInvariant.evalProgram`, `HeapInvariant.applyValue`: programs and calls, whose result was
   unwrapped.
3. `HeapInvariant.any`: the invariant of all runs.
4. `heap_after_eval`: what evaluation keeps of the scopes alone.
-/

namespace TreeWalk

/-! ## Results -/

/-- What a result is about has the property: what is returned, or the value itself where nothing is
returned. The message of a fault is about nothing. -/
def Value.Carries (D : Value → Prop) : Value → Prop
  | .ret v => D v
  | .err _ => True
  | v => D v

namespace Value

variable {D : Value → Prop}

theorem carries_of (h : Hereditary D) {v : Value} (data : D v) : v.Carries D := by
  cases v with
  | ret v => exact h.ret v data
  | err message => trivial
  | int n | bool b | null | str text | array items | fn f | builtin b => exact data

theorem carries_of_isError {v : Value} (error : v.isError = true) : v.Carries D := by
  cases v with
  | err message => trivial
  | int n | bool b | null | str text | array items | fn f | builtin b | ret v => cases error

theorem Carries.data {v : Value} (h : v.Carries D) (notSentinel : v.isSentinel = false) : D v := by
  cases v with
  | ret v => cases notSentinel
  | err message => cases notSentinel
  | int n | bool b | null | str text | array items | fn f | builtin b => exact h

/-- A result that was unwrapped is the message of a fault or has the property. -/
theorem Carries.unwrapReturn {v : Value} (h : v.Carries D) :
    v.unwrapReturn.isError = true ∨ D v.unwrapReturn := by
  cases v with
  | err message => exact .inl rfl
  | int n | bool b | null | str text | array items | fn f | builtin b | ret v => exact .inr h

theorem carries_of_or (h : Hereditary D) {v : Value} (result : v.isError = true ∨ D v) :
    v.Carries D := by
  rcases result with error | data
  · exact carries_of_isError error
  · exact carries_of h data

end Value

/-! ## Invariants -/

/-- A property of heaps, with the values that may be bound in them, which evaluation keeps. -/
structure HeapInvariant (host : Host) (γ : Type) [Preorder γ] where
  Holds : γ → Heap → Prop
  /-- The values that may be bound, passed and returned. -/
  Data : γ → Value → Prop
  /-- What may be done in a scope. -/
  Allows : γ → ScopeId → Use Origin → Prop
  data_mono : ∀ {g k v}, g ≤ k → Data g v → Data k v
  allows_mono : ∀ {g k s use}, g ≤ k → Allows g s use → Allows k s use
  hereditary : ∀ g, Hereditary (Data g)
  standard : ∀ g me op, Data g (.builtin (.standard me op))
  /-- A builtin of the host gives such a value or fails. -/
  host : ∀ {g id name args}, Data g (.builtin (.host id name)) → (∀ v ∈ args, Data g v) →
    (host id args).isError = true ∨ Data g (host id args)
  look : ∀ {g s name h v}, Holds g h → Allows g s (.look name) → h.resolve s name = some v →
    Data g v
  capture : ∀ {g s origin params body}, Allows g s (.capture origin params body) →
    Data g (.fn ⟨origin, params, body, s⟩)
  bind : ∀ {g s name h v}, Holds g h → Allows g s (.bind name) → Data g v →
    ∃ k, g ≤ k ∧ Holds k (h.define s name v)
  enter : ∀ {g f args h}, Holds g h → Data g (.fn f) → (∀ v ∈ args, Data g v) →
    f.arity = args.length → ∃ k, g ≤ k ∧ Holds k (h.callScope f args).2 ∧
      ∀ use ∈ Block.uses f.body, Allows k h.next use

namespace HeapInvariant

variable {host : Host} {γ : Type} [Preorder γ]

/-- What a builtin gives is the message of a fault or has the property. -/
theorem callBuiltin (I : HeapInvariant host γ) {g : γ} {b : Builtin} {args : List Value}
    (data : I.Data g (.builtin b)) (all : ∀ v ∈ args, I.Data g v) {w w' : World} {v : Value}
    (result : (callBuiltin host b args).run w = some (v, w')) :
    w'.heap = w.heap ∧ (v.isError = true ∨ I.Data g v) := by
  cases b with
  | standard owner op =>
    rw [TreeWalk.callBuiltin, run_standard] at result
    cases result
    refine ⟨World.heap_computed w owner op args, ?_⟩
    cases eq : ((w.interpreter owner).compute op args).1 with
    | ok v => exact .inr ((I.hereditary g).compute all eq)
    | error fault => exact .inl rfl
  | host id name =>
    cases result
    exact ⟨rfl, I.host data all⟩

/-- The lockstep of a run with itself. -/
def lockstep (I : HeapInvariant host γ) (me : InterpreterId) : Lockstep host me γ where
  State g w u := u = w ∧ I.Holds g w.heap
  Data := I.Data
  Result g v w u := u = w ∧ I.Holds g w.heap ∧ v.Carries (I.Data g)
  Allows := I.Allows
  data_mono := I.data_mono
  allows_mono := I.allows_mono
  hereditary := I.hereditary
  standard g op := I.standard g me op
  ofData := by
    rintro g v w u ⟨rfl, holds⟩ data
    exact ⟨rfl, holds, Value.carries_of (I.hereditary g) data⟩
  ofReturn := by
    rintro g v w u ⟨rfl, holds⟩ data
    exact ⟨rfl, holds, data⟩
  goOn := by
    rintro g v w u ⟨rfl, holds, carries⟩ notSentinel
    exact ⟨⟨rfl, holds⟩, carries.data notSentinel⟩
  look := by
    rintro g s name w u ⟨rfl, holds⟩ allowed
    exact ⟨rfl, fun v found => I.look holds allowed found⟩
  capture := I.capture
  bind := by
    rintro g s name v w u ⟨rfl, holds⟩ allowed data
    obtain ⟨k, le, holds⟩ := I.bind holds allowed data
    exact ⟨k, le, rfl, holds⟩
  fault := by
    rintro g w u f ⟨rfl, holds⟩ -
    exact ⟨g, le_refl g, rfl, holds, trivial⟩
  builtin := by
    rintro g b args w u ⟨rfl, holds⟩ data all
    cases result : (TreeWalk.callBuiltin host b args).run (u.calling me b args.length) with
    | none =>
      rw [InStep, result]
      exact .none
    | some r =>
      obtain ⟨same, value⟩ := I.callBuiltin data all result
      refine .ofResults result result ⟨g, le_refl g, rfl, ?_, ?_⟩
      · rw [same]
        exact holds
      · exact Value.carries_of_or (I.hereditary g) value
  enter := by
    rintro g f args w u ⟨rfl, holds⟩ data all arity
    obtain ⟨k, le, entered, allowed⟩ := I.enter holds data all arity
    refine ⟨rfl, k, ⟨rfl, entered⟩, allowed, ?_⟩
    rintro l v w' u' le' ⟨rfl, holds, carries⟩ -
    exact ⟨l, le_trans le le', rfl, holds,
      Value.carries_of_or (I.hereditary l) carries.unwrapReturn⟩

variable (I : HeapInvariant host γ) (me : InterpreterId) (depth : Nat)
variable {g : γ} {s : ScopeId} {w w' : World} {v : Value}

/-! ## What evaluation keeps -/

theorem evalBlock {block : Block Origin} (holds : I.Holds g w.heap)
    (allowed : ∀ use ∈ Block.uses block, I.Allows g s use)
    (result : (evalBlock host me (invoke host me depth) s .null block).run w = some (v, w')) :
    ∃ k, g ≤ k ∧ I.Holds k w'.heap ∧ v.Carries (I.Data k) := by
  obtain ⟨k, le, -, holds, carries⟩ :=
    (Lockstep.evalBlock ((I.lockstep me).invoke depth) block ⟨rfl, holds⟩ (I.hereditary g).null
      allowed).fromOne result
  exact ⟨k, le, holds, carries⟩

theorem evalProgram {program : Program Origin} (holds : I.Holds g w.heap)
    (allowed : ∀ use ∈ Block.uses program, I.Allows g s use)
    (result : (evalProgram host me depth s program).run w = some (v, w')) :
    ∃ k, g ≤ k ∧ I.Holds k w'.heap ∧ (v.isError = true ∨ I.Data k v) := by
  rw [run_evalProgram, Option.map_eq_some_iff] at result
  obtain ⟨⟨b, u⟩, ran, eq⟩ := result
  cases eq
  obtain ⟨k, le, holds, carries⟩ := I.evalBlock me depth (by exact holds) allowed ran
  exact ⟨k, le, holds, carries.unwrapReturn⟩

/-- The evaluation of a term keeps the invariant, at a later stage. -/
theorem eval (t : Term) (holds : I.Holds g w.heap) (allowed : ∀ use ∈ t.uses, I.Allows g s use)
    (result : (t.eval host me depth s).run w = some (v, w')) :
    ∃ k, g ≤ k ∧ I.Holds k w'.heap ∧ v.Carries (I.Data k) := by
  have calls := (I.lockstep me).invoke depth
  cases t with
  | expr e =>
    obtain ⟨k, le, -, holds, carries⟩ :=
      (Lockstep.evalExpr calls e ⟨rfl, holds⟩ allowed).fromOne result
    exact ⟨k, le, holds, carries⟩
  | stmt st =>
    obtain ⟨k, le, -, holds, carries⟩ :=
      (Lockstep.evalStmt calls st ⟨rfl, holds⟩ allowed).fromOne result
    exact ⟨k, le, holds, carries⟩
  | block b => exact I.evalBlock me depth holds allowed result
  | program p =>
    obtain ⟨k, le, holds, value⟩ := I.evalProgram me depth holds allowed result
    exact ⟨k, le, holds, Value.carries_of_or (I.hereditary k) value⟩

theorem evalExprs {es : List (Expr Origin)} {r : Except Value (List Value)}
    (holds : I.Holds g w.heap) (allowed : ∀ use ∈ Expr.usesOfAll es, I.Allows g s use)
    (result : (evalExprs host me (invoke host me depth) s es).run w = some (r, w')) :
    ∃ k, g ≤ k ∧ I.Holds k w'.heap ∧
      match r with
      | .ok vs => ∀ v ∈ vs, I.Data k v
      | .error v => v.isSentinel = true ∧ v.Carries (I.Data k) := by
  have h := (Lockstep.evalExprs ((I.lockstep me).invoke depth) es ⟨rfl, holds⟩ allowed).fromOne
    result
  cases r with
  | ok vs =>
    obtain ⟨k, le, state, all⟩ := h
    exact ⟨k, le, state.2, all⟩
  | error v =>
    obtain ⟨sentinel, k, le, -, holds, carries⟩ := h
    exact ⟨k, le, holds, sentinel, carries⟩

theorem invoke {f : Closure} {args : List Value} (holds : I.Holds g w.heap)
    (data : I.Data g (.fn f)) (all : ∀ v ∈ args, I.Data g v) (arity : f.arity = args.length)
    (result : (invoke host me depth f args).run w = some (v, w')) :
    ∃ k, g ≤ k ∧ I.Holds k w'.heap ∧ (v.isError = true ∨ I.Data k v) := by
  cases depth with
  | zero => cases result
  | succ depth =>
    rw [run_invoke, Option.map_eq_some_iff] at result
    obtain ⟨⟨b, u⟩, ran, eq⟩ := result
    cases eq
    obtain ⟨k, le, entered, allowed⟩ := I.enter holds data all arity
    obtain ⟨l, le', holds, carries⟩ := I.evalBlock me depth (by exact entered) allowed ran
    exact ⟨l, le_trans le le', holds, carries.unwrapReturn⟩

/-- A call keeps the invariant. Its result is the message of a fault or has the property. -/
theorem applyValue {callee : Value} {args : List Value} (holds : I.Holds g w.heap)
    (data : I.Data g callee) (all : ∀ v ∈ args, I.Data g v)
    (result : (applyValue host me depth callee args).run w = some (v, w')) :
    ∃ k, g ≤ k ∧ I.Holds k w'.heap ∧ (v.isError = true ∨ I.Data k v) := by
  cases callee with
  | fn f =>
    rw [TreeWalk.applyValue, evalCall] at result
    split at result
    · next arity => exact I.invoke me depth holds data all arity result
    · cases result
      exact ⟨g, le_refl g, holds, .inl rfl⟩
  | builtin b =>
    obtain ⟨same, value⟩ := I.callBuiltin data all result
    refine ⟨g, le_refl g, ?_, value⟩
    rw [same]
    exact holds
  | int n | bool b | null | str text | array items | ret v | err message =>
    cases result
    exact ⟨g, le_refl g, holds, .inl rfl⟩

end HeapInvariant

/-! ## Runs in general -/

/-- Every value has the property that says nothing. -/
theorem hereditary_true : Hereditary fun _ => True where
  int _ := trivial
  bool _ := trivial
  null := trivial
  str _ := trivial
  array _ := ⟨fun _ _ _ => trivial, fun _ => trivial⟩
  ret _ _ := trivial

/-- The invariant that says nothing, for what can be said of all runs. -/
def HeapInvariant.any (host : Host) (γ : Type) [Preorder γ] : HeapInvariant host γ where
  Holds _ _ := True
  Data _ _ := True
  Allows _ _ _ := True
  data_mono _ data := data
  allows_mono _ allowed := allowed
  hereditary _ := hereditary_true
  standard _ _ _ := trivial
  host _ _ := .inr trivial
  look _ _ _ := trivial
  capture _ := trivial
  bind {g _ _ _ _} _ _ _ := ⟨g, le_refl g, trivial⟩
  enter {g _ _ _} _ _ _ _ := ⟨g, le_refl g, trivial, fun _ _ => trivial⟩

/-- The invariant that speaks of the scopes alone. They are bound names in, and made for calls. -/
def HeapInvariant.ofHeaps (host : Host) (γ : Type) [Preorder γ] {P : Heap → Prop}
    (define : ∀ {h} (s : ScopeId) (name : String) (v : Value), P h → P (h.define s name v))
    (callScope : ∀ {h} (f : Closure) (args : List Value), P h → P (h.callScope f args).2) :
    HeapInvariant host γ where
  Holds _ := P
  Data _ _ := True
  Allows _ _ _ := True
  data_mono _ data := data
  allows_mono _ allowed := allowed
  hereditary _ := hereditary_true
  standard _ _ _ := trivial
  host _ _ := .inr trivial
  look _ _ _ := trivial
  capture _ := trivial
  bind {g s name _ v} holds _ _ := ⟨g, le_refl g, define s name v holds⟩
  enter {g f args _} holds _ _ _ := ⟨g, le_refl g, callScope f args holds, fun _ _ => trivial⟩

/-- What is kept where names are bound and where scopes are made for calls, evaluation keeps. -/
theorem heap_after_eval {host : Host} {me : InterpreterId} {depth : Nat} {t : Term} {s : ScopeId}
    {w w' : World} {v : Value} {P : Heap → Prop}
    (define : ∀ {h} (s : ScopeId) (name : String) (v : Value), P h → P (h.define s name v))
    (callScope : ∀ {h} (f : Closure) (args : List Value), P h → P (h.callScope f args).2)
    (start : P w.heap) (result : (t.eval host me depth s).run w = some (v, w')) : P w'.heap := by
  obtain ⟨_, -, holds, -⟩ := (HeapInvariant.ofHeaps host OneStage define callScope).eval me depth
    (g := .only) t start (fun _ _ => trivial) result
  exact holds

end TreeWalk
