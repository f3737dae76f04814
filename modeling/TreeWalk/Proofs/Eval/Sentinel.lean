import TreeWalk.Proofs.Eval.HeapInvariant
import TreeWalk.Proofs.Scope.Bound
import TreeWalk.Proofs.Value.Part

/-!
# Sentinels never become data

A `return` and the message of a fault travel as values. They do so only on their way out: where no
bound value contains one, evaluation binds none, puts none into an array, passes none as an
argument, and wraps none in another.

The condition on the host is that its builtins make none either, other than to fail.

Results:
1. `cleanInvariant`: clean heaps, as an invariant of evaluation.
2. `no_sentinel_becomes_data`: clean heaps, clean results.
-/

namespace TreeWalk

/-! ## Clean values and heaps -/

/-- No part of the value is a sentinel. -/
def Value.Clean (v : Value) : Prop :=
  ∀ p : Value, p.PartOf v → p.isSentinel = false

/-- No bound value contains a sentinel. -/
def Heap.Clean (h : Heap) : Prop :=
  ∀ c n v, (h.bindings c).get? n = some v → v.Clean

/-- On clean arguments the builtins of the host give a clean value or fail. -/
def Host.KeepsClean (host : Host) : Prop :=
  ∀ id args, (∀ v ∈ args, v.Clean) → (host id args).isError = true ∨ (host id args).Clean

theorem Value.hereditary_clean : Hereditary Value.Clean :=
  Value.hereditary_parts fun v plain => by
    cases v with
    | int n | bool b | null | str text | array items => rfl
    | fn f | builtin b | ret v | err message => cases plain

theorem Value.clean_fn (f : Closure) : (Value.fn f).Clean :=
  (forall_partOf_iff (.fn f) nofun nofun).mpr rfl

theorem Value.clean_builtin (b : Builtin) : (Value.builtin b).Clean :=
  (forall_partOf_iff (.builtin b) nofun nofun).mpr rfl

theorem Value.Clean.notSentinel {v : Value} (clean : v.Clean) : v.isSentinel = false :=
  clean v .whole

/-- A result is the message of a fault, a clean value, or a `return` of one. -/
theorem Value.Carries.clean_cases {v : Value} (h : v.Carries Value.Clean) :
    v.isError = true ∨ v.Clean ∨ ∃ x, v = .ret x ∧ x.Clean := by
  cases v with
  | err message => exact .inl rfl
  | ret x => exact .inr (.inr ⟨x, rfl, h⟩)
  | int n | bool b | null | str text | array items | fn f | builtin b => exact .inr (.inl h)

theorem Heap.clean_iff {h : Heap} : h.Clean ↔ BoundIn (fun _ => True) Value.Clean h :=
  ⟨fun clean c n v _ found => clean c n v found, fun bound c n v => bound c n v trivial⟩

theorem Heap.Clean.resolve {h : Heap} (clean : h.Clean) {s : ScopeId} {name : String} {v : Value}
    (found : h.resolve s name = some v) : v.Clean :=
  (Heap.clean_iff.mp clean).resolve (fun _ _ _ _ => trivial) s trivial found

theorem Heap.Clean.callScope {h : Heap} (clean : h.Clean) (f : Closure) {args : List Value}
    (all : ∀ a ∈ args, a.Clean) : (h.callScope f args).2.Clean :=
  Heap.clean_iff.mpr ((Heap.clean_iff.mp clean).callScope f all)

/-- All ready-made builtins but the one that makes a `return` keep values clean. -/
theorem Host.keepsClean_ofStock {added : Array Stock} (noReturn : Stock.ret ∉ added) :
    (Host.ofStock added).KeepsClean := by
  intro id args all
  rw [Host.ofStock]
  have clean := Value.hereditary_clean
  cases found : added[id.index]? with
  | none => exact .inr clean.null
  | some b =>
    cases b with
    | count => exact .inr (clean.int _)
    | strict =>
      dsimp only
      unfold Stock.run
      split <;> first | exact .inr (clean.int _) | exact .inl rfl | contradiction
    | id => exact .inr (clean.head fun v first => all v (List.mem_of_head? first))
    | list => exact .inr ((clean.array args).mpr all)
    | ret => exact absurd (Array.mem_of_getElem? found) noReturn
    | kind =>
      cases args with
      | nil => exact .inr clean.null
      | cons v args => exact .inr (clean.str _)

/-! ## The invariant -/

/-- Evaluation keeps heaps clean. -/
def cleanInvariant {host : Host} (keeps : host.KeepsClean) : HeapInvariant host OneStage where
  Holds _ := BoundIn (fun _ => True) Value.Clean
  Data _ := Value.Clean
  Allows _ _ _ := True
  data_mono _ clean := clean
  allows_mono _ may := may
  hereditary _ := Value.hereditary_clean
  standard _ me op := Value.clean_builtin (.standard me op)
  host _ all := keeps _ _ all
  look {_ s _ _ _} bound _ found := bound.resolve (fun _ _ _ _ => trivial) s trivial found
  capture _ := Value.clean_fn _
  bind bound _ clean := ⟨.only, le_refl _, bound.define _ _ clean⟩
  enter bound _ all _ := ⟨.only, le_refl _, bound.callScope _ all, fun _ _ => trivial⟩

section Evaluation

variable {host : Host} (keeps : host.KeepsClean) {me : InterpreterId} {depth : Nat} {s : ScopeId}
variable {w w' : World} {v : Value}

include keeps

theorem clean_eval (t : Term) (clean : w.heap.Clean)
    (result : (t.eval host me depth s).run w = some (v, w')) :
    w'.heap.Clean ∧ v.Carries Value.Clean := by
  obtain ⟨_, _, bound, carries⟩ := (cleanInvariant keeps).eval me depth (g := .only) t
    (Heap.clean_iff.mp clean) (fun _ _ => trivial) result
  exact ⟨Heap.clean_iff.mpr bound, carries⟩

theorem clean_evalExprs {es : List (Expr Origin)} {r : Except Value (List Value)}
    (clean : w.heap.Clean)
    (result : (evalExprs host me (invoke host me depth) s es).run w = some (r, w')) :
    w'.heap.Clean ∧ ∀ vs, r = .ok vs → ∀ v ∈ vs, v.Clean := by
  obtain ⟨_, _, bound, all⟩ := (cleanInvariant keeps).evalExprs me depth (g := .only)
    (Heap.clean_iff.mp clean) (fun _ _ => trivial) result
  refine ⟨Heap.clean_iff.mpr bound, ?_⟩
  rintro vs rfl
  exact all

theorem clean_evalProgram {program : Program Origin} (clean : w.heap.Clean)
    (result : (evalProgram host me depth s program).run w = some (v, w')) :
    w'.heap.Clean ∧ (v.isError = true ∨ v.Clean) := by
  obtain ⟨_, _, bound, value⟩ := (cleanInvariant keeps).evalProgram me depth (g := .only)
    (Heap.clean_iff.mp clean) (fun _ _ => trivial) result
  exact ⟨Heap.clean_iff.mpr bound, value⟩

/-- A callee that contains a sentinel is one, and cannot be called. -/
theorem clean_applyValue {callee : Value} {args : List Value} (clean : w.heap.Clean)
    (all : ∀ a ∈ args, a.Clean)
    (result : (applyValue host me depth callee args).run w = some (v, w')) :
    w'.heap.Clean ∧ (v.isError = true ∨ v.Clean) := by
  have called : callee.Clean → w'.heap.Clean ∧ (v.isError = true ∨ v.Clean) := by
    intro data
    obtain ⟨_, _, bound, value⟩ := (cleanInvariant keeps).applyValue me depth (g := .only)
      (Heap.clean_iff.mp clean) data all result
    exact ⟨Heap.clean_iff.mpr bound, value⟩
  cases callee with
  | fn f => exact called (Value.clean_fn f)
  | builtin b => exact called (Value.clean_builtin b)
  | int n | bool b | null | str text | array items | ret x | err message =>
    cases result
    exact ⟨clean, .inl rfl⟩

end Evaluation

/-- Sentinels never become data. From a clean heap every evaluation leads to a clean heap. A
program or a call of a value on clean arguments gives the message of a fault or a clean value. An
expression, a statement or a block gives one of these or a `return` of a clean value. And the
values of arguments and of elements are clean. -/
theorem no_sentinel_becomes_data (host : Host) (keeps : host.KeepsClean) (me : InterpreterId)
    (depth : Nat) (w w' : World) (clean : w.heap.Clean) :
    (∀ s program v, (evalProgram host me depth s program).run w = some (v, w') →
      w'.heap.Clean ∧ (v.isError = true ∨ v.Clean)) ∧
    (∀ callee args v, (∀ a ∈ args, a.Clean) →
      (applyValue host me depth callee args).run w = some (v, w') →
      w'.heap.Clean ∧ (v.isError = true ∨ v.Clean)) ∧
    (∀ (t : Term) s v, (t.eval host me depth s).run w = some (v, w') →
      w'.heap.Clean ∧ (v.isError = true ∨ v.Clean ∨ ∃ x, v = .ret x ∧ x.Clean)) ∧
    ∀ es s vs, (evalExprs host me (invoke host me depth) s es).run w = some (.ok vs, w') →
      w'.heap.Clean ∧ ∀ v ∈ vs, v.Clean := by
  refine ⟨fun s program v result => ?_, fun callee args v all result => ?_,
    fun t s v result => ?_, fun es s vs result => ?_⟩
  · exact clean_evalProgram keeps clean result
  · exact clean_applyValue keeps clean all result
  · obtain ⟨clean, carries⟩ := clean_eval keeps t clean result
    exact ⟨clean, carries.clean_cases⟩
  · obtain ⟨clean, all⟩ := clean_evalExprs keeps clean result
    exact ⟨clean, all vs rfl⟩

/-- The rooted state with a builtin of the host bound to a name. -/
def World.withDouble : World :=
  { World.rooted with
    heap := World.rooted.heap.define ⟨0⟩ "double" (.builtin (.host ⟨0⟩ "double")) }

theorem World.clean_rooted : World.rooted.heap.Clean := by
  intro c n v found
  rw [bindings_rooted] at found
  cases found

theorem World.clean_withDouble : World.withDouble.heap.Clean :=
  Heap.clean_iff.mpr
    (BoundIn.define (Heap.clean_iff.mp clean_rooted) _ _ (Value.clean_builtin _))

/-- A program that doubles the element of an array which a function returned. -/
def doubling : Program Origin :=
  [.bind "f" (.fn ⟨0, 0⟩ ["x"] [.ret (.array [.ident "x"])]),
    .expr (.call (.ident "double") [.index (.call (.ident "f") [.int 2]) (.int 0)])]

theorem no_sentinel_becomes_data_doubling :
    (∃ w', (evalProgram (.ofStock #[.strict]) ⟨0⟩ 2 ⟨0⟩ doubling).run .withDouble =
        some (.int 4, w') ∧ w'.heap.Clean) ∧
      ∃ w', (applyValue (.ofStock #[.strict]) ⟨0⟩ 0 (.builtin (.host ⟨0⟩ "double"))
        [.array []]).run .withDouble = some (.err "strict expects one INTEGER", w') ∧
          w'.heap.Clean := by
  have keeps : (Host.ofStock #[.strict]).KeepsClean := Host.keepsClean_ofStock (by simp)
  refine ⟨⟨_, rfl, ?_⟩, _, rfl, ?_⟩
  · exact ((no_sentinel_becomes_data _ keeps ⟨0⟩ 2 _ _ World.clean_withDouble).1 ⟨0⟩ doubling
      (.int 4) rfl).1
  · refine ((no_sentinel_becomes_data _ keeps ⟨0⟩ 0 .withDouble _ World.clean_withDouble).2.1
      (.builtin (.host ⟨0⟩ "double")) [.array []] _ ?_ rfl).1
    exact List.forall_mem_singleton.mpr ((Value.hereditary_clean.array []).mpr nofun)

end TreeWalk
