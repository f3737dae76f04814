import TreeWalk.Builtin.Host
import TreeWalk.Proofs.Value.Part

/-!
# Closures in values

What is said of all the closures that a value contains, inside arrays and wrappers. Such a property
is hereditary: no operator and no standard builtin makes a closure, only a function literal does.
The host is asked not to make any either.

Results:
1. `Value.hereditary_closures`: a property of all closures in a value is hereditary.
2. `Host.MakesNoClosure.closures`: what a builtin of the host gives contains closures of its
   arguments only. So a host that makes no closure keeps every property of them
   (`Host.MakesNoClosure.keeps`).
-/

namespace TreeWalk

/-- All closures in the value satisfy `P`. -/
def Value.Closures (P : Closure → Prop) (v : Value) : Prop :=
  ∀ f, (Value.fn f).PartOf v → P f

namespace Value

variable {P Q : Closure → Prop}

theorem hereditary_closures (P : Closure → Prop) : Hereditary (Value.Closures P) := by
  have parts : Hereditary fun v => ∀ p : Value, p.PartOf v → ∀ f, p = .fn f → P f := by
    refine hereditary_parts fun v plain f eq => ?_
    rw [eq] at plain
    cases plain
  have same : Value.Closures P = fun v => ∀ p : Value, p.PartOf v → ∀ f, p = .fn f → P f := by
    funext v
    refine propext ⟨?_, fun all f part => all _ part f rfl⟩
    rintro all p part f rfl
    exact all f part
  rw [same]
  exact parts

theorem Closures.imp (imp : ∀ f, P f → Q f) {v : Value} (all : v.Closures P) : v.Closures Q :=
  fun f part => imp f (all f part)

theorem closures_fn {f : Closure} : (Value.fn f).Closures P ↔ P f := by
  constructor
  · exact fun all => all f .whole
  · intro holds g part
    have eq : Value.fn g = .fn f := eq_of_partOf part nofun nofun
    cases eq
    exact holds

theorem closures_builtin (b : Builtin) : (Value.builtin b).Closures P := by
  intro g part
  have eq : Value.fn g = .builtin b := eq_of_partOf part nofun nofun
  cases eq

theorem closures_err (message : String) : (Value.err message).Closures P := by
  intro g part
  have eq : Value.fn g = .err message := eq_of_partOf part nofun nofun
  cases eq

theorem closures_ret {v : Value} : (Value.ret v).Closures P ↔ v.Closures P := by
  constructor
  · exact (hereditary_closures P).ret v
  · intro all f part
    cases part with
    | wrapped part => exact all f part

/-- A result that is the message of a fault contains no closure. -/
theorem closures_of_or {v : Value} (result : v.isError = true ∨ v.Closures P) : v.Closures P := by
  rcases result with error | all
  · cases v with
    | err message => exact closures_err message
    | int n | bool b | null | str text | array items | fn f | builtin b | ret v => cases error
  · exact all

end Value

/-! ## The host -/

/-- The builtins of the host give no closure but those in their arguments. -/
def Host.MakesNoClosure (host : Host) : Prop :=
  ∀ id args f, (Value.fn f).PartOf (host id args) → ∃ v ∈ args, (Value.fn f).PartOf v

theorem Host.MakesNoClosure.closures {host : Host} (makesNone : host.MakesNoClosure)
    {P : Closure → Prop} {id : HostId} {args : List Value} (all : ∀ v ∈ args, v.Closures P) :
    (host id args).Closures P := by
  intro f part
  obtain ⟨v, mem, part⟩ := makesNone id args f part
  exact all v mem f part

/-- The builtins of the host give a value with the property on arguments that all have it. -/
def Host.Keeps (host : Host) (D : Value → Prop) : Prop :=
  ∀ id args, (∀ v ∈ args, D v) → D (host id args)

/-- A host that makes no closure keeps what is said of all closures in a value. -/
theorem Host.MakesNoClosure.keeps {host : Host} (makesNone : host.MakesNoClosure)
    (P : Closure → Prop) : host.Keeps (Value.Closures P) :=
  fun _ _ => makesNone.closures

theorem Host.makesNoClosure_empty : Host.empty.MakesNoClosure :=
  fun _ _ _ part => absurd (Value.eq_of_partOf part nofun nofun) nofun

/-- The ready-made builtins keep what is hereditary, if messages of faults and wrappers do. -/
theorem Stock.run_keeps {D : Value → Prop} (h : Hereditary D) (err : ∀ message, D (.err message))
    (ret : ∀ v, D v → D (.ret v)) (b : Stock) {args : List Value} (all : ∀ v ∈ args, D v) :
    D (b.run args) := by
  have first : D (args.head?.getD .null) := h.head fun v found => all v (List.mem_of_head? found)
  cases b with
  | count => exact h.int _
  | strict =>
    cases args with
    | nil => exact err _
    | cons v rest =>
      cases v with
      | int n =>
        cases rest with
        | nil => exact h.int _
        | cons v rest => exact err _
      | bool b | null | str text | array items | fn f | builtin b | ret v | err message =>
        exact err _
  | id => exact first
  | list => exact (h.array args).mpr all
  | ret => exact ret _ first
  | kind =>
    cases args with
    | nil => exact h.null
    | cons v args => exact h.str _

theorem Host.ofStock_keeps {D : Value → Prop} (h : Hereditary D) (err : ∀ message, D (.err message))
    (ret : ∀ v, D v → D (.ret v)) (added : Array Stock) (id : HostId) {args : List Value}
    (all : ∀ v ∈ args, D v) : D (Host.ofStock added id args) := by
  rw [Host.ofStock]
  cases added[id.index]? with
  | none => exact h.null
  | some b => exact b.run_keeps h err ret all

/-- The ready-made builtins make no closures. -/
theorem Host.makesNoClosure_ofStock (added : Array Stock) : (Host.ofStock added).MakesNoClosure :=
  fun id args f part =>
    Host.ofStock_keeps (Value.hereditary_closures fun g => ∃ v ∈ args, (Value.fn g).PartOf v)
      Value.closures_err (fun _ => Value.closures_ret.mpr) added id
      (fun v mem _ part => ⟨v, mem, part⟩) f part

end TreeWalk
