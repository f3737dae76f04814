import TreeWalk.Builtin.Standard
import TreeWalk.Value.Operators

/-!
# Hereditary properties of values

A property is hereditary when an array has it exactly when its elements do, what a wrapper holds
has it when the wrapper does, and plain data has it always. No operator and no standard builtin
makes a value of any other parts than those it is given, so each of them keeps every hereditary
property.

Results:
1. `Hereditary.onPrefix`, `Hereditary.onInfix`, `Hereditary.atPosition`: the operators.
2. `Hereditary.compute`: the standard builtins.
-/

namespace TreeWalk

/-- A property that an array shares with its elements, and that plain data has. -/
structure Hereditary (D : Value → Prop) : Prop where
  int : ∀ n, D (.int n)
  bool : ∀ b, D (.bool b)
  null : D .null
  str : ∀ text, D (.str text)
  array : ∀ items, D (.array items) ↔ ∀ v ∈ items, D v
  ret : ∀ v, D (.ret v) → D v

namespace Hereditary

variable {D E : Value → Prop}

theorem and (left : Hereditary D) (right : Hereditary E) : Hereditary fun v => D v ∧ E v where
  int n := ⟨left.int n, right.int n⟩
  bool b := ⟨left.bool b, right.bool b⟩
  null := ⟨left.null, right.null⟩
  str text := ⟨left.str text, right.str text⟩
  array items := by
    rw [left.array, right.array]
    exact ⟨fun all v mem => ⟨all.1 v mem, all.2 v mem⟩,
      fun all => ⟨fun v mem => (all v mem).1, fun v mem => (all v mem).2⟩⟩
  ret v data := ⟨left.ret v data.1, right.ret v data.2⟩

theorem unwrapReturn (h : Hereditary D) {v : Value} (data : D v) : D v.unwrapReturn := by
  cases v with
  | ret v => exact h.ret v data
  | int n | bool b | null | str text | array items | fn f | builtin b | err message => exact data

/-! ## Operators -/

theorem onPrefix (h : Hereditary D) {op : PrefixOp} {v r : Value} (eq : op.apply v = .ok r) :
    D r := by
  cases op with
  | not =>
    cases eq
    exact h.bool _
  | negate =>
    cases v <;> cases eq
    exact h.int _

theorem onIntegers (h : Hereditary D) {op : InfixOp} {a b : Int64} {r : Value}
    (eq : op.onIntegers a b = .ok r) : D r := by
  cases op with
  | add | sub | mul =>
    cases eq
    exact h.int _
  | lt | gt | eq | ne =>
    cases eq
    exact h.bool _
  | div =>
    rw [InfixOp.onIntegers] at eq
    split at eq
    · cases eq
    · cases eq
      exact h.int _

theorem onStrings (h : Hereditary D) {op : InfixOp} {a b : String} {r : Value}
    (eq : op.onStrings a b = .ok r) : D r := by
  cases op <;> cases eq
  · exact h.str _
  · exact h.bool _
  · exact h.bool _

theorem onOthers (h : Hereditary D) {op : InfixOp} {a b : Value} {r : Value}
    (eq : op.onOthers a b = .ok r) : D r := by
  cases op with
  | eq | ne =>
    cases eq
    exact h.bool _
  | add | sub | mul | div | lt | gt =>
    simp only [InfixOp.onOthers] at eq
    split at eq <;> cases eq

theorem onInfix (h : Hereditary D) {op : InfixOp} {a b r : Value} (eq : op.apply a b = .ok r) :
    D r := by
  unfold InfixOp.apply at eq
  split at eq
  · exact h.onIntegers eq
  · exact h.onStrings eq
  · exact h.onOthers eq

theorem elementAt (h : Hereditary D) {items : List Value} (all : ∀ v ∈ items, D v)
    (position : Int64) : D (TreeWalk.elementAt items position) := by
  rw [TreeWalk.elementAt]
  split
  · exact h.null
  · cases found : items[position.toInt.toNat]? with
    | none => exact h.null
    | some v => exact all v (List.mem_of_getElem? found)

theorem atPosition (h : Hereditary D) {a b r : Value} (left : D a) (eq : a.at b = .ok r) :
    D r := by
  unfold Value.at at eq
  split at eq
  · cases eq
    exact h.elementAt ((h.array _).mp left) _
  · cases eq

/-! ## Standard builtins -/

theorem head (h : Hereditary D) {o : Option Value} (all : ∀ v, o = some v → D v) :
    D (o.getD .null) := by
  cases o with
  | none => exact h.null
  | some v => exact all v rfl

theorem length (h : Hereditary D) {args : List Value} {r : Value}
    (eq : Standard.length args = .ok r) : D r := by
  unfold Standard.length at eq
  split at eq <;> cases eq
  · exact h.int _
  · exact h.int _

/-- A builtin on one array keeps the property when what it does to the elements keeps it. -/
theorem onArray (h : Hereditary D) {op : Standard} {f : List Value → Value} {args : List Value}
    {r : Value} (all : ∀ v ∈ args, D v) (keeps : ∀ items, (∀ v ∈ items, D v) → D (f items))
    (eq : op.onArray f args = .ok r) : D r := by
  unfold Standard.onArray at eq
  split at eq <;> cases eq
  exact keeps _ ((h.array _).mp (all _ (List.mem_singleton_self _)))

theorem restOf (h : Hereditary D) {items : List Value} (all : ∀ v ∈ items, D v) :
    D (Standard.restOf items) := by
  cases items with
  | nil => exact h.null
  | cons v items => exact (h.array items).mpr fun v mem => all v (List.mem_cons_of_mem _ mem)

theorem append (h : Hereditary D) {args : List Value} {r : Value} (all : ∀ v ∈ args, D v)
    (eq : Standard.append args = .ok r) : D r := by
  unfold Standard.append at eq
  split at eq
  · next items v =>
    cases eq
    have left : ∀ x ∈ items, D x := (h.array items).mp (all _ (by simp))
    refine (h.array _).mpr fun x mem => ?_
    rcases List.mem_append.mp mem with mem | mem
    · exact left x mem
    · obtain rfl := List.mem_singleton.mp mem
      exact all x (by simp)
  · cases eq
  · cases eq

theorem puts (h : Hereditary D) {i : Interpreter} {args : List Value} {r : Value}
    (eq : (i.puts args).1 = .ok r) : D r := by
  unfold Interpreter.puts at eq
  split at eq
  · cases eq
    exact h.null
  · split at eq
    · cases eq
    · split at eq <;> cases eq
      exact h.null

/-- The standard builtins keep every hereditary property. -/
theorem compute (h : Hereditary D) {i : Interpreter} {op : Standard} {args : List Value}
    {r : Value} (all : ∀ v ∈ args, D v) (eq : (i.compute op args).1 = .ok r) : D r := by
  cases op with
  | len => exact h.length eq
  | first =>
    exact h.onArray all (fun items all => h.head fun v found => all v (List.mem_of_head? found)) eq
  | last =>
    refine h.onArray all (fun items all => h.head fun v found => ?_) eq
    exact all v (List.mem_of_getLast? found)
  | rest => exact h.onArray all (fun items all => h.restOf all) eq
  | push => exact h.append all eq
  | puts => exact h.puts eq

end Hereditary

/-! ## Faults of the operators -/

theorem PrefixOp.apply_ne_unbound (op : PrefixOp) (v : Value) (name : String) :
    op.apply v ≠ .error (.unbound name) := by
  intro eq
  cases op with
  | not => cases eq
  | negate => cases v <;> cases eq

theorem InfixOp.apply_ne_unbound (op : InfixOp) (a b : Value) (name : String) :
    op.apply a b ≠ .error (.unbound name) := by
  intro eq
  unfold InfixOp.apply at eq
  split at eq
  · cases op <;> simp only [InfixOp.onIntegers] at eq <;> try cases eq
    split at eq <;> cases eq
  · cases op <;> cases eq
  · cases op <;> simp only [InfixOp.onOthers] at eq <;> try cases eq
    all_goals split at eq <;> cases eq

theorem Value.at_ne_unbound (a b : Value) (name : String) : a.at b ≠ .error (.unbound name) := by
  intro eq
  unfold Value.at at eq
  split at eq <;> cases eq

end TreeWalk
