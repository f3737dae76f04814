import Mathlib.Logic.Function.Defs
import TreeWalk.Builtin.Host
import TreeWalk.Builtin.Standard
import TreeWalk.Value.Operators

/-!
# Renaming the owners of builtins

A standard builtin is that of one interpreter. Here the interpreters are renamed in the builtins of a
value, inside arrays and wrappers as well. Of all that is done with values only comparing them looks
at the owners, and it does not see a renaming that keeps different owners different.

Results:
1. `Value.rename_inj`, `Value.rename_id`: renamed values are equal when the values are.
2. `PrefixOp.apply_rename`, `InfixOp.apply_rename`, `Value.at_rename`: the operators.
3. `Stock.run_rename`: the ready-made builtins of hosts.
4. `Interpreter.compute_rename`: the standard builtins, which leave an interpreter the same.
-/

namespace TreeWalk

/-! ## Renamed values -/

/-- The builtin of the interpreter that the owner is renamed to. -/
def Builtin.rename (ρ : InterpreterId → InterpreterId) : Builtin → Builtin
  | .standard owner op => .standard (ρ owner) op
  | .host id name => .host id name

mutual

/-- The value with the owners of all its builtins renamed. -/
def Value.rename (ρ : InterpreterId → InterpreterId) : Value → Value
  | .int n => .int n
  | .bool b => .bool b
  | .null => .null
  | .str text => .str text
  | .array items => .array (Value.renameAll ρ items)
  | .fn f => .fn f
  | .builtin b => .builtin (b.rename ρ)
  | .ret v => .ret (v.rename ρ)
  | .err message => .err message

/-- The values of a list, renamed. -/
def Value.renameAll (ρ : InterpreterId → InterpreterId) : List Value → List Value
  | [] => []
  | v :: vs => v.rename ρ :: Value.renameAll ρ vs

end

variable {ρ : InterpreterId → InterpreterId}

theorem Value.renameAll_eq_map (ρ : InterpreterId → InterpreterId) (vs : List Value) :
    Value.renameAll ρ vs = vs.map (Value.rename ρ) := by
  induction vs with
  | nil => rfl
  | cons v vs ih => rw [Value.renameAll, ih, List.map_cons]

namespace Value

@[simp] theorem kind_rename (v : Value) : (v.rename ρ).kind = v.kind := by
  cases v <;> rfl

@[simp] theorem isTruthy_rename (v : Value) : (v.rename ρ).isTruthy = v.isTruthy := by
  cases v <;> rfl

@[simp] theorem isSentinel_rename (v : Value) : (v.rename ρ).isSentinel = v.isSentinel := by
  cases v <;> rfl

theorem unwrapReturn_rename (v : Value) :
    (v.rename ρ).unwrapReturn = v.unwrapReturn.rename ρ := by
  cases v <;> rfl

mutual

/-- The owner of a builtin is not shown. -/
theorem render_rename (style : RenderStyle) : (v : Value) →
    (v.rename ρ).render style = v.render style
  | .array items => by rw [rename, render, render, renderList_rename style items]
  | .ret v => by rw [rename, render, render, render_rename style v]
  | .int _ | .bool _ | .null | .str _ | .fn _ | .builtin _ | .err _ => rfl

theorem renderList_rename (style : RenderStyle) : (vs : List Value) →
    renderList style (renameAll ρ vs) = renderList style vs
  | [] => rfl
  | v :: vs => by
    rw [renameAll, renderList, renderList, render_rename style v, renderList_rename style vs]

end

end Value

/-! ## Equality -/

theorem Builtin.rename_inj (inj : Function.Injective ρ) {a b : Builtin} :
    a.rename ρ = b.rename ρ ↔ a = b := by
  cases a <;> cases b <;> simp [Builtin.rename, inj.eq_iff]

mutual

/-- Where different owners stay different, different values do. -/
theorem Value.rename_inj (inj : Function.Injective ρ) : (a b : Value) →
    (a.rename ρ = b.rename ρ ↔ a = b)
  | .int _, b => by cases b <;> simp [Value.rename]
  | .bool _, b => by cases b <;> simp [Value.rename]
  | .null, b => by cases b <;> simp [Value.rename]
  | .str _, b => by cases b <;> simp [Value.rename]
  | .array as, b => by cases b <;> simp [Value.rename, Value.renameAll_inj inj as]
  | .fn _, b => by cases b <;> simp [Value.rename]
  | .builtin _, b => by cases b <;> simp [Value.rename, Builtin.rename_inj inj]
  | .ret a, b => by cases b <;> simp [Value.rename, Value.rename_inj inj a]
  | .err _, b => by cases b <;> simp [Value.rename]

theorem Value.renameAll_inj (inj : Function.Injective ρ) : (as bs : List Value) →
    (Value.renameAll ρ as = Value.renameAll ρ bs ↔ as = bs)
  | [], bs => by cases bs <;> simp [Value.renameAll]
  | a :: as, bs => by
    cases bs <;> simp [Value.renameAll, Value.rename_inj inj a, Value.renameAll_inj inj as]

end

mutual

/-- Nothing changes where no interpreter is renamed. -/
theorem Value.rename_id : (v : Value) → v.rename id = v
  | .array items => by rw [Value.rename, Value.renameAll_id items]
  | .ret v => by rw [Value.rename, Value.rename_id v]
  | .builtin b => by cases b <;> rfl
  | .int _ | .bool _ | .null | .str _ | .fn _ | .err _ => rfl

theorem Value.renameAll_id : (vs : List Value) → Value.renameAll id vs = vs
  | [] => rfl
  | v :: vs => by rw [Value.renameAll, Value.rename_id v, Value.renameAll_id vs]

end

theorem Value.rename_eq_id : Value.rename id = id :=
  funext Value.rename_id

/-! ## Operators -/

theorem PrefixOp.apply_rename (op : PrefixOp) (v : Value) :
    op.apply (v.rename ρ) = (op.apply v).map (Value.rename ρ) := by
  cases op with
  | not =>
    rw [PrefixOp.apply, PrefixOp.apply, Value.isTruthy_rename]
    rfl
  | negate => cases v <;> rfl

/-- The result for two integers contains no builtin. -/
theorem InfixOp.onIntegers_rename (op : InfixOp) (a b : Int64) :
    (op.onIntegers a b).map (Value.rename ρ) = op.onIntegers a b := by
  cases op with
  | div =>
    rw [InfixOp.onIntegers]
    split <;> rfl
  | add | sub | mul | lt | gt | eq | ne => rfl

theorem InfixOp.onStrings_rename (op : InfixOp) (a b : String) :
    (op.onStrings a b).map (Value.rename ρ) = op.onStrings a b := by
  cases op <;> rfl

theorem InfixOp.onOthers_rename (inj : Function.Injective ρ) (op : InfixOp) (l r : Value) :
    op.onOthers (l.rename ρ) (r.rename ρ) = (op.onOthers l r).map (Value.rename ρ) := by
  cases op with
  | eq =>
    simp only [InfixOp.onOthers, Value.rename_inj inj]
    rfl
  | ne =>
    simp only [InfixOp.onOthers, ne_eq, Value.rename_inj inj]
    rfl
  | add | sub | mul | div | lt | gt =>
    simp only [InfixOp.onOthers, Value.kind_rename]
    split <;> rfl

theorem InfixOp.apply_rename (inj : Function.Injective ρ) (op : InfixOp) (l r : Value) :
    op.apply (l.rename ρ) (r.rename ρ) = (op.apply l r).map (Value.rename ρ) := by
  cases l with
  | int a =>
    cases r with
    | int b => exact (op.onIntegers_rename a b).symm
    | bool _ | null | str _ | array _ | fn _ | builtin _ | ret _ | err _ =>
      refine Eq.trans ?_ (op.onOthers_rename inj _ _)
      rfl
  | str a =>
    cases r with
    | str b => exact (op.onStrings_rename a b).symm
    | int _ | bool _ | null | array _ | fn _ | builtin _ | ret _ | err _ =>
      refine Eq.trans ?_ (op.onOthers_rename inj _ _)
      rfl
  | bool _ | null | array _ | fn _ | builtin _ | ret _ | err _ =>
    refine Eq.trans ?_ (op.onOthers_rename inj _ _)
    rfl

theorem elementAt_rename (items : List Value) (position : Int64) :
    elementAt (items.map (Value.rename ρ)) position = (elementAt items position).rename ρ := by
  rw [elementAt, elementAt]
  split
  · rfl
  · rw [List.getElem?_map]
    cases items[position.toInt.toNat]? <;> rfl

theorem Value.at_rename (left position : Value) :
    (left.rename ρ).at (position.rename ρ) = (left.at position).map (Value.rename ρ) := by
  cases left with
  | array items =>
    cases position with
    | int i =>
      have element : elementAt (items.map (Value.rename ρ)) i = (elementAt items i).rename ρ :=
        elementAt_rename items i
      rw [← Value.renameAll_eq_map] at element
      exact congrArg Except.ok element
    | bool _ | null | str _ | array _ | fn _ | builtin _ | ret _ | err _ => rfl
  | int _ | bool _ | null | str _ | fn _ | builtin _ | ret _ | err _ => rfl

/-! ## Builtins of the host -/

/-- What the builtins of the host do does not depend on the owners of builtins. -/
def Host.Ignores (host : Host) (ρ : InterpreterId → InterpreterId) : Prop :=
  ∀ id args, host id (args.map (Value.rename ρ)) = (host id args).rename ρ

theorem Stock.run_rename (b : Stock) (args : List Value) :
    b.run (args.map (Value.rename ρ)) = (b.run args).rename ρ := by
  cases b with
  | count =>
    rw [run, run, List.length_map]
    rfl
  | strict =>
    match args with
    | [] => rfl
    | [v] => cases v <;> rfl
    | u :: v :: more => cases u <;> rfl
  | list => exact congrArg Value.array (Value.renameAll_eq_map ρ args).symm
  | id | ret => cases args <;> rfl
  | kind =>
    cases args with
    | nil => rfl
    | cons v more => exact congrArg (fun k => Value.str k.name) v.kind_rename

theorem Host.ignores_ofStock (added : Array Stock) : (ofStock added).Ignores ρ := by
  intro id args
  rw [ofStock, ofStock]
  cases added[id.index]? with
  | none => rfl
  | some b => exact b.run_rename args

theorem Host.ignores_id (host : Host) : host.Ignores id := by
  intro i args
  rw [Value.rename_eq_id, List.map_id]
  rfl

/-! ## Standard builtins -/

namespace Standard

theorem length_rename (args : List Value) :
    length (args.map (Value.rename ρ)) = (length args).map (Value.rename ρ) := by
  cases args with
  | nil => rfl
  | cons v others =>
    cases others with
    | nil =>
      cases v with
      | array items =>
        show Except.ok (Value.int (Int64.ofNat (Value.renameAll ρ items).length)) = _
        rw [Value.renameAll_eq_map, List.length_map]
        rfl
      | int _ | bool _ | null | str _ | fn _ | builtin _ | ret _ | err _ => rfl
    | cons u more =>
      have count : (List.map (Value.rename ρ) (v :: u :: more)).length = (v :: u :: more).length :=
        List.length_map _
      cases v <;> exact congrArg (fun n => Except.error (BuiltinFault.wrongCount n 1)) count

/-- A builtin on one array keeps a renaming when what it does with the elements does. -/
theorem onArray_rename (op : Standard) {f : List Value → Value}
    (keeps : ∀ items, f (items.map (Value.rename ρ)) = (f items).rename ρ) (args : List Value) :
    op.onArray f (args.map (Value.rename ρ)) = (op.onArray f args).map (Value.rename ρ) := by
  cases args with
  | nil => rfl
  | cons v others =>
    cases others with
    | nil =>
      cases v with
      | array items =>
        show Except.ok (f (Value.renameAll ρ items)) = _
        rw [Value.renameAll_eq_map, keeps]
        rfl
      | int _ | bool _ | null | str _ | fn _ | builtin _ | ret _ | err _ => rfl
    | cons u more =>
      have count : (List.map (Value.rename ρ) (v :: u :: more)).length = (v :: u :: more).length :=
        List.length_map _
      cases v <;> exact congrArg (fun n => Except.error (BuiltinFault.wrongCount n 1)) count

theorem firstOf_rename (items : List Value) :
    firstOf (items.map (Value.rename ρ)) = (firstOf items).rename ρ := by
  cases items <;> rfl

theorem lastOf_rename (items : List Value) :
    lastOf (items.map (Value.rename ρ)) = (lastOf items).rename ρ := by
  rw [lastOf, lastOf, List.getLast?_map]
  cases items.getLast? <;> rfl

theorem restOf_rename (items : List Value) :
    restOf (items.map (Value.rename ρ)) = (restOf items).rename ρ := by
  cases items with
  | nil => rfl
  | cons v items => exact congrArg Value.array (Value.renameAll_eq_map ρ items).symm

theorem append_rename (args : List Value) :
    append (args.map (Value.rename ρ)) = (append args).map (Value.rename ρ) := by
  match args with
  | [] => rfl
  | [v] => cases v <;> rfl
  | [.array items, v] =>
    show Except.ok (Value.array (Value.renameAll ρ items ++ [v.rename ρ])) =
      Except.ok (Value.array (Value.renameAll ρ (items ++ [v])))
    rw [Value.renameAll_eq_map, Value.renameAll_eq_map, List.map_append]
    rfl
  | [.int _, _] | [.bool _, _] | [.null, _] | [.str _, _] | [.fn _, _] | [.builtin _, _]
  | [.ret _, _] | [.err _, _] => rfl
  | u :: v :: t :: more =>
    have count : (List.map (Value.rename ρ) (u :: v :: t :: more)).length =
        (u :: v :: t :: more).length := List.length_map _
    cases u <;> exact congrArg (fun n => Except.error (BuiltinFault.wrongCount n 2)) count

end Standard

namespace Interpreter

variable (x : Interpreter) (args : List Value)

/-- What is written does not show owners. -/
theorem puts_rename : x.puts (args.map (Value.rename ρ)) = x.puts args := by
  have texts : (args.map (Value.rename ρ)).map x.render = args.map x.render := by
    rw [List.map_map]
    exact congrArg (List.map · args) (funext fun v => v.render_rename x.config.style)
  rw [puts, texts, puts]

theorem puts_value_rename : (x.puts args).1.map (Value.rename ρ) = (x.puts args).1 := by
  rw [puts]
  split
  · rfl
  · split
    · rfl
    · split <;> rfl

/-- A standard builtin on renamed arguments gives the renamed value, and does the same. -/
theorem compute_rename (op : Standard) :
    x.compute op (args.map (Value.rename ρ)) =
      ((x.compute op args).1.map (Value.rename ρ), (x.compute op args).2) := by
  cases op with
  | len => exact congrArg (·, x) (Standard.length_rename args)
  | first => exact congrArg (·, x) (Standard.onArray_rename .first Standard.firstOf_rename args)
  | last => exact congrArg (·, x) (Standard.onArray_rename .last Standard.lastOf_rename args)
  | rest => exact congrArg (·, x) (Standard.onArray_rename .rest Standard.restOf_rename args)
  | push => exact congrArg (·, x) (Standard.append_rename args)
  | puts =>
    rw [compute, compute, puts_rename, puts_value_rename]

end Interpreter

end TreeWalk
