import Mathlib.Algebra.Group.Nat.Defs
import Mathlib.Data.List.Forall2
import Mathlib.Logic.Function.Iterate
import TreeWalk.Proofs.Eval.Stepping
import TreeWalk.Proofs.Eval.Term

/-!
# Arrays

The elements of an array by their positions, and five builtins: how many there are, the first of
them, the last, all but the first, and all of them with one more. Each has a rule of its own for the
ends of an array and for the empty one. That they are all about one sequence is said in the language
itself, by expressions that come to the same.

None of the operations writes to a scope, and none depends on what was counted, reported or written
before. So their laws are laws of a heap, and hold from every state with that heap.

Results:
1. `Site.Yields.infixOp`, `Site.Yields.index`, `Site.Yields.standard`: what is made of operands.
2. `firstOf_eq_elementAt`, `lastOf_eq_elementAt`: the ends of an array by their positions.
3. `Site.yields_restOver`: the rest of the rest, and so on.
4. `array_operations_agree`: the laws of the operations.
-/

namespace TreeWalk

open Run

/-! ## What expressions come to -/

/-- Where an expression is evaluated: by which interpreter of which host, with which calls of
functions, in which scope of which heap. -/
structure Site where
  host : Host
  me : InterpreterId
  call : Closure → List Value → Run Value
  scope : ScopeId
  heap : Heap

namespace Site

/-- From every state with the heap of the site the expression comes to the value, and the heap is
left as it is. -/
def Yields (p : Site) (e : Expr Origin) (v : Value) : Prop :=
  ∀ w : World, w.heap = p.heap →
    ∃ u : World, (evalExpr p.host p.me p.call p.scope e).run w = some (v, u) ∧ u.heap = p.heap

/-- Both expressions come to the same value. -/
def YieldSame (p : Site) (e e' : Expr Origin) : Prop :=
  ∃ v, p.Yields e v ∧ p.Yields e' v

variable {p : Site}

theorem yields_int (p : Site) (n : Int64) : p.Yields (.int n) (.int n) :=
  fun w same => ⟨w, rfl, same⟩

theorem yields_ident {name : String} {v : Value} (found : p.heap.resolve p.scope name = some v) :
    p.Yields (.ident name) v :=
  fun w same => ⟨w, run_ident (same ▸ found), same⟩

/-- What is done with the operands comes next, whatever it is. -/
theorem run_operands_of {es : List (Expr Origin)} {values : List Value}
    (operands : List.Forall₂ p.Yields es values) (data : ∀ v ∈ values, v.isSentinel = false)
    {w : World} (same : w.heap = p.heap) (k : List Value → Run Value) :
    ∃ u : World, (withOperands (evalExprs p.host p.me p.call p.scope es) k).run w =
      (k values).run u ∧ u.heap = p.heap := by
  induction operands generalizing w k with
  | nil =>
    rw [withOperands_nil]
    exact ⟨w, rfl, same⟩
  | @cons e v es values first _ ih =>
    obtain ⟨dataFirst, dataOthers⟩ := List.forall_mem_cons.mp data
    obtain ⟨u, run, kept⟩ := first w same
    rw [run_operand run dataFirst]
    exact ih dataOthers kept _

namespace Yields

theorem infixOp {l r : Expr Origin} {op : InfixOp} {a b v : Value} (left : p.Yields l a)
    (leftData : a.isSentinel = false) (right : p.Yields r b) (rightData : b.isSentinel = false)
    (value : op.apply a b = .ok v) : p.Yields (.infixOp l op r) v := by
  intro w same
  obtain ⟨u, first, kept⟩ := left w same
  obtain ⟨u', second, kept'⟩ := right u kept
  exact ⟨u', run_infixOp first leftData second rightData value, kept'⟩

theorem index {l i : Expr Origin} {items : List Value} {n : Int64}
    (left : p.Yields l (.array items)) (position : p.Yields i (.int n)) :
    p.Yields (.index l i) (elementAt items n) := by
  intro w same
  obtain ⟨u, first, kept⟩ := left w same
  obtain ⟨u', second, kept'⟩ := position u kept
  exact ⟨u', run_index first rfl second rfl rfl, kept'⟩

end Yields

end Site

/-- The builtin comes to the value without fault, and leaves its interpreter alone. -/
def Standard.Gives (op : Standard) (args : List Value) (v : Value) : Prop :=
  ∀ i : Interpreter, i.compute op args = (.ok v, i)

/-- A builtin called by its name. -/
def Standard.callOn (op : Standard) (es : List (Expr Origin)) : Expr Origin :=
  .call (.ident op.name) es

/-- A builtin by its name, where no scope binds that name. -/
theorem Site.Yields.standard {p : Site} {op : Standard} {es : List (Expr Origin)}
    {values : List Value} {v : Value} (unbound : p.heap.resolve p.scope op.name = none)
    (operands : List.Forall₂ p.Yields es values) (data : ∀ v ∈ values, v.isSentinel = false)
    (gives : op.Gives values v) : p.Yields (op.callOn es) v := by
  intro w same
  have callee : (evalExpr p.host p.me p.call p.scope (.ident op.name)).run w =
      some (.builtin (.standard p.me op), w) :=
    run_standardName (same ▸ unbound) op.named?_name
  obtain ⟨u, run, kept⟩ := run_operands_of operands data same
    (evalCall p.host p.me p.call (.builtin (.standard p.me op)))
  refine ⟨u.called p.me op values, ?_, ?_⟩
  · rw [Standard.callOn, run_call callee rfl, run,
      run_applyStandard fun i => congrArg Prod.fst (gives i)]
  · rw [World.heap_called, kept]

/-! ## Elements -/

section Elements

variable {items : List Value} {i : Int64}

theorem elementAt_of_eq {k : Nat} (position : i.toInt = k) :
    elementAt items i = items[k]?.getD .null := by
  have notNegative : ¬ i < 0 := by
    rw [Int64.lt_iff_toInt_lt, position]
    exact Int.not_lt.mpr (Int.natCast_nonneg k)
  rw [elementAt, if_neg notNegative, position, Int.toNat_natCast]

theorem elementAt_of_lt {k : Nat} (lt : k < items.length) (position : i.toInt = k) :
    elementAt items i = items[k] := by
  rw [elementAt_of_eq position, List.getElem?_eq_getElem lt, Option.getD_some]

/-- In front of an array and behind it there is null. -/
theorem elementAt_of_outside (outside : i.toInt < 0 ∨ items.length ≤ i.toInt) :
    elementAt items i = .null := by
  rcases outside with negative | behind
  · rw [elementAt, if_pos (Int64.lt_iff_toInt_lt.mpr negative)]
  · obtain ⟨k, position⟩ := Int.eq_ofNat_of_zero_le (Int.le_trans (Int.natCast_nonneg _) behind)
    rw [elementAt_of_eq position, List.getElem?_eq_none (by omega), Option.getD_none]

theorem elementAt_ofNat {k : Nat} (fits : k < 2 ^ 63) :
    elementAt items (Int64.ofNat k) = items[k]?.getD .null :=
  elementAt_of_eq (Int64.toInt_ofNat_of_lt fits)

theorem firstOf_eq_elementAt : Standard.firstOf items = elementAt items 0 := by
  rw [Standard.firstOf, List.head?_eq_getElem?]
  exact (elementAt_ofNat (k := 0) (by decide)).symm

/-- The last element is the one before the length. Of the empty array this is the position minus
one, where there is null. -/
theorem lastOf_eq_elementAt (fits : items.length < 2 ^ 63) :
    Standard.lastOf items = elementAt items (Int64.ofNat items.length - 1) := by
  rw [Standard.lastOf, List.getLast?_eq_getElem?]
  cases items with
  | nil => rfl
  | cons a as =>
    have before : Int64.ofNat (a :: as).length - 1 = Int64.ofNat as.length := by
      rw [List.length_cons, Int64.ofNat_add]
      exact Int64.add_sub_cancel _ _
    rw [before, elementAt_ofNat (Nat.lt_of_succ_lt fits)]
    rfl

end Elements

/-! ## The builtins -/

/-- The builtins on arrays. -/
def arrayBuiltins : List Standard :=
  [.len, .first, .last, .rest, .push]

/-- Takes the rest of the rest, and so on, so many times. -/
def restOver (k : Nat) (x : Expr Origin) : Expr Origin :=
  (fun e => Standard.rest.callOn [e])^[k] x

namespace Site

/-- The names of the builtins on arrays mean the builtins. -/
def Unshadowed (p : Site) : Prop :=
  ∀ op ∈ arrayBuiltins, p.heap.resolve p.scope op.name = none

variable {p : Site} {x : Expr Origin} {items : List Value}

/-- A builtin on one array. -/
theorem Yields.onArray (unshadowed : p.Unshadowed) (array : p.Yields x (.array items))
    {op : Standard} (mem : op ∈ arrayBuiltins) {v : Value} (gives : op.Gives [.array items] v) :
    p.Yields (op.callOn [x]) v :=
  .standard (unshadowed op mem) (.cons array .nil) (List.forall_mem_singleton.mpr rfl) gives

theorem Yields.len (unshadowed : p.Unshadowed) (array : p.Yields x (.array items)) :
    p.Yields (Standard.len.callOn [x]) (.int (Int64.ofNat items.length)) :=
  array.onArray unshadowed (by decide) fun _ => rfl

theorem Yields.first (unshadowed : p.Unshadowed) (array : p.Yields x (.array items)) :
    p.Yields (Standard.first.callOn [x]) (Standard.firstOf items) :=
  array.onArray unshadowed (by decide) fun _ => rfl

theorem Yields.last (unshadowed : p.Unshadowed) (array : p.Yields x (.array items)) :
    p.Yields (Standard.last.callOn [x]) (Standard.lastOf items) :=
  array.onArray unshadowed (by decide) fun _ => rfl

theorem Yields.rest (unshadowed : p.Unshadowed) (array : p.Yields x (.array items)) :
    p.Yields (Standard.rest.callOn [x]) (Standard.restOf items) :=
  array.onArray unshadowed (by decide) fun _ => rfl

/-- As long as there are elements to take, so many of them are gone. -/
theorem yields_restOver (unshadowed : p.Unshadowed) (array : p.Yields x (.array items)) {k : Nat}
    (le : k ≤ items.length) : p.Yields (restOver k x) (.array (items.drop k)) := by
  induction k with
  | zero => exact array
  | succ k ih =>
    have rest := (ih (Nat.le_of_succ_le le)).rest unshadowed
    rw [List.drop_eq_getElem_cons le] at rest
    rw [restOver, Function.iterate_succ_apply']
    exact rest

/-- When all elements are gone, there is no rest. -/
theorem yields_restOver_null (unshadowed : p.Unshadowed) (array : p.Yields x (.array items)) :
    p.Yields (restOver (items.length + 1) x) .null := by
  have rest := (yields_restOver unshadowed array (Nat.le_refl _)).rest unshadowed
  rw [List.drop_length] at rest
  rw [restOver, Function.iterate_succ_apply']
  exact rest

theorem yieldSame_first (unshadowed : p.Unshadowed) (array : p.Yields x (.array items)) :
    p.YieldSame (Standard.first.callOn [x]) (.index x (.int 0)) := by
  have first := array.first unshadowed
  rw [firstOf_eq_elementAt] at first
  exact ⟨_, first, array.index (p.yields_int 0)⟩

theorem yieldSame_last (unshadowed : p.Unshadowed) (array : p.Yields x (.array items))
    (fits : items.length < 2 ^ 63) :
    p.YieldSame (Standard.last.callOn [x])
      (.index x (.infixOp (Standard.len.callOn [x]) .sub (.int 1))) := by
  have last := array.last unshadowed
  rw [lastOf_eq_elementAt fits] at last
  have position : p.Yields (.infixOp (Standard.len.callOn [x]) .sub (.int 1))
      (.int (Int64.ofNat items.length - 1)) :=
    (array.len unshadowed).infixOp rfl (p.yields_int 1) rfl rfl
  exact ⟨_, last, array.index position⟩

/-- The first of what is left is the element at the position of how many were taken. -/
theorem yieldSame_restOver (unshadowed : p.Unshadowed) (array : p.Yields x (.array items))
    (fits : items.length < 2 ^ 63) {k : Nat} (le : k ≤ items.length) :
    p.YieldSame (Standard.first.callOn [restOver k x]) (.index x (.int (Int64.ofNat k))) := by
  have first := (yields_restOver unshadowed array le).first unshadowed
  have element : Standard.firstOf (items.drop k) = elementAt items (Int64.ofNat k) := by
    rw [Standard.firstOf, List.head?_drop, elementAt_ofNat (Nat.lt_of_le_of_lt le fits)]
  rw [element] at first
  exact ⟨_, first, array.index (p.yields_int _)⟩

section Longer

variable {v : Value} {q : Expr Origin}

/-- An array with one value more is longer by one. -/
theorem yieldSame_len_longer (unshadowed : p.Unshadowed) (array : p.Yields x (.array items))
    (longer : p.Yields q (.array (items ++ [v]))) :
    p.YieldSame (Standard.len.callOn [q]) (.infixOp (Standard.len.callOn [x]) .add (.int 1)) := by
  have length := longer.len unshadowed
  rw [List.length_append, Int64.ofNat_add] at length
  exact ⟨_, length, (array.len unshadowed).infixOp rfl (p.yields_int 1) rfl rfl⟩

/-- It has the same elements where there were elements. -/
theorem yieldSame_index_longer (array : p.Yields x (.array items))
    (longer : p.Yields q (.array (items ++ [v]))) {i : Int64} (notNegative : 0 ≤ i.toInt)
    (lt : i.toInt < items.length) : p.YieldSame (.index q (.int i)) (.index x (.int i)) := by
  obtain ⟨k, position⟩ := Int.eq_ofNat_of_zero_le notNegative
  have within : k < items.length := by omega
  have same : elementAt (items ++ [v]) i = elementAt items i := by
    rw [elementAt_of_eq position, elementAt_of_eq position, List.getElem?_append_left within]
  have element := longer.index (p.yields_int i)
  rw [same] at element
  exact ⟨_, element, array.index (p.yields_int i)⟩

/-- It has the value at the position of the old length. -/
theorem yields_index_longer (unshadowed : p.Unshadowed) (array : p.Yields x (.array items))
    (fits : items.length < 2 ^ 63) (longer : p.Yields q (.array (items ++ [v]))) :
    p.Yields (.index q (Standard.len.callOn [x])) v := by
  have element := longer.index (array.len unshadowed)
  rw [elementAt_ofNat fits, List.getElem?_concat_length] at element
  exact element

theorem yields_last_longer (unshadowed : p.Unshadowed)
    (longer : p.Yields q (.array (items ++ [v]))) : p.Yields (Standard.last.callOn [q]) v := by
  have last := longer.last unshadowed
  rw [Standard.lastOf, List.getLast?_concat] at last
  exact last

end Longer

end Site

/-! ## The laws -/

/-- The laws of an array of any values, to which an expression comes. It has fewer than 2 ^ 63
elements, so that its length is an integer.

* An index gives the element at its position, and null where there is none: for every integer below
  zero and from the length on.
* The first element is at the position zero and the last at the length less one. Of the empty array
  both are null.
* To take the rest `k` times leaves `k` elements less, the first of which is the one at `k`. Once
  more than there are elements it gives null.
* An array that is not empty is its first element followed by its rest.
* With a value added, whatever value it is, the length is one more. The elements up to the old
  length are the same. The value is the element at the old length, and it is the last. -/
theorem array_operations_agree (p : Site) (unshadowed : p.Unshadowed) {x : Expr Origin}
    {items : List Value} (array : p.Yields x (.array items)) (fits : items.length < 2 ^ 63) :
    (∀ (y : Expr Origin) (i : Int64), p.Yields y (.int i) →
      (∀ (k : Nat) (lt : k < items.length), i.toInt = k → p.Yields (.index x y) items[k]) ∧
      (i.toInt < 0 ∨ items.length ≤ i.toInt → p.Yields (.index x y) .null)) ∧
    p.YieldSame (Standard.first.callOn [x]) (.index x (.int 0)) ∧
    p.YieldSame (Standard.last.callOn [x])
      (.index x (.infixOp (Standard.len.callOn [x]) .sub (.int 1))) ∧
    (∀ k ≤ items.length, ∃ left, left.length = items.length - k ∧
      p.Yields (restOver k x) (.array left) ∧
      p.YieldSame (Standard.first.callOn [restOver k x]) (.index x (.int (Int64.ofNat k)))) ∧
    p.Yields (restOver (items.length + 1) x) .null ∧
    (items ≠ [] → ∃ a as, items = a :: as ∧ p.Yields (Standard.first.callOn [x]) a ∧
      p.Yields (Standard.rest.callOn [x]) (.array as)) ∧
    ∀ v, ∃ longer, longer.length = items.length + 1 ∧
      Standard.push.Gives [.array items, v] (.array longer) ∧
      (∀ y, p.Yields y v → v.isSentinel = false →
        p.Yields (Standard.push.callOn [x, y]) (.array longer)) ∧
      ∀ q, p.Yields q (.array longer) →
        p.YieldSame (Standard.len.callOn [q])
          (.infixOp (Standard.len.callOn [x]) .add (.int 1)) ∧
        (∀ i : Int64, 0 ≤ i.toInt → i.toInt < items.length →
          p.YieldSame (.index q (.int i)) (.index x (.int i))) ∧
        p.Yields (.index q (Standard.len.callOn [x])) v ∧
        p.Yields (Standard.last.callOn [q]) v := by
  refine ⟨fun y i position => ⟨fun k lt eq => ?_, fun outside => ?_⟩,
    Site.yieldSame_first unshadowed array, Site.yieldSame_last unshadowed array fits,
    fun k le => ?_, Site.yields_restOver_null unshadowed array, fun notEmpty => ?_, fun v => ?_⟩
  · rw [← elementAt_of_lt lt eq]
    exact array.index position
  · rw [← elementAt_of_outside outside]
    exact array.index position
  · exact ⟨items.drop k, List.length_drop, Site.yields_restOver unshadowed array le,
      Site.yieldSame_restOver unshadowed array fits le⟩
  · cases items with
    | nil => exact absurd rfl notEmpty
    | cons a as => exact ⟨a, as, rfl, array.first unshadowed, array.rest unshadowed⟩
  · refine ⟨items ++ [v], List.length_append, fun _ => rfl, fun y added data => ?_,
      fun q longer => ⟨Site.yieldSame_len_longer unshadowed array longer,
        fun i => Site.yieldSame_index_longer array longer,
        Site.yields_index_longer unshadowed array fits longer,
        Site.yields_last_longer unshadowed longer⟩⟩
    refine .standard (unshadowed .push (by decide)) (.cons array (.cons added .nil)) ?_ fun _ => rfl
    exact List.forall_mem_cons.mpr ⟨rfl, List.forall_mem_singleton.mpr data⟩

/-- A root scope that binds a name to an array of two values, one of them a fault. -/
def Site.pairing : Site where
  host := .empty
  me := ⟨0⟩
  call := invoke .empty ⟨0⟩ 0
  scope := ⟨0⟩
  heap := World.rooted.heap.define ⟨0⟩ "a" (.array [.int 4, .err "lost"])

/-- The last element of that array is a fault by either expression. There is nothing in front of the
array, and nothing left of it when three elements are taken. -/
theorem array_operations_agree_pairing :
    Site.pairing.Unshadowed ∧ Site.pairing.Yields (.ident "a") (.array [.int 4, .err "lost"]) ∧
      Site.pairing.Yields (.index (.ident "a") (.int (-1))) .null ∧
      Site.pairing.YieldSame (Standard.last.callOn [.ident "a"])
        (.index (.ident "a") (.infixOp (Standard.len.callOn [.ident "a"]) .sub (.int 1))) ∧
      Site.pairing.Yields (restOver 3 (.ident "a")) .null := by
  have unshadowed : Site.pairing.Unshadowed := by
    unfold Site.Unshadowed
    decide
  have array : Site.pairing.Yields (.ident "a") (.array [.int 4, .err "lost"]) :=
    Site.yields_ident rfl
  obtain ⟨index, -, last, -, null, -⟩ :=
    array_operations_agree .pairing unshadowed array (by decide)
  have outside := (index _ _ (Site.pairing.yields_int (-1))).2 (.inl (by decide))
  exact ⟨unshadowed, array, outside, last, null⟩

end TreeWalk
