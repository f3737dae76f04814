import Mathlib.Data.Int.ModEq
import TreeWalk.Proofs.Eval.Stepping
import TreeWalk.Proofs.Eval.Term

/-!
# Integer arithmetic

Integers have 64 bits, and addition, subtraction, multiplication and negation wrap around. A tree of
these operations wraps at every node. That comes to the same as to compute with exact integers
throughout and to wrap once at the end, as to wrap is a homomorphism of rings.

Division does not wrap, but for one quotient: the least integer divided by minus one. The product
of that quotient with its divisor wraps as well, and so the law of division holds for all operands.

Results:
1. `Expr.Arithmetic.exists_exactValue`: the exact values of trees.
2. `Expr.run_exactValue`: a tree evaluates to its exact value, wrapped.
3. `arithmetic_wraps_once`: the integer that it evaluates to, and which trees evaluate alike.
4. `remainder_law`: what a dividend differs by from quotient times divisor.
-/

namespace TreeWalk

/-! ## Exact values -/

/-- A tree of integers, names of which `named` holds, negations, additions, subtractions and
multiplications. -/
inductive Expr.Arithmetic (named : String → Prop) : Expr Origin → Prop
  | int (n : Int64) : Arithmetic named (.int n)
  | ident {name : String} : named name → Arithmetic named (.ident name)
  | negate {e : Expr Origin} : Arithmetic named e → Arithmetic named (.prefixOp .negate e)
  | infixOp {l r : Expr Origin} {op : InfixOp} : op ∈ [.add, .sub, .mul] → Arithmetic named l →
      Arithmetic named r → Arithmetic named (.infixOp l op r)

/-- The integer that is the value of a name, if an integer is. -/
def Heap.integer? (h : Heap) (s : ScopeId) (name : String) : Option Int64 :=
  match h.resolve s name with
  | some (.int n) => some n
  | _ => none

/-- An operator on exact integers. Division and the comparisons are left out. -/
def InfixOp.exactValue (a : Int) (op : InfixOp) (b : Int) : Option Int :=
  match op with
  | .add => some (a + b)
  | .sub => some (a - b)
  | .mul => some (a * b)
  | _ => none

/-- The exact value of a tree of arithmetic, however large it is. A tree with anything else in it
has none. -/
def Expr.exactValue (named : String → Option Int64) : Expr Origin → Option Int
  | .int n => some n.toInt
  | .ident name => (named name).map Int64.toInt
  | .prefixOp .negate e => (e.exactValue named).map fun z => -z
  | .infixOp l op r =>
      (l.exactValue named).bind fun a => (r.exactValue named).bind fun b => op.exactValue a b
  | _ => none

section Trees

variable {host : Host} {me : InterpreterId} {call : Closure → List Value → Run Value}
variable {s : ScopeId} {w : World}

theorem Heap.integer?_eq_some_iff {h : Heap} {name : String} {n : Int64} :
    h.integer? s name = some n ↔ h.resolve s name = some (.int n) := by
  unfold integer?
  split
  · next m found => simp [found]
  · next other =>
    refine iff_of_false nofun fun found => other n found

/-- A tree of arithmetic over names of integers has an exact value. -/
theorem Expr.Arithmetic.exists_exactValue {h : Heap} {e : Expr Origin}
    (tree : e.Arithmetic fun name => ∃ n, h.resolve s name = some (.int n)) :
    ∃ z, e.exactValue (h.integer? s) = some z := by
  induction tree with
  | int n => exact ⟨_, rfl⟩
  | ident found =>
    obtain ⟨n, found⟩ := found
    rw [Expr.exactValue, Heap.integer?_eq_some_iff.mpr found]
    exact ⟨_, rfl⟩
  | negate _ ih =>
    obtain ⟨z, value⟩ := ih
    rw [Expr.exactValue, value]
    exact ⟨_, rfl⟩
  | @infixOp l r op mem _ _ ihl ihr =>
    obtain ⟨a, left⟩ := ihl
    obtain ⟨b, right⟩ := ihr
    simp only [List.mem_cons, List.not_mem_nil, or_false] at mem
    rw [Expr.exactValue, left, right]
    rcases mem with rfl | rfl | rfl
    · exact ⟨a + b, rfl⟩
    · exact ⟨a - b, rfl⟩
    · exact ⟨a * b, rfl⟩

/-- The operators wrap what is computed exactly. -/
theorem InfixOp.apply_ofInt {a b z : Int} {op : InfixOp} (value : op.exactValue a b = some z) :
    op.apply (.int (Int64.ofInt a)) (.int (Int64.ofInt b)) = .ok (.int (Int64.ofInt z)) := by
  cases op with
  | add =>
    cases value
    rw [Int64.ofInt_add]
    rfl
  | sub =>
    cases value
    rw [Int64.ofInt_sub]
    rfl
  | mul =>
    cases value
    rw [Int64.ofInt_mul]
    rfl
  | div | lt | gt | eq | ne => cases value

/-- A tree evaluates to its exact value, wrapped, and does nothing else. -/
theorem Expr.run_exactValue {e : Expr Origin} {z : Int}
    (exact : e.exactValue (w.heap.integer? s) = some z) :
    (evalExpr host me call s e).run w = some (.int (Int64.ofInt z), w) := by
  fun_induction exactValue generalizing z with
  | case1 n =>
    cases exact
    rw [Int64.ofInt_toInt]
    rfl
  | case2 name =>
    obtain ⟨n, found, rfl⟩ := Option.map_eq_some_iff.mp exact
    rw [Int64.ofInt_toInt]
    exact run_ident (Heap.integer?_eq_some_iff.mp found)
  | case3 e ih =>
    obtain ⟨a, operand, rfl⟩ := Option.map_eq_some_iff.mp exact
    refine run_prefixOp (ih operand) rfl ?_
    rw [Int64.ofInt_neg]
    rfl
  | case4 l op r ihl ihr =>
    obtain ⟨a, left, exact⟩ := Option.bind_eq_some_iff.mp exact
    obtain ⟨b, right, value⟩ := Option.bind_eq_some_iff.mp exact
    exact run_infixOp (ihl left) rfl (ihr right) rfl (InfixOp.apply_ofInt value)
  | case5 => cases exact

end Trees

/-- What an integer becomes when it is wrapped: the one of 64 bits to which it is congruent. -/
theorem toInt_ofInt_eq_iff {z m : Int} :
    (Int64.ofInt z).toInt = m ↔ -2 ^ 63 ≤ m ∧ m < 2 ^ 63 ∧ m ≡ z [ZMOD 2 ^ 64] := by
  have range : (Int64.ofInt z).toInt = m ↔ -2 ^ 63 ≤ m ∧ m < 2 ^ 63 ∧ (2 ^ 64 : Int) ∣ m - z := by
    rw [Int64.toInt_ofInt]
    exact Int.bmod_eq_iff (by decide)
  rw [range, Int.modEq_comm, Int.modEq_iff_dvd]

/-- Integers become the same when they are congruent. -/
theorem ofInt_eq_ofInt_iff {y z : Int} : Int64.ofInt y = Int64.ofInt z ↔ y ≡ z [ZMOD 2 ^ 64] := by
  obtain ⟨le, lt, congruent⟩ := toInt_ofInt_eq_iff (z := z).mp rfl
  rw [← Int64.toInt_inj, toInt_ofInt_eq_iff]
  exact ⟨fun ⟨_, _, same⟩ => same.symm.trans congruent,
    fun same => ⟨le, lt, congruent.trans same.symm⟩⟩

/-- A tree of arithmetic, all names of which have integers as their values, evaluates to an integer,
from any state, and changes nothing. The integer is the one of 64 bits that is congruent to the
exact value of the tree. Any other tree, in any scope and state, evaluates to the same integer
exactly when the exact values are congruent, and so whenever they are equal, whatever wraps within
either tree. -/
theorem arithmetic_wraps_once (host : Host) (me : InterpreterId)
    (call : Closure → List Value → Run Value) (s : ScopeId) (w : World) {e : Expr Origin}
    (tree : e.Arithmetic fun name => ∃ n, w.heap.resolve s name = some (.int n)) :
    ∃ z k, e.exactValue (w.heap.integer? s) = some z ∧
      (evalExpr host me call s e).run w = some (.int k, w) ∧
      (∀ m : Int, k.toInt = m ↔ -2 ^ 63 ≤ m ∧ m < 2 ^ 63 ∧ m ≡ z [ZMOD 2 ^ 64]) ∧
      ∀ (s' : ScopeId) (w' : World) (e' : Expr Origin) (z' : Int),
        e'.exactValue (w'.heap.integer? s') = some z' →
        ((evalExpr host me call s' e').run w' = some (.int k, w') ↔ z' ≡ z [ZMOD 2 ^ 64]) := by
  obtain ⟨z, exact⟩ := tree.exists_exactValue
  refine ⟨z, Int64.ofInt z, exact, Expr.run_exactValue exact, fun m => toInt_ofInt_eq_iff, ?_⟩
  intro s' w' e' z' exact'
  rw [Expr.run_exactValue exact', ← ofInt_eq_ofInt_iff]
  simp

/-- The rooted state with the least integer bound to a name. -/
def World.withLeast : World :=
  { World.rooted with heap := World.rooted.heap.define ⟨0⟩ "least" (.int Int64.minValue) }

/-- `-(least * 3) - least`, which is 2 ^ 65 exactly. -/
def leastFourTimes : Expr Origin :=
  .infixOp (.prefixOp .negate (.infixOp (.ident "least") .mul (.int 3))) .sub (.ident "least")

/-- The tree wraps at three nodes, and evaluates to what the literal `0` evaluates to. -/
theorem arithmetic_wraps_once_least :
    (leastFourTimes.Arithmetic fun name => ∃ n,
        World.withLeast.heap.resolve ⟨0⟩ name = some (.int n)) ∧
      leastFourTimes.exactValue (World.withLeast.heap.integer? ⟨0⟩) = some (2 ^ 65) ∧
      (evalExpr .empty ⟨0⟩ (invoke .empty ⟨0⟩ 0) ⟨0⟩ leastFourTimes).run .withLeast =
        some (.int 0, .withLeast) := by
  have tree : leastFourTimes.Arithmetic fun name => ∃ n,
      World.withLeast.heap.resolve ⟨0⟩ name = some (.int n) :=
    .infixOp (by decide) (.negate (.infixOp (by decide) (.ident ⟨_, rfl⟩) (.int 3)))
      (.ident ⟨_, rfl⟩)
  obtain ⟨z, k, exact, run, -, same⟩ :=
    arithmetic_wraps_once .empty ⟨0⟩ (invoke .empty ⟨0⟩ 0) ⟨0⟩ .withLeast tree
  have value : leastFourTimes.exactValue (World.withLeast.heap.integer? ⟨0⟩) = some (2 ^ 65) := rfl
  obtain rfl : 2 ^ 65 = z := Option.some.inj (value.symm.trans exact)
  have literal := (same ⟨0⟩ .withLeast (.int 0) 0 rfl).mpr rfl
  refine ⟨tree, exact, ?_⟩
  rw [run, ← literal]
  rfl

/-! ## Division -/

/-- The remainder is what is left of the dividend, though quotient and product may wrap. -/
theorem sub_div_mul_self (a b : Int64) : a - a / b * b = a % b := by
  have quotient : Int64.ofInt (a.toInt.tdiv b.toInt) = a / b := by
    rw [Int64.ofInt_tdiv a.minValue_le_toInt a.toInt_le b.minValue_le_toInt b.toInt_le,
      Int64.ofInt_toInt, Int64.ofInt_toInt]
  rw [← Int64.ofInt_toInt (a % b), Int64.toInt_mod, Int.tmod_def, Int64.ofInt_sub, Int64.ofInt_mul,
    quotient, Int64.ofInt_toInt, Int64.ofInt_toInt, Int64.mul_comm]

/-- The remainder of truncated division is smaller than the divisor, and lies on the side of the
dividend. -/
theorem tmod_bounds {a b : Int} (nonzero : b ≠ 0) :
    (a.tmod b).natAbs < b.natAbs ∧ (a.tmod b = 0 ∨ (a.tmod b).sign = a.sign) := by
  constructor
  · rw [Int.natAbs_tmod]
    exact Nat.mod_lt _ (Int.natAbs_pos.mpr nonzero)
  · by_cases divides : b ∣ a
    · exact .inl (Int.tmod_eq_zero_of_dvd divides)
    · refine .inr ?_
      rw [Int.sign_tmod, if_neg divides]

/-- `l - (l / r) * r` -/
def Expr.remainder (l r : Expr Origin) : Expr Origin :=
  .infixOp l .sub (.infixOp (.infixOp l .div r) .mul r)

theorem Expr.run_remainder {host : Host} {me : InterpreterId}
    {call : Closure → List Value → Run Value} {s : ScopeId} {w : World} {l r : Expr Origin}
    {a b : Int64} (dividend : (evalExpr host me call s l).run w = some (.int a, w))
    (divisor : (evalExpr host me call s r).run w = some (.int b, w)) (nonzero : b ≠ 0) :
    (evalExpr host me call s (.remainder l r)).run w = some (.int (a % b), w) := by
  have quotient : InfixOp.apply (.int a) .div (.int b) = .ok (.int (a / b)) := if_neg nonzero
  have divided : (evalExpr host me call s (.infixOp l .div r)).run w = some (.int (a / b), w) :=
    run_infixOp dividend rfl divisor rfl quotient
  have product : (evalExpr host me call s (.infixOp (.infixOp l .div r) .mul r)).run w =
      some (.int (a / b * b), w) := run_infixOp divided rfl divisor rfl rfl
  rw [← sub_div_mul_self]
  exact run_infixOp dividend rfl product rfl rfl

/-- The law of division. Where one expression comes to `a` and another to `b`, which is not zero,
`a - (a / b) * b` comes to the remainder of the division that truncates towards zero. From this `a`
differs by a multiple of `b`. It is smaller than `b` regardless of signs, and is zero or has the
sign of `a`. No pair of operands is left out. -/
theorem remainder_law (host : Host) (me : InterpreterId) (call : Closure → List Value → Run Value)
    (s : ScopeId) (w : World) {l r : Expr Origin} {a b : Int64}
    (dividend : (evalExpr host me call s l).run w = some (.int a, w))
    (divisor : (evalExpr host me call s r).run w = some (.int b, w)) (nonzero : b ≠ 0) :
    ∃ k : Int64, (evalExpr host me call s (.remainder l r)).run w = some (.int k, w) ∧
      k.toInt = a.toInt.tmod b.toInt ∧ b.toInt ∣ a.toInt - k.toInt ∧
      k.toInt.natAbs < b.toInt.natAbs ∧ (k.toInt = 0 ∨ k.toInt.sign = a.toInt.sign) := by
  have value : (a % b).toInt = a.toInt.tmod b.toInt := Int64.toInt_mod a b
  have nonzero' : b.toInt ≠ 0 := fun zero => nonzero (Int64.toInt_inj.mp zero)
  refine ⟨a % b, Expr.run_remainder dividend divisor nonzero, value, ?_⟩
  rw [value]
  exact ⟨Int.dvd_self_sub_tmod, tmod_bounds nonzero'⟩

/-- The least integer and minus one, where the quotient wraps and so does its product. -/
theorem remainder_law_least :
    Int64.minValue / (-1) = Int64.minValue ∧ (-1 : Int64) ≠ 0 ∧
      (evalExpr .empty ⟨0⟩ (invoke .empty ⟨0⟩ 0) ⟨0⟩
        (.remainder (.ident "least") (.int (-1)))).run .withLeast = some (.int 0, .withLeast) := by
  refine ⟨by decide, by decide, ?_⟩
  obtain ⟨k, run, remainder, -⟩ := remainder_law .empty ⟨0⟩ (invoke .empty ⟨0⟩ 0) ⟨0⟩ .withLeast
    (l := .ident "least") (r := .int (-1)) (a := Int64.minValue) (b := -1) rfl rfl (by decide)
  have zero : k = 0 := Int64.toInt_inj.mp remainder
  rw [run, zero]

end TreeWalk
