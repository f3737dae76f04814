import Mathlib.Data.Nat.Fib.Basic
import TreeWalk.Proofs.Eval.Depth
import TreeWalk.Proofs.Eval.FailStop
import TreeWalk.Proofs.Eval.Stepping
import TreeWalk.Proofs.Scope.Retained

/-!
# A recursive program

`let fib = fn(n) { if (n < 2) { n } else { fib(n - 1) + fib(n - 2) } }; fib(n)` for any integer `n`.

The function finds itself by a name of the scope that it captured, which was bound after it had been
made. Each call has a scope of its own, and makes two more calls with scopes of their own. All these
scopes stay, and none of them is ever written again. So what a call relies on is there when its
first inner call has returned: its parameter, and the name of the function in the scope of the
program.

Results:
1. `fibonacciValue_step`: the recursion of the values, in 64-bit arithmetic.
2. `run_fibonacci`: a call of the function, by induction on a bound of the argument.
3. `fibonacci_program`: the program.
-/

namespace TreeWalk

/-! ## The program -/

/-- A call of the function on a smaller argument. -/
def fibonacciOf (less : Int64) : Expr Origin :=
  .call (.ident "fib") [.infixOp (.ident "n") .sub (.int less)]

/-- The body of the function. -/
def fibonacciBody : Block Origin :=
  [.expr (.ifElse (.infixOp (.ident "n") .lt (.int 2))
    [.expr (.ident "n")]
    (some [.expr (.infixOp (fibonacciOf 1) .add (fibonacciOf 2))]))]

/-- The program for an integer, with the origin of its function literal. -/
def fibonacciProgram (origin : Origin) (n : Int64) : Program Origin :=
  [.bind "fib" (.fn origin ["n"] fibonacciBody), .expr (.call (.ident "fib") [.int n])]

/-- The function, made in a scope. -/
def fibonacci (origin : Origin) (s : ScopeId) : Closure :=
  ⟨origin, ["n"], fibonacciBody, s⟩

/-! ## The values -/

/-- An integer below two, and else the Fibonacci number of this index, modulo 2 ^ 64 and from
-2 ^ 63 on. -/
def fibonacciValue (n : Int64) : Int64 :=
  if n < 2 then n else Int64.ofNat (Nat.fib n.toInt.toNat)

theorem lt_two_iff_toInt (n : Int64) : n < 2 ↔ n.toInt < 2 :=
  Int64.lt_iff_toInt_lt

/-- From two on, subtracting one or two does not wrap. -/
theorem toInt_sub_of_le {n less : Int64} (notNegative : 0 ≤ less.toInt)
    (le : less.toInt ≤ n.toInt) : (n - less).toInt = n.toInt - less.toInt := by
  have below := n.toInt_lt
  rw [Int64.toInt_sub, Int.bmod_eq_of_le] <;> omega

theorem fibonacciValue_eq {n : Int64} (notNegative : 0 ≤ n.toInt) :
    fibonacciValue n = Int64.ofNat (Nat.fib n.toInt.toNat) := by
  rw [fibonacciValue]
  split
  · next small =>
    rw [lt_two_iff_toInt] at small
    -- The first two Fibonacci numbers are their indices.
    have index : Nat.fib n.toInt.toNat = n.toInt.toNat := by
      obtain zero | one : n.toInt.toNat = 0 ∨ n.toInt.toNat = 1 := by omega
      · rw [zero, Nat.fib_zero]
      · rw [one, Nat.fib_one]
    rw [index, ← Int64.toInt_inj, Int64.toInt_ofNat_of_lt (by omega)]
    omega
  · rfl

/-- The recursion of the values. -/
theorem fibonacciValue_step {n : Int64} (large : ¬ n < 2) :
    fibonacciValue (n - 1) + fibonacciValue (n - 2) = fibonacciValue n := by
  rw [lt_two_iff_toInt] at large
  have first : (n - 1).toInt = n.toInt - 1 :=
    toInt_sub_of_le (by decide) (show (1 : Int) ≤ n.toInt by omega)
  have second : (n - 2).toInt = n.toInt - 2 :=
    toInt_sub_of_le (by decide) (show (2 : Int) ≤ n.toInt by omega)
  obtain ⟨k, index⟩ : ∃ k : Nat, n.toInt = k + 2 := ⟨(n.toInt - 2).toNat, by omega⟩
  have indexFirst : (n - 1).toInt.toNat = k + 1 := by omega
  have indexSecond : (n - 2).toInt.toNat = k := by omega
  have indexWhole : n.toInt.toNat = k + 2 := by omega
  rw [fibonacciValue_eq (by omega), fibonacciValue_eq (by omega), fibonacciValue_eq (by omega),
    indexFirst, indexSecond, indexWhole, ← Int64.ofNat_add, Nat.fib_add_two, Nat.add_comm]

/-! ## Calls -/

/-- The scope binds the name of the function to the function. -/
def BindsFibonacci (origin : Origin) (s : ScopeId) (h : Heap) : Prop :=
  (h.bindings s).get? "fib" = some (.fn (fibonacci origin s))

/-- What a call of the function relies on in its own scope: the parameter, and the function. -/
structure InFibonacci (origin : Origin) (s : ScopeId) (n : Int64) (own : ScopeId) (h : Heap) :
    Prop where
  exist : own.index < h.size
  param : h.resolve own "n" = some (.int n)
  itself : h.resolve own "fib" = some (.fn (fibonacci origin s))
  bound : BindsFibonacci origin s h

section Calls

variable {host : Host} {me : InterpreterId} {origin : Origin} {s own : ScopeId} {n : Int64}

theorem InFibonacci.retained {h k : Heap} (inside : InFibonacci origin s n own h)
    (retained : h.Retained k) : InFibonacci origin s n own k where
  exist := retained.exists_of inside.exist
  param := (retained.resolve_eq inside.exist "n").trans inside.param
  itself := (retained.resolve_eq inside.exist "fib").trans inside.itself
  bound := by
    rw [BindsFibonacci, (retained.same s (Heap.lt_size_of_get? inside.bound)).1]
    exact inside.bound

/-- The scope of a call has what the call relies on. -/
theorem inFibonacci_callScope {h : Heap} (bound : BindsFibonacci origin s h) :
    InFibonacci origin s n h.next (h.callScope (fibonacci origin s) [.int n]).2 := by
  have exist : s.index < h.size := Heap.lt_size_of_get? bound
  refine ⟨h.next_lt_size_allocate _ _, ?_, ?_, ?_⟩
  · rw [Heap.resolve_callScope _ exist]
    rfl
  · rw [Heap.resolve_callScope _ exist]
    exact Heap.resolve_of_bound bound
  · have same : SameAt h (h.callScope (fibonacci origin s) [.int n]).2 s :=
      (Heap.Retained.allocate h _ _).same s exist
    rw [BindsFibonacci, same.1]
    exact bound

/-- An inner call is a call of the function on the smaller integer. -/
theorem run_fibonacciOf (host : Host) (me : InterpreterId) {w : World}
    (inside : InFibonacci origin s n own w.heap) (depth : Nat) (less : Int64) :
    (evalExpr host me (invoke host me depth) own (fibonacciOf less)).run w =
      (applyValue host me depth (.fn (fibonacci origin s)) [.int (n - less)]).run w := by
  have argument : (evalExpr host me (invoke host me depth) own
      (.infixOp (.ident "n") .sub (.int less))).run w = some (.int (n - less), w) :=
    run_infixOp (run_ident inside.param) rfl rfl rfl rfl
  rw [fibonacciOf, run_call (run_ident inside.itself) rfl, run_operand argument rfl,
    withOperands_nil, applyValue]

/-- The body compares its parameter with two. -/
theorem run_fibonacci_condition (host : Host) (me : InterpreterId) {w : World}
    (inside : InFibonacci origin s n own w.heap) (call : Closure → List Value → Run Value) :
    (evalExpr host me call own (.infixOp (.ident "n") .lt (.int 2))).run w =
      some (.bool (n < 2), w) :=
  run_infixOp (run_ident inside.param) rfl rfl rfl rfl

/-- Below two the body gives its parameter. -/
theorem run_fibonacciBody_small {w : World} (inside : InFibonacci origin s n own w.heap)
    (small : n < 2) (call : Closure → List Value → Run Value) :
    (evalBlock host me call own .null fibonacciBody).run w = some (.int n, w) := by
  have condition := run_fibonacci_condition host me inside call
  rw [decide_eq_true small] at condition
  rw [fibonacciBody, evalBlock_single, run_ifElse condition, cond_true, evalBlock_single,
    run_ident inside.param]

/-- From two on the body adds what the inner calls give, the second of which starts where the first
has ended. -/
theorem run_fibonacciBody_large {w u u' : World} (inside : InFibonacci origin s n own w.heap)
    (large : ¬ n < 2) {depth : Nat} {a b : Int64}
    (first : (applyValue host me depth (.fn (fibonacci origin s)) [.int (n - 1)]).run w =
      some (.int a, u))
    (second : (applyValue host me depth (.fn (fibonacci origin s)) [.int (n - 2)]).run u =
      some (.int b, u')) :
    (evalBlock host me (invoke host me depth) own .null fibonacciBody).run w =
      some (.int (a + b), u') := by
  have condition := run_fibonacci_condition host me inside (invoke host me depth)
  rw [decide_eq_false large] at condition
  have still : InFibonacci origin s n own u.heap := inside.retained (retained_applyValue first)
  have left := run_fibonacciOf host me inside depth 1
  have right := run_fibonacciOf host me still depth 2
  rw [first] at left
  rw [second] at right
  rw [fibonacciBody, evalBlock_single, run_ifElse condition, cond_false, evalBlock_single,
    run_infixOp left rfl right rfl rfl]

/-- A call gives what its body gives. -/
theorem run_fibonacci_of_body {w u : World} {depth : Nat} {v : Int64}
    (body : (evalBlock host me (invoke host me depth) w.heap.next .null fibonacciBody).run
      (w.entered me (fibonacci origin s) [.int n]) = some (.int v, u)) :
    (applyValue host me (depth + 1) (.fn (fibonacci origin s)) [.int n]).run w =
      some (.int v, u.record (.leave ((fibonacci origin s).span w.heap))) := by
  rw [run_applyValue_fn rfl]
  exact congrArg (Option.map _) body

theorem run_fibonacci_small {w : World} (bound : BindsFibonacci origin s w.heap) (small : n < 2)
    (depth : Nat) :
    ∃ w', (applyValue host me (depth + 1) (.fn (fibonacci origin s)) [.int n]).run w =
      some (.int (fibonacciValue n), w') := by
  let start := w.entered me (fibonacci origin s) [.int n]
  have inside : InFibonacci origin s n w.heap.next start.heap := inFibonacci_callScope bound
  rw [fibonacciValue, if_pos small]
  exact ⟨_, run_fibonacci_of_body (run_fibonacciBody_small inside small _)⟩

/-- A call on an integer of at most `k` nests at most `k + 1` deep, and gives the value. -/
theorem run_fibonacci (k : Nat) : ∀ {n : Int64} {w : World}, n.toInt ≤ k →
    BindsFibonacci origin s w.heap →
    ∃ w', (applyValue host me (k + 1) (.fn (fibonacci origin s)) [.int n]).run w =
      some (.int (fibonacciValue n), w') := by
  induction k with
  | zero =>
    intro n w le bound
    exact run_fibonacci_small bound ((lt_two_iff_toInt n).mpr (by omega)) 0
  | succ k ih =>
    intro n w le bound
    by_cases small : n < 2
    · exact run_fibonacci_small bound small (k + 1)
    · have large : 2 ≤ n.toInt := by
        rw [lt_two_iff_toInt] at small
        omega
      have one : (n - 1).toInt = n.toInt - 1 :=
        toInt_sub_of_le (by decide) (show (1 : Int) ≤ n.toInt by omega)
      have two : (n - 2).toInt = n.toInt - 2 := toInt_sub_of_le (by decide) large
      let start := w.entered me (fibonacci origin s) [.int n]
      have inside : InFibonacci origin s n w.heap.next start.heap := inFibonacci_callScope bound
      obtain ⟨u, first⟩ := ih (n := n - 1) (by omega) inside.bound
      have still := inside.retained (retained_applyValue first)
      obtain ⟨u', second⟩ := ih (n := n - 2) (by omega) still.bound
      rw [← fibonacciValue_step small]
      exact ⟨_, run_fibonacci_of_body (run_fibonacciBody_large inside small first second)⟩

/-- The program binds the function in its scope, and calls it from there. -/
theorem run_fibonacciProgram (host : Host) (me : InterpreterId) (origin : Origin) (n : Int64)
    {w : World} (exist : s.index < w.heap.size) :
    ∃ depth w', (evalProgram host me depth s (fibonacciProgram origin n)).run w =
      some (.int (fibonacciValue n), w') := by
  let opened := w.record (.enter (.program (fibonacciProgram origin n).length))
  let made : World :=
    { opened with heap := opened.heap.define s "fib" (.fn (fibonacci origin s)) }
  have bound : BindsFibonacci origin s made.heap :=
    (Heap.get?_define exist _ _ _ _).trans (if_pos ⟨rfl, rfl⟩)
  have fits : n.toInt ≤ n.toInt.toNat := Int.self_le_toNat _
  let call := invoke host me (n.toInt.toNat + 1)
  obtain ⟨u, called⟩ : ∃ u, (evalCall host me call (.fn (fibonacci origin s)) [.int n]).run made =
      some (.int (fibonacciValue n), u) := run_fibonacci _ fits bound
  have argument : (evalExpr host me call s (.int n)).run made = some (.int n, made) := rfl
  have last : (evalExpr host me call s (.call (.ident "fib") [.int n])).run made =
      some (.int (fibonacciValue n), u) := by
    rw [run_call (run_ident (Heap.resolve_of_bound bound)) rfl, run_operand argument rfl,
      withOperands_nil, called]
  have body : (evalBlock host me call s .null (fibonacciProgram origin n)).run opened =
      some (.int (fibonacciValue n), u) := by
    rw [fibonacciProgram, run_evalBlock_bind rfl rfl, evalBlock_single]
    exact last
  refine ⟨n.toInt.toNat + 1, u.record (.leave (.program 2)), ?_⟩
  rw [run_evalProgram]
  exact congrArg (Option.map _) body

end Calls

/-- The program gives the value of its integer. It runs in a new root scope, of any session, and for
any integer it ends: with the integer itself below two, and else with the Fibonacci number of this
index in two's complement. No fault is found or counted on the way. -/
theorem fibonacci_program (host : Host) (me : InterpreterId) (origin : Origin) (n : Int64)
    (w : World) :
    ∃ w', Eventually
        (fun depth => evalProgram host me depth w.heap.newRoot.1 (fibonacciProgram origin n))
        { w with heap := w.heap.newRoot.2 }
        (.int (if n < 2 then n else Int64.ofNat (Nat.fib n.toInt.toNat))) w' ∧
      World.Calm { w with heap := w.heap.newRoot.2 } [] w' := by
  let rooted : World := { w with heap := w.heap.newRoot.2 }
  have exist : w.heap.newRoot.1.index < rooted.heap.size :=
    w.heap.next_lt_size_allocate none .empty
  obtain ⟨depth, w', result⟩ := run_fibonacciProgram host me origin n exist
  exact ⟨w', eventually_evalProgram_iff.mpr ⟨depth, result⟩, calm_evalProgram result rfl⟩

end TreeWalk
