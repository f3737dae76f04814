import Mathlib.Algebra.Group.Nat.Defs
import TreeWalk.Proofs.Eval.Depth
import TreeWalk.Proofs.Eval.Spans
import TreeWalk.Proofs.Eval.Stepping
import TreeWalk.Proofs.Scope.Retained

/-!
# A recursive program of higher order

`let map = fn(arr, f) { let iter = fn(arr, acc) { if (len(arr) > 0) { iter(rest(arr),
push(acc, f(first(arr)))) } else { acc } }; iter(arr, []) }`, for any array and any value `f`.

The inner function is made in the scope of a call of the outer one, and finds itself there. It calls
four builtins by name, and a value of which nothing is known. Whatever that does, it retains all
scopes, so the inner function goes on with the names as they were.

A turn is a call of the inner function. The last step of a turn is the next one, so a call of the
outer function is around all the turns, and gives what the last of them gives.

Results:
1. `turn_done`, `turn_needs`, `turn_stops`, `turn_goes_on`: what a turn does.
2. `Underway.next`, `Underway.of_turns`: from turn to turn, and all of them.
3. `mapping_sequential`: the function is applied to one value after the other.
-/

namespace TreeWalk

open Run

/-! ## The program -/

/-- The function applied to the first value of the array. -/
def mappedFirst : Expr Origin :=
  .call (.ident "f") [.call (.ident "first") [.ident "arr"]]

/-- The body of the inner function. -/
def iterationBody : Block Origin :=
  [.expr (.ifElse (.infixOp (.call (.ident "len") [.ident "arr"]) .gt (.int 0))
    [.expr (.call (.ident "iter")
      [.call (.ident "rest") [.ident "arr"], .call (.ident "push") [.ident "acc", mappedFirst]])]
    (some [.expr (.ident "acc")]))]

/-- The inner function, made in a scope. -/
def iteration (inner : Origin) (s : ScopeId) : Closure :=
  ⟨inner, ["arr", "acc"], iterationBody, s⟩

/-- The body of the outer function. -/
def mappingBody (inner : Origin) : Block Origin :=
  [.bind "iter" (.fn inner ["arr", "acc"] iterationBody),
    .expr (.call (.ident "iter") [.ident "arr", .array []])]

/-- The literal that the program binds to `map`. -/
def mappingLiteral (outer inner : Origin) : Expr Origin :=
  .fn outer ["arr", "f"] (mappingBody inner)

/-- The outer function, made in a scope. -/
def mapping (outer inner : Origin) (s : ScopeId) : Closure :=
  ⟨outer, ["arr", "f"], mappingBody inner, s⟩

/-- The standard builtins that the program calls by name. -/
def mappingBuiltins : List Standard :=
  [.len, .rest, .push, .first]

/-- None of the builtins that the program calls has its name bound on the chain of the scope. -/
def Unshadowed (s : ScopeId) (h : Heap) : Prop :=
  ∀ op ∈ mappingBuiltins, h.resolve s op.name = none

/-! ## Turns -/

/-- A turn of the mapping: the values that are left, those that have come out, and the state in
which the inner function is called on both. -/
structure Turn where
  left : List Value
  done : List Value
  state : World

namespace Turn

/-- The state in which the turn has found out whether there is a value left. -/
def tested (t : Turn) (me : InterpreterId) (iter : Closure) : World :=
  (t.state.entered me iter [.array t.left, .array t.done]).called me .len [.array t.left]

/-- The state in which the function is applied to the first value that is left. -/
def applying (t : Turn) (me : InterpreterId) (iter : Closure) : World :=
  ((t.tested me iter).called me .rest [.array t.left]).called me .first [.array t.left]

/-- The call of the inner function with which the turn starts. -/
def call (t : Turn) (host : Host) (me : InterpreterId) (iter : Closure) (n : Nat) : Run Value :=
  applyValue host me n (.fn iter) [.array t.left, .array t.done]

/-- The first turn of a call of the outer function from the state `w`. It starts when the scope of the
call was entered and the inner function was made there. -/
def first (me : InterpreterId) (outer inner : Origin) (s : ScopeId) (xs : List Value) (f : Value)
    (w : World) : Turn :=
  let entered := w.entered me (mapping outer inner s) [.array xs, f]
  let iter := Value.fn (iteration inner w.heap.next)
  ⟨xs, [], { entered with heap := entered.heap.define w.heap.next "iter" iter }⟩

/-- The turn after one that applied the function, which has come to `y` and left the state `u`. -/
def after (me : InterpreterId) (left done : List Value) (y : Value) (u : World) : Turn :=
  ⟨left, done ++ [y], u.called me .push [.array done, y]⟩

end Turn

/-- One turn after the other. The function is applied to the first value that is left, and the next
turn starts in the state that this application has left, after the value was put at the end. -/
inductive Turns (host : Host) (me : InterpreterId) (f : Value) (iter : Closure) (t : Turn) :
    Turn → Prop
  | start : Turns host me f iter t t
  | next {x y : Value} {left done : List Value} {w u : World} :
      Turns host me f iter t ⟨x :: left, done, w⟩ →
      Eventually (fun n => applyValue host me n f [x]) (Turn.applying ⟨x :: left, done, w⟩ me iter)
        y u →
      y.isSentinel = false →
      Turns host me f iter t (.after me left done y u)

/-! ## In a turn -/

/-- What a call of the inner function relies on, in the scope of the outer call. -/
structure Mapped (inner : Origin) (f : Value) (k : ScopeId) (h : Heap) : Prop where
  exist : k.index < h.size
  itself : h.resolve k "iter" = some (.fn (iteration inner k))
  callee : h.resolve k "f" = some f
  unshadowed : Unshadowed k h

/-- What a call of the inner function on two lists relies on, in its own scope. -/
structure InTurn (inner : Origin) (f : Value) (k : ScopeId) (left done : List Value)
    (own : ScopeId) (h : Heap) : Prop where
  left : h.resolve own "arr" = some (.array left)
  done : h.resolve own "acc" = some (.array done)
  itself : h.resolve own "iter" = some (.fn (iteration inner k))
  callee : h.resolve own "f" = some f
  unshadowed : Unshadowed own h

section Turns

variable {host : Host} {me : InterpreterId} {inner : Origin} {f : Value} {k own : ScopeId}
variable {left done : List Value} {w u : World} {x y : Value}

theorem Mapped.retained {h h' : Heap} (mapped : Mapped inner f k h) (retained : h.Retained h') :
    Mapped inner f k h' where
  exist := retained.exists_of mapped.exist
  itself := (retained.resolve_eq mapped.exist "iter").trans mapped.itself
  callee := (retained.resolve_eq mapped.exist "f").trans mapped.callee
  unshadowed op mem := (retained.resolve_eq mapped.exist op.name).trans (mapped.unshadowed op mem)

theorem InTurn.called (inside : InTurn inner f k left done own w.heap) (me : InterpreterId)
    (op : Standard) (args : List Value) :
    InTurn inner f k left done own (w.called me op args).heap := by
  rwa [World.heap_called]

/-- The scope of a call of the inner function has what the call relies on. -/
theorem Mapped.inTurn {h : Heap} (mapped : Mapped inner f k h) (left done : List Value) :
    InTurn inner f k left done h.next
      (h.callScope (iteration inner k) [.array left, .array done]).2 := by
  have finds := Heap.resolve_callScope_two (f := iteration inner k) rfl (.array left) (.array done)
    mapped.exist
  refine ⟨?_, ?_, ?_, ?_, ?_⟩
  · rw [finds, if_neg (by decide), if_pos rfl]
  · rw [finds, if_pos rfl]
  · rw [finds, if_neg (by decide), if_neg (by decide)]
    exact mapped.itself
  · rw [finds, if_neg (by decide), if_neg (by decide)]
    exact mapped.callee
  · intro op mem
    have other : op.name ≠ "acc" ∧ op.name ≠ "arr" := by
      cases op <;> exact ⟨by decide, by decide⟩
    rw [finds, if_neg other.1, if_neg other.2]
    exact mapped.unshadowed op mem

/-! ## One call of the inner function -/

/-- The test of the inner function, whether there is a value left. -/
theorem run_iteration_test (host : Host) (me : InterpreterId)
    (inside : InTurn inner f k left done own w.heap) (representable : left.length < 2 ^ 63)
    (call : Closure → List Value → Run Value) :
    (evalExpr host me call own
      (.infixOp (.call (.ident "len") [.ident "arr"]) .gt (.int 0))).run w =
        some (.bool !left.isEmpty, w.called me .len [.array left]) := by
  have length : (evalExpr host me call own (.call (.ident "len") [.ident "arr"])).run w =
      some (.int (Int64.ofNat left.length), w.called me .len [.array left]) :=
    run_standardOnName (inside.unshadowed .len (by decide)) rfl inside.left rfl fun _ => rfl
  have positive : (0 : Int64) < Int64.ofNat left.length ↔ 0 < left.length := by
    rw [Int64.lt_iff_toInt_lt, Int64.toInt_ofNat_of_lt representable]
    exact Int.natCast_pos
  have test : decide ((0 : Int64) < Int64.ofNat left.length) = !left.isEmpty := by
    cases left with
    | nil => rfl
    | cons x left => exact decide_eq_true (positive.mpr (Nat.zero_lt_succ _))
  rw [← test]
  exact run_infixOp length rfl rfl rfl rfl

/-- Where no value is left, the inner function gives what has come out. -/
theorem run_iterationBody_nil (inside : InTurn inner f k [] done own w.heap)
    (call : Closure → List Value → Run Value) :
    (evalBlock host me call own .null iterationBody).run w =
      some (.array done, w.called me .len [.array []]) := by
  have test := run_iteration_test host me inside (by decide) call
  have still := inside.called me .len [.array []]
  rw [iterationBody, evalBlock_single, run_ifElse (b := false) test, cond_false, evalBlock_single,
    run_ident still.done]

/-- The second operand applies the function to the first value, and puts at the end what comes
out. -/
theorem run_push_mappedFirst (host : Host) (me : InterpreterId) (depth : Nat)
    (inside : InTurn inner f k (x :: left) done own w.heap) (element : x.isSentinel = false)
    (callee : f.isSentinel = false) :
    (evalExpr host me (invoke host me depth) own
      (.call (.ident "push") [.ident "acc", mappedFirst])).run w =
        (andThen (applyValue host me depth f [x]) fun y =>
          applyValue host me depth (.builtin (.standard me .push)) [.array done, y]).run
            (w.called me .first [.array (x :: left)]) := by
  let call := invoke host me depth
  have first : (evalExpr host me call own (.call (.ident "first") [.ident "arr"])).run w =
      some (x, w.called me .first [.array (x :: left)]) :=
    run_standardOnName (inside.unshadowed .first (by decide)) rfl inside.left rfl fun _ => rfl
  have apply : (evalExpr host me call own mappedFirst).run w =
      (applyValue host me depth f [x]).run (w.called me .first [.array (x :: left)]) := by
    rw [mappedFirst, run_call (run_ident inside.callee) callee, run_operand first element,
      withOperands_nil]
    rfl
  have named : (evalExpr host me call own (.ident "push")).run w =
      some (.builtin (.standard me .push), w) :=
    run_standardName (inside.unshadowed .push (by decide)) rfl
  rw [run_call named rfl, run_operand (run_ident inside.done) rfl, withOperands_cons]
  exact run_andThen_congr apply _

/-- Where a value is left, the function is applied to it. What comes out is put at the end, and then
the inner function is called on what is left. -/
theorem run_iterationBody_cons (host : Host) (me : InterpreterId) (depth : Nat)
    (inside : InTurn inner f k (x :: left) done own w.heap)
    (representable : (x :: left).length < 2 ^ 63) (element : x.isSentinel = false)
    (callee : f.isSentinel = false) :
    (evalBlock host me (invoke host me depth) own .null iterationBody).run w =
      (andThen (applyValue host me depth f [x]) fun y =>
        andThen (applyValue host me depth (.builtin (.standard me .push)) [.array done, y]) fun v =>
          applyValue host me depth (.fn (iteration inner k)) [.array left, v]).run
        (((w.called me .len [.array (x :: left)]).called me .rest [.array (x :: left)]).called me
          .first [.array (x :: left)]) := by
  let call := invoke host me depth
  let array := Value.array (x :: left)
  let tested := w.called me .len [array]
  have test := run_iteration_test host me inside representable call
  have inside : InTurn inner f k (x :: left) done own tested.heap := inside.called me .len _
  have rest : (evalExpr host me call own (.call (.ident "rest") [.ident "arr"])).run tested =
      some (.array left, tested.called me .rest [array]) :=
    run_standardOnName (inside.unshadowed .rest (by decide)) rfl inside.left rfl fun _ => rfl
  have push := run_push_mappedFirst host me depth (inside.called me .rest [array]) element callee
  -- The application stands within the second operand. What is left to do with its value is moved
  -- out of it, so that the call of the inner function comes last.
  rw [iterationBody, evalBlock_single, run_ifElse (b := true) test, cond_true, evalBlock_single,
    run_call (run_ident inside.itself) rfl, run_operand rest rfl, withOperands_cons,
    ← andThen_assoc]
  exact run_andThen_congr push _

/-! ## One turn -/

/-- The last turn, where no value is left, gives what has come out. -/
theorem turn_done (mapped : Mapped inner f k w.heap) :
    Eventually (Turn.call ⟨[], done, w⟩ host me (iteration inner k)) w (.array done)
      ((Turn.tested ⟨[], done, w⟩ me (iteration inner k)).leaveAll
        [(iteration inner k).span w.heap]) := by
  refine Eventually.shift (.always fun n => ?_)
  rw [Turn.call, run_applyValue_fn rfl]
  exact congrArg (Option.map _) (run_iterationBody_nil (mapped.inTurn [] done) _)

section Left

variable (mapped : Mapped inner f k w.heap) (representable : (x :: left).length < 2 ^ 63)
variable (element : x.isSentinel = false) (callee : f.isSentinel = false)

include mapped representable element callee

/-- What a turn does that has a value left: it applies the function, and goes on with the next turn
unless a sentinel came out. -/
theorem run_turn (n : Nat) :
    (Turn.call ⟨x :: left, done, w⟩ host me (iteration inner k) (n + 1)).run w =
      (((applyValue host me n f [x]).run
        (Turn.applying ⟨x :: left, done, w⟩ me (iteration inner k))).bind fun r =>
          if r.1.isSentinel then some r
          else
            let next := Turn.after me left done r.1 r.2
            (next.call host me (iteration inner k) n).run next.state).map
        fun r => (r.1.unwrapReturn, r.2.leaveAll [(iteration inner k).span w.heap]) := by
  rw [Turn.call, run_applyValue_fn rfl]
  refine congrArg (Option.map _) ?_
  have body := run_iterationBody_cons host me n
    (w := w.entered me (iteration inner k) [.array (x :: left), .array done])
    (mapped.inTurn (x :: left) done) representable element callee
  refine body.trans ?_
  rw [run_andThen]
  refine congrArg (Option.bind _) (funext fun r => ?_)
  split
  · rfl
  · rw [applyValue, run_andThen_of (run_applyStandard fun _ => rfl) rfl]
    rfl

/-- A turn ends only if the application of the function ends. -/
theorem turn_needs {n : Nat} {r : Value × World}
    (result : (Turn.call ⟨x :: left, done, w⟩ host me (iteration inner k) n).run w = some r) :
    ∃ y u, Eventually (fun n => applyValue host me n f [x])
      (Turn.applying ⟨x :: left, done, w⟩ me (iteration inner k)) y u := by
  cases n with
  | zero => cases result
  | succ n =>
    rw [run_turn mapped representable element callee, Option.map_eq_some_iff] at result
    obtain ⟨_, bound, -⟩ := result
    obtain ⟨⟨y, u⟩, ran, -⟩ := Option.bind_eq_some_iff.mp bound
    exact ⟨y, u, eventually_applyValue_iff.mpr ⟨n, ran⟩⟩

/-- A turn in which a sentinel comes out ends with it, and nothing is done any more. -/
theorem turn_stops
    (applied : Eventually (fun n => applyValue host me n f [x])
      (Turn.applying ⟨x :: left, done, w⟩ me (iteration inner k)) y u)
    (sentinel : y.isSentinel = true) :
    Eventually (Turn.call ⟨x :: left, done, w⟩ host me (iteration inner k)) w y.unwrapReturn
      (u.leaveAll [(iteration inner k).span w.heap]) := by
  obtain ⟨bound, applied⟩ := applied
  refine Eventually.shift ⟨bound, fun n le => ?_⟩
  rw [run_turn mapped representable element callee, applied n le, Option.bind_some, if_pos sentinel]
  rfl

/-- A turn in which another value comes out is around the next turn. -/
theorem turn_goes_on
    (applied : Eventually (fun n => applyValue host me n f [x])
      (Turn.applying ⟨x :: left, done, w⟩ me (iteration inner k)) y u)
    (data : y.isSentinel = false) :
    Around [(iteration inner k).span w.heap]
      (Turn.call ⟨x :: left, done, w⟩ host me (iteration inner k)) w
      (Turn.call (.after me left done y u) host me (iteration inner k))
      (Turn.after me left done y u).state := by
  obtain ⟨bound, applied⟩ := applied
  refine ⟨1, bound, Value.unwrapReturn, fun _ kept => kept, fun n le => ?_⟩
  rw [run_turn mapped representable element callee, applied n le, Option.bind_some, data]
  rfl

end Left

/-! ## The first turn -/

variable {outer : Origin} {s c : ScopeId} {xs : List Value}

/-- Behind the inner function one finds the two parameters of the outer one, and then what is found
from the scope in which that was made. -/
theorem resolve_first (exist : s.index < w.heap.size) {name : String} (ne : name ≠ "iter") :
    (Turn.first me outer inner s xs f w).state.heap.resolve w.heap.next name =
      if name = "f" then some f else
        if name = "arr" then some (.array xs) else w.heap.resolve s name :=
  (Heap.resolve_define_of_ne (w.heap.next_lt_size_allocate _ _) ne _ _).trans
    (Heap.resolve_callScope_two (f := mapping outer inner s) rfl (.array xs) f exist name)

/-- Where the builtins are not shadowed, the first turn has what all turns rely on. -/
theorem mapped_first (exist : s.index < w.heap.size) (unshadowed : Unshadowed s w.heap) :
    Mapped inner f w.heap.next (Turn.first me outer inner s xs f w).state.heap := by
  let entered := (w.heap.callScope (mapping outer inner s) [.array xs, f]).2
  have made : w.heap.next.index < entered.size := w.heap.next_lt_size_allocate _ _
  refine ⟨?_, ?_, ?_, ?_⟩
  · exact Nat.lt_of_lt_of_eq made (entered.size_define w.heap.next "iter" _).symm
  · refine Heap.resolve_of_bound ?_
    exact (Heap.get?_define made _ _ _ _).trans (if_pos ⟨rfl, rfl⟩)
  · rw [resolve_first exist (by decide), if_pos rfl]
  · intro op mem
    have other : op.name ≠ "iter" ∧ op.name ≠ "f" ∧ op.name ≠ "arr" := by
      cases op <;> exact ⟨by decide, by decide, by decide⟩
    rw [resolve_first exist other.1, if_neg other.2.1, if_neg other.2.2]
    exact unshadowed op mem

/-- A call of the outer function is around its first turn. -/
theorem mapping_around (exist : s.index < w.heap.size) (unshadowed : Unshadowed s w.heap) :
    Around [(mapping outer inner s).span w.heap]
      (fun n => applyValue host me n (.fn (mapping outer inner s)) [.array xs, f]) w
      ((Turn.first me outer inner s xs f w).call host me (iteration inner w.heap.next))
      (Turn.first me outer inner s xs f w).state := by
  let start := Turn.first me outer inner s xs f w
  have mapped : Mapped inner f w.heap.next start.state.heap := mapped_first exist unshadowed
  have array : start.state.heap.resolve w.heap.next "arr" = some (.array xs) := by
    rw [resolve_first exist (by decide), if_neg (by decide), if_pos rfl]
  refine ⟨1, 0, Value.unwrapReturn, fun _ kept => kept, fun n _ => ?_⟩
  rw [run_applyValue_fn rfl]
  refine congrArg (Option.map _) ?_
  -- The inner function is made in the scope of the call, and the first turn starts when it is bound.
  show (evalBlock host me (invoke host me n) w.heap.next .null (mappingBody inner)).run _ = _
  rw [mappingBody, run_evalBlock_bind rfl rfl, evalBlock_single]
  show (evalExpr host me (invoke host me n) w.heap.next _).run start.state = _
  rw [run_call (run_ident mapped.itself) rfl, run_operand (run_ident array) rfl,
    run_operand (v := .array []) (u := start.state) rfl rfl, withOperands_nil]
  rfl

/-- A call of the outer function by its name is around the call with the values of the operands. -/
theorem mapping_called {a b : Expr Origin} {values : List Value}
    (found : w.heap.resolve c "map" = some (.fn (mapping outer inner s)))
    (operands : Eventually (fun n => evalExprs host me (invoke host me n) c [a, b]) w
      (.ok values) u) :
    Around [] (fun n => evalExpr host me (invoke host me n) c (.call (.ident "map") [a, b])) w
      (fun n => applyValue host me n (.fn (mapping outer inner s)) values) u := by
  obtain ⟨bound, operands⟩ := operands
  refine ⟨0, bound, id, fun _ _ => rfl, fun n le => ?_⟩
  rw [Nat.add_zero, run_call (run_ident found) rfl, run_withOperands_of (operands n le)]
  exact Option.map_id'.symm

/-! ## All turns -/

/-- Where a run stands that is around the turns of a mapping of `xs`. What the turns rely on is
there, the run is around the current turn, and one value came out for each one that is no longer
left. -/
structure Underway (host : Host) (me : InterpreterId) (inner : Origin) (f : Value) (k : ScopeId)
    (xs : List Value) (run : Nat → Run Value) (w : World) (t : Turn) : Prop where
  mapped : Mapped inner f k t.state.heap
  around : ∃ spans, Around spans run w (t.call host me (iteration inner k)) t.state
  left : t.left <:+ xs
  counted : t.done.length + t.left.length = xs.length

/-- The function is applied in a state that retains all scopes of the turn. -/
theorem retained_applying (t : Turn) (iter : Closure) :
    t.state.heap.Retained (t.applying me iter).heap := by
  rw [Turn.applying, World.heap_called, World.heap_called, Turn.tested, World.heap_called]
  exact .allocate _ _ _

namespace Underway

variable {run : Nat → Run Value} {start t : Turn}

/-- The step from one turn to the next. Whatever the function does, it retains the scopes in use. -/
theorem next (underway : Underway host me inner f k xs run u ⟨x :: left, done, w⟩)
    (representable : xs.length < 2 ^ 63) (elements : ∀ x ∈ xs, x.isSentinel = false)
    (callee : f.isSentinel = false) {u' : World}
    (applied : Eventually (fun n => applyValue host me n f [x])
      (Turn.applying ⟨x :: left, done, w⟩ me (iteration inner k)) y u')
    (data : y.isSentinel = false) :
    Underway host me inner f k xs run u (.after me left done y u') where
  mapped := by
    obtain ⟨n, ran⟩ := applied.exists_run
    have retained := (retained_applying ⟨x :: left, done, w⟩ _).trans (retained_applyValue ran)
    rw [Turn.after, World.heap_called]
    exact underway.mapped.retained retained
  around := by
    obtain ⟨spans, around⟩ := underway.around
    have fits : (x :: left).length < 2 ^ 63 :=
      Nat.lt_of_le_of_lt underway.left.length_le representable
    have element : x.isSentinel = false := elements x (underway.left.mem (List.mem_cons_self))
    exact ⟨_, around.trans (turn_goes_on underway.mapped fits element callee applied data)⟩
  left := (List.suffix_cons x left).trans underway.left
  counted := by
    have counted : done.length + (left.length + 1) = xs.length := underway.counted
    show (done ++ [y]).length + left.length = xs.length
    rw [List.length_append, List.length_singleton]
    omega

/-- Every turn that is reached stands as the first one does. -/
theorem of_turns (underway : Underway host me inner f k xs run u start)
    (representable : xs.length < 2 ^ 63) (elements : ∀ x ∈ xs, x.isSentinel = false)
    (callee : f.isSentinel = false) (turns : Turns host me f (iteration inner k) start t) :
    Underway host me inner f k xs run u t := by
  induction turns with
  | start => exact underway
  | next _ applied data ih => exact ih.next representable elements callee applied data

/-- The run ends as the turn does, and leaves the spans around it. -/
theorem ends (underway : Underway host me inner f k xs run u t) {v : Value} {spans : List Span}
    (result : Eventually (t.call host me (iteration inner k)) t.state v (w.leaveAll spans))
    (kept : v.unwrapReturn = v) : ∃ spans, Eventually run u v (w.leaveAll spans) := by
  obtain ⟨_, around⟩ := underway.around
  have last := around.eventually result kept
  rw [← World.leaveAll_append] at last
  exact ⟨_, last⟩

end Underway

/-- A call by name comes to its first turn. -/
theorem underway_first {a b : Expr Origin}
    (found : w.heap.resolve c "map" = some (.fn (mapping outer inner s)))
    (operands : Eventually (fun n => evalExprs host me (invoke host me n) c [a, b]) w
      (.ok [.array xs, f]) u)
    (exist : s.index < u.heap.size) (unshadowed : Unshadowed s u.heap) :
    Underway host me inner f u.heap.next xs
      (fun n => evalExpr host me (invoke host me n) c (.call (.ident "map") [a, b])) w
      (.first me outer inner s xs f u) where
  mapped := mapped_first exist unshadowed
  around := ⟨_, (mapping_called found operands).trans (mapping_around exist unshadowed)⟩
  left := List.suffix_refl xs
  counted := Nat.zero_add _

end Turns

/-- The program applies the function to one value after the other. The name is found bound to the
function that the program makes, the operands have an array without sentinels and any value `f`, and
then the builtins that the program calls are not shadowed. The length of an array is a 64-bit
integer, so there are fewer than 2 ^ 63 values.

A turn is reached when `f` has been applied to the values before, in this order, each time in the
state that the last time has left, and has come to the values that the turn has `done`. When none is
left, the call gives the array of these. Else `f` is applied to the next value before the call ends.
If it comes to an error, the call gives this error and only leaves the spans that it has entered. -/
theorem mapping_sequential {host : Host} {me : InterpreterId} {outer inner : Origin}
    {s c : ScopeId} {a b : Expr Origin} {xs : List Value} {f : Value} {w u : World}
    (found : w.heap.resolve c "map" = some (.fn (mapping outer inner s)))
    (operands : Eventually (fun n => evalExprs host me (invoke host me n) c [a, b]) w
      (.ok [.array xs, f]) u)
    (exist : s.index < u.heap.size) (unshadowed : Unshadowed s u.heap)
    (elements : ∀ x ∈ xs, x.isSentinel = false) (representable : xs.length < 2 ^ 63) :
    let iter := iteration inner u.heap.next
    let run := fun n => evalExpr host me (invoke host me n) c (.call (.ident "map") [a, b])
    let applied := fun x => Eventually fun n => applyValue host me n f [x]
    ∀ t, Turns host me f iter (.first me outer inner s xs f u) t →
      (t.left <:+ xs ∧ t.done.length + t.left.length = xs.length) ∧
      (t.left = [] →
        ∃ spans, Eventually run w (.array t.done) ((t.tested me iter).leaveAll spans)) ∧
      ∀ x left, t.left = x :: left →
        ((∃ v w', Eventually run w v w') → ∃ y u', applied x (t.applying me iter) y u') ∧
        ∀ message u', applied x (t.applying me iter) (.err message) u' →
          ∃ spans, Eventually run w (.err message) (u'.leaveAll spans) := by
  intro iter run applied t turns
  have callee : f.isSentinel = false := by
    obtain ⟨n, values⟩ := operands.exists_run
    exact notSentinel_of_evalExprs values f (List.mem_cons_of_mem _ List.mem_cons_self)
  have underway : Underway host me inner f u.heap.next xs run w t :=
    (underway_first found operands exist unshadowed).of_turns representable elements callee turns
  have fits : t.left.length < 2 ^ 63 :=
    Nat.lt_of_le_of_lt underway.left.length_le representable
  refine ⟨⟨underway.left, underway.counted⟩, ?_, ?_⟩
  · obtain ⟨left, done, state⟩ := t
    rintro rfl
    exact underway.ends (turn_done underway.mapped) rfl
  · obtain ⟨_, done, state⟩ := t
    rintro x left rfl
    have element : x.isSentinel = false := elements x (underway.left.mem List.mem_cons_self)
    refine ⟨?_, ?_⟩
    · rintro ⟨v, w', ended⟩
      obtain ⟨_, around⟩ := underway.around
      obtain ⟨n, r, turn⟩ := around.exists_run ended
      exact turn_needs underway.mapped fits element callee turn
    · intro message u' application
      exact underway.ends (turn_stops underway.mapped fits element callee application rfl) rfl

/-- The state after the `let` of the program. -/
def World.mapping : World :=
  { World.rooted with
    heap := World.rooted.heap.define ⟨0⟩ "map" (.fn (TreeWalk.mapping ⟨0, 0⟩ ⟨0, 1⟩ ⟨0⟩)) }

/-- A function that takes integers only. -/
def double : Closure :=
  ⟨⟨0, 2⟩, ["x"], [.expr (.infixOp (.ident "x") .mul (.int 2))], ⟨0⟩⟩

/-- The call of the program with an array and that function. -/
def mapDouble (elements : List (Expr Origin)) : Expr Origin :=
  .call (.ident "map") [.array elements, .fn double.origin double.params double.body]

/-- The mapping over two integers, and over values the first of which the function refuses. -/
theorem mapping_sequential_double :
    (∀ call, (evalStmt .empty ⟨0⟩ call ⟨0⟩ (.bind "map" (mappingLiteral ⟨0, 0⟩ ⟨0, 1⟩))).run
      .rooted = some (.null, .mapping)) ∧
    (∃ w', Eventually (fun n => evalExpr .empty ⟨0⟩ (invoke .empty ⟨0⟩ n) ⟨0⟩
      (mapDouble [.int 4, .int 5])) .mapping (.array [.int 8, .int 10]) w') ∧
    ∃ w', Eventually (fun n => evalExpr .empty ⟨0⟩ (invoke .empty ⟨0⟩ n) ⟨0⟩
      (mapDouble [.bool true, .int 5])) .mapping (.err "type mismatch: BOOLEAN * INTEGER") w' := by
  have unshadowed : Unshadowed ⟨0⟩ World.mapping.heap :=
    List.forall_mem_cons.mpr ⟨rfl, List.forall_mem_cons.mpr ⟨rfl, List.forall_mem_cons.mpr
      ⟨rfl, List.forall_mem_singleton.mpr rfl⟩⟩⟩
  refine ⟨fun _ => rfl, ?_, ?_⟩
  · have operands : Eventually (fun n => evalExprs .empty ⟨0⟩ (invoke .empty ⟨0⟩ n) ⟨0⟩
        [.array [.int 4, .int 5], .fn double.origin double.params double.body]) .mapping
        (.ok [.array [.int 4, .int 5], .fn double]) .mapping := .always fun _ => rfl
    have along := mapping_sequential rfl operands (by decide) unshadowed
      (List.forall_mem_cons.mpr ⟨rfl, List.forall_mem_singleton.mpr rfl⟩) (by decide)
    let first := Turn.first ⟨0⟩ ⟨0, 0⟩ ⟨0, 1⟩ ⟨0⟩ [.int 4, .int 5] (.fn double) .mapping
    have begun : Turns .empty ⟨0⟩ (.fn double) (iteration ⟨0, 1⟩ World.mapping.heap.next) first
      first := .start
    have second := begun.next (y := .int 8) (eventually_applyValue_iff.mpr ⟨1, rfl⟩) rfl
    have last := second.next (y := .int 10) (eventually_applyValue_iff.mpr ⟨1, rfl⟩) rfl
    obtain ⟨spans, result⟩ := (along _ last).2.1 rfl
    exact ⟨_, result⟩
  · have operands : Eventually (fun n => evalExprs .empty ⟨0⟩ (invoke .empty ⟨0⟩ n) ⟨0⟩
        [.array [.bool true, .int 5], .fn double.origin double.params double.body]) .mapping
        (.ok [.array [.bool true, .int 5], .fn double]) .mapping := .always fun _ => rfl
    have along := mapping_sequential rfl operands (by decide) unshadowed
      (List.forall_mem_cons.mpr ⟨rfl, List.forall_mem_singleton.mpr rfl⟩) (by decide)
    obtain ⟨spans, result⟩ := ((along _ .start).2.2 _ _ rfl).2 _ _
      (eventually_applyValue_iff.mpr ⟨1, rfl⟩)
    exact ⟨_, result⟩

end TreeWalk
