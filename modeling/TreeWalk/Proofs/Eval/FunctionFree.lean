import TreeWalk.Proofs.Eval.Counting
import TreeWalk.Proofs.Scope.Chain
import TreeWalk.Proofs.Syntax.Literals
import TreeWalk.Proofs.Value.Closures

/-!
# Programs without functions

Where no function is reachable and a program has no function literal, no function is ever called:
names give no function, no operator or builtin makes one, and what is bound or returned contains
none. So evaluation is a walk of the tree alone. It ends whatever the calls of functions would do,
and leaves the scope such that the next program of this kind ends as well.

Calls of builtins are allowed, also through names, arrays and branches, so the program does not
show which value is called. The invariant of the scope does.

Results:
1. `Completes.bind`, `Completes.andThen`: runs that end without the calls of functions.
2. `evalExpr_completes`, `evalBlock_completes`: the walk.
3. `function_free_terminates`: such a program ends and stays in its scope, and so does each sequence
   of them.
-/

namespace TreeWalk

open Run

/-! ## Without functions -/

/-- No function is in the value, neither inside arrays nor in wrappers. -/
def Value.FunctionFree : Value → Prop :=
  Value.Closures fun _ => False

/-- No function is reachable from the scope, by way of the values bound along its chain. -/
def Heap.FunctionFree (h : Heap) (s : ScopeId) : Prop :=
  ∀ chain, h.Chain s chain → BoundIn (· ∈ chain) Value.FunctionFree h

theorem Value.hereditary_functionFree : Hereditary Value.FunctionFree :=
  Value.hereditary_closures _

theorem Value.not_functionFree_fn (f : Closure) : ¬ (Value.fn f).FunctionFree :=
  Value.closures_fn.mp

namespace Heap

variable {h : Heap} {s : ScopeId}

theorem Chain.mem_self {chain : List ScopeId} (of : h.Chain s chain) : s ∈ chain := by
  cases of with
  | root _ => exact List.mem_singleton_self s
  | inside _ _ => exact List.mem_cons_self

theorem Chain.mem_of_parent? {chain : List ScopeId} (of : h.Chain s chain) {c p : ScopeId}
    (mem : c ∈ chain) (parent : h.parent? c = some p) : p ∈ chain := by
  induction of with
  | root none =>
    obtain rfl := List.mem_singleton.mp mem
    rw [none] at parent
    cases parent
  | inside around outer ih =>
    rcases List.mem_cons.mp mem with rfl | mem
    · rw [around] at parent
      cases parent
      exact List.mem_cons_of_mem _ outer.mem_self
    · exact List.mem_cons_of_mem _ (ih mem)

/-- Chains depend on parents only. -/
theorem Chain.of_parent?_eq {k : Heap} (same : ∀ c, k.parent? c = h.parent? c)
    {chain : List ScopeId} (of : k.Chain s chain) : h.Chain s chain := by
  induction of with
  | root none => exact .root ((same _).symm.trans none)
  | inside parent _ ih => exact .inside ((same _).symm.trans parent) ih

theorem FunctionFree.resolve (free : h.FunctionFree s) {name : String} {v : Value}
    (found : h.resolve s name = some v) : v.FunctionFree := by
  obtain ⟨chain, of⟩ := h.exists_chain s
  exact (free chain of).resolve (fun c p mem parent => of.mem_of_parent? mem parent) s of.mem_self
    found

theorem FunctionFree.define (free : h.FunctionFree s) (name : String) {v : Value}
    (value : v.FunctionFree) : (h.define s name v).FunctionFree s := by
  intro chain of
  exact (free chain (of.of_parent?_eq (h.parent?_define s · name v))).define s name value

end Heap

/-! ## What such a program leaves behind -/

/-- The heap has come from another by writes to one scope, from which no function is reachable. -/
structure WrittenAt (s : ScopeId) (h h' : Heap) : Prop where
  functionFree : h'.FunctionFree s
  size : h'.size = h.size
  parents : ∀ c, h'.parent? c = h.parent? c
  others : ∀ c, c ≠ s → h'.bindings c = h.bindings c

namespace WrittenAt

variable {s : ScopeId} {h k l : Heap}

theorem refl (free : h.FunctionFree s) : WrittenAt s h h :=
  ⟨free, rfl, fun _ => rfl, fun _ _ => rfl⟩

theorem trans (first : WrittenAt s h k) (next : WrittenAt s k l) : WrittenAt s h l where
  functionFree := next.functionFree
  size := next.size.trans first.size
  parents c := (next.parents c).trans (first.parents c)
  others c ne := (next.others c ne).trans (first.others c ne)

theorem define (written : WrittenAt s h k) (name : String) {v : Value} (value : v.FunctionFree) :
    WrittenAt s h (k.define s name v) where
  functionFree := written.functionFree.define name value
  size := (k.size_define s name v).trans written.size
  parents c := (k.parent?_define s c name v).trans (written.parents c)
  others c ne := by
    rw [Heap.bindings_define, if_neg fun both => ne both.1]
    exact written.others c ne

end WrittenAt

/-! ## Runs that end without the calls of functions -/

section Completes

variable {α β : Type}

/-- The run ends whatever the calls of closures do, and always with the same result, of which the
condition holds. -/
def Completes (x : (Closure → List Value → Run Value) → Run α) (w : World)
    (post : α → World → Prop) : Prop :=
  ∃ a w', (∀ call, (x call).run w = some (a, w')) ∧ post a w'

variable {x : (Closure → List Value → Run Value) → Run α} {w : World} {post : α → World → Prop}

theorem Completes.ofResult {a : α} {w' : World} (result : ∀ call, (x call).run w = some (a, w'))
    (ends : post a w') : Completes x w post :=
  ⟨a, w', result, ends⟩

theorem Completes.pure {a : α} (ends : post a w) : Completes (fun _ => Pure.pure a) w post :=
  .ofResult (fun _ => rfl) ends

theorem Completes.bind {f : (Closure → List Value → Run Value) → α → Run β}
    {post' : β → World → Prop} (first : Completes x w post)
    (next : ∀ a u, post a u → Completes (f · a) u post') :
    Completes (fun call => x call >>= f call) w post' := by
  obtain ⟨a, u, ran, mid⟩ := first
  obtain ⟨b, w', goesOn, ends⟩ := next a u mid
  exact ⟨b, w', fun call => bind_eq_some.mpr ⟨a, u, ran call, goesOn call⟩, ends⟩

theorem Completes.andThen {x : (Closure → List Value → Run Value) → Run Value}
    {f : (Closure → List Value → Run Value) → Value → Run Value} {post : Value → World → Prop}
    (first : Completes x w post) (next : ∀ v u, post v u → Completes (f · v) u post) :
    Completes (fun call => Run.andThen (x call) (f call)) w post := by
  refine first.bind fun v u mid => ?_
  cases v.isSentinel with
  | true => exact .pure mid
  | false => exact next v u mid

end Completes

/-! ## The walk -/

section Walk

variable {host : Host} {me : InterpreterId} {s : ScopeId} {h : Heap} {w : World}

/-- A result without functions, in a state whose heap was written at one scope. -/
def Quiet (s : ScopeId) (h : Heap) (v : Value) (w : World) : Prop :=
  WrittenAt s h w.heap ∧ v.FunctionFree

/-- Values without functions for some expressions, or the first sentinel. -/
def QuietAll (s : ScopeId) (h : Heap) (r : Except Value (List Value)) (w : World) : Prop :=
  match r with
  | .ok vs => WrittenAt s h w.heap ∧ ∀ v ∈ vs, v.FunctionFree
  | .error v => Quiet s h v w

theorem orRaise_completes (written : WrittenAt s h w.heap) {r : Except EvalFault Value}
    (value : ∀ v, r = .ok v → v.FunctionFree) :
    Completes (fun _ => orRaise me r) w (Quiet s h) := by
  cases r with
  | ok v => exact .pure ⟨written, value v rfl⟩
  | error fault => exact .ofResult (fun _ => run_raise me fault w) ⟨written, Value.closures_err _⟩

theorem evalName_completes (written : WrittenAt s h w.heap) (name : String) :
    Completes (fun _ => evalName me s name) w (Quiet s h) := by
  have result := run_evalName me s name w
  cases found : w.heap.resolve s name with
  | some v =>
    rw [found] at result
    exact .ofResult (fun _ => result) ⟨written, written.functionFree.resolve found⟩
  | none =>
    rw [found] at result
    cases named : Standard.named? name with
    | some op =>
      rw [named] at result
      exact .ofResult (fun _ => result) ⟨written, Value.closures_builtin _⟩
    | none =>
      rw [named] at result
      exact .ofResult (fun _ => result) ⟨written, Value.closures_err _⟩

/-- Only a builtin can be called, and it makes no function of what it is given. -/
theorem evalCall_completes (keeps : host.Keeps Value.FunctionFree)
    (written : WrittenAt s h w.heap) {callee : Value} {args : List Value}
    (free : callee.FunctionFree) (all : ∀ v ∈ args, v.FunctionFree) :
    Completes (fun call => evalCall host me call callee args) w (Quiet s h) := by
  cases callee with
  | fn f => exact absurd free (Value.not_functionFree_fn f)
  | builtin b =>
    cases b with
    | standard owner op =>
      let u := w.calling me (.standard owner op) args.length
      refine .ofResult (fun _ => run_standard owner op args u) ⟨?_, ?_⟩
      · rw [World.heap_computed]
        exact written
      · cases eq : ((u.interpreter owner).compute op args).1 with
        | ok v => exact Value.hereditary_functionFree.compute all eq
        | error fault => exact Value.closures_err _
    | host id name => exact .ofResult (fun _ => rfl) ⟨written, keeps id args all⟩
  | int n | bool b | null | str text | array items | ret v | err message =>
    exact .ofResult (fun _ => rfl) ⟨written, Value.closures_err _⟩

mutual

theorem evalExpr_completes (keeps : host.Keeps Value.FunctionFree) :
    (e : Expr Origin) → ∀ {w}, WrittenAt s h w.heap →
    (∀ use ∈ e.uses, use.literal? = none) →
    Completes (fun call => evalExpr host me call s e) w (Quiet s h)
  | .ident name, w, written, free => evalName_completes written name
  | .int n, w, written, free => .pure ⟨written, Value.hereditary_functionFree.int n⟩
  | .str text, w, written, free => .pure ⟨written, Value.hereditary_functionFree.str text⟩
  | .bool b, w, written, free => .pure ⟨written, Value.hereditary_functionFree.bool b⟩
  | .prefixOp op e, w, written, free => by
    refine (evalExpr_completes keeps e written free).andThen fun v u ⟨written, value⟩ => ?_
    exact orRaise_completes written fun r eq => Value.hereditary_functionFree.onPrefix eq
  | .infixOp l op r, w, written, free => by
    simp only [Expr.uses, List.forall_mem_append] at free
    refine (evalExpr_completes keeps l written free.1).andThen fun a u ⟨written, _⟩ => ?_
    refine (evalExpr_completes keeps r written free.2).andThen fun b u ⟨written, _⟩ => ?_
    exact orRaise_completes written fun r eq => Value.hereditary_functionFree.onInfix eq
  | .ifElse c t none, w, written, free => by
    simp only [Expr.uses, List.forall_mem_append] at free
    refine (evalExpr_completes keeps c written free.1).andThen fun v u ⟨written, _⟩ => ?_
    split
    · exact evalBlock_completes keeps t written Value.hereditary_functionFree.null free.2
    · exact .pure ⟨written, Value.hereditary_functionFree.null⟩
  | .ifElse c t (some e), w, written, free => by
    simp only [Expr.uses, List.forall_mem_append] at free
    refine (evalExpr_completes keeps c written free.1).andThen fun v u ⟨written, _⟩ => ?_
    split
    · exact evalBlock_completes keeps t written Value.hereditary_functionFree.null free.2.1
    · exact evalBlock_completes keeps e written Value.hereditary_functionFree.null free.2.2
  | .fn origin params body, w, written, free => by
    have literal : some (Literal.mk origin params body) = none :=
      free (.capture origin params body) List.mem_cons_self
    cases literal
  | .call f args, w, written, free => by
    simp only [Expr.uses, List.forall_mem_append] at free
    refine (evalExpr_completes keeps f written free.1).andThen fun callee u ⟨written, value⟩ => ?_
    refine (evalExprs_completes keeps args written free.2).bind fun r u ends => ?_
    cases r with
    | ok values => exact evalCall_completes keeps ends.1 value ends.2
    | error v => exact .pure ends
  | .array es, w, written, free => by
    refine (evalExprs_completes keeps es written free).bind fun r u ends => ?_
    cases r with
    | ok values =>
      exact .pure ⟨ends.1, (Value.hereditary_functionFree.array values).mpr ends.2⟩
    | error v => exact .pure ends
  | .index l i, w, written, free => by
    simp only [Expr.uses, List.forall_mem_append] at free
    refine (evalExpr_completes keeps l written free.1).andThen fun a u ⟨written, left⟩ => ?_
    refine (evalExpr_completes keeps i written free.2).andThen fun b u ⟨written, _⟩ => ?_
    exact orRaise_completes written fun r eq => Value.hereditary_functionFree.atPosition left eq

theorem evalExprs_completes (keeps : host.Keeps Value.FunctionFree) :
    (es : List (Expr Origin)) → ∀ {w}, WrittenAt s h w.heap →
    (∀ use ∈ Expr.usesOfAll es, use.literal? = none) →
    Completes (fun call => evalExprs host me call s es) w (QuietAll s h)
  | [], w, written, free => .pure ⟨written, List.forall_mem_nil _⟩
  | e :: es, w, written, free => by
    simp only [Expr.usesOfAll, List.forall_mem_append] at free
    refine (evalExpr_completes keeps e written free.1).bind fun v u ⟨written, value⟩ => ?_
    split
    · exact .pure ⟨written, value⟩
    · refine (evalExprs_completes keeps es written free.2).bind fun r u ends => ?_
      cases r with
      | ok values => exact .pure ⟨ends.1, List.forall_mem_cons.mpr ⟨value, ends.2⟩⟩
      | error sentinel => exact .pure ends

theorem evalStmt_completes (keeps : host.Keeps Value.FunctionFree) :
    (stmt : Stmt Origin) → ∀ {w}, WrittenAt s h w.heap →
    (∀ use ∈ stmt.uses, use.literal? = none) →
    Completes (fun call => evalStmt host me call s stmt) w (Quiet s h)
  | .bind name e, w, written, free => by
    simp only [Stmt.uses, List.forall_mem_append] at free
    refine (evalExpr_completes keeps e written free.1).andThen fun v u ⟨written, value⟩ => ?_
    exact .ofResult (fun _ => rfl) ⟨written.define name value, Value.hereditary_functionFree.null⟩
  | .ret e, w, written, free => by
    refine (evalExpr_completes keeps e written free).andThen fun v u ⟨written, value⟩ => ?_
    exact .pure ⟨written, Value.closures_ret.mpr value⟩
  | .expr e, w, written, free => evalExpr_completes keeps e written free

theorem evalBlock_completes (keeps : host.Keeps Value.FunctionFree) :
    (block : Block Origin) → ∀ {before w}, WrittenAt s h w.heap →
    before.FunctionFree → (∀ use ∈ Block.uses block, use.literal? = none) →
    Completes (fun call => evalBlock host me call s before block) w (Quiet s h)
  | [], before, w, written, value, free => .pure ⟨written, value⟩
  | stmt :: rest, before, w, written, value, free => by
    simp only [Block.uses, List.forall_mem_append] at free
    refine (evalStmt_completes keeps stmt written free.1).andThen fun v u ⟨written, value⟩ => ?_
    exact evalBlock_completes keeps rest written value free.2

end

end Walk

/-! ## Programs -/

/-- What is left when programs have run in a scope and no function was called. -/
structure World.WrittenAt (s : ScopeId) (w w' : World) : Prop
    extends TreeWalk.WrittenAt s w.heap w'.heap where
  functionCalls : ∀ i,
    (w'.interpreter i).stats.functionCalls = (w.interpreter i).stats.functionCalls

/-- The values of some programs, evaluated in one scope one after the other, each by an
interpreter. A program that ends in a fault does not keep the next one from running. -/
def evalInTurn (host : Host) (depth : Nat) (s : ScopeId) :
    List (InterpreterId × Program Origin) → Run (List Value)
  | [] => pure []
  | (me, program) :: rest => do
      let v ← evalProgram host me depth s program
      let vs ← evalInTurn host depth s rest
      return v :: vs

section Programs

variable {host : Host} {s : ScopeId} {w : World}

/-- A call of a function makes a scope, so where no scope was made no function was called. -/
theorem World.Counted.functionCalls_eq {me : InterpreterId} {w' : World} {events : List Event}
    (counted : w.Counted me events w') (size : w'.heap.size = w.heap.size) (i : InterpreterId) :
    (w'.interpreter i).stats.functionCalls = (w.interpreter i).stats.functionCalls := by
  have calls : events.countP Event.isCall = 0 :=
    Nat.add_left_cancel (counted.size.symm.trans size)
  rw [counted.stats]
  split
  · rw [Stats.after, calls, Nat.add_zero]
  · rfl

theorem evalProgram_terminates (keeps : host.Keeps Value.FunctionFree) (me : InterpreterId)
    {program : Program Origin} (literalFree : Block.literals program = [])
    (free : w.heap.FunctionFree s) :
    ∃ v w', (∀ depth, (evalProgram host me depth s program).run w = some (v, w')) ∧
      w.WrittenAt s w' ∧ v.FunctionFree := by
  let start := w.record (.enter (.program program.length))
  have completes : Completes (fun call => evalBlock host me call s .null program) start
      (Quiet s w.heap) :=
    evalBlock_completes keeps program (.refl free) Value.hereditary_functionFree.null
      (List.filterMap_eq_nil_iff.mp literalFree)
  obtain ⟨v, u, ran, written, value⟩ := completes
  have result : ∀ depth, (evalProgram host me depth s program).run w =
      some (v.unwrapReturn, u.record (.leave (.program program.length))) := by
    intro depth
    rw [run_evalProgram, ran (invoke host me depth)]
    rfl
  obtain ⟨events, counted⟩ := exists_counted_evalProgram (result 0)
  exact ⟨_, _, result, ⟨written, counted.functionCalls_eq written.size⟩,
    Value.hereditary_functionFree.unwrapReturn value⟩

theorem evalInTurn_terminates (keeps : host.Keeps Value.FunctionFree)
    {programs : List (InterpreterId × Program Origin)}
    (literalFree : ∀ p ∈ programs, Block.literals p.2 = []) (free : w.heap.FunctionFree s) :
    ∃ vs w', (∀ depth, (evalInTurn host depth s programs).run w = some (vs, w')) ∧
      w.WrittenAt s w' ∧ ∀ v ∈ vs, v.FunctionFree := by
  induction programs generalizing w with
  | nil => exact ⟨[], w, fun _ => rfl, ⟨.refl free, fun _ => rfl⟩, List.forall_mem_nil _⟩
  | cons p programs ih =>
    obtain ⟨me, program⟩ := p
    obtain ⟨first, rest⟩ := List.forall_mem_cons.mp literalFree
    obtain ⟨v, u, ran, written, value⟩ := evalProgram_terminates keeps me first free
    obtain ⟨vs, w', goesOn, after, values⟩ := ih rest written.functionFree
    refine ⟨v :: vs, w', fun depth => ?_, ⟨written.trans after.toWrittenAt, fun i => ?_⟩, ?_⟩
    · rw [evalInTurn, run_bind, ran depth, Option.bind_some, run_bind, goesOn depth]
      rfl
    · exact (after.functionCalls i).trans (written.functionCalls i)
    · exact List.forall_mem_cons.mpr ⟨value, values⟩

end Programs

/-- Evaluation goes on for ever by calls of functions only. A program without function literals ends
in a scope from which no function is reachable, with the same result at every bound on the nesting
of calls. No scope is made, no function is called, and no scope is written but the one in which the
program runs. No function is in the result, and none is reachable from the scope afterwards. So
sequences of such programs end as well. -/
theorem function_free_terminates (host : Host) (keeps : host.Keeps Value.FunctionFree)
    (s : ScopeId) (w : World) (free : w.heap.FunctionFree s) :
    (∀ (me : InterpreterId) (program : Program Origin), Block.literals program = [] →
      ∃ v w', (∀ depth, (evalProgram host me depth s program).run w = some (v, w')) ∧
        w.WrittenAt s w' ∧ v.FunctionFree) ∧
    ∀ programs : List (InterpreterId × Program Origin),
      (∀ p ∈ programs, Block.literals p.2 = []) →
      ∃ vs w', (∀ depth, (evalInTurn host depth s programs).run w = some (vs, w')) ∧
        w.WrittenAt s w' ∧ ∀ v ∈ vs, v.FunctionFree :=
  ⟨fun me _ literalFree => evalProgram_terminates keeps me literalFree free,
    fun _ literalFree => evalInTurn_terminates keeps literalFree free⟩

/-- A state whose root scope binds an array. -/
def World.listing : World :=
  { World.rooted with heap := World.rooted.heap.define ⟨0⟩ "xs" (.array [.int 1, .int 2]) }

theorem World.functionFree_listing : World.listing.heap.FunctionFree ⟨0⟩ := by
  intro chain _
  refine BoundIn.define ?_ _ _ ?_
  · intro c n v _ found
    rw [World.bindings_rooted] at found
    cases found
  · refine (Value.hereditary_functionFree.array _).mpr (List.forall_mem_cons.mpr ⟨?_, ?_⟩)
    · exact Value.hereditary_functionFree.int 1
    · exact List.forall_mem_singleton.mpr (Value.hereditary_functionFree.int 2)

/-- A program that calls a builtin by another name, and one that stands in an array. -/
def lengthen : Program Origin :=
  [.bind "more" (.ident "push"),
    .bind "ys" (.call (.ident "more") [.ident "xs", .call (.ident "len") [.ident "xs"]]),
    .expr (.call (.index (.array [.ident "first", .ident "last"]) (.int 1)) [.ident "ys"])]

/-- A program that goes on with what the other has bound. -/
def lengthenAgain : Program Origin :=
  [.expr (.call (.ident "more") [.ident "ys", .int 5])]

/-- A program of builtins, and two of them in turn. -/
theorem function_free_terminates_listing :
    (∃ w', (∀ depth, (evalProgram .empty ⟨0⟩ depth ⟨0⟩ lengthen).run .listing =
        some (.int 2, w')) ∧ World.listing.WrittenAt ⟨0⟩ w') ∧
    ∃ w', (∀ depth, (evalInTurn .empty depth ⟨0⟩ [(⟨0⟩, lengthen), (⟨1⟩, lengthenAgain)]).run
        .listing = some ([.int 2, .array [.int 1, .int 2, .int 2, .int 5]], w')) ∧
      World.listing.WrittenAt ⟨0⟩ w' := by
  obtain ⟨single, inTurn⟩ := function_free_terminates .empty (Host.makesNoClosure_empty.keeps _) ⟨0⟩
    .listing World.functionFree_listing
  constructor
  · obtain ⟨v, w', ran, written, -⟩ := single ⟨0⟩ lengthen rfl
    obtain rfl : Value.int 2 = v := congrArg Prod.fst (Option.some.inj (ran 0))
    exact ⟨w', ran, written⟩
  · have literalFree : ∀ p ∈ [((⟨0⟩ : InterpreterId), lengthen), (⟨1⟩, lengthenAgain)],
        Block.literals p.2 = [] :=
      List.forall_mem_cons.mpr ⟨rfl, List.forall_mem_singleton.mpr rfl⟩
    obtain ⟨vs, w', ran, written, -⟩ := inTurn _ literalFree
    obtain rfl : [.int 2, .array [.int 1, .int 2, .int 2, .int 5]] = vs :=
      congrArg Prod.fst (Option.some.inj (ran 0))
    exact ⟨w', ran, written⟩

end TreeWalk
