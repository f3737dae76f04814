import TreeWalk.Proofs.Scope.Frame
import TreeWalk.Proofs.Scope.Growth
import TreeWalk.Proofs.Syntax.Literals
import TreeWalk.Proofs.Value.Closures

/-!
# Scopes mirror the nesting of literals

A program starts in a root scope that holds no closures. Every scope that is made while it runs is
that of a call of a closure, and so belongs to a function literal of the program. The scopes around
it belong to the literals around that literal, however deeply the calls are nested: a closure takes
along the scope in which its literal was evaluated, and that one belongs to the body in which the
literal stands.

Which scope belongs to which literal is an assignment of places to scopes. It grows with each call,
and is the stage of the invariant.

Results:
1. `Mirrored.depth_eq`: a scope is as deep as its place is long.
2. `nestingInvariant`: the nesting, as an invariant of evaluation.
3. `scopes_mirror_literals`: scopes and closures after a program has run.
-/

namespace TreeWalk

/-! ## Places of scopes -/

/-- The places of the literals, or of the program, to which scopes belong. -/
structure Placing where
  at? : ScopeId → Option Place

namespace Placing

/-- A later assignment has places for more scopes. -/
instance : Preorder Placing where
  le g k := ∀ c place, g.at? c = some place → k.at? c = some place
  le_refl _ _ _ eq := eq
  le_trans _ _ _ le le' c place eq := le' c place (le c place eq)

/-- The root scope belongs to the program. -/
def start (root : ScopeId) : Placing :=
  ⟨fun c => if c = root then some [] else none⟩

/-- One more scope belongs to a literal. -/
def add (g : Placing) (new : ScopeId) (place : Place) : Placing :=
  ⟨fun c => if c = new then some place else g.at? c⟩

theorem at_start (root c : ScopeId) :
    (start root).at? c = if c = root then some [] else none := rfl

theorem at_add (g : Placing) (new : ScopeId) (place : Place) (c : ScopeId) :
    (g.add new place).at? c = if c = new then some place else g.at? c := rfl

end Placing

/-- The closure was made of a literal of the program, in a scope that belongs to what is directly
around the literal. -/
def Closure.Stands (program : Program Origin) (g : Placing) (f : Closure) : Prop :=
  ∃ i outer, Block.literalAt program (i :: outer) = some ⟨f.origin, f.params, f.body⟩ ∧
    g.at? f.scope = some outer

/-- The closure was made of a literal of the program, and captured a scope that is as deep as the
literal is nested. -/
def Closure.Mirrors (program : Program Origin) (g : Placing) (h : Heap) (f : Closure) : Prop :=
  ∃ i outer, Block.literalAt program (i :: outer) = some ⟨f.origin, f.params, f.body⟩ ∧
    g.at? f.scope = some outer ∧ h.depth f.scope = outer.length

/-- What a scope binds that belongs to a literal: all its parameters, and else targets of its body
outside further literals. -/
structure Heap.BelongsTo (h : Heap) (c : ScopeId) (l : Literal Origin) : Prop where
  params : ∀ n ∈ l.params, n ∈ (h.bindings c).names
  names : ∀ n ∈ (h.bindings c).names, n ∈ l.params ∨ n ∈ Use.targets (Block.uses l.body)

/-- The scopes made since there were `old` of them mirror the nesting of the literals. -/
structure Mirrored (program : Program Origin) (root : ScopeId) (old : Nat) (g : Placing)
    (h : Heap) : Prop where
  root_old : root.index < old
  old_le : old ≤ h.size
  /-- The root belongs to the program, and the other scopes with a place were made since. -/
  placed : ∀ c place, g.at? c = some place →
    c = root ∧ place = [] ∨ old ≤ c.index ∧ c.index < h.size ∧ place ≠ []
  root_placed : g.at? root = some []
  root_parent : h.parent? root = none
  /-- A scope that was made belongs to a literal, and the scope around it to what is directly
  around the literal. -/
  made : ∀ c, old ≤ c.index → c.index < h.size → ∃ i outer l p,
    g.at? c = some (i :: outer) ∧ Block.literalAt program (i :: outer) = some l ∧
      h.BelongsTo c l ∧ h.parent? c = some p ∧ g.at? p = some outer

variable {program : Program Origin} {root : ScopeId} {old : Nat} {g k : Placing} {h : Heap}

theorem Closure.Stands.mono (le : g ≤ k) {f : Closure} (stands : f.Stands program g) :
    f.Stands program k := by
  obtain ⟨i, outer, literal, captured⟩ := stands
  exact ⟨i, outer, literal, le _ _ captured⟩

namespace Mirrored

/-- A scope is as deep as its place is long. -/
theorem depth_eq (mirrored : Mirrored program root old g h) {c : ScopeId} {place : Place}
    (eq : g.at? c = some place) : h.depth c = place.length := by
  induction c using h.chain_induction generalizing place with
  | step c ih =>
    rw [Heap.depth_eq]
    rcases mirrored.placed c place eq with ⟨rfl, rfl⟩ | ⟨new, lt, _⟩
    · rw [mirrored.root_parent]
      rfl
    · obtain ⟨i, outer, l, p, at_, _, _, parent, around⟩ := mirrored.made c new lt
      rw [at_] at eq
      cases eq
      rw [parent, Option.map_some, ih p parent around]
      rfl

theorem closure (mirrored : Mirrored program root old g h) {f : Closure}
    (stands : f.Stands program g) : f.Mirrors program g h := by
  obtain ⟨i, outer, literal, captured⟩ := stands
  exact ⟨i, outer, literal, captured, mirrored.depth_eq captured⟩

/-- The scope around one that has a place has a place. -/
theorem placed_parent (mirrored : Mirrored program root old g h) {c p : ScopeId}
    (placed : g.at? c ≠ none) (parent : h.parent? c = some p) : g.at? p ≠ none := by
  obtain ⟨place, eq⟩ := Option.ne_none_iff_exists'.mp placed
  rcases mirrored.placed c place eq with ⟨rfl, rfl⟩ | ⟨new, lt, _⟩
  · rw [mirrored.root_parent] at parent
    cases parent
  · obtain ⟨i, outer, l, q, _, _, _, up, around⟩ := mirrored.made c new lt
    rw [parent] at up
    cases up
    rw [around]
    exact Option.some_ne_none outer

end Mirrored

/-! ## Writes and calls -/

namespace Heap

theorem mem_names_define {s c : ScopeId} {name n : String} {v : Value} :
    n ∈ ((h.define s name v).bindings c).names ↔
      n ∈ (h.bindings c).names ∨ c = s ∧ s.index < h.size ∧ n = name := by
  rw [bindings_define]
  split
  · next written =>
    obtain ⟨rfl, exists_⟩ := written
    rw [Bindings.mem_names_iff, Bindings.mem_names_iff, Bindings.get?_set]
    by_cases eq : n = name <;> simp [eq, exists_]
  · next other =>
    rw [or_iff_left]
    exact fun written => other ⟨written.1, written.2.1⟩

/-- With an argument for each parameter, the scope of a call binds the parameters. -/
theorem mem_names_callScope {f : Closure} {args : List Value} (arity : f.arity = args.length)
    {n : String} : n ∈ ((h.callScope f args).2.bindings h.next).names ↔ n ∈ f.params := by
  rw [callScope, bindings_allocate, if_pos rfl, Bindings.mem_names_iff,
    get?_callBindings_ne_none_iff, List.map_fst_zip (Nat.le_of_eq arity)]

theorem bindings_callScope {f : Closure} {args : List Value} {c : ScopeId} (ne : c ≠ h.next) :
    (h.callScope f args).2.bindings c = h.bindings c := by
  rw [callScope, bindings_allocate, if_neg ne]

theorem BelongsTo.define {c s : ScopeId} {l : Literal Origin} {name : String} {v : Value}
    (belongs : h.BelongsTo c l) (target : c = s → name ∈ Use.targets (Block.uses l.body)) :
    (h.define s name v).BelongsTo c l where
  params n param := mem_names_define.mpr (.inl (belongs.params n param))
  names n bound := by
    rcases mem_names_define.mp bound with before | ⟨here, _, rfl⟩
    · exact belongs.names n before
    · exact .inr (target here)

theorem belongsTo_callScope {f : Closure} {args : List Value} (arity : f.arity = args.length) :
    (h.callScope f args).2.BelongsTo h.next ⟨f.origin, f.params, f.body⟩ where
  params _ param := (mem_names_callScope arity).mpr param
  names _ bound := .inl ((mem_names_callScope arity).mp bound)

end Heap

/-- What is allowed in a scope is what the body does to which it belongs. -/
def Placing.Allows (program : Program Origin) (g : Placing) (s : ScopeId) (use : Use Origin) :
    Prop :=
  ∃ place body, g.at? s = some place ∧ Block.bodyAt program place = some body ∧
    use ∈ Block.uses body

namespace Mirrored

theorem start {root : ScopeId} (exists_ : root.index < h.size) (parent : h.parent? root = none) :
    Mirrored program root h.size (.start root) h where
  root_old := exists_
  old_le := Nat.le_refl _
  placed c place eq := by
    rw [Placing.at_start] at eq
    split at eq
    · next here =>
      cases eq
      exact .inl ⟨here, rfl⟩
    · cases eq
  root_placed := if_pos rfl
  root_parent := parent
  made c new lt := absurd lt (Nat.not_lt_of_le new)

/-- A target of the body to which a scope belongs may be bound there. -/
theorem define (mirrored : Mirrored program root old g h) {s : ScopeId} {name : String}
    (allowed : g.Allows program s (.bind name)) (v : Value) :
    Mirrored program root old g (h.define s name v) where
  root_old := mirrored.root_old
  old_le := by
    rw [Heap.size_define]
    exact mirrored.old_le
  placed := by
    rw [Heap.size_define]
    exact mirrored.placed
  root_placed := mirrored.root_placed
  root_parent := by
    rw [Heap.parent?_define]
    exact mirrored.root_parent
  made c new lt := by
    rw [Heap.size_define] at lt
    obtain ⟨i, outer, l, p, at_, literal, belongs, parent, around⟩ := mirrored.made c new lt
    rw [Heap.parent?_define]
    refine ⟨i, outer, l, p, at_, literal, belongs.define ?_, parent, around⟩
    -- The body in which the `let` stands is that of the literal, as both are at the same place.
    rintro rfl
    obtain ⟨place, body, eq, bodyEq, mem⟩ := allowed
    rw [at_] at eq
    cases eq
    rw [Block.bodyAt_eq, literal] at bodyEq
    cases bodyEq
    exact Use.mem_targets_iff.mpr mem

theorem exists_of_placed (mirrored : Mirrored program root old g h) {c : ScopeId} {place : Place}
    (eq : g.at? c = some place) : c.index < h.size := by
  rcases mirrored.placed c place eq with ⟨rfl, _⟩ | ⟨_, lt, _⟩
  · exact Nat.lt_of_lt_of_le mirrored.root_old mirrored.old_le
  · exact lt

/-- The scope of a call is new, so all scopes that have a place keep it. -/
theorem le_add (mirrored : Mirrored program root old g h) (place : Place) :
    g ≤ g.add h.next place := by
  intro c before eq
  have ne : c ≠ h.next := by
    rintro rfl
    exact Nat.lt_irrefl _ (mirrored.exists_of_placed eq)
  rw [Placing.at_add, if_neg ne]
  exact eq

/-- The scope of a call of a closure belongs to the literal of which the closure was made. -/
theorem callScope (mirrored : Mirrored program root old g h) {f : Closure} {args : List Value}
    (arity : f.arity = args.length) {i : Nat} {outer : Place}
    (literal : Block.literalAt program (i :: outer) = some ⟨f.origin, f.params, f.body⟩)
    (captured : g.at? f.scope = some outer) :
    Mirrored program root old (g.add h.next (i :: outer)) (h.callScope f args).2 := by
  have le := mirrored.le_add (i :: outer)
  have size : (h.callScope f args).2.size = h.size + 1 := Heap.size_allocate _ _ _
  have other : ∀ {c : ScopeId}, c.index < h.size → c ≠ h.next := by
    rintro c lt rfl
    exact Nat.lt_irrefl _ lt
  refine ⟨mirrored.root_old, ?_, ?_, le _ _ mirrored.root_placed, ?_, ?_⟩
  · exact size ▸ Nat.le_succ_of_le mirrored.old_le
  · intro c place eq
    rw [size]
    rw [Placing.at_add] at eq
    split at eq
    · next here =>
      cases eq
      cases here
      exact .inr ⟨mirrored.old_le, Nat.lt_succ_self _, List.cons_ne_nil i outer⟩
    · refine (mirrored.placed c place eq).imp_right ?_
      exact fun ⟨new, lt, ne⟩ => ⟨new, Nat.lt_succ_of_lt lt, ne⟩
  · have lt := mirrored.exists_of_placed mirrored.root_placed
    rw [Heap.callScope, Heap.parent?_allocate, if_neg (other lt), mirrored.root_parent]
  · intro c new lt
    by_cases here : c = h.next
    · -- The captured scope exists, so the new one does get it as its parent.
      subst here
      have lt := mirrored.exists_of_placed captured
      refine ⟨i, outer, _, f.scope, ?_, literal, Heap.belongsTo_callScope arity, ?_,
        le _ _ captured⟩
      · rw [Placing.at_add, if_pos rfl]
      · exact Heap.parent?_allocate_next lt _
    · have before : c.index < h.size := by
        rw [size] at lt
        refine Nat.lt_of_le_of_ne (Nat.le_of_lt_succ lt) fun eq => here ?_
        cases c
        exact congrArg ScopeId.mk eq
      obtain ⟨j, around, l, p, at_, stands, belongs, parent, placed⟩ := mirrored.made c new before
      refine ⟨j, around, l, p, le _ _ at_, stands, ?_, ?_, le _ _ placed⟩
      · exact ⟨fun n => Heap.bindings_callScope here ▸ belongs.params n,
          fun n => Heap.bindings_callScope here ▸ belongs.names n⟩
      · rw [Heap.callScope, Heap.parent?_allocate, if_neg here, parent]

end Mirrored

/-! ## The invariant -/

/-- Evaluation keeps scopes and closures to the nesting of the literals of the program. -/
def nestingInvariant {host : Host} (makesNone : host.MakesNoClosure) (program : Program Origin)
    (root : ScopeId) (old : Nat) : HeapInvariant host Placing where
  Holds g h := Mirrored program root old g h ∧
    BoundIn (fun c => g.at? c ≠ none) (Value.Closures (Closure.Stands program g)) h
  Data g := Value.Closures (Closure.Stands program g)
  Allows g := g.Allows program
  data_mono le data := data.imp fun _ => Closure.Stands.mono le
  allows_mono le := fun ⟨place, body, eq, allowed⟩ => ⟨place, body, le _ _ eq, allowed⟩
  hereditary g := Value.hereditary_closures (Closure.Stands program g)
  standard _ me op := Value.closures_builtin (.standard me op)
  host _ all := .inr (makesNone.closures all)
  look := by
    rintro g s name h v ⟨mirrored, bound⟩ ⟨place, body, eq, _⟩ found
    refine bound.resolve (fun c p => mirrored.placed_parent) s ?_ found
    rw [eq]
    exact Option.some_ne_none place
  capture := by
    rintro g s origin params body ⟨outer, around, eq, bodyEq, mem⟩
    have direct : ⟨origin, params, body⟩ ∈ Block.literals around := Block.mem_literals_iff.mpr mem
    obtain ⟨i, literal⟩ := Block.exists_literalAt bodyEq direct
    exact Value.closures_fn.mpr ⟨i, outer, literal, eq⟩
  bind {g s name h v} holds allowed data :=
    ⟨g, le_refl g, holds.1.define allowed v, holds.2.define s name data⟩
  enter {g f args h} holds data all arity := by
    obtain ⟨mirrored, bound⟩ := holds
    obtain ⟨i, outer, literal, captured⟩ := Value.closures_fn.mp data
    have le := mirrored.le_add (i :: outer)
    refine ⟨g.add h.next (i :: outer), le, ⟨?_, ?_⟩, fun use mem => ?_⟩
    · exact mirrored.callScope arity literal captured
    · -- Before the call the new scope binds nothing, so it may be counted in.
      have counted : BoundIn (fun c => (g.add h.next (i :: outer)).at? c ≠ none)
          (Value.Closures (Closure.Stands program g)) h := by
        intro c n v placed found
        refine bound c n v ?_ found
        have ne : c ≠ h.next := by
          rintro rfl
          exact Nat.lt_irrefl _ (Heap.lt_size_of_get? found)
        rw [Placing.at_add, if_neg ne] at placed
        exact placed
      exact (counted.callScope f all).imp fun v stand => stand.imp fun _ => Closure.Stands.mono le
    · refine ⟨i :: outer, f.body, ?_, ?_, mem⟩
      · rw [Placing.at_add, if_pos rfl]
      · rw [Block.bodyAt_eq, literal]
        rfl

/-- Scopes mirror the nesting of literals. Where a program runs in a root scope that holds no
closures, each scope that is made belongs to a literal of the program, and the scope around it to
what is around the literal. The result contains only closures of literals of the program, and so
does each bound value that was not there before in a scope other than the root. The scope that such
a closure captured belongs to what is around the literal, and is as deep as the literal is
nested. -/
theorem scopes_mirror_literals (host : Host) (makesNone : host.MakesNoClosure)
    (me : InterpreterId) (depth : Nat) (root : ScopeId) (program : Program Origin) (w w' : World)
    (v : Value) (exists_ : root.index < w.heap.size) (isRoot : w.heap.parent? root = none)
    (plain : ∀ n x, (w.heap.bindings root).get? n = some x → x.Closures fun _ => False)
    (result : (evalProgram host me depth root program).run w = some (v, w')) :
    ∃ g, Mirrored program root w.heap.size g w'.heap ∧
      (∀ c n x, (w'.heap.bindings c).get? n = some x →
        (c ≠ root ∧ c.index < w.heap.size ∧ (w.heap.bindings c).get? n = some x) ∨
          x.Closures (Closure.Mirrors program g w'.heap)) ∧
      v.Closures (Closure.Mirrors program g w'.heap) := by
  let I := nestingInvariant makesNone program root w.heap.size
  have bound : BoundIn (fun c => (Placing.start root).at? c ≠ none)
      (Value.Closures (Closure.Stands program (.start root))) w.heap := by
    intro c n x placed found
    have here : c = root := by
      by_contra ne
      exact placed (if_neg ne)
    cases here
    exact (plain n x found).imp fun f => False.elim
  have allowed : ∀ use ∈ Block.uses program, I.Allows (.start root) root use :=
    fun use mem => ⟨[], program, if_pos rfl, rfl, mem⟩
  obtain ⟨g, -, ⟨mirrored, bound⟩, value⟩ :=
    I.evalProgram me depth ⟨.start exists_ isRoot, bound⟩ allowed result
  refine ⟨g, mirrored, fun c n x found => ?_, ?_⟩
  · have lt := Heap.lt_size_of_get? found
    by_cases other : c ≠ root ∧ c.index < w.heap.size
    · -- The program writes to its own scope and to new ones only.
      have frame := frameOf_eval (t := .program program) exists_ result
      rw [frame.others c other.2 other.1] at found
      exact .inl ⟨other.1, other.2, found⟩
    · have placed : g.at? c ≠ none := by
        by_cases here : c = root
        · rw [here, mirrored.root_placed]
          exact Option.some_ne_none []
        · have new := Nat.le_of_not_lt fun old => other ⟨here, old⟩
          obtain ⟨i, outer, l, p, eq, -⟩ := mirrored.made c new lt
          rw [eq]
          exact Option.some_ne_none _
      exact .inr ((bound c n x placed found).imp fun f => mirrored.closure)
  · exact (Value.closures_of_or value).imp fun f => mirrored.closure

/-- The closure of the innermost literal of `twicing`, made by the last of the calls. -/
def constant : Closure :=
  ⟨⟨3, 3⟩, ["z"], [.expr (.ident "y")], ⟨4⟩⟩

/-- A program that calls a function on the result of calling it. Its last call is made within
another one, and yet its scope lies directly in the root. -/
def twicing : Program Origin :=
  [.bind "twice" (.fn ⟨0, 0⟩ ["f"]
      [.expr (.fn ⟨1, 1⟩ ["x"] [.expr (.call (.ident "f") [.call (.ident "f") [.ident "x"]])])]),
    .expr (.call (.call (.ident "twice")
      [.fn ⟨2, 2⟩ ["y"] [.expr (.fn constant.origin constant.params constant.body)]]) [.int 0])]

theorem scopes_mirror_literals_twicing :
    ∃ w' g, (evalProgram .empty ⟨0⟩ 2 ⟨0⟩ twicing).run .rooted = some (.fn constant, w') ∧
      Mirrored twicing ⟨0⟩ 1 g w'.heap ∧ constant.Mirrors twicing g w'.heap ∧
      Block.literalAt twicing [0, 1] = some ⟨constant.origin, constant.params, constant.body⟩ := by
  have plain : ∀ n x, (World.rooted.heap.bindings ⟨0⟩).get? n = some x →
      x.Closures fun _ => False := by
    intro n x found
    rw [World.bindings_rooted] at found
    cases found
  have ends : ((evalProgram .empty ⟨0⟩ 2 ⟨0⟩ twicing).run .rooted).map Prod.fst =
      some (.fn constant) := by decide +kernel
  obtain ⟨⟨_, w'⟩, result, rfl⟩ := Option.map_eq_some_iff.mp ends
  obtain ⟨g, mirrored, -, value⟩ := scopes_mirror_literals .empty Host.makesNoClosure_empty ⟨0⟩ 2
    ⟨0⟩ twicing .rooted w' (.fn constant) (by decide) rfl plain result
  exact ⟨w', g, result, mirrored, Value.closures_fn.mp value, rfl⟩

end TreeWalk
