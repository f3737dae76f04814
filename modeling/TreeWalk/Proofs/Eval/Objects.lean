import TreeWalk.Proofs.Eval.HeapInvariant
import TreeWalk.Proofs.Scope.Bound
import TreeWalk.Proofs.Syntax.Labels
import TreeWalk.Proofs.Value.Closures
import TreeWalk.Proofs.Value.Identity

/-!
# The objects of a session

Evaluation makes a closure at a function literal only, and the closure has the contents of the
literal. So where one literal belongs to one label, all values of a session are made of the same
objects: those of the literals of its programs.

A labelled tree is such a case. The literals of its text determine the contents of all labels.

Results:
1. `objectsInvariant`, `madeOf_eval`: evaluation makes values of the objects from such values.
2. `Block.objects_closed`, `Block.madeOf_objects`: the objects of a program.
3. `madeOf_labelled`: the values that a labelled program makes.
-/

namespace TreeWalk

/-! ## Literals -/

/-- The contents of a literal are those of its labels. -/
structure Literal.MadeOf (o : Objects) (l : Literal Origin) : Prop where
  params : l.params = o.params l.mark.params
  body : l.body = o.body l.mark.body

/-- What the body captures has the contents of the labels. -/
def Block.MadeOf (o : Objects) (b : Block Origin) : Prop :=
  ∀ l ∈ Block.literals b, l.MadeOf o

/-- The bodies among the objects capture nothing else. -/
def Objects.Closed (o : Objects) : Prop :=
  ∀ label, Block.MadeOf o (o.body label)

/-- A use of a scope captures nothing else. -/
def Use.MadeOf (o : Objects) (use : Use Origin) : Prop :=
  ∀ l, use.literal? = some l → l.MadeOf o

theorem Block.madeOf_iff {o : Objects} {b : Block Origin} :
    Block.MadeOf o b ↔ ∀ use ∈ Block.uses b, use.MadeOf o := by
  constructor
  · intro made use mem l eq
    exact made l (List.mem_filterMap.mpr ⟨use, mem, eq⟩)
  · intro all l mem
    obtain ⟨use, mem, eq⟩ := List.mem_filterMap.mp mem
    exact all use mem l eq

/-! ## The invariant -/

/-- All bound values are made of the objects. -/
abbrev Heap.MadeOf (o : Objects) : Heap → Prop :=
  BoundIn (fun _ => True) (Value.MadeOf o)

/-- Evaluation makes no callable of anything but the objects. -/
def objectsInvariant {host : Host} {o : Objects} (keeps : host.Keeps (Value.MadeOf o))
    (closed : o.Closed) : HeapInvariant host OneStage where
  Holds _ := Heap.MadeOf o
  Data _ := Value.MadeOf o
  Allows _ _ := Use.MadeOf o
  data_mono _ made := made
  allows_mono _ may := may
  hereditary _ := Value.hereditary_madeOf o
  standard _ _ _ := Value.madeOf_builtin.mpr trivial
  host _ all := .inr (keeps _ _ all)
  look {_ s _ _ _} bound _ found := bound.resolve (fun _ _ _ _ => trivial) s trivial found
  capture may := by
    obtain ⟨params, body⟩ := may _ rfl
    exact Value.madeOf_fn.mpr ⟨params, body⟩
  bind bound _ made := ⟨.only, le_refl _, bound.define _ _ made⟩
  enter {_ f _ _} bound made all _ := by
    refine ⟨.only, le_refl _, bound.callScope _ all, Block.madeOf_iff.mp ?_⟩
    rw [(Value.madeOf_fn.mp made).body]
    exact closed f.origin.body

/-- What evaluation makes, and what it binds, is made of the objects. -/
theorem madeOf_eval {host : Host} {o : Objects} (keeps : host.Keeps (Value.MadeOf o))
    (closed : o.Closed) (me : InterpreterId) (depth : Nat) (t : Term) {s : ScopeId}
    {w w' : World} {v : Value} (heap : w.heap.MadeOf o) (term : ∀ use ∈ t.uses, use.MadeOf o)
    (result : (t.eval host me depth s).run w = some (v, w')) :
    w'.heap.MadeOf o ∧ v.MadeOf o := by
  obtain ⟨_, -, bound, carries⟩ :=
    (objectsInvariant keeps closed).eval me depth (g := .only) t heap term result
  refine ⟨bound, ?_⟩
  cases v with
  | err message => exact Value.madeOf_err message
  | ret v => exact Value.madeOf_ret.mpr carries
  | int n | bool b | null | str text | array items | fn f | builtin b => exact carries

/-! ## The objects of a program -/

namespace Block

/-- The first literal in a program with a label, as its parameter list or as its body. -/
def labelled? (program : Block Origin) (part : Origin → Nat) (label : Nat) :
    Option (Literal Origin) :=
  (allLiterals program).find? fun l => part l.mark = label

/-- The contents of the labels in a program, with names for the builtins of the host. -/
def objects (program : Block Origin) (name : HostId → String) : Objects where
  params label := (labelled? program Origin.params label).elim [] Literal.params
  body label := (labelled? program Origin.body label).elim [] Literal.body
  name := name

section Numbered

variable {program : Block Origin} {n m : Nat} (numbered : Numbered n (allLiterals program) m)
variable (name : HostId → String)

include numbered

/-- A literal is the only one with its labels, and so the first. -/
theorem labelled?_eq {l : Literal Origin} (mem : l ∈ allLiterals program) (part : Origin → Nat)
    (part_eq : ∀ k, part ⟨k, k⟩ = k) : labelled? program part (part l.mark) = some l := by
  cases found : labelled? program part (part l.mark) with
  | none => exact absurd (decide_eq_true rfl) (List.find?_eq_none.mp found l mem)
  | some first =>
    have among : first ∈ allLiterals program := List.mem_of_find?_eq_some found
    obtain ⟨k, -, eq⟩ := numbered.exists_mark mem
    obtain ⟨j, -, eq'⟩ := numbered.exists_mark among
    have same : part first.mark = part l.mark := by simpa using List.find?_some found
    rw [eq, eq', part_eq, part_eq] at same
    rw [numbered.unique among mem (by rw [eq, eq', same])]

theorem madeOf_literal {l : Literal Origin} (mem : l ∈ allLiterals program) :
    l.MadeOf (objects program name) where
  params := by
    dsimp only [objects]
    rw [labelled?_eq numbered mem Origin.params fun _ => rfl]
    rfl
  body := by
    dsimp only [objects]
    rw [labelled?_eq numbered mem Origin.body fun _ => rfl]
    rfl

theorem madeOf_objects : Block.MadeOf (objects program name) program :=
  fun _ mem => madeOf_literal numbered name (mem_allLiterals mem)

/-- The body of a label is empty or that of a literal, and with the literal come those in it. -/
theorem objects_closed : (objects program name).Closed := by
  intro label l mem
  dsimp only [objects] at mem
  cases found : labelled? program Origin.body label with
  | none =>
    rw [found] at mem
    cases mem
  | some outer =>
    rw [found] at mem
    have among : outer ∈ allLiterals program := List.mem_of_find?_eq_some found
    exact madeOf_literal numbered name
      (withInner_allLiterals program outer among l (mem_allLiterals mem))

end Numbered

end Block

/-- The values that a labelled program makes are made of the objects of the program, where those
that it finds are. -/
theorem madeOf_labelled (host : Host) (me : InterpreterId) (depth : Nat) (s : ScopeId)
    (source : Program Unit) (n : Nat) (name : HostId → String) {program : Program Origin} {m : Nat}
    (labelled : (Block.label source).run n = (program, m))
    (keeps : host.Keeps (Value.MadeOf (Block.objects program name))) {w w' : World} {v : Value}
    (heap : w.heap.MadeOf (Block.objects program name))
    (result : (evalProgram host me depth s program).run w = some (v, w')) :
    w'.heap.MadeOf (Block.objects program name) ∧ v.MadeOf (Block.objects program name) := by
  have numbered : Numbered n (Block.allLiterals program) m := by
    have all := Block.numbered_label source n
    rwa [labelled] at all
  exact madeOf_eval keeps (Block.objects_closed numbered name) me depth (.program program) heap
    (Block.madeOf_iff.mp (Block.madeOf_objects numbered name)) result

end TreeWalk
