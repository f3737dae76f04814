import TreeWalk.Proofs.Value.Part
import TreeWalk.Value.Equality

/-!
# Equality by identity

Callables are compared by the objects they share and not by what these contain. Two closures are
the same when their parameter lists are one object, their bodies are one object, and they captured
one scope; two builtins of the host are the same when the host gave them one identifier. Data is
compared by its structure, down to the callables in it.

An object has one content. So among values whose callables are made of the same objects, to have the
same objects is to be equal (`alike_iff_eq`), and the comparison by identity is that of values as
such. The content of an object can always be filled in again (`Value.complete`), whatever it is.

Results:
1. `Value.alike_iff`: values are alike when they are equal up to the contents of objects.
2. `Value.alike_equivalence`: an equivalence.
3. `Value.same_eq_alike`: equality of values is equality by identity.
-/

namespace TreeWalk

/-! ## Objects -/

/-- What the shared objects contain. -/
structure Objects where
  /-- The parameter list of a label. -/
  params : Nat → List String
  /-- The body of a label. -/
  body : Nat → Block Origin
  /-- The name of a builtin of the host. -/
  name : HostId → String
  deriving Inhabited

/-- The parameter list and the body are those of the labels. -/
structure Closure.MadeOf (o : Objects) (f : Closure) : Prop where
  params : f.params = o.params f.origin.params
  body : f.body = o.body f.origin.body

/-- The name is that of the identifier. -/
def Builtin.MadeOf (o : Objects) : Builtin → Prop
  | .standard _ _ => True
  | .host id name => name = o.name id

/-- Nothing is asked of a value that is no callable. -/
def Value.CallableOf (o : Objects) : Value → Prop
  | .fn f => f.MadeOf o
  | .builtin b => b.MadeOf o
  | _ => True

/-- All callables in the value, inside arrays and wrappers, are made of the objects. -/
def Value.MadeOf (o : Objects) (v : Value) : Prop :=
  ∀ p : Value, p.PartOf v → p.CallableOf o

namespace Value

variable {o : Objects}

theorem hereditary_madeOf (o : Objects) : Hereditary (Value.MadeOf o) :=
  hereditary_parts fun v plain => by
    cases v with
    | int n | bool b | null | str text | array items => trivial
    | fn f | builtin b | ret v | err message => cases plain

theorem madeOf_fn {f : Closure} : (Value.fn f).MadeOf o ↔ f.MadeOf o :=
  forall_partOf_iff (.fn f) nofun nofun

theorem madeOf_builtin {b : Builtin} : (Value.builtin b).MadeOf o ↔ b.MadeOf o :=
  forall_partOf_iff (.builtin b) nofun nofun

theorem madeOf_err (message : String) : (Value.err message).MadeOf o :=
  (forall_partOf_iff (.err message) nofun nofun).mpr trivial

theorem madeOf_ret {v : Value} : (Value.ret v).MadeOf o ↔ v.MadeOf o := by
  constructor
  · exact (hereditary_madeOf o).ret v
  · intro made p part
    cases part with
    | whole => trivial
    | wrapped part => exact made p part

end Value

/-! ## Comparison -/

/-- Whether two closures share their body, their parameter list and their scope. -/
def Closure.shares (f g : Closure) : Bool :=
  f.origin.body = g.origin.body && f.origin.params = g.origin.params && f.scope = g.scope

/-- Whether two builtins are the same function. -/
def Builtin.shares : Builtin → Builtin → Bool
  | .standard i op, .standard j op' => i = j && op = op'
  | .host id _, .host id' _ => id = id'
  | _, _ => false

mutual

/-- Whether two values agree in their data and share their callables. -/
def Value.alike : Value → Value → Bool
  | .int m, .int n => m = n
  | .bool a, .bool b => a = b
  | .null, .null => true
  | .str s, .str t => s = t
  | .array as, .array bs => Value.alikeList as bs
  | .fn f, .fn g => f.shares g
  | .builtin a, .builtin b => a.shares b
  | .ret a, .ret b => a.alike b
  | .err s, .err t => s = t
  | _, _ => false

/-- Whether two lists of values agree element by element. -/
def Value.alikeList : List Value → List Value → Bool
  | [], [] => true
  | a :: as, b :: bs => a.alike b && Value.alikeList as bs
  | _, _ => false

end

/-! ## Contents -/

/-- The closure with the contents of its objects. -/
def Closure.complete (o : Objects) (f : Closure) : Closure :=
  { f with params := o.params f.origin.params, body := o.body f.origin.body }

/-- The builtin with the name of its identifier. -/
def Builtin.complete (o : Objects) : Builtin → Builtin
  | .standard owner op => .standard owner op
  | .host id _ => .host id (o.name id)

mutual

/-- The value with the contents of all its objects. -/
def Value.complete (o : Objects) : Value → Value
  | .int n => .int n
  | .bool b => .bool b
  | .null => .null
  | .str text => .str text
  | .array items => .array (Value.completeAll o items)
  | .fn f => .fn (f.complete o)
  | .builtin b => .builtin (b.complete o)
  | .ret v => .ret (v.complete o)
  | .err message => .err message

/-- The values of a list with the contents of all their objects. -/
def Value.completeAll (o : Objects) : List Value → List Value
  | [] => []
  | v :: vs => v.complete o :: Value.completeAll o vs

end

variable (o : Objects)

/-- Closures share everything when filling in the contents makes them equal. -/
theorem Closure.shares_iff {f g : Closure} :
    f.shares g = true ↔ f.complete o = g.complete o := by
  obtain ⟨⟨p, b⟩, params, body, scope⟩ := f
  obtain ⟨⟨p', b'⟩, params', body', scope'⟩ := g
  simp only [shares, complete, Bool.and_eq_true, decide_eq_true_eq, Closure.mk.injEq,
    Origin.mk.injEq]
  constructor
  · rintro ⟨⟨rfl, rfl⟩, rfl⟩
    exact ⟨⟨rfl, rfl⟩, rfl, rfl, rfl⟩
  · rintro ⟨⟨rfl, rfl⟩, -, -, rfl⟩
    exact ⟨⟨rfl, rfl⟩, rfl⟩

theorem Builtin.shares_iff {a b : Builtin} :
    a.shares b = true ↔ a.complete o = b.complete o := by
  cases a with
  | standard owner op => cases b <;> simp [shares, complete]
  | host id name =>
    cases b with
    | standard owner op => simp [shares, complete]
    | host id' name' =>
      simp only [shares, complete, decide_eq_true_eq, Builtin.host.injEq]
      constructor
      · rintro rfl
        exact ⟨rfl, rfl⟩
      · exact And.left

namespace Value

mutual

/-- Values are alike when filling in the contents makes them equal. -/
theorem alike_iff : (a b : Value) → (a.alike b = true ↔ a.complete o = b.complete o)
  | .int _, b => by cases b <;> simp [alike, complete]
  | .bool _, b => by cases b <;> simp [alike, complete]
  | .null, b => by cases b <;> simp [alike, complete]
  | .str _, b => by cases b <;> simp [alike, complete]
  | .array as, b => by cases b <;> simp [alike, complete, alikeList_iff as]
  | .fn _, b => by cases b <;> simp [alike, complete, Closure.shares_iff o]
  | .builtin _, b => by cases b <;> simp [alike, complete, Builtin.shares_iff o]
  | .ret a, b => by cases b <;> simp [alike, complete, alike_iff a]
  | .err _, b => by cases b <;> simp [alike, complete]

theorem alikeList_iff : (as bs : List Value) →
    (alikeList as bs = true ↔ completeAll o as = completeAll o bs)
  | [], bs => by cases bs <;> simp [alikeList, completeAll]
  | a :: as, bs => by
    cases bs <;> simp [alikeList, completeAll, alike_iff a, alikeList_iff as]

end

theorem same_equivalence : Equivalence fun a b : Value => a.same b = true where
  refl a := (same_iff a a).mpr rfl
  symm {a b} same := (same_iff b a).mpr ((same_iff a b).mp same).symm
  trans {a b c} same more := (same_iff a c).mpr
    (((same_iff a b).mp same).trans ((same_iff b c).mp more))

/-- To be alike is to be equal up to something, and so an equivalence. -/
theorem alike_equivalence : Equivalence fun a b : Value => a.alike b = true where
  refl a := (alike_iff default a a).mpr rfl
  symm {a b} same := (alike_iff default b a).mpr ((alike_iff default a b).mp same).symm
  trans {a b c} same more := (alike_iff default a c).mpr
    (((alike_iff default a b).mp same).trans ((alike_iff default b c).mp more))

variable {o}

mutual

/-- Where the contents are those of the objects, filling them in changes nothing. -/
theorem MadeOf.complete_eq : (v : Value) → v.MadeOf o → v.complete o = v
  | .array items, made => by
    rw [complete, MadeOf.completeAll_eq items (((hereditary_madeOf o).array items).mp made)]
  | .fn f, made => by
    obtain ⟨params, body⟩ := madeOf_fn.mp made
    rw [complete, Closure.complete, ← params, ← body]
  | .builtin (.standard _ _), _ => rfl
  | .builtin (.host id name), made => by
    have eq : name = o.name id := madeOf_builtin.mp made
    rw [complete, Builtin.complete, ← eq]
  | .ret v, made => by rw [complete, MadeOf.complete_eq v (madeOf_ret.mp made)]
  | .int _, _ | .bool _, _ | .null, _ | .str _, _ | .err _, _ => rfl

theorem MadeOf.completeAll_eq : (vs : List Value) → (∀ v ∈ vs, v.MadeOf o) → completeAll o vs = vs
  | [], _ => rfl
  | v :: vs, made => by
    rw [List.forall_mem_cons] at made
    rw [completeAll, MadeOf.complete_eq v made.1, MadeOf.completeAll_eq vs made.2]

end

/-- Values that are made of the same objects are equal when they have the same objects. -/
theorem alike_iff_eq {a b : Value} (left : a.MadeOf o) (right : b.MadeOf o) :
    a.alike b = true ↔ a = b := by
  rw [alike_iff o, left.complete_eq, right.complete_eq]

/-- So the two comparisons give the same. -/
theorem same_eq_alike {a b : Value} (left : a.MadeOf o) (right : b.MadeOf o) :
    a.same b = a.alike b := by
  rw [Bool.eq_iff_iff, same_iff, alike_iff_eq left right]

end Value

end TreeWalk
