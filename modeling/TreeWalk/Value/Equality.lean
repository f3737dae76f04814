import TreeWalk.Value.Basic

/-!
# Equality of values

Data is equal when it has the same structure, and callables are equal when they are the same
callable. As a closure goes with its origin and its scope, and a builtin with its owner, this is
equality of values as such.
-/

namespace TreeWalk

mutual

/-- Whether two values are equal. -/
def Value.same : Value → Value → Bool
  | .int m, .int n => m = n
  | .bool a, .bool b => a = b
  | .null, .null => true
  | .str s, .str t => s = t
  | .array as, .array bs => Value.sameList as bs
  | .fn f, .fn g => f = g
  | .builtin a, .builtin b => a = b
  | .ret a, .ret b => a.same b
  | .err s, .err t => s = t
  | _, _ => false

/-- Whether two lists of values agree element by element. -/
def Value.sameList : List Value → List Value → Bool
  | [], [] => true
  | a :: as, b :: bs => a.same b && Value.sameList as bs
  | _, _ => false

end

mutual

theorem Value.same_iff : (a b : Value) → (a.same b = true ↔ a = b)
  | .int _, b => by cases b <;> simp [Value.same]
  | .bool _, b => by cases b <;> simp [Value.same]
  | .null, b => by cases b <;> simp [Value.same]
  | .str _, b => by cases b <;> simp [Value.same]
  | .array as, b => by cases b <;> simp [Value.same, Value.sameList_iff as]
  | .fn _, b => by cases b <;> simp [Value.same]
  | .builtin _, b => by cases b <;> simp [Value.same]
  | .ret a, b => by cases b <;> simp [Value.same, Value.same_iff a]
  | .err _, b => by cases b <;> simp [Value.same]

theorem Value.sameList_iff : (as bs : List Value) → (Value.sameList as bs = true ↔ as = bs)
  | [], bs => by cases bs <;> simp [Value.sameList]
  | a :: as, bs => by cases bs <;> simp [Value.sameList, Value.same_iff a, Value.sameList_iff as]

end

instance : DecidableEq Value := fun a b =>
  decidable_of_iff _ (Value.same_iff a b)

end TreeWalk
