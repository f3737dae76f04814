import Mathlib.Data.List.Induction
import TreeWalk.Scope.Heap.Lemmas

/-!
# Parameters and arguments

The scope of a call binds the parameters one after the other, each to the argument at its position.
A name that is repeated is written again, so its last position counts. A position at which there is
no argument, or no parameter, does not count at all.

Results:
1. `get?_foldl_set`: what a name is bound to when writes came one after the other.
2. `Heap.get?_callBindings_eq_some_iff`: what a parameter is bound to.
3. `Heap.get?_callBindings_ne_none_iff`: which names are bound.
4. `Heap.mem_of_get?_callBindings`: nothing is bound but arguments.
-/

namespace TreeWalk

/-- The position is the last one below a bound at which the name stands. -/
def LastAt (names : List String) (bound : Nat) (name : String) (i : Nat) : Prop :=
  i < bound ∧ names[i]? = some name ∧ ∀ j, i < j → j < bound → names[j]? ≠ some name

/-- What is added at the end is not found under another value. -/
theorem getElem?_concat_of_ne {α : Type} {xs : List α} {a b : α} (ne : a ≠ b) (i : Nat) :
    (xs ++ [b])[i]? = some a ↔ xs[i]? = some a := by
  rw [List.getElem?_append]
  split
  · rfl
  · next beyond =>
    rw [List.getElem?_eq_none (Nat.le_of_not_lt beyond), List.getElem?_singleton]
    split
    · exact iff_of_false (fun eq => ne (Option.some.inj eq).symm) nofun
    · rfl

/-! ## Writes one after the other -/

/-- Among some pairs the last one of a name has the value. -/
def LastPair (pairs : List (String × Value)) (name : String) (v : Value) : Prop :=
  ∃ i : Nat, pairs[i]? = some (name, v) ∧ ∀ j, i < j → ∀ x, pairs[j]? ≠ some (name, x)

section Pairs

variable {pairs : List (String × Value)} {name n : String} {v x : Value}

/-- A pair at the end is the last one of its name. -/
theorem lastPair_concat_self : LastPair (pairs ++ [(name, x)]) name v ↔ x = v := by
  constructor
  · rintro ⟨i, found, last⟩
    have notBefore : ¬ i < pairs.length := fun before =>
      last pairs.length before x List.getElem?_concat_length
    have bound := (List.getElem?_eq_some_iff.mp found).1
    rw [List.length_append, List.length_singleton] at bound
    obtain rfl : i = pairs.length := by omega
    rw [List.getElem?_concat_length] at found
    cases found
    rfl
  · rintro rfl
    refine ⟨pairs.length, List.getElem?_concat_length, fun j behind y => ?_⟩
    have beyond : (pairs ++ [(name, x)]).length ≤ j := by
      rw [List.length_append]
      exact behind
    rw [List.getElem?_eq_none beyond]
    exact (Option.some_ne_none _).symm

/-- A pair of another name makes no difference. -/
theorem lastPair_concat_of_ne (ne : name ≠ n) :
    LastPair (pairs ++ [(n, x)]) name v ↔ LastPair pairs name v := by
  have other (y : Value) : (name, y) ≠ (n, x) := fun eq => ne (Prod.mk.inj eq).1
  unfold LastPair
  simp only [getElem?_concat_of_ne (other _), ne_eq]

/-- Of writes one after the other the last one under a name counts. -/
theorem get?_foldl_set : (pairs.foldl (fun b e => b.set e.1 e.2) Bindings.empty).get? name = some v ↔
    LastPair pairs name v := by
  induction pairs using List.reverseRecOn with
  | nil => simp [LastPair]
  | append_singleton pairs last ih =>
    obtain ⟨n, x⟩ := last
    rw [List.foldl_append]
    show (Bindings.set _ n x).get? name = some v ↔ _
    rw [Bindings.get?_set]
    by_cases written : name = n
    · subst written
      rw [if_pos rfl, lastPair_concat_self, Option.some_inj]
    · rw [if_neg written, lastPair_concat_of_ne written, ih]

end Pairs

/-! ## The scope of a call -/

namespace Heap

variable {params : List String} {args : List Value} {name : String} {v : Value}

/-- A name is bound to the argument at the last position of the name at which there is one. -/
theorem get?_callBindings_eq_some_iff :
    (callBindings params args).get? name = some v ↔
      ∃ i, LastAt params args.length name i ∧ args[i]? = some v := by
  rw [callBindings, get?_foldl_set, LastPair]
  refine exists_congr fun i => ?_
  rw [List.getElem?_zip_eq_some]
  constructor
  · rintro ⟨⟨param, arg⟩, last⟩
    refine ⟨⟨(List.getElem?_eq_some_iff.mp arg).1, param, fun j behind bound again => ?_⟩, arg⟩
    exact last j behind args[j]
      (List.getElem?_zip_eq_some.mpr ⟨again, List.getElem?_eq_getElem bound⟩)
  · rintro ⟨⟨-, param, last⟩, arg⟩
    refine ⟨⟨param, arg⟩, fun j behind x pair => ?_⟩
    obtain ⟨again, other⟩ := List.getElem?_zip_eq_some.mp pair
    exact last j behind (List.getElem?_eq_some_iff.mp other).1 again

/-- What the scope of a call binds is one of the arguments. -/
theorem mem_of_get?_callBindings (found : (callBindings params args).get? name = some v) :
    v ∈ args := by
  obtain ⟨i, -, arg⟩ := get?_callBindings_eq_some_iff.mp found
  exact List.mem_of_getElem? arg

/-- The scope of a call binds the parameters that have an argument at their position. -/
theorem get?_callBindings_ne_none_iff :
    (callBindings params args).get? name ≠ none ↔ name ∈ (params.zip args).map Prod.fst := by
  suffices ∀ (pairs : List (String × Value)) (b : Bindings Value),
      (pairs.foldl (fun b e => b.set e.1 e.2) b).get? name ≠ none ↔
        name ∈ pairs.map Prod.fst ∨ b.get? name ≠ none by
    rw [callBindings, this]
    simp
  intro pairs
  induction pairs with
  | nil => simp
  | cons pair pairs ih =>
    intro b
    rw [List.foldl_cons, ih, Bindings.get?_set, List.map_cons, List.mem_cons]
    by_cases eq : name = pair.1 <;> simp [eq]

end Heap

end TreeWalk
