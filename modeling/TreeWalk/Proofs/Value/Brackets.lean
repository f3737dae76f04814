import TreeWalk.Proofs.Value.Closures
import TreeWalk.Proofs.Value.Styles

/-!
# Where the two styles differ

The two texts of a value differ at one place for each function in it, at any depth, and nowhere
else. What a string says, and what the body of a function says, is the same in both styles, brackets
included.

Results:
1. `Aligned.getElem?_of_mem`: what stands where two texts differ.
2. `Value.functionCount_eq_zero_iff`: the values that contain no function.
3. `styles_differ_per_function`: what the two texts have to do with each other.
-/

namespace TreeWalk

/-- Where aligned texts differ, the one has the round bracket and the other the curly one. -/
theorem Aligned.getElem?_of_mem {s t : String} (aligned : Aligned s t) {i : Nat}
    (mem : i ∈ differences s t) : s.toList[i]? = some ')' ∧ t.toList[i]? = some '\x7d' := by
  obtain ⟨range, differ⟩ := List.mem_filter.mp mem
  have lt : i < s.toList.length := by
    have lt := List.mem_range.mp range
    rwa [← aligned.length_eq, Nat.max_self] at lt
  have lt' : i < t.length := aligned.length_eq ▸ lt
  rw [List.getElem?_eq_getElem lt, List.getElem?_eq_getElem lt'] at differ ⊢
  rcases aligned.get lt lt' with same | ⟨round, curly⟩
  · exact absurd (congrArg some same) (of_decide_eq_true differ)
  · exact ⟨congrArg some round, congrArg some curly⟩

namespace Value

mutual

theorem functionCount_eq_zero_iff : (v : Value) →
    (v.functionCount = 0 ↔ v.Closures fun _ => False)
  | .array items => by
    rw [functionCount, functionCountList_eq_zero_iff items, (hereditary_closures _).array]
  | .fn f => by
    rw [closures_fn]
    exact ⟨nofun, False.elim⟩
  | .ret v => by
    rw [closures_ret]
    exact functionCount_eq_zero_iff v
  | .int n => iff_of_true rfl ((hereditary_closures _).int n)
  | .bool b => iff_of_true rfl ((hereditary_closures _).bool b)
  | .null => iff_of_true rfl (hereditary_closures _).null
  | .str text => iff_of_true rfl ((hereditary_closures _).str text)
  | .builtin b => iff_of_true rfl (closures_builtin b)
  | .err message => iff_of_true rfl (closures_err message)

theorem functionCountList_eq_zero_iff : (vs : List Value) →
    (functionCountList vs = 0 ↔ ∀ v ∈ vs, v.Closures fun _ => False)
  | [] => iff_of_true rfl (List.forall_mem_nil _)
  | v :: vs => by
    rw [functionCountList, Nat.add_eq_zero_iff, functionCount_eq_zero_iff v,
      functionCountList_eq_zero_iff vs, List.forall_mem_cons]

end

end Value

/-! ## The two texts -/

/-- The two texts are equally long, in characters and in bytes. They differ at one place for each
function, where the one closes with a round bracket and the other with a curly one. -/
theorem styles_differ_per_function (v : Value) :
    (v.render .canonical).length = (v.render .legacy).length ∧
    (utf8 (v.render .canonical)).length = (utf8 (v.render .legacy)).length ∧
    (differences (v.render .canonical) (v.render .legacy)).length = v.functionCount ∧
    (∀ i ∈ differences (v.render .canonical) (v.render .legacy),
      (v.render .canonical).toList[i]? = some ')' ∧
        (v.render .legacy).toList[i]? = some '\x7d') ∧
    (v.render .canonical = v.render .legacy ↔ ∀ f, ¬ (Value.fn f).PartOf v) := by
  have differ := v.differAt_render
  refine ⟨differ.aligned.length_eq, differ.aligned.utf8.length_eq, differ.count_eq,
    fun i => differ.aligned.getElem?_of_mem, ?_⟩
  rw [← differences_eq_nil_iff, ← List.length_eq_zero_iff, differ.count_eq,
    v.functionCount_eq_zero_iff]
  rfl

end TreeWalk
