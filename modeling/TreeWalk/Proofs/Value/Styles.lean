import Mathlib.Data.List.Forall2
import TreeWalk.Interpreter
import TreeWalk.Proofs.Sink.Writing

/-!
# Texts in the two styles

The two styles of rendering differ in one bracket of each function. So the two texts of a value have
the same length and are the same up to some places, one for each function in the value. At these the
one text has the round bracket and the other the curly one. The bytes of lines of such texts are the
same up to those of the brackets.

Results:
1. `differences_append`, `DifferAt.append`: texts put together.
2. `Value.differAt_render`, `Value.aligned_render`: the two texts of a value.
3. `Aligned.utf8`, `aligned_lineBytes`: their bytes.
-/

namespace TreeWalk

/-! ## Aligned texts -/

/-- The characters are the same, or are the two brackets that close a parameter list. -/
def AlignedChar (c d : Char) : Prop :=
  c = d ∨ c = ')' ∧ d = '\x7d'

/-- The texts have the same length, and are the same up to brackets that close parameter lists. -/
def Aligned (s t : String) : Prop :=
  List.Forall₂ AlignedChar s.toList t.toList

namespace Aligned

theorem refl (s : String) : Aligned s s :=
  List.forall₂_same.mpr fun _ _ => .inl rfl

theorem append {s t s' t' : String} (first : Aligned s t) (next : Aligned s' t') :
    Aligned (s ++ s') (t ++ t') := by
  rw [Aligned, String.toList_append, String.toList_append]
  exact List.rel_append first next

theorem length_eq {s t : String} (aligned : Aligned s t) : s.length = t.length :=
  List.Forall₂.length_eq aligned

end Aligned

/-! ## Places -/

/-- The places at which two texts differ. Where only one of them goes on they do. -/
def differences (s t : String) : List Nat :=
  (List.range (max s.length t.length)).filter fun i => s.toList[i]? ≠ t.toList[i]?

theorem differences_eq_nil_iff {s t : String} : differences s t = [] ↔ s = t := by
  constructor
  · intro none
    rw [differences, List.filter_eq_nil_iff] at none
    refine String.toList_inj.mp (List.ext_getElem? fun i => ?_)
    rcases Nat.lt_or_ge i (max s.length t.length) with lt | ge
    · simpa using none i (List.mem_range.mpr lt)
    · rw [List.getElem?_eq_none, List.getElem?_eq_none]
      · exact Nat.le_trans (Nat.le_max_right _ _) ge
      · exact Nat.le_trans (Nat.le_max_left _ _) ge
  · rintro rfl
    simp [differences]

/-- The differences of texts put together, of which the former are equally long. -/
theorem differences_append {s t : String} (same : s.length = t.length) (s' t' : String) :
    differences (s ++ s') (t ++ t') =
      differences s t ++ (differences s' t').map (s.length + ·) := by
  have whole : max (s ++ s').length (t ++ t').length = s.length + max s'.length t'.length := by
    rw [String.length_append, String.length_append, ← same, Nat.add_max_add_left]
  rw [differences, whole, List.range_add, List.filter_append, List.filter_map]
  congr 1
  · rw [differences, ← same, Nat.max_self]
    refine List.filter_congr fun i mem => ?_
    have lt : i < s.length := List.mem_range.mp mem
    rw [String.toList_append, String.toList_append, List.getElem?_append_left lt,
      List.getElem?_append_left (same ▸ lt : i < t.length)]
  · refine congrArg _ (List.filter_congr fun i _ => ?_)
    have le : s.length ≤ s.length + i := Nat.le_add_right _ _
    rw [Function.comp_apply, String.toList_append, String.toList_append,
      List.getElem?_append_right le, List.getElem?_append_right (same ▸ le), String.length_toList,
      String.length_toList, ← same, Nat.add_sub_cancel_left]

/-- The texts are aligned and differ at so many places. -/
structure DifferAt (count : Nat) (s t : String) : Prop where
  aligned : Aligned s t
  count_eq : (differences s t).length = count

namespace DifferAt

theorem refl (s : String) : DifferAt 0 s s where
  aligned := .refl s
  count_eq := by rw [differences_eq_nil_iff.mpr rfl, List.length_nil]

theorem append {m n : Nat} {s t s' t' : String} (first : DifferAt m s t)
    (next : DifferAt n s' t') : DifferAt (m + n) (s ++ s') (t ++ t') where
  aligned := first.aligned.append next.aligned
  count_eq := by
    rw [differences_append first.aligned.length_eq, List.length_append, List.length_map,
      first.count_eq, next.count_eq]

/-- A text with the same text before it and after it. -/
theorem within {n : Nat} {s t : String} (differ : DifferAt n s t) (before after : String) :
    DifferAt n (before ++ s ++ after) (before ++ t ++ after) := by
  have whole := ((refl before).append differ).append (refl after)
  rwa [Nat.zero_add, Nat.add_zero] at whole

end DifferAt

/-! ## Values -/

theorem RenderStyle.differAt_closing : DifferAt 1 canonical.closing legacy.closing where
  aligned := .cons (.inr ⟨rfl, rfl⟩) .nil
  count_eq := rfl

theorem Closure.differAt_render (f : Closure) :
    DifferAt 1 (f.render .canonical) (f.render .legacy) := by
  have bracket := RenderStyle.differAt_closing.within ("fn(" ++ TreeWalk.commaSeparated f.params)
    " \x7b\n"
  exact (bracket.append (.refl _)).append (.refl _)

namespace Value

mutual

/-- How many functions there are in a value, inside arrays and wrappers. -/
def functionCount : Value → Nat
  | .array items => functionCountList items
  | .fn _ => 1
  | .ret v => v.functionCount
  | _ => 0

/-- How many functions there are in the values of a list. -/
def functionCountList : List Value → Nat
  | [] => 0
  | v :: vs => v.functionCount + functionCountList vs

end

mutual

/-- The two texts of a value differ at one place for each function. -/
theorem differAt_render : (v : Value) →
    DifferAt v.functionCount (v.render .canonical) (v.render .legacy)
  | .array items => (differAt_renderList items).within "[" "]"
  | .fn f => f.differAt_render
  | .ret v => differAt_render v
  | .int _ | .bool _ | .null | .str _ | .builtin _ | .err _ => .refl _

theorem differAt_renderList : (vs : List Value) → DifferAt (functionCountList vs)
    (commaSeparated (renderList .canonical vs)) (commaSeparated (renderList .legacy vs))
  | [] => .refl _
  | [v] => by
    rw [functionCountList, functionCountList, renderList, renderList, renderList, renderList,
      commaSeparated, commaSeparated, String.intercalate_singleton, String.intercalate_singleton]
    exact differAt_render v
  | v :: w :: vs => by
    rw [functionCountList, renderList, renderList, renderList, renderList, commaSeparated,
      commaSeparated, String.intercalate_cons_cons, String.intercalate_cons_cons]
    exact ((differAt_render v).append (.refl ", ")).append (differAt_renderList (w :: vs))

end

/-- The two texts of a value are aligned. -/
theorem aligned_render (v : Value) : Aligned (v.render .canonical) (v.render .legacy) :=
  v.differAt_render.aligned

end Value

/-! ## Bytes -/

/-- The bytes are the same, or are those of the two brackets. -/
def AlignedByte (b c : UInt8) : Prop :=
  b = c ∨ b = ')'.toUInt8 ∧ c = '\x7d'.toUInt8

theorem Aligned.utf8 {s t : String} (aligned : Aligned s t) :
    List.Forall₂ AlignedByte (TreeWalk.utf8 s) (TreeWalk.utf8 t) := by
  refine List.rel_flatMap aligned fun c d chars => ?_
  rcases chars with rfl | ⟨rfl, rfl⟩
  · exact List.forall₂_same.mpr fun _ _ => .inl rfl
  · exact .cons (.inr ⟨rfl, rfl⟩) .nil

/-- The bytes of lines in the two styles. -/
theorem aligned_lineBytes (vs : List Value) :
    List.Forall₂ AlignedByte (lineBytes (vs.map (Value.render .canonical)))
      (lineBytes (vs.map (Value.render .legacy))) := by
  have lines : List.Forall₂ Aligned (vs.map (Value.render .canonical))
      (vs.map (Value.render .legacy)) := by
    rw [List.forall₂_map_left_iff, List.forall₂_map_right_iff]
    exact List.forall₂_same.mpr fun v _ => v.aligned_render
  exact List.rel_flatMap lines fun s t aligned => (aligned.append (.refl "\n")).utf8

end TreeWalk
