/-!
# UTF-8

The bytes of a text. They are defined character by character, so the bytes of a concatenation are
the concatenation of the bytes. Texts are sorted by them.
-/

namespace TreeWalk

/-- The bytes of a text in UTF-8. -/
def utf8 (text : String) : List UInt8 :=
  text.toList.flatMap String.utf8EncodeChar

/-- The bytes are those that the string is stored as. -/
theorem utf8_eq_toUTF8 (s : String) : utf8 s = s.toUTF8.data.toList := by
  rw [String.toUTF8_eq_toByteArray, ← String.utf8Encode_toList, List.utf8Encode]
  simp [utf8]

@[simp] theorem utf8_empty : utf8 "" = [] := rfl

@[simp] theorem utf8_append (s t : String) : utf8 (s ++ t) = utf8 s ++ utf8 t := by
  simp [utf8]

/-- Some elements, sorted by the bytes of a text that goes with each. -/
def sortedBy {α : Type} (key : α → String) (xs : List α) : List α :=
  xs.mergeSort fun a b => decide (utf8 (key a) ≤ utf8 (key b))

end TreeWalk
