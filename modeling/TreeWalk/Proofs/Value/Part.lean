import TreeWalk.Proofs.Value.Hereditary

/-!
# Parts of values

A value contains its parts: itself, the elements of an array, and what a wrapper holds, at any
depth. A closure contains nothing but itself: what its scope binds belongs to the scope.

What is said of all parts is hereditary (`hereditary_parts`).
-/

namespace TreeWalk

/-- The value is contained in another one, inside arrays and wrappers. -/
inductive Value.PartOf (p : Value) : Value → Prop
  | whole : PartOf p p
  | item {v : Value} {items : List Value} : v ∈ items → PartOf p v → PartOf p (.array items)
  | wrapped {v : Value} : PartOf p v → PartOf p (.ret v)

namespace Value

theorem partOf_array_iff {p : Value} {items : List Value} :
    p.PartOf (.array items) ↔ p = .array items ∨ ∃ v ∈ items, p.PartOf v := by
  constructor
  · intro h
    cases h with
    | whole => exact .inl rfl
    | item mem part => exact .inr ⟨_, mem, part⟩
  · rintro (rfl | ⟨v, mem, part⟩)
    · exact .whole
    · exact .item mem part

/-- Data without parts of its own, and arrays. -/
def isPlain : Value → Bool
  | int _ => true
  | bool _ => true
  | null => true
  | str _ => true
  | array _ => true
  | _ => false

/-- A closure, a builtin or plain data other than an array contains only itself. -/
theorem eq_of_partOf {p v : Value} (part : p.PartOf v) (notArray : v.kind ≠ .array)
    (notReturn : v.kind ≠ .returnValue) : p = v := by
  cases part with
  | whole => rfl
  | item mem part => exact absurd rfl notArray
  | wrapped part => exact absurd rfl notReturn

/-- What is said of all parts of such a value is said of the value. -/
theorem forall_partOf_iff {P : Value → Prop} (v : Value) (notArray : v.kind ≠ .array)
    (notReturn : v.kind ≠ .returnValue) : (∀ p : Value, p.PartOf v → P p) ↔ P v := by
  constructor
  · exact fun all => all v .whole
  · intro holds p part
    rw [eq_of_partOf part notArray notReturn]
    exact holds

/-- What holds of plain values can be required of all parts: that is hereditary. -/
theorem hereditary_parts {P : Value → Prop} (plain : ∀ v : Value, v.isPlain = true → P v) :
    Hereditary fun v => ∀ p : Value, p.PartOf v → P p where
  int n := (forall_partOf_iff (.int n) nofun nofun).mpr (plain _ rfl)
  bool b := (forall_partOf_iff (.bool b) nofun nofun).mpr (plain _ rfl)
  null := (forall_partOf_iff .null nofun nofun).mpr (plain _ rfl)
  str text := (forall_partOf_iff (.str text) nofun nofun).mpr (plain _ rfl)
  array items := by
    constructor
    · exact fun all v mem p part => all p (.item mem part)
    · intro all p part
      rcases partOf_array_iff.mp part with rfl | ⟨v, mem, part⟩
      · exact plain _ rfl
      · exact all v mem p part
  ret v all p part := all p (.wrapped part)

end Value

end TreeWalk
