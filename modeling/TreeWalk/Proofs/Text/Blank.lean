import Mathlib.Data.List.DropRight
import Mathlib.Data.List.Forall2
import TreeWalk.Text.Blank

/-!
# Texts up to blanks and case

What a text is when blanks at its ends and the case of ASCII letters do not count. Blanks have no
case, so it does not matter which of the two is removed first. Blanks inside of a text do count, and so
does the case of all other letters, also of those that look like ASCII letters.

Results:
1. `exists_trimBlanks`, `trimBlanks_append`: what is taken away at the ends.
2. `lowerAscii_eq_iff`: texts that are the same in lower case.
3. `spells_iff`: texts that spell a name.
-/

namespace TreeWalk

/-! ## Blanks at the ends -/

/-- Nothing but blanks. -/
def AllBlank (s : String) : Prop :=
  ∀ c ∈ s.toList, isBlank c = true

theorem toList_trimBlanks (s : String) :
    (trimBlanks s).toList = (s.toList.dropWhile isBlank).rdropWhile isBlank := by
  rw [trimBlanks, String.toList_ofList, List.rdropWhile]

/-- A text is what is left of it with blanks at both ends. -/
theorem exists_trimBlanks (s : String) :
    ∃ before after, s = before ++ trimBlanks s ++ after ∧ AllBlank before ∧ AllBlank after := by
  let left := s.toList.dropWhile isBlank
  refine ⟨String.ofList (s.toList.takeWhile isBlank), String.ofList (left.rtakeWhile isBlank), ?_,
    ?_, ?_⟩
  · rw [← String.toList_inj, String.toList_append, String.toList_append, String.toList_ofList,
      String.toList_ofList, toList_trimBlanks, List.append_assoc, List.rdropWhile_append_rtakeWhile,
      List.takeWhile_append_dropWhile]
  · intro c mem
    rw [String.toList_ofList] at mem
    exact List.mem_takeWhile_imp mem
  · intro c mem
    rw [String.toList_ofList] at mem
    exact List.mem_rtakeWhile_imp mem

/-- Blanks that are added at the ends are taken away. -/
theorem trimBlanks_append {before after : String} (blank : AllBlank before)
    (blank' : AllBlank after) (s : String) : trimBlanks (before ++ s ++ after) = trimBlanks s := by
  rw [← String.toList_inj, toList_trimBlanks, toList_trimBlanks, String.toList_append,
    String.toList_append, List.append_assoc, List.dropWhile_append_of_pos blank,
    List.dropWhile_append]
  split
  · next nothing =>
    rw [List.isEmpty_iff.mp nothing, List.dropWhile_eq_nil_iff.mpr blank']
  · have reversed : ∀ c ∈ after.toList.reverse, isBlank c = true := fun c mem =>
      blank' c (List.mem_reverse.mp mem)
    rw [List.rdropWhile, List.reverse_append, List.dropWhile_append_of_pos reversed,
      List.rdropWhile]

/-! ## Letter case -/

/-- The same character, or an ASCII letter in the other case. -/
def SameLetter (c d : Char) : Prop :=
  c = d ∨ c.isUpper = true ∧ d.toNat = c.toNat + 32 ∨ d.isUpper = true ∧ c.toNat = d.toNat + 32

/-- The same up to the case of ASCII letters. -/
def SameUpToCase (s t : String) : Prop :=
  List.Forall₂ SameLetter s.toList t.toList

theorem isUpper_iff (c : Char) : c.isUpper = true ↔ 65 ≤ c.toNat ∧ c.toNat ≤ 90 := by
  show decide (65 ≤ c.val ∧ c.val ≤ 90) = true ↔ _
  rw [decide_eq_true_iff, UInt32.le_iff_toNat_le, UInt32.le_iff_toNat_le]
  exact Iff.rfl

theorem toNat_toLower (c : Char) :
    c.toLower.toNat = if c.isUpper = true then c.toNat + 32 else c.toNat := by
  unfold Char.toLower
  split
  · next upper =>
    have range : 65 ≤ c.toNat ∧ c.toNat ≤ 90 :=
      upper.imp UInt32.le_iff_toNat_le.mp UInt32.le_iff_toNat_le.mp
    have sum : (c.val + 32).toNat = (c.toNat + 32) % 2 ^ 32 := UInt32.toNat_add c.val 32
    rw [if_pos ((isUpper_iff c).mpr range)]
    show (c.val + 32).toNat = c.toNat + 32
    omega
  · next notUpper =>
    rw [if_neg fun upper => notUpper ?_]
    exact ((isUpper_iff c).mp upper).imp UInt32.le_iff_toNat_le.mpr UInt32.le_iff_toNat_le.mpr

theorem toLower_eq_iff (c d : Char) : c.toLower = d.toLower ↔ SameLetter c d := by
  rw [← Char.toNat_inj, toNat_toLower, toNat_toLower, SameLetter, ← Char.toNat_inj]
  simp only [isUpper_iff]
  split <;> split <;> omega

theorem lowerAscii_eq_iff {s t : String} : lowerAscii s = lowerAscii t ↔ SameUpToCase s t := by
  have sameLetter : SameLetter = fun c d => c.toLower = d.toLower := by
    funext c d
    exact propext (toLower_eq_iff c d).symm
  rw [← String.toList_inj, lowerAscii, lowerAscii, String.toList_ofList, String.toList_ofList,
    ← List.forall₂_eq_eq_eq, List.forall₂_map_left_iff, List.forall₂_map_right_iff, SameUpToCase,
    sameLetter]

/-- No blank is among the letters of ASCII. -/
theorem isBlank_eq_false {c : Char} (low : 65 ≤ c.toNat) (high : c.toNat ≤ 122) :
    isBlank c = false := by
  refine Bool.eq_false_iff.mpr fun blank => ?_
  obtain ⟨r, mem, inside⟩ := List.any_eq_true.mp blank
  have apart : ∀ r ∈ blankRanges, r.2 < 65 ∨ 122 < r.1 := by decide
  rw [Bool.and_eq_true, decide_eq_true_iff, decide_eq_true_iff] at inside
  have := apart r mem
  omega

/-- Blanks have no case. -/
theorem isBlank_toLower (c : Char) : isBlank c.toLower = isBlank c := by
  by_cases upper : c.isUpper = true
  · have range := (isUpper_iff c).mp upper
    have code := toNat_toLower c
    rw [if_pos upper] at code
    rw [isBlank_eq_false (by omega) (by omega), isBlank_eq_false (by omega) (by omega)]
  · have same : c.toLower = c := Char.toNat_inj.mp (by rw [toNat_toLower, if_neg upper])
    rw [same]

/-- It does not matter which comes first. -/
theorem trimBlanks_lowerAscii (s : String) :
    trimBlanks (lowerAscii s) = lowerAscii (trimBlanks s) := by
  have same : isBlank ∘ Char.toLower = isBlank := funext isBlank_toLower
  rw [← String.toList_inj, toList_trimBlanks, lowerAscii, lowerAscii, String.toList_ofList,
    String.toList_ofList, toList_trimBlanks, List.dropWhile_map, same, List.rdropWhile,
    ← List.map_reverse, List.dropWhile_map, same, ← List.map_reverse, List.rdropWhile]

/-! ## Spellings -/

/-- The text is the name in any case, with any blanks around it. -/
def Spells (raw name : String) : Prop :=
  ∃ before inner after, raw = before ++ inner ++ after ∧ AllBlank before ∧ AllBlank after ∧
    SameUpToCase inner name

theorem Spells.lowerAscii_eq {raw name : String} (spells : Spells raw name) :
    lowerAscii (trimBlanks raw) = lowerAscii (trimBlanks name) := by
  obtain ⟨before, inner, after, rfl, blank, blank', same⟩ := spells
  rw [trimBlanks_append blank blank', ← trimBlanks_lowerAscii, lowerAscii_eq_iff.mpr same,
    trimBlanks_lowerAscii]

/-- A name without blanks at its ends is spelled by what is the same without blanks and case. -/
theorem spells_iff {raw name : String} (bare : trimBlanks name = name) :
    Spells raw name ↔ lowerAscii (trimBlanks raw) = lowerAscii name := by
  constructor
  · intro spells
    rw [spells.lowerAscii_eq, bare]
  · intro same
    obtain ⟨before, after, eq, blank, blank'⟩ := exists_trimBlanks raw
    exact ⟨before, trimBlanks raw, after, eq, blank, blank', lowerAscii_eq_iff.mp same⟩

end TreeWalk
