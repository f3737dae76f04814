import Mathlib.Algebra.Group.Nat.Defs
import Mathlib.Data.List.Nodup
import TreeWalk.Text.Utf8

/-!
# The order of bytes

Texts are compared by their code points, and so are their bytes. The first byte of a character grows
with its code point and says how many bytes follow, and the bytes that follow are the last digits of
the code point in base 64. So of two characters the smaller one has the smaller bytes, and it is seen
before either of them ends.

Results:
1. `utf8EncodeChar_append_lt`: the bytes of characters, with whatever follows them.
2. `utf8_lt_iff`: the bytes of texts.
3. `map_toNat_lt_iff`: the code points of texts.
4. `sortedBy_eq`: sorting by bytes.
-/

namespace TreeWalk

/-! ## The bytes of a character -/

/-- How many bytes follow the first one of a code point. -/
def followingBytes (v : Nat) : Nat :=
  if v ≤ 0x7f then 0 else if v ≤ 0x7ff then 1 else if v ≤ 0xffff then 2 else 3

/-- The first byte of a code point: a mark for the number of bytes, and the digits that are left. -/
def firstByte (v : Nat) : Nat :=
  if v ≤ 0x7f then v
  else if v ≤ 0x7ff then v / 64 ^ 1 + 0xc0
  else if v ≤ 0xffff then v / 64 ^ 2 + 0xe0
  else v / 64 ^ 3 + 0xf0

/-- The last digits of a number in base 64, each with the mark of a byte that follows another. -/
def digitBytes (v : Nat) : Nat → List UInt8
  | 0 => []
  | k + 1 => UInt8.ofNat (v / 64 ^ k % 64 + 0x80) :: digitBytes v k

theorem toNat_lt_scalars (c : Char) : c.toNat < 0x110000 := by
  rcases c.valid with low | ⟨-, high⟩
  · exact Nat.lt_trans low (by decide)
  · exact high

theorem utf8EncodeChar_eq (c : Char) : String.utf8EncodeChar c =
    UInt8.ofNat (firstByte c.toNat) :: digitBytes c.toNat (followingBytes c.toNat) := by
  have bound : c.val.toNat < 0x110000 := toNat_lt_scalars c
  rw [String.utf8EncodeChar.eq_1, firstByte, followingBytes, Char.toNat]
  split
  · rfl
  split
  · next le =>
    have digits : c.val.toNat / 64 % 32 = c.val.toNat / 64 := Nat.mod_eq_of_lt (by omega)
    rw [digits]
    simp [digitBytes]
  split
  · next le =>
    have digits : c.val.toNat / 4096 % 16 = c.val.toNat / 4096 := Nat.mod_eq_of_lt (by omega)
    rw [digits]
    simp [digitBytes]
  · have digits : c.val.toNat / 262144 % 8 = c.val.toNat / 262144 := Nat.mod_eq_of_lt (by omega)
    rw [digits]
    simp [digitBytes]

/-- The four lengths: how many bytes follow, and which digits are in the first one. -/
theorem byteLengths (v : Nat) :
    (v ≤ 0x7f ∧ followingBytes v = 0 ∧ firstByte v = v / 64 ^ 0) ∨
    (0x7f < v ∧ v ≤ 0x7ff ∧ followingBytes v = 1 ∧ firstByte v = v / 64 ^ 1 + 0xc0) ∨
    (0x7ff < v ∧ v ≤ 0xffff ∧ followingBytes v = 2 ∧ firstByte v = v / 64 ^ 2 + 0xe0) ∨
    (0xffff < v ∧ followingBytes v = 3 ∧ firstByte v = v / 64 ^ 3 + 0xf0) := by
  unfold followingBytes firstByte
  split
  · next one => exact .inl ⟨one, rfl, (Nat.div_one v).symm⟩
  split
  · next more two => exact .inr (.inl ⟨Nat.lt_of_not_le more, two, rfl, rfl⟩)
  split
  · next more three => exact .inr (.inr (.inl ⟨Nat.lt_of_not_le more, three, rfl, rfl⟩))
  · next more => exact .inr (.inr (.inr ⟨Nat.lt_of_not_le more, rfl, rfl⟩))

theorem firstByte_lt {v : Nat} (bound : v < 0x110000) : firstByte v < 256 := by
  rcases byteLengths v with ⟨_, -, first⟩ | ⟨_, _, -, first⟩ | ⟨_, _, -, first⟩ | ⟨_, -, first⟩ <;>
    omega

/-- The first byte grows with the code point. Where it does not, as many bytes follow, and the digits
in the first byte are the same. -/
theorem firstByte_cases {v w : Nat} (lt : v < w) : firstByte v < firstByte w ∨
    firstByte v = firstByte w ∧ followingBytes v = followingBytes w ∧
      v / 64 ^ followingBytes w = w / 64 ^ followingBytes w := by
  rcases byteLengths w with ⟨_, following, first⟩ | ⟨_, _, following, first⟩ |
    ⟨_, _, following, first⟩ | ⟨_, following, first⟩ <;>
  rcases byteLengths v with ⟨_, following', first'⟩ | ⟨_, _, following', first'⟩ |
    ⟨_, _, following', first'⟩ | ⟨_, following', first'⟩ <;>
  rw [following, following', first, first'] <;> omega

/-- Of two numbers that agree up to their last digits, the smaller one has the smaller digits. -/
theorem digitBytes_append_lt {v w : Nat} (lt : v < w) (r s : List UInt8) {k : Nat}
    (agree : v / 64 ^ k = w / 64 ^ k) : digitBytes v k ++ r < digitBytes w k ++ s := by
  induction k with
  | zero =>
    rw [Nat.pow_zero, Nat.div_one, Nat.div_one] at agree
    exact absurd agree (Nat.ne_of_lt lt)
  | succ k ih =>
    rw [Nat.pow_succ, ← Nat.div_div_eq_div_mul, ← Nat.div_div_eq_div_mul] at agree
    have le : v / 64 ^ k ≤ w / 64 ^ k := Nat.div_le_div_right (Nat.le_of_lt lt)
    show UInt8.ofNat _ :: (digitBytes v k ++ r) < UInt8.ofNat _ :: (digitBytes w k ++ s)
    rw [List.cons_lt_cons_iff]
    rcases Nat.lt_or_eq_of_le le with below | same
    · left
      have byte (n : Nat) : n % 64 + 0x80 < 256 := by omega
      rw [UInt8.ofNat_lt_iff_lt (byte _) (byte _)]
      omega
    · right
      rw [same]
      exact ⟨rfl, ih same⟩

/-- Of two characters the smaller one has the smaller bytes, whatever follows them. -/
theorem utf8EncodeChar_append_lt {c d : Char} (lt : c < d) (r s : List UInt8) :
    String.utf8EncodeChar c ++ r < String.utf8EncodeChar d ++ s := by
  rw [utf8EncodeChar_eq, utf8EncodeChar_eq, List.cons_append, List.cons_append,
    List.cons_lt_cons_iff]
  have codePoints : c.toNat < d.toNat := lt
  rcases firstByte_cases codePoints with below | ⟨same, following, agree⟩
  · left
    have byte (c : Char) := firstByte_lt (toNat_lt_scalars c)
    rw [UInt8.ofNat_lt_iff_lt (byte c) (byte d)]
    exact below
  · right
    rw [same, following]
    exact ⟨rfl, digitBytes_append_lt codePoints r s agree⟩

/-! ## Texts -/

theorem append_lt_append_left (p : List UInt8) {r s : List UInt8} (lt : r < s) :
    p ++ r < p ++ s := by
  induction p with
  | nil => exact lt
  | cons b p ih => exact List.cons_lt_cons_iff.mpr (.inr ⟨rfl, ih⟩)

theorem flatMap_utf8EncodeChar_lt {cs ds : List Char} (lt : cs < ds) :
    cs.flatMap String.utf8EncodeChar < ds.flatMap String.utf8EncodeChar := by
  induction cs generalizing ds with
  | nil =>
    cases ds with
    | nil => exact absurd lt (List.not_lt_nil _)
    | cons d ds =>
      rw [List.flatMap_cons, utf8EncodeChar_eq]
      exact List.nil_lt_cons _ _
  | cons c cs ih =>
    cases ds with
    | nil => exact absurd lt (List.not_lt_nil _)
    | cons d ds =>
      rw [List.flatMap_cons, List.flatMap_cons]
      rcases List.cons_lt_cons_iff.mp lt with below | ⟨rfl, more⟩
      · exact utf8EncodeChar_append_lt below _ _
      · exact append_lt_append_left _ (ih more)

variable {s t : String}

/-- The order of texts is the order of their bytes. -/
theorem utf8_lt_iff : utf8 s < utf8 t ↔ s < t := by
  constructor
  · intro bytes
    rcases Std.lt_trichotomy s t with lt | rfl | gt
    · exact lt
    · exact absurd bytes (List.lt_irrefl _)
    · exact absurd (flatMap_utf8EncodeChar_lt (String.lt_iff.mp gt)) (List.lt_asymm bytes)
  · intro lt
    exact flatMap_utf8EncodeChar_lt (String.lt_iff.mp lt)

theorem utf8_le_iff : utf8 s ≤ utf8 t ↔ s ≤ t := by
  rw [← List.not_lt, utf8_lt_iff, String.not_lt]

/-- The order of texts is the order of their code points. -/
theorem map_toNat_lt_iff : s.toList.map Char.toNat < t.toList.map Char.toNat ↔ s < t := by
  rw [String.lt_iff]
  generalize s.toList = cs
  generalize t.toList = ds
  induction cs generalizing ds with
  | nil =>
    cases ds with
    | nil => exact iff_of_false (List.not_lt_nil _) (List.not_lt_nil _)
    | cons d ds => exact iff_of_true (List.nil_lt_cons _ _) (List.nil_lt_cons _ _)
  | cons c cs ih =>
    cases ds with
    | nil => exact iff_of_false (List.not_lt_nil _) (List.not_lt_nil _)
    | cons d ds =>
      rw [List.map_cons, List.map_cons, List.cons_lt_cons_iff, List.cons_lt_cons_iff, ih,
        Char.toNat_inj]
      exact Iff.rfl

/-! ## Sorting -/

/-- Where the texts differ, there is only one order for the elements. -/
theorem sortedBy_eq {α : Type} {key : α → String} {xs ys : List α} (same : xs.Perm ys)
    (increasing : ys.Pairwise fun a b => key a < key b) : sortedBy key xs = ys := by
  have perm : (sortedBy key xs).Perm ys := (List.mergeSort_perm xs _).trans same
  have sorted : (sortedBy key xs).Pairwise fun a b => key a ≤ key b := by
    refine (List.pairwise_mergeSort ?_ ?_ xs).imp fun le => utf8_le_iff.mp (of_decide_eq_true le)
    · intro a b c le le'
      simp only [decide_eq_true_eq, utf8_le_iff] at *
      exact String.le_trans le le'
    · intro a b
      simp only [Bool.or_eq_true, decide_eq_true_eq, utf8_le_iff]
      exact String.le_total _ _
  have distinct : (ys.map key).Nodup := List.pairwise_map.mpr (increasing.imp String.ne_of_lt)
  have sorted' := increasing.imp fun lt => String.not_lt.mp (String.lt_asymm lt)
  refine List.Perm.eq_of_pairwise ?_ sorted sorted' perm
  intro a b left right le ge
  exact List.inj_on_of_nodup_map distinct (perm.mem_iff.mp left) right (String.le_antisymm le ge)

end TreeWalk
