import TreeWalk.Text.Quoted

/-!
# Texts that show where they end

A text in quotes can be told from whatever follows it, and so can a list of such texts in brackets.
Between quotes a character stands for itself or is an escape, and only escapes begin with a backslash.
The character after the backslash says which escape it is, and the braces of a code point say where
its digits end. No other quote is met before the one at the end.

Results:
1. `flatMap_append_inj`: pieces one after another, up to the character that ends them.
2. `toDigits_inj`, `toString_nat_inj`: numbers by their digits.
3. `told_quoted`: a text in quotes.
4. `listed_append_inj`, `told_quotedList`: lists in brackets.
-/

namespace TreeWalk

/-- The text of `a` can be told from that of any other among `Q`, with whatever follows it. -/
def ToldAmong {α : Type} (Q : α → Prop) (text : α → List Char) (a : α) : Prop :=
  ∀ ⦃b⦄, Q b → ∀ ⦃s t⦄, text a ++ s = text b ++ t → a = b ∧ s = t

/-! ## Pieces one after another -/

section Pieces

variable {α : Type} {Q : α → Prop} {text : α → List Char} {xs ys : List α} {s t : List Char}

/-- Pieces that can be told apart are read one by one up to a character that begins none of them. -/
theorem flatMap_append_inj {k : Char} (told : ∀ a ∈ xs, ToldAmong Q text a)
    (all : ∀ b ∈ ys, Q b) (goesOn : ∀ a s t, text a ++ s ≠ k :: t)
    (same : xs.flatMap text ++ k :: s = ys.flatMap text ++ k :: t) : xs = ys ∧ s = t := by
  induction xs generalizing ys with
  | nil =>
    cases ys with
    | nil => exact ⟨rfl, (List.cons.inj same).2⟩
    | cons b ys =>
      rw [List.flatMap_cons, List.append_assoc] at same
      exact absurd same.symm (goesOn b _ _)
  | cons a xs ih =>
    cases ys with
    | nil =>
      rw [List.flatMap_cons, List.append_assoc] at same
      exact absurd same (goesOn a _ _)
    | cons b ys =>
      obtain ⟨toldFirst, toldMore⟩ := List.forall_mem_cons.mp told
      obtain ⟨first, more⟩ := List.forall_mem_cons.mp all
      rw [List.flatMap_cons, List.append_assoc, List.flatMap_cons, List.append_assoc] at same
      obtain ⟨rfl, rest⟩ := toldFirst first same
      obtain ⟨rfl, tails⟩ := ih toldMore more rest
      exact ⟨rfl, tails⟩

/-- The texts of the elements, with a comma and a space between neighbours. -/
def listed (text : α → List Char) : List α → List Char
  | [] => []
  | a :: as => text a ++ as.flatMap fun b => ',' :: ' ' :: text b

theorem listed_cons (a : α) (as : List α) (s : List Char) :
    listed text (a :: as) ++ s =
      text a ++ (as.flatMap (fun b => ',' :: ' ' :: text b) ++ s) :=
  List.append_assoc _ _ s

/-- What comes after a comma and a space can be told as before. -/
theorem ToldAmong.further {a : α} (told : ToldAmong Q text a) :
    ToldAmong Q (fun b => ',' :: ' ' :: text b) a := by
  intro b is s t same
  exact told is (List.cons.inj (List.cons.inj same).2).2

/-- A list ends with the bracket that begins none of its elements. -/
theorem listed_append_inj (told : ∀ a ∈ xs, ToldAmong Q text a) (all : ∀ b ∈ ys, Q b)
    (opens : ∀ a s t, text a ++ s ≠ ']' :: t)
    (same : listed text xs ++ ']' :: s = listed text ys ++ ']' :: t) : xs = ys ∧ s = t := by
  cases xs with
  | nil =>
    cases ys with
    | nil => exact ⟨rfl, (List.cons.inj same).2⟩
    | cons b ys =>
      rw [listed_cons] at same
      exact absurd same.symm (opens b _ _)
  | cons a xs =>
    cases ys with
    | nil =>
      rw [listed_cons] at same
      exact absurd same (opens a _ _)
    | cons b ys =>
      obtain ⟨toldFirst, toldMore⟩ := List.forall_mem_cons.mp told
      obtain ⟨first, more⟩ := List.forall_mem_cons.mp all
      rw [listed_cons, listed_cons] at same
      obtain ⟨rfl, rest⟩ := toldFirst first same
      have comma : ∀ b s t, (',' :: ' ' :: text b) ++ s ≠ ']' :: t := fun _ _ _ eq =>
        absurd (List.cons.inj eq).1 (by decide)
      obtain ⟨rfl, tails⟩ :=
        flatMap_append_inj (fun c mem => (toldMore c mem).further) more comma rest
      exact ⟨rfl, tails⟩

/-- Of two texts that are the same, what comes before the first `k` is the same, and so is what comes
after it. -/
theorem append_cons_inj {k : Char} {u v : List Char} (left : k ∉ u) (right : k ∉ v)
    (same : u ++ k :: s = v ++ k :: t) : u = v ∧ s = t := by
  rcases List.append_eq_append_iff.mp same with ⟨w, rfl, rest⟩ | ⟨w, rfl, rest⟩
  · cases w with
    | nil => exact ⟨(List.append_nil u).symm, (List.cons.inj rest).2⟩
    | cons c w =>
      obtain ⟨rfl, -⟩ := List.cons.inj rest
      exact absurd (List.mem_append_right u List.mem_cons_self) right
  · cases w with
    | nil => exact ⟨List.append_nil v, (List.cons.inj rest).2.symm⟩
    | cons c w =>
      obtain ⟨rfl, -⟩ := List.cons.inj rest
      exact absurd (List.mem_append_right v List.mem_cons_self) left

/-- The same with the last `k`. -/
theorem append_cons_inj_last {k : Char} {u v : List Char} (left : k ∉ s) (right : k ∉ t)
    (same : u ++ k :: s = v ++ k :: t) : u = v ∧ s = t := by
  have reversed : s.reverse ++ k :: u.reverse = t.reverse ++ k :: v.reverse := by
    simpa using congrArg List.reverse same
  rw [← List.mem_reverse] at left right
  obtain ⟨behind, before⟩ := append_cons_inj left right reversed
  exact ⟨List.reverse_inj.mp before, List.reverse_inj.mp behind⟩

end Pieces

theorem toList_commaSeparated (texts : List String) :
    (commaSeparated texts).toList = listed String.toList texts := by
  cases texts with
  | nil => rfl
  | cons text texts =>
    induction texts generalizing text with
    | nil => simp [commaSeparated, listed]
    | cons next texts ih =>
      have rest :
          (", ".intercalate (next :: texts)).toList = listed String.toList (next :: texts) := ih next
      rw [commaSeparated, String.intercalate_cons_cons, String.toList_append, rest]
      simp [listed]

theorem listed_map {α β : Type} (text : β → List Char) (f : α → β) (xs : List α) :
    listed text (xs.map f) = listed (fun a => text (f a)) xs := by
  cases xs with
  | nil => rfl
  | cons a as => simp [listed, List.flatMap_map]

/-! ## Digits -/

theorem digitChar_inj {m n : Nat} (left : m < 16) (right : n < 16)
    (same : m.digitChar = n.digitChar) : m = n := by
  have unique : ∀ i < 16, ∀ j < 16, i.digitChar = j.digitChar → i = j := by decide
  exact unique m left n right same

/-- Only numbers below the base have a single digit. -/
theorem toDigits_ne_singleton {b n : Nat} (base : 1 < b) (large : b ≤ n) (c : Char) :
    Nat.toDigits b n ≠ [c] := by
  rw [Nat.toDigits_of_base_le base large]
  intro same
  rcases List.append_eq_singleton_iff.mp same with ⟨none, -⟩ | ⟨-, none⟩
  · exact Nat.toDigits_ne_nil none
  · exact List.cons_ne_nil _ _ none

/-- A number can be told from its digits. -/
theorem toDigits_inj {b m n : Nat} (base : 1 < b) (bound : b ≤ 16)
    (same : Nat.toDigits b m = Nat.toDigits b n) : m = n := by
  induction m using Nat.strongRecOn generalizing n with
  | ind m ih =>
    rcases Nat.lt_or_ge m b with small | large
    · rw [Nat.toDigits_of_lt_base small] at same
      rcases Nat.lt_or_ge n b with small' | large'
      · rw [Nat.toDigits_of_lt_base small'] at same
        exact digitChar_inj (Nat.lt_of_lt_of_le small bound) (Nat.lt_of_lt_of_le small' bound)
          (List.cons.inj same).1
      · exact absurd same.symm (toDigits_ne_singleton base large' _)
    · rcases Nat.lt_or_ge n b with small' | large'
      · rw [Nat.toDigits_of_lt_base small'] at same
        exact absurd same (toDigits_ne_singleton base large _)
      · rw [Nat.toDigits_of_base_le base large, Nat.toDigits_of_base_le base large'] at same
        obtain ⟨front, last⟩ := List.append_inj' same rfl
        have quotients := ih (m / b) (Nat.div_lt_self (by omega) base) front
        have digit (k : Nat) : k % b < 16 := Nat.lt_of_lt_of_le (Nat.mod_lt k (by omega)) bound
        have remainders := digitChar_inj (digit m) (digit n) (List.cons.inj last).1
        rw [← Nat.div_add_mod m b, quotients, remainders, Nat.div_add_mod]

/-- Different numbers have different texts. -/
theorem toString_nat_inj {m n : Nat} (same : toString m = toString n) : m = n := by
  have texts : (toString m).toList = (toString n).toList := congrArg String.toList same
  exact toDigits_inj (by decide) (by decide) (Nat.toList_repr.symm.trans (texts.trans Nat.toList_repr))

theorem brace_notMem_toDigits (n : Nat) : '\x7d' ∉ Nat.toDigits 16 n := by
  induction n using Nat.strongRecOn with
  | ind n ih =>
    have digit (k : Nat) : '\x7d' ∉ [k.digitChar] := fun mem =>
      Nat.digitChar_ne '\x7d' rfl (List.mem_singleton.mp mem).symm
    rcases Nat.lt_or_ge n 16 with small | large
    · rw [Nat.toDigits_of_lt_base small]
      exact digit n
    · rw [Nat.toDigits_of_base_le (by decide) large, List.mem_append, not_or]
      exact ⟨ih (n / 16) (by omega), digit (n % 16)⟩

/-! ## Characters between quotes -/

/-- The characters that are written as a letter after a backslash, with their letters. -/
def letterEscapes : List (Char × Char) :=
  [('\x00', '0'), ('\t', 't'), ('\r', 'r'), ('\n', 'n'), ('\\', '\\'), ('\"', '\"')]

/-- What may stand after a backslash, and the character it is written for. -/
inductive Escape : Char → List Char → Prop
  | letter {c l : Char} : (c, l) ∈ letterEscapes → Escape c [l]
  | codePoint (c : Char) : Escape c ('u' :: '\x7b' :: (Nat.toDigits 16 c.toNat ++ ['\x7d']))

theorem eq_of_letterEscapes {c d l : Char} (left : (c, l) ∈ letterEscapes)
    (right : (d, l) ∈ letterEscapes) : c = d := by
  have unique : ∀ p ∈ letterEscapes, ∀ q ∈ letterEscapes, p.2 = q.2 → p.1 = q.1 := by decide
  exact unique _ left _ right rfl

/-- No letter is the one of code points. -/
theorem ne_u_of_letterEscapes {c l : Char} (mem : (c, l) ∈ letterEscapes) : l ≠ 'u' := by
  have none : ∀ p ∈ letterEscapes, p.2 ≠ 'u' := by decide
  exact none _ mem

/-- An escape says which character it is written for, and where it ends. -/
theorem Escape.append_inj {c d : Char} {e e' s t : List Char} (left : Escape c e)
    (right : Escape d e') (same : e ++ s = e' ++ t) : c = d ∧ s = t := by
  cases left with
  | letter mem =>
    cases right with
    | letter mem' =>
      obtain ⟨rfl, tails⟩ := List.cons.inj same
      exact ⟨eq_of_letterEscapes mem mem', tails⟩
    | codePoint => exact absurd (List.cons.inj same).1 (ne_u_of_letterEscapes mem)
  | codePoint =>
    cases right with
    | letter mem' => exact absurd (List.cons.inj same).1.symm (ne_u_of_letterEscapes mem')
    | codePoint =>
      obtain ⟨-, digits⟩ := List.cons.inj (List.cons.inj same).2
      rw [List.append_eq, List.append_assoc, List.append_eq, List.append_assoc] at digits
      obtain ⟨numbers, tails⟩ :=
        append_cons_inj (brace_notMem_toDigits _) (brace_notMem_toDigits _) digits
      exact ⟨Char.toNat_inj.mp (toDigits_inj (by decide) (by decide) numbers), tails⟩

/-- A character stands for itself, if it is not the backslash or the quote, or it is escaped. -/
theorem quotedChar_cases (c : Char) :
    (quotedChar c = [c] ∧ c ≠ '\\' ∧ c ≠ '\"') ∨ ∃ e, quotedChar c = '\\' :: e ∧ Escape c e := by
  unfold quotedChar
  split
  · next eq => exact .inr ⟨_, rfl, .letter (by rw [eq]; decide)⟩
  split
  · next eq => exact .inr ⟨_, rfl, .letter (by rw [eq]; decide)⟩
  split
  · next eq => exact .inr ⟨_, rfl, .letter (by rw [eq]; decide)⟩
  split
  · next eq => exact .inr ⟨_, rfl, .letter (by rw [eq]; decide)⟩
  split
  · next eq => exact .inr ⟨_, rfl, .letter (by rw [eq]; decide)⟩
  split
  · next eq => exact .inr ⟨_, rfl, .letter (by rw [eq]; decide)⟩
  split
  · next notBackslash notQuote _ => exact .inl ⟨rfl, notBackslash, notQuote⟩
  · exact .inr ⟨_, rfl, .codePoint c⟩

/-- Characters between quotes are read one by one. -/
theorem told_quotedChar (c : Char) : ToldAmong (fun _ => True) quotedChar c := by
  intro d _ s t same
  rcases quotedChar_cases c with ⟨literal, notBackslash, -⟩ | ⟨e, escaped, escape⟩
  · rcases quotedChar_cases d with ⟨literal', -⟩ | ⟨e', escaped', -⟩
    · rw [literal, literal'] at same
      exact List.cons.inj same
    · rw [literal, escaped'] at same
      exact absurd (List.cons.inj same).1 notBackslash
  · rcases quotedChar_cases d with ⟨literal', notBackslash', -⟩ | ⟨e', escaped', escape'⟩
    · rw [escaped, literal'] at same
      exact absurd (List.cons.inj same).1.symm notBackslash'
    · rw [escaped, escaped'] at same
      exact escape.append_inj escape' (List.cons.inj same).2

/-- No character is written as a quote. -/
theorem quotedChar_append_ne (c : Char) (s t : List Char) : quotedChar c ++ s ≠ '\"' :: t := by
  intro same
  rcases quotedChar_cases c with ⟨literal, -, notQuote⟩ | ⟨e, escaped, -⟩
  · rw [literal] at same
    exact notQuote (List.cons.inj same).1
  · rw [escaped] at same
    exact absurd (List.cons.inj same).1 (by decide)

/-! ## Texts in quotes -/

theorem toList_quoted (text : String) (s : List Char) :
    (quoted text).toList ++ s = '\"' :: (text.toList.flatMap quotedChar ++ '\"' :: s) := by
  simp [quoted]

/-- A text in quotes ends with its second quote. -/
theorem told_quoted (text : String) :
    ToldAmong (fun _ => True) (fun u => (quoted u).toList) text := by
  intro other _ s t same
  rw [toList_quoted, toList_quoted] at same
  obtain ⟨texts, tails⟩ := flatMap_append_inj (fun c _ => told_quotedChar c) (fun _ _ => trivial)
    quotedChar_append_ne (List.cons.inj same).2
  exact ⟨String.toList_inj.mp texts, tails⟩

theorem toList_quotedList (texts : List String) (s : List Char) :
    (quotedList texts).toList ++ s =
      '[' :: (listed (fun u => (quoted u).toList) texts ++ ']' :: s) := by
  simp [quotedList, toList_commaSeparated, listed_map]

/-- A list of texts in quotes ends with its bracket. -/
theorem told_quotedList (texts : List String) :
    ToldAmong (fun _ => True) (fun us => (quotedList us).toList) texts := by
  intro others _ s t same
  rw [toList_quotedList, toList_quotedList] at same
  refine listed_append_inj (fun u _ => told_quoted u) (fun _ _ => trivial) ?_ (List.cons.inj same).2
  intro u s t eq
  rw [toList_quoted] at eq
  exact absurd (List.cons.inj eq).1 (by decide)

end TreeWalk
