import TreeWalk.Syntax.Source

/-!
# Reading expressions of words

An expression that operators, calls, arrays and indices make of words can be read back from its
text, with whatever follows it. Where a word ends is seen from the character after it, and so is
whether a callee is called. A word may have a minus sign in front, so what follows the bracket and
the sign of `(-5(x)…` may be the operand of the sign or, with the sign, an operand on the left. This
is decided by what comes after that operand and not before.

Results:
1. `IsWord.append_inj`, `SignedWord.append_inj`: the end of a word.
2. `OfWords.spine`: an expression is something called any number of times.
3. `OfWords.text_append_inj`: the end of an expression.
-/

namespace TreeWalk

variable {σ : Type}

/-! ## Words -/

/-- A character of names and of numbers. -/
def isWordChar (c : Char) : Bool :=
  c.isAlphanum || c = '_'

/-- A name or a number. -/
structure IsWord (w : List Char) : Prop where
  nonempty : w ≠ []
  chars : ∀ c ∈ w, isWordChar c = true

/-- A word, perhaps with a minus sign in front. -/
inductive SignedWord : List Char → Prop
  | plain {w : List Char} : IsWord w → SignedWord w
  | negative {w : List Char} : IsWord w → SignedWord ('-' :: w)

/-- No word goes on here. -/
def EndsWord (rest : List Char) : Prop :=
  ∀ c, rest.head? = some c → isWordChar c = false

/-- No word goes on here, and nothing is called here. -/
def EndsOperand (rest : List Char) : Prop :=
  ∀ c, rest.head? = some c → isWordChar c = false ∧ c ≠ '('

theorem endsOperand_nil : EndsOperand [] :=
  nofun

theorem endsOperand_cons {c : Char} (ends : isWordChar c = false ∧ c ≠ '(') (rest : List Char) :
    EndsOperand (c :: rest) := by
  rintro _ ⟨⟩
  exact ends

namespace IsWord

theorem exists_cons {w : List Char} (word : IsWord w) :
    ∃ c cs, w = c :: cs ∧ isWordChar c = true := by
  obtain ⟨c, cs, rfl⟩ := List.exists_cons_of_ne_nil word.nonempty
  exact ⟨c, cs, rfl, word.chars c List.mem_cons_self⟩

/-- A word is what comes before the first character that is none of a word. -/
theorem takeWhile_append {w rest : List Char} (word : IsWord w) (ends : EndsWord rest) :
    (w ++ rest).takeWhile isWordChar = w := by
  rw [List.takeWhile_append_of_pos word.chars]
  cases rest with
  | nil => rw [List.takeWhile_nil, List.append_nil]
  | cons c rest =>
    have other : ¬ isWordChar c = true := by
      rw [ends c rfl]
      exact Bool.false_ne_true
    rw [List.takeWhile_cons_of_neg other, List.append_nil]

theorem append_inj {v w s t : List Char} (left : IsWord v) (right : IsWord w) (ends : EndsWord s)
    (ends' : EndsWord t) (same : v ++ s = w ++ t) : v = w ∧ s = t := by
  have words : v = w := by
    rw [← left.takeWhile_append ends, same, right.takeWhile_append ends']
  subst words
  exact ⟨rfl, List.append_cancel_left same⟩

/-- A word does not begin with a minus sign. -/
theorem append_ne_minus {w : List Char} (word : IsWord w) (s t : List Char) :
    w ++ s ≠ '-' :: t := by
  obtain ⟨c, cs, rfl, char⟩ := word.exists_cons
  rintro ⟨⟩
  exact absurd char (by decide)

end IsWord

theorem SignedWord.append_inj {v w s t : List Char} (left : SignedWord v) (right : SignedWord w)
    (ends : EndsWord s) (ends' : EndsWord t) (same : v ++ s = w ++ t) : v = w ∧ s = t := by
  cases left with
  | plain left =>
    cases right with
    | plain right => exact left.append_inj right ends ends' same
    | negative right => exact absurd same (left.append_ne_minus _ _)
  | negative left =>
    cases right with
    | plain right => exact absurd same.symm (right.append_ne_minus _ _)
    | negative right =>
      obtain ⟨rfl, rest⟩ := left.append_inj right ends ends' (List.cons.inj same).2
      exact ⟨rfl, rest⟩

/-! ## Texts -/

theorem PrefixOp.symbol_append_inj {op op' : PrefixOp} {s t : List Char}
    (same : op.symbol.toList ++ s = op'.symbol.toList ++ t) : op = op' ∧ s = t := by
  cases op <;> cases op' <;> simp [symbol] at same ⊢ <;> exact same

/-- A symbol ends with the blank after it. -/
theorem InfixOp.symbol_append_inj {op op' : InfixOp} {s t : List Char}
    (same : op.symbol.toList ++ ' ' :: s = op'.symbol.toList ++ ' ' :: t) : op = op' ∧ s = t := by
  cases op <;> cases op' <;> simp [symbol] at same ⊢ <;> exact same

namespace Expr

/-- The characters of an expression. -/
def text (e : Expr σ) : List Char :=
  e.source.toList

/-- The characters of a list from its second element on. -/
def furtherText (es : List (Expr σ)) : List Char :=
  es.flatMap fun e => ',' :: ' ' :: e.text

/-- The characters of a list between its brackets. -/
def listText : List (Expr σ) → List Char
  | [] => []
  | e :: es => e.text ++ furtherText es

/-- The characters of some argument lists, one after another. -/
def callsText (calls : List (List (Expr σ))) : List Char :=
  calls.flatMap fun args => '(' :: (listText args ++ [')'])

theorem furtherText_cons (e : Expr σ) (es : List (Expr σ)) (s : List Char) :
    furtherText (e :: es) ++ s = ',' :: ' ' :: (e.text ++ (furtherText es ++ s)) := by
  simp [furtherText]

theorem listText_cons (e : Expr σ) (es : List (Expr σ)) (s : List Char) :
    listText (e :: es) ++ s = e.text ++ (furtherText es ++ s) :=
  List.append_assoc _ _ s

theorem callsText_cons (args : List (Expr σ)) (calls : List (List (Expr σ))) (s : List Char) :
    callsText (args :: calls) ++ s = '(' :: (listText args ++ ')' :: (callsText calls ++ s)) := by
  simp [callsText]

theorem toList_sources (es : List (Expr σ)) :
    (commaSeparated (sources es)).toList = listText es := by
  cases es with
  | nil => rfl
  | cons e es =>
    induction es generalizing e with
    | nil => simp [sources, commaSeparated, listText, furtherText, text]
    | cons f fs ih =>
      rw [sources, sources, commaSeparated, String.intercalate_cons_cons, String.toList_append]
      have rest : (", ".intercalate (f.source :: sources fs)).toList = listText (f :: fs) := ih f
      rw [rest]
      simp [listText, furtherText, text]

theorem text_ident (name : String) : (ident name : Expr σ).text = name.toList := rfl

theorem text_prefixOp (op : PrefixOp) (e : Expr σ) (s : List Char) :
    (prefixOp op e).text ++ s = '(' :: (op.symbol.toList ++ (e.text ++ ')' :: s)) := by
  simp [text, source]

theorem text_infixOp (l r : Expr σ) (op : InfixOp) (s : List Char) :
    (infixOp l op r).text ++ s =
      '(' :: (l.text ++ ' ' :: (op.symbol.toList ++ ' ' :: (r.text ++ ')' :: s))) := by
  simp [text, source]

theorem text_call (f : Expr σ) (args : List (Expr σ)) :
    (call f args).text = f.text ++ callsText [args] := by
  simp [text, source, callsText, toList_sources]

theorem text_array (es : List (Expr σ)) (s : List Char) :
    (array es).text ++ s = '[' :: (listText es ++ ']' :: s) := by
  simp [text, source, toList_sources]

theorem text_index (l i : Expr σ) (s : List Char) :
    (index l i).text ++ s = '(' :: (l.text ++ '[' :: (i.text ++ ']' :: ')' :: s)) := by
  simp [text, source]

end Expr

/-! ## Expressions of words -/

/-- Made of leaves by operators, calls, arrays and indices. -/
inductive Expr.BuiltFrom (Leaf : Expr σ → Prop) : Expr σ → Prop
  | leaf {e : Expr σ} : Leaf e → BuiltFrom Leaf e
  | prefixOp {op : PrefixOp} {e : Expr σ} : BuiltFrom Leaf e → BuiltFrom Leaf (.prefixOp op e)
  | infixOp {l r : Expr σ} {op : InfixOp} :
      BuiltFrom Leaf l → BuiltFrom Leaf r → BuiltFrom Leaf (.infixOp l op r)
  | call {f : Expr σ} {args : List (Expr σ)} :
      BuiltFrom Leaf f → (∀ e ∈ args, BuiltFrom Leaf e) → BuiltFrom Leaf (.call f args)
  | array {es : List (Expr σ)} : (∀ e ∈ es, BuiltFrom Leaf e) → BuiltFrom Leaf (.array es)
  | index {l i : Expr σ} : BuiltFrom Leaf l → BuiltFrom Leaf i → BuiltFrom Leaf (.index l i)

/-- No word goes on where something is called. -/
theorem EndsOperand.callsText {rest : List Char} (ends : EndsOperand rest)
    (calls : List (List (Expr σ))) : EndsWord (Expr.callsText calls ++ rest) := by
  cases calls with
  | nil => exact fun c first => (ends c first).1
  | cons args calls =>
    rintro _ ⟨⟩
    rfl

/-- A name that is a word, perhaps with a minus sign in front. -/
inductive Expr.IsSignedWord : Expr σ → Prop
  | ident {name : String} : SignedWord name.toList → IsSignedWord (.ident name)

/-- Made of words. -/
abbrev Expr.OfWords (e : Expr σ) : Prop :=
  e.BuiltFrom IsSignedWord

/-- Made of words, and in round brackets. -/
inductive Expr.Grouped : Expr σ → Prop
  | prefixOp {op : PrefixOp} {e : Expr σ} : e.OfWords → Grouped (.prefixOp op e)
  | infixOp {l r : Expr σ} {op : InfixOp} : l.OfWords → r.OfWords → Grouped (.infixOp l op r)
  | index {l i : Expr σ} : l.OfWords → i.OfWords → Grouped (.index l i)

/-- Made of words, and no call. -/
inductive Expr.Uncalled : Expr σ → Prop
  | ident {name : String} : SignedWord name.toList → Uncalled (.ident name)
  | array {es : List (Expr σ)} : (∀ e ∈ es, e.OfWords) → Uncalled (.array es)
  | grouped {e : Expr σ} : e.Grouped → Uncalled e

/-- Calls something with argument lists, one after another. -/
def Expr.callAll (e : Expr σ) (calls : List (List (Expr σ))) : Expr σ :=
  calls.foldl .call e

theorem Expr.text_callAll (e : Expr σ) (calls : List (List (Expr σ))) :
    (e.callAll calls).text = e.text ++ callsText calls := by
  induction calls generalizing e with
  | nil => simp [callAll, callsText]
  | cons args calls ih =>
    rw [callAll, List.foldl_cons]
    show ((e.call args).callAll calls).text = _
    rw [ih, text_call, List.append_assoc, callsText, callsText, callsText, ← List.flatMap_append,
      List.singleton_append]

/-- The character may be the first of an expression. -/
def OpensExpr (c : Char) : Prop :=
  isWordChar c = true ∨ c = '-' ∨ c = '(' ∨ c = '['

theorem SignedWord.exists_cons {w : List Char} (signed : SignedWord w) :
    ∃ c cs, w = c :: cs ∧ (isWordChar c = true ∨ c = '-') := by
  cases signed with
  | plain word =>
    obtain ⟨c, cs, eq, char⟩ := word.exists_cons
    exact ⟨c, cs, eq, .inl char⟩
  | negative word => exact ⟨'-', _, rfl, .inr rfl⟩

/-- A word does not begin with a bracket. -/
theorem SignedWord.append_ne_bracket {w : List Char} (signed : SignedWord w) {c : Char}
    (bracket : c = '(' ∨ c = '[') (s t : List Char) : w ++ s ≠ c :: t := by
  obtain ⟨d, cs, rfl, first⟩ := signed.exists_cons
  rintro ⟨⟩
  rcases bracket with rfl | rfl
  · exact absurd first (by decide)
  · exact absurd first (by decide)

namespace Expr

/-- An expression is something called any number of times. -/
theorem OfWords.spine {e : Expr σ} (words : e.OfWords) : ∃ h : Expr σ, ∃ calls,
    e = h.callAll calls ∧ h.Uncalled ∧ ∀ args ∈ calls, ∀ a ∈ args, a.OfWords := by
  induction words with
  | leaf word =>
    obtain ⟨signed⟩ := word
    exact ⟨_, [], rfl, .ident signed, nofun⟩
  | array elements => exact ⟨_, [], rfl, .array elements, nofun⟩
  | prefixOp operand => exact ⟨_, [], rfl, .grouped (.prefixOp operand), nofun⟩
  | infixOp left right => exact ⟨_, [], rfl, .grouped (.infixOp left right), nofun⟩
  | index left position => exact ⟨_, [], rfl, .grouped (.index left position), nofun⟩
  | @call f args _ words ih =>
    obtain ⟨h, calls, rfl, uncalled, all⟩ := ih
    refine ⟨h, calls ++ [args], ?_, uncalled, ?_⟩
    · rw [callAll, callAll, List.foldl_append]
      rfl
    · rw [List.forall_mem_append, List.forall_mem_singleton]
      exact ⟨all, words⟩

theorem OfWords.callAll {e : Expr σ} (words : e.OfWords) {calls : List (List (Expr σ))}
    (all : ∀ args ∈ calls, ∀ a ∈ args, a.OfWords) : (e.callAll calls).OfWords := by
  induction calls generalizing e with
  | nil => exact words
  | cons args calls ih =>
    obtain ⟨args, more⟩ := List.forall_mem_cons.mp all
    exact ih (.call words args) more

theorem Grouped.exists_cons {e : Expr σ} (grouped : e.Grouped) (s : List Char) :
    ∃ cs, e.text ++ s = '(' :: cs := by
  cases grouped with
  | prefixOp => exact ⟨_, text_prefixOp _ _ s⟩
  | infixOp => exact ⟨_, text_infixOp _ _ _ s⟩
  | index => exact ⟨_, text_index _ _ s⟩

theorem OfWords.exists_cons {e : Expr σ} (words : e.OfWords) (s : List Char) :
    ∃ c cs, e.text ++ s = c :: cs ∧ OpensExpr c := by
  obtain ⟨h, calls, rfl, uncalled, -⟩ := words.spine
  rw [text_callAll, List.append_assoc]
  cases uncalled with
  | ident signed =>
    obtain ⟨c, cs, eq, first⟩ := signed.exists_cons
    rw [text_ident, eq]
    exact ⟨c, _, rfl, first.imp_right .inl⟩
  | array elements => exact ⟨'[', _, text_array _ _, .inr (.inr (.inr rfl))⟩
  | grouped grouped =>
    obtain ⟨cs, eq⟩ := grouped.exists_cons (callsText calls ++ s)
    exact ⟨'(', cs, eq, .inr (.inr (.inl rfl))⟩

/-- No expression begins where a list ends. -/
theorem OfWords.append_ne_cons {e : Expr σ} (words : e.OfWords) {c : Char} (closes : ¬ OpensExpr c)
    (s t : List Char) : e.text ++ s ≠ c :: t := by
  obtain ⟨d, cs, eq, opens⟩ := words.exists_cons s
  rw [eq]
  rintro ⟨⟩
  exact closes opens

/-- Without the minus sign in front, what is left of an expression is one too. -/
theorem OfWords.unsigned {e : Expr σ} (words : e.OfWords) {s t : List Char}
    (sign : e.text ++ s = '-' :: t) : ∃ u : Expr σ, u.OfWords ∧ u.text ++ s = t := by
  obtain ⟨h, calls, rfl, uncalled, all⟩ := words.spine
  rw [text_callAll, List.append_assoc] at sign
  cases uncalled with
  | @ident name signed =>
    rw [text_ident] at sign
    generalize name.toList = cs at sign signed
    cases signed with
    | plain word => exact absurd sign (word.append_ne_minus _ _)
    | @negative w word =>
      have name : (String.ofList w).toList = w := String.toList_ofList
      refine ⟨(ident (String.ofList w)).callAll calls, .callAll (.leaf (.ident ?_)) all, ?_⟩
      · rw [name]
        exact .plain word
      · rw [text_callAll, text_ident, name, List.append_assoc]
        exact (List.cons.inj sign).2
  | array elements =>
    rw [text_array] at sign
    exact absurd (List.cons.inj sign).1 (by decide)
  | grouped grouped =>
    obtain ⟨cs, eq⟩ := grouped.exists_cons (callsText calls ++ s)
    exact absurd (List.cons.inj (eq.symm.trans sign)).1 (by decide)

end Expr

/-! ## The end of an expression -/

/-- In texts shorter than `n`, an expression of words ends in one place. -/
def ReadsBelow (σ : Type) (n : Nat) : Prop :=
  ∀ ⦃a b : Expr σ⦄ ⦃s t : List Char⦄, a.OfWords → b.OfWords → EndsOperand s → EndsOperand t →
    a.text ++ s = b.text ++ t → (a.text ++ s).length < n → a = b ∧ s = t

/-- The character ends a list. -/
def ClosesList (c : Char) : Prop :=
  c = ')' ∨ c = ']'

namespace ReadsBelow

open TreeWalk.Expr

variable {n : Nat} {s t : List Char} {k : Char}

theorem endsOperand_furtherText (closes : ClosesList k) (es : List (Expr σ)) (s : List Char) :
    EndsOperand (furtherText es ++ k :: s) := by
  cases es with
  | nil =>
    rcases closes with rfl | rfl
    · exact endsOperand_cons (by decide) _
    · exact endsOperand_cons (by decide) _
  | cons e es => exact endsOperand_cons (by decide) _

theorem furtherText_inj (reads : ReadsBelow σ n) (closes : ClosesList k) {es fs : List (Expr σ)}
    (left : ∀ e ∈ es, e.OfWords) (right : ∀ f ∈ fs, f.OfWords)
    (same : furtherText es ++ k :: s = furtherText fs ++ k :: t)
    (lt : (furtherText es ++ k :: s).length < n) : es = fs ∧ s = t := by
  have comma : k ≠ ',' := by rcases closes with rfl | rfl <;> decide
  induction es generalizing fs with
  | nil =>
    cases fs with
    | nil => exact ⟨rfl, (List.cons.inj same).2⟩
    | cons f fs => exact absurd (List.cons.inj same).1 comma
  | cons e es more =>
    cases fs with
    | nil => exact absurd (List.cons.inj same).1.symm comma
    | cons f fs =>
      obtain ⟨words, moreLeft⟩ := List.forall_mem_cons.mp left
      obtain ⟨words', moreRight⟩ := List.forall_mem_cons.mp right
      rw [furtherText_cons, furtherText_cons, List.cons.injEq, List.cons.injEq] at same
      rw [furtherText_cons, List.length_cons, List.length_cons] at lt
      obtain ⟨rfl, rest⟩ := reads words words' (endsOperand_furtherText closes es s)
        (endsOperand_furtherText closes fs t) same.2.2 (by omega)
      rw [List.length_append] at lt
      obtain ⟨rfl, tails⟩ := more moreLeft moreRight rest (by omega)
      exact ⟨rfl, tails⟩

theorem listText_inj (reads : ReadsBelow σ n) (closes : ClosesList k) {es fs : List (Expr σ)}
    (left : ∀ e ∈ es, e.OfWords) (right : ∀ f ∈ fs, f.OfWords)
    (same : listText es ++ k :: s = listText fs ++ k :: t)
    (lt : (listText es ++ k :: s).length < n) : es = fs ∧ s = t := by
  have ends : ¬ OpensExpr k := by
    unfold OpensExpr
    rcases closes with rfl | rfl <;> decide
  cases es with
  | nil =>
    cases fs with
    | nil => exact ⟨rfl, (List.cons.inj same).2⟩
    | cons f fs =>
      rw [listText_cons] at same
      exact absurd same.symm ((right f List.mem_cons_self).append_ne_cons ends _ _)
  | cons e es =>
    cases fs with
    | nil =>
      rw [listText_cons] at same
      exact absurd same ((left e List.mem_cons_self).append_ne_cons ends _ _)
    | cons f fs =>
      obtain ⟨words, moreLeft⟩ := List.forall_mem_cons.mp left
      obtain ⟨words', moreRight⟩ := List.forall_mem_cons.mp right
      rw [listText_cons, listText_cons] at same
      rw [listText_cons] at lt
      obtain ⟨rfl, rest⟩ := reads words words' (endsOperand_furtherText closes es s)
        (endsOperand_furtherText closes fs t) same lt
      rw [List.length_append] at lt
      obtain ⟨rfl, tails⟩ := reads.furtherText_inj closes moreLeft moreRight rest (by omega)
      exact ⟨rfl, tails⟩

theorem callsText_inj (reads : ReadsBelow σ n) {calls others : List (List (Expr σ))}
    (left : ∀ args ∈ calls, ∀ a ∈ args, a.OfWords) (right : ∀ args ∈ others, ∀ a ∈ args, a.OfWords)
    (endsLeft : EndsOperand s) (endsRight : EndsOperand t)
    (same : callsText calls ++ s = callsText others ++ t)
    (le : (callsText calls ++ s).length ≤ n) : calls = others ∧ s = t := by
  induction calls generalizing others with
  | nil =>
    cases others with
    | nil => exact ⟨rfl, same⟩
    | cons args others => exact absurd rfl (endsLeft '(' (congrArg List.head? same)).2
  | cons args calls more =>
    cases others with
    | nil => exact absurd rfl (endsRight '(' (congrArg List.head? same.symm)).2
    | cons args' others =>
      obtain ⟨words, moreLeft⟩ := List.forall_mem_cons.mp left
      obtain ⟨words', moreRight⟩ := List.forall_mem_cons.mp right
      rw [callsText_cons, callsText_cons, List.cons.injEq] at same
      rw [callsText_cons, List.length_cons] at le
      obtain ⟨rfl, rest⟩ := reads.listText_inj (.inl rfl) words words' same.2 le
      rw [List.length_append, List.length_cons] at le
      obtain ⟨rfl, tails⟩ := more moreLeft moreRight rest (by omega)
      exact ⟨rfl, tails⟩

/-- An operand of a sign ends with a bracket, and one on the left of something does not. -/
theorem sign_ne_left (reads : ReadsBelow σ n) {op : PrefixOp} {e l : Expr σ} (operand : e.OfWords)
    (left : l.OfWords) (ends : EndsOperand (k :: t)) (notClosed : k ≠ ')')
    (le : (l.text ++ k :: t).length ≤ n) :
    op.symbol.toList ++ (e.text ++ ')' :: s) ≠ l.text ++ k :: t := by
  intro same
  cases op with
  | not => exact left.append_ne_cons (by unfold OpensExpr; decide) _ _ same.symm
  | negate =>
    rw [← same] at le
    obtain ⟨u, words, rest⟩ := left.unsigned same.symm
    obtain ⟨-, rest⟩ := reads operand words (endsOperand_cons (by decide) s) ends rest.symm le
    exact notClosed (List.cons.inj rest).1.symm

/-- An operator in front of its operand is not read as one between two, nor as an index. -/
theorem prefixOp_ne (reads : ReadsBelow σ n) {op : PrefixOp} {e h : Expr σ} (operand : e.OfWords)
    (grouped : h.Grouped) (other : ∀ op e, h ≠ .prefixOp op e) (le : (h.text ++ t).length ≤ n) :
    (prefixOp op e).text ++ s ≠ h.text ++ t := by
  intro same
  rw [text_prefixOp] at same
  cases grouped with
  | prefixOp => exact other _ _ rfl
  | infixOp left right =>
    rw [text_infixOp] at same le
    exact reads.sign_ne_left operand left (endsOperand_cons (by decide) _) (by decide)
      (Nat.le_of_succ_le le) (List.cons.inj same).2
  | index left position =>
    rw [text_index] at same le
    exact reads.sign_ne_left operand left (endsOperand_cons (by decide) _) (by decide)
      (Nat.le_of_succ_le le) (List.cons.inj same).2

/-- What comes after the operand on the left is a blank for an operator and a bracket for an index.
-/
theorem infixOp_ne_index (reads : ReadsBelow σ n) {op : InfixOp} {l r l' i : Expr σ}
    (left : l.OfWords) (left' : l'.OfWords) (le : ((infixOp l op r).text ++ s).length ≤ n) :
    (infixOp l op r).text ++ s ≠ (index l' i).text ++ t := by
  intro same
  rw [text_infixOp, text_index] at same
  rw [text_infixOp] at le
  obtain ⟨-, rest⟩ := reads left left' (endsOperand_cons (by decide) _)
    (endsOperand_cons (by decide) _) (List.cons.inj same).2 le
  exact absurd (List.cons.inj rest).1 (by decide)

theorem grouped_inj (reads : ReadsBelow σ n) {g h : Expr σ} (grouped : g.Grouped)
    (grouped' : h.Grouped) (same : g.text ++ s = h.text ++ t) (le : (g.text ++ s).length ≤ n) :
    g = h ∧ s = t := by
  have round : ∀ rest, EndsOperand (')' :: rest) := endsOperand_cons (by decide)
  have le' : (h.text ++ t).length ≤ n := same ▸ le
  cases grouped with
  | prefixOp operand =>
    cases grouped' with
    | prefixOp operand' =>
      rw [text_prefixOp, text_prefixOp, List.cons.injEq] at same
      rw [text_prefixOp, List.length_cons, List.length_append] at le
      obtain ⟨rfl, rest⟩ := PrefixOp.symbol_append_inj same.2
      obtain ⟨rfl, tails⟩ := reads operand operand' (round _) (round _) rest (by omega)
      exact ⟨rfl, (List.cons.inj tails).2⟩
    | infixOp left' right' =>
      exact absurd same (reads.prefixOp_ne operand (.infixOp left' right') nofun le')
    | index left' position' =>
      exact absurd same (reads.prefixOp_ne operand (.index left' position') nofun le')
  | infixOp left right =>
    cases grouped' with
    | prefixOp operand' =>
      exact absurd same.symm (reads.prefixOp_ne operand' (.infixOp left right) nofun le)
    | infixOp left' right' =>
      rw [text_infixOp, text_infixOp, List.cons.injEq] at same
      rw [text_infixOp] at le
      obtain ⟨rfl, rest⟩ := reads left left' (endsOperand_cons (by decide) _)
        (endsOperand_cons (by decide) _) same.2 le
      obtain ⟨rfl, operands⟩ := InfixOp.symbol_append_inj (List.cons.inj rest).2
      simp only [List.length_cons, List.length_append] at le
      obtain ⟨rfl, tails⟩ := reads right right' (round _) (round _) operands
        (by simp only [List.length_cons, List.length_append]; omega)
      exact ⟨rfl, (List.cons.inj tails).2⟩
    | index left' position' => exact absurd same (reads.infixOp_ne_index left left' le)
  | index left position =>
    cases grouped' with
    | prefixOp operand' =>
      exact absurd same.symm (reads.prefixOp_ne operand' (.index left position) nofun le)
    | infixOp left' right' => exact absurd same.symm (reads.infixOp_ne_index left' left le')
    | index left' position' =>
      rw [text_index, text_index, List.cons.injEq] at same
      rw [text_index] at le
      obtain ⟨rfl, rest⟩ := reads left left' (endsOperand_cons (by decide) _)
        (endsOperand_cons (by decide) _) same.2 le
      simp only [List.length_cons, List.length_append] at le
      obtain ⟨rfl, tails⟩ := reads position position' (endsOperand_cons (by decide) _)
        (endsOperand_cons (by decide) _) (List.cons.inj rest).2
        (by simp only [List.length_cons, List.length_append]; omega)
      exact ⟨rfl, (List.cons.inj (List.cons.inj tails).2).2⟩

theorem uncalled_inj (reads : ReadsBelow σ n) {g h : Expr σ} (left : g.Uncalled)
    (right : h.Uncalled) (ends : EndsWord s) (ends' : EndsWord t)
    (same : g.text ++ s = h.text ++ t) (le : (g.text ++ s).length ≤ n) : g = h ∧ s = t := by
  cases left with
  | ident signed =>
    cases right with
    | ident signed' =>
      obtain ⟨names, tails⟩ := signed.append_inj signed' ends ends' same
      rw [String.toList_inj.mp names]
      exact ⟨rfl, tails⟩
    | array words' =>
      rw [text_array] at same
      exact absurd same (signed.append_ne_bracket (.inr rfl) _ _)
    | grouped grouped' =>
      obtain ⟨cs, eq⟩ := grouped'.exists_cons t
      exact absurd (same.trans eq) (signed.append_ne_bracket (.inl rfl) _ _)
  | array words =>
    rw [text_array] at same le
    cases right with
    | ident signed' => exact absurd same.symm (signed'.append_ne_bracket (.inr rfl) _ _)
    | array words' =>
      rw [text_array, List.cons.injEq] at same
      obtain ⟨rfl, tails⟩ := reads.listText_inj (.inr rfl) words words' same.2 le
      exact ⟨rfl, tails⟩
    | grouped grouped' =>
      obtain ⟨cs, eq⟩ := grouped'.exists_cons t
      exact absurd (List.cons.inj (same.trans eq)).1 (by decide)
  | grouped grouped =>
    cases right with
    | ident signed' =>
      obtain ⟨cs, eq⟩ := grouped.exists_cons s
      exact absurd (same.symm.trans eq) (signed'.append_ne_bracket (.inl rfl) _ _)
    | array words' =>
      rw [text_array] at same
      obtain ⟨cs, eq⟩ := grouped.exists_cons s
      exact absurd (List.cons.inj (eq.symm.trans same)).1 (by decide)
    | grouped grouped' => exact reads.grouped_inj grouped grouped' same le

/-- Where the callees end is where the calls of them begin. -/
theorem succ (reads : ReadsBelow σ n) : ReadsBelow σ (n + 1) := by
  intro a b s t left right ends ends' same lt
  obtain ⟨g, calls, rfl, uncalled, all⟩ := left.spine
  obtain ⟨h, others, rfl, uncalled', all'⟩ := right.spine
  rw [text_callAll, List.append_assoc] at same lt
  rw [text_callAll, List.append_assoc] at same
  obtain ⟨rfl, rest⟩ := reads.uncalled_inj uncalled uncalled' (ends.callsText calls)
    (ends'.callsText others) same (Nat.le_of_lt_succ lt)
  rw [List.length_append] at lt
  obtain ⟨rfl, tails⟩ := reads.callsText_inj all all' ends ends' rest (by omega)
  exact ⟨rfl, tails⟩

end ReadsBelow

theorem readsBelow (σ : Type) (n : Nat) : ReadsBelow σ n := by
  induction n with
  | zero => exact fun _ _ _ _ _ _ _ _ _ lt => absurd lt (Nat.not_lt_zero _)
  | succ n reads => exact reads.succ

/-- An expression of words can be told from its text, with whatever follows it. -/
theorem Expr.OfWords.text_append_inj {a b : Expr σ} {s t : List Char} (left : a.OfWords)
    (right : b.OfWords) (ends : EndsOperand s) (ends' : EndsOperand t)
    (same : a.text ++ s = b.text ++ t) : a = b ∧ s = t :=
  readsBelow σ _ left right ends ends' same (Nat.lt_succ_self _)

end TreeWalk
