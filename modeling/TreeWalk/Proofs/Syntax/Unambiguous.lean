import TreeWalk.Proofs.Syntax.Reading
import TreeWalk.Proofs.Text.Delimited

/-!
# Operator expressions are unambiguous

Expressions of names, numbers, booleans, operators, calls, arrays and indices are determined by
their texts. A negative number is written as its absolute value is under a minus operator, up to the
brackets around the latter, and a boolean like a name, which must therefore be another one.

The leaves are all written as words, perhaps with a sign. So one proof reads the trees of words that
have the same text (`Expr.OfWords.text_append_inj`), and a second one tells the leaves apart.

Results:
1. `IsOperand.source_inj`: the text of a leaf.
2. `operator_text_unambiguous`: the text of an expression.
-/

namespace TreeWalk

variable {σ : Type}

/-! ## Leaves -/

/-- Letters of the Latin alphabet and underscores only. -/
def IsLettered (text : String) : Prop :=
  ∀ c ∈ text.toList, c.isAlpha = true ∨ c = '_'

/-- A name that is not spelled like a boolean. -/
structure IsName (name : String) : Prop where
  nonempty : name ≠ ""
  lettered : IsLettered name
  notBool : ∀ b, name ≠ boolText b

/-- A name, a number or a boolean. -/
inductive Expr.IsOperand : Expr σ → Prop
  | ident {name : String} : IsName name → IsOperand (.ident name)
  | int (n : Int64) : IsOperand (.int n)
  | bool (b : Bool) : IsOperand (.bool b)

/-- Made of names, numbers and booleans by operators, calls, arrays and indices. -/
abbrev Expr.Operational (e : Expr σ) : Prop :=
  e.BuiltFrom IsOperand

theorem IsLettered.isWord {text : String} (lettered : IsLettered text) (nonempty : text ≠ "") :
    IsWord text.toList where
  nonempty empty := nonempty (String.toList_eq_nil_iff.mp empty)
  chars c mem := by
    rcases lettered c mem with letter | rfl
    · simp [isWordChar, Char.isAlphanum, letter]
    · rfl

theorem isLettered_boolText (b : Bool) : IsLettered (boolText b) := by
  cases b <;> simp [IsLettered, boolText]

theorem boolText_inj {a b : Bool} (same : boolText a = boolText b) : a = b := by
  cases a <;> cases b <;> first | rfl | exact absurd same (by decide)

theorem isDigit_of_mem_toDigits {c : Char} {n : Nat} (mem : c ∈ Nat.toDigits 10 n) :
    c.isDigit = true :=
  Nat.isDigit_of_mem_toDigits (by decide) (by decide) mem

theorem isWord_toDigits (n : Nat) : IsWord (Nat.toDigits 10 n) where
  nonempty := Nat.toDigits_ne_nil
  chars c mem := by simp [isWordChar, Char.isAlphanum, isDigit_of_mem_toDigits mem]

/-- The digits of a number, with a sign in front if it is negative. -/
def signedDigits : Int → List Char
  | .ofNat m => Nat.toDigits 10 m
  | .negSucc m => '-' :: Nat.toDigits 10 (m + 1)

theorem toList_intText (n : Int64) : (intText n).toList = signedDigits n.toInt := by
  rw [intText, Int.toString_eq_repr]
  cases n.toInt with
  | ofNat m => exact Nat.toList_repr
  | negSucc m =>
    rw [Int.repr, String.toList_append, Nat.toList_repr]
    rfl

theorem minus_notMem_toDigits (n : Nat) : '-' ∉ Nat.toDigits 10 n :=
  fun mem => absurd (isDigit_of_mem_toDigits mem) (by decide)

theorem signedDigits_inj {a b : Int} (same : signedDigits a = signedDigits b) : a = b := by
  cases a with
  | ofNat m =>
    cases b with
    | ofNat n => exact congrArg Int.ofNat (toDigits_inj (by decide) (by decide) same)
    | negSucc n =>
      have signed : '-' ∈ signedDigits (.ofNat m) := by
        rw [same]
        exact List.mem_cons_self
      exact absurd signed (minus_notMem_toDigits m)
  | negSucc m =>
    cases b with
    | ofNat n =>
      have signed : '-' ∈ signedDigits (.ofNat n) := by
        rw [← same]
        exact List.mem_cons_self
      exact absurd signed (minus_notMem_toDigits n)
    | negSucc n =>
      have digits := toDigits_inj (by decide) (by decide) (List.cons.inj same).2
      exact congrArg Int.negSucc (Nat.succ.inj digits)

theorem intText_inj {m n : Int64} (same : intText m = intText n) : m = n := by
  refine Int64.toInt_inj.mp (signedDigits_inj ?_)
  rw [← toList_intText, ← toList_intText, same]

theorem signedWord_intText (n : Int64) : SignedWord (intText n).toList := by
  rw [toList_intText]
  cases n.toInt with
  | ofNat m => exact .plain (isWord_toDigits m)
  | negSucc m => exact .negative (isWord_toDigits (m + 1))

/-- Digits stand before all letters. -/
theorem not_letter_of_isDigit {c : Char} (digit : c.isDigit = true) :
    ¬ (c.isAlpha = true ∨ c = '_') := by
  have high : c.toNat ≤ 57 :=
    UInt32.le_iff_toNat_le.mp (of_decide_eq_true (Bool.and_eq_true_iff.mp digit).2)
  rintro (letter | rfl)
  · rcases Bool.or_eq_true_iff.mp letter with upper | lower
    · have low : 65 ≤ c.toNat := UInt32.le_iff_toNat_le.mp (of_decide_eq_true upper).1
      omega
    · have low : 97 ≤ c.toNat :=
        UInt32.le_iff_toNat_le.mp (of_decide_eq_true (Bool.and_eq_true_iff.mp lower).1)
      omega
  · exact absurd digit (by decide)

/-- A number has a digit. -/
theorem exists_digit_intText (n : Int64) : ∃ c ∈ (intText n).toList, c.isDigit = true := by
  have first (m : Nat) : ∃ c ∈ Nat.toDigits 10 m, c.isDigit = true := by
    obtain ⟨c, mem⟩ := List.exists_mem_of_ne_nil _ (Nat.toDigits_ne_nil (b := 10) (n := m))
    exact ⟨c, mem, isDigit_of_mem_toDigits mem⟩
  rw [toList_intText]
  cases n.toInt with
  | ofNat m => exact first m
  | negSucc m =>
    obtain ⟨c, mem, digit⟩ := first (m + 1)
    exact ⟨c, List.mem_cons_of_mem _ mem, digit⟩

theorem not_isLettered_intText (n : Int64) : ¬ IsLettered (intText n) := by
  intro lettered
  obtain ⟨c, mem, digit⟩ := exists_digit_intText n
  exact not_letter_of_isDigit digit (lettered c mem)

namespace Expr

theorem IsOperand.signedWord {e : Expr σ} (operand : e.IsOperand) : SignedWord e.text := by
  cases operand with
  | ident is => exact .plain (is.lettered.isWord is.nonempty)
  | int n => exact signedWord_intText n
  | bool b => exact .plain ((isLettered_boolText b).isWord (by cases b <;> decide))

/-- Leaves can be told from their texts. -/
theorem IsOperand.source_inj {a b : Expr σ} (left : a.IsOperand) (right : b.IsOperand)
    (same : a.source = b.source) : a = b := by
  cases left with
  | @ident name is =>
    cases right with
    | ident is' => exact congrArg _ same
    | int n =>
      rw [source, source] at same
      exact absurd (same ▸ is.lettered) (not_isLettered_intText n)
    | bool b => exact absurd same (is.notBool b)
  | int n =>
    cases right with
    | ident is' =>
      rw [source, source] at same
      exact absurd (same ▸ is'.lettered) (not_isLettered_intText n)
    | int m => exact congrArg _ (intText_inj same)
    | bool b =>
      rw [source, source] at same
      exact absurd (same ▸ isLettered_boolText b) (not_isLettered_intText n)
  | bool b =>
    cases right with
    | ident is' => exact absurd same.symm (is'.notBool b)
    | int n =>
      rw [source, source] at same
      exact absurd (same ▸ isLettered_boolText b) (not_isLettered_intText n)
    | bool b' => exact congrArg _ (boolText_inj same)

/-! ## Literals as words -/

mutual

/-- The expression in which each literal is a name that is spelled the same. -/
def spelled : Expr σ → Expr σ
  | int n => ident (intText n)
  | bool b => ident (boolText b)
  | prefixOp op e => prefixOp op (spelled e)
  | infixOp l op r => infixOp (spelled l) op (spelled r)
  | call f args => call (spelled f) (spelledList args)
  | array es => array (spelledList es)
  | index l i => index (spelled l) (spelled i)
  | ident name => ident name
  | str text => str text
  | ifElse c t e => ifElse c t e
  | fn mark params body => fn mark params body

/-- The expressions of a list, spelled. -/
def spelledList : List (Expr σ) → List (Expr σ)
  | [] => []
  | e :: es => spelled e :: spelledList es

end

theorem spelledList_eq_map (es : List (Expr σ)) : spelledList es = es.map spelled := by
  induction es with
  | nil => rfl
  | cons e es ih => rw [spelledList, ih, List.map_cons]

mutual

theorem source_spelled : (e : Expr σ) → (spelled e).source = e.source
  | ident _ | int _ | str _ | bool _ | ifElse _ _ _ | fn _ _ _ => rfl
  | prefixOp op e => by rw [spelled, source, source, source_spelled e]
  | infixOp l op r => by rw [spelled, source, source, source_spelled l, source_spelled r]
  | call f args => by rw [spelled, source, source, source_spelled f, sources_spelledList args]
  | array es => by rw [spelled, source, source, sources_spelledList es]
  | index l i => by rw [spelled, source, source, source_spelled l, source_spelled i]

theorem sources_spelledList : (es : List (Expr σ)) → sources (spelledList es) = sources es
  | [] => rfl
  | e :: es => by rw [spelledList, sources, sources, source_spelled e, sources_spelledList es]

end

theorem IsOperand.spelled_eq {e : Expr σ} (operand : e.IsOperand) :
    spelled e = .ident e.source := by
  cases operand with
  | ident is => rfl
  | int n => rfl
  | bool b => rfl

theorem Operational.ofWords {e : Expr σ} (operational : e.Operational) : (spelled e).OfWords := by
  induction operational with
  | leaf operand =>
    rw [operand.spelled_eq]
    exact .leaf (.ident operand.signedWord)
  | prefixOp _ ih => exact .prefixOp ih
  | infixOp _ _ left right => exact .infixOp left right
  | call _ _ callee args =>
    rw [spelled, spelledList_eq_map]
    exact .call callee (List.forall_mem_map.mpr args)
  | array _ elements =>
    rw [spelled, spelledList_eq_map]
    exact .array (List.forall_mem_map.mpr elements)
  | index _ _ left position => exact .index left position

theorem spelledList_inj {es fs : List (Expr σ)}
    (each : ∀ e ∈ es, ∀ ⦃f : Expr σ⦄, f.Operational → spelled e = spelled f → e = f)
    (right : ∀ f ∈ fs, f.Operational) (same : spelledList es = spelledList fs) : es = fs := by
  induction es generalizing fs with
  | nil =>
    cases fs with
    | nil => rfl
    | cons f fs => cases same
  | cons e es ih =>
    cases fs with
    | nil => cases same
    | cons f fs =>
      rw [List.forall_mem_cons] at each right
      obtain ⟨first, rest⟩ := List.cons.inj same
      rw [each.1 right.1 first, ih each.2 right.2 rest]

/-- Spelling the literals out loses nothing. -/
theorem Operational.spelled_inj {a b : Expr σ} (left : a.Operational) (right : b.Operational)
    (same : spelled a = spelled b) : a = b := by
  induction left generalizing b with
  | leaf operand =>
    rw [operand.spelled_eq] at same
    cases right with
    | leaf operand' =>
      rw [operand'.spelled_eq] at same
      exact operand.source_inj operand' (ident.inj same)
    | prefixOp | infixOp | call | array | index => cases same
  | prefixOp _ ih =>
    cases right with
    | prefixOp operand' =>
      obtain ⟨rfl, operands⟩ := prefixOp.inj same
      rw [ih operand' operands]
    | leaf operand' => cases same.trans operand'.spelled_eq
    | infixOp | call | array | index => cases same
  | infixOp _ _ ihLeft ihRight =>
    cases right with
    | infixOp left' right' =>
      obtain ⟨lefts, rfl, rights⟩ := infixOp.inj same
      rw [ihLeft left' lefts, ihRight right' rights]
    | leaf operand' => cases same.trans operand'.spelled_eq
    | prefixOp | call | array | index => cases same
  | call _ _ ihCallee ihArgs =>
    cases right with
    | call callee' args' =>
      obtain ⟨callees, args⟩ := call.inj same
      rw [ihCallee callee' callees, spelledList_inj ihArgs args' args]
    | leaf operand' => cases same.trans operand'.spelled_eq
    | prefixOp | infixOp | array | index => cases same
  | array _ ih =>
    cases right with
    | array elements' => rw [spelledList_inj ih elements' (array.inj same)]
    | leaf operand' => cases same.trans operand'.spelled_eq
    | prefixOp | infixOp | call | index => cases same
  | index _ _ ihLeft ihPosition =>
    cases right with
    | index left' position' =>
      obtain ⟨lefts, positions⟩ := index.inj same
      rw [ihLeft left' lefts, ihPosition position' positions]
    | leaf operand' => cases same.trans operand'.spelled_eq
    | prefixOp | infixOp | call | array => cases same

end Expr

/-! ## Expressions -/

/-- Operator expressions that have the same text are the same tree. -/
theorem operator_text_unambiguous {a b : Expr σ} (left : a.Operational) (right : b.Operational) :
    a.source = b.source ↔ a = b := by
  constructor
  · intro same
    have texts : a.spelled.text ++ [] = b.spelled.text ++ [] := by
      rw [Expr.text, Expr.text, Expr.source_spelled, Expr.source_spelled, same]
    obtain ⟨trees, -⟩ :=
      left.ofWords.text_append_inj right.ofWords endsOperand_nil endsOperand_nil texts
    exact left.spelled_inj right trees
  · exact congrArg Expr.source

theorem isName_x : IsName "x" where
  nonempty := by decide
  lettered := by simp [IsLettered]
  notBool b := by cases b <;> decide

/-- The sign of a number in front of a call and the sign of the call: `(-5(x) - x)` and
`(-(5(x) - x))`. -/
theorem operator_text_unambiguous_sign :
    let x : Expr Unit := .ident "x"
    let left : Expr Unit := .infixOp (.call (.int (-5)) [x]) .sub x
    let right : Expr Unit := .prefixOp .negate (.infixOp (.call (.int 5) [x]) .sub x)
    left.Operational ∧ right.Operational ∧ left.source ≠ right.source := by
  intro x left right
  have name : x.Operational := .leaf (.ident isName_x)
  have args : ∀ e ∈ [x], e.Operational := List.forall_mem_singleton.mpr name
  have l : left.Operational := .infixOp (.call (.leaf (.int (-5))) args) name
  have r : right.Operational := .prefixOp (.infixOp (.call (.leaf (.int 5)) args) name)
  exact ⟨l, r, fun same => nomatch (operator_text_unambiguous l r).mp same⟩

end TreeWalk
