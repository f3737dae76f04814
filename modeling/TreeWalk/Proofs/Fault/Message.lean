import TreeWalk.Fault
import TreeWalk.Proofs.Syntax.Reading
import TreeWalk.Proofs.Text.Delimited
import TreeWalk.Value.Equality

/-!
# Messages tell faults apart

Evaluation sees nothing of a fault but its message, and nothing is lost by that. Names and reasons are
shown as they are and may look like any part of any message, so a message is read from the sides on
which they are not. It begins with words of which none begin with others, and from the front most
messages are read to the end: kinds have no blanks, and numbers no commas. Where a name is in the
middle, the kind at the end is read first. The words between the two are equally long in both messages
of this form, and differ.

Results:
1. `Fault.opening_eq`: what messages begin with.
2. `infixText_inj`, `counts_inj`, `between_inj`: what comes after that.
3. `faults_lowered_apart`: messages, and the error values that have them.
-/

namespace TreeWalk

/-- A fault of the evaluator or of a standard builtin. -/
abbrev Fault := EvalFault ⊕ BuiltinFault

namespace Fault

/-- The message of a fault. -/
def message : Fault → String
  | .inl f => f.message
  | .inr f => f.message

/-- The error value that a fault becomes. -/
def toValue : Fault → Value
  | .inl f => f.toValue
  | .inr f => f.toValue

/-! ## The first words -/

/-- What a message can begin with. -/
inductive Opening where
  | unbound
  | unknownOperator
  | typeMismatch
  | notCallable
  | wrongCount
  | notIndexable
  | divisionByZero
  | argument
  | output

/-- The words at the beginning. -/
def Opening.words : Opening → String
  | unbound => "identifier not found: "
  | unknownOperator => "unknown operator: "
  | typeMismatch => "type mismatch: "
  | notCallable => "not a function: "
  | wrongCount => "wrong number of arguments"
  | notIndexable => "index operator not supported: "
  | divisionByZero => "division by zero"
  | argument => "argument to `"
  | output => "could not write output: "

/-- The first two letters of the words. -/
def Opening.letters : Opening → Char × Char
  | unbound => ('i', 'd')
  | unknownOperator => ('u', 'n')
  | typeMismatch => ('t', 'y')
  | notCallable => ('n', 'o')
  | wrongCount => ('w', 'r')
  | notIndexable => ('i', 'n')
  | divisionByZero => ('d', 'i')
  | argument => ('a', 'r')
  | output => ('c', 'o')

theorem Opening.letters_inj {o p : Opening} (same : o.letters = p.letters) : o = p := by
  cases o <;> cases p <;> first | rfl | exact absurd same (by decide)

theorem Opening.exists_words (o : Opening) :
    ∃ cs, o.words.toList = o.letters.1 :: o.letters.2 :: cs := by
  cases o <;> simp [words, letters]

/-- How the message of a fault begins. -/
def opening : Fault → Opening
  | .inl (.unbound _) => .unbound
  | .inl (.unknownPrefix _ _) => .unknownOperator
  | .inl (.unknownInfix _ _ _) => .unknownOperator
  | .inl (.typeMismatch _ _ _) => .typeMismatch
  | .inl (.notCallable _) => .notCallable
  | .inl (.arityMismatch _ _) => .wrongCount
  | .inl (.notIndexable _) => .notIndexable
  | .inl .divisionByZero => .divisionByZero
  | .inr (.wrongCount _ _) => .wrongCount
  | .inr (.unsupported _ _) => .argument
  | .inr (.notArray _ _) => .argument
  | .inr (.output _) => .output

/-- What comes after the first words. -/
def rest : Fault → String
  | .inl (.unbound name) => name
  | .inl (.unknownPrefix op operand) => op.symbol ++ operand.name
  | .inl (.unknownInfix l op r) => infixText l op r
  | .inl (.typeMismatch l op r) => infixText l op r
  | .inl (.notCallable kind) => kind.name
  | .inl (.arityMismatch expected received) =>
      ": want=" ++ (toString expected ++ ", got=" ++ toString received)
  | .inl (.notIndexable kind) => kind.name
  | .inl .divisionByZero => ""
  | .inr (.wrongCount got want) => ". got=" ++ (toString got ++ ", want=" ++ toString want)
  | .inr (.unsupported name kind) => name ++ "` not supported, got " ++ kind.name
  | .inr (.notArray name kind) => name ++ "` must be ARRAY, got " ++ kind.name
  | .inr (.output reason) => reason

theorem message_eq : (f : Fault) → f.message = f.opening.words ++ f.rest
  | .inl (.unbound _) | .inl (.notCallable _) | .inl (.notIndexable _) | .inr (.output _) => rfl
  | .inl (.unknownInfix _ _ _) | .inl (.typeMismatch _ _ _) => rfl
  | .inl .divisionByZero => rfl
  | .inl (.unknownPrefix _ _) => String.append_assoc
  | .inl (.arityMismatch expected received) => by
    show "wrong number of arguments: want=" ++ toString expected ++ ", got=" ++ toString received =
      "wrong number of arguments" ++
        (": want=" ++ (toString expected ++ ", got=" ++ toString received))
    have words : "wrong number of arguments: want=" = "wrong number of arguments" ++ ": want=" := by
      decide
    simp only [words, String.append_assoc]
  | .inr (.wrongCount got want) => by
    show "wrong number of arguments. got=" ++ toString got ++ ", want=" ++ toString want =
      "wrong number of arguments" ++ (". got=" ++ (toString got ++ ", want=" ++ toString want))
    have words : "wrong number of arguments. got=" = "wrong number of arguments" ++ ". got=" := by
      decide
    simp only [words, String.append_assoc]
  | .inr (.unsupported name kind) => by
    show "argument to `" ++ name ++ "` not supported, got " ++ kind.name =
      "argument to `" ++ (name ++ "` not supported, got " ++ kind.name)
    simp only [String.append_assoc]
  | .inr (.notArray name kind) => by
    show "argument to `" ++ name ++ "` must be ARRAY, got " ++ kind.name =
      "argument to `" ++ (name ++ "` must be ARRAY, got " ++ kind.name)
    simp only [String.append_assoc]

/-- Equal messages begin with the same words and go on alike. -/
theorem opening_eq {f g : Fault} (same : f.message = g.message) :
    f.opening = g.opening ∧ f.rest = g.rest := by
  rw [message_eq, message_eq, ← String.toList_inj, String.toList_append,
    String.toList_append] at same
  have words : f.opening = g.opening := by
    obtain ⟨cs, left⟩ := f.opening.exists_words
    obtain ⟨ds, right⟩ := g.opening.exists_words
    rw [left, right] at same
    obtain ⟨first, more⟩ := List.cons.inj same
    exact Opening.letters_inj (Prod.ext first (List.cons.inj more).1)
  refine ⟨words, ?_⟩
  rw [words] at same
  exact String.toList_inj.mp (List.append_cancel_left same)

end Fault

/-! ## What comes after them -/

theorem Kind.name_inj {k l : Kind} (same : k.name = l.name) : k = l := by
  have found := k.named?_name
  rw [same, l.named?_name] at found
  exact (Option.some.inj found).symm

theorem Kind.blank_notMem_name (k : Kind) : ' ' ∉ k.name.toList := by
  cases k <;> decide

theorem toList_infixText (l : Kind) (op : InfixOp) (r : Kind) :
    (infixText l op r).toList =
      l.name.toList ++ ' ' :: (op.symbol.toList ++ ' ' :: r.name.toList) := by
  simp [infixText]

/-- Operands and operator are read from the front, up to the blanks. -/
theorem infixText_inj {l r l' r' : Kind} {op op' : InfixOp}
    (same : infixText l op r = infixText l' op' r') : l = l' ∧ op = op' ∧ r = r' := by
  rw [← String.toList_inj, toList_infixText, toList_infixText] at same
  obtain ⟨lefts, same⟩ := append_cons_inj l.blank_notMem_name l'.blank_notMem_name same
  obtain ⟨rfl, rights⟩ := InfixOp.symbol_append_inj same
  exact ⟨Kind.name_inj (String.toList_inj.mp lefts), rfl,
    Kind.name_inj (String.toList_inj.mp rights)⟩

theorem prefixText_inj {op op' : PrefixOp} {k k' : Kind}
    (same : op.symbol ++ k.name = op'.symbol ++ k'.name) : op = op' ∧ k = k' := by
  rw [← String.toList_inj, String.toList_append, String.toList_append] at same
  obtain ⟨rfl, names⟩ := PrefixOp.symbol_append_inj same
  exact ⟨rfl, Kind.name_inj (String.toList_inj.mp names)⟩

/-- A kind does not begin like a prefix operator. -/
theorem prefixText_ne_infixText (op : PrefixOp) (k l : Kind) (op' : InfixOp) (r : Kind) :
    op.symbol ++ k.name ≠ infixText l op' r := by
  intro same
  rw [← String.toList_inj, String.toList_append, toList_infixText] at same
  cases op <;> cases l <;> exact absurd (List.cons.inj same).1 (by decide)

theorem comma_notMem_toString (n : Nat) : ',' ∉ (toString n).toList := by
  intro mem
  have digits : (toString n).toList = Nat.toDigits 10 n := Nat.toList_repr
  rw [digits] at mem
  exact absurd (Nat.isDigit_of_mem_toDigits (by decide) (by decide) mem) (by decide)

/-- Two numbers are read from the front, up to the comma. -/
theorem counts_inj {m n m' n' : Nat} {front words : String} (comma : words.toList.head? = some ',')
    (same : front ++ (toString m ++ words ++ toString n) =
      front ++ (toString m' ++ words ++ toString n')) : m = m' ∧ n = n' := by
  obtain ⟨more, eq⟩ := List.head?_eq_some_iff.mp comma
  have text (i j : Nat) : (front ++ (toString i ++ words ++ toString j)).toList =
      front.toList ++ ((toString i).toList ++ ',' :: (more ++ (toString j).toList)) := by
    simp [eq]
  rw [← String.toList_inj, text, text] at same
  obtain ⟨firsts, seconds⟩ := append_cons_inj (comma_notMem_toString m) (comma_notMem_toString m')
    (List.append_cancel_left same)
  exact ⟨toString_nat_inj (String.toList_inj.mp firsts),
    toString_nat_inj (String.toList_inj.mp (List.append_cancel_left seconds))⟩

/-- The two messages about counts differ after their first words. -/
theorem wanted_ne_given (s t : String) : ": want=" ++ s ≠ ". got=" ++ t := by
  intro same
  rw [← String.toList_inj, String.toList_append, String.toList_append] at same
  exact absurd (List.cons.inj same).1 (by decide)

/-- A kind at the end is read first, back to the blank before it. Words of one length are then read
next, and the name is what is left. -/
theorem between_inj {name name' words words' : String} {k k' : Kind}
    (blank : words.toList.getLast? = some ' ') (blank' : words'.toList.getLast? = some ' ')
    (length : words.toList.length = words'.toList.length)
    (same : name ++ words ++ k.name = name' ++ words' ++ k'.name) :
    name = name' ∧ words = words' ∧ k = k' := by
  obtain ⟨front, eq⟩ := List.getLast?_eq_some_iff.mp blank
  obtain ⟨front', eq'⟩ := List.getLast?_eq_some_iff.mp blank'
  have text : (name ++ words ++ k.name).toList =
      (name.toList ++ front) ++ ' ' :: k.name.toList := by
    simp [eq]
  have text' : (name' ++ words' ++ k'.name).toList =
      (name'.toList ++ front') ++ ' ' :: k'.name.toList := by
    simp [eq']
  rw [← String.toList_inj, text, text'] at same
  obtain ⟨fronts, kinds⟩ := append_cons_inj_last k.blank_notMem_name k'.blank_notMem_name same
  rw [eq, eq', List.length_append, List.length_append] at length
  obtain ⟨names, rfl⟩ := List.append_inj' fronts (Nat.add_right_cancel length)
  exact ⟨String.toList_inj.mp names, String.toList_inj.mp (eq.trans eq'.symm),
    Kind.name_inj (String.toList_inj.mp kinds)⟩

/-- The two messages with a name in the middle differ behind it. -/
theorem unsupported_ne_notArray (name : String) (k : Kind) (name' : String) (k' : Kind) :
    name ++ "` not supported, got " ++ k.name ≠ name' ++ "` must be ARRAY, got " ++ k'.name := by
  intro same
  obtain ⟨-, words, -⟩ := between_inj (by rfl) (by rfl) (by decide) same
  exact absurd words (by decide)

/-! ## Faults -/

namespace Fault

/-- Nothing is lost in a message. -/
theorem message_inj {f g : Fault} (same : f.message = g.message) : f = g := by
  obtain ⟨words, more⟩ := opening_eq same
  -- Only faults that begin with the same words are left, two by two.
  rcases f with f | f <;> cases f <;> rcases g with g | g <;> cases g <;> try cases words
  case inl.unbound.inl.unbound.refl name name' =>
    obtain rfl : name = name' := more
    rfl
  case inl.unknownPrefix.inl.unknownPrefix.refl op k op' k' =>
    obtain ⟨rfl, rfl⟩ := prefixText_inj more
    rfl
  case inl.unknownPrefix.inl.unknownInfix.refl =>
    exact absurd more (prefixText_ne_infixText _ _ _ _ _)
  case inl.unknownInfix.inl.unknownPrefix.refl =>
    exact absurd more.symm (prefixText_ne_infixText _ _ _ _ _)
  case inl.unknownInfix.inl.unknownInfix.refl =>
    obtain ⟨rfl, rfl, rfl⟩ := infixText_inj more
    rfl
  case inl.typeMismatch.inl.typeMismatch.refl =>
    obtain ⟨rfl, rfl, rfl⟩ := infixText_inj more
    rfl
  case inl.notCallable.inl.notCallable.refl =>
    obtain rfl := Kind.name_inj more
    rfl
  case inl.arityMismatch.inl.arityMismatch.refl =>
    obtain ⟨rfl, rfl⟩ := counts_inj rfl more
    rfl
  case inl.arityMismatch.inr.wrongCount.refl => exact absurd more (wanted_ne_given _ _)
  case inl.notIndexable.inl.notIndexable.refl =>
    obtain rfl := Kind.name_inj more
    rfl
  case inl.divisionByZero.inl.divisionByZero.refl => rfl
  case inr.wrongCount.inl.arityMismatch.refl => exact absurd more.symm (wanted_ne_given _ _)
  case inr.wrongCount.inr.wrongCount.refl =>
    obtain ⟨rfl, rfl⟩ := counts_inj rfl more
    rfl
  case inr.unsupported.inr.unsupported.refl =>
    obtain ⟨rfl, -, rfl⟩ := between_inj (by rfl) (by rfl) (by rfl) more
    rfl
  case inr.unsupported.inr.notArray.refl =>
    exact absurd more (unsupported_ne_notArray _ _ _ _)
  case inr.notArray.inr.unsupported.refl =>
    exact absurd more.symm (unsupported_ne_notArray _ _ _ _)
  case inr.notArray.inr.notArray.refl =>
    obtain ⟨rfl, -, rfl⟩ := between_inj (by rfl) (by rfl) (by rfl) more
    rfl
  case inr.output.inr.output.refl reason reason' =>
    obtain rfl : reason = reason' := more
    rfl

end Fault

/-- Messages determine faults, of the evaluator and of the builtins alike, and so do the error values
that faults become. -/
theorem faults_lowered_apart (f g : Fault) :
    (f.message = g.message ↔ f = g) ∧ (f.toValue.same g.toValue = true ↔ f = g) := by
  have lowered (f : Fault) : f.toValue = .err f.message := by cases f <;> rfl
  have messages : f.message = g.message ↔ f = g := ⟨Fault.message_inj, congrArg Fault.message⟩
  refine ⟨messages, ?_⟩
  rw [Value.same_iff, lowered, lowered, Value.err.injEq, messages]

end TreeWalk
