import TreeWalk.Syntax.Basic

/-!
# Equality of trees

Two trees are equal when they have the same shape, the same names, literals and operators, and the
same marks. On plain trees this compares shape alone.
-/

namespace TreeWalk

mutual

/-- Whether two expressions are the same tree. -/
def Expr.same {σ : Type} [DecidableEq σ] : Expr σ → Expr σ → Bool
  | .ident m, .ident n => m = n
  | .int m, .int n => m = n
  | .str s, .str t => s = t
  | .bool x, .bool y => x = y
  | .prefixOp o a, .prefixOp p b => o = p && a.same b
  | .infixOp a o b, .infixOp c p d => a.same c && o = p && b.same d
  | .ifElse c t none, .ifElse d u none => c.same d && Block.same t u
  | .ifElse c t (some e), .ifElse d u (some f) => c.same d && Block.same t u && Block.same e f
  | .fn m ps b, .fn n qs c => m = n && ps = qs && Block.same b c
  | .call f as, .call g bs => f.same g && Expr.sameList as bs
  | .array as, .array bs => Expr.sameList as bs
  | .index a i, .index b j => a.same b && i.same j
  | _, _ => false

/-- Whether two statements are the same tree. -/
def Stmt.same {σ : Type} [DecidableEq σ] : Stmt σ → Stmt σ → Bool
  | .bind m a, .bind n b => m = n && a.same b
  | .ret a, .ret b => a.same b
  | .expr a, .expr b => a.same b
  | _, _ => false

/-- Whether two lists of expressions agree element by element. -/
def Expr.sameList {σ : Type} [DecidableEq σ] : List (Expr σ) → List (Expr σ) → Bool
  | [], [] => true
  | a :: as, b :: bs => a.same b && Expr.sameList as bs
  | _, _ => false

/-- Whether two blocks agree statement by statement. -/
def Block.same {σ : Type} [DecidableEq σ] : Block σ → Block σ → Bool
  | [], [] => true
  | a :: as, b :: bs => a.same b && Block.same as bs
  | _, _ => false

end

/-! ## The comparison decides equality -/

mutual

theorem Expr.same_iff {σ : Type} [DecidableEq σ] : (a b : Expr σ) → (a.same b = true ↔ a = b)
  | .ident _, b => by cases b <;> simp [Expr.same]
  | .int _, b => by cases b <;> simp [Expr.same]
  | .str _, b => by cases b <;> simp [Expr.same]
  | .bool _, b => by cases b <;> simp [Expr.same]
  | .prefixOp _ a, b => by cases b <;> simp [Expr.same, Expr.same_iff a]
  | .infixOp a _ c, b => by
      cases b <;> simp [Expr.same, Expr.same_iff a, Expr.same_iff c, and_assoc]
  | .ifElse c t none, b => by
      cases b with
      | ifElse d u f => cases f <;> simp [Expr.same, Expr.same_iff c, Block.same_iff t]
      | _ => simp [Expr.same]
  | .ifElse c t (some e), b => by
      cases b with
      | ifElse d u f =>
        cases f <;> simp [Expr.same, Expr.same_iff c, Block.same_iff t, Block.same_iff e, and_assoc]
      | _ => simp [Expr.same]
  | .fn _ _ c, b => by cases b <;> simp [Expr.same, Block.same_iff c, and_assoc]
  | .call f as, b => by cases b <;> simp [Expr.same, Expr.same_iff f, Expr.sameList_iff as]
  | .array as, b => by cases b <;> simp [Expr.same, Expr.sameList_iff as]
  | .index a i, b => by cases b <;> simp [Expr.same, Expr.same_iff a, Expr.same_iff i]

theorem Stmt.same_iff {σ : Type} [DecidableEq σ] : (a b : Stmt σ) → (a.same b = true ↔ a = b)
  | .bind _ a, b => by cases b <;> simp [Stmt.same, Expr.same_iff a]
  | .ret a, b => by cases b <;> simp [Stmt.same, Expr.same_iff a]
  | .expr a, b => by cases b <;> simp [Stmt.same, Expr.same_iff a]

theorem Expr.sameList_iff {σ : Type} [DecidableEq σ] :
    (as bs : List (Expr σ)) → (Expr.sameList as bs = true ↔ as = bs)
  | [], bs => by cases bs <;> simp [Expr.sameList]
  | a :: as, bs => by cases bs <;> simp [Expr.sameList, Expr.same_iff a, Expr.sameList_iff as]

theorem Block.same_iff {σ : Type} [DecidableEq σ] :
    (as bs : Block σ) → (Block.same as bs = true ↔ as = bs)
  | [], bs => by cases bs <;> simp [Block.same]
  | a :: as, bs => by cases bs <;> simp [Block.same, Stmt.same_iff a, Block.same_iff as]

end

instance {σ : Type} [DecidableEq σ] : DecidableEq (Expr σ) := fun a b =>
  decidable_of_iff _ (Expr.same_iff a b)

instance {σ : Type} [DecidableEq σ] : DecidableEq (Stmt σ) := fun a b =>
  decidable_of_iff _ (Stmt.same_iff a b)

end TreeWalk
