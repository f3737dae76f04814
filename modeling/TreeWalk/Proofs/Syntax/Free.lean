import TreeWalk.Proofs.Syntax.Uses

/-!
# Free names

The identifiers of a tree that are no parameters of function literals around them. A `let` binds
nothing here: whether it has run when a name is looked up is not a matter of syntax.

Result: `Block.mem_free_iff`, that the free names of a tree are those of its uses.
-/

namespace TreeWalk

variable {σ : Type}

mutual

/-- The free names of an expression. -/
def Expr.free : Expr σ → List String
  | .ident name => [name]
  | .int _ => []
  | .str _ => []
  | .bool _ => []
  | .prefixOp _ e => e.free
  | .infixOp l _ r => l.free ++ r.free
  | .ifElse c t none => c.free ++ Block.free t
  | .ifElse c t (some e) => c.free ++ (Block.free t ++ Block.free e)
  | .fn _ params body => (Block.free body).filter (· ∉ params)
  | .call f args => f.free ++ Expr.freeOfAll args
  | .array es => Expr.freeOfAll es
  | .index l i => l.free ++ i.free

/-- The free names of a statement. -/
def Stmt.free : Stmt σ → List String
  | .bind _ e => e.free
  | .ret e => e.free
  | .expr e => e.free

/-- The free names of some expressions. -/
def Expr.freeOfAll : List (Expr σ) → List String
  | [] => []
  | e :: es => e.free ++ Expr.freeOfAll es

/-- The free names of the statements of a block or of a program. -/
def Block.free : Block σ → List String
  | [] => []
  | stmt :: rest => stmt.free ++ Block.free rest

end

/-- The free names of a use. -/
def Use.free : Use σ → List String
  | .look name => [name]
  | .bind _ => []
  | .capture _ params body => (Block.free body).filter (· ∉ params)

mutual

theorem Expr.free_eq : (e : Expr σ) → e.free = e.uses.flatMap Use.free
  | .ident name => rfl
  | .int n => rfl
  | .str text => rfl
  | .bool b => rfl
  | .prefixOp _ e => Expr.free_eq e
  | .infixOp l _ r => by
    rw [Expr.free, Expr.uses, List.flatMap_append, Expr.free_eq l, Expr.free_eq r]
  | .ifElse c t none => by
    rw [Expr.free, Expr.uses, List.flatMap_append, Expr.free_eq c, Block.free_eq t]
  | .ifElse c t (some e) => by
    rw [Expr.free, Expr.uses, List.flatMap_append, List.flatMap_append, Expr.free_eq c,
      Block.free_eq t, Block.free_eq e]
  | .fn _ params body => by
    rw [Expr.free, Expr.uses, List.flatMap_singleton, Use.free]
  | .call f args => by
    rw [Expr.free, Expr.uses, List.flatMap_append, Expr.free_eq f, Expr.freeOfAll_eq args]
  | .array es => Expr.freeOfAll_eq es
  | .index l i => by
    rw [Expr.free, Expr.uses, List.flatMap_append, Expr.free_eq l, Expr.free_eq i]

theorem Stmt.free_eq : (stmt : Stmt σ) → stmt.free = stmt.uses.flatMap Use.free
  | .bind name e => by
    rw [Stmt.free, Stmt.uses, List.flatMap_append, Expr.free_eq e, List.flatMap_singleton,
      Use.free, List.append_nil]
  | .ret e => Expr.free_eq e
  | .expr e => Expr.free_eq e

theorem Expr.freeOfAll_eq : (es : List (Expr σ)) →
    Expr.freeOfAll es = (Expr.usesOfAll es).flatMap Use.free
  | [] => rfl
  | e :: es => by
    rw [Expr.freeOfAll, Expr.usesOfAll, List.flatMap_append, Expr.free_eq e,
      Expr.freeOfAll_eq es]

theorem Block.free_eq : (block : Block σ) → Block.free block = (Block.uses block).flatMap Use.free
  | [] => rfl
  | stmt :: rest => by
    rw [Block.free, Block.uses, List.flatMap_append, Stmt.free_eq stmt, Block.free_eq rest]

end

/-- A name is free in a block when it is free in one of its uses. -/
theorem Block.mem_free_iff {block : Block σ} {name : String} :
    name ∈ Block.free block ↔ ∃ use ∈ Block.uses block, name ∈ use.free := by
  rw [Block.free_eq, List.mem_flatMap]

end TreeWalk
