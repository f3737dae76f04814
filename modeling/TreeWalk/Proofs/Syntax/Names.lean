import TreeWalk.Proofs.Syntax.Uses

/-!
# Names in a tree

All names that stand somewhere in a tree: the identifiers, the targets of its `let` statements, and
the parameters of its function literals, at any depth of nesting.

Result: `Block.mem_names_iff`, that the names of a tree are those of its uses.
-/

namespace TreeWalk

variable {σ : Type}

mutual

/-- The names in an expression. -/
def Expr.names : Expr σ → List String
  | .ident name => [name]
  | .int _ => []
  | .str _ => []
  | .bool _ => []
  | .prefixOp _ e => e.names
  | .infixOp l _ r => l.names ++ r.names
  | .ifElse c t none => c.names ++ Block.names t
  | .ifElse c t (some e) => c.names ++ (Block.names t ++ Block.names e)
  | .fn _ params body => params ++ Block.names body
  | .call f args => f.names ++ Expr.namesOfAll args
  | .array es => Expr.namesOfAll es
  | .index l i => l.names ++ i.names

/-- The names in a statement. -/
def Stmt.names : Stmt σ → List String
  | .bind name e => e.names ++ [name]
  | .ret e => e.names
  | .expr e => e.names

/-- The names in some expressions. -/
def Expr.namesOfAll : List (Expr σ) → List String
  | [] => []
  | e :: es => e.names ++ Expr.namesOfAll es

/-- The names in the statements of a block or of a program. -/
def Block.names : Block σ → List String
  | [] => []
  | stmt :: rest => stmt.names ++ Block.names rest

end

/-- The names in a use. -/
def Use.names : Use σ → List String
  | .look name => [name]
  | .bind name => [name]
  | .capture _ params body => params ++ Block.names body

mutual

theorem Expr.names_eq : (e : Expr σ) → e.names = e.uses.flatMap Use.names
  | .ident name => rfl
  | .int n => rfl
  | .str text => rfl
  | .bool b => rfl
  | .prefixOp _ e => Expr.names_eq e
  | .infixOp l _ r => by
    rw [Expr.names, Expr.uses, List.flatMap_append, Expr.names_eq l, Expr.names_eq r]
  | .ifElse c t none => by
    rw [Expr.names, Expr.uses, List.flatMap_append, Expr.names_eq c, Block.names_eq t]
  | .ifElse c t (some e) => by
    rw [Expr.names, Expr.uses, List.flatMap_append, List.flatMap_append, Expr.names_eq c,
      Block.names_eq t, Block.names_eq e]
  | .fn _ params body => by
    rw [Expr.names, Expr.uses, List.flatMap_singleton, Use.names]
  | .call f args => by
    rw [Expr.names, Expr.uses, List.flatMap_append, Expr.names_eq f, Expr.namesOfAll_eq args]
  | .array es => Expr.namesOfAll_eq es
  | .index l i => by
    rw [Expr.names, Expr.uses, List.flatMap_append, Expr.names_eq l, Expr.names_eq i]

theorem Stmt.names_eq : (stmt : Stmt σ) → stmt.names = stmt.uses.flatMap Use.names
  | .bind name e => by
    rw [Stmt.names, Stmt.uses, List.flatMap_append, Expr.names_eq e, List.flatMap_singleton,
      Use.names]
  | .ret e => Expr.names_eq e
  | .expr e => Expr.names_eq e

theorem Expr.namesOfAll_eq : (es : List (Expr σ)) →
    Expr.namesOfAll es = (Expr.usesOfAll es).flatMap Use.names
  | [] => rfl
  | e :: es => by
    rw [Expr.namesOfAll, Expr.usesOfAll, List.flatMap_append, Expr.names_eq e,
      Expr.namesOfAll_eq es]

theorem Block.names_eq : (block : Block σ) →
    Block.names block = (Block.uses block).flatMap Use.names
  | [] => rfl
  | stmt :: rest => by
    rw [Block.names, Block.uses, List.flatMap_append, Stmt.names_eq stmt, Block.names_eq rest]

end

/-- A name is in a block when it is in one of its uses. -/
theorem Block.mem_names_iff {block : Block σ} {name : String} :
    name ∈ Block.names block ↔ ∃ use ∈ Block.uses block, name ∈ use.names := by
  rw [Block.names_eq, List.mem_flatMap]

end TreeWalk
