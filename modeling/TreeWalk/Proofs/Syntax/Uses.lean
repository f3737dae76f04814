import TreeWalk.Syntax.Basic

/-!
# Uses of a scope

What a tree does with the scope in which it runs: it looks names up, it binds names, and at each
function literal it captures the scope. The branches of an `if` run in the scope around them, so
what they do counts. The body of a function literal runs in another scope, so what it does is not
listed: it is found in the literal itself.
-/

namespace TreeWalk

/-- One thing that a tree does with the scope in which it runs. -/
inductive Use (σ : Type) where
  /-- Looks a name up. -/
  | look (name : String)
  /-- Binds a name. -/
  | bind (name : String)
  /-- Makes a function of the scope and of the parts of a literal. -/
  | capture (mark : σ) (params : List String) (body : Block σ)

variable {σ : Type}

mutual

/-- The uses of an expression, in the order of its text. -/
def Expr.uses : Expr σ → List (Use σ)
  | .ident name => [.look name]
  | .int _ => []
  | .str _ => []
  | .bool _ => []
  | .prefixOp _ e => e.uses
  | .infixOp l _ r => l.uses ++ r.uses
  | .ifElse c t none => c.uses ++ Block.uses t
  | .ifElse c t (some e) => c.uses ++ (Block.uses t ++ Block.uses e)
  | .fn mark params body => [.capture mark params body]
  | .call f args => f.uses ++ Expr.usesOfAll args
  | .array es => Expr.usesOfAll es
  | .index l i => l.uses ++ i.uses

/-- The uses of a statement. A binding follows the uses of its value. -/
def Stmt.uses : Stmt σ → List (Use σ)
  | .bind name e => e.uses ++ [.bind name]
  | .ret e => e.uses
  | .expr e => e.uses

/-- The uses of some expressions. -/
def Expr.usesOfAll : List (Expr σ) → List (Use σ)
  | [] => []
  | e :: es => e.uses ++ Expr.usesOfAll es

/-- The uses of the statements of a block or of a program. -/
def Block.uses : Block σ → List (Use σ)
  | [] => []
  | stmt :: rest => stmt.uses ++ Block.uses rest

end

/-- The name that a use binds. -/
def Use.target? : Use σ → Option String
  | .bind name => some name
  | _ => none

/-- The names that some uses bind. For the uses of a tree these are the targets of its `let`
statements outside its function literals. -/
def Use.targets (uses : List (Use σ)) : List String :=
  uses.filterMap Use.target?

theorem Use.mem_targets_iff {uses : List (Use σ)} {name : String} :
    name ∈ Use.targets uses ↔ .bind name ∈ uses := by
  rw [Use.targets, List.mem_filterMap]
  constructor
  · rintro ⟨use, mem, eq⟩
    cases use with
    | bind n =>
      cases eq
      exact mem
    | look n => cases eq
    | capture mark params body => cases eq
  · intro mem
    exact ⟨.bind name, mem, rfl⟩

end TreeWalk
