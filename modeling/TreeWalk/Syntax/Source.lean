import TreeWalk.Syntax.Basic
import TreeWalk.Text.Basic

/-!
# Source text

The text of a tree. Operators are always parenthesised, strings are written verbatim, and a block
is the bare sequence of its statements, so the text of a program does not always determine it.
Marks are not written.
-/

namespace TreeWalk

/-- The operator as it is written. -/
def PrefixOp.symbol : PrefixOp → String
  | .not => "!"
  | .negate => "-"

/-- The operator as it is written. -/
def InfixOp.symbol : InfixOp → String
  | .add => "+"
  | .sub => "-"
  | .mul => "*"
  | .div => "/"
  | .lt => "<"
  | .gt => ">"
  | .eq => "=="
  | .ne => "!="

mutual

/-- The text of an expression. -/
def Expr.source {σ : Type} : Expr σ → String
  | .ident name => name
  | .int n => intText n
  | .str text => text
  | .bool b => boolText b
  | .prefixOp op e => "(" ++ op.symbol ++ e.source ++ ")"
  | .infixOp l op r => "(" ++ l.source ++ " " ++ op.symbol ++ " " ++ r.source ++ ")"
  | .ifElse c t none => "if" ++ c.source ++ " " ++ Block.source t
  | .ifElse c t (some e) =>
      "if" ++ c.source ++ " " ++ Block.source t ++ "else " ++ Block.source e
  | .fn _ params body => "fn(" ++ commaSeparated params ++ ") " ++ Block.source body
  | .call f args => f.source ++ "(" ++ commaSeparated (Expr.sources args) ++ ")"
  | .array es => "[" ++ commaSeparated (Expr.sources es) ++ "]"
  | .index l i => "(" ++ l.source ++ "[" ++ i.source ++ "])"

/-- The text of a statement. A bare expression has no semicolon. -/
def Stmt.source {σ : Type} : Stmt σ → String
  | .bind name e => "let " ++ name ++ " = " ++ e.source ++ ";"
  | .ret e => "return " ++ e.source ++ ";"
  | .expr e => e.source

/-- The texts of the expressions of a list. -/
def Expr.sources {σ : Type} : List (Expr σ) → List String
  | [] => []
  | e :: es => e.source :: Expr.sources es

/-- The text of a block or of a program: its statements with nothing between them. -/
def Block.source {σ : Type} : Block σ → String
  | [] => ""
  | s :: ss => s.source ++ Block.source ss

end

end TreeWalk
