import TreeWalk.Eval.Basic
import TreeWalk.Proofs.Syntax.Uses
import TreeWalk.Scope.Heap.Lemmas

/-!
# Terms

What can be evaluated in a scope, under one name: expressions, statements, blocks and programs.
-/

namespace TreeWalk

/-- What is evaluated in a scope. -/
inductive Term where
  | expr (e : Expr Origin)
  | stmt (s : Stmt Origin)
  | block (b : Block Origin)
  | program (p : Program Origin)

namespace Term

/-- What a term does with its scope. -/
def uses : Term → List (Use Origin)
  | expr e => e.uses
  | stmt s => s.uses
  | block b => Block.uses b
  | program p => Block.uses p

/-- The targets of the `let` statements of a term outside its function literals. -/
def targets (t : Term) : List String :=
  Use.targets t.uses

/-- Evaluates a term in a scope, with calls nested to at most the given depth. -/
def eval (host : Host) (me : InterpreterId) (depth : Nat) (s : ScopeId) : Term → Run Value
  | expr e => evalExpr host me (invoke host me depth) s e
  | stmt st => evalStmt host me (invoke host me depth) s st
  | block b => evalBlock host me (invoke host me depth) s .null b
  | program p => evalProgram host me depth s p

end Term

/-- The state in which nothing was made but one root scope. -/
def World.rooted : World :=
  { World.empty with heap := Heap.empty.newRoot.2 }

theorem World.bindings_rooted (c : ScopeId) : World.rooted.heap.bindings c = .empty := by
  show (Heap.empty.allocate none .empty).bindings c = .empty
  rw [Heap.bindings_allocate, ite_eq_left_iff]
  exact fun _ => rfl

end TreeWalk
