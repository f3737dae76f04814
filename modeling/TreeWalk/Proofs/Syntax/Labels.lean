import TreeWalk.Proofs.Syntax.Literals
import TreeWalk.Syntax.Origin

/-!
# Labels of function literals

Labelling a tree gives each of its function literals a label of its own. The labels are drawn in the
order of the text, a literal before the literals in its body, and none is left out: the literals of
the tree in this order carry consecutive numbers.

So a label belongs to one literal at most, and what a tree says about the contents of its labels is
a function.

Results:
1. `Block.withInner_allLiterals`: with a literal come the literals in its body.
2. `Block.numbered_label`: the literals of a labelled tree are numbered.
3. `Numbered.unique`: literals of one label are one literal.
-/

namespace TreeWalk

variable {σ : Type}

/-! ## Literals at any depth -/

mutual

/-- The function literals of an expression, also those inside others, in the order of the text. -/
def Expr.allLiterals : Expr σ → List (Literal σ)
  | .ident _ => []
  | .int _ => []
  | .str _ => []
  | .bool _ => []
  | .prefixOp _ e => e.allLiterals
  | .infixOp l _ r => l.allLiterals ++ r.allLiterals
  | .ifElse c t none => c.allLiterals ++ Block.allLiterals t
  | .ifElse c t (some e) => c.allLiterals ++ (Block.allLiterals t ++ Block.allLiterals e)
  | .fn mark params body => ⟨mark, params, body⟩ :: Block.allLiterals body
  | .call f args => f.allLiterals ++ Expr.allLiteralsOfAll args
  | .array es => Expr.allLiteralsOfAll es
  | .index l i => l.allLiterals ++ i.allLiterals

/-- The function literals of a statement at any depth. -/
def Stmt.allLiterals : Stmt σ → List (Literal σ)
  | .bind _ e => e.allLiterals
  | .ret e => e.allLiterals
  | .expr e => e.allLiterals

/-- The function literals of some expressions at any depth. -/
def Expr.allLiteralsOfAll : List (Expr σ) → List (Literal σ)
  | [] => []
  | e :: es => e.allLiterals ++ Expr.allLiteralsOfAll es

/-- The function literals of a block at any depth. -/
def Block.allLiterals : Block σ → List (Literal σ)
  | [] => []
  | stmt :: rest => stmt.allLiterals ++ Block.allLiterals rest

end

/-- The function literals that a use brings with it. -/
def Use.allLiterals : Use σ → List (Literal σ)
  | .look _ => []
  | .bind _ => []
  | .capture mark params body => ⟨mark, params, body⟩ :: Block.allLiterals body

mutual

theorem Expr.allLiterals_eq : (e : Expr σ) → e.allLiterals = e.uses.flatMap Use.allLiterals
  | .ident _ => rfl
  | .int _ => rfl
  | .str _ => rfl
  | .bool _ => rfl
  | .prefixOp _ e => Expr.allLiterals_eq e
  | .infixOp l _ r => by
    rw [Expr.allLiterals, Expr.uses, List.flatMap_append, Expr.allLiterals_eq l,
      Expr.allLiterals_eq r]
  | .ifElse c t none => by
    rw [Expr.allLiterals, Expr.uses, List.flatMap_append, Expr.allLiterals_eq c,
      Block.allLiterals_eq t]
  | .ifElse c t (some e) => by
    rw [Expr.allLiterals, Expr.uses, List.flatMap_append, List.flatMap_append,
      Expr.allLiterals_eq c, Block.allLiterals_eq t, Block.allLiterals_eq e]
  | .fn _ _ _ => by
    rw [Expr.allLiterals, Expr.uses, List.flatMap_singleton, Use.allLiterals]
  | .call f args => by
    rw [Expr.allLiterals, Expr.uses, List.flatMap_append, Expr.allLiterals_eq f,
      Expr.allLiteralsOfAll_eq args]
  | .array es => Expr.allLiteralsOfAll_eq es
  | .index l i => by
    rw [Expr.allLiterals, Expr.uses, List.flatMap_append, Expr.allLiterals_eq l,
      Expr.allLiterals_eq i]

theorem Stmt.allLiterals_eq : (stmt : Stmt σ) →
    stmt.allLiterals = stmt.uses.flatMap Use.allLiterals
  | .bind _ e => by
    rw [Stmt.allLiterals, Stmt.uses, List.flatMap_append, Expr.allLiterals_eq e,
      List.flatMap_singleton, Use.allLiterals, List.append_nil]
  | .ret e => Expr.allLiterals_eq e
  | .expr e => Expr.allLiterals_eq e

theorem Expr.allLiteralsOfAll_eq : (es : List (Expr σ)) →
    Expr.allLiteralsOfAll es = (Expr.usesOfAll es).flatMap Use.allLiterals
  | [] => rfl
  | e :: es => by
    rw [Expr.allLiteralsOfAll, Expr.usesOfAll, List.flatMap_append, Expr.allLiterals_eq e,
      Expr.allLiteralsOfAll_eq es]

theorem Block.allLiterals_eq : (b : Block σ) →
    Block.allLiterals b = (Block.uses b).flatMap Use.allLiterals
  | [] => rfl
  | stmt :: rest => by
    rw [Block.allLiterals, Block.uses, List.flatMap_append, Stmt.allLiterals_eq stmt,
      Block.allLiterals_eq rest]

end

/-- What lies directly in a body is a literal of it. -/
theorem Block.mem_allLiterals {b : Block σ} {l : Literal σ} (mem : l ∈ Block.literals b) :
    l ∈ Block.allLiterals b := by
  rw [Block.allLiterals_eq, List.mem_flatMap]
  exact ⟨_, Block.mem_literals_iff.mp mem, List.mem_cons_self⟩

/-- With a literal the list has those in its body. -/
def WithInner (ls : List (Literal σ)) : Prop :=
  ∀ l ∈ ls, ∀ l' ∈ Block.allLiterals l.body, l' ∈ ls

theorem WithInner.append {as bs : List (Literal σ)} (left : WithInner as) (right : WithInner bs) :
    WithInner (as ++ bs) := by
  intro l mem l' inner
  rcases List.mem_append.mp mem with mem | mem
  · exact List.mem_append_left _ (left l mem l' inner)
  · exact List.mem_append_right _ (right l mem l' inner)

mutual

theorem Expr.withInner_allLiterals : (e : Expr σ) → WithInner e.allLiterals
  | .ident _ | .int _ | .str _ | .bool _ => nofun
  | .prefixOp _ e => Expr.withInner_allLiterals e
  | .infixOp l _ r => (Expr.withInner_allLiterals l).append (Expr.withInner_allLiterals r)
  | .ifElse c t none => (Expr.withInner_allLiterals c).append (Block.withInner_allLiterals t)
  | .ifElse c t (some e) => (Expr.withInner_allLiterals c).append
      ((Block.withInner_allLiterals t).append (Block.withInner_allLiterals e))
  | .fn mark params body => by
    intro l mem l' inner
    rcases List.mem_cons.mp mem with rfl | mem
    · exact List.mem_cons_of_mem _ inner
    · exact List.mem_cons_of_mem _ (Block.withInner_allLiterals body l mem l' inner)
  | .call f args => (Expr.withInner_allLiterals f).append (Expr.withInner_allLiteralsOfAll args)
  | .array es => Expr.withInner_allLiteralsOfAll es
  | .index l i => (Expr.withInner_allLiterals l).append (Expr.withInner_allLiterals i)

theorem Stmt.withInner_allLiterals : (stmt : Stmt σ) → WithInner stmt.allLiterals
  | .bind _ e => Expr.withInner_allLiterals e
  | .ret e => Expr.withInner_allLiterals e
  | .expr e => Expr.withInner_allLiterals e

theorem Expr.withInner_allLiteralsOfAll : (es : List (Expr σ)) →
    WithInner (Expr.allLiteralsOfAll es)
  | [] => nofun
  | e :: es => (Expr.withInner_allLiterals e).append (Expr.withInner_allLiteralsOfAll es)

theorem Block.withInner_allLiterals : (b : Block σ) → WithInner (Block.allLiterals b)
  | [] => nofun
  | stmt :: rest => (Stmt.withInner_allLiterals stmt).append (Block.withInner_allLiterals rest)

end

/-! ## Numbers -/

/-- The literals carry the numbers from `n` on, in order, and the first free number is `m`. -/
inductive Numbered : Nat → List (Literal Origin) → Nat → Prop
  | nil (n : Nat) : Numbered n [] n
  | cons {n m : Nat} {l : Literal Origin} {ls : List (Literal Origin)} :
      l.mark = ⟨n, n⟩ → Numbered (n + 1) ls m → Numbered n (l :: ls) m

namespace Numbered

variable {n m k : Nat} {as bs ls : List (Literal Origin)} {l l' : Literal Origin}

theorem append (left : Numbered n as k) (right : Numbered k bs m) : Numbered n (as ++ bs) m := by
  induction left with
  | nil n => exact right
  | cons mark _ ih => exact .cons mark (ih right)

/-- A number is not below the first. -/
theorem exists_mark (numbered : Numbered n ls m) (mem : l ∈ ls) : ∃ k, n ≤ k ∧ l.mark = ⟨k, k⟩ := by
  induction numbered with
  | nil n => cases mem
  | @cons n _ _ _ mark _ ih =>
    rcases List.mem_cons.mp mem with rfl | mem
    · exact ⟨n, Nat.le_refl n, mark⟩
    · obtain ⟨k, le, eq⟩ := ih mem
      exact ⟨k, Nat.le_of_succ_le le, eq⟩

/-- Literals of one mark are one literal. -/
theorem unique (numbered : Numbered n ls m) (mem : l ∈ ls) (mem' : l' ∈ ls)
    (same : l.mark = l'.mark) : l = l' := by
  induction numbered with
  | nil n => cases mem
  | @cons n _ first ls mark rest ih =>
    -- The marks after the first are greater than it.
    have later {x y : Literal Origin} (here : x = first) (there : y ∈ ls) : x.mark ≠ y.mark := by
      obtain ⟨k, le, eq⟩ := rest.exists_mark there
      rw [here, mark, eq, Ne, Origin.mk.injEq]
      omega
    rcases List.mem_cons.mp mem with here | there <;>
      rcases List.mem_cons.mp mem' with here' | there'
    · rw [here, here']
    · exact absurd same (later here there')
    · exact absurd same.symm (later here' there)
    · exact ih there there'

end Numbered

mutual

/-- The literals of a labelled expression are numbered from the counter on. -/
theorem Expr.numbered_label : (e : Expr Unit) → (n : Nat) →
    Numbered n (e.label.run n).1.allLiterals (e.label.run n).2
  | .ident _, n | .int _, n | .str _, n | .bool _, n => .nil n
  | .prefixOp _ e, n => Expr.numbered_label e n
  | .infixOp l _ r, n => (Expr.numbered_label l n).append (Expr.numbered_label r _)
  | .ifElse c t none, n => (Expr.numbered_label c n).append (Block.numbered_label t _)
  | .ifElse c t (some e), n => (Expr.numbered_label c n).append
      ((Block.numbered_label t _).append (Block.numbered_label e _))
  | .fn _ _ body, n => .cons rfl (Block.numbered_label body (n + 1))
  | .call f args, n => (Expr.numbered_label f n).append (Expr.numbered_labelList args _)
  | .array es, n => Expr.numbered_labelList es n
  | .index l i, n => (Expr.numbered_label l n).append (Expr.numbered_label i _)

theorem Stmt.numbered_label : (stmt : Stmt Unit) → (n : Nat) →
    Numbered n (stmt.label.run n).1.allLiterals (stmt.label.run n).2
  | .bind _ e, n => Expr.numbered_label e n
  | .ret e, n => Expr.numbered_label e n
  | .expr e, n => Expr.numbered_label e n

theorem Expr.numbered_labelList : (es : List (Expr Unit)) → (n : Nat) →
    Numbered n (Expr.allLiteralsOfAll ((Expr.labelList es).run n).1) ((Expr.labelList es).run n).2
  | [], n => .nil n
  | e :: es, n => (Expr.numbered_label e n).append (Expr.numbered_labelList es _)

theorem Block.numbered_label : (b : Block Unit) → (n : Nat) →
    Numbered n (Block.allLiterals ((Block.label b).run n).1) ((Block.label b).run n).2
  | [], n => .nil n
  | stmt :: rest, n => (Stmt.numbered_label stmt n).append (Block.numbered_label rest _)

end

end TreeWalk
