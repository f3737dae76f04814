import TreeWalk.Proofs.Syntax.Uses

/-!
# Places of function literals

Where in a program a function literal stands. A place counts the literals that lie directly in a
body, in the order of the text, for the literal itself and for each literal around it. The literal
itself comes first, so the rest of its place is that of the literal directly around it, and the
empty place is that of the program. A literal has as many literals around it as the rest of its
place is long.

Results:
1. `Block.mem_literals_iff`: a literal lies directly in a body when the body captures it.
2. `Block.bodyAt_eq`: the body at a place is that of the literal there.
-/

namespace TreeWalk

variable {σ : Type}

/-- The parts of a function literal. -/
structure Literal (σ : Type) where
  mark : σ
  params : List String
  body : Block σ

/-- The literal that a use captures. -/
def Use.literal? : Use σ → Option (Literal σ)
  | .capture mark params body => some ⟨mark, params, body⟩
  | _ => none

/-- Positions among the literals directly in a body, from a literal outwards. -/
abbrev Place := List Nat

namespace Block

/-- The literals of a body that lie in no other literal of it. -/
def literals (b : Block σ) : List (Literal σ) :=
  (Block.uses b).filterMap Use.literal?

/-- The body of the literal at a place. That of the empty place is the program. -/
def bodyAt (program : Block σ) : Place → Option (Block σ)
  | [] => some program
  | i :: outer => (bodyAt program outer).bind fun b => (literals b)[i]?.map Literal.body

/-- The literal at a place. -/
def literalAt (program : Block σ) : Place → Option (Literal σ)
  | [] => none
  | i :: outer => (bodyAt program outer).bind fun b => (literals b)[i]?

theorem mem_literals_iff {b : Block σ} {l : Literal σ} :
    l ∈ literals b ↔ .capture l.mark l.params l.body ∈ Block.uses b := by
  rw [literals, List.mem_filterMap]
  constructor
  · rintro ⟨use, mem, eq⟩
    cases use with
    | capture mark params body =>
      cases eq
      exact mem
    | look n | bind n => cases eq
  · exact fun mem => ⟨_, mem, rfl⟩

theorem bodyAt_eq (program : Block σ) (i : Nat) (outer : Place) :
    bodyAt program (i :: outer) = (literalAt program (i :: outer)).map Literal.body := by
  rw [bodyAt, literalAt, Option.map_bind]
  rfl

/-- What a body captures stands at a place of which the rest is that of the body. -/
theorem exists_literalAt {program b : Block σ} {outer : Place} {l : Literal σ}
    (body : bodyAt program outer = some b) (mem : l ∈ literals b) :
    ∃ i, literalAt program (i :: outer) = some l := by
  obtain ⟨i, found⟩ := List.getElem?_of_mem mem
  refine ⟨i, ?_⟩
  rw [literalAt, body]
  exact found

end Block

end TreeWalk
