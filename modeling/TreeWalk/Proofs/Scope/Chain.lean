import TreeWalk.Proofs.Scope.Bound

/-!
# Chains of scopes

The chain of a scope lists the scope itself, the scope around it, and so on out to a root. A name
has the value that the first scope of the chain binds which binds it at all. So a write is seen from
a scope exactly when the written scope lies on the chain and none inside it binds the name, whatever
the other scopes are that share the chain, and whatever was bound before.

Results:
1. `Heap.exists_chain`, `Heap.Chain.unique`, `Heap.Chain.nodup`: a scope has one chain, which ends
   and does not come back.
2. `Heap.Chain.resolve_eq_some_iff`, `Heap.Chain.resolve_eq_none_iff`: looking a name up.
3. `Heap.Chain.resolve_define_visible`, `Heap.Chain.resolve_define_hidden`: writes that are seen
   and writes that are not.
4. `resolve_after_define`: the law of writing and looking up.
-/

namespace TreeWalk

namespace Heap

/-! ## Chains -/

/-- The scopes from a scope outwards, up to a root. -/
inductive Chain (h : Heap) : ScopeId → List ScopeId → Prop
  | root {s : ScopeId} : h.parent? s = none → Chain h s [s]
  | inside {s p : ScopeId} {outer : List ScopeId} : h.parent? s = some p → Chain h p outer →
      Chain h s (s :: outer)

/-- On a chain, the scope lies behind scopes none of which binds the name. -/
def Visible (h : Heap) (chain : List ScopeId) (s : ScopeId) (name : String) : Prop :=
  ∃ inner outer, chain = inner ++ s :: outer ∧ ∀ c ∈ inner, (h.bindings c).get? name = none

variable {h : Heap} {s t : ScopeId} {chain : List ScopeId} {name : String} {v : Value}

theorem exists_chain (h : Heap) (s : ScopeId) : ∃ chain, h.Chain s chain := by
  induction s using h.chain_induction with
  | step s ih =>
    cases parent : h.parent? s with
    | none => exact ⟨[s], .root parent⟩
    | some p =>
      obtain ⟨outer, chain⟩ := ih p parent
      exact ⟨s :: outer, .inside parent chain⟩

theorem Chain.unique {other : List ScopeId} (left : h.Chain s chain) (right : h.Chain s other) :
    chain = other := by
  induction left generalizing other with
  | root none =>
    cases right with
    | root _ => rfl
    | inside parent _ =>
      rw [none] at parent
      cases parent
  | inside parent _ ih =>
    cases right with
    | root none =>
      rw [none] at parent
      cases parent
    | inside parent' right =>
      rw [parent] at parent'
      cases parent'
      rw [ih right]

/-- The scopes of a chain are no younger than its first. -/
theorem Chain.index_le (of : h.Chain s chain) {c : ScopeId} (mem : c ∈ chain) :
    c.index ≤ s.index := by
  induction of with
  | root _ =>
    obtain rfl := List.mem_singleton.mp mem
    exact Nat.le_refl _
  | inside parent _ ih =>
    rcases List.mem_cons.mp mem with rfl | mem
    · exact Nat.le_refl _
    · exact Nat.le_trans (ih mem) (Nat.le_of_lt (index_lt_of_parent? parent))

/-- A chain does not come back to a scope, as parents are older. -/
theorem Chain.nodup (of : h.Chain s chain) : chain.Nodup := by
  induction of with
  | root _ => exact List.pairwise_singleton _ _
  | inside parent outer ih =>
    refine List.nodup_cons.mpr ⟨fun mem => ?_, ih⟩
    exact Nat.lt_irrefl _ (Nat.lt_of_le_of_lt (outer.index_le mem) (index_lt_of_parent? parent))

/-! ## Visible scopes -/

theorem not_visible_nil : ¬ h.Visible [] s name := by
  rintro ⟨inner, outer, eq, -⟩
  cases inner <;> cases eq

/-- Visible is the first scope, and what is visible behind it if it does not bind the name. -/
theorem visible_cons {outer : List ScopeId} :
    h.Visible (t :: outer) s name ↔
      t = s ∨ (h.bindings t).get? name = none ∧ h.Visible outer s name := by
  constructor
  · rintro ⟨inner, rest, eq, unbound⟩
    cases inner with
    | nil =>
      cases eq
      exact .inl rfl
    | cons c inner =>
      cases eq
      obtain ⟨first, behind⟩ := List.forall_mem_cons.mp unbound
      exact .inr ⟨first, inner, rest, rfl, behind⟩
  · rintro (rfl | ⟨first, inner, rest, rfl, behind⟩)
    · exact ⟨[], outer, rfl, List.forall_mem_nil _⟩
    · exact ⟨t :: inner, rest, rfl, List.forall_mem_cons.mpr ⟨first, behind⟩⟩

/-! ## Looking names up -/

/-- A scope that binds the name ends the search. -/
theorem resolve_of_bound (own : (h.bindings s).get? name = some v) : h.resolve s name = some v := by
  rw [resolve_eq, own]

/-- A scope that does not bind the name leaves the search to the scope around it. -/
theorem resolve_of_unbound (unbound : (h.bindings s).get? name = none) :
    h.resolve s name = (h.parent? s).bind fun p => h.resolve p name := by
  rw [resolve_eq, unbound]

namespace Chain

theorem resolve_eq_none_iff (of : h.Chain t chain) :
    h.resolve t name = none ↔ ∀ c ∈ chain, (h.bindings c).get? name = none := by
  induction of with
  | @root t root =>
    rw [List.forall_mem_singleton]
    cases own : (h.bindings t).get? name with
    | some v => simp [resolve_of_bound own]
    | none => simp [resolve_of_unbound own, root]
  | @inside t p outer parent _ ih =>
    rw [List.forall_mem_cons]
    cases own : (h.bindings t).get? name with
    | some v => simp [resolve_of_bound own]
    | none => simp [resolve_of_unbound own, parent, ih]

/-- A name has the value that the innermost scope of the chain binds which binds it. -/
theorem resolve_eq_some_iff (of : h.Chain t chain) :
    h.resolve t name = some v ↔
      ∃ c, h.Visible chain c name ∧ (h.bindings c).get? name = some v := by
  induction of with
  | @root t root =>
    cases own : (h.bindings t).get? name with
    | some x => simp [resolve_of_bound own, visible_cons, own]
    | none => simp [resolve_of_unbound own, root, visible_cons, own, not_visible_nil]
  | @inside t p outer parent _ ih =>
    cases own : (h.bindings t).get? name with
    | some x => simp [resolve_of_bound own, visible_cons, own]
    | none =>
      -- The first scope is visible, but it does not bind the name.
      have behind : ∀ c, (t = c ∨ h.Visible outer c name) ∧ (h.bindings c).get? name = some v ↔
          h.Visible outer c name ∧ (h.bindings c).get? name = some v := by
        intro c
        refine and_congr_left fun found => or_iff_right ?_
        rintro rfl
        rw [own] at found
        cases found
      simp [resolve_of_unbound own, parent, ih, visible_cons, own, behind]

end Chain

/-! ## Writing -/

/-- A write is found in its scope under its name, and else there is what was there before. -/
theorem get?_define (exist : s.index < h.size) (c : ScopeId) (n m : String) (v : Value) :
    ((h.define s n v).bindings c).get? m =
      if m = n ∧ c = s then some v else (h.bindings c).get? m := by
  rw [bindings_define]
  by_cases written : c = s
  · rw [if_pos ⟨written, exist⟩, Bindings.get?_set, written]
    simp
  · rw [if_neg fun both => written both.1, if_neg fun both => written both.2]

namespace Chain

variable {n m : String}

/-- A write to a visible scope is seen. -/
theorem resolve_define_visible (of : h.Chain t chain) (exist : s.index < h.size)
    (visible : h.Visible chain s n) (v : Value) : (h.define s n v).resolve t n = some v := by
  induction of with
  | @root t root =>
    rcases visible_cons.mp visible with rfl | ⟨-, none⟩
    · exact resolve_of_bound (by rw [get?_define exist, if_pos ⟨rfl, rfl⟩])
    · exact absurd none not_visible_nil
  | @inside t p outer parent _ ih =>
    by_cases first : t = s
    · exact resolve_of_bound (by rw [get?_define exist, if_pos ⟨rfl, first⟩])
    · obtain ⟨unbound, behind⟩ := (visible_cons.mp visible).resolve_left first
      have unbound' : ((h.define s n v).bindings t).get? n = none := by
        rw [get?_define exist, if_neg fun both => first both.2, unbound]
      rw [resolve_of_unbound unbound', parent?_define, parent, Option.bind_some, ih behind]

/-- Any other write makes no difference. -/
theorem resolve_define_hidden (of : h.Chain t chain) (exist : s.index < h.size)
    (hidden : ¬ (m = n ∧ h.Visible chain s n)) (v : Value) :
    (h.define s n v).resolve t m = h.resolve t m := by
  -- The first scope of a chain is visible, so there the name is bound as before.
  have same : ∀ {t outer}, ¬ (m = n ∧ h.Visible (t :: outer) s n) →
      ((h.define s n v).bindings t).get? m = (h.bindings t).get? m := by
    intro t outer hidden
    rw [get?_define exist, if_neg fun written => hidden ⟨written.1, visible_cons.mpr (.inl written.2)⟩]
  induction of with
  | @root t root =>
    rw [resolve_eq, resolve_eq h, same hidden, parent?_define, root]
    rfl
  | @inside t p outer parent _ ih =>
    cases own : (h.bindings t).get? m with
    | some x => rw [resolve_of_bound own, resolve_of_bound ((same hidden).trans own)]
    | none =>
      have behind : ¬ (m = n ∧ h.Visible outer s n) := by
        rintro ⟨rfl, visible⟩
        exact hidden ⟨rfl, visible_cons.mpr (.inr ⟨own, visible⟩)⟩
      rw [resolve_of_unbound own, resolve_of_unbound ((same hidden).trans own), parent?_define,
        parent, Option.bind_some, Option.bind_some, ih behind]

end Chain

/-- A write is not seen under any other name. -/
theorem resolve_define_of_ne {n m : String} (exist : s.index < h.size) (ne : m ≠ n) (v : Value)
    (t : ScopeId) : (h.define s n v).resolve t m = h.resolve t m := by
  obtain ⟨chain, of⟩ := h.exists_chain t
  exact of.resolve_define_hidden exist (fun written => ne written.1) v

end Heap

/-! ## The law -/

/-- Writing and looking up. After a name was bound in a scope, a name is looked up from any scope: it
has the value written when it is the name that was bound, and the written scope is on the chain with
no scope inside it that binds the name. In every other case looking up gives what it gave before.
And what it gives is always what the innermost scope of the chain binds the name to that binds it,
and nothing when no scope of the chain does. -/
theorem resolve_after_define (h : Heap) (s t : ScopeId) (n m : String) (v : Value)
    (exist : s.index < h.size) :
    ∃ chain, h.Chain t chain ∧ chain.Nodup ∧
      (m = n ∧ h.Visible chain s n → (h.define s n v).resolve t m = some v) ∧
      (¬ (m = n ∧ h.Visible chain s n) → (h.define s n v).resolve t m = h.resolve t m) ∧
      (∀ x, h.resolve t m = some x ↔
        ∃ c, h.Visible chain c m ∧ (h.bindings c).get? m = some x) ∧
      (h.resolve t m = none ↔ ∀ c ∈ chain, (h.bindings c).get? m = none) := by
  obtain ⟨chain, of⟩ := h.exists_chain t
  refine ⟨chain, of, of.nodup, ?_, fun hidden => of.resolve_define_hidden exist hidden v,
    fun x => of.resolve_eq_some_iff, of.resolve_eq_none_iff⟩
  rintro ⟨rfl, visible⟩
  exact of.resolve_define_visible exist visible v

/-- Three scopes, each within the one before. The outermost binds a name. -/
def Heap.threefold : Heap :=
  (((Heap.empty.newRoot.2.define ⟨0⟩ "x" (.int 1)).enclose ⟨0⟩).2.enclose ⟨1⟩).2

theorem Heap.chain_threefold : Heap.threefold.Chain ⟨2⟩ [⟨2⟩, ⟨1⟩, ⟨0⟩] :=
  .inside rfl (.inside rfl (.root rfl))

/-- A write to the scope in the middle covers the outermost from within, and not from without. -/
theorem resolve_after_define_threefold :
    (Heap.threefold.define ⟨1⟩ "x" (.int 5)).resolve ⟨2⟩ "x" = some (.int 5) ∧
      (Heap.threefold.define ⟨1⟩ "x" (.int 5)).resolve ⟨0⟩ "x" =
        Heap.threefold.resolve ⟨0⟩ "x" := by
  constructor
  · obtain ⟨chain, of, -, seen, -⟩ :=
      resolve_after_define .threefold ⟨1⟩ ⟨2⟩ "x" "x" (.int 5) (by decide)
    obtain rfl := of.unique Heap.chain_threefold
    refine seen ⟨rfl, Heap.visible_cons.mpr (.inr ⟨rfl, ?_⟩)⟩
    exact Heap.visible_cons.mpr (.inl rfl)
  · obtain ⟨chain, of, -, -, same, -⟩ :=
      resolve_after_define .threefold ⟨1⟩ ⟨0⟩ "x" "x" (.int 5) (by decide)
    obtain rfl := of.unique (.root rfl)
    refine same fun ⟨_, visible⟩ => ?_
    rcases Heap.visible_cons.mp visible with eq | ⟨-, none⟩
    · cases eq
    · exact Heap.not_visible_nil none

end TreeWalk
