import TreeWalk.Proofs.Scope.History
import TreeWalk.Proofs.Scope.Listing
import TreeWalk.Proofs.Text.Delimited
import TreeWalk.Scope.Debug

/-!
# Snapshots of scopes

A snapshot of a scope lists the names that were bound in it, in the order of their bytes, with what
they were bound to last. It does not tell in which order they were bound, or what happened to other
scopes in between. A store without an order gives the same snapshot, in whatever order it goes through
its entries, as they are sorted by their names and all names differ.

Results:
1. `scopeDebug_inj`: what the debug text of a scope shows.
2. `Heap.Fresh.canonicalAfter`: the snapshot and the debug text after a history.
3. `snapshots_canonical`: snapshots after two histories, and what programs do.
-/

namespace TreeWalk

/-! ## Debug texts -/

/-- The names and the depth stand between words that are always the same. -/
theorem exists_toList_scopeDebug : ∃ front words back : List Char, ∀ names depth,
    (scopeDebug names depth).toList =
      front ++ ((quotedList names).toList ++ (words ++ ((toString depth).toList ++ back))) := by
  have parts (a b c d e : String) : (a ++ b ++ c ++ d ++ e).toList =
      a.toList ++ (b.toList ++ (c.toList ++ (d.toList ++ e.toList))) := by
    simp only [String.toList_append, List.append_assoc]
  exact ⟨_, _, _, fun _ _ => parts _ _ _ _ _⟩

/-- A debug text shows which names there are, and how deep the scope is. -/
theorem scopeDebug_inj {names others : List String} {depth other : Nat}
    (same : scopeDebug names depth = scopeDebug others other) : names = others ∧ depth = other := by
  obtain ⟨front, words, back, text⟩ := exists_toList_scopeDebug
  rw [← String.toList_inj, text, text] at same
  obtain ⟨rfl, rest⟩ := told_quotedList names trivial (List.append_cancel_left same)
  have digits := List.append_cancel_right (List.append_cancel_left rest)
  exact ⟨rfl, toString_nat_inj (String.toList_inj.mp digits)⟩

/-! ## Snapshots -/

/-- What the snapshot and the debug text of a scope say after some steps. -/
structure Heap.CanonicalAfter (h : Heap) (s : ScopeId) (steps : List ScopeStep) : Prop where
  /-- Every name that was bound in this very scope is listed, and no other. -/
  listed : ∀ name, name ∈ ((h.after steps).snapshot s).map Prod.fst ↔
    ∃ v, .defined s name v ∈ steps
  /-- No name is listed twice. -/
  once : (((h.after steps).snapshot s).map Prod.fst).Nodup
  /-- The bytes of the names strictly increase. -/
  increasing : (((h.after steps).snapshot s).map Prod.fst).Pairwise fun m n => utf8 m < utf8 n
  /-- A name has the value that it was bound to last. -/
  last : ∀ name v, (name, v) ∈ (h.after steps).snapshot s ↔ LastDefined s steps name v
  /-- The entries of an unordered store, in any order, and the names in it, in any order, are sorted
  to the same. -/
  unordered : ∀ (store : List (String × Value)) (names : List String), (store.map Prod.fst).Nodup →
    (∀ name v, (name, v) ∈ store ↔ LastDefined s steps name v) → names.Perm (store.map Prod.fst) →
      sortedBy Prod.fst store = (h.after steps).snapshot s ∧
        sortedBy id names = ((h.after steps).snapshot s).map Prod.fst
  /-- The debug text shows the names in the same order, and no other names or order. -/
  debug : ∀ names depth, (h.after steps).debug s = scopeDebug names depth ↔
    names = ((h.after steps).snapshot s).map Prod.fst ∧ depth = (h.after steps).depth s

section Fresh

variable {h : Heap} {s : ScopeId} {steps : List ScopeStep} {name : String} {v : Value}

theorem Heap.Fresh.mem_snapshot_iff (fresh : h.Fresh s) :
    (name, v) ∈ (h.after steps).snapshot s ↔ LastDefined s steps name v := by
  rw [Heap.mem_snapshot_iff, fresh.get?_after]

/-- Entries that are listed in any order are those of the scope. -/
theorem Heap.Fresh.perm_entries (fresh : h.Fresh s) {store : List (String × Value)}
    (distinct : (store.map Prod.fst).Nodup)
    (entries : ∀ name v, (name, v) ∈ store ↔ LastDefined s steps name v) :
    store.Perm ((h.after steps).bindings s).entries := by
  have nodup := ((h.after steps).increasing_entries s).imp fun lt eq =>
    String.ne_of_lt lt (congrArg Prod.fst eq)
  refine (List.perm_ext_iff_of_nodup (List.Nodup.of_map _ distinct) nodup).mpr ?_
  rintro ⟨name, v⟩
  rw [entries, Bindings.mem_entries_iff, fresh.get?_after]

theorem Heap.Fresh.canonicalAfter (fresh : h.Fresh s) (steps : List ScopeStep) :
    h.CanonicalAfter s steps where
  listed name := by
    rw [← exists_lastDefined_iff]
    simp [fresh.mem_snapshot_iff]
  once := by
    rw [map_fst_snapshot]
    exact (increasing_names _ s).imp String.ne_of_lt
  increasing := by
    rw [map_fst_snapshot]
    exact (increasing_names _ s).imp utf8_lt_iff.mpr
  last _ _ := fresh.mem_snapshot_iff
  unordered store names distinct entries perm := by
    have same := fresh.perm_entries distinct entries
    refine ⟨snapshot_of_perm same, ?_⟩
    rw [map_fst_snapshot]
    exact names_of_perm (perm.trans (same.map Prod.fst))
  debug names depth := by
    rw [map_fst_snapshot]
    constructor
    · intro text
      exact scopeDebug_inj text.symm
    · rintro ⟨rfl, rfl⟩
      rfl

end Fresh

/-- Snapshots are canonical. After any history of a new scope, in which other scopes are made and have
names bound as well, its snapshot lists each name that was bound in this very scope once, in the order
of the bytes, which is that of the code points, with what it was bound to last. It is what an unordered
store is sorted to, and its debug text lists the same names. Two histories in which names were bound to
the same last give the same snapshot, of whatever scopes and in whatever order they were bound. What a
program does goes on with the history. -/
theorem snapshots_canonical (h k : Heap) (s t : ScopeId) (steps others : List ScopeStep)
    (left : h.Fresh s) (right : k.Fresh t) :
    h.CanonicalAfter s steps ∧
    (∀ m n : String, utf8 m < utf8 n ↔ m.toList.map Char.toNat < n.toList.map Char.toNat) ∧
    ((∀ name v, LastDefined s steps name v ↔ LastDefined t others name v) →
      (h.after steps).snapshot s = (k.after others).snapshot t) ∧
    ∀ (host : Host) (me : InterpreterId) (depth : Nat) (term : Term) (scope : ScopeId)
      (w w' : World) (v : Value), w.heap = h.after steps →
        (term.eval host me depth scope).run w = some (v, w') →
          ∃ more, w'.heap = h.after (steps ++ more) := by
  refine ⟨left.canonicalAfter steps, fun m n => utf8_lt_iff.trans map_toNat_lt_iff.symm, ?_, ?_⟩
  · intro same
    refine Heap.snapshot_eq_of_mem_iff fun name v => ?_
    rw [left.mem_snapshot_iff, right.mem_snapshot_iff, same]
  · intro host me depth term scope w w' v heap result
    obtain ⟨more, later⟩ := Heap.exists_after_eval result
    refine ⟨more, ?_⟩
    rw [later, heap, Heap.after_append]

/-- The root binds a name twice while a scope within it binds others, and then the scope within binds
the same in another order, with nothing overwritten. An unordered store lists them in a third way. -/
theorem snapshots_canonical_reordered :
    let h : Heap := Heap.empty.newRoot.2
    let k : Heap := (h.enclose ⟨0⟩).2
    let steps : List ScopeStep := [.defined ⟨0⟩ "é" (.int 1), .defined ⟨0⟩ "z" (.int 2),
      .enclosed ⟨0⟩, .defined ⟨1⟩ "c" .null, .defined ⟨0⟩ "z" (.int 3)]
    let others : List ScopeStep := [.defined ⟨1⟩ "z" (.int 3), .defined ⟨0⟩ "z" .null, .root,
      .defined ⟨1⟩ "é" (.int 1)]
    (h.after steps).snapshot ⟨0⟩ = [("z", .int 3), ("é", .int 1)] ∧
      (k.after others).snapshot ⟨1⟩ = [("z", .int 3), ("é", .int 1)] ∧
      sortedBy Prod.fst [("é", .int 1), ("z", .int 3)] = [("z", Value.int 3), ("é", .int 1)] := by
  intro h k steps others
  have left : h.Fresh ⟨0⟩ := Heap.empty.fresh_allocate none
  have right : k.Fresh ⟨1⟩ := h.fresh_allocate (some ⟨0⟩)
  obtain ⟨canonical, -, same, -⟩ := snapshots_canonical h k ⟨0⟩ ⟨1⟩ steps others left right
  have listing : (h.after steps).snapshot ⟨0⟩ = [("z", .int 3), ("é", .int 1)] :=
    Heap.snapshot_eq _ _
  refine ⟨listing, ?_, ?_⟩
  · rw [← listing]
    refine (same fun name v => ?_).symm
    grind [lastDefined_cons, not_lastDefined_nil]
  · rw [← listing]
    refine (canonical.unordered _ ["é", "z"] (by decide) (fun name v => ?_) (.refl _)).1
    grind [lastDefined_cons, not_lastDefined_nil]

end TreeWalk
