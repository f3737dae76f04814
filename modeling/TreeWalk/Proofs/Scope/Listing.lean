import TreeWalk.Proofs.Text.ByteOrder
import TreeWalk.Scope.Heap.Basic

/-!
# Listings

What a scope binds is listed in the order of the bytes of the names, and so are the builtins. A store
that goes through its entries in some other order leads to the same listings, since all names differ:
that is why entries which are kept in order can stand for any store.

Results:
1. `Standard.names_eq`: the builtins.
2. `Heap.snapshot_eq`, `Heap.names_eq`: the listings of a scope.
3. `Heap.snapshot_of_perm`, `Heap.names_of_perm`: the entries and the names of any store, sorted.
4. `Heap.snapshot_eq_of_mem_iff`: a listing is determined by what is in it.
-/

namespace TreeWalk

theorem Standard.names_eq : Standard.names = ["first", "last", "len", "push", "puts", "rest"] :=
  sortedBy_eq (by decide) (by decide)

namespace Heap

variable {h k : Heap} {s t : ScopeId} {name : String} {v : Value}

/-! ## Sorted stores -/

theorem increasing_entries (h : Heap) (s : ScopeId) :
    (h.bindings s).entries.Pairwise fun a b => a.1 < b.1 :=
  List.pairwise_map.mp (h.bindings s).increasing

/-- Entries that are kept in order are sorted already. -/
theorem snapshot_eq (h : Heap) (s : ScopeId) : h.snapshot s = (h.bindings s).entries :=
  sortedBy_eq (.refl _) (h.increasing_entries s)

theorem names_eq (h : Heap) (s : ScopeId) : h.names s = (h.bindings s).names :=
  sortedBy_eq (.refl _) (h.bindings s).increasing

/-- The snapshot is the store sorted by name, in whatever order the store goes through its entries. -/
theorem snapshot_of_perm {store : List (String × Value)}
    (same : store.Perm (h.bindings s).entries) : sortedBy Prod.fst store = h.snapshot s := by
  rw [snapshot_eq, sortedBy_eq same (h.increasing_entries s)]

/-- The names are those of the store sorted, in whatever order the store goes through them. -/
theorem names_of_perm {names : List String} (same : names.Perm (h.bindings s).names) :
    sortedBy id names = h.names s := by
  rw [names_eq]
  exact sortedBy_eq same (h.bindings s).increasing

/-! ## What is listed -/

theorem map_fst_snapshot (h : Heap) (s : ScopeId) : (h.snapshot s).map Prod.fst = h.names s := by
  rw [snapshot_eq, names_eq]
  rfl

theorem increasing_names (h : Heap) (s : ScopeId) : (h.names s).Pairwise (· < ·) := by
  rw [names_eq]
  exact (h.bindings s).increasing

theorem mem_snapshot_iff : (name, v) ∈ h.snapshot s ↔ (h.bindings s).get? name = some v := by
  rw [snapshot_eq, Bindings.mem_entries_iff]

/-- Scopes that bind the same have the same snapshot. -/
theorem snapshot_eq_of_mem_iff
    (same : ∀ name v, (name, v) ∈ h.snapshot s ↔ (name, v) ∈ k.snapshot t) :
    h.snapshot s = k.snapshot t := by
  rw [snapshot_eq, snapshot_eq]
  refine congrArg Bindings.entries (Bindings.ext_get? fun name => Option.ext fun v => ?_)
  rw [← mem_snapshot_iff, ← mem_snapshot_iff]
  exact same name v

end Heap

end TreeWalk
