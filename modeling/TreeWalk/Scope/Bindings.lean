/-!
# Bindings

The names of one scope and what they are bound to. The entries are kept in increasing order of
name, each name once, so bindings that hold the same are equal whatever the order in which they
were made: `Bindings.ext_get?`. The order of strings is the order of their code points, which is
also that of their UTF-8 bytes.

Results:
1. `get?_set_self`, `get?_set_of_ne`: a write is seen under its name and under no other.
2. `mem_names_iff`: the names listed are the names bound.
3. `ext_get?`: bindings are determined by what each name is bound to.
-/

namespace TreeWalk

variable {α : Type}

/-- The names of one scope with their values. -/
structure Bindings (α : Type) where
  /-- The entries, in order of name. -/
  entries : List (String × α)
  /-- The names are strictly increasing. -/
  increasing : (entries.map Prod.fst).Pairwise (· < ·)

namespace Bindings

/-! ## Operations -/

/-- No names at all. -/
def empty : Bindings α :=
  ⟨[], by simp⟩

/-- The value of a name among some entries. -/
def find? (name : String) : List (String × α) → Option α
  | [] => none
  | (m, a) :: rest => if name = m then some a else find? name rest

/-- Writes an entry at its place, over an entry of the same name. -/
def insert (name : String) (a : α) : List (String × α) → List (String × α)
  | [] => [(name, a)]
  | (m, b) :: rest =>
      if name < m then (name, a) :: (m, b) :: rest
      else if name = m then (name, a) :: rest
      else (m, b) :: insert name a rest

theorem mem_map_insert {name n : String} {a : α} {entries : List (String × α)} :
    n ∈ (insert name a entries).map Prod.fst ↔ n = name ∨ n ∈ entries.map Prod.fst := by
  induction entries with
  | nil => simp [insert]
  | cons e rest ih =>
    simp only [insert]
    split
    · simp
    · split
      · rename_i h
        simp [← h]
      · simp only [List.map_cons, List.mem_cons, ih]
        exact or_left_comm

theorem increasing_insert {name : String} {a : α} {entries : List (String × α)}
    (h : (entries.map Prod.fst).Pairwise (· < ·)) :
    ((insert name a entries).map Prod.fst).Pairwise (· < ·) := by
  induction entries with
  | nil => simp [insert]
  | cons e rest ih =>
    obtain ⟨m, b⟩ := e
    simp only [List.map_cons, List.pairwise_cons] at h
    simp only [insert]
    split
    · rename_i lt
      simp only [List.map_cons, List.pairwise_cons, List.mem_cons]
      refine ⟨?_, h⟩
      rintro n (rfl | mem)
      · exact lt
      · exact String.lt_trans lt (h.1 n mem)
    · split
      · rename_i eq
        subst eq
        simpa using h
      · rename_i notLt ne
        simp only [List.map_cons, List.pairwise_cons]
        refine ⟨?_, ih h.2⟩
        intro n mem
        rcases mem_map_insert.mp mem with rfl | mem
        · grind
        · exact h.1 n mem

/-- The value of a name. -/
def get? (b : Bindings α) (name : String) : Option α :=
  find? name b.entries

/-- Binds a name, in place of what it was bound to. -/
def set (b : Bindings α) (name : String) (a : α) : Bindings α :=
  ⟨insert name a b.entries, increasing_insert b.increasing⟩

/-- The names in increasing order. -/
def names (b : Bindings α) : List String :=
  b.entries.map Prod.fst

/-! ## Laws -/

@[ext] theorem ext {b c : Bindings α} (h : b.entries = c.entries) : b = c := by
  cases b
  cases c
  simpa using h

@[simp] theorem get?_empty (name : String) : (empty : Bindings α).get? name = none := rfl

theorem find?_insert {name n : String} {a : α} {entries : List (String × α)} :
    find? n (insert name a entries) = if n = name then some a else find? n entries := by
  induction entries with
  | nil => simp [insert, find?]
  | cons e rest ih =>
    obtain ⟨m, b⟩ := e
    simp only [insert]
    split
    · simp [find?]
    · split
      · rename_i eq
        subst eq
        simp only [find?]
        split <;> simp_all
      · rename_i ne
        simp only [find?, ih]
        grind

theorem get?_set (b : Bindings α) (name n : String) (a : α) :
    (b.set name a).get? n = if n = name then some a else b.get? n :=
  find?_insert

@[simp] theorem get?_set_self (b : Bindings α) (name : String) (a : α) :
    (b.set name a).get? name = some a := by
  simp [get?_set]

theorem get?_set_of_ne (b : Bindings α) {name n : String} (a : α) (h : n ≠ name) :
    (b.set name a).get? n = b.get? n := by
  simp [get?_set, h]

theorem find?_eq_none_iff {name : String} {entries : List (String × α)} :
    find? name entries = none ↔ name ∉ entries.map Prod.fst := by
  induction entries with
  | nil => simp [find?]
  | cons e rest ih =>
    simp only [find?, List.map_cons, List.mem_cons]
    split <;> simp_all

/-- A name is listed exactly when it is bound. -/
theorem mem_names_iff {b : Bindings α} {name : String} : name ∈ b.names ↔ b.get? name ≠ none := by
  simp [names, get?, find?_eq_none_iff]

theorem find?_eq_of_mem {name : String} {a : α} {entries : List (String × α)}
    (h : (entries.map Prod.fst).Pairwise (· < ·)) (mem : (name, a) ∈ entries) :
    find? name entries = some a := by
  induction entries with
  | nil => simp at mem
  | cons e rest ih =>
    obtain ⟨m, b⟩ := e
    simp only [List.map_cons, List.pairwise_cons] at h
    simp only [find?]
    rcases List.mem_cons.mp mem with eq | mem
    · simp_all
    · have lt := h.1 name (List.mem_map.mpr ⟨(name, a), mem, rfl⟩)
      have ne : name ≠ m := by
        rintro rfl
        exact String.lt_irrefl _ lt
      simp [ne, ih h.2 mem]

theorem mem_of_find?_eq {name : String} {a : α} {entries : List (String × α)}
    (h : find? name entries = some a) : (name, a) ∈ entries := by
  induction entries with
  | nil => simp [find?] at h
  | cons e rest ih =>
    obtain ⟨m, b⟩ := e
    simp only [find?] at h
    split at h
    · simp_all
    · exact List.mem_cons_of_mem _ (ih h)

/-- An entry is listed exactly when its name is bound to its value. -/
theorem mem_entries_iff {b : Bindings α} {name : String} {a : α} :
    (name, a) ∈ b.entries ↔ b.get? name = some a :=
  ⟨find?_eq_of_mem b.increasing, mem_of_find?_eq⟩

/-- Bindings that bind every name alike are equal. -/
theorem ext_get? {b c : Bindings α} (h : ∀ name, b.get? name = c.get? name) : b = c := by
  obtain ⟨xs, hx⟩ := b
  obtain ⟨ys, hy⟩ := c
  congr
  simp only [get?] at h
  induction xs generalizing ys with
  | nil =>
    cases ys with
    | nil => rfl
    | cons e ys =>
      have := h e.1
      simp [find?] at this
  | cons e xs ih =>
    obtain ⟨m, a⟩ := e
    cases ys with
    | nil =>
      have := h m
      simp [find?] at this
    | cons e' ys =>
      obtain ⟨n, b⟩ := e'
      simp only [List.map_cons, List.pairwise_cons] at hx hy
      have notBelow {k : String} {es : List (String × α)} {l : String}
          (above : ∀ x ∈ es.map Prod.fst, l < x) (below : k < l ∨ k = l) : find? k es = none := by
        rw [find?_eq_none_iff]
        intro mem
        have := above k mem
        grind
      have hm := h m
      have hn := h n
      have eq : m = n := by
        by_cases lt : m < n
        · simp [find?, notBelow hy.1 (.inl lt)] at hm
          grind
        · by_cases gt : n < m
          · simp [find?, notBelow hx.1 (.inl gt)] at hn
            grind
          · grind
      subst eq
      simp [find?] at hm
      subst hm
      congr
      refine ih hx.2 ys hy.2 fun name => ?_
      have hk := h name
      simp only [find?] at hk
      by_cases eq : name = m
      · subst eq
        rw [notBelow hx.1 (.inr rfl), notBelow hy.1 (.inr rfl)]
      · simpa [eq] using hk

end Bindings

end TreeWalk
