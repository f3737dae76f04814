import TreeWalk.Proofs.Syntax.Unambiguous
import TreeWalk.Proofs.Text.Delimited
import TreeWalk.Scope.Debug
import TreeWalk.Value.Equality
import TreeWalk.Value.Render

/-!
# Debug texts tell data apart

What is shown to the user does not determine a value: strings are shown verbatim, and wrappers not at
all. The debug text of data does. It begins with the name of the kind, and different kinds of data have
names that differ in their first letters. What is behind the name shows where it ends: a number by the
bracket after it, a string by its second quote, and a list by its bracket, as no element begins with
one. So a value can be told with whatever follows its text, and this goes by induction on the value.

Results:
1. `Value.IsData.kind_eq`: the kind of data.
2. `Value.IsData.told`: data with whatever follows it.
3. `debug_identifies_data`: data with equal debug texts is equal.
-/

namespace TreeWalk

/-- Made of integers, booleans, null, strings, arrays, wrappers and messages, and so without functions
and builtins. -/
inductive Value.IsData : Value → Prop
  | int (n : Int64) : IsData (.int n)
  | bool (b : Bool) : IsData (.bool b)
  | null : IsData .null
  | str (text : String) : IsData (.str text)
  | array {items : List Value} : (∀ v ∈ items, IsData v) → IsData (.array items)
  | ret {v : Value} : IsData v → IsData (.ret v)
  | err (message : String) : IsData (.err message)

/-- The letter that the debug text of a value of a kind begins with. -/
def Kind.initial : Kind → Char
  | .integer => 'I'
  | .boolean => 'B'
  | .null => 'N'
  | .string => 'S'
  | .array => 'A'
  | .function => 'F'
  | .builtin => 'B'
  | .returnValue => 'R'
  | .error => 'E'

/-- But for booleans and builtins, kinds differ in their letters. -/
theorem Kind.initial_inj {k l : Kind} (left : k ≠ .builtin) (right : l ≠ .builtin)
    (same : k.initial = l.initial) : k = l := by
  revert left right same
  cases k <;> cases l <;> decide

namespace Value

/-- The characters of a debug text. -/
def debugText (h : Heap) (v : Value) : List Char :=
  (v.debug h).toList

variable {h : Heap} {v w : Value} {s t : List Char}

/-! ## Parts of debug texts -/

theorem debugList_eq_map (items : List Value) : debugList h items = items.map (debug h) := by
  induction items with
  | nil => rfl
  | cons v items ih => exact congrArg (v.debug h :: ·) ih

/-- A name, a text and a bracket. -/
theorem toList_enclosed (name text : String) (s : List Char) :
    (name ++ text ++ ")").toList ++ s = name.toList ++ (text.toList ++ ')' :: s) := by
  simp

theorem debugText_int (n : Int64) :
    debugText h (int n) ++ s = "Integer(".toList ++ ((intText n).toList ++ ')' :: s) :=
  toList_enclosed _ _ s

theorem debugText_bool (b : Bool) :
    debugText h (bool b) ++ s = "Boolean(".toList ++ ((boolText b).toList ++ ')' :: s) :=
  toList_enclosed _ _ s

theorem debugText_null : debugText h null ++ s = "Null".toList ++ s := rfl

theorem debugText_str (text : String) :
    debugText h (str text) ++ s = "Str(".toList ++ ((quoted text).toList ++ ')' :: s) :=
  toList_enclosed _ _ s

theorem debugText_array (items : List Value) :
    debugText h (array items) ++ s =
      "Array([".toList ++ (listed (debugText h) items ++ ']' :: ')' :: s) := by
  have texts : (commaSeparated (debugList h items)).toList = listed (debugText h) items := by
    rw [debugList_eq_map, toList_commaSeparated, listed_map]
    rfl
  rw [← texts]
  show ("Array([" ++ commaSeparated (debugList h items) ++ "])").toList ++ s = _
  simp

theorem debugText_ret (v : Value) :
    debugText h (ret v) ++ s = "ReturnValue(".toList ++ (debugText h v ++ ')' :: s) :=
  toList_enclosed _ _ s

theorem debugText_err (message : String) :
    debugText h (err message) ++ s = "Error(".toList ++ ((quoted message).toList ++ ')' :: s) :=
  toList_enclosed _ _ s

/-! ## Kinds -/

/-- A text begins with the first letter of its first part. -/
theorem exists_toList_eq_cons {name : String} {c : Char} (first : name.toList.head? = some c)
    (text last : String) : ∃ cs, (name ++ text ++ last).toList = c :: cs := by
  obtain ⟨cs, eq⟩ := List.head?_eq_some_iff.mp first
  rw [String.toList_append, String.toList_append, eq]
  exact ⟨_, rfl⟩

theorem debugText_eq_cons (h : Heap) (v : Value) : ∃ cs, debugText h v = v.kind.initial :: cs := by
  cases v with
  | null =>
    have letters : "Null".toList = ['N', 'u', 'l', 'l'] := by decide
    exact ⟨_, letters⟩
  | int | bool | str | array | fn | builtin | ret | err => exact exists_toList_eq_cons rfl _ _

/-- No value begins with the bracket that ends an array. -/
theorem debugText_append_ne (v : Value) (s t : List Char) : debugText h v ++ s ≠ ']' :: t := by
  intro same
  obtain ⟨_, eq⟩ := debugText_eq_cons h v
  rw [eq] at same
  exact absurd (List.cons.inj same).1 (by cases v.kind <;> decide)

theorem IsData.kind_ne_builtin (data : v.IsData) : v.kind ≠ .builtin := by
  cases data <;> exact nofun

/-- Texts of data that begin alike are of one kind. -/
theorem IsData.kind_eq (left : v.IsData) (right : w.IsData)
    (same : debugText h v ++ s = debugText h w ++ t) : v.kind = w.kind := by
  obtain ⟨_, eq⟩ := debugText_eq_cons h v
  obtain ⟨_, eq'⟩ := debugText_eq_cons h w
  rw [eq, eq'] at same
  exact Kind.initial_inj left.kind_ne_builtin right.kind_ne_builtin (List.cons.inj same).1

/-! ## Data -/

theorem boolText_append_inj {a b : Bool}
    (same : (boolText a).toList ++ ')' :: s = (boolText b).toList ++ ')' :: t) :
    a = b ∧ s = t := by
  have bracket (c : Bool) : ')' ∉ (boolText c).toList := by cases c <;> decide
  obtain ⟨texts, tails⟩ := append_cons_inj (bracket a) (bracket b) same
  exact ⟨boolText_inj (String.toList_inj.mp texts), tails⟩

theorem intText_append_inj {m n : Int64}
    (same : (intText m).toList ++ ')' :: s = (intText n).toList ++ ')' :: t) : m = n ∧ s = t := by
  have ends (rest : List Char) : EndsWord (')' :: rest) := by
    rintro _ ⟨⟩
    rfl
  obtain ⟨texts, tails⟩ :=
    (signedWord_intText m).append_inj (signedWord_intText n) (ends s) (ends t) same
  exact ⟨intText_inj (String.toList_inj.mp texts), (List.cons.inj tails).2⟩

theorem quoted_append_inj {text other : String}
    (same : (quoted text).toList ++ ')' :: s = (quoted other).toList ++ ')' :: t) :
    text = other ∧ s = t := by
  obtain ⟨texts, tails⟩ := told_quoted text trivial same
  exact ⟨texts, (List.cons.inj tails).2⟩

/-- Data can be told from its debug text, with whatever follows it. -/
theorem IsData.told (left : v.IsData) : ToldAmong IsData (debugText h) v := by
  induction left with
  | int m =>
    intro w right s t same
    have kinds := (int m).kind_eq right same
    cases right with
    | int n =>
      rw [debugText_int, debugText_int] at same
      obtain ⟨rfl, tails⟩ := intText_append_inj (List.append_cancel_left same)
      exact ⟨rfl, tails⟩
    | bool | null | str | array | ret | err => cases kinds
  | bool a =>
    intro w right s t same
    have kinds := (bool a).kind_eq right same
    cases right with
    | bool b =>
      rw [debugText_bool, debugText_bool] at same
      obtain ⟨rfl, tails⟩ := boolText_append_inj (List.append_cancel_left same)
      exact ⟨rfl, tails⟩
    | int | null | str | array | ret | err => cases kinds
  | null =>
    intro w right s t same
    have kinds := null.kind_eq right same
    cases right with
    | null =>
      rw [debugText_null, debugText_null] at same
      exact ⟨rfl, List.append_cancel_left same⟩
    | int | bool | str | array | ret | err => cases kinds
  | str text =>
    intro w right s t same
    have kinds := (str text).kind_eq right same
    cases right with
    | str other =>
      rw [debugText_str, debugText_str] at same
      obtain ⟨rfl, tails⟩ := quoted_append_inj (List.append_cancel_left same)
      exact ⟨rfl, tails⟩
    | int | bool | null | array | ret | err => cases kinds
  | array data ih =>
    intro w right s t same
    have kinds := (array data).kind_eq right same
    cases right with
    | array data' =>
      rw [debugText_array, debugText_array] at same
      obtain ⟨rfl, tails⟩ :=
        listed_append_inj ih data' debugText_append_ne (List.append_cancel_left same)
      exact ⟨rfl, (List.cons.inj tails).2⟩
    | int | bool | null | str | ret | err => cases kinds
  | ret data ih =>
    intro w right s t same
    have kinds := (ret data).kind_eq right same
    cases right with
    | ret data' =>
      rw [debugText_ret, debugText_ret] at same
      obtain ⟨rfl, tails⟩ := ih data' (List.append_cancel_left same)
      exact ⟨rfl, (List.cons.inj tails).2⟩
    | int | bool | null | str | array | err => cases kinds
  | err message =>
    intro w right s t same
    have kinds := (err message).kind_eq right same
    cases right with
    | err other =>
      rw [debugText_err, debugText_err] at same
      obtain ⟨rfl, tails⟩ := quoted_append_inj (List.append_cancel_left same)
      exact ⟨rfl, tails⟩
    | int | bool | null | str | array | ret => cases kinds

/-- The debug text of data shows no scope. -/
theorem IsData.debug_eq (data : v.IsData) (h k : Heap) : v.debug h = v.debug k := by
  induction data with
  | int | bool | null | str | err => rfl
  | @array items _ ih =>
    have texts : debugList h items = debugList k items := by
      rw [debugList_eq_map, debugList_eq_map, List.map_congr_left ih]
    exact congrArg (fun all => "Array([" ++ commaSeparated all ++ "])") texts
  | ret _ ih => exact congrArg (fun text => "ReturnValue(" ++ text ++ ")") ih

end Value

/-- Data is equal exactly when its debug texts are. The texts may be taken in different states. -/
theorem debug_identifies_data {v w : Value} (left : v.IsData) (right : w.IsData) (h k : Heap) :
    v.debug h = w.debug k ↔ v.same w = true := by
  rw [Value.same_iff]
  constructor
  · intro same
    rw [right.debug_eq k h] at same
    have texts : v.debugText h ++ [] = w.debugText h ++ [] := by
      rw [Value.debugText, Value.debugText, same]
    exact (left.told right texts).1
  · rintro rfl
    exact left.debug_eq h k

/-- Two arrays that look the same to the user. -/
theorem debug_identifies_data_lookalike :
    let left : Value := .array [.str "a, b", .ret .null]
    let right : Value := .array [.str "a", .str "b", .null]
    left.IsData ∧ right.IsData ∧ left.render .canonical = right.render .canonical ∧
      left.debug .empty ≠ right.debug .empty := by
  intro left right
  have l : left.IsData := .array (by
    rintro v (_ | ⟨_, _ | ⟨_, ⟨⟩⟩⟩)
    · exact .str _
    · exact .ret .null)
  have r : right.IsData := .array (by
    rintro v (_ | ⟨_, _ | ⟨_, _ | ⟨_, ⟨⟩⟩⟩⟩)
    · exact .str _
    · exact .str _
    · exact .null)
  refine ⟨l, r, by decide, fun same => ?_⟩
  exact absurd ((debug_identifies_data l r .empty .empty).mp same) (by decide)

end TreeWalk
