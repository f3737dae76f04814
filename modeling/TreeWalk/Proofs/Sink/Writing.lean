import TreeWalk.Builtin.Standard

/-!
# Laws of writing

Lines are written one at a time, and the first that a sink does not take whole is the last. This
comes to the same as writing all their bytes at once, for writing in parts is writing in one go.

Results:
1. `Sink.write_of_fits`, `Sink.write_of_lt`: a write that is taken whole, and one that is not.
2. `Sink.write_append`, `Sink.writeLines_eq`: the parts of what is written do not matter.
-/

namespace TreeWalk

/-- The bytes of some lines, each with a line feed at its end. -/
def lineBytes (lines : List String) : List UInt8 :=
  lines.flatMap fun line => utf8 (line ++ "\n")

namespace Sink

/-- The sink takes so many bytes more. -/
def Fits (k : Sink) (count : Nat) : Prop :=
  ∀ capacity, k.capacity = some capacity → count ≤ capacity - k.received.length

/-- The sink when it has taken some bytes. -/
def taken (k : Sink) (bytes : List UInt8) : Sink :=
  { k with received := k.received ++ bytes }

variable {k : Sink} {bytes more : List UInt8} {capacity : Nat}

theorem write_of_fits (fits : k.Fits bytes.length) : k.write bytes = (none, k.taken bytes) := by
  have all : k.accepts bytes.length = bytes.length := by
    rw [accepts]
    cases limit : k.capacity with
    | none => rfl
    | some capacity => exact Nat.min_eq_left (fits capacity limit)
  rw [write, all, if_neg (Nat.lt_irrefl _), List.take_length, taken]

theorem write_of_lt (limit : k.capacity = some capacity)
    (lt : capacity - k.received.length < bytes.length) :
    k.write bytes = (some k.refusal, k.taken (bytes.take (capacity - k.received.length))) := by
  have part : k.accepts bytes.length = capacity - k.received.length := by
    rw [accepts, limit]
    exact Nat.min_eq_right (Nat.le_of_lt lt)
  rw [write, part, if_pos lt, taken]

/-- A sink without a limit takes any number of bytes. -/
theorem fits_of_unlimited (unlimited : k.capacity = none) (count : Nat) : k.Fits count := by
  intro capacity limit
  rw [unlimited] at limit
  cases limit

theorem exists_of_not_fits {count : Nat} (short : ¬ k.Fits count) :
    ∃ capacity, k.capacity = some capacity ∧ capacity - k.received.length < count := by
  cases limit : k.capacity with
  | none => exact absurd (fits_of_unlimited limit count) short
  | some capacity =>
    refine ⟨capacity, rfl, Nat.lt_of_not_le fun le => short fun c eq => ?_⟩
    cases limit.symm.trans eq
    exact le

theorem taken_append : k.taken (bytes ++ more) = (k.taken bytes).taken more := by
  rw [taken, taken, taken, List.append_assoc]

/-- There is room for bytes and more of them when there is for the former, and then for more. -/
theorem fits_append :
    k.Fits (bytes ++ more).length ↔ k.Fits bytes.length ∧ (k.taken bytes).Fits more.length := by
  simp only [Fits, taken, List.length_append, ← forall_and]
  refine forall_congr' fun capacity => ?_
  by_cases limit : k.capacity = some capacity
  · simp only [limit, forall_const]
    omega
  · simp only [limit, false_implies]

/-- Writing bytes and then more of them, if the former were taken, is writing them all. -/
theorem write_append (k : Sink) (bytes more : List UInt8) :
    k.write (bytes ++ more) =
      match k.write bytes with
      | (some reason, k') => (some reason, k')
      | (none, k') => k'.write more := by
  by_cases fits : k.Fits bytes.length
  · rw [write_of_fits fits]
    show _ = (k.taken bytes).write more
    by_cases rest : (k.taken bytes).Fits more.length
    · rw [write_of_fits (fits_append.mpr ⟨fits, rest⟩), write_of_fits rest, taken_append]
    · -- The room for all the bytes is what the first of them take and the room after that.
      obtain ⟨capacity, limit, lt⟩ := exists_of_not_fits rest
      have le := fits capacity limit
      have room : capacity - k.received.length =
          bytes.length + (capacity - (k.taken bytes).received.length) := by
        rw [taken, List.length_append]
        omega
      have beyond : capacity - k.received.length < (bytes ++ more).length := by
        rw [room, List.length_append]
        exact Nat.add_lt_add_left lt _
      rw [write_of_lt (k := k) limit beyond, write_of_lt limit lt, room,
        List.take_length_add_append, taken_append]
      rfl
  · obtain ⟨capacity, limit, lt⟩ := exists_of_not_fits fits
    have beyond : capacity - k.received.length < (bytes ++ more).length := by
      rw [List.length_append]
      exact Nat.lt_add_right _ lt
    rw [write_of_lt limit lt, write_of_lt limit beyond,
      List.take_append_of_le_length (Nat.le_of_lt lt)]

/-- Writing lines is writing their bytes. -/
theorem writeLines_eq (k : Sink) (lines : List String) :
    k.writeLines lines = k.write (lineBytes lines) := by
  induction lines generalizing k with
  | nil =>
    rw [writeLines, lineBytes, List.flatMap_nil, write_of_fits fun _ _ => Nat.zero_le _, taken,
      List.append_nil]
  | cons line lines ih =>
    rw [lineBytes, List.flatMap_cons, write_append, writeLines]
    cases k.write (utf8 (line ++ "\n")) with
    | mk reason k' =>
      cases reason with
      | some reason => rfl
      | none => exact ih k'

end Sink

end TreeWalk
