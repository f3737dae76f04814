import TreeWalk.Proofs.Eval.Equations
import TreeWalk.Proofs.Sink.Limit

/-!
# Writing in pieces

Formatted text comes to a sink in pieces of any size, each of them by as many writes as the sink
makes of it: a sink may take less of a write than it has room for, as long as it takes something.
Whoever hands the pieces over goes on until all are taken or a write comes to nothing.

However the text is divided, by the one side or by the other, the same bytes arrive and the same is
reported. So it is right to describe a sink by what becomes of a whole text (`Sink.write`).

Results:
1. `Sink.Hands.write_eq`, `Sink.Hands.exists_chunks`: what becomes of the pieces.
2. `Sink.exists_hands`: all pieces are dealt with, from any state of the sink.
3. `puts_writes_out`: `puts` writes the renderings of its arguments, and reports what happened.
-/

namespace TreeWalk

/-! ## The loop -/

/-- What a sink is asked, and what it does. -/
inductive SinkCall where
  /-- A write of which these bytes were taken, which are the first it was given. -/
  | took (bytes : List UInt8)
  /-- A write that came to nothing. -/
  | refused
  /-- A flush, which may have failed. -/
  | flushed
  deriving DecidableEq, Repr

namespace Sink

/-- The pieces are handed over from the first on, each by one write after another. A write takes
one or more of the bytes that are left of a piece, or it is the last. -/
inductive Hands : Sink → List (List UInt8) → List SinkCall → Option String → Sink → Prop
  | done {k : Sink} : Hands k [] [] none k
  | next {k k' : Sink} {pieces : List (List UInt8)} {calls : List SinkCall}
      {reason : Option String} :
      Hands k pieces calls reason k' → Hands k ([] :: pieces) calls reason k'
  | part {k k' : Sink} {chunk rest : List UInt8} {pieces : List (List UInt8)}
      {calls : List SinkCall} {reason : Option String} :
      chunk ≠ [] → k.Fits chunk.length → Hands (k.taken chunk) (rest :: pieces) calls reason k' →
      Hands k ((chunk ++ rest) :: pieces) (.took chunk :: calls) reason k'
  | refused {k : Sink} {piece : List UInt8} {pieces : List (List UInt8)} :
      piece ≠ [] → ¬ k.Fits 1 → Hands k (piece :: pieces) [.refused] (some k.refusal) k

variable {k k' : Sink} {pieces : List (List UInt8)} {calls : List SinkCall}
  {reason : Option String}

theorem taken_nil (k : Sink) : k.taken [] = k := by
  rw [taken, List.append_nil]

/-- A sink without room for a byte takes nothing. -/
theorem write_of_full {bytes : List UInt8} (nonempty : bytes ≠ []) (full : ¬ k.Fits 1) :
    k.write bytes = (some k.refusal, k) := by
  obtain ⟨capacity, limit, lt⟩ := exists_of_not_fits full
  have none : capacity - k.received.length = 0 := Nat.lt_one_iff.mp lt
  have some : capacity - k.received.length < bytes.length := by
    rw [none]
    exact List.length_pos_iff.mpr nonempty
  rw [write_of_lt limit some, none, List.take_zero, taken_nil]

/-- What becomes of the pieces is what becomes of all their bytes in one write. -/
theorem Hands.write_eq (hands : k.Hands pieces calls reason k') :
    k.write pieces.flatten = (reason, k') := by
  induction hands with
  | @done k =>
    rw [List.flatten_nil, write_of_fits fun _ _ => Nat.zero_le _, taken_nil]
  | next _ ih => exact ih
  | part _ fits _ ih =>
    rw [List.flatten_cons, List.append_assoc, write_append, write_of_fits fits]
    exact ih
  | refused nonempty full =>
    refine write_of_full (fun none => nonempty ?_) full
    exact (List.append_eq_nil_iff.mp none).1

/-- The bytes arrive chunk by chunk. Where not all do, the last write is one that comes to nothing.
-/
theorem Hands.exists_chunks (hands : k.Hands pieces calls reason k') :
    ∃ chunks : List (List UInt8), k' = k.taken chunks.flatten ∧
      calls = chunks.map .took ++ (if reason.isSome then [.refused] else []) := by
  induction hands with
  | done => exact ⟨[], (taken_nil _).symm, rfl⟩
  | next _ ih => exact ih
  | @part _ _ chunk _ _ _ _ _ _ _ ih =>
    obtain ⟨chunks, rfl, rfl⟩ := ih
    exact ⟨chunk :: chunks, taken_append.symm, rfl⟩
  | refused => exact ⟨[], (taken_nil _).symm, rfl⟩

/-- From any state of the sink, all pieces are taken or a write comes to nothing. -/
theorem exists_hands (k : Sink) (pieces : List (List UInt8)) :
    ∃ calls reason k', k.Hands pieces calls reason k' := by
  induction pieces generalizing k with
  | nil => exact ⟨_, _, _, .done⟩
  | cons piece pieces ih =>
    induction piece generalizing k with
    | nil =>
      obtain ⟨calls, reason, k', hands⟩ := ih k
      exact ⟨calls, reason, k', .next hands⟩
    | cons byte piece more =>
      by_cases fits : k.Fits 1
      · obtain ⟨calls, reason, k', hands⟩ := more (k.taken [byte])
        exact ⟨_, reason, k', .part (List.cons_ne_nil byte []) fits hands⟩
      · exact ⟨_, _, k, .refused (List.cons_ne_nil byte piece) fits⟩

/-! ## Flushing -/

/-- The pieces are handed over, and if all were taken the sink is flushed. -/
inductive Emits (k : Sink) (pieces : List (List UInt8)) :
    List SinkCall → Option String → Sink → Prop
  | cut {calls : List SinkCall} {reason : String} {k' : Sink} :
      k.Hands pieces calls (some reason) k' → Emits k pieces calls (some reason) k'
  | whole {calls : List SinkCall} {k' : Sink} : k.Hands pieces calls none k' →
      Emits k pieces (calls ++ [.flushed]) k'.flush.1 k'.flush.2

theorem exists_emits (k : Sink) (pieces : List (List UInt8)) :
    ∃ calls reason k', k.Emits pieces calls reason k' := by
  obtain ⟨calls, reason, k', hands⟩ := k.exists_hands pieces
  cases reason with
  | none => exact ⟨_, _, _, .whole hands⟩
  | some reason => exact ⟨_, _, _, .cut hands⟩

/-- How many bytes the sink still takes, if not any number. -/
def room (k : Sink) : Option Nat :=
  k.capacity.map (· - k.received.length)

/-- What is to come of a text: which calls the sink gets, its state in the end, and the value that
is reported. -/
structure WritesOut (k : Sink) (text : List UInt8) (calls : List SinkCall) (value : Value)
    (k' : Sink) : Prop where
  /-- Where there is room for all of it, all of it is taken, and then there is one flush. -/
  whole : (∀ room, k.room = some room → text.length ≤ room) →
    (∃ chunks : List (List UInt8), chunks.flatten = text ∧
      calls = chunks.map .took ++ [.flushed]) ∧
    k' = { k with received := k.received ++ text, flushes := k.flushes + 1 } ∧
    value = match k.flushRefusal with
      | none => .null
      | some reason => .err ("could not write output: " ++ reason)
  /-- Where there is not, the first bytes are taken, as many as there is room for, and there is no
  flush. -/
  cut : ∀ room, k.room = some room → room < text.length →
    (∃ chunks : List (List UInt8), chunks.flatten = text.take room ∧
      calls = chunks.map .took ++ [.refused]) ∧
    k' = { k with received := k.received ++ text.take room } ∧
    value = .err ("could not write output: " ++ k.refusal)

theorem fits_iff {count : Nat} : k.Fits count ↔ ∀ room, k.room = some room → count ≤ room := by
  rw [Fits, room]
  cases k.capacity with
  | none => simp
  | some capacity => simp

theorem write_of_room_lt {text : List UInt8} {room : Nat} (limit : k.room = some room)
    (lt : room < text.length) : k.write text = (some k.refusal, k.taken (text.take room)) := by
  obtain ⟨capacity, full, rfl⟩ := Option.map_eq_some_iff.mp limit
  exact write_of_lt full lt

theorem taken_inj {bytes more : List UInt8} (same : k.taken bytes = k.taken more) : bytes = more :=
  List.append_cancel_left (congrArg received same)

end Sink

/-- The value of an output, with the reason for which it failed. -/
def outputValue : Option String → Value
  | none => .null
  | some reason => (BuiltinFault.output reason).toValue

/-- What comes of a text does not depend on how it is divided. -/
theorem Sink.Emits.writesOut {k k' : Sink} {pieces : List (List UInt8)} {calls : List SinkCall}
    {reason : Option String} (emits : k.Emits pieces calls reason k') :
    k.WritesOut pieces.flatten calls (outputValue reason) k' := by
  cases emits with
  | @cut _ reason _ hands =>
    have written := hands.write_eq
    obtain ⟨chunks, state, rfl⟩ := hands.exists_chunks
    constructor
    · intro room
      rw [write_of_fits (fits_iff.mpr room)] at written
      cases written
    · intro room limit lt
      rw [write_of_room_lt limit lt] at written
      obtain ⟨refusal, rfl⟩ := Prod.mk.inj written
      cases refusal
      exact ⟨⟨chunks, (taken_inj state).symm, rfl⟩, rfl, rfl⟩
  | @whole calls _ hands =>
    have written := hands.write_eq
    obtain ⟨chunks, state, rfl⟩ := hands.exists_chunks
    constructor
    · intro room
      rw [write_of_fits (fits_iff.mpr room)] at written
      obtain ⟨-, rfl⟩ := Prod.mk.inj written
      refine ⟨⟨chunks, (taken_inj state).symm, ?_⟩, rfl, ?_⟩
      · rw [Option.isSome_none, if_neg Bool.false_ne_true, List.append_nil]
      · show outputValue k.flushRefusal = _
        cases k.flushRefusal with
        | none => rfl
        | some reason => rfl
    · intro room limit lt
      rw [write_of_room_lt limit lt] at written
      cases written

/-- `puts` comes to the same as handing its text over in pieces. -/
theorem Interpreter.puts_of_emits {x : Interpreter} {args : List Value}
    (loud : x.config.silent = false) {pieces : List (List UInt8)}
    (text : pieces.flatten = x.output args) {calls : List SinkCall}
    {reason : Option String} {k : Sink} (emits : x.sink.Emits pieces calls reason k) :
    Standard.value (x.puts args).1 = outputValue reason ∧ (x.puts args).2.sink = k := by
  rw [puts, loud, if_neg Bool.false_ne_true, Sink.writeLines_eq, ← output, ← text]
  cases emits with
  | cut hands =>
    rw [hands.write_eq]
    exact ⟨rfl, rfl⟩
  | @whole _ k hands =>
    rw [hands.write_eq]
    simp only [Sink.flush]
    cases k.flushRefusal with
    | none => exact ⟨rfl, rfl⟩
    | some reason => exact ⟨rfl, rfl⟩

/-- `puts` writes the renderings of its arguments, each with a line feed after it, and flushes. In
however many pieces they come to the sink, and however much the sink takes at a time, it gets the
same bytes, as far as it has room, and the value says whether all went well. -/
theorem puts_writes_out (w : World) (owner : InterpreterId) (args : List Value)
    (loud : (w.interpreter owner).config.silent = false) :
    let x := w.interpreter owner
    let text := args.flatMap fun v => utf8 (x.render v ++ "\n")
    ∃ v w', (Run.standard owner .puts args).run w = some (v, w') ∧
      ∀ pieces : List (List UInt8), pieces.flatten = text →
        (∃ calls reason k, x.sink.Emits pieces calls reason k) ∧
        ∀ calls reason k, x.sink.Emits pieces calls reason k →
          outputValue reason = v ∧ k = (w'.interpreter owner).sink ∧
            x.sink.WritesOut text calls v k := by
  intro x text
  have output : x.output args = text := List.flatMap_map _ _ args
  refine ⟨_, _, run_standard owner .puts args w, fun pieces whole => ?_⟩
  refine ⟨x.sink.exists_emits pieces, ?_⟩
  intro calls reason k emits
  obtain ⟨value, sink⟩ := x.puts_of_emits loud (whole.trans output.symm) emits
  refine ⟨value.symm, ?_, ?_⟩
  · rw [World.interpreter_computed, if_pos rfl]
    exact sink.symm
  · have writes := emits.writesOut
    rw [whole, ← value] at writes
    exact writes

/-- The second of two lines, of which the sink has room for one byte. -/
theorem puts_writes_out_cut :
    let w := World.empty.limitOutput ⟨0⟩ 4 "full"
    (w.interpreter ⟨0⟩).config.silent = false ∧
      ∃ w', (Run.standard ⟨0⟩ .puts [.str "ab", .str "é"]).run w =
          some (.err "could not write output: full", w') ∧
        (w'.interpreter ⟨0⟩).sink.received = [97, 98, 10, 195] ∧
        (w'.interpreter ⟨0⟩).sink.flushes = 0 := by
  intro w
  refine ⟨rfl, ?_⟩
  obtain ⟨v, w', ran, writes⟩ := puts_writes_out w ⟨0⟩ [.str "ab", .str "é"] rfl
  obtain ⟨⟨calls, reason, k, emits⟩, law⟩ := writes [_] (List.append_nil _)
  obtain ⟨-, rfl, outcome⟩ := law calls reason k emits
  obtain ⟨-, state, rfl⟩ := outcome.cut 4 rfl (by decide +kernel)
  refine ⟨w', ran, ?_, ?_⟩
  · rw [state]
    decide +kernel
  · rw [state]
    rfl

end TreeWalk
