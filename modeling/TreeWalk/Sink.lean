import TreeWalk.Text.Utf8

/-!
# Sinks

Where `puts` writes: a sequence of bytes that grows at its end. A sink may have a capacity. A
write beyond it is accepted up to the capacity and then refused, with a reason. Flushing may fail
as well.
-/

namespace TreeWalk

/-- A sink for bytes. -/
structure Sink where
  /-- The bytes accepted so far. -/
  received : List UInt8
  /-- How many bytes it accepts in all, if not any number. -/
  capacity : Option Nat
  /-- The reason it gives when it refuses to write. -/
  refusal : String
  /-- The reason it gives when it refuses to flush, if it does. -/
  flushRefusal : Option String
  /-- How often it was told to flush. -/
  flushes : Nat
  deriving DecidableEq, Repr

namespace Sink

/-- A sink that has received nothing and accepts everything. -/
def unlimited : Sink :=
  ⟨[], none, "", none, 0⟩

instance : Inhabited Sink :=
  ⟨unlimited⟩

/-- How many of so many bytes it still accepts. -/
def accepts (k : Sink) (count : Nat) : Nat :=
  match k.capacity with
  | none => count
  | some n => min count (n - k.received.length)

/-- Writes as many of the bytes as are accepted. The result is the reason why some were not. -/
def write (k : Sink) (bytes : List UInt8) : Option String × Sink :=
  let n := k.accepts bytes.length
  (if n < bytes.length then some k.refusal else none,
    { k with received := k.received ++ bytes.take n })

/-- Writes lines, each with a line feed at its end, up to the first that is not accepted whole. -/
def writeLines (k : Sink) : List String → Option String × Sink
  | [] => (none, k)
  | line :: rest =>
      match k.write (utf8 (line ++ "\n")) with
      | (some reason, k') => (some reason, k')
      | (none, k') => k'.writeLines rest

/-- Flushes. The result is the reason why it could not. -/
def flush (k : Sink) : Option String × Sink :=
  (k.flushRefusal, { k with flushes := k.flushes + 1 })

end Sink

end TreeWalk
