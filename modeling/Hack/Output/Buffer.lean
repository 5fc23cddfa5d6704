import Hack.Output.Sink

/-!
# Buffers

A buffer in front of a sink keeps bytes until it has no room for the next ones, and then hands
them on in one offer. When it is let go, it offers what it still keeps, and nobody asks whether that
was taken.

* `Buffer.flush` — hands on what the buffer keeps
* `Buffer.through` — an action on a buffer as an action on the sink behind it
-/

namespace Hack

/-- A sink with the bytes that are kept for it. -/
structure Buffer where
  kept : ByteArray
  sink : Sink

namespace Buffer

/-- The number of bytes that a buffer keeps at most. -/
def capacity : Nat := 8192

/-- The empty buffer in front of a sink. -/
def ofSink (sink : Sink) : Buffer := ⟨.empty, sink⟩

/-- Hands on what the buffer keeps. Bytes that are not taken stay in the buffer. -/
def flush : WriteM Buffer Unit := fun buffer =>
  let (left, sink) := buffer.sink.offer buffer.kept
  if left.size = 0 then .ok () ⟨left, sink⟩ else .error .flushRefused ⟨left, sink⟩

/-- Writes bytes to the sink, past what the buffer keeps. -/
def writeThrough (bytes : ByteArray) : WriteM Buffer Unit := fun buffer =>
  match Sink.writeAll bytes buffer.sink with
  | .ok _ sink => .ok () { buffer with sink := sink }
  | .error error sink => .error error { buffer with sink := sink }

/-- Writes bytes. Bytes for which there is no room are kept after the others are handed on, and
bytes for which there never is room are not kept at all. -/
def writeAll (bytes : ByteArray) : WriteM Buffer Unit := do
  if capacity < (← get).kept.size + bytes.size then flush
  if bytes.size < capacity then
    modify fun buffer => { buffer with kept := buffer.kept ++ bytes }
  else writeThrough bytes

instance : Writer Buffer := ⟨writeAll⟩

/-- Lets the buffer go. -/
def close (buffer : Buffer) : Sink := (buffer.sink.offer buffer.kept).2

/-- Puts a buffer in front of the sink for the time of an action. -/
def through {ε α : Type} (action : EStateM ε Buffer α) : EStateM ε Sink α := fun sink =>
  match action (ofSink sink) with
  | .ok a buffer => .ok a buffer.close
  | .error error buffer => .error error buffer.close

end Buffer

end Hack
