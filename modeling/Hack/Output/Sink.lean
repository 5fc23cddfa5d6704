import Hack.Error

/-!
# Outputs

Where bytes go. A sink takes bytes up to a limit, or any number of them; of an offer that does not
fit it takes what fits, and after that nothing.

* `Sink.offer` — offers bytes until all of them are taken, or none of an offer is
* `Sink.offer_eq` — one offer is as good as many
* `Sink.writeAll` — takes it for a failure if bytes are left
-/

namespace Hack

/-- An action on an output that may fail to take bytes. -/
abbrev WriteM (σ : Type) := EStateM StreamError σ

/-- An output. -/
class Writer (σ : Type) where
  /-- Writes all of the bytes in order, or fails. -/
  writeAll : ByteArray → WriteM σ Unit

/-- An output with the bytes that it has received. -/
structure Sink where
  /-- The number of bytes that the sink still takes, if there is a limit. -/
  room : Option Nat
  received : ByteArray

namespace Sink

/-- The sink that takes any number of bytes. -/
def unlimited : Sink := ⟨none, .empty⟩

/-- The sink that takes a given number of bytes. -/
def limited (room : Nat) : Sink := ⟨some room, .empty⟩

/-! ## Offers -/

/-- How many bytes the sink takes of an offer of `count` bytes. -/
def accepts (sink : Sink) (count : Nat) : Nat :=
  match sink.room with
  | some room => min room count
  | none => count

/-- Offers bytes once. The first result is the number of bytes taken. -/
def write (sink : Sink) (bytes : ByteArray) : Nat × Sink :=
  let count := sink.accepts bytes.size
  (count,
    { room := sink.room.map (· - count)
      received := sink.received ++ bytes.extract 0 count })

/-- Offers bytes until all of them are taken, or none of an offer is. The first result is what is
left. -/
def offer (sink : Sink) (bytes : ByteArray) : ByteArray × Sink :=
  if bytes.size = 0 then (bytes, sink)
  else
    let step := sink.write bytes
    if step.1 = 0 then (bytes, step.2)
    else offer step.2 (bytes.extract step.1 bytes.size)
termination_by bytes.size
decreasing_by
  rw [ByteArray.size_extract, Nat.min_self]
  show bytes.size - step.1 < bytes.size
  omega

@[simp] theorem accepts_zero (sink : Sink) : sink.accepts 0 = 0 := by
  unfold accepts
  split <;> simp

@[simp] theorem write_empty (sink : Sink) : sink.write .empty = (0, sink) := by
  simp [write]

/-- After an offer that was taken in part, nothing more of it is taken. -/
theorem accepts_write (sink : Sink) (bytes : ByteArray) :
    (sink.write bytes).2.accepts (bytes.size - sink.accepts bytes.size) = 0 := by
  cases h : sink.room <;> simp [write, accepts, h]
  omega

/-- One offer is as good as many: it takes everything that the sink has room for. -/
theorem offer_eq (sink : Sink) (bytes : ByteArray) :
    sink.offer bytes
      = (bytes.extract (sink.accepts bytes.size) bytes.size, (sink.write bytes).2) := by
  fun_induction offer sink bytes with
  | case1 sink bytes h =>
    rw [ByteArray.size_eq_zero_iff] at h
    subst h
    simp
  | case2 sink bytes h step hstep =>
    have haccepts : sink.accepts bytes.size = 0 := hstep
    rw [haccepts, ByteArray.extract_zero_size]
  | case3 sink bytes h step hstep ih =>
    have hsize : (bytes.extract step.1 bytes.size).size = bytes.size - step.1 := by
      rw [ByteArray.size_extract, Nat.min_self]
    have haccepts : step.2.accepts (bytes.size - step.1) = 0 := accepts_write sink bytes
    have hwrite : (step.2.write (bytes.extract step.1 bytes.size)).2 = step.2 := by
      simp [write, hsize, haccepts]
    rw [ih, hwrite, hsize, haccepts, ← hsize, ByteArray.extract_zero_size]
    rfl

/-- Writes bytes. What fits is written even if not all of it does. -/
def writeAll (bytes : ByteArray) : WriteM Sink Unit := fun sink =>
  let (left, sink) := sink.offer bytes
  if left.size = 0 then .ok () sink else .error .writeRefused sink

instance : Writer Sink := ⟨writeAll⟩

end Sink

end Hack
