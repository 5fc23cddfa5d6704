import Hack.Proofs.Delivery
import Hack.Proofs.Faults

/-!
# What reaches an output through a buffer

What was written to a buffer is what the sink behind it has received and what the buffer still
keeps. When the buffer is let go, the sink is the one that would have received all of it at once,
whether handing bytes on has failed before or not.

* `Buffer.Relays` — the bytes that were written to a buffer in front of a sink
* `Buffer.Relaying`, `Buffer.relaying_writeWords` — actions that write more of them
* `assembleFileTo_apply` — what assembling a file gives and leaves behind
* `EndsAlike`, `endsAlike_assembleFileTo` — the buffer shows in the text of a failure only
-/

namespace Hack

variable {sink : Sink} {bytes more : ByteArray} {source : String} {words : List Word}

namespace Buffer

variable {buffer : Buffer} {first second : WriteM Buffer Unit}

/-! ## Equations -/

theorem close_eq (buffer : Buffer) : buffer.close = buffer.sink.receive buffer.kept := by
  obtain ⟨left, hoffer, -⟩ := buffer.sink.exists_offer_eq buffer.kept
  rw [close, hoffer]

theorem flush_of_hasRoom (h : buffer.sink.HasRoom buffer.kept.size) :
    flush buffer = .ok () ⟨.empty, buffer.sink.receive buffer.kept⟩ := by
  obtain ⟨left, hoffer, hleft⟩ := buffer.sink.exists_offer_eq buffer.kept
  have hempty : left = .empty := ByteArray.size_eq_zero_iff.mp (hleft.mpr h)
  simp only [flush, hoffer, hempty, ByteArray.size_empty, if_true]

/-- Bytes that could not be handed on are offered once more, in vain, when the buffer is let go. -/
theorem exists_flush_of_full (h : ¬ buffer.sink.HasRoom buffer.kept.size) :
    ∃ after, flush buffer = .error .flushRefused after
      ∧ after.close = buffer.sink.receive buffer.kept := by
  obtain ⟨left, hoffer, hleft⟩ := buffer.sink.exists_offer_eq buffer.kept
  refine ⟨⟨left, buffer.sink.receive buffer.kept⟩, ?_, ?_⟩
  · simp only [flush, hoffer, hleft, h, if_false]
  · rw [close_eq, ← Sink.receive_append, Sink.receive_append_of_full h]

theorem writeAll_apply (bytes : ByteArray) (buffer : Buffer) :
    writeAll bytes buffer
      = (do
          if capacity < buffer.kept.size + bytes.size then flush
          if bytes.size < capacity then
            modify fun buffer => { buffer with kept := buffer.kept ++ bytes }
          else writeThrough bytes : WriteM Buffer Unit) buffer := rfl

theorem writeAll_of_le (hsmall : bytes.size < capacity)
    (h : buffer.kept.size + bytes.size ≤ capacity) :
    writeAll bytes buffer = .ok () ⟨buffer.kept ++ bytes, buffer.sink⟩ := by
  rw [writeAll_apply]
  simp only [hsmall, Nat.not_lt_of_le h, if_true, if_false]
  rfl

theorem writeAll_of_lt (hsmall : bytes.size < capacity)
    (h : capacity < buffer.kept.size + bytes.size) :
    writeAll bytes buffer
      = (do flush; modify fun buffer => { buffer with kept := buffer.kept ++ bytes }
          : WriteM Buffer Unit) buffer := by
  rw [writeAll_apply]
  simp only [hsmall, h, if_true]

/-! ## What was written -/

/-- Whether some bytes are what was written to a buffer in front of a sink: the sink has received
the first of them, and the buffer keeps the others. -/
inductive Relays (sink : Sink) : ByteArray → Buffer → Prop
  | intro {sent kept : ByteArray} (hroom : sink.HasRoom sent.size) :
      Relays sink (sent ++ kept) ⟨kept, sink.receive sent⟩

/-- What there is after some bytes have been written to a buffer. They may be too many for the sink,
and if that has been noticed, the sink has got all that it takes. -/
inductive Relayed (sink : Sink) (bytes : ByteArray) :
    EStateM.Result StreamError Buffer Unit → Prop
  | ok {buffer : Buffer} (h : Relays sink bytes buffer) : Relayed sink bytes (.ok () buffer)
  | error {buffer : Buffer} (hfull : ¬ sink.HasRoom bytes.size)
      (hclose : buffer.close = sink.receive bytes) :
      Relayed sink bytes (.error .flushRefused buffer)

theorem relays_ofSink (sink : Sink) : Relays sink .empty (ofSink sink) := by
  have h : Relays sink (.empty ++ .empty) ⟨.empty, sink.receive .empty⟩ :=
    .intro fun room _ => Nat.zero_le room
  rwa [ByteArray.append_empty, Sink.receive_empty] at h

theorem Relays.close (h : Relays sink bytes buffer) : buffer.close = sink.receive bytes := by
  cases h with
  | intro hroom => rw [close_eq, Sink.receive_append]

theorem Relays.keep (h : Relays sink bytes buffer) (more : ByteArray) :
    Relays sink (bytes ++ more) ⟨buffer.kept ++ more, buffer.sink⟩ := by
  cases h with
  | intro hroom =>
    rw [ByteArray.append_assoc]
    exact .intro hroom

theorem Relays.flush_of_hasRoom (h : Relays sink bytes buffer) (hroom : sink.HasRoom bytes.size) :
    flush buffer = .ok () ⟨.empty, sink.receive bytes⟩ := by
  cases h with
  | intro =>
    rw [Buffer.flush_of_hasRoom (Sink.hasRoom_append.mp hroom).2, Sink.receive_append]

theorem Relays.exists_flush_of_full (h : Relays sink bytes buffer)
    (hfull : ¬ sink.HasRoom bytes.size) :
    ∃ after, flush buffer = .error .flushRefused after ∧ after.close = sink.receive bytes := by
  cases h with
  | @intro sent kept hsent =>
    have hkept : ¬ (sink.receive sent).HasRoom kept.size := fun hroom =>
      hfull (Sink.hasRoom_append.mpr ⟨hsent, hroom⟩)
    rw [Sink.receive_append]
    exact Buffer.exists_flush_of_full hkept

theorem relays_receive (h : sink.HasRoom bytes.size) :
    Relays sink bytes ⟨.empty, sink.receive bytes⟩ := by
  have h : Relays sink (bytes ++ .empty) ⟨.empty, sink.receive bytes⟩ := .intro h
  rwa [ByteArray.append_empty] at h

theorem Relayed.error_append (hfull : ¬ sink.HasRoom bytes.size)
    (hclose : buffer.close = sink.receive bytes) (more : ByteArray) :
    Relayed sink (bytes ++ more) (.error .flushRefused buffer) := by
  refine .error (fun hroom => hfull (Sink.hasRoom_append.mp hroom).1) ?_
  rw [hclose, Sink.receive_append_of_full hfull]

/-! ## Writing -/

/-- Whether an action writes some bytes to a buffer, behind what was written before. -/
def Relaying (action : WriteM Buffer Unit) (bytes : ByteArray) : Prop :=
  ∀ ⦃sink written buffer⦄, Relays sink written buffer →
    Relayed sink (written ++ bytes) (action buffer)

theorem relaying_pure : Relaying (pure ()) .empty := by
  intro sink written buffer h
  rw [ByteArray.append_empty]
  exact .ok h

theorem relaying_writeAll (hsmall : bytes.size < capacity) : Relaying (writeAll bytes) bytes := by
  intro sink written buffer h
  by_cases hfits : buffer.kept.size + bytes.size ≤ capacity
  · rw [writeAll_of_le hsmall hfits]
    exact .ok (h.keep bytes)
  · rw [writeAll_of_lt hsmall (Nat.lt_of_not_le hfits)]
    -- what the buffer has kept so far is handed on first
    by_cases hroom : sink.HasRoom written.size
    · rw [bind_of_ok (h.flush_of_hasRoom hroom)]
      exact .ok ((relays_receive hroom).keep bytes)
    · obtain ⟨after, hflush, hclose⟩ := h.exists_flush_of_full hroom
      rw [bind_of_error hflush]
      exact .error_append hroom hclose bytes

theorem Relaying.bind (hfirst : Relaying first bytes) (hsecond : Relaying second more) :
    Relaying (do first; second) (bytes ++ more) := by
  intro sink written buffer h
  rw [← ByteArray.append_assoc]
  have hmid := hfirst h
  generalize hresult : first buffer = result at hmid
  cases hmid with
  | ok hmid =>
    rw [bind_of_ok hresult]
    exact hsecond hmid
  | error hfull hclose =>
    rw [bind_of_error hresult]
    exact .error_append hfull hclose more

theorem relaying_writeWords (words : List Word) :
    Relaying (writeWords words) (listing words).toUTF8 := by
  refine writeWords_induction relaying_pure Relaying.bind (fun bytes hsize => ?_) words
  exact relaying_writeAll (Nat.lt_of_le_of_lt hsize (by decide))

/-! ## Buffers for the time of an action -/

variable {α ε : Type} {action : EStateM ε Buffer α} {after : Buffer}

theorem through_of_ok {a : α} (h : action (ofSink sink) = .ok a after) :
    through action sink = .ok a after.close := by
  rw [through, h]

theorem through_of_error {error : ε} (h : action (ofSink sink) = .error error after) :
    through action sink = .error error after.close := by
  rw [through, h]

end Buffer

/-! ## Assembling a file -/

theorem decodeText_toUTF8 (text : String) : decodeText text.toUTF8 = .ok text := by
  have hdecode : String.fromUTF8? text.toUTF8 = some text := dif_pos text.isValidUTF8
  rw [decodeText, hdecode]

theorem decodeText_eq_ok_iff : decodeText bytes = .ok source ↔ bytes = source.toUTF8 := by
  refine ⟨fun h => ?_, fun h => h ▸ decodeText_toUTF8 source⟩
  unfold decodeText String.fromUTF8? at h
  by_cases hvalid : bytes.IsValidUTF8
  · rw [dif_pos hvalid] at h
    exact congrArg String.toUTF8 (Except.ok.inj h)
  · rw [dif_neg hvalid] at h
    cases h

theorem decodeText_eq_error_iff :
    decodeText bytes = .error .invalidText ↔ ∀ text : String, text.toUTF8 ≠ bytes := by
  constructor
  · rintro h text rfl
    rw [decodeText_toUTF8] at h
    cases h
  · intro h
    have hinvalid : ¬ bytes.IsValidUTF8 := fun hvalid => h (String.fromUTF8 bytes hvalid) rfl
    have hdecode : String.fromUTF8? bytes = none := dif_neg hinvalid
    rw [decodeText, hdecode]

theorem content_of_decoded {content : Except StreamError ByteArray}
    (h : content.bind decodeText = .ok source) : content = .ok source.toUTF8 := by
  cases content with
  | error error => cases h
  | ok bytes => exact congrArg Except.ok (decodeText_eq_ok_iff.mp h)

theorem assembleFileTo_of_error {content : Except StreamError ByteArray} {error : StreamError}
    (h : content.bind decodeText = .error error) (sink : Sink) :
    assembleFileTo content sink = .error (.stream error) sink := by
  rw [assembleFileTo, h]
  rfl

theorem assembleFileTo_of_invalid (h : ∀ text : String, text.toUTF8 ≠ bytes) (sink : Sink) :
    assembleFileTo (.ok bytes) sink = .error (.stream .invalidText) sink := by
  have hdecode : (Except.ok bytes).bind decodeText = .error .invalidText :=
    decodeText_eq_error_iff.mpr h
  exact assembleFileTo_of_error hdecode sink

theorem assembleFileTo_toUTF8 (source : String) :
    assembleFileTo (.ok source.toUTF8)
      = Buffer.through do
          let count ← assembleTo source
          Buffer.flush.adaptExcept AssembleError.stream
          return count := by
  have h : (Except.ok source.toUTF8).bind decodeText = .ok source := decodeText_toUTF8 source
  rw [assembleFileTo, h]
  rfl

theorem assembleFileTo_of_unassembled {error : AssembleError} (h : assemble source = .error error)
    (sink : Sink) : assembleFileTo (.ok source.toUTF8) sink = .error error sink := by
  have hclose : (Buffer.ofSink sink).close = sink := by
    rw [(Buffer.relays_ofSink sink).close, Sink.receive_empty]
  rw [assembleFileTo_toUTF8]
  refine (Buffer.through_of_error (bind_of_error (assembleTo_of_error h _) _)).trans ?_
  rw [hclose]

theorem assembleFileTo_apply (h : assemble source = .ok words) (sink : Sink) :
    assembleFileTo (.ok source.toUTF8) sink
      = if sink.HasRoom (17 * words.length)
        then .ok words.length (sink.receive (listing words).toUTF8)
        else .error (.stream .flushRefused) (sink.receive (listing words).toUTF8) := by
  have hwritten := Buffer.relaying_writeWords words (Buffer.relays_ofSink sink)
  rw [ByteArray.empty_append] at hwritten
  rw [← size_listing, assembleFileTo_toUTF8, assembleTo_of_ok h]
  generalize hresult : writeWords words (Buffer.ofSink sink) = result at hwritten
  cases hwritten with
  | error hfull hclose =>
    have hfailed := bind_of_error (adaptExcept_of_error hresult AssembleError.stream)
      fun _ => pure words.length
    rw [if_neg hfull, ← hclose]
    exact Buffer.through_of_error (bind_of_error hfailed _)
  | ok hrelays =>
    have hcount := bind_of_ok (adaptExcept_of_ok hresult AssembleError.stream)
      fun _ => pure words.length
    -- all lines are written, but the last of them may still be in the buffer
    by_cases hroom : sink.HasRoom (listing words).toUTF8.size
    · have hflush := hrelays.flush_of_hasRoom hroom
      have hclose := (Buffer.relays_receive hroom).close
      rw [if_pos hroom, ← hclose]
      refine Buffer.through_of_ok ((bind_of_ok hcount _).trans ?_)
      exact bind_of_ok (adaptExcept_of_ok hflush AssembleError.stream) _
    · obtain ⟨after, hflush, hclose⟩ := hrelays.exists_flush_of_full hroom
      rw [if_neg hroom, ← hclose]
      refine Buffer.through_of_error ((bind_of_ok hcount _).trans ?_)
      exact bind_of_error (adaptExcept_of_error hflush AssembleError.stream) _

theorem assembleFileTo_unlimited (h : assemble source = .ok words) :
    assembleFileTo (.ok source.toUTF8) .unlimited
      = .ok words.length ⟨none, (listing words).toUTF8⟩ := by
  have hroom : Sink.unlimited.HasRoom (17 * words.length) := Sink.hasRoom_of_none rfl _
  rw [assembleFileTo_apply h, if_pos hroom, Sink.receive_unlimited]

/-- Two ways of assembling end alike: with the same number of words, the same fault in the same line
or both with a sink that is full, and with the same sink. -/
inductive EndsAlike : EStateM.Result AssembleError Sink Nat →
    EStateM.Result AssembleError Sink Nat → Prop
  | assembled (count : Nat) (sink : Sink) : EndsAlike (.ok count sink) (.ok count sink)
  | faulty (number : Nat) (fault : Fault) (sink : Sink) :
      EndsAlike (.error (.line number fault) sink) (.error (.line number fault) sink)
  | full {first second : StreamError} (sink : Sink) (hfirst : first.kind = .writeZero)
      (hsecond : second.kind = .writeZero) :
      EndsAlike (.error (.stream first) sink) (.error (.stream second) sink)

theorem endsAlike_assembleFileTo (source : String) (sink : Sink) :
    EndsAlike (assembleTo source sink) (assembleFileTo (.ok source.toUTF8) sink) := by
  cases h : assemble source with
  | error error =>
    obtain ⟨number, fault, rfl⟩ := assemble_eq_error h
    rw [assembleTo_of_error h, assembleFileTo_of_unassembled h]
    exact .faulty number fault sink
  | ok words =>
    rw [assembleTo_apply h, assembleFileTo_apply h]
    split
    · exact .assembled _ _
    · exact .full _ rfl rfl

end Hack
