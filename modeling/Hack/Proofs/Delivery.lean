import Hack.Proofs.Denotation
import Hack.Proofs.Listing

/-!
# What reaches an output

A sink receives the bytes that are written to it in order, as many of them as it has room for. In
which pieces they are written makes no difference, not even to the sink that is left behind.

* `Sink.receive`, `Sink.receive_append` — the sink after some bytes, in one piece or in two
* `Sink.Delivers`, `Sink.delivers_writeWords` — actions that write given bytes
* `assembleTo_apply` — what assembling to a sink gives and leaves behind
* `assembleTo_limited` — the listing that reaches a sink with a limit
-/

namespace Hack

variable {bytes more : ByteArray} {source : String} {words : List Word}

/-! ## Actions one after the other -/

section

variable {ε ε' σ α β : Type} {action : EStateM ε σ α} {before after : σ} {a : α} {error : ε}

theorem bind_of_ok (h : action before = .ok a after) (next : α → EStateM ε σ β) :
    (action >>= next) before = next a after := by
  show EStateM.bind action next before = _
  rw [EStateM.bind, h]

theorem bind_of_error (h : action before = .error error after) (next : α → EStateM ε σ β) :
    (action >>= next) before = .error error after := by
  show EStateM.bind action next before = _
  rw [EStateM.bind, h]

theorem adaptExcept_of_ok (h : action before = .ok a after) (f : ε → ε') :
    action.adaptExcept f before = .ok a after := by
  rw [EStateM.adaptExcept, h]

theorem adaptExcept_of_error (h : action before = .error error after) (f : ε → ε') :
    action.adaptExcept f before = .error (f error) after := by
  rw [EStateM.adaptExcept, h]

end

namespace Sink

variable {sink : Sink} {first second : WriteM Sink Unit} {room : Nat}

/-! ## Receiving -/

/-- The sink after some bytes. What it has no room for is lost. -/
def receive (sink : Sink) (bytes : ByteArray) : Sink := (sink.write bytes).2

/-- Whether a sink takes `count` more bytes. -/
def HasRoom (sink : Sink) (count : Nat) : Prop := ∀ room ∈ sink.room, count ≤ room

instance (sink : Sink) (count : Nat) : Decidable (sink.HasRoom count) :=
  inferInstanceAs (Decidable (∀ room ∈ sink.room, count ≤ room))

theorem hasRoom_of_some (h : sink.room = some room) {count : Nat} :
    sink.HasRoom count ↔ count ≤ room := by
  simp [HasRoom, h]

theorem hasRoom_of_none (h : sink.room = none) (count : Nat) : sink.HasRoom count := by
  simp [HasRoom, h]

theorem receive_of_some (h : sink.room = some room) (bytes : ByteArray) :
    sink.receive bytes = ⟨some (room - bytes.size), sink.received ++ bytes.extract 0 room⟩ := by
  have hleft : room - min room bytes.size = room - bytes.size := by omega
  have htaken : bytes.extract 0 (min room bytes.size) = bytes.extract 0 room := by
    calc bytes.extract 0 (min room bytes.size)
        = (bytes.extract 0 bytes.size).extract 0 room := by
          rw [ByteArray.extract_extract, Nat.zero_add, Nat.zero_add]
      _ = bytes.extract 0 room := by rw [ByteArray.extract_zero_size]
  simp only [receive, write, accepts, h, Option.map_some, hleft, htaken]

theorem receive_of_none (h : sink.room = none) (bytes : ByteArray) :
    sink.receive bytes = ⟨none, sink.received ++ bytes⟩ := by
  simp only [receive, write, accepts, h, Option.map_none, ByteArray.extract_zero_size]

@[simp] theorem receive_empty (sink : Sink) : sink.receive .empty = sink := by
  rw [receive, write_empty]

/-- Two pieces are received as one. -/
theorem receive_append (sink : Sink) (bytes more : ByteArray) :
    sink.receive (bytes ++ more) = (sink.receive bytes).receive more := by
  cases hroom : sink.room with
  | none =>
    rw [receive_of_none hroom, receive_of_none hroom, receive_of_none rfl, ByteArray.append_assoc]
  | some room =>
    rw [receive_of_some hroom, receive_of_some hroom, receive_of_some rfl, ByteArray.size_append,
      ByteArray.extract_append, Nat.zero_sub, Nat.sub_sub, ByteArray.append_assoc]

theorem hasRoom_append :
    sink.HasRoom (bytes ++ more).size
      ↔ sink.HasRoom bytes.size ∧ (sink.receive bytes).HasRoom more.size := by
  rw [ByteArray.size_append]
  cases hroom : sink.room with
  | none =>
    have hnone : (sink.receive bytes).room = none := by rw [receive_of_none hroom]
    simp [hasRoom_of_none hroom, hasRoom_of_none hnone]
  | some room =>
    have hsome : (sink.receive bytes).room = some (room - bytes.size) := by
      rw [receive_of_some hroom]
    rw [hasRoom_of_some hroom, hasRoom_of_some hroom, hasRoom_of_some hsome]
    omega

/-- A sink that had no room for some bytes receives nothing behind them. -/
theorem receive_append_of_full (h : ¬ sink.HasRoom bytes.size) (more : ByteArray) :
    sink.receive (bytes ++ more) = sink.receive bytes := by
  cases hroom : sink.room with
  | none => exact absurd (hasRoom_of_none hroom _) h
  | some room =>
    rw [hasRoom_of_some hroom, Nat.not_le] at h
    have hfull : (sink.receive bytes).room = some 0 := by
      rw [receive_of_some hroom, Nat.sub_eq_zero_of_le (Nat.le_of_lt h)]
    rw [receive_append, receive_of_some hfull, Nat.zero_sub, ByteArray.extract_same,
      ByteArray.append_empty, ← hfull]

theorem receive_limited (room : Nat) (bytes : ByteArray) :
    (limited room).receive bytes = ⟨some (room - bytes.size), bytes.extract 0 room⟩ := by
  rw [receive_of_some rfl]
  exact congrArg (Sink.mk _) ByteArray.empty_append

theorem receive_unlimited (bytes : ByteArray) : unlimited.receive bytes = ⟨none, bytes⟩ := by
  rw [receive_of_none rfl]
  exact congrArg (Sink.mk _) ByteArray.empty_append

/-! ## Writing -/

/-- Offering bytes leaves none of them exactly if there is room for all. -/
theorem exists_offer_eq (sink : Sink) (bytes : ByteArray) :
    ∃ left, sink.offer bytes = (left, sink.receive bytes)
      ∧ (left.size = 0 ↔ sink.HasRoom bytes.size) := by
  refine ⟨_, sink.offer_eq bytes, ?_⟩
  rw [ByteArray.size_extract, Nat.min_self, accepts]
  cases hroom : sink.room with
  | none => simp [hasRoom_of_none hroom]
  | some room =>
    simp only [hasRoom_of_some hroom]
    omega

/-- Whether an action writes some bytes, and fails if the sink has no room for all of them. -/
def Delivers (action : WriteM Sink Unit) (bytes : ByteArray) : Prop :=
  ∀ sink, action sink
    = if sink.HasRoom bytes.size then .ok () (sink.receive bytes)
      else .error .writeRefused (sink.receive bytes)

theorem delivers_pure : Delivers (pure ()) .empty := by
  intro sink
  have hroom : sink.HasRoom ByteArray.empty.size := fun room _ => Nat.zero_le room
  rw [if_pos hroom, receive_empty]
  rfl

theorem delivers_writeAll (bytes : ByteArray) : Delivers (writeAll bytes) bytes := by
  intro sink
  obtain ⟨left, hoffer, hleft⟩ := sink.exists_offer_eq bytes
  simp only [writeAll, hoffer, hleft]

theorem Delivers.bind (hfirst : Delivers first bytes) (hsecond : Delivers second more) :
    Delivers (do first; second) (bytes ++ more) := by
  intro sink
  have hwritten := hfirst sink
  by_cases hroom : sink.HasRoom bytes.size
  · rw [if_pos hroom] at hwritten
    rw [bind_of_ok hwritten, hsecond, receive_append]
    simp only [hasRoom_append, hroom, true_and]
  · have hnone : ¬ sink.HasRoom (bytes ++ more).size := fun h => hroom (hasRoom_append.mp h).1
    rw [if_neg hroom] at hwritten
    rw [bind_of_error hwritten, if_neg hnone, receive_append_of_full hroom]

theorem delivers_writeWords (words : List Word) :
    Delivers (writeWords words) (listing words).toUTF8 :=
  writeWords_induction delivers_pure Delivers.bind (fun bytes _ => delivers_writeAll bytes) words

end Sink

/-! ## Assembling to a sink -/

theorem assembleTo_of_error {σ : Type} [Writer σ] {error : AssembleError}
    (h : assemble source = .error error) (output : σ) :
    assembleTo source output = .error error output := by
  show (MonadExcept.ofExcept (assemble source) >>= _ : EStateM AssembleError σ Nat) output = _
  rw [h]
  rfl

theorem assembleTo_of_ok {σ : Type} [Writer σ] (h : assemble source = .ok words) :
    (assembleTo source : EStateM AssembleError σ Nat)
      = do
        (writeWords words).adaptExcept .stream
        return words.length := by
  show (MonadExcept.ofExcept (assemble source) >>= _ : EStateM AssembleError σ Nat) = _
  rw [h]
  rfl

theorem assembleTo_apply (h : assemble source = .ok words) (sink : Sink) :
    assembleTo source sink
      = if sink.HasRoom (17 * words.length)
        then .ok words.length (sink.receive (listing words).toUTF8)
        else .error (.stream .writeRefused) (sink.receive (listing words).toUTF8) := by
  have hwritten := Sink.delivers_writeWords words sink
  rw [size_listing] at hwritten
  rw [assembleTo_of_ok h]
  by_cases hroom : sink.HasRoom (17 * words.length)
  · rw [if_pos hroom] at hwritten ⊢
    exact bind_of_ok (adaptExcept_of_ok hwritten AssembleError.stream) _
  · rw [if_neg hroom] at hwritten ⊢
    exact bind_of_error (adaptExcept_of_error hwritten AssembleError.stream) _

theorem assembleTo_of_le {room : Nat} (h : assemble source = .ok words)
    (hle : 17 * words.length ≤ room) :
    assembleTo source (Sink.limited room)
      = .ok words.length ⟨some (room - 17 * words.length), (listing words).toUTF8⟩ := by
  have hroom : (Sink.limited room).HasRoom (17 * words.length) :=
    (Sink.hasRoom_of_some rfl).mpr hle
  have hall : (listing words).toUTF8.extract 0 room = (listing words).toUTF8 := by
    have hmax : room = max room (listing words).toUTF8.size := by
      rw [size_listing]
      omega
    rw [hmax, ByteArray.extract_zero_max_size]
  rw [assembleTo_apply h, if_pos hroom, Sink.receive_limited, size_listing, hall]

theorem assembleTo_of_lt {room : Nat} (h : assemble source = .ok words)
    (hlt : room < 17 * words.length) :
    assembleTo source (Sink.limited room)
      = .error (.stream .writeRefused) ⟨some 0, (listing words).toUTF8.extract 0 room⟩ := by
  have hfull : ¬ (Sink.limited room).HasRoom (17 * words.length) := fun hroom =>
    Nat.not_le_of_lt hlt ((Sink.hasRoom_of_some rfl).mp hroom)
  rw [assembleTo_apply h, if_neg hfull, Sink.receive_limited, size_listing,
    Nat.sub_eq_zero_of_le (Nat.le_of_lt hlt)]

/-- A sink with a limit receives nothing of a program that is not assembled. Of a program that is,
it receives the listing, which has a line with the 16 binary digits of each word: all of it if the
limit allows that, and else as many bytes as it allows, with a failure. -/
theorem assembleTo_limited (source : String) (room : Nat) :
    (∀ error, assemble source = .error error →
        assembleTo source (Sink.limited room) = .error error ⟨some room, .empty⟩)
      ∧ ∀ words, assemble source = .ok words →
          (∃ rows : List String, List.Forall₂ Word.IsNumeral words rows
              ∧ listing words = String.join (rows.map (· ++ "\n")))
            ∧ (listing words).toUTF8.size = 17 * words.length
            ∧ readListing (listing words) = words
            ∧ (17 * words.length ≤ room →
                assembleTo source (Sink.limited room)
                  = .ok words.length ⟨some (room - 17 * words.length), (listing words).toUTF8⟩)
            ∧ (room < 17 * words.length →
                ∃ error, assembleTo source (Sink.limited room)
                    = .error (.stream error) ⟨some 0, (listing words).toUTF8.extract 0 room⟩
                  ∧ error.kind = .writeZero) := by
  constructor
  · intro error herror
    exact assembleTo_of_error herror (Sink.limited room)
  · intro words hwords
    exact ⟨exists_numerals words, size_listing words, readListing_listing words,
      assembleTo_of_le hwords, fun hlt => ⟨.writeRefused, assembleTo_of_lt hwords hlt, rfl⟩⟩

/-- An address load, and a compute instruction of each form. -/
def threeLines : String := "@5\nD=D+1\n0;JMP\n"

/-- The lines of `threeLines`. -/
def threeStatements : List Line :=
  [⟨1, .instruction (.address "5")⟩, ⟨2, .instruction (.compute .d .dPlusOne .null)⟩,
    ⟨3, .instruction (.compute .null .zero .jmp)⟩]

theorem assemble_threeLines : assemble threeLines = .ok [5, 59344, 60039] := by
  have hread : readLines threeLines = .ok threeStatements := by decide
  rw [assemble_eq_denoted hread (by decide)]
  decide

theorem assembleTo_limited_threeLines :
    assemble threeLines = .ok [5, 59344, 60039]
      ∧ assembleTo threeLines (Sink.limited 60)
          = .ok 3 ⟨some 9, "0000000000000101\n1110011111010000\n1110101010000111\n".toUTF8⟩
      ∧ (∃ error, assembleTo threeLines (Sink.limited 20)
            = .error (.stream error) ⟨some 0, "0000000000000101\n111".toUTF8⟩
          ∧ error.kind = .writeZero)
      ∧ assembleTo "@1\nD=X\n" (Sink.limited 20)
          = .error (.line 2 (.unknownMnemonic "comp" "X")) ⟨some 20, .empty⟩ := by
  have hok := assemble_threeLines
  have herror : assemble "@1\nD=X\n" = .error (.line 2 (.unknownMnemonic "comp" "X")) :=
    assemble_of_unreadable (by decide)
  obtain ⟨-, -, -, hfits, -⟩ := (assembleTo_limited threeLines 60).2 _ hok
  obtain ⟨-, -, -, -, hcut⟩ := (assembleTo_limited threeLines 20).2 _ hok
  obtain ⟨error, hcut, hkind⟩ := hcut (by decide)
  refine ⟨hok, (hfits (by decide)).trans ?_, ⟨error, hcut.trans ?_, hkind⟩,
    (assembleTo_limited _ 20).1 _ herror⟩
  · rfl
  · rfl

end Hack
