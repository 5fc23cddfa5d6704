import Hack.Assembler.Program
import Hack.Output.Buffer

/-!
# Listings

The listing of a program has a line of 16 binary digits for each word. Nothing is written unless
the whole program can be assembled.

* `assembleTo` — from a source, straight to an output
* `assembleFileTo` — from the bytes of a file, through a buffer
* `fileEvents` — what is reported while that goes on
-/

namespace Hack

/-! ## Words -/

/-- Writes the line of a word. -/
def writeWord {σ : Type} [Writer σ] (word : Word) : WriteM σ Unit := do
  Writer.writeAll word.binary.toUTF8
  Writer.writeAll "\n".toUTF8

/-- Writes the lines of some words, in order. -/
def writeWords {σ : Type} [Writer σ] (words : List Word) : WriteM σ Unit :=
  words.forM writeWord

/-! ## Programs -/

/-- Assembles a source and writes its listing. The result is the number of words. -/
def assembleTo {σ : Type} [Writer σ] (source : String) : EStateM AssembleError σ Nat := do
  let words ← MonadExcept.ofExcept (assemble source)
  (writeWords words).adaptExcept .stream
  return words.length

/-- The text of a file from its bytes, which have to be UTF-8. -/
def decodeText (bytes : ByteArray) : Except StreamError String :=
  match String.fromUTF8? bytes with
  | some text => .ok text
  | none => .error .invalidText

/-- Assembles what was read from a file, and writes the listing through a buffer. The result is the
number of words. -/
def assembleFileTo (content : Except StreamError ByteArray) : EStateM AssembleError Sink Nat := do
  let source ← MonadExcept.ofExcept ((content.bind decodeText).mapError .stream)
  Buffer.through do
    let count ← assembleTo source
    Buffer.flush.adaptExcept .stream
    return count

/-- What is reported while a file is assembled. Nothing is if it has no text that could be. -/
def fileEvents (content : Except StreamError ByteArray) : List Event :=
  match content.bind decodeText with
  | .ok source => (trace source).2.toList
  | .error _ => []

end Hack
