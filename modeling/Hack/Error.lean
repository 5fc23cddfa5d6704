import Hack.Word

/-!
# Errors

What can go wrong when a program is assembled: a fault in a line, two passes that disagree about
the number of instructions, or a file or an output that does not do its part.
-/

namespace Hack

/-! ## Faults of a line -/

/-- What is wrong with a line. -/
inductive Fault
  | malformedLabel (text : String)
  | malformedAddress (text : String)
  | invalidSyntax (text : String)
  | unknownMnemonic (part spelling : String)
  | invalidLiteral (literal : String)
  | addressOutOfRange (value : Address)
  deriving DecidableEq

/-- The text that describes a fault. -/
def Fault.message : Fault → String
  | malformedLabel text => s!"malformed label declaration `{text}`"
  | malformedAddress text => s!"malformed address instruction `{text}`"
  | invalidSyntax text => s!"expected `dest=comp` or `comp;jump`, found `{text}`"
  | unknownMnemonic part spelling => s!"unknown {part} mnemonic `{spelling}`"
  | invalidLiteral literal => s!"invalid numeric literal `{literal}`"
  | addressOutOfRange value => s!"address {value} does not fit in 15 bits"

/-! ## Failures of files and outputs -/

/-- Why a file was not read or an output not written. -/
inductive StreamError
  /-- There is no file of that name. -/
  | notFound
  /-- The name is that of a directory. -/
  | isDirectory
  /-- The path goes on behind what is not a directory. -/
  | notDirectory
  /-- The path or a name in it has too many bytes. -/
  | nameTooLong
  /-- The bytes of the file are not UTF-8. -/
  | invalidText
  /-- The output took none of the bytes that it was given. -/
  | writeRefused
  /-- The output took none of the bytes that a buffer had kept for it. -/
  | flushRefused
  /-- Anything else, with its description. -/
  | other (description : String)
  deriving DecidableEq

/-- What sort of failure it is, for those who do not read its text. -/
inductive StreamKind
  | notFound | isDirectory | notDirectory | invalidName | invalidData | writeZero | other
  deriving DecidableEq

/-- The sort of a failure. An output that takes nothing fails in the same way whether the bytes
come from a buffer or not. -/
def StreamError.kind : StreamError → StreamKind
  | notFound => .notFound
  | isDirectory => .isDirectory
  | notDirectory => .notDirectory
  | nameTooLong => .invalidName
  | invalidText => .invalidData
  | writeRefused | flushRefused => .writeZero
  | other _ => .other

/-- The text that describes a failure. -/
def StreamError.message : StreamError → String
  | notFound => "No such file or directory (os error 2)"
  | isDirectory => "Is a directory (os error 21)"
  | notDirectory => "Not a directory (os error 20)"
  | nameTooLong => "File name too long (os error 36)"
  | invalidText => "stream did not contain valid UTF-8"
  | writeRefused => "failed to write whole buffer"
  | flushRefused => "failed to write the buffered data"
  | other description => description

/-! ## Errors -/

/-- Why a program was not assembled. -/
inductive AssembleError
  | line (number : Nat) (fault : Fault)
  | countMismatch (counted emitted : Nat)
  | stream (error : StreamError)
  deriving DecidableEq

/-- The text that describes an error. -/
def AssembleError.message : AssembleError → String
  | line number fault => s!"line {number}: {fault.message}"
  | countMismatch counted emitted =>
    s!"first pass counted {counted} instructions but second pass emitted {emitted}"
  | stream error => error.message

end Hack
