import Hack.Assembler.Encode
import Hack.Assembler.Labels
import Hack.Line.Grammar
import Hack.Text.Lines

/-!
# Programs

A program is assembled in two passes over its lines, so that a label can be used before it is
declared. All lines are read first: a line that cannot be read is reported even if an instruction
before it could not have been encoded.
-/

namespace Hack

/-! ## Lines -/

/-- Reads the lines of a source, numbered from 1, up to the first that cannot be read. -/
def readLines (source : String) : Except AssembleError (List Line) :=
  ((Text.lines source.toList).zipIdx 1).mapM fun (raw, number) => Line.ofChars number raw

/-! ## The two passes -/

namespace AssembleM

/-- Assembles lines. -/
def assembleLines (lines : List Line) : AssembleM (List Word) := do
  let counted ← modifyGet fun run => run.bindLabels lines
  let words ← encodeLines lines
  if words.length ≠ counted then
    throw (.countMismatch counted words.length)
  let symbols := (← get).symbols
  record (.assembled counted symbols.labelMap.size symbols.variableMap.size)
  return words

/-- Assembles a source. -/
def assembleSource (source : String) : AssembleM (List Word) := do
  assembleLines (← MonadExcept.ofExcept (readLines source))

end AssembleM

/-! ## Results -/

/-- The words of a source, or the first error, and the log of the run. -/
def trace (source : String) : Except AssembleError (List Word) × Array Event :=
  match AssembleM.assembleSource source .initial with
  | .ok words run => (.ok words, run.log)
  | .error error run => (.error error, run.log)

/-- The words of a source, or the first error. -/
def assemble (source : String) : Except AssembleError (List Word) := (trace source).1

end Hack
