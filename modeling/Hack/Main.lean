import Hack.CommandLine

/-!
# The program
-/

namespace Hack.CommandLine

/-- The number of an error of the operating system, which some operations report negated. -/
def errorNumber (code : UInt32) : Nat := if code < 0x80000000 then code.toNat else (-code).toNat

/-- Why a file was not read. -/
def streamError (error : IO.Error) : StreamError :=
  match error with
  | .noFileOrDirectory .. => .notFound
  | .inappropriateType _ code _ => if errorNumber code = 20 then .notDirectory else .isDirectory
  | .invalidArgument _ code _ =>
    if errorNumber code = 36 then .nameTooLong else .other (toString error)
  | _ => .other (toString error)

/-- Reads the bytes of a file. -/
def readFile (file : String) : IO (Except StreamError ByteArray) := do
  try
    return .ok (← IO.FS.readBinFile file)
  catch error =>
    return .error (streamError error)

/-- The name of a level. -/
def levelName : Level → String
  | .warn => "WARN"
  | .debug => "DEBUG"
  | .trace => "TRACE"

/-- The fields of an event. -/
def fieldTexts : Event → List String
  | .labelShadowed line name => [s!"line={line}", s!"name={name.quote}"]
  | .labelRedefined line name previous address =>
    [s!"line={line}", s!"name={name.quote}", s!"previous={previous}", s!"address={address}"]
  | .labelBound name address => [s!"name={name.quote}", s!"address={address}"]
  | .variableAllocated name address => [s!"name={name.quote}", s!"address={address}"]
  | .encoded line _ _ => [s!"line={line}"]
  | .assembled instructionCount labelCount variableCount =>
    [s!"instructions={instructionCount}", s!"labels={labelCount}", s!"variables={variableCount}"]

/-- An environment that asks for nothing, with a log without times. -/
def plainEnvironment : Environment where
  filter? := none
  logLine _ event :=
    " ".intercalate (levelName event.level :: event.message :: fieldTexts event) ++ "\n"
  abortText _ := "an argument is not UTF-8\n"

end Hack.CommandLine

/-- Assembles the file that the command line names. -/
def main (arguments : List String) : IO UInt32 := do
  let exit ← Hack.CommandLine.respond Hack.CommandLine.plainEnvironment
    Hack.CommandLine.readFile (arguments.map String.toUTF8)
  let output ← IO.getStdout
  output.write exit.stdout
  output.flush
  IO.eprint exit.stderr
  return exit.code
