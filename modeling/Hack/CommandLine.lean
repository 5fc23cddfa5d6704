import Hack.Output.Listing

/-!
# The command line

The program takes the name of one file, without options, and prints the listing of the program in
that file. Its log goes where its errors go, so that the output holds the listing alone.
-/

namespace Hack.CommandLine

/-! ## The log -/

/-- What the program does not decide by itself: what is to be logged, and the texts that others lay
out. -/
structure Environment where
  /-- The events that are asked for, if the environment says so. -/
  filter? : Option (Event → Bool)
  /-- The line of an event in the log; also by its place there, for the lines carry the time. -/
  logLine : Nat → Event → String
  /-- What is printed on the way out because of an argument that is not UTF-8. -/
  abortText : ByteArray → String

namespace Environment

/-- Whether an event is logged. Without a filter only warnings are. -/
def shows (environment : Environment) (event : Event) : Bool :=
  match environment.filter? with
  | some passes => passes event
  | none => event.level = .warn

/-- The log of some events. -/
def logText (environment : Environment) (events : List Event) : String :=
  String.join (((events.filter environment.shows).zipIdx).map fun (event, place) =>
    environment.logLine place event)

end Environment

/-! ## The program -/

/-- How the program ends: its exit code and what it prints. -/
structure Exit where
  code : UInt32
  stdout : ByteArray
  stderr : String

/-- What is printed where there is not exactly one argument. -/
def usage : String := "Usage: assemble [source]\n"

/-- How the program ends when it has assembled what was read from its file. -/
def exitOf (environment : Environment) (content : Except StreamError ByteArray) : Exit :=
  let log := environment.logText (fileEvents content)
  match assembleFileTo content .unlimited with
  | .ok _ sink => ⟨0, sink.received, log⟩
  | .error error sink => ⟨1, sink.received, log ++ s!"Error: {error.message}\n"⟩

/-- The text of an argument, or the argument itself if it is not UTF-8. -/
def decodeArgument (bytes : ByteArray) : Except ByteArray String :=
  (decodeText bytes).mapError fun _ => bytes

/-- How the program ends for some arguments. All of them are decoded, but a file is read only if it
is the only argument. -/
def respond {m : Type → Type} [Monad m] (environment : Environment)
    (readFile : String → m (Except StreamError ByteArray)) (arguments : List ByteArray) : m Exit :=
  match arguments.mapM decodeArgument with
  | .error bytes => return ⟨101, .empty, environment.abortText bytes⟩
  | .ok [file] => do return exitOf environment (← readFile file)
  | .ok _ => return ⟨1, .empty, usage⟩

end Hack.CommandLine
