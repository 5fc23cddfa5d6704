import Hack.Instruction.Basic

/-!
# Events

What a run reports while it goes on. An event has a level and a message, and fields that the
constructors carry.
-/

namespace Hack

/-- How much attention an event asks for. -/
inductive Level
  | warn | debug | trace
  deriving DecidableEq

/-- Something that happened in a run. -/
inductive Event
  /-- A label has the name of a predefined symbol, which hides it. -/
  | labelShadowed (line : Nat) (name : String)
  /-- A label was bound before. -/
  | labelRedefined (line : Nat) (name : String) (previous : Address) (address : Nat)
  /-- A label was bound to the number of instructions before it. -/
  | labelBound (name : String) (address : Nat)
  /-- A variable got the next free address. -/
  | variableAllocated (name : String) (address : Address)
  /-- An instruction became a word. -/
  | encoded (line : Nat) (instruction : Instruction) (word : Word)
  /-- A program was assembled, with so many instructions, labels and variables. -/
  | assembled (instructionCount labelCount variableCount : Nat)
  deriving DecidableEq

namespace Event

/-- The level of an event. -/
def level : Event → Level
  | labelShadowed .. | labelRedefined .. => .warn
  | labelBound .. | variableAllocated .. | assembled .. => .debug
  | encoded .. => .trace

/-- The message of an event. -/
def message : Event → String
  | labelShadowed .. => "label shadowed by predefined symbol"
  | labelRedefined .. => "label redefined"
  | labelBound .. => "bound label"
  | variableAllocated .. => "allocated variable"
  | encoded _ instruction word => instruction.text ++ " => " ++ word.binary
  | assembled .. => "assembled"

end Event

end Hack
