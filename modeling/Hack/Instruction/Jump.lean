import Hack.Instruction.Mnemonic

/-!
# Jumps

When a compute instruction jumps: on a computed value that is below, equal to or above zero, one bit
each, or never, which a source does not spell.
-/

namespace Hack

/-- The jumps of the instruction set. -/
inductive Jump
  | null | jgt | jeq | jge | jlt | jne | jle | jmp
  deriving DecidableEq

namespace Jump

/-- Every jump, in ascending order of the codes. -/
def all : List Jump := [null, jgt, jeq, jge, jlt, jne, jle, jmp]

/-- The spellings of jumps in the order in which they are tried. -/
def spellings : List (String × Jump) :=
  [("JGT", jgt), ("JEQ", jeq), ("JGE", jge), ("JLT", jlt), ("JNE", jne), ("JLE", jle),
   ("JMP", jmp)]

/-- How the jump is printed. -/
def text : Jump → String
  | null => ""
  | jgt => "JGT"
  | jeq => "JEQ"
  | jge => "JGE"
  | jlt => "JLT"
  | jne => "JNE"
  | jle => "JLE"
  | jmp => "JMP"

/-- The code of the jump. -/
def code : Jump → Word
  | null => 0b000
  | jgt => 0b001
  | jeq => 0b010
  | jge => 0b011
  | jlt => 0b100
  | jne => 0b101
  | jle => 0b110
  | jmp => 0b111

theorem toNat_code_lt (jump : Jump) : jump.code.toNat < 1 <<< Field.jump.size := by
  cases jump <;> decide

instance : Mnemonic Jump where
  name := "jump"
  field := Field.jump
  all := all
  spellings := spellings
  text := text
  code := code
  text_spelled := by decide
  find?_prefix := by decide
  find?_code := by intro j; cases j <;> decide

theorem mem_order_iff {jump : Jump} : jump ∈ (Mnemonic.order : List Jump) ↔ jump ≠ .null := by
  cases jump <;> decide

end Jump

end Hack
