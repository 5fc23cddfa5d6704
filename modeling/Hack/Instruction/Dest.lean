import Hack.Instruction.Mnemonic

/-!
# Destinations

Where a computed value goes: any of the registers `A`, `D` and the memory word `M`, one bit each, or
nowhere, which a source does not spell.
-/

namespace Hack

/-- The destinations of the instruction set. -/
inductive Dest
  | null | m | d | md | a | am | ad | amd
  deriving DecidableEq

namespace Dest

/-- Every destination, in ascending order of the codes. -/
def all : List Dest := [null, m, d, md, a, am, ad, amd]

/-- The spellings of destinations in the order in which they are tried. -/
def spellings : List (String × Dest) :=
  [("AMD", amd), ("AM", am), ("AD", ad), ("MD", md), ("M", m), ("D", d), ("A", a)]

/-- How the destination is printed. -/
def text : Dest → String
  | null => ""
  | m => "M"
  | d => "D"
  | md => "MD"
  | a => "A"
  | am => "AM"
  | ad => "AD"
  | amd => "AMD"

/-- The code of the destination. -/
def code : Dest → Word
  | null => 0b000
  | m => 0b001
  | d => 0b010
  | md => 0b011
  | a => 0b100
  | am => 0b101
  | ad => 0b110
  | amd => 0b111

theorem toNat_code_lt (dest : Dest) : dest.code.toNat < 1 <<< Field.dest.size := by
  cases dest <;> decide

instance : Mnemonic Dest where
  name := "dest"
  field := Field.dest
  all := all
  spellings := spellings
  text := text
  code := code
  text_spelled := by decide
  find?_prefix := by decide
  find?_code := by intro x; cases x <;> decide

theorem mem_order_iff {dest : Dest} : dest ∈ (Mnemonic.order : List Dest) ↔ dest ≠ .null := by
  cases dest <;> decide

end Dest

end Hack
