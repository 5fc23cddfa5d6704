import Hack.Instruction.Mnemonic

/-!
# Computations

What the arithmetic unit computes from the registers `D`, `A` and the memory word `M` at the address
in `A`. The highest bit of a code chooses between `A` and `M`, the others control the unit.
-/

namespace Hack

/-- The computations of the instruction set. -/
inductive Comp
  | zero | one | minusOne
  | d | a | m
  | notD | notA | notM
  | negD | negA | negM
  | dPlusOne | aPlusOne | mPlusOne
  | dMinusOne | aMinusOne | mMinusOne
  | dPlusA | dPlusM
  | dMinusA | dMinusM
  | aMinusD | mMinusD
  | dAndA | dAndM
  | dOrA | dOrM
  deriving DecidableEq

namespace Comp

/-- Every computation, in the order of the instruction set. -/
def all : List Comp :=
  [zero, one, minusOne, d, a, m, notD, notA, notM, negD, negA, negM, dPlusOne, aPlusOne, mPlusOne,
   dMinusOne, aMinusOne, mMinusOne, dPlusA, dPlusM, dMinusA, dMinusM, aMinusD, mMinusD,
   dAndA, dAndM, dOrA, dOrM]

/-- The spellings of computations in the order in which they are tried: three characters, two
characters, one. -/
def spellings : List (String × Comp) :=
  [("D+1", dPlusOne), ("A+1", aPlusOne), ("M+1", mPlusOne), ("D-1", dMinusOne), ("A-1", aMinusOne),
   ("M-1", mMinusOne), ("D+A", dPlusA), ("D+M", dPlusM), ("D-A", dMinusA), ("D-M", dMinusM),
   ("A-D", aMinusD), ("M-D", mMinusD), ("D&A", dAndA), ("D&M", dAndM), ("D|A", dOrA),
   ("D|M", dOrM),
   ("-1", minusOne), ("!D", notD), ("!A", notA), ("!M", notM), ("-D", negD), ("-A", negA),
   ("-M", negM),
   ("0", zero), ("1", one), ("D", d), ("A", a), ("M", m)]

/-- How the computation is printed. -/
def text : Comp → String
  | zero => "0"
  | one => "1"
  | minusOne => "-1"
  | d => "D"
  | a => "A"
  | m => "M"
  | notD => "!D"
  | notA => "!A"
  | notM => "!M"
  | negD => "-D"
  | negA => "-A"
  | negM => "-M"
  | dPlusOne => "D+1"
  | aPlusOne => "A+1"
  | mPlusOne => "M+1"
  | dMinusOne => "D-1"
  | aMinusOne => "A-1"
  | mMinusOne => "M-1"
  | dPlusA => "D+A"
  | dPlusM => "D+M"
  | dMinusA => "D-A"
  | dMinusM => "D-M"
  | aMinusD => "A-D"
  | mMinusD => "M-D"
  | dAndA => "D&A"
  | dAndM => "D&M"
  | dOrA => "D|A"
  | dOrM => "D|M"

/-- The code of the computation. -/
def code : Comp → Word
  | zero => 0b0101010
  | one => 0b0111111
  | minusOne => 0b0111010
  | d => 0b0001100
  | a => 0b0110000
  | m => 0b1110000
  | notD => 0b0001101
  | notA => 0b0110001
  | notM => 0b1110001
  | negD => 0b0001111
  | negA => 0b0110011
  | negM => 0b1110011
  | dPlusOne => 0b0011111
  | aPlusOne => 0b0110111
  | mPlusOne => 0b1110111
  | dMinusOne => 0b0001110
  | aMinusOne => 0b0110010
  | mMinusOne => 0b1110010
  | dPlusA => 0b0000010
  | dPlusM => 0b1000010
  | dMinusA => 0b0010011
  | dMinusM => 0b1010011
  | aMinusD => 0b0000111
  | mMinusD => 0b1000111
  | dAndA => 0b0000000
  | dAndM => 0b1000000
  | dOrA => 0b0010101
  | dOrM => 0b1010101

theorem toNat_code_lt (comp : Comp) : comp.code.toNat < 1 <<< Field.comp.size := by
  cases comp <;> decide

instance : Mnemonic Comp where
  name := "comp"
  field := Field.comp
  all := all
  spellings := spellings
  text := text
  code := code
  text_spelled := by decide
  find?_prefix := by decide
  find?_code := by intro c; cases c <;> decide

theorem mem_order (comp : Comp) : comp ∈ (Mnemonic.order : List Comp) := by
  cases comp <;> decide

end Comp

end Hack
