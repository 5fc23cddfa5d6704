import Hack.Instruction.Basic

/-!
# Disassembly

The instruction that a word stands for. An address load is spelled with its address in decimal,
whatever name the address had in the source.

* `Instruction.ofWord?_load` — a loaded address is read back
* `Instruction.ofWord?_compute` — a compute instruction is read back
-/

namespace Hack

namespace Instruction

/-- The instruction that a word stands for, if there is one. -/
def ofWord? (word : Word) : Option Instruction :=
  if word ≤ Field.mask Field.address.size then some (.address (toString word.toNat))
  else if Field.marker.read word = Field.mask Field.marker.size then do
    let dest ← Mnemonic.ofCode? (Field.dest.read word)
    let comp ← Mnemonic.ofCode? (Field.comp.read word)
    let jump ← Mnemonic.ofCode? (Field.jump.read word)
    return .compute dest comp jump
  else none

theorem ofWord?_load {address : Address} (h : address ≤ maxAddress) :
    ofWord? (Word.load address) = some (.address (toString address.toNat)) := by
  have hload := Word.toNat_load h
  have hle : Word.load address ≤ Field.mask Field.address.size := by
    rw [UInt16.le_iff_toNat_le, hload]
    exact UInt32.le_iff_toNat_le.mp h
  rw [ofWord?, if_pos hle, hload]

theorem ofWord?_compute (dest : Dest) (comp : Comp) (jump : Jump) :
    ofWord? (Word.compute dest comp jump) = some (.compute dest comp jump) := by
  have hword := Word.toNat_compute dest comp jump
  have hgt : ¬ Word.compute dest comp jump ≤ Field.mask Field.address.size := by
    rw [UInt16.le_iff_toNat_le, Field.toNat_mask (by decide), hword]
    simp only [Field.address]
    omega
  obtain ⟨hmarker, hcomp, hdest, hjump⟩ := Word.read_compute dest comp jump
  have ofComp : Mnemonic.ofCode? comp.code = some comp := Mnemonic.ofCode?_eq_some_iff.mpr rfl
  have ofDest : Mnemonic.ofCode? dest.code = some dest := Mnemonic.ofCode?_eq_some_iff.mpr rfl
  have ofJump : Mnemonic.ofCode? jump.code = some jump := Mnemonic.ofCode?_eq_some_iff.mpr rfl
  rw [ofWord?, if_neg hgt, if_pos hmarker, hcomp, hdest, hjump, ofComp, ofDest, ofJump]
  rfl

end Instruction

/-- A source with one line for each word, if every word stands for an instruction. -/
def disassemble? (words : List Word) : Option String := do
  let instructions ← words.mapM Instruction.ofWord?
  return String.join (instructions.map fun instruction => instruction.text ++ "\n")

end Hack
