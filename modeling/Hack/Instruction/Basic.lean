import Hack.Instruction.Comp
import Hack.Instruction.Dest
import Hack.Instruction.Jump

/-!
# Instructions

An instruction loads an address or computes. The operand of an address load is kept as the source
spells it; what it stands for is known only when every label of the program is.

* `Word.toNat_load` — an address that fits is loaded whole
* `Word.toNat_compute` — the codes of a compute instruction as the digits of a number
* `Word.read_compute` — the fields of a compute instruction hold its codes
-/

namespace Hack

/-- An instruction as a source spells it. -/
inductive Instruction
  | address (operand : String)
  | compute (dest : Dest) (comp : Comp) (jump : Jump)
  deriving DecidableEq

namespace Instruction

/-- The source text of an instruction. A destination and a jump that are `null` are left out with
their separators. -/
def text : Instruction → String
  | address operand => "@" ++ operand
  | compute dest comp jump =>
    (if dest = .null then "" else dest.text ++ "=") ++ comp.text
      ++ (if jump = .null then "" else ";" ++ jump.text)

end Instruction

namespace Word

/-- The word that loads an address, of which only the bits of the address field count. -/
def load (address : Address) : Word := Field.address.place address.toUInt16

/-- An address that fits into the address field is loaded whole. -/
theorem toNat_load {address : Address} (h : address ≤ maxAddress) :
    (load address).toNat = address.toNat := by
  have hle : address.toNat ≤ 32767 := UInt32.le_iff_toNat_le.mp h
  have hword : address.toUInt16.toNat = address.toNat := by
    rw [UInt32.toNat_toUInt16]
    omega
  have hfits : address.toUInt16.toNat < 1 <<< Field.address.size := by
    rw [hword]
    exact Nat.lt_succ_of_le hle
  rw [load, Field.toNat_place (by decide) (by decide) hfits, hword]
  rfl

/-- The word that computes: the marker and the codes of the three parts. -/
def compute (dest : Dest) (comp : Comp) (jump : Jump) : Word :=
  Field.marker.place (Field.mask Field.marker.size) ||| Mnemonic.bits comp ||| Mnemonic.bits dest
    ||| Mnemonic.bits jump

/-- The codes of a compute instruction do not overlap. -/
theorem toNat_compute (dest : Dest) (comp : Comp) (jump : Jump) :
    (compute dest comp jump).toNat
      = 7 <<< 13 + comp.code.toNat <<< 6 + dest.code.toNat <<< 3 + jump.code.toNat := by
  have hd : dest.code.toNat < 2 ^ 3 := dest.toNat_code_lt
  have hc : comp.code.toNat < 2 ^ 7 := comp.toNat_code_lt
  have hj : jump.code.toNat < 2 ^ 3 := jump.toNat_code_lt
  have hm : (Field.marker.place (Field.mask Field.marker.size)).toNat = 2 ^ 13 * 7 := by decide
  have hcomp : (Mnemonic.bits comp).toNat = 2 ^ 6 * comp.code.toNat :=
    (Field.toNat_place (by decide) (by decide) comp.toNat_code_lt).trans
      ((Nat.shiftLeft_eq _ _).trans (Nat.mul_comm _ _))
  have hdest : (Mnemonic.bits dest).toNat = 2 ^ 3 * dest.code.toNat :=
    (Field.toNat_place (by decide) (by decide) dest.toNat_code_lt).trans
      ((Nat.shiftLeft_eq _ _).trans (Nat.mul_comm _ _))
  have hjump : (Mnemonic.bits jump).toNat = jump.code.toNat :=
    Field.toNat_place (by decide) (by decide) jump.toNat_code_lt
  have h6 : 2 ^ 6 * comp.code.toNat < 2 ^ 13 := by omega
  have h3 : 2 ^ 3 * dest.code.toNat < 2 ^ 6 := by omega
  rw [compute, UInt16.toNat_or, UInt16.toNat_or, UInt16.toNat_or, hm, hcomp, hdest, hjump,
    ← Nat.two_pow_add_eq_or_of_lt h6]
  rw [show 2 ^ 13 * 7 + 2 ^ 6 * comp.code.toNat = 2 ^ 6 * (2 ^ 7 * 7 + comp.code.toNat) by omega,
    ← Nat.two_pow_add_eq_or_of_lt h3]
  rw [show 2 ^ 6 * (2 ^ 7 * 7 + comp.code.toNat) + 2 ^ 3 * dest.code.toNat
      = 2 ^ 3 * (2 ^ 3 * (2 ^ 7 * 7 + comp.code.toNat) + dest.code.toNat) by omega,
    ← Nat.two_pow_add_eq_or_of_lt hj]
  omega

/-- The fields of a compute instruction hold its codes. -/
theorem read_compute (dest : Dest) (comp : Comp) (jump : Jump) :
    Field.marker.read (compute dest comp jump) = Field.mask Field.marker.size
      ∧ Field.comp.read (compute dest comp jump) = comp.code
      ∧ Field.dest.read (compute dest comp jump) = dest.code
      ∧ Field.jump.read (compute dest comp jump) = jump.code := by
  have hword := toNat_compute dest comp jump
  have hd : dest.code.toNat < 2 ^ 3 := dest.toNat_code_lt
  have hc : comp.code.toNat < 2 ^ 7 := comp.toNat_code_lt
  have hj : jump.code.toNat < 2 ^ 3 := jump.toNat_code_lt
  refine ⟨?_, ?_, ?_, ?_⟩
  · rw [← UInt16.toNat_inj, Field.toNat_read _ (by decide) (by decide), hword,
      Field.toNat_mask (by decide)]
    simp only [Field.marker, Nat.one_shiftLeft]
    omega
  · rw [← UInt16.toNat_inj, Field.toNat_read _ (by decide) (by decide), hword]
    simp only [Field.comp, Nat.one_shiftLeft]
    omega
  · rw [← UInt16.toNat_inj, Field.toNat_read _ (by decide) (by decide), hword]
    simp only [Field.dest, Nat.one_shiftLeft]
    omega
  · rw [← UInt16.toNat_inj, Field.toNat_read _ (by decide) (by decide), hword]
    simp only [Field.jump, Nat.one_shiftLeft]
    omega

end Word

end Hack
