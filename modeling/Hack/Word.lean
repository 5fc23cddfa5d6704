import Hack.Text.Numeral

/-!
# Words and their fields

The machine has words of 16 bits. A word is divided into fields; an address load has a single
field, the address, below a bit that is zero, and a compute instruction has the marker `111` and
three fields for the computation, the destination and the jump.

* `Field.toNat_mask` — a mask is the number below a power of two
* `Field.toNat_place`, `Field.toNat_read` — placing shifts a number, reading shifts it back
* `Word.isNumeral_binary` — a word is printed as 16 binary digits that give it back
-/

namespace Hack

/-- A word of instruction memory. -/
abbrev Word := UInt16

/-- An address before it is known to fit into a word. -/
abbrev Address := UInt32

/-- A run of adjacent bits of a word: how many, and the number of bits below them. -/
structure Field where
  size : Nat
  pos : Nat
  deriving DecidableEq

namespace Field

/-! ## Layout -/

/-- The address of an address load. -/
def address : Field := ⟨15, 0⟩

/-- The three bits that mark a compute instruction. -/
def marker : Field := ⟨3, 13⟩

/-- The computation of a compute instruction. -/
def comp : Field := ⟨7, 6⟩

/-- The destination of a compute instruction. -/
def dest : Field := ⟨3, 3⟩

/-- The jump of a compute instruction. -/
def jump : Field := ⟨3, 0⟩

/-! ## Reading and placing -/

/-- The word with the lowest `size` bits set, all of them if `size` is 16 or more. -/
def mask (size : Nat) : Word := UInt16.ofNat (1 <<< size - 1)

/-- The word that has a code in a field and zeros elsewhere. -/
def place (field : Field) (code : Word) : Word :=
  (code &&& mask field.size) <<< UInt16.ofNat field.pos

/-- The code that a word has in a field. -/
def read (field : Field) (word : Word) : Word :=
  (word >>> UInt16.ofNat field.pos) &&& mask field.size

/-- A mask of at most 16 bits is the number below a power of two. -/
theorem toNat_mask {size : Nat} (h : size ≤ 16) : (mask size).toNat = 1 <<< size - 1 := by
  have hall : ∀ s ∈ List.range 17, (mask s).toNat = 1 <<< s - 1 := by decide
  exact hall size (List.mem_range.mpr (by omega))

/-- A code that has room in a field is placed whole. -/
theorem toNat_place {field : Field} {code : Word} (hfield : field.size + field.pos ≤ 16)
    (hpos : field.pos < 16) (hcode : code.toNat < 1 <<< field.size) :
    (field.place code).toNat = code.toNat <<< field.pos := by
  rw [Nat.one_shiftLeft] at hcode
  have hshift : (UInt16.ofNat field.pos).toNat = field.pos := by
    rw [UInt16.toNat_ofNat']
    omega
  have hlt : code.toNat * 2 ^ field.pos < 2 ^ 16 :=
    calc code.toNat * 2 ^ field.pos < 2 ^ field.size * 2 ^ field.pos :=
          Nat.mul_lt_mul_of_pos_right hcode (Nat.two_pow_pos _)
      _ = 2 ^ (field.size + field.pos) := (Nat.pow_add _ _ _).symm
      _ ≤ 2 ^ 16 := Nat.pow_le_pow_right (by decide) hfield
  rw [place, UInt16.toNat_shiftLeft, UInt16.toNat_and, toNat_mask (by omega),
    Nat.one_shiftLeft, Nat.and_two_pow_sub_one_eq_mod, Nat.mod_eq_of_lt hcode, hshift,
    Nat.mod_eq_of_lt hpos, Nat.shiftLeft_eq, Nat.mod_eq_of_lt hlt]

/-- The code that a word has in a field, as a number. -/
theorem toNat_read {field : Field} (word : Word) (hsize : field.size ≤ 16)
    (hpos : field.pos < 16) :
    (field.read word).toNat = word.toNat >>> field.pos % 1 <<< field.size := by
  have hshift : (UInt16.ofNat field.pos).toNat = field.pos := by
    rw [UInt16.toNat_ofNat']
    omega
  rw [read, UInt16.toNat_and, toNat_mask hsize, Nat.one_shiftLeft,
    Nat.and_two_pow_sub_one_eq_mod, UInt16.toNat_shiftRight, hshift, Nat.mod_eq_of_lt hpos]

end Field

namespace Word

/-- The 16 binary digits of a word, the highest first. -/
def binary (word : Word) : String := String.ofList (Text.binary 16 word.toNat)

theorem length_binary (word : Word) : word.binary.toList.length = 16 := by
  rw [binary, String.toList_ofList]
  exact Text.length_binary (by decide) word.toNat_lt

theorem ofDigitChars_binary (word : Word) :
    Nat.ofDigitChars 2 word.binary.toList 0 = word.toNat := by
  rw [binary, String.toList_ofList]
  exact Text.ofDigitChars_binary 16 word.toNat

theorem mem_binary {word : Word} {c : Char} (h : c ∈ word.binary.toList) : c = '0' ∨ c = '1' := by
  rw [binary, String.toList_ofList] at h
  exact Text.mem_binary h

/-- Whether a text is the binary numeral of a word, with zeros in front to make 16 digits. -/
def IsNumeral (word : Word) (text : String) : Prop :=
  text.toList.length = 16 ∧ (∀ c ∈ text.toList, c = '0' ∨ c = '1')
    ∧ Nat.ofDigitChars 2 text.toList 0 = word.toNat

theorem isNumeral_binary (word : Word) : word.IsNumeral word.binary :=
  ⟨word.length_binary, fun _ => mem_binary, word.ofDigitChars_binary⟩

end Word

/-- The largest address that fits into the address field. -/
def maxAddress : Address := (Field.mask Field.address.size).toUInt32

end Hack
