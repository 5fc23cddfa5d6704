import Hack.Proofs.Classification

/-!
# Reading and writing instructions

The text of an instruction is what the line that says it spells, without the blanks at its ends.
Most instructions are read back from their texts. The others are those that no line says: an operand
that is no symbol, and a compute instruction with a destination and a jump, or with neither.

* `Line.trims_of_parse` — the text of an instruction that was read
* `Instruction.isWritable_iff` — which instructions some line says
* `Line.parse_text` — reading and writing undo each other
-/

namespace Hack

open Grammar

variable {number line : Nat} {raw : String} {instruction : Instruction}

/-! ## Instructions that lines say -/

theorem Instruction.isWritable_iff :
    instruction.IsWritable
      ↔ (∃ operand, instruction = .address operand ∧ IsSymbol operand.toList)
        ∨ ∃ dest comp jump, instruction = .compute dest comp jump
            ∧ Xor (dest ≠ .null) (jump ≠ .null) := by
  cases instruction with
  | address operand =>
    have hsymbol : (address operand).IsWritable ↔ IsSymbol operand.toList := isSymbol_eq_true_iff
    simp [hsymbol]
  | compute dest comp jump =>
    have hxor : (compute dest comp jump).IsWritable ↔ Xor (dest ≠ .null) (jump ≠ .null) := Iff.rfl
    rw [hxor]
    constructor
    · intro h
      exact .inr ⟨dest, comp, jump, rfl, h⟩
    · rintro (⟨operand, hload, -⟩ | ⟨_, _, _, hcompute, h⟩)
      · cases hload
      · cases hcompute
        exact h

namespace Line

theorem parse_eq_instruction_iff :
    parse number raw = .ok ⟨line, .instruction instruction⟩
      ↔ line = number
        ∧ Statement.ofText (Text.trim raw.toList) = .ok (.instruction instruction) := by
  rw [parse_eq_ok_iff, Statement.ofText_eq_iff]

theorem trims_of_parse (h : parse number raw = .ok ⟨line, .instruction instruction⟩) :
    Text.Trims raw.toList instruction.text.toList := by
  obtain ⟨-, hread⟩ := parse_eq_instruction_iff.mp h
  exact Text.trim_eq_iff.mp (Instruction.text_of_ofText hread).1.symm

theorem parse_text_eq_iff :
    parse number instruction.text = .ok ⟨number, .instruction instruction⟩
      ↔ instruction.IsWritable := by
  rw [parse_eq_instruction_iff]
  constructor
  · rintro ⟨-, hread⟩
    exact (Instruction.text_of_ofText hread).2
  · intro h
    rw [Text.trim_of_not_blank (Instruction.isBlank_text h)]
    exact ⟨rfl, Instruction.ofText_text h⟩

/-- An instruction that was read has the text of its line without the blanks at the ends. An
instruction is read back from its text if its operand is a symbol, or if it has either a destination
or a jump, and in no other case. -/
theorem parse_text (number : Nat) :
    (∀ raw line instruction, parse number raw = .ok ⟨line, .instruction instruction⟩ →
        Text.Trims raw.toList instruction.text.toList)
      ∧ ∀ instruction,
        parse number instruction.text = .ok ⟨number, .instruction instruction⟩
          ↔ (∃ operand, instruction = .address operand ∧ IsSymbol operand.toList)
            ∨ ∃ dest comp jump, instruction = .compute dest comp jump
                ∧ Xor (dest ≠ .null) (jump ≠ .null) := by
  refine ⟨fun raw line instruction h => trims_of_parse h, fun instruction => ?_⟩
  rw [parse_text_eq_iff, Instruction.isWritable_iff]

theorem parse_text_indented :
    parse 7 "\u2003 AM=D|A\t" = .ok ⟨7, .instruction (.compute .am .dOrA .null)⟩
      ∧ Text.Trims "\u2003 AM=D|A\t".toList "AM=D|A".toList
      ∧ parse 7 "AM=D|A" = .ok ⟨7, .instruction (.compute .am .dOrA .null)⟩
      ∧ parse 7 "D=M;JMP" ≠ .ok ⟨7, .instruction (.compute .d .m .jmp)⟩ := by
  have hparse : parse 7 "\u2003 AM=D|A\t" = .ok ⟨7, .instruction (.compute .am .dOrA .null)⟩ := by
    decide
  obtain ⟨htrims, hback⟩ := parse_text 7
  refine ⟨hparse, htrims _ _ _ hparse, ?_, ?_⟩
  · exact (hback (.compute .am .dOrA .null)).mpr (.inr ⟨.am, .dOrA, .null, rfl, by decide⟩)
  · intro h
    rcases (hback (.compute .d .m .jmp)).mp h with ⟨operand, hload, -⟩ | ⟨_, _, _, hsame, hxor⟩
    · cases hload
    · cases hsame
      exact absurd hxor (by decide)

end Line

end Hack
