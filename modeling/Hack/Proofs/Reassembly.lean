import Hack.Instruction.Disassembly
import Hack.Proofs.Denotation
import Hack.Proofs.InstructionText
import Hack.Proofs.Reading

/-!
# Disassembling and assembling again

What assembling gives is disassembled into a source that is assembled to the same words.

* `Program.value?_numeral` — a decimal numeral denotes its number, where no label has its spelling
* `assembled_of_assemble` — the words that assembling gives
* `assemble_disassemble` — disassembling and assembling again changes nothing
-/

namespace Hack

open Program

variable {source : String} {words : List Word} {word : Word}

/-! ## Numerals -/

theorem isSymbolChar_of_isDigit {c : Char} (h : c.isDigit = true) :
    Grammar.isSymbolChar c = true := by
  have hreserved : Grammar.isReserved c = false := by
    have hnone : ∀ r ∈ ['@', '(', ')', '=', ';', '/'], r.isDigit = false := by simp
    refine Bool.eq_false_iff.mpr fun hc => ?_
    have hdigit := hnone c (List.contains_iff_mem.mp hc)
    rw [h] at hdigit
    cases hdigit
  have hblank : Text.isBlank c = false := by
    have hrange : 48 ≤ c.toNat ∧ c.toNat ≤ 57 := by
      simpa [Char.isDigit, UInt32.le_iff_toNat_le] using h
    have hnone : ∀ range ∈ Text.blankRanges, range.2 < 48 ∨ 57 < range.1 := by
      simp [Text.blankRanges]
    refine List.any_eq_false.mpr fun range hmem hblank => ?_
    have hapart := hnone range hmem
    simp only [Bool.and_eq_true, decide_eq_true_eq] at hblank
    omega
  rw [Grammar.isSymbolChar, hreserved, hblank]
  rfl

theorem isSymbol_numeral (number : Nat) : Grammar.isSymbol (toString number).toList = true :=
  Grammar.isSymbol_iff.mpr
    ⟨by simp, fun c hc => isSymbolChar_of_isDigit (Text.isDigit_of_mem_toString c hc)⟩

theorem startsWithDigit_numeral (number : Nat) : startsWithDigit (toString number) = true := by
  have hall : ∀ c ∈ (toString number).toList, c.isDigit = true := Text.isDigit_of_mem_toString
  unfold startsWithDigit
  cases h : (toString number).toList with
  | nil => exact absurd h (by simp)
  | cons c rest =>
    rw [h] at hall
    exact hall c List.mem_cons_self

theorem literalValue?_numeral {number : Nat} (h : number < UInt32.size) :
    literalValue? (toString number) = some number := by
  have hdecimal : Text.isDecimal (toString number).toList = true := by
    rw [Text.isDecimal, List.all_eq_true.mpr Text.isDigit_of_mem_toString]
    simp
  rw [literalValue?, Text.ofDigitChars_toString]
  exact if_pos ⟨hdecimal, h⟩

/-- A numeral denotes its number, where no label has its spelling. -/
theorem Program.value?_numeral {lines : List Line} {number : Nat} (h : number < UInt32.size)
    (hlabel : labelValue? (toString number) lines = none) :
    value? lines (toString number) = some number := by
  rw [value?_of_literal (startsWithDigit_numeral number) hlabel, literalValue?_numeral h]

/-! ## The words that assembling gives -/

/-- A word that assembling gives for some instruction. -/
inductive Assembled : Word → Prop
  | load {address : Address} (h : address ≤ maxAddress) : Assembled (Word.load address)
  | compute {dest : Dest} {comp : Comp} {jump : Jump}
      (h : Xor (dest ≠ .null) (jump ≠ .null)) : Assembled (Word.compute dest comp jump)

theorem isWritable_of_readLines {lines : List Line} (h : readLines source = .ok lines) :
    ∀ numbered ∈ instructions lines, numbered.2.IsWritable := by
  rintro ⟨number, instruction⟩ hmem
  obtain ⟨line, hline, hinstruction⟩ := List.mem_filterMap.mp hmem
  obtain ⟨⟨raw, n⟩, -, hread⟩ := exists_of_mem_right (mapM_eq_ok_iff.mp h) hline
  have hread : Line.ofChars n raw = .ok line := hread
  unfold Line.ofChars at hread
  split at hread
  · next statement hstatement =>
    cases hread
    cases statement with
    | instruction said =>
      cases hinstruction
      exact (Instruction.text_of_ofText hstatement).2
    | _ => cases hinstruction
  · cases hread

theorem assembled_of_assemble (h : assemble source = .ok words) :
    ∀ word ∈ words, Assembled word := by
  cases hread : readLines source with
  | error error =>
    rw [assemble_of_unreadable hread] at h
    cases h
  | ok lines =>
    intro word hmem
    rw [assemble_of_lines hread] at h
    obtain ⟨⟨number, instruction⟩, hinstruction, hword⟩ :=
      exists_of_mem_right (mapM_eq_ok_iff.mp h) hmem
    have hwritable := isWritable_of_readLines hread _ hinstruction
    cases instruction with
    | compute dest comp jump =>
      cases hword
      exact .compute hwritable
    | address operand =>
      obtain ⟨address, haddress, hle⟩ := (loads_iff_exists_word number operand).mpr ⟨word, hword⟩
      rw [wordAmong_address, haddress] at hword
      have hload : loadWord number address = .ok word := hword
      rw [loadWord, if_pos hle] at hload
      cases hload
      exact .load hle

/-! ## Reassembling -/

theorem labelValue?_numbered (name : String) (first : Nat) (program : List Instruction) :
    labelValue? name (numbered first (program.map .instruction)) = none := by
  induction program generalizing first with
  | nil => rfl
  | cons instruction program ih =>
    rw [List.map_cons, numbered, labelValue?, ih]
    exact if_neg (by simp)

/-- Whether a word is disassembled into an instruction that some line says, and that has the word
in every program without labels. -/
structure Disassembles (instruction : Instruction) (word : Word) : Prop where
  ofWord? : Instruction.ofWord? word = some instruction
  writable : instruction.IsWritable
  encodes : ∀ lines, (∀ name, labelValue? name lines = none) → ∀ number,
    (boundTable lines).wordAmong (instructions lines) (number, instruction) = .ok word

theorem Assembled.exists_disassembles (h : Assembled word) :
    ∃ instruction, Disassembles instruction word := by
  cases h with
  | @load address hle =>
    -- the numeral is neither predefined nor a label, so it is read as a literal
    refine ⟨_, Instruction.ofWord?_load hle, isSymbol_numeral _, ?_⟩
    intro lines hlabels number
    have haddress : address? lines (toString address.toNat) = some address := by
      rw [address?, value?_numeral address.toNat_lt (hlabels _), Option.map_some,
        UInt32.ofNat_toNat]
    rw [wordAmong_address, haddress]
    exact if_pos hle
  | @compute dest comp jump hxor =>
    exact ⟨_, Instruction.ofWord?_compute dest comp jump, hxor, fun _ _ _ => rfl⟩

theorem exists_program (h : ∀ word ∈ words, Assembled word) :
    ∃ program, List.Forall₂ Disassembles program words := by
  induction words with
  | nil => exact ⟨[], .nil⟩
  | cons word words ih =>
    obtain ⟨hword, hwords⟩ := List.forall_mem_cons.mp h
    obtain ⟨instruction, hinstruction⟩ := hword.exists_disassembles
    obtain ⟨program, hprogram⟩ := ih hwords
    exact ⟨instruction :: program, .cons hinstruction hprogram⟩

theorem disassemble?_of_program {program : List Instruction}
    (h : List.Forall₂ Disassembles program words) :
    disassemble? words
      = some (String.join (program.map fun instruction => instruction.text ++ "\n")) := by
  have hmapM : words.mapM Instruction.ofWord? = some program := by
    induction h with
    | nil => rfl
    | cons hinstruction _ ih => simp [hinstruction.ofWord?, ih]
  rw [disassemble?, hmapM]
  rfl

theorem readLines_program {program : List Instruction}
    (h : ∀ instruction ∈ program, instruction.IsWritable) :
    readLines (String.join (program.map fun instruction => instruction.text ++ "\n"))
      = .ok (numbered 1 (program.map .instruction)) := by
  have hspells : List.Forall₂ Spells (program.map Instruction.text) (program.map .instruction) := by
    rw [List.forall₂_map_left_iff, List.forall₂_map_right_iff, List.forall₂_same]
    intro instruction hmem
    have hwritable := h instruction hmem
    exact spells_of_not_blank (Instruction.isBlank_text hwritable)
      (Instruction.ofText_text hwritable)
  have hread := readLines_join hspells
  rw [List.map_map] at hread
  exact hread

theorem assemble_program {program : List Instruction}
    (h : List.Forall₂ Disassembles program words) :
    assemble (String.join (program.map fun instruction => instruction.text ++ "\n"))
      = .ok words := by
  have hwritable : ∀ instruction ∈ program, instruction.IsWritable := by
    intro instruction hmem
    obtain ⟨word, -, hword⟩ := exists_of_mem_right h.flip hmem
    exact hword.writable
  refine assemble_of_words (readLines_program hwritable) ?_
  rw [map_snd_instructions_numbered]
  exact h.imp fun _ _ hword => hword.encodes _ fun name => labelValue?_numbered name 1 program

/-! ## The fields of the words -/

theorem Assembled.fields (h : Assembled word) :
    word.toNat < 32768
      ∨ (Field.marker.read word = 7
          ∧ (∃! comp : Comp, comp.code = Field.comp.read word)
          ∧ Xor (Field.dest.read word ≠ 0) (Field.jump.read word ≠ 0)) := by
  cases h with
  | @load address hle =>
    refine .inl ?_
    rw [Word.toNat_load hle]
    exact Nat.lt_succ_of_le (UInt32.le_iff_toNat_le.mp hle)
  | @compute dest comp jump hxor =>
    obtain ⟨hmarker, hcomp, hdest, hjump⟩ := Word.read_compute dest comp jump
    have hdest' : dest.code = 0 ↔ dest = .null := by cases dest <;> decide
    have hjump' : jump.code = 0 ↔ jump = .null := by cases jump <;> decide
    refine .inr ⟨hmarker, ⟨comp, hcomp.symm, ?_⟩, ?_⟩
    · intro other hother
      exact Option.some.inj ((Mnemonic.ofCode?_eq_some_iff.mpr (hother.trans hcomp)).symm.trans
        (Mnemonic.ofCode?_eq_some_iff.mpr rfl))
    · rw [hdest, hjump, ne_eq, ne_eq, hdest', hjump']
      exact hxor

/-- What assembling gives is disassembled into a source that is assembled to the same words. -/
theorem assemble_disassemble (h : assemble source = .ok words) :
    (∀ word ∈ words, word.toNat < 32768
      ∨ (Field.marker.read word = 7
          ∧ (∃! comp : Comp, comp.code = Field.comp.read word)
          ∧ Xor (Field.dest.read word ≠ 0) (Field.jump.read word ≠ 0)))
      ∧ ∃ text, disassemble? words = some text ∧ assemble text = .ok words := by
  have hassembled := assembled_of_assemble h
  obtain ⟨program, hprogram⟩ := exists_program hassembled
  exact ⟨fun word hmem => (hassembled word hmem).fields,
    _, disassemble?_of_program hprogram, assemble_program hprogram⟩

/-- A label, a variable, and compute instructions of both forms. -/
def countdown : String := "(x)\n  @i\nMD=M-1\n@x\nD;JGT"

/-- The lines of `countdown`. -/
def countdownLines : List Line :=
  [⟨1, .label "x"⟩, ⟨2, .instruction (.address "i")⟩,
    ⟨3, .instruction (.compute .md .mMinusOne .null)⟩, ⟨4, .instruction (.address "x")⟩,
    ⟨5, .instruction (.compute .null .d .jgt)⟩]

theorem assemble_disassemble_countdown :
    assemble countdown = .ok [16, 64664, 0, 58113]
      ∧ ∃ text, disassemble? [16, 64664, 0, 58113] = some text
          ∧ assemble text = .ok [16, 64664, 0, 58113] := by
  have hread : readLines countdown = .ok countdownLines := by decide
  have hok : assemble countdown = .ok [16, 64664, 0, 58113] := by
    rw [assemble_eq_denoted hread (by decide)]
    decide
  exact ⟨hok, (assemble_disassemble hok).2⟩

end Hack
