import Mathlib.Logic.Basic
import Hack.Line.Grammar
import Hack.Proofs.FirstError

/-!
# Instructions as lines spell them

The text of an instruction reads as the instruction, for those instructions that some line says.

* `Instruction.text_of_ofText` — the text of an instruction is what it was read from
* `Instruction.ofText_text` — the text of an instruction reads as the instruction
-/

namespace Hack

open Grammar

/-! ## Symbols and mnemonics -/

namespace Grammar

variable {c : Char} {text : List Char}

theorem isPartChar_of_isSymbolChar (h : isSymbolChar c = true) : isPartChar c = true := by
  simp only [isSymbolChar, isReserved, isPartChar] at h ⊢
  simp_all

theorem isPart_of_isSymbol (h : isSymbol text = true) : isPart text = true := by
  obtain ⟨hne, hall⟩ := isSymbol_iff.mp h
  exact isPart_iff.mpr ⟨hne, fun c hc => isPartChar_of_isSymbolChar (hall c hc)⟩

theorem isBlank_of_isSymbol (h : isSymbol text = true) : ∀ c ∈ text, Text.isBlank c = false := by
  intro c hc
  have hsymbol := (isSymbol_iff.mp h).2 c hc
  simp only [isSymbolChar, Bool.and_eq_true, Bool.not_eq_true'] at hsymbol
  exact hsymbol.2

theorem isReserved_head_of_isSymbol {right : List Char} (h : isSymbol text = true) :
    ∀ c ∈ (text ++ right).head?, isReserved c = false := by
  obtain ⟨hne, hall⟩ := isSymbol_iff.mp h
  cases text with
  | nil => exact absurd rfl hne
  | cons first text =>
    intro c hc
    cases hc
    have hsymbol := hall first List.mem_cons_self
    simp only [isSymbolChar, Bool.and_eq_true, Bool.not_eq_true'] at hsymbol
    exact hsymbol.1

theorem mnemonic_eq_ok_iff {α : Type} [Mnemonic α] {spelling : List Char} {a : α} :
    mnemonic α spelling = .ok a
      ↔ a ∈ Mnemonic.order ∧ (Mnemonic.text a).toList = spelling := by
  rw [← Mnemonic.read?_eq_some_iff, mnemonic]
  cases Mnemonic.read? (α := α) spelling <;> simp

/-! ## Forms -/

/-- Whether both parts of a form are spelled like symbols. -/
def Form.IsPlain : Form → Prop
  | .assignment left right | .branch left right => isSymbol left = true ∧ isSymbol right = true

namespace Form

variable {form : Form}

theorem IsPlain.isProper (h : form.IsPlain) : form.isProper = true := by
  cases form with
  | assignment left right =>
    exact Bool.and_eq_true_iff.mpr ⟨isPart_of_isSymbol h.1, isPart_of_isSymbol h.2⟩
  | branch left right =>
    exact Bool.and_eq_true_iff.mpr ⟨isPart_of_isSymbol h.1, isPart_of_isSymbol h.2⟩

theorem IsPlain.isReserved_head (h : form.IsPlain) :
    ∀ c ∈ form.text.head?, isReserved c = false := by
  cases form with
  | assignment left right => exact isReserved_head_of_isSymbol h.1
  | branch left right => exact isReserved_head_of_isSymbol h.1

theorem IsPlain.isBlank_text (h : form.IsPlain) : ∀ c ∈ form.text, Text.isBlank c = false := by
  have hseparator : ∀ {left right : List Char} {separator : Char}, isSymbol left = true →
      isSymbol right = true → Text.isBlank separator = false →
      ∀ c ∈ left ++ separator :: right, Text.isBlank c = false := by
    intro left right separator hleft hright hseparator c hc
    rcases List.mem_append.mp hc with hc | hc
    · exact isBlank_of_isSymbol hleft c hc
    · rcases List.mem_cons.mp hc with rfl | hc
      · exact hseparator
      · exact isBlank_of_isSymbol hright c hc
  cases form with
  | assignment left right => exact hseparator h.1 h.2 (by decide)
  | branch left right => exact hseparator h.1 h.2 (by decide)

end Form

/-- A form that is spelled with symbols is not taken for anything else. -/
theorem ofText_form {form : Form} {instruction : Instruction} (hplain : form.IsPlain)
    (h : form.instruction = .ok instruction) :
    Statement.ofText form.text = .ok (.instruction instruction) := by
  have hhead := hplain.isReserved_head
  have hcompute : Grammar.compute form.text = .ok instruction := by
    rw [Grammar.compute, readForm_text hplain.isProper]
    exact h
  -- whatever else a line says starts with a reserved character, or is empty
  unfold Statement.ofText
  split
  · next htext => rw [htext] at hcompute; cases hcompute
  · next htext => exact absurd (hhead '/' (by rw [htext]; rfl)) (by decide)
  · next htext => exact absurd (hhead '(' (by rw [htext]; rfl)) (by decide)
  · next htext => exact absurd (hhead '@' (by rw [htext]; rfl)) (by decide)
  · rw [hcompute]

end Grammar

/-! ## The texts of mnemonics -/

theorem Comp.isSymbol_text (comp : Comp) : isSymbol comp.text.toList = true := by
  cases comp <;> decide

theorem Dest.isSymbol_text {dest : Dest} (h : dest ≠ .null) : isSymbol dest.text.toList = true := by
  cases dest with
  | null => exact absurd rfl h
  | _ => decide

theorem Jump.isSymbol_text {jump : Jump} (h : jump ≠ .null) : isSymbol jump.text.toList = true := by
  cases jump with
  | null => exact absurd rfl h
  | _ => decide

/-! ## Instructions -/

namespace Instruction

variable {text : List Char} {instruction : Instruction}

/-- Whether some line says the instruction. -/
def IsWritable : Instruction → Prop
  | .address operand => isSymbol operand.toList = true
  | .compute dest _ jump => Xor (dest ≠ .null) (jump ≠ .null)

theorem text_assignment {dest : Dest} (comp : Comp) (h : dest ≠ .null) :
    (compute dest comp .null).text.toList
      = (Form.assignment dest.text.toList comp.text.toList).text := by
  simp [Instruction.text, Form.text, h]

theorem text_branch (comp : Comp) {jump : Jump} (h : jump ≠ .null) :
    (compute .null comp jump).text.toList
      = (Form.branch comp.text.toList jump.text.toList).text := by
  simp [Instruction.text, Form.text, h]

/-! ### From a line to the instruction -/

theorem text_of_compute (h : Grammar.compute text = .ok instruction) :
    instruction.text.toList = text ∧ instruction.IsWritable := by
  obtain ⟨form, hform, hread⟩ := bind_eq_ok_iff.mp h
  obtain ⟨rfl, hproper⟩ := readForm_eq_ok_iff.mp hform
  cases form with
  | assignment left right =>
    obtain ⟨hleft, -⟩ := Bool.and_eq_true_iff.mp hproper
    obtain ⟨dest, hdest, hread⟩ := bind_eq_ok_iff.mp hread
    obtain ⟨comp, hcomp, hread⟩ := bind_eq_ok_iff.mp hread
    cases hread
    obtain ⟨-, rfl⟩ := mnemonic_eq_ok_iff.mp hdest
    obtain ⟨-, rfl⟩ := mnemonic_eq_ok_iff.mp hcomp
    have hnull : dest ≠ .null := by
      rintro rfl
      exact absurd hleft (by decide)
    exact ⟨text_assignment comp hnull, .inl ⟨hnull, not_not_intro rfl⟩⟩
  | branch left right =>
    obtain ⟨-, hright⟩ := Bool.and_eq_true_iff.mp hproper
    obtain ⟨comp, hcomp, hread⟩ := bind_eq_ok_iff.mp hread
    obtain ⟨jump, hjump, hread⟩ := bind_eq_ok_iff.mp hread
    cases hread
    obtain ⟨-, rfl⟩ := mnemonic_eq_ok_iff.mp hcomp
    obtain ⟨-, rfl⟩ := mnemonic_eq_ok_iff.mp hjump
    have hnull : jump ≠ .null := by
      rintro rfl
      exact absurd hright (by decide)
    exact ⟨text_branch comp hnull, .inr ⟨hnull, not_not_intro rfl⟩⟩

/-- The text of an instruction is what it was read from. -/
theorem text_of_ofText (h : Statement.ofText text = .ok (.instruction instruction)) :
    instruction.text.toList = text ∧ instruction.IsWritable := by
  unfold Statement.ofText at h
  split at h
  · cases h
  · cases h
  · split at h <;> cases h
  · next operand =>
    split at h
    · next hsymbol =>
      cases h
      refine ⟨by simp [Instruction.text], ?_⟩
      rw [IsWritable, String.toList_ofList]
      exact hsymbol
    · cases h
  · split at h
    · next found hfound =>
      cases h
      exact text_of_compute hfound
    · cases h

/-! ### From the instruction to a line -/

theorem exists_form {dest : Dest} {comp : Comp} {jump : Jump}
    (h : Xor (dest ≠ .null) (jump ≠ .null)) :
    ∃ form : Form, (compute dest comp jump).text.toList = form.text ∧ form.IsPlain
      ∧ form.instruction = .ok (.compute dest comp jump) := by
  have hcomp : mnemonic Comp comp.text.toList = .ok comp :=
    mnemonic_eq_ok_iff.mpr ⟨comp.mem_order, rfl⟩
  rcases h with ⟨hdest, hjump⟩ | ⟨hjump, hdest⟩
  · obtain rfl := not_not.mp hjump
    refine ⟨_, text_assignment comp hdest, ⟨Dest.isSymbol_text hdest, comp.isSymbol_text⟩, ?_⟩
    exact bind_eq_ok_iff.mpr
      ⟨dest, mnemonic_eq_ok_iff.mpr ⟨Dest.mem_order_iff.mpr hdest, rfl⟩,
        bind_eq_ok_iff.mpr ⟨comp, hcomp, rfl⟩⟩
  · obtain rfl := not_not.mp hdest
    refine ⟨_, text_branch comp hjump, ⟨comp.isSymbol_text, Jump.isSymbol_text hjump⟩, ?_⟩
    exact bind_eq_ok_iff.mpr
      ⟨comp, hcomp, bind_eq_ok_iff.mpr
        ⟨jump, mnemonic_eq_ok_iff.mpr ⟨Jump.mem_order_iff.mpr hjump, rfl⟩, rfl⟩⟩

/-- The text of an instruction reads as the instruction. -/
theorem ofText_text (h : instruction.IsWritable) :
    Statement.ofText instruction.text.toList = .ok (.instruction instruction) := by
  cases instruction with
  | address operand =>
    have htext : (address operand).text.toList = '@' :: operand.toList := by
      simp [Instruction.text]
    have hsymbol : isSymbol operand.toList = true := h
    rw [htext, Statement.ofText, if_pos hsymbol, String.ofList_toList]
  | compute dest comp jump =>
    obtain ⟨form, htext, hplain, hform⟩ := exists_form h
    rw [htext]
    exact ofText_form hplain hform

theorem isBlank_text (h : instruction.IsWritable) :
    ∀ c ∈ instruction.text.toList, Text.isBlank c = false := by
  cases instruction with
  | address operand =>
    intro c hc
    rw [Instruction.text, String.toList_append] at hc
    rcases List.mem_append.mp hc with hc | hc
    · obtain rfl := List.mem_singleton.mp hc
      decide
    · exact isBlank_of_isSymbol h c hc
  | compute dest comp jump =>
    obtain ⟨form, htext, hplain, -⟩ := exists_form h
    rw [htext]
    exact hplain.isBlank_text

end Instruction

end Hack
