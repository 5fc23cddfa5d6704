import Mathlib.Logic.Basic
import Hack.Proofs.InstructionText

/-!
# What a line says

The text of a line without the blanks at its ends decides what the line says, and what is wrong with
it. The first characters tell blank lines, comments, labels and address loads apart; every other
text is a compute instruction or nothing.

* `Grammar.PairReads`, `ComputeReads`, `Statement.Reads` — what a text says, read off the text
* `Statement.ofText_eq_iff` — this is what it is read as
* `Line.parse_iff_text` — blank lines, comments, labels and address loads, and their faults
* `Line.parse_of_isCompute` — compute instructions and their faults
-/

namespace Hack

open Grammar

variable {text : List Char} {fault : Fault}

/-! ## Symbols and parts -/

namespace Grammar

/-- A symbol is not empty, and has no blanks in it and no characters that separate or mark. -/
def IsSymbol (symbol : List Char) : Prop :=
  symbol ≠ [] ∧ ∀ c ∈ symbol, Text.isBlank c = false ∧ c ∉ ['@', '(', ')', '=', ';', '/']

/-- A part of a compute instruction is not empty, and has no blanks and no separators in it. -/
def IsPart (part : List Char) : Prop :=
  part ≠ [] ∧ ∀ c ∈ part, Text.isBlank c = false ∧ c ≠ '=' ∧ c ≠ ';'

theorem isSymbol_eq_true_iff {symbol : List Char} : isSymbol symbol = true ↔ IsSymbol symbol := by
  have hchar : ∀ c, isSymbolChar c = true
      ↔ Text.isBlank c = false ∧ c ∉ ['@', '(', ')', '=', ';', '/'] := by
    intro c
    rw [isSymbolChar, isReserved, Bool.and_eq_true, Bool.not_eq_true', Bool.not_eq_true',
      and_comm, List.contains_eq_mem, decide_eq_false_iff_not]
  rw [isSymbol_iff, IsSymbol]
  exact and_congr_right fun _ => forall₂_congr fun c _ => hchar c

theorem isPart_eq_true_iff {part : List Char} : isPart part = true ↔ IsPart part := by
  have hchar : ∀ c, isPartChar c = true ↔ Text.isBlank c = false ∧ c ≠ '=' ∧ c ≠ ';' := by
    intro c
    rw [isPartChar, Bool.and_eq_true, Bool.and_eq_true, bne_iff_ne, bne_iff_ne,
      Bool.not_eq_true', and_comm]
  rw [isPart_iff, IsPart]
  exact and_congr_right fun _ => forall₂_congr fun c _ => hchar c

instance (part : List Char) : Decidable (IsPart part) :=
  decidable_of_iff (isPart part = true) isPart_eq_true_iff

theorem isProper_assignment_iff {left right : List Char} :
    (Form.assignment left right).isProper = true ↔ IsPart left ∧ IsPart right := by
  rw [Form.isProper, Bool.and_eq_true, isPart_eq_true_iff, isPart_eq_true_iff]

theorem isProper_branch_iff {left right : List Char} :
    (Form.branch left right).isProper = true ↔ IsPart left ∧ IsPart right := by
  rw [Form.isProper, Bool.and_eq_true, isPart_eq_true_iff, isPart_eq_true_iff]

/-! ## Pairs of mnemonics -/

section

variable {α β : Type} [Mnemonic α] [Mnemonic β] {make : α → β → Instruction}
  {left right : List Char} {read : Except Fault Instruction}

theorem mnemonic_eq_error (h : ∀ a ∈ (Mnemonic.order : List α), (Mnemonic.text a).toList ≠ left) :
    mnemonic α left = .error (.ofMnemonic (String.ofList left) (Mnemonic.name α)) := by
  cases hread : Mnemonic.read? (α := α) left with
  | none => rw [mnemonic, hread]
  | some a =>
    obtain ⟨hmem, htext⟩ := Mnemonic.read?_eq_some_iff.mp hread
    exact absurd htext (h a hmem)

/-- What the two parts of a compute instruction say in the order of the source: the instruction
that is made of them, or which of them is the first that spells nothing. -/
inductive PairReads (make : α → β → Instruction) :
    List Char → List Char → Except Fault Instruction → Prop
  | known {a : α} {b : β} (hfirst : a ∈ Mnemonic.order) (hsecond : b ∈ Mnemonic.order) :
      PairReads make (Mnemonic.text a).toList (Mnemonic.text b).toList (.ok (make a b))
  | unknownFirst {left right : List Char}
      (hfirst : ∀ a ∈ (Mnemonic.order : List α), (Mnemonic.text a).toList ≠ left) :
      PairReads make left right (.error (.unknownMnemonic (Mnemonic.name α) (String.ofList left)))
  | unknownSecond {a : α} {right : List Char} (hfirst : a ∈ Mnemonic.order)
      (hsecond : ∀ b ∈ (Mnemonic.order : List β), (Mnemonic.text b).toList ≠ right) :
      PairReads make (Mnemonic.text a).toList right
        (.error (.unknownMnemonic (Mnemonic.name β) (String.ofList right)))

/-- Reads two parts in the order of the source. -/
def readPair (make : α → β → Instruction) (left right : List Char) :
    Except Diagnostic Instruction := do
  let a ← mnemonic α left
  let b ← mnemonic β right
  return make a b

theorem PairReads.readPair_eq (h : PairReads make left right read) (text : String) :
    (readPair make left right).mapError (Fault.ofDiagnostic text) = read := by
  cases h with
  | known hfirst hsecond =>
    rw [readPair, mnemonic_eq_ok_iff.mpr ⟨hfirst, rfl⟩, mnemonic_eq_ok_iff.mpr ⟨hsecond, rfl⟩]
    rfl
  | unknownFirst hfirst =>
    rw [readPair, mnemonic_eq_error hfirst]
    rfl
  | unknownSecond hfirst hsecond =>
    rw [readPair, mnemonic_eq_ok_iff.mpr ⟨hfirst, rfl⟩, mnemonic_eq_error hsecond]
    rfl

theorem exists_pairReads (make : α → β → Instruction) (left right : List Char) :
    ∃ read, PairReads make left right read := by
  by_cases hfirst : ∀ a ∈ (Mnemonic.order : List α), (Mnemonic.text a).toList ≠ left
  · exact ⟨_, .unknownFirst hfirst⟩
  · push Not at hfirst
    obtain ⟨a, ha, rfl⟩ := hfirst
    by_cases hsecond : ∀ b ∈ (Mnemonic.order : List β), (Mnemonic.text b).toList ≠ right
    · exact ⟨_, .unknownSecond ha hsecond⟩
    · push Not at hsecond
      obtain ⟨b, hb, rfl⟩ := hsecond
      exact ⟨_, .known ha hb⟩

end

end Grammar

/-! ## Compute instructions -/

/-- What a text says as a compute instruction: nothing if it is not made of two parts and a
separator, and else what its parts say. -/
inductive ComputeReads : List Char → Except Fault Instruction → Prop
  | formless {text : List Char}
      (h : ∀ left right, IsPart left → IsPart right →
        text ≠ left ++ '=' :: right ∧ text ≠ left ++ ';' :: right) :
      ComputeReads text (.error (.invalidSyntax (String.ofList text)))
  | assignment {left right : List Char} {read : Except Fault Instruction}
      (hleft : IsPart left) (hright : IsPart right)
      (h : PairReads (fun (dest : Dest) (comp : Comp) => .compute dest comp .null) left right
        read) :
      ComputeReads (left ++ '=' :: right) read
  | branch {left right : List Char} {read : Except Fault Instruction}
      (hleft : IsPart left) (hright : IsPart right)
      (h : PairReads (fun (comp : Comp) (jump : Jump) => .compute .null comp jump) left right
        read) :
      ComputeReads (left ++ ';' :: right) read

theorem ComputeReads.compute_eq {read : Except Fault Instruction} (h : ComputeReads text read) :
    (compute text).mapError (Fault.ofDiagnostic (String.ofList text)) = read := by
  cases h with
  | formless h =>
    cases hform : readForm text with
    | error diagnostic =>
      obtain ⟨rest, rule, -, -, hdiagnostic⟩ := readForm_eq_error hform
      have hcause : diagnostic.cause = .rule (String.ofList rest) rule := by
        rw [hdiagnostic, Diagnostic.cause_addContext, Diagnostic.cause_addRule]
        rfl
      rw [compute, hform]
      simp only [bind, Except.bind, Except.mapError, Fault.ofDiagnostic, hcause]
    | ok form =>
      obtain ⟨rfl, hproper⟩ := readForm_eq_ok_iff.mp hform
      cases form with
      | assignment left right =>
        obtain ⟨hleft, hright⟩ := isProper_assignment_iff.mp hproper
        exact absurd rfl (h left right hleft hright).1
      | branch left right =>
        obtain ⟨hleft, hright⟩ := isProper_branch_iff.mp hproper
        exact absurd rfl (h left right hleft hright).2
  | @assignment left right _ hleft hright h =>
    have hform := readForm_text (isProper_assignment_iff.mpr ⟨hleft, hright⟩)
    rw [Form.text] at hform
    rw [compute, hform]
    exact h.readPair_eq _
  | @branch left right _ hleft hright h =>
    have hform := readForm_text (isProper_branch_iff.mpr ⟨hleft, hright⟩)
    rw [Form.text] at hform
    rw [compute, hform]
    exact h.readPair_eq _

theorem exists_computeReads (text : List Char) : ∃ read, ComputeReads text read := by
  cases hform : readForm text with
  | error diagnostic =>
    refine ⟨_, .formless fun left right hleft hright => ⟨?_, ?_⟩⟩
    · rintro rfl
      have hsome := readForm_text (isProper_assignment_iff.mpr ⟨hleft, hright⟩)
      rw [Form.text, hform] at hsome
      cases hsome
    · rintro rfl
      have hsome := readForm_text (isProper_branch_iff.mpr ⟨hleft, hright⟩)
      rw [Form.text, hform] at hsome
      cases hsome
  | ok form =>
    obtain ⟨rfl, hproper⟩ := readForm_eq_ok_iff.mp hform
    cases form with
    | assignment left right =>
      obtain ⟨hleft, hright⟩ := isProper_assignment_iff.mp hproper
      obtain ⟨read, h⟩ := exists_pairReads
        (fun (dest : Dest) (comp : Comp) => .compute dest comp .null) left right
      exact ⟨read, .assignment hleft hright h⟩
    | branch left right =>
      obtain ⟨hleft, hright⟩ := isProper_branch_iff.mp hproper
      obtain ⟨read, h⟩ := exists_pairReads
        (fun (comp : Comp) (jump : Jump) => .compute .null comp jump) left right
      exact ⟨read, .branch hleft hright h⟩

theorem ComputeReads.exists_of_ok {found : Instruction} (h : ComputeReads text (.ok found)) :
    ∃ dest comp jump, found = .compute dest comp jump := by
  cases h with
  | assignment _ _ h => cases h with | known _ _ => exact ⟨_, _, _, rfl⟩
  | branch _ _ h => cases h with | known _ _ => exact ⟨_, _, _, rfl⟩

theorem ComputeReads.cases_of_error (h : ComputeReads text (.error fault)) :
    fault = .invalidSyntax (String.ofList text)
      ∨ ∃ part spelling, fault = .unknownMnemonic part spelling := by
  cases h with
  | formless _ => exact .inl rfl
  | assignment _ _ h => cases h <;> exact .inr ⟨_, _, rfl⟩
  | branch _ _ h => cases h <;> exact .inr ⟨_, _, rfl⟩

/-! ## Statements -/

/-- Whether a text is neither blank nor a comment, and starts neither like a label nor like an
address load. -/
def IsCompute (text : List Char) : Prop :=
  text ≠ [] ∧ ¬ ['/', '/'] <+: text ∧ text.head? ≠ some '(' ∧ text.head? ≠ some '@'

instance (text : List Char) : Decidable (IsCompute text) := inferInstanceAs (Decidable (_ ∧ _))

namespace Statement

/-- What a text says. -/
inductive Reads : List Char → Except Fault Statement → Prop
  | blank : Reads [] (.ok .blank)
  | comment (rest : List Char) : Reads ('/' :: '/' :: rest) (.ok .comment)
  | label {name : String} (h : IsSymbol name.toList) :
      Reads ('(' :: (name.toList ++ [')'])) (.ok (.label name))
  | malformedLabel {rest : List Char} (h : ∀ name, IsSymbol name → rest ≠ name ++ [')']) :
      Reads ('(' :: rest) (.error (.malformedLabel (String.ofList ('(' :: rest))))
  | address {operand : String} (h : IsSymbol operand.toList) :
      Reads ('@' :: operand.toList) (.ok (.instruction (.address operand)))
  | malformedAddress {rest : List Char} (h : ¬ IsSymbol rest) :
      Reads ('@' :: rest) (.error (.malformedAddress (String.ofList ('@' :: rest))))
  | compute {text : List Char} {found : Instruction} (hshape : IsCompute text)
      (h : ComputeReads text (.ok found)) : Reads text (.ok (.instruction found))
  | fault {text : List Char} {fault : Fault} (hshape : IsCompute text)
      (h : ComputeReads text (.error fault)) : Reads text (.error fault)

/-- The shapes of a text, which its first characters tell apart. -/
theorem shape_cases (text : List Char) :
    text = [] ∨ (∃ rest, text = '/' :: '/' :: rest) ∨ (∃ rest, text = '(' :: rest)
      ∨ (∃ rest, text = '@' :: rest) ∨ IsCompute text := by
  by_cases hcompute : IsCompute text
  · exact .inr (.inr (.inr (.inr hcompute)))
  · rw [IsCompute, not_and_or, not_and_or, not_and_or, not_not, not_not, not_not, not_not]
      at hcompute
    rcases hcompute with hnil | ⟨rest, hslashes⟩ | hparenthesis | hat
    · exact .inl hnil
    · exact .inr (.inl ⟨rest, hslashes.symm⟩)
    · obtain ⟨rest, hrest⟩ := List.head?_eq_some_iff.mp hparenthesis
      exact .inr (.inr (.inl ⟨rest, hrest⟩))
    · obtain ⟨rest, hrest⟩ := List.head?_eq_some_iff.mp hat
      exact .inr (.inr (.inr (.inl ⟨rest, hrest⟩)))

theorem ofText_of_isCompute (h : IsCompute text) :
    ofText text = ((Grammar.compute text).mapError
      (Fault.ofDiagnostic (String.ofList text))).map .instruction := by
  obtain ⟨hnil, hslashes, hparenthesis, hat⟩ := h
  unfold ofText
  split
  · exact absurd rfl hnil
  · exact absurd (List.prefix_append ['/', '/'] _) hslashes
  · exact absurd rfl hparenthesis
  · exact absurd rfl hat
  · cases Grammar.compute text <;> rfl

theorem Reads.ofText_eq {read : Except Fault Statement} (h : Reads text read) :
    ofText text = read := by
  cases h with
  | blank => rfl
  | comment rest => rfl
  | label h =>
    have hname := labelName?_eq_some_iff.mpr ⟨rfl, isSymbol_eq_true_iff.mpr h⟩
    simp only [ofText, hname, String.ofList_toList]
  | malformedLabel h =>
    cases hname : labelName? _ with
    | none => rw [ofText, hname]
    | some name =>
      obtain ⟨hrest, hsymbol⟩ := labelName?_eq_some_iff.mp hname
      exact absurd hrest (h name (isSymbol_eq_true_iff.mp hsymbol))
  | address h => rw [ofText, if_pos (isSymbol_eq_true_iff.mpr h), String.ofList_toList]
  | malformedAddress h => rw [ofText, if_neg fun hsymbol => h (isSymbol_eq_true_iff.mp hsymbol)]
  | compute hshape h => rw [ofText_of_isCompute hshape, h.compute_eq]; rfl
  | fault hshape h => rw [ofText_of_isCompute hshape, h.compute_eq]; rfl

theorem exists_reads (text : List Char) : ∃ read, Reads text read := by
  rcases shape_cases text with rfl | ⟨rest, rfl⟩ | ⟨rest, rfl⟩ | ⟨rest, rfl⟩ | hcompute
  · exact ⟨_, .blank⟩
  · exact ⟨_, .comment rest⟩
  · by_cases h : ∀ name, IsSymbol name → rest ≠ name ++ [')']
    · exact ⟨_, .malformedLabel h⟩
    · push Not at h
      obtain ⟨name, hname, rfl⟩ := h
      rw [← String.toList_ofList (l := name)] at hname ⊢
      exact ⟨_, .label hname⟩
  · by_cases h : IsSymbol rest
    · rw [← String.toList_ofList (l := rest)] at h ⊢
      exact ⟨_, .address h⟩
    · exact ⟨_, .malformedAddress h⟩
  · obtain ⟨read, hread⟩ := exists_computeReads text
    cases read with
    | ok found => exact ⟨_, .compute hcompute hread⟩
    | error fault => exact ⟨_, .fault hcompute hread⟩

/-- A text is read as what it says. -/
theorem ofText_eq_iff {read : Except Fault Statement} : ofText text = read ↔ Reads text read := by
  refine ⟨?_, Reads.ofText_eq⟩
  rintro rfl
  obtain ⟨read, hread⟩ := exists_reads text
  rw [hread.ofText_eq]
  exact hread

/-! ### Statements that are no compute instructions -/

theorem reads_blank_iff : Reads text (.ok .blank) ↔ text = [] := by
  constructor
  · intro h
    cases h
    rfl
  · rintro rfl
    exact .blank

theorem reads_comment_iff : Reads text (.ok .comment) ↔ ['/', '/'] <+: text := by
  constructor
  · intro h
    cases h
    exact List.prefix_append ['/', '/'] _
  · rintro ⟨rest, rfl⟩
    exact .comment rest

theorem reads_label_iff {name : String} :
    Reads text (.ok (.label name))
      ↔ text = '(' :: (name.toList ++ [')']) ∧ IsSymbol name.toList := by
  constructor
  · intro h
    cases h with
    | label h => exact ⟨rfl, h⟩
  · rintro ⟨rfl, h⟩
    exact .label h

theorem reads_address_iff {operand : String} :
    Reads text (.ok (.instruction (.address operand)))
      ↔ text = '@' :: operand.toList ∧ IsSymbol operand.toList := by
  constructor
  · intro h
    cases h with
    | address h => exact ⟨rfl, h⟩
    | compute _ h =>
      obtain ⟨dest, comp, jump, hfound⟩ := h.exists_of_ok
      cases hfound
  · rintro ⟨rfl, h⟩
    exact .address h

theorem reads_malformedLabel_iff {said : String} :
    Reads text (.error (.malformedLabel said))
      ↔ said = String.ofList text ∧ text.head? = some '('
          ∧ ∀ name, IsSymbol name → text ≠ '(' :: (name ++ [')']) := by
  constructor
  · intro h
    cases h with
    | malformedLabel h =>
      exact ⟨rfl, rfl, fun name hname htext => h name hname (List.cons.inj htext).2⟩
    | fault _ h =>
      rcases h.cases_of_error with hfault | ⟨part, spelling, hfault⟩ <;> cases hfault
  · rintro ⟨rfl, hhead, h⟩
    obtain ⟨rest, rfl⟩ := List.head?_eq_some_iff.mp hhead
    exact .malformedLabel fun name hname hrest => h name hname (by rw [hrest])

theorem reads_malformedAddress_iff {said : String} :
    Reads text (.error (.malformedAddress said))
      ↔ said = String.ofList text ∧ text.head? = some '@'
          ∧ ∀ operand, IsSymbol operand → text ≠ '@' :: operand := by
  constructor
  · intro h
    cases h with
    | @malformedAddress rest h =>
      refine ⟨rfl, rfl, fun operand hoperand htext => h ?_⟩
      rwa [(List.cons.inj htext).2]
    | fault _ h =>
      rcases h.cases_of_error with hfault | ⟨part, spelling, hfault⟩ <;> cases hfault
  · rintro ⟨rfl, hhead, h⟩
    obtain ⟨rest, rfl⟩ := List.head?_eq_some_iff.mp hhead
    exact .malformedAddress fun hrest => h rest hrest rfl

end Statement

/-! ## Lines -/

namespace Line

variable {number : Nat} {raw : String}

theorem parse_eq_ok_iff {line : Line} :
    parse number raw = .ok line
      ↔ line.number = number ∧ Statement.Reads (Text.trim raw.toList) (.ok line.statement) := by
  rw [← Statement.ofText_eq_iff, parse, ofChars]
  cases Statement.ofText (Text.trim raw.toList) with
  | ok statement =>
    obtain ⟨n, said⟩ := line
    simp only [Except.ok.injEq, Line.mk.injEq]
    exact and_congr_left' eq_comm
  | error fault => simp

theorem parse_eq_error_iff {line : Nat} :
    parse number raw = .error (.line line fault)
      ↔ line = number ∧ Statement.Reads (Text.trim raw.toList) (.error fault) := by
  rw [← Statement.ofText_eq_iff, parse, ofChars]
  cases Statement.ofText (Text.trim raw.toList) with
  | ok statement => simp
  | error found =>
    simp only [Except.error.injEq, AssembleError.line.injEq]
    exact and_congr_left' eq_comm

/-- A line is blank, a comment, a label or an address load, or a malformed one of the last two, just
where the text of the line without the blanks at its ends is of that form. -/
theorem parse_iff_text (number : Nat) (raw : String) :
    (∀ text, Text.trim raw.toList = text ↔ Text.Trims raw.toList text)
      ∧ (∀ line, parse number raw = .ok line → line.number = number)
      ∧ (parse number raw = .ok ⟨number, .blank⟩ ↔ Text.trim raw.toList = [])
      ∧ (parse number raw = .ok ⟨number, .comment⟩ ↔ ['/', '/'] <+: Text.trim raw.toList)
      ∧ (∀ name, parse number raw = .ok ⟨number, .label name⟩
          ↔ Text.trim raw.toList = '(' :: (name.toList ++ [')']) ∧ IsSymbol name.toList)
      ∧ (∀ operand, parse number raw = .ok ⟨number, .instruction (.address operand)⟩
          ↔ Text.trim raw.toList = '@' :: operand.toList ∧ IsSymbol operand.toList)
      ∧ (∀ line said, parse number raw = .error (.line line (.malformedLabel said))
          ↔ line = number ∧ said = String.ofList (Text.trim raw.toList)
            ∧ (Text.trim raw.toList).head? = some '('
            ∧ ∀ name, IsSymbol name → Text.trim raw.toList ≠ '(' :: (name ++ [')']))
      ∧ ∀ line said, parse number raw = .error (.line line (.malformedAddress said))
          ↔ line = number ∧ said = String.ofList (Text.trim raw.toList)
            ∧ (Text.trim raw.toList).head? = some '@'
            ∧ ∀ operand, IsSymbol operand → Text.trim raw.toList ≠ '@' :: operand := by
  have hok : ∀ statement, parse number raw = .ok ⟨number, statement⟩
      ↔ Statement.Reads (Text.trim raw.toList) (.ok statement) := by
    intro statement
    rw [parse_eq_ok_iff]
    exact and_iff_right rfl
  refine ⟨fun text => Text.trim_eq_iff, fun line h => (parse_eq_ok_iff.mp h).1, ?_, ?_, ?_, ?_, ?_,
    ?_⟩
  · rw [hok, Statement.reads_blank_iff]
  · rw [hok, Statement.reads_comment_iff]
  · intro name
    rw [hok, Statement.reads_label_iff]
  · intro operand
    rw [hok, Statement.reads_address_iff]
  · intro line said
    rw [parse_eq_error_iff, Statement.reads_malformedLabel_iff]
  · intro line said
    rw [parse_eq_error_iff, Statement.reads_malformedAddress_iff]

/-- A line that starts like nothing else is `dest=comp` or `comp;jump`, and the first of the two
parts that spells nothing is what is wrong with it. -/
theorem parse_of_isCompute (number : Nat) (raw : String)
    (h : IsCompute (Text.trim raw.toList)) :
    ((∀ left right, IsPart left → IsPart right →
        Text.trim raw.toList ≠ left ++ '=' :: right
          ∧ Text.trim raw.toList ≠ left ++ ';' :: right) →
        parse number raw
          = .error (.line number (.invalidSyntax (String.ofList (Text.trim raw.toList)))))
      ∧ (∀ left right, IsPart left → IsPart right →
          Text.trim raw.toList = left ++ '=' :: right →
          ((∀ dest : Dest, dest ≠ .null → dest.text.toList ≠ left) →
            parse number raw
              = .error (.line number (.unknownMnemonic "dest" (String.ofList left))))
          ∧ ∀ dest : Dest, dest ≠ .null → dest.text.toList = left →
            ((∀ comp : Comp, comp.text.toList ≠ right) →
              parse number raw
                = .error (.line number (.unknownMnemonic "comp" (String.ofList right))))
            ∧ ∀ comp : Comp, comp.text.toList = right →
              parse number raw = .ok ⟨number, .instruction (.compute dest comp .null)⟩)
      ∧ ∀ left right, IsPart left → IsPart right →
          Text.trim raw.toList = left ++ ';' :: right →
          ((∀ comp : Comp, comp.text.toList ≠ left) →
            parse number raw
              = .error (.line number (.unknownMnemonic "comp" (String.ofList left))))
          ∧ ∀ comp : Comp, comp.text.toList = left →
            ((∀ jump : Jump, jump ≠ .null → jump.text.toList ≠ right) →
              parse number raw
                = .error (.line number (.unknownMnemonic "jump" (String.ofList right))))
            ∧ ∀ jump : Jump, jump ≠ .null → jump.text.toList = right →
              parse number raw = .ok ⟨number, .instruction (.compute .null comp jump)⟩ := by
  have hok : ∀ {found}, ComputeReads (Text.trim raw.toList) (.ok found) →
      parse number raw = .ok ⟨number, .instruction found⟩ :=
    fun hread => parse_eq_ok_iff.mpr ⟨rfl, .compute h hread⟩
  have herror : ∀ {fault}, ComputeReads (Text.trim raw.toList) (.error fault) →
      parse number raw = .error (.line number fault) :=
    fun hread => parse_eq_error_iff.mpr ⟨rfl, .fault h hread⟩
  refine ⟨fun hformless => herror (.formless hformless), ?_, ?_⟩
  · intro left right hleft hright htext
    rw [htext] at hok herror
    refine ⟨fun hdest => ?_, fun dest hdest hspelled => ⟨fun hcomp => ?_, fun comp hcomp => ?_⟩⟩
    · exact herror (.assignment hleft hright (.unknownFirst fun dest hmem =>
        hdest dest (Dest.mem_order_iff.mp hmem)))
    · subst hspelled
      exact herror (.assignment hleft hright (.unknownSecond (Dest.mem_order_iff.mpr hdest)
        fun comp _ => hcomp comp))
    · subst hspelled hcomp
      exact hok (.assignment hleft hright (.known (Dest.mem_order_iff.mpr hdest) comp.mem_order))
  · intro left right hleft hright htext
    rw [htext] at hok herror
    refine ⟨fun hcomp => ?_, fun comp hspelled => ⟨fun hjump => ?_, fun jump hjump hspells => ?_⟩⟩
    · exact herror (.branch hleft hright (.unknownFirst fun comp _ => hcomp comp))
    · subst hspelled
      exact herror (.branch hleft hright (.unknownSecond comp.mem_order fun jump hmem =>
        hjump jump (Jump.mem_order_iff.mp hmem)))
    · subst hspelled hspells
      exact hok (.branch hleft hright (.known comp.mem_order (Jump.mem_order_iff.mpr hjump)))

/-- A spelling that goes on behind a mnemonic is none. -/
theorem parse_unfinished_comp :
    IsCompute (Text.trim " AD=D+ ".toList) ∧ IsPart "AD".toList ∧ IsPart "D+".toList
      ∧ parse 3 " AD=D+ " = .error (.line 3 (.unknownMnemonic "comp" "D+")) := by
  have hcompute : IsCompute (Text.trim " AD=D+ ".toList) := by decide
  have hleft : IsPart "AD".toList := by decide
  have hright : IsPart "D+".toList := by decide
  have hassignment := (parse_of_isCompute 3 " AD=D+ " hcompute).2.1 "AD".toList "D+".toList hleft
    hright (by decide)
  have hcomp : ∀ comp : Comp, comp.text.toList ≠ "D+".toList := by
    intro comp
    cases comp <;> decide
  exact ⟨hcompute, hleft, hright, (hassignment.2 .ad (by decide) (by decide)).1 hcomp⟩

end Line

end Hack
