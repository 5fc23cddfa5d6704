import Hack.Proofs.Layout
import Hack.Proofs.Settling

/-!
# What words depend on

An instruction has its word by what the operands up to it stand for. What an operand stands for is
decided by the predefined names, and where it is none of them by the last declaration of its name.
So lines that others follow keep their words if the others declare none of their operands, and a
declaration that decides for no operand can be left out.

* `SymbolTable.settled_congr`, `SymbolTable.wordAmong_congr` — tables in which the operands stand
  for the same
* `lineWords_congr` — programs in which the labels that are loaded have the same values
* `encodeLines_followed` — lines behind others
* `encodeLines_without_dead_label` — a declaration that decides for no operand
-/

namespace Hack

open Program

/-! ## Tables -/

namespace SymbolTable

variable {table other : SymbolTable}

/-- Operands settle alike in tables in which they stand for the same, whatever other names stand
for. -/
theorem settled_congr {operands : List String} {operand : String}
    (hnext : table.nextFree = other.nextFree)
    (h : ∀ name ∈ operands, table.meaning name = other.meaning name) (hmem : operand ∈ operands) :
    table.settled operands operand = other.settled operands operand := by
  have hnew : ∀ name ∈ operands, table.isNew name = other.isNew name := by
    intro name hname
    rw [isNew, h name hname, isNew]
  have hnames : table.newNames operands = other.newNames operands := by
    rw [newNames, List.filter_congr hnew, newNames]
  rw [settled, h operand hmem, hnames, hnext, settled]

theorem wordAmong_congr {program : List (Nat × Instruction)} {numbered : Nat × Instruction}
    (hnext : table.nextFree = other.nextFree)
    (h : ∀ name ∈ loads program, table.meaning name = other.meaning name)
    (hmem : numbered ∈ program) :
    table.wordAmong program numbered = other.wordAmong program numbered := by
  obtain ⟨number, instruction⟩ := numbered
  cases instruction with
  | compute dest comp jump => rfl
  | address operand =>
    have hload : operand ∈ loads program := mem_loads_iff.mpr ⟨number, hmem⟩
    simp only [wordAmong, word, settled_congr hnext h hload]

end SymbolTable

/-! ## Programs -/

/-- Whether some operands that are no predefined names have the same values as labels in two
programs. -/
def SameLabels (operands : List String) (lines others : List Line) : Prop :=
  ∀ operand ∈ operands, predefined? operand = none →
    labelValue? operand lines = labelValue? operand others

variable {lines others : List Line} {program : List (Nat × Instruction)}

theorem meaning_boundTable_congr {operand : String}
    (h : predefined? operand = none → labelValue? operand lines = labelValue? operand others) :
    (boundTable lines).meaning operand = (boundTable others).meaning operand := by
  unfold SymbolTable.meaning
  rw [labelAddress?_boundTable, labelAddress?_boundTable, variableAddress?_boundTable,
    variableAddress?_boundTable]
  cases hpredefined : predefined? operand with
  | some address => rfl
  | none => rw [h hpredefined]

theorem mapM_wordAmong_congr (h : SameLabels (loads program) lines others) :
    program.mapM ((boundTable lines).wordAmong program)
      = program.mapM ((boundTable others).wordAmong program) := by
  have hnext : (boundTable lines).nextFree = (boundTable others).nextFree := by
    rw [nextFree_boundTable, nextFree_boundTable]
  refine mapM_congr_of_first fun before numbered after hsplit _ => ?_
  refine SymbolTable.wordAmong_congr hnext (fun operand hload => ?_) ?_
  · exact meaning_boundTable_congr (h operand hload)
  · rw [hsplit]
    exact List.mem_append_cons_self

/-- The words of a program depend on its instructions, and on the values of the labels that they
load. -/
theorem lineWords_congr (hinstructions : instructions lines = instructions others)
    (h : SameLabels (operands lines) lines others) : lineWords lines = lineWords others := by
  rw [lineWords, mapM_wordAmong_congr h, hinstructions, lineWords]

theorem fst_outcome_encodeLines (lines : List Line) :
    (AssembleM.outcome (AssembleM.encodeLines lines (Assembler.initial.bindLabels lines).2)).1
      = lineWords lines := by
  rw [AssembleM.outcome_encodeLines]
  rfl

/-! ## Lines behind others -/

/-- Lines that declare no operand of the lines before them leave these their words. -/
theorem lineWords_append {first second : List Line}
    (h : SameLabels (operands first) (first ++ second) first) :
    lineWords (first ++ second)
      = do
        let earlier ← lineWords first
        let later ← (instructions second).mapM
          ((boundTable (first ++ second)).wordAmong (instructions (first ++ second)))
        return earlier ++ later := by
  have hfirst : (instructions first).mapM
      ((boundTable (first ++ second)).wordAmong (instructions (first ++ second)))
        = lineWords first := by
    rw [lineWords, ← mapM_wordAmong_congr h]
    refine mapM_congr_of_first fun before numbered after hsplit _ => ?_
    rw [instructions_append]
    refine SymbolTable.wordAmong_append_of_mem ?_ _
    rw [hsplit]
    exact List.mem_append_cons_self
  rw [← hfirst, ← List.mapM_append, ← instructions_append, lineWords]

theorem sameLabels_append {first second : List Line}
    (h : ∀ line ∈ second, ∀ name ∈ operands first, line.statement = .label name →
      (predefined? name).isSome) :
    SameLabels (operands first) (first ++ second) first := by
  intro operand hoperand hpredefined
  have hundeclared : labelValue? operand second = none := by
    refine labelValue?_eq_none_iff.mpr fun line hline hlabel => ?_
    have hsome := h line hline operand hoperand hlabel
    rw [hpredefined] at hsome
    cases hsome
  rw [labelValue?_append, hundeclared]

/-- Lines that others follow have the words that they have alone, and fail as they do alone, if the
others declare none of their operands but predefined names. -/
theorem encodeLines_followed (first second : List Line)
    (h : ∀ line ∈ second, ∀ name ∈ operands first, line.statement = .label name →
      (predefined? name).isSome) :
    (∀ words,
        (AssembleM.outcome (AssembleM.encodeLines (first ++ second)
          (Assembler.initial.bindLabels (first ++ second)).2)).1 = .ok words →
        (AssembleM.outcome (AssembleM.encodeLines first
          (Assembler.initial.bindLabels first).2)).1
            = .ok (words.take (instructions first).length))
      ∧ ∀ error,
        (AssembleM.outcome (AssembleM.encodeLines first
          (Assembler.initial.bindLabels first).2)).1 = .error error →
        (AssembleM.outcome (AssembleM.encodeLines (first ++ second)
          (Assembler.initial.bindLabels (first ++ second)).2)).1 = .error error := by
  simp only [fst_outcome_encodeLines, lineWords_append (sameLabels_append h)]
  constructor
  · intro words hwords
    obtain ⟨earlier, hearlier, hrest⟩ := bind_eq_ok_iff.mp hwords
    obtain ⟨later, -, hjoined⟩ := bind_eq_ok_iff.mp hrest
    cases hjoined
    have hlength := (mapM_eq_ok_iff.mp hearlier).length_eq
    rw [hlength, List.take_left, hearlier]
  · intro error herror
    rw [herror]
    rfl

/-- A label that no instruction loads, one that is loaded, a predefined name, a variable and a
literal. -/
def opening : List Line :=
  [⟨1, .label "end"⟩, ⟨2, .instruction (.address "SP")⟩, ⟨3, .label "x"⟩,
    ⟨4, .instruction (.address "x")⟩, ⟨5, .instruction (.address "i")⟩,
    ⟨6, .instruction (.address "7")⟩]

/-- A literal that cannot be read. -/
def unread : List Line := [⟨7, .instruction (.address "1x")⟩]

/-- Declarations of a predefined name, and of the label that no instruction in `opening` loads. -/
def closing : List Line :=
  [⟨8, .label "SP"⟩, ⟨9, .label "end"⟩, ⟨10, .instruction (.address "end")⟩,
    ⟨11, .instruction (.address "j")⟩, ⟨12, .instruction (.address "i")⟩]

theorem encodeLines_followed_closing :
    (∀ line ∈ closing, ∀ name ∈ operands (opening ++ unread), line.statement = .label name →
        (predefined? name).isSome)
      ∧ (AssembleM.outcome (AssembleM.encodeLines (opening ++ closing)
          (Assembler.initial.bindLabels (opening ++ closing)).2)).1 = .ok [0, 1, 16, 7, 4, 17, 16]
      ∧ (AssembleM.outcome (AssembleM.encodeLines opening
          (Assembler.initial.bindLabels opening).2)).1 = .ok [0, 1, 16, 7]
      ∧ (AssembleM.outcome (AssembleM.encodeLines (opening ++ unread ++ closing)
          (Assembler.initial.bindLabels (opening ++ unread ++ closing)).2)).1
            = .error (.line 7 (.invalidLiteral "1x")) := by
  have hdeclares : ∀ line ∈ closing, ∀ name ∈ operands (opening ++ unread),
      line.statement = .label name → (predefined? name).isSome := by decide
  have hwords : (AssembleM.outcome (AssembleM.encodeLines (opening ++ closing)
      (Assembler.initial.bindLabels (opening ++ closing)).2)).1
        = .ok [0, 1, 16, 7, 4, 17, 16] := by decide +kernel
  have herror : (AssembleM.outcome (AssembleM.encodeLines (opening ++ unread)
      (Assembler.initial.bindLabels (opening ++ unread)).2)).1
        = .error (.line 7 (.invalidLiteral "1x")) := by decide +kernel
  exact ⟨hdeclares, hwords, (encodeLines_followed opening closing (by decide)).1 _ hwords,
    (encodeLines_followed (opening ++ unread) closing hdeclares).2 _ herror⟩

/-! ## Declarations that decide for no operand -/

section

variable {declaration : Line} {name : String}

theorem instructions_insert (h : declaration.instruction? = none) (before after : List Line) :
    instructions (before ++ declaration :: after) = instructions (before ++ after) := by
  rw [instructions_append, instructions_cons, h, instructions_append]
  rfl

/-- A line without an instruction changes the value of a label only if it is its last
declaration. -/
theorem labelValue?_insert (hinstruction : declaration.instruction? = none)
    {before after : List Line}
    (h : declaration.statement = .label name → labelValue? name after ≠ none) :
    labelValue? name (before ++ declaration :: after) = labelValue? name (before ++ after) := by
  rw [labelValue?_append, labelValue?_append, labelValue?, hinstruction]
  cases hafter : labelValue? name after with
  | some value => simp
  | none =>
    have hother : declaration.statement ≠ .label name := fun hlabel => h hlabel hafter
    rw [if_neg hother]

/-- A declaration of a predefined name, of a name that no instruction loads, or of a name that a
later line declares again makes no difference to the number of instructions, to the words, and to
the error of a program. -/
theorem encodeLines_without_dead_label (before : List Line) (declaration : Line)
    (after : List Line) (hdeclares : declaration.statement = .label name)
    (hdead : (predefined? name).isSome ∨ name ∉ operands (before ++ declaration :: after)
      ∨ ∃ line ∈ after, line.statement = .label name) :
    (Assembler.initial.bindLabels (before ++ declaration :: after)).1
        = (Assembler.initial.bindLabels (before ++ after)).1
      ∧ (AssembleM.outcome (AssembleM.encodeLines (before ++ declaration :: after)
          (Assembler.initial.bindLabels (before ++ declaration :: after)).2)).1
        = (AssembleM.outcome (AssembleM.encodeLines (before ++ after)
            (Assembler.initial.bindLabels (before ++ after)).2)).1 := by
  have hinstruction : declaration.instruction? = none := by
    rw [Line.instruction?, hdeclares]
  have hinstructions := instructions_insert hinstruction before after
  constructor
  · rw [Assembler.fst_bindLabels, Assembler.fst_bindLabels, hinstructions]
  · rw [fst_outcome_encodeLines, fst_outcome_encodeLines]
    refine lineWords_congr hinstructions fun operand hoperand hpredefined => ?_
    refine labelValue?_insert hinstruction fun hlabel hundeclared => ?_
    obtain rfl : name = operand := Statement.label.inj (hdeclares.symm.trans hlabel)
    rcases hdead with hsome | hunused | ⟨line, hline, hagain⟩
    · rw [hpredefined] at hsome
      cases hsome
    · exact hunused hoperand
    · exact labelValue?_eq_none_iff.mp hundeclared line hline hagain

end

/-- A label that is declared twice, a predefined name, and a label that no instruction loads. -/
def deadLabels : List Line :=
  [⟨1, .label "x"⟩, ⟨2, .instruction (.address "x")⟩, ⟨3, .label "SP"⟩,
    ⟨4, .instruction (.address "SP")⟩, ⟨5, .label "end"⟩, ⟨6, .label "x"⟩,
    ⟨7, .instruction (.address "i")⟩]

theorem encodeLines_without_dead_label_each :
    (AssembleM.outcome (AssembleM.encodeLines deadLabels
        (Assembler.initial.bindLabels deadLabels).2)).1 = .ok [2, 0, 16]
      ∧ ∀ position ∈ [0, 2, 4],
          (Assembler.initial.bindLabels (deadLabels.eraseIdx position)).1 = 3
          ∧ (AssembleM.outcome (AssembleM.encodeLines (deadLabels.eraseIdx position)
              (Assembler.initial.bindLabels (deadLabels.eraseIdx position)).2)).1
            = .ok [2, 0, 16] := by
  have hcount : (Assembler.initial.bindLabels deadLabels).1 = 3 := by decide
  have hwords : (AssembleM.outcome (AssembleM.encodeLines deadLabels
      (Assembler.initial.bindLabels deadLabels).2)).1 = .ok [2, 0, 16] := by decide +kernel
  have hagain := encodeLines_without_dead_label (deadLabels.take 0) ⟨1, .label "x"⟩
    (deadLabels.drop 1) rfl (.inr (.inr (by decide)))
  have hpredefined := encodeLines_without_dead_label (deadLabels.take 2) ⟨3, .label "SP"⟩
    (deadLabels.drop 3) rfl (.inl (by decide))
  have hunused := encodeLines_without_dead_label (deadLabels.take 4) ⟨5, .label "end"⟩
    (deadLabels.drop 5) rfl (.inr (.inl (by decide)))
  refine ⟨hwords, fun position hposition => ?_⟩
  simp only [List.mem_cons, List.not_mem_nil, or_false] at hposition
  rcases hposition with rfl | rfl | rfl
  · exact ⟨hagain.1.symm.trans hcount, hagain.2.symm.trans hwords⟩
  · exact ⟨hpredefined.1.symm.trans hcount, hpredefined.2.symm.trans hwords⟩
  · exact ⟨hunused.1.symm.trans hcount, hunused.2.symm.trans hwords⟩

end Hack
