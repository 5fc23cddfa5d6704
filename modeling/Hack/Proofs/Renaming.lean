import Mathlib.Data.Prod.Basic
import Mathlib.Logic.Basic
import Hack.Proofs.Denotation

/-!
# Names make no difference

Labels and variables can be given other names. What a program is assembled to depends on which names
are equal, which are predefined, and which start with a digit, and on nothing else in them.

* `Renames` — the renamings that keep names apart which a program keeps apart
* `Renames.labelValue?_rename`, `Renames.variableNames_rename` — labels and variables keep their
  values
* `Renames.value?_rename` — so do operands
* `encodeLines_rename` — both passes give the same results
-/

namespace Hack

open Program

/-! ## Lists -/

theorem eraseDups_map {r : String → String} {names : List String}
    (h : ∀ first ∈ names, ∀ second ∈ names, r first = r second → first = second) :
    (names.map r).eraseDups = names.eraseDups.map r := by
  induction hlength : names.length using Nat.strongRecOn generalizing names with
  | _ length ih =>
    cases names with
    | nil => rfl
    | cons name names =>
      have hfilter : names.filter ((fun other => !other == r name) ∘ r)
          = names.filter fun other => !other == name := by
        refine List.filter_congr fun other hother => ?_
        have hiff : r other = r name ↔ other = name :=
          ⟨h other (.tail _ hother) name List.mem_cons_self, congrArg r⟩
        simp [hiff]
      have hshorter : (names.filter fun other => !other == name).length < length := by
        rw [← hlength]
        exact Nat.lt_succ_of_le (List.length_filter_le _ names)
      have hmem : ∀ other ∈ names.filter fun other => !other == name, other ∈ name :: names :=
        fun other hother => .tail _ (List.mem_filter.mp hother).1
      rw [List.map_cons, List.eraseDups_cons, List.eraseDups_cons, List.map_cons, List.filter_map,
        hfilter, ih _ hshorter (fun first hfirst second hsecond =>
          h first (hmem first hfirst) second (hmem second hsecond)) rfl]

theorem idxOf_map {r : String → String} {name : String} {names : List String}
    (h : ∀ other ∈ names, r other = r name → other = name) :
    (names.map r).idxOf (r name) = names.idxOf name := by
  induction names with
  | nil => rfl
  | cons other names ih =>
    have hbeq : (r other == r name) = (other == name) := by
      rw [Bool.eq_iff_iff, beq_iff_eq, beq_iff_eq]
      exact ⟨h other List.mem_cons_self, congrArg r⟩
    have hrest := ih fun other hother => h other (.tail _ hother)
    rw [List.map_cons, List.idxOf_cons, List.idxOf_cons, hrest, hbeq]

/-! ## Renaming -/

variable {r : String → String} {lines : List Line} {name operand : String}

/-- The instruction with its operand renamed. -/
def Instruction.rename (r : String → String) : Instruction → Instruction
  | address operand => address (r operand)
  | compute dest comp jump => compute dest comp jump

/-- The statement with the names in it renamed. -/
def Statement.rename (r : String → String) : Statement → Statement
  | blank => blank
  | comment => comment
  | label name => label (r name)
  | instruction said => instruction (said.rename r)

/-- The line with the names in it renamed. -/
def Line.rename (r : String → String) (line : Line) : Line :=
  ⟨line.number, line.statement.rename r⟩

theorem Line.instruction?_rename (r : String → String) (line : Line) :
    (line.rename r).instruction? = line.instruction?.map (Prod.map id (Instruction.rename r)) := by
  obtain ⟨number, statement⟩ := line
  cases statement <;> rfl

theorem instructions_rename (r : String → String) (lines : List Line) :
    instructions (lines.map (Line.rename r))
      = (instructions lines).map (Prod.map id (Instruction.rename r)) := by
  rw [instructions, List.filterMap_map, instructions, List.map_filterMap]
  exact List.filterMap_congr fun line _ => line.instruction?_rename r

theorem operands_rename (r : String → String) (lines : List Line) :
    operands (lines.map (Line.rename r)) = (operands lines).map r := by
  rw [operands, instructions_rename, List.filterMap_map, operands, List.map_filterMap]
  refine List.filterMap_congr ?_
  rintro ⟨number, instruction⟩ -
  cases instruction <;> rfl

namespace Program

/-- The labels that some lines declare, in order. -/
def labelNames (lines : List Line) : List String :=
  lines.filterMap fun line =>
    match line.statement with
    | .label name => some name
    | _ => none

/-- The names that are up to the author of some lines: labels and operands, but neither predefined
names nor literals. -/
def userNames (lines : List Line) : List String :=
  (labelNames lines ++ operands lines).filter fun name =>
    (predefined? name).isNone && (!startsWithDigit name || name ∈ labelNames lines)

theorem mem_labelNames_iff :
    name ∈ labelNames lines ↔ ∃ line ∈ lines, line.statement = .label name := by
  rw [labelNames, List.mem_filterMap]
  refine exists_congr fun line => and_congr_right fun _ => ?_
  cases line.statement <;> simp

theorem mem_labelNames_iff_labelValue? :
    name ∈ labelNames lines ↔ labelValue? name lines ≠ none := by
  rw [mem_labelNames_iff, ne_eq, labelValue?_eq_none_iff]
  push Not
  rfl

theorem mem_userNames_iff :
    name ∈ userNames lines
      ↔ (name ∈ labelNames lines ∨ name ∈ operands lines) ∧ predefined? name = none
          ∧ (startsWithDigit name = true → name ∈ labelNames lines) := by
  rw [userNames, List.mem_filter, List.mem_append, Bool.and_eq_true, Option.isNone_iff_eq_none,
    Bool.or_eq_true, Bool.not_eq_true', decide_eq_true_eq, ← Bool.not_eq_true, ← imp_iff_not_or]

theorem mem_userNames_of_label {line : Line} (hline : line ∈ lines)
    (hlabel : line.statement = .label name) (hpredefined : predefined? name = none) :
    name ∈ userNames lines := by
  have hname : name ∈ labelNames lines := mem_labelNames_iff.mpr ⟨line, hline, hlabel⟩
  exact mem_userNames_iff.mpr ⟨.inl hname, hpredefined, fun _ => hname⟩

theorem mem_userNames_of_labelValue? {value : Nat} (hpredefined : predefined? operand = none)
    (hlabel : labelValue? operand lines = some value) : operand ∈ userNames lines := by
  have hdeclared : labelValue? operand lines ≠ none := by
    rw [hlabel]
    exact Option.some_ne_none value
  obtain ⟨line, hline, hstatement⟩ :=
    mem_labelNames_iff.mp (mem_labelNames_iff_labelValue?.mpr hdeclared)
  exact mem_userNames_of_label hline hstatement hpredefined

theorem mem_userNames_of_isVariable (hoperand : operand ∈ operands lines)
    (hvariable : isVariable lines operand = true) : operand ∈ userNames lines := by
  obtain ⟨hpredefined, -, hdigit⟩ := isVariable_iff.mp hvariable
  refine mem_userNames_iff.mpr ⟨.inr hoperand, hpredefined, fun h => ?_⟩
  rw [hdigit] at h
  cases h

theorem mem_userNames_of_mem_variableNames (hname : name ∈ variableNames lines) :
    name ∈ userNames lines := by
  obtain ⟨hoperand, hvariable⟩ := mem_variablesAmong.mp hname
  exact mem_userNames_of_isVariable hoperand hvariable

theorem labelValue?_map
    (h : ∀ line ∈ lines, ∀ other, line.statement = .label other → r other = r name →
      other = name) :
    labelValue? (r name) (lines.map (Line.rename r)) = labelValue? name lines := by
  induction lines with
  | nil => rfl
  | cons line lines ih =>
    have hline : (line.rename r).statement = .label (r name) ↔ line.statement = .label name := by
      obtain ⟨number, statement⟩ := line
      cases statement with
      | label other =>
        have hother := h ⟨number, .label other⟩ List.mem_cons_self other rfl
        simp only [Line.rename, Statement.rename, Statement.label.injEq]
        exact ⟨hother, congrArg r⟩
      | _ => simp [Line.rename, Statement.rename]
    rw [List.map_cons, labelValue?, labelValue?, ih fun line hmem => h line (.tail _ hmem),
      Line.instruction?_rename]
    cases labelValue? name lines with
    | some value => cases line.instruction? <;> rfl
    | none => simp [hline]

end Program

/-- Whether a renaming keeps apart what some lines keep apart: it leaves predefined names and
literals as they are, and gives different new names to the others. -/
structure Renames (r : String → String) (lines : List Line) : Prop where
  keeps_predefined : ∀ binding ∈ predefined, r binding.1 = binding.1
  keeps_literals : ∀ operand ∈ operands lines, startsWithDigit operand = true →
    operand ∉ labelNames lines → r operand = operand
  injective : ∀ first ∈ userNames lines, ∀ second ∈ userNames lines, r first = r second →
    first = second
  fresh : ∀ name ∈ userNames lines, predefined? (r name) = none ∧ startsWithDigit (r name) = false

namespace Renames

/-! ## Labels -/

theorem rename_predefined (h : Renames r lines) {address : Address}
    (hpredefined : predefined? name = some address) : r name = name := by
  obtain ⟨before, after, hsplit, -⟩ := List.lookup_eq_some_iff.mp hpredefined
  exact h.keeps_predefined (name, address) (by rw [hsplit]; exact List.mem_append_cons_self)

theorem labelValue?_rename (h : Renames r lines) (hname : name ∈ userNames lines) :
    labelValue? (r name) (lines.map (Line.rename r)) = labelValue? name lines := by
  refine labelValue?_map fun line hline other hother hsame => ?_
  cases hpredefined : predefined? other with
  | none =>
    have huser := mem_userNames_of_label hline hother hpredefined
    exact h.injective other huser name hname hsame
  | some address =>
    -- a new name is not predefined, so it is not that of a shadowed label
    have hnew := (h.fresh name hname).1
    rw [← hsame, h.rename_predefined hpredefined, hpredefined] at hnew
    cases hnew

/-- No label becomes a literal. -/
theorem labelValue?_literal (h : Renames r lines) (hdigit : startsWithDigit operand = true) :
    labelValue? operand (lines.map (Line.rename r)) = none := by
  refine labelValue?_eq_none_iff.mpr fun line hline hlabel => ?_
  obtain ⟨⟨number, statement⟩, hmem, rfl⟩ := List.mem_map.mp hline
  cases statement with
  | label other =>
    have hother : r other = operand := Statement.label.inj hlabel
    cases hpredefined : predefined? other with
    | none =>
      have hnew := (h.fresh other (mem_userNames_of_label hmem rfl hpredefined)).2
      rw [hother, hdigit] at hnew
      cases hnew
    | some address =>
      rw [← hother, h.rename_predefined hpredefined, (predefined?_spec hpredefined).2] at hdigit
      cases hdigit
  | _ => cases hlabel

/-! ## Operands -/

theorem rename_literal (h : Renames r lines) (hoperand : operand ∈ operands lines)
    (hdigit : startsWithDigit operand = true) (hlabel : labelValue? operand lines = none) :
    r operand = operand :=
  h.keeps_literals operand hoperand hdigit fun hdeclared =>
    mem_labelNames_iff_labelValue?.mp hdeclared hlabel

theorem isVariable_rename (h : Renames r lines) (hoperand : operand ∈ operands lines) :
    isVariable (lines.map (Line.rename r)) (r operand) = isVariable lines operand := by
  rw [Bool.eq_iff_iff, isVariable_iff, isVariable_iff]
  rcases operand_cases lines operand with
    ⟨address, hpredefined⟩ | ⟨value, hpredefined, hlabel⟩ | ⟨hdigit, hlabel⟩ | hvariable
  · rw [h.rename_predefined hpredefined, hpredefined]
    simp
  · rw [h.labelValue?_rename (mem_userNames_of_labelValue? hpredefined hlabel), hlabel]
    simp
  · rw [h.rename_literal hoperand hdigit hlabel, hdigit]
    simp
  · have huser := mem_userNames_of_isVariable hoperand hvariable
    obtain ⟨hnew, hnewDigit⟩ := h.fresh operand huser
    obtain ⟨hpredefined, hlabel, hdigit⟩ := isVariable_iff.mp hvariable
    rw [h.labelValue?_rename huser, hnew, hnewDigit, hpredefined, hlabel, hdigit]

theorem variableNames_rename (h : Renames r lines) :
    variableNames (lines.map (Line.rename r)) = (variableNames lines).map r := by
  have hfilter : (operands lines).filter (isVariable (lines.map (Line.rename r)) ∘ r)
      = (operands lines).filter (isVariable lines) :=
    List.filter_congr fun operand hoperand => h.isVariable_rename hoperand
  have huser : ∀ name ∈ (operands lines).filter (isVariable lines), name ∈ userNames lines := by
    intro name hname
    obtain ⟨hoperand, hvariable⟩ := List.mem_filter.mp hname
    exact mem_userNames_of_isVariable hoperand hvariable
  rw [variableNames, operands_rename, List.filter_map, hfilter, variableNames]
  exact eraseDups_map fun first hfirst second hsecond =>
    h.injective first (huser first hfirst) second (huser second hsecond)

/-- An operand keeps its value. -/
theorem value?_rename (h : Renames r lines) (hoperand : operand ∈ operands lines) :
    value? (lines.map (Line.rename r)) (r operand) = value? lines operand := by
  rcases operand_cases lines operand with
    ⟨address, hpredefined⟩ | ⟨value, hpredefined, hlabel⟩ | ⟨hdigit, hlabel⟩ | hvariable
  · rw [h.rename_predefined hpredefined, value?_of_predefined hpredefined,
      value?_of_predefined hpredefined]
  · have huser := mem_userNames_of_labelValue? hpredefined hlabel
    have hnew := h.labelValue?_rename huser
    rw [value?_of_label hpredefined hlabel,
      value?_of_label (h.fresh operand huser).1 (hnew.trans hlabel)]
  · rw [h.rename_literal hoperand hdigit hlabel, value?_of_literal hdigit hlabel,
      value?_of_literal hdigit (h.labelValue?_literal hdigit)]
  · have huser := mem_userNames_of_isVariable hoperand hvariable
    have hnew := (h.isVariable_rename hoperand).trans hvariable
    rw [value?_of_isVariable hvariable, value?_of_isVariable hnew, h.variableNames_rename,
      idxOf_map fun other hother =>
        h.injective other (mem_userNames_of_mem_variableNames hother) operand huser]

end Renames

/-! ## Both passes -/

theorem wordAmong_rename (h : Renames r lines) {number : Nat} {instruction : Instruction}
    (hmem : (number, instruction) ∈ instructions lines) :
    (boundTable (lines.map (Line.rename r))).wordAmong (instructions (lines.map (Line.rename r)))
        (number, instruction.rename r)
      = (boundTable lines).wordAmong (instructions lines) (number, instruction) := by
  cases instruction with
  | compute dest comp jump => rfl
  | address operand =>
    have hoperand : operand ∈ operands lines := mem_loads_iff.mpr ⟨number, hmem⟩
    have hvalue := h.value?_rename hoperand
    rw [Instruction.rename, wordAmong_address, wordAmong_address, address?, address?, hvalue]
    cases hfound : value? lines operand with
    | some value => rfl
    | none =>
      -- only a literal has no value, and literals keep their texts
      obtain ⟨hdigit, hlabel⟩ := literal_of_value?_eq_none hfound
      rw [h.rename_literal hoperand hdigit hlabel]

/-- Both passes over renamed lines count the same instructions and give the same words, or the same
error. -/
theorem encodeLines_rename (h : Renames r lines) :
    (Assembler.initial.bindLabels (lines.map (Line.rename r))).1
        = (Assembler.initial.bindLabels lines).1
      ∧ (AssembleM.outcome (AssembleM.encodeLines (lines.map (Line.rename r))
          (Assembler.initial.bindLabels (lines.map (Line.rename r))).2)).1
        = (AssembleM.outcome (AssembleM.encodeLines lines
            (Assembler.initial.bindLabels lines).2)).1 := by
  constructor
  · rw [Assembler.fst_bindLabels, Assembler.fst_bindLabels, instructions_rename, List.length_map]
  · rw [AssembleM.outcome_encodeLines, AssembleM.outcome_encodeLines]
    show (instructions (lines.map (Line.rename r))).mapM
        ((boundTable (lines.map (Line.rename r))).wordAmong
          (instructions (lines.map (Line.rename r))))
      = (instructions lines).mapM ((boundTable lines).wordAmong (instructions lines))
    have hmap : ∀ f : Nat × Instruction → Except AssembleError Word,
        (instructions (lines.map (Line.rename r))).mapM f
          = (instructions lines).mapM (f ∘ Prod.map id (Instruction.rename r)) := by
      intro f
      rw [instructions_rename, List.mapM_map]
    rw [hmap]
    refine mapM_congr_of_first ?_
    rintro before ⟨number, instruction⟩ after hsplit -
    exact wordAmong_rename h (by rw [hsplit]; exact List.mem_append_cons_self)

/-- A label that looks like a literal, one that is shadowed, and a variable. -/
def mixedNames : List Line :=
  [⟨1, .label "7"⟩, ⟨2, .instruction (.address "7")⟩, ⟨3, .label "KBD"⟩,
    ⟨4, .instruction (.address "KBD")⟩, ⟨5, .instruction (.address "i")⟩,
    ⟨6, .instruction (.address "12")⟩, ⟨7, .label "x"⟩, ⟨8, .instruction (.address "x")⟩,
    ⟨9, .instruction (.address "i")⟩]

/-- The same lines and a faulty literal. -/
def mixedFaultyNames : List Line := mixedNames ++ [⟨10, .instruction (.address "1x")⟩]

/-- Exchanges the names of a label and a variable, and gives a third name up. -/
def exchange (name : String) : String :=
  if name = "x" then "i" else if name = "i" then "x" else if name = "7" then "seven" else name

/-- What the second pass makes of lines once the first has bound their labels. -/
def passed (lines : List Line) : Except AssembleError (List Word) :=
  (AssembleM.outcome
    (AssembleM.encodeLines lines (Assembler.initial.bindLabels lines).2)).1

theorem passed_eq_denoted (hlt : (instructions lines).length < UInt32.size) :
    passed lines = denotation lines := by
  rw [passed, AssembleM.outcome_encodeLines]
  exact mapM_wordAmong_boundTable hlt

theorem encodeLines_rename_exchange :
    Renames exchange mixedNames ∧ Renames exchange mixedFaultyNames
      ∧ mixedNames.map (Line.rename exchange) ≠ mixedNames
      ∧ passed mixedNames = .ok [0, 24576, 16, 12, 4, 16]
      ∧ passed (mixedNames.map (Line.rename exchange)) = .ok [0, 24576, 16, 12, 4, 16]
      ∧ passed mixedFaultyNames = .error (.line 10 (.invalidLiteral "1x"))
      ∧ passed (mixedFaultyNames.map (Line.rename exchange))
          = .error (.line 10 (.invalidLiteral "1x")) := by
  have hrenames : Renames exchange mixedNames :=
    ⟨by decide, by decide, by decide, by decide⟩
  have hfaulty : Renames exchange mixedFaultyNames :=
    ⟨by decide, by decide, by decide, by decide⟩
  have hwords : passed mixedNames = .ok [0, 24576, 16, 12, 4, 16] :=
    (passed_eq_denoted (by decide)).trans (by decide)
  have hfault : passed mixedFaultyNames = .error (.line 10 (.invalidLiteral "1x")) :=
    (passed_eq_denoted (by decide)).trans (by decide)
  exact ⟨hrenames, hfaulty, by decide, hwords, (encodeLines_rename hrenames).2.trans hwords,
    hfault, (encodeLines_rename hfaulty).2.trans hfault⟩

end Hack
