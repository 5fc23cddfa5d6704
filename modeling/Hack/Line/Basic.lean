import Hack.Instruction.Basic

/-!
# Lines

A line of a source says one thing at most. Its number is the one that messages give for it.
-/

namespace Hack

/-- What a line says. -/
inductive Statement
  | blank
  | comment
  | label (name : String)
  | instruction (instruction : Instruction)
  deriving DecidableEq

/-- A line of a source. -/
structure Line where
  number : Nat
  statement : Statement
  deriving DecidableEq

/-- The instruction of a line that has one, with the number of the line. -/
def Line.instruction? (line : Line) : Option (Nat × Instruction) :=
  match line.statement with
  | .instruction instruction => some (line.number, instruction)
  | _ => none

/-- The instructions of some lines in order, with the numbers of their lines. -/
def instructions (lines : List Line) : List (Nat × Instruction) := lines.filterMap Line.instruction?

@[simp] theorem instructions_nil : instructions [] = [] := rfl

theorem instructions_cons (line : Line) (lines : List Line) :
    instructions (line :: lines) = line.instruction?.toList ++ instructions lines := by
  rw [instructions, List.filterMap_cons]
  cases line.instruction? <;> rfl

@[simp] theorem instructions_append (first second : List Line) :
    instructions (first ++ second) = instructions first ++ instructions second :=
  List.filterMap_append

theorem Line.instruction?_eq_some_iff {line : Line} {number : Nat} {instruction : Instruction} :
    line.instruction? = some (number, instruction) ↔ line = ⟨number, .instruction instruction⟩ := by
  obtain ⟨n, statement⟩ := line
  cases statement <;> simp [Line.instruction?]

/-- Some lines are cut where their instructions are. -/
theorem exists_line_of_instructions {lines : List Line} {number : Nat} {instruction : Instruction}
    {earlier rest : List (Nat × Instruction)}
    (h : instructions lines = earlier ++ (number, instruction) :: rest) :
    ∃ before later, lines = before ++ ⟨number, .instruction instruction⟩ :: later
      ∧ instructions before = earlier := by
  obtain ⟨before, others, rfl, hearlier, hothers⟩ := List.filterMap_eq_append_iff.mp h
  obtain ⟨skipped, line, later, rfl, hskipped, hline, -⟩ := List.filterMap_eq_cons_iff.mp hothers
  rw [Line.instruction?_eq_some_iff] at hline
  refine ⟨before ++ skipped, later, ?_, ?_⟩
  · rw [hline, List.append_assoc]
  · rw [instructions_append, instructions, instructions, hearlier,
      List.filterMap_eq_nil_iff.mpr hskipped, List.append_nil]

end Hack
