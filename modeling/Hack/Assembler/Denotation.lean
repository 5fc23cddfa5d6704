import Hack.Line.Basic
import Hack.Symbol.Operand

/-!
# What a program denotes

The value of an operand, read off the whole list of lines at once, with no table and no order of
evaluation: a label stands for the number of instructions before its last declaration, and a
variable has the place of its first use among the variables.

* `Program.labelValue?` — the value of a label
* `Program.variableNames` — the variables in the order of their first uses
* `Program.value?` — the value of an operand
* `Program.denote` — the word of an instruction, or what is wrong with it
-/

namespace Hack

/-- The operand of an address load. -/
def Instruction.operand? : Instruction → Option String
  | address operand => some operand
  | compute .. => none

namespace Program

/-! ## Labels and variables -/

/-- The number of instructions before the last declaration of a label. -/
def labelValue? (name : String) : List Line → Option Nat
  | [] => none
  | line :: rest =>
    match labelValue? name rest with
    | some value => some (line.instruction?.toList.length + value)
    | none => if line.statement = .label name then some 0 else none

/-- The operands of the address loads, in order. -/
def operands (lines : List Line) : List String :=
  (instructions lines).filterMap fun (_, instruction) => instruction.operand?

/-- Whether an operand is a variable: neither predefined, nor declared, nor a literal. -/
def isVariable (lines : List Line) (operand : String) : Bool :=
  (predefined? operand).isNone && (labelValue? operand lines).isNone && !startsWithDigit operand

/-- The variables in the order of their first uses. -/
def variableNames (lines : List Line) : List String :=
  ((operands lines).filter (isVariable lines)).eraseDups

/-! ## Values -/

/-- The number that a literal denotes, unless it is too large for any address. -/
def literalValue? (operand : String) : Option Nat :=
  let value := Nat.ofDigitChars 10 operand.toList 0
  if Text.isDecimal operand.toList ∧ value < UInt32.size then some value else none

/-- The value of an operand, unless it is a literal that denotes none. -/
def value? (lines : List Line) (operand : String) : Option Nat :=
  match predefined? operand, labelValue? operand lines with
  | some address, _ => some address.toNat
  | none, some value => some value
  | none, none =>
    if startsWithDigit operand then literalValue? operand
    else some (16 + (variableNames lines).idxOf operand)

/-- The word of the instruction of a line, or what is wrong with it. -/
def denote (lines : List Line) (line : Nat) : Instruction → Except AssembleError Word
  | .address operand =>
    match value? lines operand with
    | none => .error (.line line (.invalidLiteral operand))
    | some value =>
      if value ≤ maxAddress.toNat then .ok (UInt16.ofNat value)
      else .error (.line line (.addressOutOfRange (UInt32.ofNat value)))
  | .compute dest comp jump => .ok (Word.compute dest comp jump)

/-- The words of some lines, or what is wrong with the first instruction that has none. -/
def denotation (lines : List Line) : Except AssembleError (List Word) :=
  (instructions lines).mapM fun (line, instruction) => denote lines line instruction

/-! ## Programs in two parts -/

theorem labelValue?_append (name : String) (first second : List Line) :
    labelValue? name (first ++ second)
      = match labelValue? name second with
        | some value => some ((instructions first).length + value)
        | none => labelValue? name first := by
  induction first with
  | nil => cases h : labelValue? name second <;> simp [labelValue?, h]
  | cons line first ih =>
    rw [List.cons_append, labelValue?, ih, instructions_cons, List.length_append, labelValue?]
    cases labelValue? name second with
    | none => rfl
    | some value => simp [Nat.add_assoc]

theorem operands_append (first second : List Line) :
    operands (first ++ second) = operands first ++ operands second := by
  simp [operands]

end Program

end Hack
