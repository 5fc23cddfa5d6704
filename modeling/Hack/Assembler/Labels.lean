import Hack.Assembler.Basic
import Hack.Line.Basic

/-!
# Binding labels

The first pass counts instructions. A label stands for the number of instructions before it, which
is bound with the width of an address whatever the number is.

* `Assembler.fst_bindLabels` — the count is the number of instructions
-/

namespace Hack

namespace Assembler

/-- What the log says of a label that is about to be bound. -/
def declarationEvents (symbols : SymbolTable) (line : Nat) (name : String) (count : Nat) :
    List Event :=
  (if (predefined? name).isSome then [.labelShadowed line name] else [])
    ++ ((symbols.labelAddress? name).toList.map fun previous =>
      .labelRedefined line name previous count)
    ++ [.labelBound name count]

/-- Binds a label that a line declares after `count` instructions. -/
def declare (run : Assembler) (line : Nat) (name : String) (count : Nat) : Assembler :=
  { symbols := run.symbols.defineLabel name (UInt32.ofNat count)
    log := run.log ++ declarationEvents run.symbols line name count }

/-- Counts an instruction, or binds a label. -/
def bindLine : Nat × Assembler → Line → Nat × Assembler
  | (count, run), line =>
    match line.statement with
    | .label name => (count, run.declare line.number name count)
    | .instruction _ => (count + 1, run)
    | _ => (count, run)

/-- Binds the labels of some lines, and counts the instructions. -/
def bindLabels (run : Assembler) (lines : List Line) : Nat × Assembler :=
  lines.foldl bindLine (0, run)

theorem fst_foldl_bindLine (lines : List Line) (state : Nat × Assembler) :
    (lines.foldl bindLine state).1 = state.1 + (instructions lines).length := by
  induction lines generalizing state with
  | nil => rfl
  | cons line lines ih =>
    rw [List.foldl_cons, ih, instructions_cons, List.length_append, ← Nat.add_assoc]
    cases h : line.statement <;> simp [bindLine, Line.instruction?, h]

/-- The count is the number of instructions. -/
theorem fst_bindLabels (run : Assembler) (lines : List Line) :
    (run.bindLabels lines).1 = (instructions lines).length := by
  rw [bindLabels, fst_foldl_bindLine, Nat.zero_add]

end Assembler

end Hack
