import Hack.Assembler.Basic
import Hack.Line.Basic

/-!
# Encoding instructions

The second pass turns instructions into words. An operand that is a variable without an address is
allocated at its first use, before it is known whether its address fits into a word.

* `AssembleM.Resolves`, `AssembleM.resolves_resolve` — what resolving an operand does, by what the
  operand stands for
* `AssembleM.encodeLines_append` — lines are encoded one after the other
* `AssembleM.encodeLines_induction` — properties that steps in sequence keep
-/

namespace Hack

namespace AssembleM

/-- The address that the operand of an address load stands for. -/
def resolve (line : Nat) (operand : String) : AssembleM Address := do
  match (← get).symbols.meaning operand with
  | .error fault => throw (.line line fault)
  | .ok found =>
    let address ← match found with
      | some address => pure address
      | none => allocate operand
    if address ≤ maxAddress then return address
    else throw (.line line (.addressOutOfRange address))

theorem resolve_apply (line : Nat) (operand : String) (run : Assembler) :
    resolve line operand run
      = (match run.symbols.meaning operand with
          | .error fault => throw (.line line fault)
          | .ok found => do
            let address ← match found with
              | some address => pure address
              | none => allocate operand
            if address ≤ maxAddress then return address
            else throw (.line line (.addressOutOfRange address)) : AssembleM Address) run := rfl

theorem resolve_of_error {line : Nat} {operand : String} {run : Assembler} {fault : Fault}
    (h : run.symbols.meaning operand = .error fault) :
    resolve line operand run = .error (.line line fault) run := by
  rw [resolve_apply, h]
  rfl

theorem resolve_of_known {line : Nat} {operand : String} {run : Assembler} {address : Address}
    (h : run.symbols.meaning operand = .ok (some address)) :
    resolve line operand run
      = if address ≤ maxAddress then .ok address run
        else .error (.line line (.addressOutOfRange address)) run := by
  rw [resolve_apply, h]
  by_cases hle : address ≤ maxAddress
  · rw [if_pos hle]
    exact congrFun (if_pos hle) run
  · rw [if_neg hle]
    exact congrFun (if_neg hle) run

theorem resolve_of_new {line : Nat} {operand : String} {run : Assembler}
    (h : run.symbols.meaning operand = .ok none) :
    resolve line operand run
      = let address := run.symbols.nextFree
        let after := ⟨run.symbols.allocate operand,
          run.log.push (.variableAllocated operand address)⟩
        if address ≤ maxAddress then .ok address after
        else .error (.line line (.addressOutOfRange address)) after := by
  rw [resolve_apply, h]
  by_cases hle : run.symbols.nextFree ≤ maxAddress
  · rw [if_pos hle]
    exact congrFun (if_pos hle) _
  · rw [if_neg hle]
    exact congrFun (if_neg hle) _

/-- What resolving an operand does: a new variable is allocated, and then an address passes if it
fits into a word. -/
inductive Resolves (line : Nat) (operand : String) (run : Assembler) :
    EStateM.Result AssembleError Assembler Address → Prop
  | unread {fault : Fault} (hmeaning : run.symbols.meaning operand = .error fault) :
      Resolves line operand run (.error (.line line fault) run)
  | known {address : Address} (hmeaning : run.symbols.meaning operand = .ok (some address))
      (hle : address ≤ maxAddress) : Resolves line operand run (.ok address run)
  | far {address : Address} (hmeaning : run.symbols.meaning operand = .ok (some address))
      (hfar : ¬ address ≤ maxAddress) :
      Resolves line operand run (.error (.line line (.addressOutOfRange address)) run)
  | new (hmeaning : run.symbols.meaning operand = .ok none)
      (hle : run.symbols.nextFree ≤ maxAddress) :
      Resolves line operand run (.ok run.symbols.nextFree
        ⟨run.symbols.allocate operand,
          run.log.push (.variableAllocated operand run.symbols.nextFree)⟩)
  | full (hmeaning : run.symbols.meaning operand = .ok none)
      (hfar : ¬ run.symbols.nextFree ≤ maxAddress) :
      Resolves line operand run (.error (.line line (.addressOutOfRange run.symbols.nextFree))
        ⟨run.symbols.allocate operand,
          run.log.push (.variableAllocated operand run.symbols.nextFree)⟩)

theorem resolves_resolve (line : Nat) (operand : String) (run : Assembler) :
    Resolves line operand run (resolve line operand run) := by
  cases hmeaning : run.symbols.meaning operand with
  | error fault =>
    rw [resolve_of_error hmeaning]
    exact .unread hmeaning
  | ok found =>
    cases found with
    | some address =>
      rw [resolve_of_known hmeaning]
      split
      · next hle => exact .known hmeaning hle
      · next hfar => exact .far hmeaning hfar
    | none =>
      rw [resolve_of_new hmeaning]
      simp only
      split
      · next hle => exact .new hmeaning hle
      · next hfar => exact .full hmeaning hfar

/-- The word of an instruction. -/
def word (line : Nat) : Instruction → AssembleM Word
  | .address operand => Word.load <$> resolve line operand
  | .compute dest comp jump => pure (Word.compute dest comp jump)

/-- Turns the instruction of a line into a word. -/
def encode (line : Nat) (instruction : Instruction) : AssembleM Word := do
  let word ← word line instruction
  record (.encoded line instruction word)
  return word

/-- Turns the instructions of some lines into words, one each. -/
def encodeLines (lines : List Line) : AssembleM (List Word) :=
  (instructions lines).mapM fun (line, instruction) => encode line instruction

theorem encodeLines_cons (number : Nat) (instruction : Instruction) (lines : List Line) :
    encodeLines (⟨number, .instruction instruction⟩ :: lines)
      = do
        let word ← encode number instruction
        let words ← encodeLines lines
        return word :: words :=
  List.mapM_cons

theorem encodeLines_append (first second : List Line) :
    encodeLines (first ++ second)
      = do return (← encodeLines first) ++ (← encodeLines second) := by
  simp [encodeLines]

/-- Resolving operands and recording words are all that encoding lines consists of. What holds of
both, and is kept where one action follows another, holds of encoding. -/
theorem encodeLines_induction {P : {α : Type} → AssembleM α → Prop}
    (hpure : ∀ {α : Type} (a : α), P (pure a))
    (hbind : ∀ {α β : Type} {action : AssembleM α} {next : α → AssembleM β}, P action →
      (∀ a, P (next a)) → P (action >>= next))
    (hresolve : ∀ line operand, P (resolve line operand))
    (hrecord : ∀ line instruction word, P (record (.encoded line instruction word)))
    (lines : List Line) : P (encodeLines lines) := by
  have hencode : ∀ line instruction, P (encode line instruction) := by
    intro line instruction
    refine hbind ?_ fun word => hbind (hrecord line instruction word) fun _ => hpure word
    cases instruction with
    | compute dest comp jump => exact hpure _
    | address operand =>
      rw [word, map_eq_pure_bind]
      exact hbind (hresolve line operand) fun _ => hpure _
  rw [encodeLines]
  induction instructions lines with
  | nil => exact hpure []
  | cons numbered rest ih =>
    rw [List.mapM_cons]
    exact hbind (hencode _ _) fun word => hbind ih fun words => hpure (word :: words)

end AssembleM

end Hack
