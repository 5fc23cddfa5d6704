import Hack.Error
import Hack.Event
import Hack.Symbol.Operand

/-!
# The state of an assembler

An assembler has a symbol table and a log. What a failing step has done to them stays.

* `AssembleM.allocate_apply` — allocating binds the name to the next free address and says so
* `AssembleM.addressOf_of_bound`, `AssembleM.addressOf_of_unbound` — a name is allocated only if it
  is not bound
-/

namespace Hack

/-- A symbol table and the events so far, in order. -/
structure Assembler where
  symbols : SymbolTable
  log : Array Event

namespace Assembler

/-- The assembler that a table starts, with an empty log. -/
def ofTable (symbols : SymbolTable) : Assembler := ⟨symbols, #[]⟩

/-- The assembler before a program. -/
def initial : Assembler := ofTable .empty

end Assembler

/-- An action of an assembler that may fail. -/
abbrev AssembleM := EStateM AssembleError Assembler

namespace AssembleM

/-- Adds an event to the log. -/
def record (event : Event) : AssembleM Unit :=
  modify fun run => { run with log := run.log.push event }

/-- Allocates a variable. -/
def allocate (name : String) : AssembleM Address := do
  let address := (← get).symbols.nextFree
  modify fun run => { run with symbols := run.symbols.allocate name }
  record (.variableAllocated name address)
  return address

/-- The address of a name, which is allocated as a variable if it has none. -/
def addressOf (name : String) : AssembleM Address := do
  match (← get).symbols.address? name with
  | some address => return address
  | none => allocate name

/-! ## Equations -/

theorem allocate_apply (name : String) (run : Assembler) :
    allocate name run
      = .ok run.symbols.nextFree
          ⟨run.symbols.allocate name,
            run.log.push (.variableAllocated name run.symbols.nextFree)⟩ := rfl

theorem addressOf_apply (name : String) (run : Assembler) :
    addressOf name run
      = (match run.symbols.address? name with
          | some address => pure address
          | none => allocate name : AssembleM Address) run := rfl

theorem addressOf_of_bound {name : String} {run : Assembler} {address : Address}
    (h : run.symbols.address? name = some address) : addressOf name run = .ok address run := by
  rw [addressOf_apply, h]
  rfl

theorem addressOf_of_unbound {name : String} {run : Assembler}
    (h : run.symbols.address? name = none) : addressOf name run = allocate name run := by
  rw [addressOf_apply, h]

end AssembleM

end Hack
