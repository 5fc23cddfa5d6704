import Hack.Assembler.Denotation
import Hack.Assembler.Encode
import Hack.Assembler.Labels

/-!
# Sessions

One assembler may serve for more than a program: labels are defined and names are looked up one by
one, and the passes run over any lines, in any order. A call that fails leaves behind what it has
done until then.

* `session` — the assembler after some calls
* `Operation.definition?` — the address that a call gives to a label
* `Assembler.allocated` — the variables of an assembler in the order of their allocation
* `LookUp` — what looking a name up gives, and what it leaves behind
-/

namespace Hack

/-- The assembler that an action leaves behind, whether it fails or not. -/
def AssembleM.after {α : Type} (action : AssembleM α) (run : Assembler) : Assembler :=
  match action run with
  | .ok _ final => final
  | .error _ final => final

/-! ## Calls -/

/-- A call on an assembler. -/
inductive Operation
  | defineLabel (name : String) (address : Address)
  | addressOf (name : String)
  | bindLabels (lines : List Line)
  | encodeLines (lines : List Line)

namespace Assembler

/-- The assembler after a call. -/
def perform (run : Assembler) : Operation → Assembler
  | .defineLabel name address => { run with symbols := run.symbols.defineLabel name address }
  | .addressOf name => (AssembleM.addressOf name).after run
  | .bindLabels lines => (run.bindLabels lines).2
  | .encodeLines lines => (AssembleM.encodeLines lines).after run

end Assembler

/-- The assembler after some calls, one after the other. -/
def session (operations : List Operation) : Assembler :=
  operations.foldl Assembler.perform .initial

/-! ## What the calls do -/

/-- The address that a call gives to a label. Of the declarations in the lines of a first pass the
last one counts. -/
def Operation.definition? (name : String) : Operation → Option Address
  | defineLabel other address => if other = name then some address else none
  | bindLabels lines => (Program.labelValue? name lines).map UInt32.ofNat
  | addressOf _ | encodeLines _ => none

/-- The variable whose allocation an event reports. -/
def Event.allocated? : Event → Option String
  | variableAllocated name _ => some name
  | _ => none

/-- The variables that were allocated, in order. -/
def Assembler.allocated (run : Assembler) : List String :=
  run.log.toList.filterMap Event.allocated?

/-- What looking a name up gives and leaves behind: the label comes first, and only a name that is
neither a label nor a variable is allocated. -/
inductive LookUp (name : String) (run : Assembler) : Address → Assembler → Prop
  | label {address : Address} (hlabel : run.symbols.labelAddress? name = some address) :
      LookUp name run address run
  | known {address : Address} (hlabel : run.symbols.labelAddress? name = none)
      (hvariable : run.symbols.variableAddress? name = some address) :
      LookUp name run address run
  | new {address : Address} {final : Assembler}
      (hlabel : run.symbols.labelAddress? name = none)
      (hvariable : run.symbols.variableAddress? name = none)
      (haddress : address.toNat = 16 + run.allocated.length)
      (hallocated : final.allocated = run.allocated ++ [name]) :
      LookUp name run address final

/-! ## Sessions in two parts -/

theorem session_append (before after : List Operation) :
    session (before ++ after) = after.foldl Assembler.perform (session before) :=
  List.foldl_append

theorem session_snoc (before : List Operation) (operation : Operation) :
    session (before ++ [operation]) = (session before).perform operation :=
  session_append before [operation]

end Hack
