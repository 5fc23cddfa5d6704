import Hack.Diagnostic
import Hack.Error
import Hack.Symbol.Predefined
import Hack.Symbol.Table
import Hack.Text.Numeral

/-!
# What an operand stands for

The operand of an address load is, in this order: a predefined name, a label, a decimal literal if
it starts with a digit, or else a variable. A label whose name starts with a digit hides the
literal of the same spelling; a predefined name hides a label.
-/

namespace Hack

/-! ## Literals -/

/-- Why a text is no decimal numeral: it does not start with a digit, or it goes on with something
else behind its digits. -/
def numeralDiagnostic (text : List Char) : Diagnostic :=
  if text.takeWhile Char.isDigit = [] then .ofRule (String.ofList text) "Digit"
  else .ofRule (String.ofList (text.dropWhile Char.isDigit)) "Eof"

/-- Reads a decimal literal: digits only, any number of leading zeros, and a value that has room in
an address. -/
def readLiteral (text : List Char) : Except Diagnostic Address :=
  if Text.isDecimal text then
    match Text.decimalBelow? UInt32.size text with
    | some value => .ok (UInt32.ofNat value)
    | none => .error .ofDecimalValue
  else
    .error ((numeralDiagnostic text).addContext (String.ofList text) "parsing decimal literal")

/-- Whether an operand starts with an ASCII digit, as literals do. -/
def startsWithDigit (operand : String) : Bool := operand.toList.head?.any Char.isDigit

/-! ## Operands -/

/-- What an operand stands for: its address, or nothing if it is a variable that has not been
allocated yet. -/
def SymbolTable.meaning (table : SymbolTable) (operand : String) :
    Except Fault (Option Address) :=
  match (predefined? operand).or (table.labelAddress? operand) with
  | some address => .ok (some address)
  | none =>
    if startsWithDigit operand then
      match readLiteral operand.toList with
      | .ok value => .ok (some value)
      | .error _ => .error (.invalidLiteral operand)
    else .ok (table.variableAddress? operand)

end Hack
