/-!
# Diagnostics

Why a text is not what the grammar asks for. A diagnostic has a cause and a trail, which grows as
the diagnostic travels outwards through the rules that were being tried.
-/

namespace Hack

/-- A single finding. -/
inductive Cause
  /-- The input does not match the rule. -/
  | rule (input rule : String)
  /-- The input was being read as part of what the context names. -/
  | context (input context : String)
  /-- The part of a compute instruction has no mnemonic with this spelling. -/
  | mnemonic (spelling part : String)
  /-- A decimal numeral stands for a number that is not an address. -/
  | decimalValue
  deriving DecidableEq

/-- Why a text was refused, and where that was noticed, innermost first. -/
structure Diagnostic where
  cause : Cause
  trail : List Cause
  deriving DecidableEq

namespace Diagnostic

/-! ## Causes -/

/-- A diagnostic with an empty trail. -/
def ofCause (cause : Cause) : Diagnostic := ⟨cause, []⟩

/-- The input does not match the rule. -/
def ofRule (input rule : String) : Diagnostic := ofCause (.rule input rule)

/-- The input does not start with the one character that is asked for; the rule of that is
called `Char`. -/
def ofChar (input : String) (_ : Char) : Diagnostic := ofRule input "Char"

/-- The part has no mnemonic with this spelling. -/
def ofMnemonic (spelling part : String) : Diagnostic := ofCause (.mnemonic spelling part)

/-- The numeral stands for a number that is not an address. -/
def ofDecimalValue : Diagnostic := ofCause .decimalValue

/-! ## Trails -/

/-- Notes that an outer rule failed too. -/
def addRule (diagnostic : Diagnostic) (input rule : String) : Diagnostic :=
  { diagnostic with trail := diagnostic.trail ++ [.rule input rule] }

/-- Notes what was being read. -/
def addContext (diagnostic : Diagnostic) (input context : String) : Diagnostic :=
  { diagnostic with trail := diagnostic.trail ++ [.context input context] }

/-- Where two alternatives fail, the diagnostic of the second one counts. -/
def or (_ second : Diagnostic) : Diagnostic := second

@[simp] theorem cause_addRule (diagnostic : Diagnostic) (input rule : String) :
    (diagnostic.addRule input rule).cause = diagnostic.cause := rfl

@[simp] theorem cause_addContext (diagnostic : Diagnostic) (input context : String) :
    (diagnostic.addContext input context).cause = diagnostic.cause := rfl

end Diagnostic

end Hack
