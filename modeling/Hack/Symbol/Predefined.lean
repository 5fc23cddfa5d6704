import Hack.Word

/-!
# Predefined names

The names that every program may use without declaring them: the registers at the bottom of data
memory, the pointers that share the first of them, and the memory of screen and keyboard.
-/

namespace Hack

/-- The predefined names and their addresses. -/
def predefined : List (String × Address) :=
  [("R0", 0), ("R1", 1), ("R2", 2), ("R3", 3), ("R4", 4), ("R5", 5), ("R6", 6), ("R7", 7),
   ("R8", 8), ("R9", 9), ("R10", 10), ("R11", 11), ("R12", 12), ("R13", 13), ("R14", 14),
   ("R15", 15),
   ("SP", 0), ("LCL", 1), ("ARG", 2), ("THIS", 3), ("THAT", 4),
   ("SCREEN", 16384), ("KBD", 24576)]

/-- The address of a predefined name. -/
def predefined? (name : String) : Option Address := predefined.lookup name

end Hack
