import Hack.Assembler.Denotation
import Hack.Assembler.Session
import Hack.Instruction.Disassembly
import Hack.Main
import Hack.Proofs.Bindings
import Hack.Proofs.Classification
import Hack.Proofs.Denotation
import Hack.Proofs.Exits
import Hack.Proofs.Faults
import Hack.Proofs.InstructionText
import Hack.Proofs.Layout
import Hack.Proofs.Literals
import Hack.Proofs.Log
import Hack.Proofs.Narrowing
import Hack.Proofs.Reassembly
import Hack.Proofs.Renaming
import Hack.Proofs.Repetition
import Hack.Proofs.Dependence
import Hack.Proofs.Spelling
import Hack.Proofs.Capacity
