import Hack.Error
import Hack.Event
import Hack.Line.Grammar

/-!
# Messages

What a reader of the program's output is told: the level and the message of an event, and the text
of an error. The texts are written out here once more, word for word, apart from the functions that
compute them.

* `Event.Says`, `Event.says_message` — what is said of an event
* `AssembleError.Says`, `AssembleError.says_iff` — what is said of an error
* `AssembleError.exists_message_eq` — the message of a fault names its line and what it is about
* `AssembleError.message_line_inj` — so it is clear from the message which line is meant
-/

namespace Hack

/-! ## Events -/

namespace Event

/-- What is said of an event, and how loudly. -/
inductive Says : Event → Level → String → Prop
  | labelShadowed (line : Nat) (name : String) :
      Says (.labelShadowed line name) .warn "label shadowed by predefined symbol"
  | labelRedefined (line : Nat) (name : String) (previous : Address) (address : Nat) :
      Says (.labelRedefined line name previous address) .warn "label redefined"
  | labelBound (name : String) (address : Nat) :
      Says (.labelBound name address) .debug "bound label"
  | variableAllocated (name : String) (address : Address) :
      Says (.variableAllocated name address) .debug "allocated variable"
  | encoded {word : Word} {digits : String} (line : Nat) (instruction : Instruction)
      (hdigits : word.IsNumeral digits) :
      Says (.encoded line instruction word) .trace (instruction.text ++ " => " ++ digits)
  | assembled (instructionCount labelCount variableCount : Nat) :
      Says (.assembled instructionCount labelCount variableCount) .debug "assembled"

theorem says_message (event : Event) : event.Says event.level event.message := by
  cases event with
  | labelShadowed line name => exact .labelShadowed line name
  | labelRedefined line name previous address => exact .labelRedefined line name previous address
  | labelBound name address => exact .labelBound name address
  | variableAllocated name address => exact .variableAllocated name address
  | encoded line instruction word => exact .encoded line instruction word.isNumeral_binary
  | assembled instructionCount labelCount variableCount =>
    exact .assembled instructionCount labelCount variableCount

theorem Says.level_eq {event : Event} {level : Level} {message : String}
    (h : event.Says level message) : event.level = level := by
  cases h <;> rfl

end Event

/-! ## Errors -/

namespace Fault

variable {fault : Fault}

/-- What is said of a fault. -/
inductive Says : Fault → String → Prop
  | malformedLabel (text : String) :
      Says (.malformedLabel text) ("malformed label declaration `" ++ text ++ "`")
  | malformedAddress (text : String) :
      Says (.malformedAddress text) ("malformed address instruction `" ++ text ++ "`")
  | invalidSyntax (text : String) :
      Says (.invalidSyntax text) ("expected `dest=comp` or `comp;jump`, found `" ++ text ++ "`")
  | unknownMnemonic (part spelling : String) :
      Says (.unknownMnemonic part spelling)
        ("unknown " ++ part ++ " mnemonic `" ++ spelling ++ "`")
  | invalidLiteral (literal : String) :
      Says (.invalidLiteral literal) ("invalid numeric literal `" ++ literal ++ "`")
  | addressOutOfRange (value : Address) :
      Says (.addressOutOfRange value)
        ("address " ++ toString value.toNat ++ " does not fit in 15 bits")

/-- The text or the number that a fault is about. -/
def subject : Fault → String
  | malformedLabel text | malformedAddress text | invalidSyntax text => text
  | unknownMnemonic _ spelling => spelling
  | invalidLiteral literal => literal
  | addressOutOfRange value => toString value.toNat

theorem says_message (fault : Fault) : fault.Says fault.message := by
  cases fault with
  | malformedLabel text => exact .malformedLabel text
  | malformedAddress text => exact .malformedAddress text
  | invalidSyntax text => exact .invalidSyntax text
  | unknownMnemonic part spelling => exact .unknownMnemonic part spelling
  | invalidLiteral literal => exact .invalidLiteral literal
  | addressOutOfRange value => exact .addressOutOfRange value

theorem Says.unique {first second : String} (hfirst : fault.Says first)
    (hsecond : fault.Says second) : first = second := by
  cases hfirst <;> cases hsecond <;> rfl

theorem Says.exists_eq {text : String} (h : fault.Says text) :
    ∃ before after, text = before ++ fault.subject ++ after := by
  cases h <;> exact ⟨_, _, rfl⟩

end Fault

/-- What is said of a file that was not read, or an output that was not written. -/
inductive StreamError.Says : StreamError → String → Prop
  | notFound : Says .notFound "No such file or directory (os error 2)"
  | isDirectory : Says .isDirectory "Is a directory (os error 21)"
  | notDirectory : Says .notDirectory "Not a directory (os error 20)"
  | nameTooLong : Says .nameTooLong "File name too long (os error 36)"
  | invalidText : Says .invalidText "stream did not contain valid UTF-8"
  | writeRefused : Says .writeRefused "failed to write whole buffer"
  | flushRefused : Says .flushRefused "failed to write the buffered data"
  | other (description : String) : Says (.other description) description

theorem StreamError.says_message (error : StreamError) : error.Says error.message := by
  cases error <;> constructor

theorem StreamError.Says.unique {error : StreamError} {first second : String}
    (hfirst : error.Says first) (hsecond : error.Says second) : first = second := by
  cases hfirst <;> cases hsecond <;> rfl

namespace AssembleError

/-- What is said of an error. -/
inductive Says : AssembleError → String → Prop
  | line {fault : Fault} {text : String} (number : Nat) (h : fault.Says text) :
      Says (.line number fault) ("line " ++ toString number ++ ": " ++ text)
  | countMismatch (counted emitted : Nat) :
      Says (.countMismatch counted emitted)
        ("first pass counted " ++ toString counted ++ " instructions but second pass emitted "
          ++ toString emitted)
  | stream {error : StreamError} {text : String} (h : error.Says text) : Says (.stream error) text

theorem says_message (error : AssembleError) : error.Says error.message := by
  cases error with
  | line number fault => exact .line number fault.says_message
  | countMismatch counted emitted => exact .countMismatch counted emitted
  | stream error => exact .stream error.says_message

theorem Says.unique {error : AssembleError} {first second : String} (hfirst : error.Says first)
    (hsecond : error.Says second) : first = second := by
  cases hfirst with
  | line number hfirst => cases hsecond with | line _ hsecond => rw [hfirst.unique hsecond]
  | countMismatch counted emitted => cases hsecond; rfl
  | stream hfirst => cases hsecond with | stream hsecond => exact hfirst.unique hsecond

/-- One thing is said of an error, and that is its message. -/
theorem says_iff {error : AssembleError} {text : String} :
    error.Says text ↔ text = error.message := by
  refine ⟨fun h => h.unique error.says_message, ?_⟩
  rintro rfl
  exact error.says_message

/-! ### What a message tells -/

/-- The message of a fault starts with the number of its line, and what it is about is in it. -/
theorem exists_message_eq (number : Nat) (fault : Fault) :
    ∃ before after, (line number fault).message
      = "line " ++ toString number ++ ": " ++ (before ++ fault.subject ++ after) := by
  obtain ⟨before, after, hfault⟩ := fault.says_message.exists_eq
  exact ⟨before, after, by rw [← hfault]; rfl⟩

theorem toList_message_line (number : Nat) (fault : Fault) :
    (line number fault).message.toList
      = "line ".toList ++ ((toString number).toList ++ ':' :: ' ' :: fault.message.toList) := by
  have hcolon : ": ".toList = [':', ' '] := by decide
  show ("line " ++ toString number ++ ": " ++ fault.message).toList = _
  rw [String.toList_append, String.toList_append, String.toList_append, hcolon,
    List.append_assoc, List.append_assoc, List.cons_append, List.cons_append, List.nil_append]

/-- A number ends at the first colon behind it. -/
theorem takeWhile_dropWhile_toString_colon (number : Nat) (rest : List Char) :
    ((toString number).toList ++ ':' :: rest).takeWhile (· != ':') = (toString number).toList
      ∧ ((toString number).toList ++ ':' :: rest).dropWhile (· != ':') = ':' :: rest := by
  refine Grammar.takeWhile_dropWhile_append_cons (fun c hc => bne_iff_ne.mpr ?_) (by simp) rest
  rintro rfl
  exact absurd (Text.isDigit_of_mem_toString _ hc) (by decide)

/-- Faults with the same message are on the same line, and the same is said of them. -/
theorem message_line_inj {first second : Nat} {fault other : Fault}
    (h : (line first fault).message = (line second other).message) :
    first = second ∧ fault.message = other.message := by
  have hlists := congrArg String.toList h
  rw [toList_message_line, toList_message_line] at hlists
  have hrest := List.append_cancel_left hlists
  have hnumber := congrArg (List.takeWhile (· != ':')) hrest
  have hfault := congrArg (List.dropWhile (· != ':')) hrest
  simp only [takeWhile_dropWhile_toString_colon] at hnumber hfault
  exact ⟨Text.eq_of_toString_eq (String.toList_inj.mp hnumber),
    String.toList_inj.mp (List.cons.inj (List.cons.inj hfault).2).2⟩

end AssembleError

end Hack
