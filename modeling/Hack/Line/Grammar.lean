import Hack.Diagnostic
import Hack.Error
import Hack.Line.Basic
import Hack.Text.Blank

/-!
# The grammar of a line

A line is read without the blanks at its ends. The first characters of what is left decide how the
whole of it has to go on:

* nothing is left — the line is blank
* `//` — the line is a comment
* `(` — the line is `(symbol)`, the declaration of a label
* `@` — the line is `@symbol`, an address load
* anything else — the line is `dest=comp` or `comp;jump`, a compute instruction

A compute instruction is taken apart before its parts are looked up, so that an unknown mnemonic is
told from a line of the wrong form.

* `Grammar.labelName?_eq_some_iff` — which texts declare a label
* `Grammar.readForm_eq_ok_iff` — which texts have one of the two forms of a compute instruction
* `Grammar.readForm_eq_error` — how far the reading of any other text came
-/

namespace Hack

namespace Grammar

/-! ## Symbols -/

/-- The characters that separate and mark the parts of a line. -/
def isReserved (c : Char) : Bool := ['@', '(', ')', '=', ';', '/'].contains c

/-- Whether a symbol may contain the character. -/
def isSymbolChar (c : Char) : Bool := !isReserved c && !Text.isBlank c

/-- Whether a text is a symbol: one or more characters that a symbol may contain. -/
def isSymbol (text : List Char) : Bool := !text.isEmpty && text.all isSymbolChar

/-- The name in the declaration of a label, from what follows the opening parenthesis. -/
def labelName? (text : List Char) : Option (List Char) :=
  let name := text.takeWhile isSymbolChar
  if name ≠ [] ∧ text.dropWhile isSymbolChar = [')'] then some name else none

theorem isSymbol_iff {text : List Char} :
    isSymbol text = true ↔ text ≠ [] ∧ ∀ c ∈ text, isSymbolChar c = true := by
  simp [isSymbol]

/-- The characters before the first that fails a test, and the others. -/
theorem takeWhile_dropWhile_append_cons {p : Char → Bool} {left : List Char} {c : Char}
    (h : ∀ a ∈ left, p a = true) (hc : p c = false) (right : List Char) :
    (left ++ c :: right).takeWhile p = left ∧ (left ++ c :: right).dropWhile p = c :: right := by
  rw [List.takeWhile_append_of_pos h, List.dropWhile_append_of_pos h]
  simp [hc]

/-- A label is declared by a symbol before a closing parenthesis, and by nothing else. -/
theorem labelName?_eq_some_iff {text name : List Char} :
    labelName? text = some name ↔ text = name ++ [')'] ∧ isSymbol name = true := by
  rw [isSymbol_iff]
  constructor
  · intro h
    simp only [labelName?, Option.ite_none_right_eq_some, Option.some.injEq] at h
    obtain ⟨⟨hne, hdrop⟩, rfl⟩ := h
    refine ⟨?_, hne, fun c hc => List.all_eq_true.mp List.all_takeWhile c hc⟩
    rw [← hdrop, List.takeWhile_append_dropWhile]
  · rintro ⟨rfl, hne, hall⟩
    obtain ⟨htake, hdrop⟩ := takeWhile_dropWhile_append_cons hall (c := ')') (by decide) []
    rw [labelName?, htake, hdrop, if_pos ⟨hne, rfl⟩]

/-! ## Compute instructions -/

/-- Whether a part of a compute instruction may contain the character, in whatever form. -/
def isPartChar (c : Char) : Bool := c != '=' && c != ';' && !Text.isBlank c

/-- Whether a text can stand for a part of a compute instruction. -/
def isPart (text : List Char) : Bool := !text.isEmpty && text.all isPartChar

/-- The two forms of a compute instruction, with their parts as they are spelled. -/
inductive Form
  | assignment (dest comp : List Char)
  | branch (comp jump : List Char)
  deriving DecidableEq

/-- The text of a form. -/
def Form.text : Form → List Char
  | assignment dest comp => dest ++ '=' :: comp
  | branch comp jump => comp ++ ';' :: jump

/-- Whether both parts of a form can stand in a line. -/
def Form.isProper : Form → Bool
  | assignment left right | branch left right => isPart left && isPart right

theorem isPart_iff {text : List Char} :
    isPart text = true ↔ text ≠ [] ∧ ∀ c ∈ text, isPartChar c = true := by
  simp [isPart]

/-! ### Taking a form apart -/

/-- Takes the first part of a compute instruction off a text. -/
def takePart (text : List Char) : Except Diagnostic (List Char × List Char) :=
  if text.takeWhile isPartChar ≠ [] then
    .ok (text.takeWhile isPartChar, text.dropWhile isPartChar)
  else .error (.ofRule (String.ofList text) "TakeTill1")

/-- Takes a character off a text that starts with it. -/
def takeChar (c : Char) (text : List Char) : Except Diagnostic (List Char) :=
  if text.head? = some c then .ok text.tail else .error (.ofChar (String.ofList text) c)

/-- Takes a text apart that is two parts with a separator between them, and nothing else. -/
def takePair (separator : Char) (text : List Char) :
    Except Diagnostic (List Char × List Char) := do
  let (left, rest) ← takePart text
  let rest ← takeChar separator rest
  let (right, rest) ← takePart rest
  if rest = [] then return (left, right) else throw (.ofRule (String.ofList rest) "Eof")

/-- Takes a compute instruction apart, as an assignment if it can be one. -/
def readForm (text : List Char) : Except Diagnostic Form :=
  match takePair '=' text with
  | .ok (dest, comp) => .ok (.assignment dest comp)
  | .error first =>
    match takePair ';' text with
    | .ok (comp, jump) => .ok (.branch comp jump)
    | .error second =>
      .error (((first.or second).addRule (String.ofList text) "Alt").addContext
        (String.ofList text) "parsing compute instruction")

/-- A part ends where the text ends or goes on with a character that no part contains. -/
theorem takePart_append {part rest : List Char} (hpart : isPart part = true)
    (hrest : ∀ c ∈ rest.head?, isPartChar c = false) :
    takePart (part ++ rest) = .ok (part, rest) := by
  obtain ⟨hne, hall⟩ := isPart_iff.mp hpart
  have hsplit : rest.takeWhile isPartChar = [] ∧ rest.dropWhile isPartChar = rest := by
    cases rest with
    | nil => exact ⟨rfl, rfl⟩
    | cons c rest =>
      have hc := hrest c rfl
      exact ⟨List.takeWhile_cons_of_neg (by simp [hc]), List.dropWhile_cons_of_neg (by simp [hc])⟩
  rw [takePart, List.takeWhile_append_of_pos hall, List.dropWhile_append_of_pos hall, hsplit.1,
    hsplit.2, List.append_nil, if_pos hne]

theorem takePart_eq_ok {text part rest : List Char} (h : takePart text = .ok (part, rest)) :
    isPart part = true ∧ part ++ rest = text := by
  unfold takePart at h
  split at h
  · next hne =>
    cases h
    exact ⟨isPart_iff.mpr ⟨hne, fun c hc => List.all_eq_true.mp List.all_takeWhile c hc⟩,
      List.takeWhile_append_dropWhile⟩
  · cases h

theorem takePart_eq_error {text : List Char} {diagnostic : Diagnostic}
    (h : takePart text = .error diagnostic) :
    diagnostic = .ofRule (String.ofList text) "TakeTill1" := by
  unfold takePart at h
  split at h <;> cases h
  rfl

theorem takeChar_eq_ok {c : Char} {text rest : List Char} (h : takeChar c text = .ok rest) :
    text = c :: rest := by
  unfold takeChar at h
  split at h
  · next hhead =>
    cases h
    obtain ⟨rest, rfl⟩ := List.head?_eq_some_iff.mp hhead
    rfl
  · cases h

theorem takeChar_eq_error {c : Char} {text : List Char} {diagnostic : Diagnostic}
    (h : takeChar c text = .error diagnostic) :
    diagnostic = .ofRule (String.ofList text) "Char" := by
  unfold takeChar at h
  split at h <;> cases h
  rfl

theorem takePair_append_cons {separator : Char} {left right : List Char}
    (hseparator : isPartChar separator = false) (hleft : isPart left = true)
    (hright : isPart right = true) :
    takePair separator (left ++ separator :: right) = .ok (left, right) := by
  have hfirst : takePart (left ++ separator :: right) = .ok (left, separator :: right) :=
    takePart_append hleft fun c hc => by cases hc; exact hseparator
  have hchar : takeChar separator (separator :: right) = .ok right := if_pos rfl
  have hsecond : takePart right = .ok (right, []) := by
    have h := takePart_append hright fun c (hc : c ∈ [].head?) => (nomatch hc)
    rwa [List.append_nil] at h
  rw [takePair, hfirst]
  simp only [bind, Except.bind, hchar, hsecond]
  rfl

/-- How the taking apart of a text ends: with two parts, or with a rule that failed somewhere in the
text. -/
theorem takePair_cases (separator : Char) (text : List Char) :
    (∃ left right, takePair separator text = .ok (left, right)
        ∧ text = left ++ separator :: right ∧ isPart left = true ∧ isPart right = true)
      ∨ ∃ rest rule, rest <:+ text
        ∧ takePair separator text = .error (.ofRule (String.ofList rest) rule) := by
  unfold takePair
  cases hleft : takePart text with
  | error diagnostic =>
    exact .inr ⟨text, "TakeTill1", List.suffix_refl text, by rw [takePart_eq_error hleft]; rfl⟩
  | ok first =>
    obtain ⟨left, rest⟩ := first
    obtain ⟨hpart, rfl⟩ := takePart_eq_ok hleft
    cases hchar : takeChar separator rest with
    | error diagnostic =>
      refine .inr ⟨rest, "Char", List.suffix_append left rest, ?_⟩
      rw [← takeChar_eq_error hchar]
      simp only [bind, Except.bind, hchar]
    | ok tail =>
      obtain rfl := takeChar_eq_ok hchar
      cases hright : takePart tail with
      | error diagnostic =>
        refine .inr ⟨tail, "TakeTill1", ⟨left ++ [separator], by simp⟩, ?_⟩
        rw [← takePart_eq_error hright]
        simp only [bind, Except.bind, hchar, hright]
      | ok second =>
        obtain ⟨right, leftover⟩ := second
        obtain ⟨hpart', rfl⟩ := takePart_eq_ok hright
        by_cases hend : leftover = []
        · subst hend
          refine .inl ⟨left, right, ?_, by simp, hpart, hpart'⟩
          simp only [bind, Except.bind, hchar, hright]
          rfl
        · refine .inr ⟨leftover, "Eof", ⟨left ++ separator :: right, by simp⟩, ?_⟩
          simp only [bind, Except.bind, hchar, hright, if_neg hend]
          rfl

/-- A text that is taken apart is two parts around the separator. -/
theorem takePair_eq_ok {separator : Char} {text left right : List Char}
    (h : takePair separator text = .ok (left, right)) :
    text = left ++ separator :: right ∧ isPart left = true ∧ isPart right = true := by
  rcases takePair_cases separator text with ⟨l, r, hok, hparts⟩ | ⟨rest, rule, -, herror⟩
  · rw [h] at hok
    cases hok
    exact hparts
  · rw [h] at herror
    cases herror

/-- The separator of a text with two parts is not any other. -/
theorem takePair_of_other {separator other : Char} {left right : List Char}
    (hother : isPartChar other = false) (hne : separator ≠ other) (hleft : isPart left = true) :
    ∃ diagnostic, takePair separator (left ++ other :: right) = .error diagnostic := by
  refine ⟨.ofRule (String.ofList (other :: right)) "Char", ?_⟩
  have hchar : takeChar separator (other :: right)
      = .error (.ofRule (String.ofList (other :: right)) "Char") :=
    if_neg fun h => hne (Option.some.inj h).symm
  have hfirst : takePart (left ++ other :: right) = .ok (left, other :: right) :=
    takePart_append hleft fun c hc => by cases hc; exact hother
  rw [takePair, hfirst]
  simp only [bind, Except.bind, hchar]

theorem readForm_text {form : Form} (h : form.isProper = true) : readForm form.text = .ok form := by
  cases form with
  | assignment dest comp =>
    obtain ⟨hdest, hcomp⟩ := Bool.and_eq_true_iff.mp h
    rw [readForm, Form.text, takePair_append_cons (by decide) hdest hcomp]
  | branch comp jump =>
    obtain ⟨hcomp, hjump⟩ := Bool.and_eq_true_iff.mp h
    obtain ⟨first, hfirst⟩ : ∃ first, takePair '=' (comp ++ ';' :: jump) = .error first :=
      takePair_of_other (by decide) (by decide) hcomp
    rw [readForm, Form.text, hfirst, takePair_append_cons (by decide) hcomp hjump]

/-- A text is taken apart into a form whose parts are proper, and whose text it is. -/
theorem readForm_eq_ok_iff {text : List Char} {form : Form} :
    readForm text = .ok form ↔ text = form.text ∧ form.isProper = true := by
  constructor
  · intro h
    unfold readForm at h
    split at h
    · next hpair =>
      cases h
      obtain ⟨htext, hparts⟩ := takePair_eq_ok hpair
      exact ⟨htext, Bool.and_eq_true_iff.mpr hparts⟩
    · split at h
      · next hpair =>
        cases h
        obtain ⟨htext, hparts⟩ := takePair_eq_ok hpair
        exact ⟨htext, Bool.and_eq_true_iff.mpr hparts⟩
      · cases h
  · rintro ⟨rfl, h⟩
    exact readForm_text h

/-- A text without a form is refused for what keeps it from being a branch, at the place in it where
that was noticed. -/
theorem readForm_eq_error {text : List Char} {diagnostic : Diagnostic}
    (h : readForm text = .error diagnostic) :
    ∃ rest rule, rest <:+ text
      ∧ takePair ';' text = .error (.ofRule (String.ofList rest) rule)
      ∧ diagnostic = ((Diagnostic.ofRule (String.ofList rest) rule).addRule (String.ofList text)
          "Alt").addContext (String.ofList text) "parsing compute instruction" := by
  unfold readForm at h
  split at h
  · cases h
  · split at h
    · cases h
    · next second hsecond =>
      cases h
      rcases takePair_cases ';' text with ⟨left, right, hok, -⟩ | ⟨rest, rule, hsuffix, herror⟩
      · rw [hsecond] at hok
        cases hok
      · rw [hsecond] at herror
        cases herror
        exact ⟨rest, rule, hsuffix, hsecond, rfl⟩

example : readForm "D=M;".toList = .error ⟨.rule "=M;" "Char",
    [.rule "D=M;" "Alt", .context "D=M;" "parsing compute instruction"]⟩ := rfl

/-! ### Reading a compute instruction -/

/-- Reads the mnemonic with a given spelling. -/
def mnemonic (α : Type) [Mnemonic α] (spelling : List Char) : Except Diagnostic α :=
  match Mnemonic.read? spelling with
  | some a => .ok a
  | none => .error (.ofMnemonic (String.ofList spelling) (Mnemonic.name α))

/-- The instruction of a form. Its parts are looked up in the order of the source. -/
def Form.instruction : Form → Except Diagnostic Instruction
  | assignment dest comp => do
    let dest ← mnemonic Dest dest
    let comp ← mnemonic Comp comp
    return .compute dest comp .null
  | branch comp jump => do
    let comp ← mnemonic Comp comp
    let jump ← mnemonic Jump jump
    return .compute .null comp jump

/-- Reads a compute instruction. -/
def compute (text : List Char) : Except Diagnostic Instruction := do
  (← readForm text).instruction

end Grammar

/-! ## Lines -/

/-- The fault of a line that was refused as a compute instruction. -/
def Fault.ofDiagnostic (text : String) (diagnostic : Diagnostic) : Fault :=
  match diagnostic.cause with
  | .mnemonic spelling part => .unknownMnemonic part spelling
  | _ => .invalidSyntax text

open Grammar in
/-- Reads what a line says from its text without the blanks at its ends. -/
def Statement.ofText (text : List Char) : Except Fault Statement :=
  match text with
  | [] => .ok .blank
  | '/' :: '/' :: _ => .ok .comment
  | '(' :: rest =>
    match labelName? rest with
    | some name => .ok (.label (String.ofList name))
    | none => .error (.malformedLabel (String.ofList text))
  | '@' :: operand =>
    if isSymbol operand then .ok (.instruction (.address (String.ofList operand)))
    else .error (.malformedAddress (String.ofList text))
  | _ =>
    match compute text with
    | .ok found => .ok (.instruction found)
    | .error diagnostic => .error (.ofDiagnostic (String.ofList text) diagnostic)

namespace Line

/-- Reads the characters of a line with a given number. -/
def ofChars (number : Nat) (raw : List Char) : Except AssembleError Line :=
  match Statement.ofText (Text.trim raw) with
  | .ok statement => .ok ⟨number, statement⟩
  | .error fault => .error (.line number fault)

/-- Reads a line with a given number. -/
def parse (number : Nat) (raw : String) : Except AssembleError Line := ofChars number raw.toList

end Line

end Hack
