import Hack.Proofs.Repetition

/-!
# Literals

An operand that starts with a digit, and is not declared as a label, is read as a decimal numeral.
Its first character, its other characters and its value each decide a part of what becomes of it.

* `isDecimal_iff` — what an operand that starts with a digit needs to be a numeral
* `SymbolTable.meaning_of_startsWithDigit` — what it stands for
* `AssembleM.resolve_literal` — the address that it is resolved to, or what is wrong with it
-/

namespace Hack

open Program

variable {operand : String} {table : SymbolTable} {run : Assembler}

/-! ## Numerals -/

theorem isDecimal_iff (hdigit : startsWithDigit operand = true) :
    Text.isDecimal operand.toList = true ↔ ∀ c ∈ operand.toList, c.isDigit = true := by
  unfold startsWithDigit at hdigit
  cases htext : operand.toList with
  | nil =>
    rw [htext] at hdigit
    cases hdigit
  | cons first rest => simp [Text.isDecimal]

theorem literalValue?_of_numeral (hdigit : startsWithDigit operand = true)
    (hall : ∀ c ∈ operand.toList, c.isDigit = true)
    (hlt : Nat.ofDigitChars 10 operand.toList 0 < UInt32.size) :
    literalValue? operand = some (Nat.ofDigitChars 10 operand.toList 0) :=
  if_pos ⟨(isDecimal_iff hdigit).mpr hall, hlt⟩

theorem literalValue?_of_not_numeral (hdigit : startsWithDigit operand = true)
    (h : (∃ c ∈ operand.toList, c.isDigit = false)
      ∨ UInt32.size ≤ Nat.ofDigitChars 10 operand.toList 0) :
    literalValue? operand = none := by
  refine if_neg fun hnumeral => ?_
  obtain ⟨hdecimal, hlt⟩ := hnumeral
  rcases h with ⟨c, hc, hother⟩ | hge
  · rw [(isDecimal_iff hdigit).mp hdecimal c hc] at hother
    cases hother
  · exact Nat.not_le_of_lt hlt hge

/-! ## Operands that start with a digit -/

namespace SymbolTable

/-- A label hides the literal of the same spelling, and no predefined name starts with a digit. -/
theorem meaning_of_startsWithDigit (hdigit : startsWithDigit operand = true)
    (hlabel : table.labelAddress? operand = none) :
    table.meaning operand
      = match literalValue? operand with
        | some value => .ok (some (UInt32.ofNat value))
        | none => .error (.invalidLiteral operand) := by
  unfold meaning
  rw [predefined?_of_startsWithDigit hdigit, hlabel, hdigit]
  cases hvalue : literalValue? operand with
  | some value =>
    rw [readLiteral_of_value hvalue]
    rfl
  | none =>
    obtain ⟨diagnostic, hread⟩ := readLiteral_of_no_value hvalue
    rw [hread]
    rfl

end SymbolTable

namespace AssembleM

theorem resolve_of_numeral (number : Nat) (hdigit : startsWithDigit operand = true)
    (hlabel : run.symbols.labelAddress? operand = none)
    (hall : ∀ c ∈ operand.toList, c.isDigit = true)
    (hlt : Nat.ofDigitChars 10 operand.toList 0 < UInt32.size) :
    ∃ address : Address, address.toNat = Nat.ofDigitChars 10 operand.toList 0
      ∧ resolve number operand run
          = if address.toNat ≤ 32767 then .ok address run
            else .error (.line number (.addressOutOfRange address)) run := by
  have hmax : maxAddress.toNat = 32767 := by decide
  have hvalue := literalValue?_of_numeral hdigit hall hlt
  refine ⟨UInt32.ofNat (Nat.ofDigitChars 10 operand.toList 0), UInt32.toNat_ofNat_of_lt hlt, ?_⟩
  have hmeaning := SymbolTable.meaning_of_startsWithDigit hdigit hlabel
  rw [hvalue] at hmeaning
  rw [resolve_of_known hmeaning]
  simp only [UInt32.le_iff_toNat_le, hmax]

theorem ne_invalidLiteral_of_not_digit (hdigit : startsWithDigit operand = false)
    (number line : Nat) (literal : String) (run after : Assembler) :
    resolve number operand run ≠ .error (.line line (.invalidLiteral literal)) after := by
  intro h
  obtain ⟨fault, herror, hfailed⟩ := resolve_eq_error h
  cases herror
  generalize after.symbols = left at hfailed
  cases hfailed with
  | unread hother =>
    rw [hdigit] at hother
    cases hother

/-- Resolving an operand that starts with a digit, and is no label, changes nothing. A decimal
numeral gives its value, however many zeros it starts with, unless that is too large for a word;
then it is reported as an address if it has 32 bits, and as a text if it has more. An operand with
any other character is reported as a text too, but not if that character is the first. -/
theorem resolve_literal (number : Nat) (operand : String) (run : Assembler) :
    (startsWithDigit operand = true → predefined? operand = none →
        run.symbols.labelAddress? operand = none →
        ((∀ c ∈ operand.toList, c.isDigit = true) →
            Nat.ofDigitChars 10 operand.toList 0 ≤ 32767 →
            ∃ address, resolve number operand run = .ok address run
              ∧ address.toNat = Nat.ofDigitChars 10 operand.toList 0)
          ∧ ((∀ c ∈ operand.toList, c.isDigit = true) →
              32768 ≤ Nat.ofDigitChars 10 operand.toList 0 →
              Nat.ofDigitChars 10 operand.toList 0 < UInt32.size →
              ∃ address, resolve number operand run
                  = .error (.line number (.addressOutOfRange address)) run
                ∧ address.toNat = Nat.ofDigitChars 10 operand.toList 0)
          ∧ ((∃ c ∈ operand.toList, c.isDigit = false)
                ∨ UInt32.size ≤ Nat.ofDigitChars 10 operand.toList 0 →
              resolve number operand run
                = .error (.line number (.invalidLiteral operand)) run))
      ∧ (startsWithDigit operand = false → ∀ line literal after,
          resolve number operand run ≠ .error (.line line (.invalidLiteral literal)) after) := by
  refine ⟨fun hdigit _ hlabel => ⟨?_, ?_, ?_⟩, fun hdigit line literal after => ?_⟩
  · intro hall hle
    have hlt : Nat.ofDigitChars 10 operand.toList 0 < UInt32.size :=
      Nat.lt_of_le_of_lt hle (by decide)
    obtain ⟨address, hvalue, hresolve⟩ := resolve_of_numeral number hdigit hlabel hall hlt
    rw [if_pos (hvalue ▸ hle)] at hresolve
    exact ⟨address, hresolve, hvalue⟩
  · intro hall hfar hlt
    obtain ⟨address, hvalue, hresolve⟩ := resolve_of_numeral number hdigit hlabel hall hlt
    rw [if_neg (by omega)] at hresolve
    exact ⟨address, hresolve, hvalue⟩
  · intro h
    have hmeaning := SymbolTable.meaning_of_startsWithDigit hdigit hlabel
    rw [literalValue?_of_not_numeral hdigit h] at hmeaning
    exact resolve_of_error hmeaning
  · exact ne_invalidLiteral_of_not_digit hdigit number line literal run after

/-- An assembler with a label that is spelled like a literal. -/
def digitLabelled : Assembler := .ofTable (SymbolTable.empty.defineLabel "7" 100)

theorem resolve_literal_boundaries :
    (∃ address, resolve 3 "0032767" digitLabelled = .ok address digitLabelled
        ∧ address.toNat = 32767)
      ∧ (∃ address, resolve 3 "32768" digitLabelled
            = .error (.line 3 (.addressOutOfRange address)) digitLabelled
          ∧ address.toNat = 32768)
      ∧ resolve 3 "4294967296" digitLabelled
          = .error (.line 3 (.invalidLiteral "4294967296")) digitLabelled
      ∧ resolve 3 "1\u0663" digitLabelled
          = .error (.line 3 (.invalidLiteral "1\u0663")) digitLabelled
      ∧ ∀ after, resolve 3 "\u0663" digitLabelled
          ≠ .error (.line 3 (.invalidLiteral "\u0663")) after := by
  obtain ⟨hsmall, -, -⟩ := (resolve_literal 3 "0032767" digitLabelled).1 (by decide) (by decide)
    (by decide)
  obtain ⟨-, hfar, -⟩ := (resolve_literal 3 "32768" digitLabelled).1 (by decide) (by decide)
    (by decide)
  obtain ⟨-, -, hlarge⟩ := (resolve_literal 3 "4294967296" digitLabelled).1 (by decide)
    (by decide) (by decide)
  obtain ⟨-, -, hmixed⟩ := (resolve_literal 3 "1\u0663" digitLabelled).1 (by decide) (by decide)
    (by decide)
  have hname := (resolve_literal 3 "\u0663" digitLabelled).2 (by decide)
  exact ⟨hsmall (List.all_eq_true.mp (by decide)) (by decide),
    hfar (List.all_eq_true.mp (by decide)) (by decide) (by decide), hlarge (.inr (by decide)),
    hmixed (.inl ⟨'\u0663', by decide, by decide⟩), hname 3 _⟩

end AssembleM

end Hack
