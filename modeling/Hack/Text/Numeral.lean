/-!
# Numerals

Decimal numerals below a bound, and binary numerals of a fixed width. The exact value of a run of
digits is `Nat.ofDigitChars`.

* `decimalBelow?_eq` — reading below a bound, which stops at the bound, agrees with the exact value
* `ofDigitChars_toString` — the decimal numeral of a number has the value of the number
* `ofDigitChars_binary`, `length_binary` — a binary numeral has the value of the number, and the
  given width if the number has room in it
* `mem_binary` — it has no digits but 0 and 1
-/

namespace Hack.Text

/-! ## Decimal numerals -/

/-- Whether a text is a decimal numeral: one or more ASCII digits and nothing else. No other digit
of Unicode counts. -/
def isDecimal (text : List Char) : Bool := !text.isEmpty && text.all Char.isDigit

/-- A number with one more decimal digit at its end, if that is below a bound. -/
def appendBelow? (bound number : Nat) (c : Char) : Option Nat :=
  let next := 10 * number + (c.toNat - '0'.toNat)
  if next < bound then some next else none

/-- The number that a run of decimal digits denotes if it is below a bound. Reading stops with the
first digit that leads out of the bound, for no later digit leads back. -/
def decimalBelow? (bound : Nat) (digits : List Char) : Option Nat :=
  digits.foldlM (appendBelow? bound) 0

theorem le_ofDigitChars (digits : List Char) (number : Nat) :
    number ≤ Nat.ofDigitChars 10 digits number := by
  induction digits generalizing number with
  | nil => simp
  | cons c digits ih =>
    rw [Nat.ofDigitChars_cons]
    exact Nat.le_trans (by omega) (ih _)

theorem foldlM_appendBelow? {bound number : Nat} (h : number < bound) (digits : List Char) :
    digits.foldlM (appendBelow? bound) number
      = if Nat.ofDigitChars 10 digits number < bound
        then some (Nat.ofDigitChars 10 digits number) else none := by
  induction digits generalizing number with
  | nil => rw [Nat.ofDigitChars_nil, if_pos h]; rfl
  | cons c digits ih =>
    rw [List.foldlM_cons, Nat.ofDigitChars_cons, appendBelow?]
    by_cases hc : 10 * number + (c.toNat - '0'.toNat) < bound
    · rw [if_pos hc]
      exact ih hc
    · have hle := le_ofDigitChars digits (10 * number + (c.toNat - '0'.toNat))
      rw [if_neg hc, if_neg (by omega)]
      rfl

/-- Reading below a bound finds the exact value, if that is below the bound. -/
theorem decimalBelow?_eq {bound : Nat} (h : 0 < bound) (digits : List Char) :
    decimalBelow? bound digits
      = if Nat.ofDigitChars 10 digits 0 < bound
        then some (Nat.ofDigitChars 10 digits 0) else none :=
  foldlM_appendBelow? h digits

/-! ### The numeral of a number -/

theorem isDigit_of_mem_toString {number : Nat} :
    ∀ c ∈ (toString number).toList, c.isDigit = true := by
  intro c hc
  rw [Nat.toString_eq_ofList_toDigits, String.toList_ofList] at hc
  exact Nat.isDigit_of_mem_toDigits (by decide) (by decide) hc

theorem ofDigitChars_toString (number : Nat) :
    Nat.ofDigitChars 10 (toString number).toList 0 = number := by
  rw [Nat.toString_eq_ofList_toDigits, String.toList_ofList, Nat.ofDigitChars_ten_toDigits]

/-- Numbers with the same numeral are equal. -/
theorem eq_of_toString_eq {first second : Nat} (h : toString first = toString second) :
    first = second := by
  rw [← ofDigitChars_toString first, h, ofDigitChars_toString]

/-! ## Binary numerals -/

/-- The binary digits of a number with zeros in front, as many as the width asks for. -/
def binary (width number : Nat) : List Char := (Nat.toDigits 2 number).leftpad width '0'

/-- The zeros in front of a binary numeral do not change its value. -/
theorem ofDigitChars_binary (width number : Nat) :
    Nat.ofDigitChars 2 (binary width number) 0 = number := by
  rw [binary, List.leftpad, Nat.ofDigitChars_append, Nat.ofDigitChars_replicate_zero,
    Nat.mul_zero, Nat.ofDigitChars_toDigits (by decide) (by decide)]

theorem length_binary {width number : Nat} (hw : 0 < width) (h : number < 1 <<< width) :
    (binary width number).length = width := by
  rw [Nat.one_shiftLeft] at h
  have hle := (Nat.length_toDigits_le_iff (by decide) hw).mpr h
  rw [binary, List.length_leftpad]
  omega

theorem mem_toDigits_two {number : Nat} {c : Char} (h : c ∈ Nat.toDigits 2 number) :
    c = '0' ∨ c = '1' := by
  induction number using Nat.strongRecOn with
  | _ number ih =>
    have hdigit : ∀ digit, digit < 2 → digit.digitChar = '0' ∨ digit.digitChar = '1' := by decide
    rw [Nat.toDigits_eq_if (by decide)] at h
    split at h
    · next hlt =>
      rw [List.mem_singleton.mp h]
      exact hdigit number hlt
    · rcases List.mem_append.mp h with h | h
      · exact ih (number / 2) (by omega) h
      · rw [List.mem_singleton.mp h]
        exact hdigit (number % 2) (Nat.mod_lt _ (by decide))

theorem mem_binary {width number : Nat} {c : Char} (h : c ∈ binary width number) :
    c = '0' ∨ c = '1' := by
  rcases List.mem_append.mp h with h | h
  · exact .inl (List.eq_of_mem_replicate h)
  · exact mem_toDigits_two h

end Hack.Text
