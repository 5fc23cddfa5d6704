import Hack.Proofs.Encoding
import Hack.Proofs.Values

/-!
# The table that look-ups leave behind

Operands that have been looked up one after the other have the addresses that they settle to, and
no others have changed. Looking them up once more changes nothing.

* `SymbolTable.Means` — what an operand stands for, by what it is
* `SymbolTable.meaning_foldl_visit` — what it stands for when some look-ups are done
* `SymbolTable.settled_append` — some look-ups are done before the others
* `SymbolTable.foldl_visit_again` — the second time no operand is new
* `SymbolTable.wordAmong_append_of_mem` — an instruction does not depend on those behind it
-/

namespace Hack

namespace SymbolTable

variable {table : SymbolTable} {operand : String} {operands : List String}

/-! ## One operand -/

/-- What an operand stands for: the first that it is of a predefined name, a label, a literal and
the name of a variable. -/
inductive Means (table : SymbolTable) (operand : String) : Except Fault (Option Address) → Prop
  | predefined {address : Address} (hpredefined : predefined? operand = some address) :
      Means table operand (.ok (some address))
  | label {address : Address} (hpredefined : predefined? operand = none)
      (hlabel : table.labelAddress? operand = some address) :
      Means table operand (.ok (some address))
  | literal {address : Address} (hdigit : startsWithDigit operand = true)
      (hlabel : table.labelAddress? operand = none)
      (hvalue : Program.literalValue? operand = some address.toNat) :
      Means table operand (.ok (some address))
  | unread (hdigit : startsWithDigit operand = true) (hlabel : table.labelAddress? operand = none)
      (hvalue : Program.literalValue? operand = none) :
      Means table operand (.error (.invalidLiteral operand))
  | name {found : Option Address} (hpredefined : predefined? operand = none)
      (hlabel : table.labelAddress? operand = none) (hdigit : startsWithDigit operand = false)
      (hvariable : table.variableAddress? operand = found) : Means table operand (.ok found)

theorem means_meaning (table : SymbolTable) (operand : String) :
    table.Means operand (table.meaning operand) := by
  unfold meaning
  cases hpredefined : predefined? operand with
  | some address => exact .predefined hpredefined
  | none =>
    cases hlabel : table.labelAddress? operand with
    | some address => exact .label hpredefined hlabel
    | none =>
      cases hdigit : startsWithDigit operand with
      | false => exact .name hpredefined hlabel hdigit rfl
      | true =>
        cases hvalue : Program.literalValue? operand with
        | none =>
          obtain ⟨diagnostic, hread⟩ := Program.readLiteral_of_no_value hvalue
          simp only [Option.or_none, if_true, hread]
          exact .unread hdigit hlabel hvalue
        | some value =>
          have hwhole : (UInt32.ofNat value).toNat = value :=
            UInt32.toNat_ofNat_of_lt (Program.literalValue?_lt hvalue)
          simp only [Option.or_none, if_true, Program.readLiteral_of_value hvalue]
          exact .literal hdigit hlabel (by rw [hvalue, hwhole])

theorem meaning_eq_map_settled (hnew : table.isNew operand = false) (operands : List String) :
    table.meaning operand = (table.settled operands operand).map some := by
  unfold settled
  cases h : table.meaning operand with
  | error fault => rfl
  | ok found =>
    cases found with
    | some address => rfl
    | none =>
      rw [isNew_iff.mpr h] at hnew
      cases hnew

/-! ## One look-up -/

theorem isNew_visit_self (table : SymbolTable) (operand : String) :
    (table.visit operand).isNew operand = false := by
  unfold visit
  cases hnew : table.isNew operand with
  | true => simp [isNew_allocate hnew]
  | false => exact hnew

theorem meaning_visit_of_ne {name : String} (hne : operand ≠ name) (table : SymbolTable) :
    (table.visit name).meaning operand = table.meaning operand := by
  unfold visit
  cases hnew : table.isNew name with
  | true => rw [if_pos rfl, meaning_allocate hnew, if_neg hne.symm]
  | false => rfl

theorem visit_eq_self (hnew : table.isNew operand = false) : table.visit operand = table := by
  rw [visit, hnew]
  rfl

/-! ## All look-ups -/

theorem settled_append (table : SymbolTable) (first second : List String) (operand : String) :
    table.settled (first ++ second) operand
      = (first.foldl visit table).settled second operand := by
  induction first generalizing table with
  | nil => rfl
  | cons name first ih => rw [List.cons_append, settled_cons, ih, List.foldl_cons]

/-- The operands that have been looked up are settled, and the others are as they were. -/
theorem meaning_foldl_visit (table : SymbolTable) (operands : List String) (operand : String) :
    (operands.foldl visit table).meaning operand
      = if operand ∈ operands then (table.settled operands operand).map some
        else table.meaning operand := by
  induction operands generalizing table with
  | nil => rfl
  | cons name operands ih =>
    rw [List.foldl_cons, ih, settled_cons]
    by_cases hmem : operand ∈ operands
    · rw [if_pos hmem, if_pos (List.mem_cons_of_mem _ hmem)]
    · rw [if_neg hmem]
      by_cases hname : operand = name
      · subst hname
        rw [if_pos List.mem_cons_self]
        exact meaning_eq_map_settled (isNew_visit_self table operand) operands
      · rw [meaning_visit_of_ne hname, if_neg (by simp [hname, hmem])]

theorem isNew_foldl_visit (table : SymbolTable) (operands : List String) (operand : String) :
    (operands.foldl visit table).isNew operand = (table.isNew operand && operand ∉ operands) := by
  rw [Bool.eq_iff_iff, isNew_iff, meaning_foldl_visit, Bool.and_eq_true, decide_eq_true_eq,
    isNew_iff]
  by_cases hmem : operand ∈ operands
  · rw [if_pos hmem]
    cases table.settled operands operand <;> simp [hmem, Except.map]
  · simp [hmem]

theorem nextFree_foldl_visit (table : SymbolTable) (operands : List String) :
    (operands.foldl visit table).nextFree
      = table.nextFree + UInt32.ofNat (table.newNames operands).length := by
  induction operands generalizing table with
  | nil => exact (UInt32.add_zero _).symm
  | cons name operands ih =>
    rw [List.foldl_cons, ih]
    unfold visit
    cases hnew : table.isNew name with
    | false => rw [newNames_cons_of_not_new hnew, if_neg Bool.false_ne_true]
    | true =>
      rw [newNames_cons_of_new hnew, if_pos rfl, List.length_cons, UInt32.ofNat_add,
        UInt32.add_comm (UInt32.ofNat _), ← UInt32.add_assoc]
      rfl

/-- An operand that has been looked up stays settled, whatever is looked up then. -/
theorem settled_foldl_visit (hmem : operand ∈ operands) (others : List String) :
    (operands.foldl visit table).settled others operand = table.settled operands operand := by
  have hmeaning := table.meaning_foldl_visit operands operand
  rw [if_pos hmem] at hmeaning
  rw [settled, hmeaning]
  cases table.settled operands operand <;> rfl

theorem foldl_visit_eq_self (h : ∀ operand ∈ operands, table.isNew operand = false) :
    operands.foldl visit table = table := by
  induction operands with
  | nil => rfl
  | cons name operands ih =>
    rw [List.foldl_cons, visit_eq_self (h name List.mem_cons_self)]
    exact ih fun operand hmem => h operand (List.mem_cons_of_mem _ hmem)

/-- The second time no operand is new. -/
theorem foldl_visit_again (table : SymbolTable) (operands : List String) :
    operands.foldl visit (operands.foldl visit table) = operands.foldl visit table := by
  refine foldl_visit_eq_self fun operand hmem => ?_
  rw [isNew_foldl_visit]
  simp [hmem]

theorem labelMap_foldl_visit (table : SymbolTable) (operands : List String) :
    (operands.foldl visit table).labelMap = table.labelMap := by
  induction operands generalizing table with
  | nil => rfl
  | cons name operands ih =>
    rw [List.foldl_cons, ih, visit]
    cases table.isNew name <;> rfl

/-- The operands that a table leaves open become variables, and no others do. -/
theorem isSome_variableAddress?_foldl_visit (table : SymbolTable) (operands : List String)
    (name : String) :
    ((operands.foldl visit table).variableAddress? name).isSome
      ↔ (table.variableAddress? name).isSome ∨ name ∈ table.newNames operands := by
  induction operands generalizing table with
  | nil => simp [newNames]
  | cons operand operands ih =>
    rw [List.foldl_cons, ih, visit]
    cases hnew : table.isNew operand with
    | false => rw [newNames_cons_of_not_new hnew, if_neg Bool.false_ne_true]
    | true =>
      rw [newNames_cons_of_new hnew, if_pos rfl, variableAddress?_allocate, List.mem_cons]
      by_cases hname : operand = name
      · simp [hname]
      · have hne : name ≠ operand := fun h => hname h.symm
        simp [hname, hne]

/-! ## Words -/

variable {before after others : List (Nat × Instruction)} {numbered : Nat × Instruction}

theorem wordAmong_append (table : SymbolTable) (before after : List (Nat × Instruction)) :
    table.wordAmong (before ++ after) = ((loads before).foldl visit table).wordAmong after := by
  funext ⟨number, instruction⟩
  unfold wordAmong word
  rw [loads_append]
  cases instruction with
  | address operand => simp only [settled_append]
  | compute dest comp jump => rfl

/-- The operand of an instruction is among those that its list looks up. -/
theorem wordAmong_foldl_visit (hmem : numbered ∈ before) (others : List (Nat × Instruction)) :
    ((loads before).foldl visit table).wordAmong others numbered
      = table.wordAmong before numbered := by
  obtain ⟨number, instruction⟩ := numbered
  cases instruction with
  | address operand =>
    have hload : operand ∈ loads before := mem_loads_iff.mpr ⟨number, hmem⟩
    simp only [wordAmong, word, settled_foldl_visit hload]
  | compute dest comp jump => rfl

/-- An instruction does not depend on those behind it. -/
theorem wordAmong_append_of_mem (hmem : numbered ∈ before) (after : List (Nat × Instruction)) :
    table.wordAmong (before ++ after) numbered = table.wordAmong before numbered := by
  rw [wordAmong_append, wordAmong_foldl_visit hmem]

end SymbolTable

end Hack
