import Hack.Assembler.Encode

/-!
# Allocation in the order of first uses

Looking up operands one after the other allocates those that a table leaves open, each at its first
use. What an operand stands for in the end can be read off the table before the first look-up.

* `SymbolTable.newNames` — the operands that a table leaves open, in the order of their first uses
* `SymbolTable.settled` — what an operand stands for when all look-ups are done
* `SymbolTable.settled_cons` — one look-up does not change what is settled
-/

namespace Hack

namespace SymbolTable

variable {table : SymbolTable} {name operand : String} {operands : List String}

/-- Whether an operand is a variable without an address. -/
def isNew (table : SymbolTable) (operand : String) : Bool :=
  match table.meaning operand with
  | .ok none => true
  | _ => false

/-- The table after an operand has been looked up. -/
def visit (table : SymbolTable) (operand : String) : SymbolTable :=
  if table.isNew operand then table.allocate operand else table

/-- The operands that a table leaves open, in the order of their first uses. -/
def newNames (table : SymbolTable) (operands : List String) : List String :=
  (operands.filter table.isNew).eraseDups

/-- What an operand stands for when all of `operands` have been looked up in order. -/
def settled (table : SymbolTable) (operands : List String) (operand : String) :
    Except Fault Address :=
  match table.meaning operand with
  | .error fault => .error fault
  | .ok (some address) => .ok address
  | .ok none => .ok (table.nextFree + UInt32.ofNat ((table.newNames operands).idxOf operand))

/-! ## One look-up -/

theorem isNew_iff : table.isNew operand = true ↔ table.meaning operand = .ok none := by
  unfold isNew
  split
  · next h => exact iff_of_true rfl h
  · next h => exact iff_of_false Bool.false_ne_true h

theorem meaning_eq_ok_none_iff :
    table.meaning operand = .ok none
      ↔ predefined? operand = none ∧ table.labelAddress? operand = none
          ∧ startsWithDigit operand = false ∧ table.variableAddress? operand = none := by
  unfold meaning
  cases predefined? operand with
  | some address => simp
  | none =>
    cases table.labelAddress? operand with
    | some address => simp
    | none =>
      cases startsWithDigit operand with
      | false => simp
      | true => cases readLiteral operand.toList <;> simp

theorem meaning_allocate (h : table.isNew name = true) (operand : String) :
    (table.allocate name).meaning operand
      = if name = operand then .ok (some table.nextFree) else table.meaning operand := by
  obtain ⟨hpredefined, hlabel, hdigit, -⟩ := meaning_eq_ok_none_iff.mp (isNew_iff.mp h)
  by_cases hname : name = operand
  · subst hname
    simp [meaning, hpredefined, hlabel, hdigit, variableAddress?_allocate]
  · simp [meaning, hname, variableAddress?_allocate]

theorem isNew_allocate (h : table.isNew name = true) (operand : String) :
    (table.allocate name).isNew operand = (!operand == name && table.isNew operand) := by
  unfold isNew
  rw [meaning_allocate h]
  by_cases hname : name = operand
  · simp [hname]
  · have hne : operand ≠ name := fun e => hname e.symm
    simp [hname, hne]

theorem newNames_cons_of_new (h : table.isNew name = true) (operands : List String) :
    table.newNames (name :: operands) = name :: (table.allocate name).newNames operands := by
  unfold newNames
  rw [List.filter_cons_of_pos h, List.eraseDups_cons, List.filter_filter]
  have hfilter : (table.allocate name).isNew
      = fun operand => !operand == name && table.isNew operand := funext (isNew_allocate h)
  rw [hfilter]

theorem newNames_cons_of_not_new (h : table.isNew name = false) (operands : List String) :
    table.newNames (name :: operands) = table.newNames operands := by
  unfold newNames
  rw [List.filter_cons_of_neg (by simp [h])]

/-! ## All look-ups -/

/-- What is settled stays settled with the first look-up done. -/
theorem settled_cons (table : SymbolTable) (name : String) (operands : List String)
    (operand : String) :
    table.settled (name :: operands) operand = (table.visit name).settled operands operand := by
  unfold visit
  cases h : table.isNew name with
  | false =>
    unfold settled
    rw [newNames_cons_of_not_new h]
    rfl
  | true =>
    unfold settled
    rw [if_pos rfl, meaning_allocate h, newNames_cons_of_new h]
    by_cases hname : name = operand
    · subst hname
      simp [isNew_iff.mp h]
    · have hbeq : (name == operand) = false := beq_eq_false_iff_ne.mpr hname
      rw [if_neg hname, List.idxOf_cons, hbeq]
      cases table.meaning operand with
      | error fault => rfl
      | ok found =>
        cases found with
        | some address => rfl
        | none =>
          -- the rank counts from the address after the one that was handed out
          simp only [cond_false, allocate, UInt32.ofNat_add, UInt32.add_assoc]
          rw [UInt32.add_comm 1]
          rfl

/-- The first look-up decides for its operand. -/
theorem settled_cons_self (table : SymbolTable) (operand : String) (operands : List String) :
    table.settled (operand :: operands) operand
      = (table.meaning operand).map fun found => found.getD table.nextFree := by
  unfold settled
  cases h : table.meaning operand with
  | error fault => rfl
  | ok found =>
    cases found with
    | some address => rfl
    | none =>
      rw [newNames_cons_of_new (isNew_iff.mpr h)]
      simp [Except.map]

end SymbolTable

end Hack
