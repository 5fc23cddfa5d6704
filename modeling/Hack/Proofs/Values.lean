import Mathlib.Data.List.Basic
import Hack.Proofs.Encoding
import Hack.Proofs.Labels

/-!
# The values of operands

What an operand stands for after both passes is its value, read off the whole program. An address
holds the lowest 32 bits of a value; the bits above are lost only for a label that more than that
many instructions precede.

* `Program.settled_boundTable` — an operand settles to the address of its value
* `Program.rank_le` — the rank of a variable that the loads before it have left in range
* `Program.value_lt` — in a program of less than `2 ^ 32` instructions no value loses bits
-/

namespace Hack

/-! ## Lists without repetitions -/

theorem nodup_eraseDups (names : List String) : names.eraseDups.Nodup := by
  induction hlength : names.length using Nat.strongRecOn generalizing names with
  | _ length ih =>
    cases names with
    | nil => exact List.nodup_nil
    | cons name names =>
      have hshorter : (names.filter fun other => !other == name).length < length := by
        rw [← hlength]
        exact Nat.lt_succ_of_le (List.length_filter_le _ names)
      have hname : name ∉ names.filter fun other => !other == name := by simp
      rw [List.eraseDups_cons, List.nodup_cons, List.mem_eraseDups]
      exact ⟨hname, ih _ hshorter _ rfl⟩

theorem eraseDups_of_nodup {names : List String} (h : names.Nodup) : names.eraseDups = names := by
  induction names with
  | nil => rfl
  | cons name names ih =>
    obtain ⟨hname, hnames⟩ := List.nodup_cons.mp h
    have hkept : names.filter (fun other => !other == name) = names := by
      refine List.filter_eq_self.mpr fun other hother => ?_
      have hne : other ≠ name := fun heq => hname (heq ▸ hother)
      simp [hne]
    rw [List.eraseDups_cons, hkept, ih hnames]

/-! ## Predefined names -/

theorem predefined?_spec {name : String} {address : Address} (h : predefined? name = some address) :
    address ≤ maxAddress ∧ startsWithDigit name = false := by
  have hall : ∀ binding ∈ predefined,
      binding.2 ≤ maxAddress ∧ startsWithDigit binding.1 = false := by decide
  obtain ⟨before, after, hsplit, -⟩ := List.lookup_eq_some_iff.mp h
  refine hall (name, address) ?_
  rw [hsplit]
  exact List.mem_append_cons_self

theorem predefined?_of_startsWithDigit {name : String} (h : startsWithDigit name = true) :
    predefined? name = none := by
  cases hpredefined : predefined? name with
  | none => rfl
  | some address =>
    have hdigit := (predefined?_spec hpredefined).2
    rw [h] at hdigit
    cases hdigit

namespace Program

variable {lines : List Line} {operand : String} {before after : List String}

/-! ## The table between the passes -/

/-- The table that the second pass starts with. -/
def boundTable (lines : List Line) : SymbolTable := (Assembler.initial.bindLabels lines).2.symbols

theorem labelAddress?_boundTable (lines : List Line) (name : String) :
    (boundTable lines).labelAddress? name = (labelValue? name lines).map UInt32.ofNat := by
  have hempty : Assembler.initial.symbols.labelAddress? name = none := by
    simp [Assembler.initial, Assembler.ofTable, SymbolTable.empty, SymbolTable.labelAddress?]
  rw [boundTable, Assembler.labelAddress?_bindLabels, hempty, Option.or_none]

theorem variableAddress?_boundTable (lines : List Line) (name : String) :
    (boundTable lines).variableAddress? name = none := by
  rw [boundTable, Assembler.variableAddress?_bindLabels]
  simp [Assembler.initial, Assembler.ofTable, SymbolTable.empty, SymbolTable.variableAddress?]

theorem nextFree_boundTable (lines : List Line) :
    (boundTable lines).nextFree = SymbolTable.variableBase := by
  rw [boundTable, Assembler.nextFree_bindLabels]
  rfl

theorem isVariable_iff :
    isVariable lines operand = true
      ↔ predefined? operand = none ∧ labelValue? operand lines = none
          ∧ startsWithDigit operand = false := by
  simp [isVariable, and_assoc]

theorem isNew_boundTable (lines : List Line) : (boundTable lines).isNew = isVariable lines := by
  funext operand
  rw [Bool.eq_iff_iff, SymbolTable.isNew_iff, SymbolTable.meaning_eq_ok_none_iff, isVariable_iff,
    labelAddress?_boundTable, variableAddress?_boundTable, Option.map_eq_none_iff]
  simp

theorem newNames_boundTable (lines : List Line) :
    (boundTable lines).newNames (operands lines) = variableNames lines := by
  rw [SymbolTable.newNames, isNew_boundTable]
  rfl

/-! ## Literals -/

theorem readLiteral_of_value {value : Nat} (h : literalValue? operand = some value) :
    readLiteral operand.toList = .ok (UInt32.ofNat value) := by
  obtain ⟨⟨hdecimal, hlt⟩, hvalue⟩ := Option.ite_none_right_eq_some.mp h
  cases hvalue
  rw [readLiteral, if_pos hdecimal, Text.decimalBelow?_eq (by decide), if_pos hlt]

theorem readLiteral_of_no_value (h : literalValue? operand = none) :
    ∃ diagnostic, readLiteral operand.toList = .error diagnostic := by
  unfold readLiteral
  by_cases hdecimal : Text.isDecimal operand.toList = true
  · have hge : ¬ Nat.ofDigitChars 10 operand.toList 0 < UInt32.size := by
      intro hlt
      have hsome : literalValue? operand = some (Nat.ofDigitChars 10 operand.toList 0) :=
        if_pos ⟨hdecimal, hlt⟩
      rw [hsome] at h
      cases h
    rw [if_pos hdecimal, Text.decimalBelow?_eq (by decide), if_neg hge]
    exact ⟨_, rfl⟩
  · rw [if_neg hdecimal]
    exact ⟨_, rfl⟩

theorem literalValue?_lt {value : Nat} (h : literalValue? operand = some value) :
    value < UInt32.size := by
  obtain ⟨⟨-, hlt⟩, hvalue⟩ := Option.ite_none_right_eq_some.mp h
  cases hvalue
  exact hlt

/-! ## Addresses -/

/-- The address of an operand: the lowest 32 bits of its value. -/
def address? (lines : List Line) (operand : String) : Option Address :=
  (value? lines operand).map UInt32.ofNat

theorem settled_boundTable (lines : List Line) (operand : String) :
    (boundTable lines).settled (operands lines) operand
      = match address? lines operand with
        | some address => .ok address
        | none => .error (.invalidLiteral operand) := by
  unfold SymbolTable.settled SymbolTable.meaning address? value?
  rw [labelAddress?_boundTable, variableAddress?_boundTable, nextFree_boundTable,
    newNames_boundTable]
  cases predefined? operand with
  | some address => simp
  | none =>
    cases labelValue? operand lines with
    | some value => simp
    | none =>
      cases startsWithDigit operand with
      | false => simp [UInt32.ofNat_add, SymbolTable.variableBase]
      | true =>
        cases hliteral : literalValue? operand with
        | some value => simp [readLiteral_of_value hliteral]
        | none =>
          obtain ⟨diagnostic, hread⟩ := readLiteral_of_no_value hliteral
          simp [hread]

theorem value?_of_predefined {address : Address} (h : predefined? operand = some address) :
    value? lines operand = some address.toNat := by
  simp [value?, h]

theorem value?_of_label {value : Nat} (hpredefined : predefined? operand = none)
    (hlabel : labelValue? operand lines = some value) : value? lines operand = some value := by
  simp [value?, hpredefined, hlabel]

theorem value?_of_literal (hdigit : startsWithDigit operand = true)
    (hlabel : labelValue? operand lines = none) : value? lines operand = literalValue? operand := by
  simp [value?, predefined?_of_startsWithDigit hdigit, hlabel, hdigit]

theorem value?_of_isVariable (h : isVariable lines operand = true) :
    value? lines operand = some (16 + (variableNames lines).idxOf operand) := by
  obtain ⟨hpredefined, hlabel, hdigit⟩ := isVariable_iff.mp h
  simp [value?, hpredefined, hlabel, hdigit]

/-- What an operand is: a predefined name, a label, a literal or a variable. -/
theorem operand_cases (lines : List Line) (operand : String) :
    (∃ address, predefined? operand = some address)
      ∨ (∃ value, predefined? operand = none ∧ labelValue? operand lines = some value)
      ∨ (startsWithDigit operand = true ∧ labelValue? operand lines = none)
      ∨ isVariable lines operand = true := by
  cases hpredefined : predefined? operand with
  | some address => exact .inl ⟨address, rfl⟩
  | none =>
    refine .inr ?_
    cases hlabel : labelValue? operand lines with
    | some value => exact .inl ⟨value, rfl, rfl⟩
    | none =>
      refine .inr ?_
      cases hdigit : startsWithDigit operand with
      | true => exact .inl ⟨rfl, rfl⟩
      | false => exact .inr (isVariable_iff.mpr ⟨hpredefined, hlabel, hdigit⟩)

theorem literal_of_value?_eq_none (h : value? lines operand = none) :
    startsWithDigit operand = true ∧ labelValue? operand lines = none := by
  rcases operand_cases lines operand with
    ⟨address, hpredefined⟩ | ⟨label, hpredefined, hlabel⟩ | hliteral | hvariable
  · rw [value?_of_predefined hpredefined] at h
    cases h
  · rw [value?_of_label hpredefined hlabel] at h
    cases h
  · exact hliteral
  · rw [value?_of_isVariable hvariable] at h
    cases h

/-- Whether an address load of the operand has a word. -/
def Loads (lines : List Line) (operand : String) : Prop :=
  ∃ address, address? lines operand = some address ∧ address ≤ maxAddress

/-! ## Ranks -/

/-- The variables among some operands, in the order of their first uses. -/
def variablesAmong (lines : List Line) (operands : List String) : List String :=
  (operands.filter (isVariable lines)).eraseDups

theorem mem_variablesAmong {operands : List String} :
    operand ∈ variablesAmong lines operands
      ↔ operand ∈ operands ∧ isVariable lines operand = true := by
  rw [variablesAmong, List.mem_eraseDups, List.mem_filter]

theorem variablesAmong_isPrefix (h : operands lines = before ++ after) :
    variablesAmong lines before <+: variableNames lines := by
  unfold variablesAmong variableNames
  rw [h, List.filter_append, List.eraseDups_append]
  exact List.prefix_append _ _

theorem rank_getElem {rank : Nat} (h : operands lines = before ++ after)
    (hrank : rank < (variablesAmong lines before).length) :
    (variableNames lines).idxOf (variablesAmong lines before)[rank] = rank := by
  rw [← (variablesAmong_isPrefix h).idxOf_eq_of_mem (List.getElem_mem hrank)]
  exact (nodup_eraseDups _).idxOf_getElem rank hrank

/-- Operands that all have words use up no more than the addresses that fit into a word. -/
theorem length_variablesAmong_le (h : operands lines = before ++ after)
    (hbefore : ∀ operand ∈ before, Loads lines operand) :
    (variablesAmong lines before).length ≤ 32752 := by
  refine Nat.le_of_not_lt fun hlt => ?_
  -- the variable of this rank would have the first address that does not fit
  have hrank := rank_getElem h hlt
  have hmem := List.getElem_mem hlt
  generalize (variablesAmong lines before)[32752] = operand at hrank hmem
  obtain ⟨hoperand, hvariable⟩ := mem_variablesAmong.mp hmem
  obtain ⟨address, haddress, hle⟩ := hbefore operand hoperand
  rw [address?, value?_of_isVariable hvariable, hrank, Option.map_some] at haddress
  rw [← Option.some.inj haddress] at hle
  exact absurd hle (by decide)

theorem rank_of_first_use (h : operands lines = before ++ operand :: after)
    (hvariable : isVariable lines operand = true) (hfirst : operand ∉ before) :
    (variableNames lines).idxOf operand = (variablesAmong lines before).length := by
  have hnew : operand ∉ (before.filter (isVariable lines)).eraseDups :=
    fun hmem => hfirst (mem_variablesAmong.mp hmem).1
  unfold variableNames variablesAmong
  rw [h, List.filter_append, List.filter_cons_of_pos hvariable, List.eraseDups_append,
    List.idxOf_append, if_neg hnew, List.removeAll, List.filter_cons_of_pos (by simp [hfirst]),
    List.eraseDups_cons, List.idxOf_cons_self, Nat.zero_add]

theorem rank_le (h : operands lines = before ++ operand :: after)
    (hbefore : ∀ operand ∈ before, Loads lines operand)
    (hvariable : isVariable lines operand = true) :
    (variableNames lines).idxOf operand ≤ 32752 := by
  have hlength := length_variablesAmong_le h hbefore
  by_cases hmem : operand ∈ before
  · have hmem := mem_variablesAmong.mpr ⟨hmem, hvariable⟩
    rw [← (variablesAmong_isPrefix h).idxOf_eq_of_mem hmem]
    exact Nat.le_trans List.idxOf_le_length hlength
  · rw [rank_of_first_use h hvariable hmem]
    exact hlength

/-- Where less than `2 ^ 32` instructions leave every label its value, so does every operand up to
the first that has no word. -/
theorem value_lt {value : Nat} (hlt : (instructions lines).length < UInt32.size)
    (h : operands lines = before ++ operand :: after)
    (hbefore : ∀ operand ∈ before, Loads lines operand)
    (hvalue : value? lines operand = some value) : value < UInt32.size := by
  rcases operand_cases lines operand with
    ⟨address, hpredefined⟩ | ⟨label, hpredefined, hlabel⟩ | ⟨hdigit, hlabel⟩ | hvariable
  · rw [value?_of_predefined hpredefined] at hvalue
    cases hvalue
    exact address.toNat_lt
  · rw [value?_of_label hpredefined hlabel] at hvalue
    cases hvalue
    exact Nat.lt_of_le_of_lt (labelValue?_le hlabel) hlt
  · rw [value?_of_literal hdigit hlabel] at hvalue
    exact literalValue?_lt hvalue
  · have hrank := rank_le h hbefore hvariable
    have hsize : UInt32.size = 4294967296 := rfl
    rw [value?_of_isVariable hvariable] at hvalue
    cases hvalue
    omega

end Program

end Hack
