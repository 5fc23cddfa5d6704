import Hack.Assembler.Denotation
import Hack.Assembler.Labels

/-!
# What the first pass binds

A label is bound to the number of instructions before its last declaration. An address holds the
lowest 32 bits of that number.

* `labelValue?_eq_some_iff` — the last declaration of a label gives its value
* `labelAddress?_bindLabels` — which address a name has as a label after the first pass
* `variableAddress?_bindLabels`, `nextFree_bindLabels` — the first pass allocates nothing
-/

namespace Hack

/-! ## The last declaration -/

namespace Program

theorem labelValue?_eq_none_iff {name : String} {lines : List Line} :
    labelValue? name lines = none ↔ ∀ line ∈ lines, line.statement ≠ .label name := by
  induction lines with
  | nil => simp [labelValue?]
  | cons line lines ih =>
    rw [labelValue?, List.forall_mem_cons]
    cases h : labelValue? name lines with
    | some value =>
      constructor
      · intro hnone
        cases hnone
      · intro hall
        rw [ih.mpr hall.2] at h
        cases h
    | none =>
      have hall := ih.mp h
      by_cases hline : line.statement = .label name
      · simp [hline]
      · simpa [hline] using hall

/-- A label that no later line declares again has the number of the instructions before it. -/
theorem labelValue?_of_last {name : String} {before after : List Line} {declaration : Line}
    (hdeclares : declaration.statement = .label name)
    (hlast : ∀ line ∈ after, line.statement ≠ .label name) :
    labelValue? name (before ++ declaration :: after) = some (instructions before).length := by
  have hafter := labelValue?_eq_none_iff.mpr hlast
  have hrest : labelValue? name (declaration :: after) = some 0 := by
    rw [labelValue?, hafter]
    exact if_pos hdeclares
  rw [labelValue?_append, hrest]
  rfl

theorem labelValue?_eq_some_iff {name : String} {lines : List Line} {value : Nat} :
    labelValue? name lines = some value
      ↔ ∃ before declaration after, lines = before ++ declaration :: after
          ∧ declaration.statement = .label name
          ∧ (∀ line ∈ after, line.statement ≠ .label name)
          ∧ value = (instructions before).length := by
  constructor
  · intro h
    induction lines generalizing value with
    | nil => cases h
    | cons line lines ih =>
      rw [labelValue?] at h
      cases hrest : labelValue? name lines with
      | some rest =>
        rw [hrest] at h
        cases h
        obtain ⟨before, declaration, after, rfl, hdeclares, hlast, rfl⟩ := ih hrest
        refine ⟨line :: before, declaration, after, rfl, hdeclares, hlast, ?_⟩
        rw [instructions_cons, List.length_append]
      | none =>
        rw [hrest] at h
        obtain ⟨hline, hvalue⟩ := Option.ite_none_right_eq_some.mp h
        cases hvalue
        exact ⟨[], line, lines, rfl, hline, labelValue?_eq_none_iff.mp hrest, rfl⟩
  · rintro ⟨before, declaration, after, rfl, hdeclares, hlast, rfl⟩
    exact labelValue?_of_last hdeclares hlast

theorem labelValue?_le {name : String} {lines : List Line} {value : Nat}
    (h : labelValue? name lines = some value) : value ≤ (instructions lines).length := by
  obtain ⟨before, declaration, after, rfl, -, -, rfl⟩ := labelValue?_eq_some_iff.mp h
  rw [instructions_append, List.length_append]
  exact Nat.le_add_right _ _

end Program

/-! ## Binding -/

namespace Assembler

open Program

theorem labelAddress?_foldl_bindLine (name : String) (lines : List Line) (count : Nat)
    (run : Assembler) :
    (lines.foldl bindLine (count, run)).2.symbols.labelAddress? name
      = ((labelValue? name lines).map fun value => UInt32.ofNat (count + value)).or
          (run.symbols.labelAddress? name) := by
  -- a later declaration in `lines` has the last word, whatever the first line binds
  induction lines generalizing count run with
  | nil => rfl
  | cons line lines ih =>
    rw [List.foldl_cons, bindLine]
    split
    · next other hline =>
      rw [ih]
      cases hrest : labelValue? name lines with
      | some value => simp [labelValue?, hrest, Line.instruction?, hline]
      | none =>
        rw [declare, SymbolTable.labelAddress?_defineLabel]
        by_cases hname : other = name
        · simp [labelValue?, hrest, hline, hname]
        · simp [labelValue?, hrest, hline, hname]
    · next instruction hline =>
      rw [ih]
      cases hrest : labelValue? name lines with
      | some value => simp [labelValue?, hrest, Line.instruction?, hline, Nat.add_assoc]
      | none => simp [labelValue?, hrest, hline]
    · next hlabel hinstruction =>
      rw [ih]
      have hline : line.statement ≠ .label name := hlabel name
      have hnone : line.instruction? = none := by
        unfold Line.instruction?
        split
        · next instruction h => exact absurd h (hinstruction instruction)
        · rfl
      cases hrest : labelValue? name lines with
      | some value => simp [labelValue?, hrest, hnone]
      | none => simp [labelValue?, hrest, hline]

/-- A label that the lines declare is bound to its value; other names keep their bindings. -/
theorem labelAddress?_bindLabels (run : Assembler) (lines : List Line) (name : String) :
    (run.bindLabels lines).2.symbols.labelAddress? name
      = ((labelValue? name lines).map UInt32.ofNat).or (run.symbols.labelAddress? name) := by
  have h := labelAddress?_foldl_bindLine name lines 0 run
  simp only [Nat.zero_add] at h
  exact h

theorem foldl_bindLine_variables (lines : List Line) (state : Nat × Assembler) :
    (lines.foldl bindLine state).2.symbols.variableMap = state.2.symbols.variableMap
      ∧ (lines.foldl bindLine state).2.symbols.nextFree = state.2.symbols.nextFree := by
  induction lines generalizing state with
  | nil => exact ⟨rfl, rfl⟩
  | cons line lines ih =>
    obtain ⟨count, run⟩ := state
    have hstep : (bindLine (count, run) line).2.symbols.variableMap = run.symbols.variableMap
        ∧ (bindLine (count, run) line).2.symbols.nextFree = run.symbols.nextFree := by
      cases hline : line.statement <;>
        simp [bindLine, hline, declare, SymbolTable.defineLabel]
    rw [List.foldl_cons, (ih _).1, (ih _).2]
    exact hstep

@[simp] theorem variableAddress?_bindLabels (run : Assembler) (lines : List Line)
    (name : String) :
    (run.bindLabels lines).2.symbols.variableAddress? name
      = run.symbols.variableAddress? name := by
  unfold SymbolTable.variableAddress? bindLabels
  rw [(foldl_bindLine_variables lines (0, run)).1]

@[simp] theorem nextFree_bindLabels (run : Assembler) (lines : List Line) :
    (run.bindLabels lines).2.symbols.nextFree = run.symbols.nextFree :=
  (foldl_bindLine_variables lines (0, run)).2

end Assembler

end Hack
