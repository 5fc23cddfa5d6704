import Mathlib.Data.List.Induction
import Hack.Proofs.Labels
import Hack.Proofs.Ranks

/-!
# The bindings of a session

Whatever is called on an assembler, its variables keep the addresses that they have by the order of
their allocation, and a label has the address of its last definition. Only a name that has no
address at all is allocated, so a name that is both was a variable first.

* `Assembler.perform_cases` — what one call can do
* `ranked_session`, `allocated_session_isPrefix` — the variables of a session
* `labelAddress?_session` — the last definition of a label counts
* `session_bindings` — what holds of every session
-/

namespace Hack

variable {run : Assembler} {name : String} {before : List Operation}

/-! ## One call -/

namespace Assembler

theorem allocated_declare (run : Assembler) (line : Nat) (name : String) (count : Nat) :
    (run.declare line name count).allocated = run.allocated := by
  have hevents :
      (declarationEvents run.symbols line name count).filterMap Event.allocated? = [] := by
    rw [declarationEvents]
    cases predefined? name <;> cases run.symbols.labelAddress? name <;> rfl
  rw [allocated, declare, Array.toList_appendList, List.filterMap_append, hevents,
    List.append_nil, allocated]

theorem allocated_foldl_bindLine (lines : List Line) (state : Nat × Assembler) :
    (lines.foldl bindLine state).2.allocated = state.2.allocated := by
  induction lines generalizing state with
  | nil => rfl
  | cons line lines ih =>
    obtain ⟨count, run⟩ := state
    rw [List.foldl_cons, ih, bindLine]
    split
    · exact allocated_declare run line.number _ count
    · rfl
    · rfl

theorem allocated_bindLabels (run : Assembler) (lines : List Line) :
    (run.bindLabels lines).2.allocated = run.allocated :=
  allocated_foldl_bindLine lines (0, run)

/-- A call allocates variables step by step, or leaves them as they are. -/
theorem perform_cases (run : Assembler) (operation : Operation) :
    Allocates run (run.perform operation)
      ∨ (run.perform operation).allocated = run.allocated
        ∧ (run.perform operation).symbols.nextFree = run.symbols.nextFree
        ∧ ∀ name, (run.perform operation).symbols.variableAddress? name
            = run.symbols.variableAddress? name := by
  cases operation with
  | defineLabel name address => exact .inr ⟨rfl, rfl, fun _ => rfl⟩
  | addressOf name => exact .inl (AssembleM.allocates_addressOf name run)
  | bindLabels lines =>
    exact .inr ⟨run.allocated_bindLabels lines, run.nextFree_bindLabels lines,
      run.variableAddress?_bindLabels lines⟩
  | encodeLines lines => exact .inl (AssembleM.allocates_encodeLines lines run)

theorem labelAddress?_perform (run : Assembler) (operation : Operation) (name : String) :
    (run.perform operation).symbols.labelAddress? name
      = (operation.definition? name).or (run.symbols.labelAddress? name) := by
  cases operation with
  | defineLabel other address =>
    rw [perform, SymbolTable.labelAddress?_defineLabel, Operation.definition?]
    split <;> rfl
  | addressOf other => exact (AssembleM.allocates_addressOf other run).labelAddress? name
  | bindLabels lines => exact run.labelAddress?_bindLabels lines name
  | encodeLines lines => exact (AssembleM.allocates_encodeLines lines run).labelAddress? name

theorem allocated_perform_isPrefix (run : Assembler) (operation : Operation) :
    run.allocated <+: (run.perform operation).allocated := by
  rcases run.perform_cases operation with hsteps | ⟨hallocated, -⟩
  · exact hsteps.allocated_isPrefix
  · exact ⟨[], by rw [hallocated, List.append_nil]⟩

/-- A call does not allocate what is a label when it is done. -/
theorem notMem_allocated_perform {operation : Operation}
    (hlabel : ((run.perform operation).symbols.labelAddress? name).isSome)
    (hnew : name ∉ run.allocated) : name ∉ (run.perform operation).allocated := by
  rcases run.perform_cases operation with hsteps | ⟨hallocated, -⟩
  · intro hmem
    rcases hsteps.mem_allocated hmem with hmem | hnone
    · exact hnew hmem
    · rw [hsteps.labelAddress?, hnone] at hlabel
      cases hlabel
  · rwa [hallocated]

end Assembler

theorem Ranked.perform (h : Ranked run) (operation : Operation) :
    Ranked (run.perform operation) := by
  rcases run.perform_cases operation with hsteps | ⟨hallocated, hnext, hvariable⟩
  · exact h.of_allocates hsteps
  · exact h.congr hallocated hnext hvariable

/-! ## Sessions -/

theorem ranked_session (operations : List Operation) : Ranked (session operations) := by
  induction operations using List.reverseRecOn with
  | nil => exact Ranked.initial
  | append_singleton before operation ih =>
    rw [session_snoc]
    exact ih.perform operation

theorem allocated_session_isPrefix (before after : List Operation) :
    (session before).allocated <+: (session (before ++ after)).allocated := by
  induction after using List.reverseRecOn with
  | nil => exact ⟨[], by rw [List.append_nil, List.append_nil]⟩
  | append_singleton after operation ih =>
    rw [← List.append_assoc, session_snoc]
    exact ih.trans (Assembler.allocated_perform_isPrefix _ operation)

/-- The last definition of a label counts. -/
theorem labelAddress?_session (operations : List Operation) (name : String) :
    (session operations).symbols.labelAddress? name
      = operations.reverse.findSome? fun operation => operation.definition? name := by
  induction operations using List.reverseRecOn with
  | nil => rfl
  | append_singleton before operation ih =>
    rw [session_snoc, Assembler.labelAddress?_perform, ih, List.reverse_append]
    simp only [List.reverse_singleton, List.singleton_append, List.findSome?_cons]
    cases operation.definition? name <;> rfl

theorem isSome_labelAddress?_session_iff (operations : List Operation) (name : String) :
    ((session operations).symbols.labelAddress? name).isSome
      ↔ ∃ operation ∈ operations, (operation.definition? name).isSome := by
  simp [labelAddress?_session, List.findSome?_isSome_iff]

/-- A label that is no variable does not become one. -/
theorem notMem_allocated_session (hlabel : ((session before).symbols.labelAddress? name).isSome)
    (hnew : name ∉ (session before).allocated) (after : List Operation) :
    name ∉ (session (before ++ after)).allocated := by
  obtain ⟨definition, hdefinition, hname⟩ := (isSome_labelAddress?_session_iff _ _).mp hlabel
  induction after using List.reverseRecOn with
  | nil => rwa [List.append_nil]
  | append_singleton after operation ih =>
    have hstill : ((session (before ++ after ++ [operation])).symbols.labelAddress? name).isSome :=
      (isSome_labelAddress?_session_iff _ _).mpr ⟨definition, by simp [hdefinition], hname⟩
    rw [← List.append_assoc]
    rw [session_snoc] at hstill ⊢
    exact Assembler.notMem_allocated_perform hstill ih

/-- A name that is a label and a variable was allocated before its first definition. -/
theorem isSome_both_session_iff (operations : List Operation) (name : String) :
    ((session operations).symbols.labelAddress? name).isSome
        ∧ ((session operations).symbols.variableAddress? name).isSome
      ↔ ∃ before definition after, operations = before ++ definition :: after
          ∧ (∀ earlier ∈ before, earlier.definition? name = none)
          ∧ (definition.definition? name).isSome
          ∧ name ∈ (session before).allocated := by
  rw [(ranked_session operations).isSome_variableAddress?_iff, isSome_labelAddress?_session_iff]
  constructor
  · rintro ⟨hdefined, hmem⟩
    obtain ⟨definition, hfirst⟩ := Option.isSome_iff_exists.mp (List.find?_isSome.mpr hdefined)
    obtain ⟨hname, before, after, rfl, hearlier⟩ := List.find?_eq_some_iff_append.mp hfirst
    refine ⟨before, definition, after, rfl, by simpa using hearlier, hname, ?_⟩
    -- from its first definition on the name is a label, and not allocated any more
    by_contra hnew
    have hlabel : ((session (before ++ [definition])).symbols.labelAddress? name).isSome :=
      (isSome_labelAddress?_session_iff _ _).mpr ⟨definition, by simp, hname⟩
    have hstill : name ∉ (session (before ++ [definition])).allocated := by
      rw [session_snoc] at hlabel ⊢
      exact Assembler.notMem_allocated_perform hlabel hnew
    have hnever := notMem_allocated_session hlabel hstill after
    rw [List.append_assoc] at hnever
    exact hnever hmem
  · rintro ⟨before, definition, after, rfl, -, hname, hmem⟩
    exact ⟨⟨definition, List.mem_append_cons_self, hname⟩,
      (allocated_session_isPrefix before (definition :: after)).subset hmem⟩

/-- What has been allocated keeps its address. -/
theorem variableAddress?_session_append {address : Address}
    (h : (session before).symbols.variableAddress? name = some address)
    (after : List Operation) :
    (session (before ++ after)).symbols.variableAddress? name = some address := by
  have hmem : name ∈ (session before).allocated := by
    rw [← (ranked_session before).isSome_variableAddress?_iff, h]
    rfl
  rw [← h]
  exact (ranked_session before).variableAddress?_of_isPrefix (ranked_session _)
    (allocated_session_isPrefix before after) hmem

theorem addressOf_session (hroom : (session before).allocated.length < UInt32.size - 16)
    (name : String) :
    ∃ address,
      AssembleM.addressOf name (session before)
          = .ok address (session (before ++ [.addressOf name]))
        ∧ LookUp name (session before) address (session (before ++ [.addressOf name])) := by
  have hnext : session (before ++ [.addressOf name])
      = (AssembleM.addressOf name).after (session before) := session_snoc before _
  have hbound : ∀ address, (session before).symbols.address? name = some address →
      AssembleM.addressOf name (session before) = .ok address (session before)
        ∧ session (before ++ [.addressOf name]) = session before := by
    intro address haddress
    have hcall := AssembleM.addressOf_of_bound haddress
    exact ⟨hcall, by rw [hnext, AssembleM.after, hcall]⟩
  cases hlabel : (session before).symbols.labelAddress? name with
  | some address =>
    obtain ⟨hcall, hsame⟩ := hbound address (by rw [SymbolTable.address?, hlabel, Option.some_or])
    rw [hsame]
    exact ⟨address, hcall, .label hlabel⟩
  | none =>
    cases hvariable : (session before).symbols.variableAddress? name with
    | some address =>
      obtain ⟨hcall, hsame⟩ :=
        hbound address (by rw [SymbolTable.address?, hlabel, hvariable, Option.none_or])
      rw [hsame]
      exact ⟨address, hcall, .known hlabel hvariable⟩
    | none =>
      have hunbound : (session before).symbols.address? name = none := by
        rw [SymbolTable.address?, hlabel, hvariable, Option.none_or]
      have hcall := AssembleM.addressOf_of_unbound hunbound
      rw [AssembleM.allocate_apply] at hcall
      rw [hnext, AssembleM.after, hcall]
      refine ⟨(session before).symbols.nextFree, rfl, .new hlabel hvariable ?_ ?_⟩
      · rw [(ranked_session before).nextFree, toNat_variableBase_add hroom]
      · exact Assembler.allocated_push _ _ _

/-! ## Every session -/

/-- What holds of every session: the variables have the addresses from 16 on in the order of their
allocation, and keep them; predefined names stand for themselves; the last definition of a label
counts; a name is both a label and a variable exactly if it was allocated before it was first
defined; and only a name that is neither is allocated when it is looked up. -/
theorem session_bindings (operations : List Operation)
    (hroom : (session operations).allocated.length < UInt32.size - 16) :
    (session operations).allocated.Nodup
      ∧ (∀ name address, (session operations).symbols.variableAddress? name = some address
          ↔ ∃ rank, (session operations).allocated[rank]? = some name
              ∧ address.toNat = 16 + rank)
      ∧ (∀ before after, operations = before ++ after → ∀ name address,
          (session before).symbols.variableAddress? name = some address →
            (session operations).symbols.variableAddress? name = some address)
      ∧ (∀ name address, predefined? name = some address →
          (session operations).symbols.meaning name = .ok (some address))
      ∧ (∀ name, (session operations).symbols.labelAddress? name
          = operations.reverse.findSome? fun operation => operation.definition? name)
      ∧ (∀ name, ((session operations).symbols.labelAddress? name).isSome
            ∧ ((session operations).symbols.variableAddress? name).isSome
          ↔ ∃ before definition after, operations = before ++ definition :: after
              ∧ (∀ earlier ∈ before, earlier.definition? name = none)
              ∧ (definition.definition? name).isSome
              ∧ name ∈ (session before).allocated)
      ∧ ∀ before name after, operations = before ++ .addressOf name :: after →
          ∃ address,
            AssembleM.addressOf name (session before)
                = .ok address (session (before ++ [.addressOf name]))
              ∧ LookUp name (session before) address (session (before ++ [.addressOf name])) := by
  refine ⟨(ranked_session operations).nodup, ?_, ?_, ?_, labelAddress?_session operations,
    isSome_both_session_iff operations, ?_⟩
  · intro name address
    exact (ranked_session operations).variableAddress?_eq_some_iff hroom
  · rintro before after rfl name address h
    exact variableAddress?_session_append h after
  · intro name address h
    rw [SymbolTable.meaning, h, Option.some_or]
  · rintro before name after rfl
    have hshorter := (allocated_session_isPrefix before (.addressOf name :: after)).length_le
    exact addressOf_session (Nat.lt_of_le_of_lt hshorter hroom) name

/-- Names that are used in more than one way: a variable that becomes a label, a predefined name and
the empty name as variables, a label that looks like a literal, and a pass that fails halfway. -/
def sharedNames : List Operation :=
  [.addressOf "x", .defineLabel "x" 7,
    .encodeLines [⟨1, .instruction (.address "KBD")⟩, ⟨2, .instruction (.address "y")⟩,
      ⟨3, .instruction (.address "1x")⟩, ⟨4, .instruction (.address "z")⟩],
    .bindLabels [⟨1, .instruction (.address "x")⟩, ⟨2, .label "y"⟩, ⟨3, .label "1x"⟩],
    .addressOf "KBD", .addressOf "", .addressOf "1x", .addressOf "x"]

theorem session_bindings_sharedNames :
    (session sharedNames).allocated.length < UInt32.size - 16
      ∧ (session sharedNames).allocated = ["x", "y", "KBD", ""]
      ∧ (session sharedNames).symbols.labelAddress? "y" = some 1
      ∧ (session sharedNames).symbols.variableAddress? "y" = some 17
      ∧ (session sharedNames).symbols.meaning "KBD" = .ok (some 24576) := by
  have hallocated : (session sharedNames).allocated = ["x", "y", "KBD", ""] := by decide +kernel
  have hroom : (session sharedNames).allocated.length < UInt32.size - 16 := by
    rw [hallocated]
    decide
  obtain ⟨-, hvariable, -, hpredefined, hlabel, -⟩ := session_bindings sharedNames hroom
  refine ⟨hroom, hallocated, ?_, (hvariable "y" 17).mpr ⟨1, ?_, rfl⟩, hpredefined "KBD" 24576 ?_⟩
  · rw [hlabel]
    decide
  · rw [hallocated]
    rfl
  · decide

end Hack
