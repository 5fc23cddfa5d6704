import Hack.Assembler.Denotation
import Hack.Assembler.Program
import Hack.Proofs.Allocation
import Hack.Proofs.FirstError

/-!
# The words of the second pass

The second pass looks its operands up while it allocates. Its words can be read off the table that
it starts with, one instruction at a time.

* `AssembleM.outcome_encode` — one instruction: its word, and the table with its operand looked up
* `AssembleM.outcome_encodeLines` — all of them, up to the first that has no word
-/

namespace Hack

namespace AssembleM

variable {α β : Type}

/-! ## Actions without their logs -/

/-- The result of an action and the table that it leaves behind. -/
def outcome : EStateM.Result AssembleError Assembler α → Except AssembleError α × SymbolTable
  | .ok a run => (.ok a, run.symbols)
  | .error error run => (.error error, run.symbols)

theorem fst_outcome_eq_ok_iff {result : EStateM.Result AssembleError Assembler α} {a : α} :
    (outcome result).1 = .ok a ↔ ∃ run, result = .ok a run := by
  cases result <;> simp [outcome]

theorem fst_outcome_eq_error_iff {result : EStateM.Result AssembleError Assembler α}
    {error : AssembleError} :
    (outcome result).1 = .error error ↔ ∃ run, result = .error error run := by
  cases result <;> simp [outcome]

theorem bind_apply (action : AssembleM α) (next : α → AssembleM β) (run : Assembler) :
    (action >>= next) run
      = match action run with
        | .ok a run => next a run
        | .error error run => .error error run := by
  show EStateM.bind action next run = _
  unfold EStateM.bind
  cases action run <;> rfl

theorem bind_ok {action : AssembleM α} {next : α → AssembleM β} {run final : Assembler} {b : β}
    (h : (action >>= next) run = .ok b final) :
    ∃ a mid, action run = .ok a mid ∧ next a mid = .ok b final := by
  rw [bind_apply] at h
  cases hrun : action run with
  | ok a mid =>
    rw [hrun] at h
    exact ⟨a, mid, rfl, h⟩
  | error error mid =>
    rw [hrun] at h
    cases h

theorem outcome_mapM_cons_of_ok {f : α → AssembleM β} {a : α} {b : β} {run after : Assembler}
    (h : f a run = .ok b after) (as : List α) :
    outcome ((a :: as).mapM f run)
      = ((outcome (as.mapM f after)).1.map (b :: ·), (outcome (as.mapM f after)).2) := by
  rw [List.mapM_cons, bind_apply, h]
  simp only [bind_apply]
  cases as.mapM f after <;> rfl

theorem outcome_mapM_cons_of_error {f : α → AssembleM β} {a : α} {error : AssembleError}
    {run after : Assembler} (h : f a run = .error error after) (as : List α) :
    outcome ((a :: as).mapM f run) = (.error error, after.symbols) := by
  rw [List.mapM_cons, bind_apply, h]
  rfl

end AssembleM

/-! ## One instruction -/

/-- The operands of the address loads among some instructions, in order. -/
def loads (instructions : List (Nat × Instruction)) : List String :=
  instructions.filterMap fun (_, instruction) => instruction.operand?

@[simp] theorem loads_nil : loads [] = [] := rfl

theorem loads_cons (line : Nat) (instruction : Instruction) (rest : List (Nat × Instruction)) :
    loads ((line, instruction) :: rest) = instruction.operand?.toList ++ loads rest := by
  rw [loads, List.filterMap_cons]
  cases instruction <;> rfl

theorem loads_append (first second : List (Nat × Instruction)) :
    loads (first ++ second) = loads first ++ loads second := by
  simp [loads]

theorem mem_loads_iff {instructions : List (Nat × Instruction)} {operand : String} :
    operand ∈ loads instructions ↔ ∃ number, (number, .address operand) ∈ instructions := by
  constructor
  · intro h
    obtain ⟨⟨number, instruction⟩, hmem, hoperand⟩ := List.mem_filterMap.mp h
    cases instruction with
    | compute dest comp jump => cases hoperand
    | address other =>
      cases hoperand
      exact ⟨number, hmem⟩
  · rintro ⟨number, hmem⟩
    exact List.mem_filterMap.mpr ⟨_, hmem, rfl⟩

/-- The word of an address load with a given address. -/
def loadWord (line : Nat) (address : Address) : Except AssembleError Word :=
  if address ≤ maxAddress then .ok (Word.load address)
  else .error (.line line (.addressOutOfRange address))

/-- The word of an instruction among address loads that look up `operands` in order. -/
def SymbolTable.word (table : SymbolTable) (operands : List String) (line : Nat) :
    Instruction → Except AssembleError Word
  | .address operand =>
    match table.settled operands operand with
    | .error fault => .error (.line line fault)
    | .ok address => loadWord line address
  | .compute dest comp jump => .ok (Word.compute dest comp jump)

theorem SymbolTable.word_cons (table : SymbolTable) (name : String) (operands : List String)
    (line : Nat) (instruction : Instruction) :
    table.word (name :: operands) line instruction
      = (table.visit name).word operands line instruction := by
  cases instruction with
  | address operand => simp only [word, settled_cons]
  | compute dest comp jump => rfl

namespace AssembleM

theorem outcome_resolve (line : Nat) (operand : String) (operands : List String)
    (run : Assembler) :
    outcome ((Word.load <$> resolve line operand) run)
      = (run.symbols.word (operand :: operands) line (.address operand),
          run.symbols.visit operand) := by
  have hsettled := run.symbols.settled_cons_self operand operands
  have h := resolves_resolve line operand run
  rw [map_eq_pure_bind, bind_apply, SymbolTable.word, hsettled, SymbolTable.visit,
    SymbolTable.isNew]
  generalize resolve line operand run = result at h
  cases h with
  | unread hmeaning =>
    rw [hmeaning]
    rfl
  | known hmeaning hle =>
    simp [hmeaning, Except.map, loadWord, hle, outcome, pure, EStateM.pure]
  | far hmeaning hfar => simp [hmeaning, Except.map, loadWord, hfar, outcome]
  | new hmeaning hle =>
    simp [hmeaning, Except.map, loadWord, hle, outcome, pure, EStateM.pure]
  | full hmeaning hfar => simp [hmeaning, Except.map, loadWord, hfar, outcome]

/-- An instruction is encoded as if the look-ups after its own were done already. -/
theorem outcome_encode (line : Nat) (instruction : Instruction) (operands : List String)
    (run : Assembler) :
    outcome (encode line instruction run)
      = (run.symbols.word (instruction.operand?.toList ++ operands) line instruction,
          instruction.operand?.toList.foldl SymbolTable.visit run.symbols) := by
  cases instruction with
  | compute dest comp jump => rfl
  | address operand =>
    have h := outcome_resolve line operand operands run
    rw [encode, bind_apply, word]
    cases hresolve : (Word.load <$> resolve line operand) run with
    | ok word after =>
      rw [hresolve] at h
      exact h
    | error error after =>
      rw [hresolve] at h
      exact h

end AssembleM

/-! ## All instructions -/

/-- The word of one of some instructions, where all of them are encoded in order. -/
def SymbolTable.wordAmong (table : SymbolTable) (instructions : List (Nat × Instruction)) :
    Nat × Instruction → Except AssembleError Word :=
  fun (line, instruction) => table.word (loads instructions) line instruction

theorem SymbolTable.wordAmong_cons (table : SymbolTable) (line : Nat) (instruction : Instruction)
    (rest : List (Nat × Instruction)) :
    table.wordAmong ((line, instruction) :: rest)
      = (instruction.operand?.toList.foldl visit table).wordAmong rest := by
  funext ⟨number, other⟩
  unfold wordAmong
  rw [loads_cons]
  cases instruction with
  | address operand => exact word_cons table operand (loads rest) number other
  | compute dest comp jump => rfl

namespace AssembleM

/-- The second pass goes through its instructions up to the first that has no word. -/
theorem outcome_mapM_encode (instructions : List (Nat × Instruction)) (run : Assembler) :
    outcome ((instructions.mapM fun (line, instruction) => encode line instruction :
        AssembleM (List Word)) run)
      = (instructions.mapM (run.symbols.wordAmong instructions),
          (loads (attempted (run.symbols.wordAmong instructions) instructions)).foldl
            SymbolTable.visit run.symbols) := by
  induction instructions generalizing run with
  | nil => rfl
  | cons first rest ih =>
    obtain ⟨line, instruction⟩ := first
    have hfirst : outcome (encode line instruction run)
        = (run.symbols.wordAmong ((line, instruction) :: rest) (line, instruction),
            instruction.operand?.toList.foldl SymbolTable.visit run.symbols) := by
      rw [outcome_encode line instruction (loads rest) run, ← loads_cons line]
      rfl
    -- the table that the first instruction leaves gives the others the same words
    have hrest := run.symbols.wordAmong_cons line instruction rest
    cases hencode : encode line instruction run with
    | error error after =>
      rw [hencode] at hfirst
      obtain ⟨hword, htable⟩ := Prod.mk.inj hfirst
      have hall := outcome_mapM_cons_of_error
        (f := fun (line, instruction) => encode line instruction) (a := (line, instruction))
        hencode rest
      rw [hall, attempted, ← hword, mapM_cons_of_error hword.symm]
      simp only [loads_cons, loads_nil, List.append_nil, htable]
    | ok word after =>
      rw [hencode] at hfirst
      obtain ⟨hword, htable⟩ := Prod.mk.inj hfirst
      have hall := outcome_mapM_cons_of_ok
        (f := fun (line, instruction) => encode line instruction) (a := (line, instruction))
        hencode rest
      rw [hall, ih after, attempted, ← hword, mapM_cons_of_ok hword.symm]
      simp only [loads_cons, List.foldl_append, hrest, htable]

theorem outcome_encodeLines (lines : List Line) (run : Assembler) :
    outcome (encodeLines lines run)
      = ((instructions lines).mapM (run.symbols.wordAmong (instructions lines)),
          (loads (attempted (run.symbols.wordAmong (instructions lines))
            (instructions lines))).foldl SymbolTable.visit run.symbols) :=
  outcome_mapM_encode (instructions lines) run

end AssembleM

end Hack
