import Mathlib.Data.List.Induction
import Hack.Assembler.Session
import Hack.Proofs.Faults
import Hack.Proofs.Messages
import Hack.Proofs.Ranks
import Hack.Proofs.Renaming
import Hack.Proofs.Settling

/-!
# The log of a run

What a run reports can be read off its lines: of a declaration whether it is shadowed and which one
it replaces, of an instruction whether it is the first to use a variable and which word it becomes.

* `Program.report` — what is reported of some lines
* `Assembler.log_bindLabels` — the first pass reports declarations
* `AssembleM.Between` — what holds between two instructions of the second pass
* `AssembleM.log_encodeLines` — the second pass reports instructions, up to the first without a word
* `trace_log` — the log of a run
-/

namespace Hack

open Program

/-! ## What a program reports -/

/-- What is said of some things in turn, of each behind those before it. -/
def inTurn {α β : Type} (say : List α → α → List β) (before : List α) : List α → List β
  | [] => []
  | thing :: rest => say before thing ++ inTurn say (before ++ [thing]) rest

namespace Program

/-- What is reported of a line behind others if it declares a label: that a predefined name shadows
it, which declaration it replaces, and its address. -/
def declarationReport (before : List Line) (line : Line) : List Event :=
  match line.statement with
  | .label name =>
    (if (predefined? name).isSome then [.labelShadowed line.number name] else [])
      ++ ((labelValue? name before).toList.map fun previous =>
        .labelRedefined line.number name (UInt32.ofNat previous) (instructions before).length)
      ++ [.labelBound name (instructions before).length]
  | _ => []

/-- What is reported of an operand behind other instructions if it is a variable that they do not
use: that it gets the next address. -/
def allocationReport (lines : List Line) (before : List (Nat × Instruction)) :
    Instruction → List Event
  | .address operand =>
    if isVariable lines operand ∧ operand ∉ loads before then
      [.variableAllocated operand
        (UInt32.ofNat (16 + (variablesAmong lines (loads before)).length))]
    else []
  | .compute .. => []

/-- What is reported of an instruction behind others: the allocation of its operand, and its word
if it has one. -/
def instructionReport (lines : List Line) (before : List (Nat × Instruction)) :
    Nat × Instruction → List Event
  | (number, instruction) =>
    allocationReport lines before instruction
      ++ match denote lines number instruction with
        | .ok word => [.encoded number instruction word]
        | .error _ => []

/-- What is reported at the end: the numbers of instructions, labels and variables, if all
instructions have words. -/
def closingReport (lines : List Line) : List Event :=
  match denotation lines with
  | .ok _ =>
    [.assembled (instructions lines).length (labelNames lines).eraseDups.length
      (variableNames lines).length]
  | .error _ => []

/-- The instructions up to the first that has no word, with that one. -/
def reached (lines : List Line) : List (Nat × Instruction) :=
  attempted (fun (number, instruction) => denote lines number instruction) (instructions lines)

/-- What is reported of some lines: all declarations, the instructions up to the first that has no
word, and the end. -/
def report (lines : List Line) : List Event :=
  inTurn declarationReport [] lines ++ inTurn (instructionReport lines) [] (reached lines)
    ++ closingReport lines

end Program

/-! ## The first pass -/

namespace Assembler

theorem bindLabels_snoc (run : Assembler) (before : List Line) (line : Line) :
    run.bindLabels (before ++ [line]) = bindLine (run.bindLabels before) line :=
  List.foldl_append

theorem log_bindLine (before : List Line) (line : Line) :
    (bindLine (initial.bindLabels before) line).2.log.toList
      = (initial.bindLabels before).2.log.toList ++ declarationReport before line := by
  have hcount := initial.fst_bindLabels before
  have hlabel : ∀ name, (initial.bindLabels before).2.symbols.labelAddress? name = _ :=
    labelAddress?_boundTable before
  generalize initial.bindLabels before = state at hcount hlabel
  obtain ⟨count, run⟩ := state
  obtain ⟨number, statement⟩ := line
  cases hcount
  cases statement with
  | label name =>
    show (run.log ++ declarationEvents run.symbols number name _).toList = _
    rw [Array.toList_appendList, declarationEvents, hlabel]
    simp only [declarationReport]
    cases labelValue? name before <;> rfl
  | _ => exact (List.append_nil _).symm

theorem log_foldl_bindLine (before rest : List Line) :
    (rest.foldl bindLine (initial.bindLabels before)).2.log.toList
      = (initial.bindLabels before).2.log.toList ++ inTurn declarationReport before rest := by
  induction rest generalizing before with
  | nil => exact (List.append_nil _).symm
  | cons line rest ih =>
    have hstep := log_bindLine before line
    have hrest := ih (before ++ [line])
    rw [bindLabels_snoc, hstep] at hrest
    rw [List.foldl_cons, hrest, inTurn, List.append_assoc]

/-- The first pass reports the declarations in order. -/
theorem log_bindLabels (lines : List Line) :
    (initial.bindLabels lines).2.log.toList = inTurn declarationReport [] lines :=
  log_foldl_bindLine [] lines

end Assembler

/-! ## The second pass -/

namespace AssembleM

variable {run : Assembler}

/-- What is reported when the operand of an instruction is looked up. -/
def allocationEvents (table : SymbolTable) : Instruction → List Event
  | .address operand =>
    if table.isNew operand then [.variableAllocated operand table.nextFree] else []
  | .compute .. => []

theorem log_resolve (number : Nat) (operand : String) (run : Assembler) :
    ((resolve number operand).after run).log.toList
      = run.log.toList ++ allocationEvents run.symbols (.address operand) := by
  have h := resolves_resolve number operand run
  unfold after allocationEvents SymbolTable.isNew
  generalize resolve number operand run = result at h
  cases h with
  | unread hmeaning | known hmeaning | far hmeaning => simp [hmeaning]
  | new hmeaning | full hmeaning => simp [hmeaning]

theorem log_encode (number : Nat) (instruction : Instruction) (run : Assembler) :
    ((encode number instruction).after run).log.toList
      = run.log.toList ++ allocationEvents run.symbols instruction
        ++ match (outcome (encode number instruction run)).1 with
          | .ok word => [.encoded number instruction word]
          | .error _ => [] := by
  cases instruction with
  | compute dest comp jump =>
    rw [allocationEvents, List.append_nil]
    exact Array.toList_push
  | address operand =>
    have hlog := log_resolve number operand run
    rw [after] at hlog
    rw [← hlog, encode, after_bind, bind_apply, word, map_eq_pure_bind, bind_apply]
    cases hresolve : resolve number operand run with
    | error error mid => exact (List.append_nil _).symm
    | ok address mid => exact Array.toList_push

variable {lines : List Line} {before rest : List (Nat × Instruction)} {run : Assembler}

/-- Behind some instructions an operand is new if it is a variable that they do not use. -/
theorem allocationEvents_foldl_visit (lines : List Line) (before : List (Nat × Instruction))
    (instruction : Instruction) :
    allocationEvents ((loads before).foldl SymbolTable.visit (boundTable lines)) instruction
      = allocationReport lines before instruction := by
  cases instruction with
  | compute dest comp jump => rfl
  | address operand =>
    have hnames : (boundTable lines).newNames (loads before)
        = variablesAmong lines (loads before) := by
      rw [SymbolTable.newNames, isNew_boundTable, variablesAmong]
    rw [allocationEvents, allocationReport, SymbolTable.isNew_foldl_visit,
      SymbolTable.nextFree_foldl_visit, isNew_boundTable, nextFree_boundTable, hnames,
      UInt32.ofNat_add]
    simp only [Bool.and_eq_true, decide_eq_true_eq]
    rfl

theorem after_mapM_cons_of_ok {α β : Type} {f : α → AssembleM β} {a : α} {b : β}
    {mid : Assembler} (h : f a run = .ok b mid) (as : List α) :
    ((a :: as).mapM f).after run = (as.mapM f).after mid := by
  have hafter : ((a :: as).mapM f).after run
      = (as.mapM f >>= fun bs => pure (b :: bs)).after mid := by
    rw [List.mapM_cons, after_bind, h]
  rw [hafter, after_bind, after]
  cases as.mapM f mid <;> rfl

theorem after_mapM_cons_of_error {α β : Type} {f : α → AssembleM β} {a : α}
    {error : AssembleError} {mid : Assembler} (h : f a run = .error error mid) (as : List α) :
    ((a :: as).mapM f).after run = mid := by
  rw [List.mapM_cons, after_bind, h]

/-- The second pass between two instructions: those before have words, and their operands have been
looked up. -/
structure Between (lines : List Line) (before rest : List (Nat × Instruction)) (run : Assembler) :
    Prop where
  split : instructions lines = before ++ rest
  words : ∀ earlier ∈ before, ∃ word,
    (boundTable lines).wordAmong (instructions lines) earlier = .ok word
  symbols : run.symbols = (loads before).foldl SymbolTable.visit (boundTable lines)

namespace Between

variable {number : Nat} {instruction : Instruction} {word : Word} {mid : Assembler}

theorem fst_outcome (h : Between lines before ((number, instruction) :: rest) run) :
    (outcome (encode number instruction run)).1
      = (boundTable lines).wordAmong (instructions lines) (number, instruction) := by
  rw [outcome_encode number instruction (loads rest), h.symbols, h.split,
    SymbolTable.wordAmong_append, SymbolTable.wordAmong, loads_cons]

theorem fst_outcome_eq_denote (h : Between lines before ((number, instruction) :: rest) run)
    (hlt : (instructions lines).length < UInt32.size) :
    (outcome (encode number instruction run)).1 = denote lines number instruction := by
  rw [h.fst_outcome, wordAmong_eq_denote hlt h.split h.words]

theorem log_encode (h : Between lines before ((number, instruction) :: rest) run)
    (hlt : (instructions lines).length < UInt32.size) :
    ((encode number instruction).after run).log.toList
      = run.log.toList ++ instructionReport lines before (number, instruction) := by
  rw [AssembleM.log_encode, h.fst_outcome_eq_denote hlt, h.symbols, allocationEvents_foldl_visit,
    List.append_assoc]
  rfl

theorem next (h : Between lines before ((number, instruction) :: rest) run)
    (hrun : encode number instruction run = .ok word mid) :
    Between lines (before ++ [(number, instruction)]) rest mid := by
  have hword := h.fst_outcome
  have hencode := outcome_encode number instruction (loads rest) run
  rw [hrun] at hword hencode
  refine ⟨?_, ?_, ?_⟩
  · rw [h.split, List.append_assoc]
    rfl
  · intro earlier hmem
    rcases List.mem_append.mp hmem with hmem | hmem
    · exact h.words earlier hmem
    · rw [List.mem_singleton.mp hmem]
      exact ⟨word, hword.symm⟩
  · rw [(Prod.mk.inj hencode).2, h.symbols, loads_append, List.foldl_append, loads_cons, loads_nil,
      List.append_nil]

end Between

/-- The second pass reports the instructions that it comes to. -/
theorem log_mapM_encode (hlt : (instructions lines).length < UInt32.size)
    (h : Between lines before rest run) :
    (AssembleM.after (rest.mapM fun (number, instruction) => encode number instruction)
        run).log.toList
      = run.log.toList
        ++ inTurn (instructionReport lines) before
          (attempted (fun (number, instruction) => denote lines number instruction) rest) := by
  induction rest generalizing before run with
  | nil => exact (List.append_nil _).symm
  | cons numbered rest ih =>
    obtain ⟨number, instruction⟩ := numbered
    have hdenote := h.fst_outcome_eq_denote hlt
    have hlog := h.log_encode hlt
    rw [after] at hlog
    cases hrun : encode number instruction run with
    | error error mid =>
      rw [hrun] at hdenote hlog
      have hall := after_mapM_cons_of_error
        (f := fun (number, instruction) => encode number instruction) (a := (number, instruction))
        hrun rest
      rw [hall, attempted_cons_of_error (a := (number, instruction)) hdenote.symm, inTurn, inTurn,
        List.append_nil]
      exact hlog
    | ok word mid =>
      rw [hrun] at hdenote hlog
      have hall := after_mapM_cons_of_ok
        (f := fun (number, instruction) => encode number instruction) (a := (number, instruction))
        hrun rest
      rw [hall, ih (h.next hrun), attempted_cons_of_ok (a := (number, instruction)) hdenote.symm,
        inTurn, ← List.append_assoc]
      exact congrArg (· ++ _) hlog

theorem log_encodeLines (hlt : (instructions lines).length < UInt32.size) :
    ((encodeLines lines).after (Assembler.initial.bindLabels lines).2).log.toList
      = inTurn declarationReport [] lines
        ++ inTurn (instructionReport lines) [] (reached lines) := by
  have hstart : Between lines [] (instructions lines) (Assembler.initial.bindLabels lines).2 :=
    ⟨(List.nil_append _).symm, List.forall_mem_nil _, rfl⟩
  have hlog := log_mapM_encode hlt hstart
  rw [Assembler.log_bindLabels] at hlog
  exact hlog

end AssembleM

/-! ## The end -/

namespace SymbolTable

theorem size_eq_length {bindings : Std.ExtTreeMap String Address} {names : List String}
    (hnodup : names.Nodup) (hbound : ∀ name, bindings[name]?.isSome ↔ name ∈ names) :
    bindings.size = names.length := by
  have hkeys : bindings.keys.Nodup := by
    have hdistinct := bindings.distinct_keys
    simp only [Std.LawfulEqCmp.compare_eq_iff_eq] at hdistinct
    exact hdistinct
  have hperm : bindings.keys.Perm names := by
    rw [List.perm_ext_iff_of_nodup hkeys hnodup]
    intro name
    rw [Std.ExtTreeMap.mem_keys, Std.ExtTreeMap.mem_iff_isSome_getElem?, hbound]
  rw [← Std.ExtTreeMap.length_keys, hperm.length_eq]

theorem size_labelMap_boundTable (lines : List Line) :
    (boundTable lines).labelMap.size = (labelNames lines).eraseDups.length := by
  refine size_eq_length (nodup_eraseDups _) fun name => ?_
  have hlabel := labelAddress?_boundTable lines name
  rw [labelAddress?] at hlabel
  rw [hlabel, Option.isSome_map, List.mem_eraseDups, mem_labelNames_iff_labelValue?,
    Option.isSome_iff_ne_none]

theorem size_variableMap_foldl_visit (lines : List Line) :
    ((operands lines).foldl visit (boundTable lines)).variableMap.size
      = (variableNames lines).length := by
  refine size_eq_length (nodup_eraseDups _) fun name => ?_
  have hvariable := isSome_variableAddress?_foldl_visit (boundTable lines) (operands lines) name
  rw [variableAddress?_boundTable, newNames_boundTable] at hvariable
  exact hvariable.trans (or_iff_right Bool.false_ne_true)

end SymbolTable

namespace AssembleM

variable {lines : List Line} {words : List Word} {final : Assembler}

/-- Where all instructions have words, all operands have been looked up. -/
theorem symbols_encodeLines
    (h : encodeLines lines (Assembler.initial.bindLabels lines).2 = .ok words final) :
    final.symbols = (operands lines).foldl SymbolTable.visit (boundTable lines) := by
  have houtcome := outcome_encodeLines lines (Assembler.initial.bindLabels lines).2
  rw [h] at houtcome
  obtain ⟨hwords, hsymbols⟩ := Prod.mk.inj houtcome
  rw [attempted_eq_self hwords.symm] at hsymbols
  exact hsymbols

theorem denotation_eq_outcome (hlt : (instructions lines).length < UInt32.size) :
    denotation lines
      = (outcome (encodeLines lines (Assembler.initial.bindLabels lines).2)).1 := by
  rw [outcome_encodeLines, ← mapM_wordAmong_boundTable hlt]
  rfl

/-- The log of both passes is what is reported of the lines. -/
theorem log_assembleLines (hlt : (instructions lines).length < UInt32.size) :
    ((assembleLines lines).after .initial).log.toList = report lines := by
  have hlog := log_encodeLines hlt
  have hdenotation := denotation_eq_outcome hlt
  have hcount := Assembler.initial.fst_bindLabels lines
  have hbind : (modifyGet fun run => run.bindLabels lines : AssembleM Nat) .initial
      = .ok (Assembler.initial.bindLabels lines).1 (Assembler.initial.bindLabels lines).2 := rfl
  rw [assembleLines, after_bind, hbind]
  dsimp only
  rw [after_bind, report, ← hlog, after, closingReport, hdenotation]
  cases hencode : encodeLines lines (Assembler.initial.bindLabels lines).2 with
  | error error final => exact (List.append_nil _).symm
  | ok words final =>
    have hwords : words.length = (Assembler.initial.bindLabels lines).1 := by
      rw [length_encodeLines hencode, hcount]
    have hsymbols := symbols_encodeLines hencode
    have hlabels : final.symbols.labelMap.size = (labelNames lines).eraseDups.length := by
      rw [hsymbols, SymbolTable.labelMap_foldl_visit, SymbolTable.size_labelMap_boundTable]
    have hvariables : final.symbols.variableMap.size = (variableNames lines).length := by
      rw [hsymbols, SymbolTable.size_variableMap_foldl_visit]
    simp only [hwords, ne_eq, not_true_eq_false, if_false]
    rw [outcome, ← hcount, ← hlabels, ← hvariables]
    exact Array.toList_push

end AssembleM

/-! ## The addresses in a log -/

/-- The address whose allocation an event reports. -/
def Event.allocatedAddress? : Event → Option Address
  | variableAllocated _ address => some address
  | _ => none

theorem inTurn_snoc {α β : Type} (say : List α → α → List β) (before things : List α) (thing : α) :
    inTurn say before (things ++ [thing])
      = inTurn say before things ++ say (before ++ things) thing := by
  induction things generalizing before with
  | nil => simp [inTurn]
  | cons first things ih => simp [inTurn, ih]

namespace Program

variable {lines : List Line}

theorem allocatedAddress?_declarationReport (before : List Line) (line : Line) :
    (declarationReport before line).filterMap Event.allocatedAddress? = [] := by
  unfold declarationReport
  split
  · next name hline =>
    rw [List.filterMap_append, List.filterMap_append, List.filterMap_map]
    split <;> cases labelValue? name before <;> rfl
  · rfl

theorem allocatedAddress?_declarations (lines : List Line) :
    (inTurn declarationReport [] lines).filterMap Event.allocatedAddress? = [] := by
  induction lines using List.reverseRecOn with
  | nil => rfl
  | append_singleton lines line ih =>
    rw [inTurn_snoc, List.filterMap_append, ih, allocatedAddress?_declarationReport]
    rfl

theorem allocatedAddress?_closingReport (lines : List Line) :
    (closingReport lines).filterMap Event.allocatedAddress? = [] := by
  unfold closingReport
  cases denotation lines <;> rfl

theorem allocatedAddress?_instructionReport (lines : List Line)
    (before : List (Nat × Instruction)) (numbered : Nat × Instruction) :
    (instructionReport lines before numbered).filterMap Event.allocatedAddress?
      = (allocationReport lines before numbered.2).filterMap Event.allocatedAddress? := by
  obtain ⟨number, instruction⟩ := numbered
  rw [instructionReport, List.filterMap_append]
  cases denote lines number instruction <;> exact List.append_nil _

/-- One more operand is one more variable if it is one that has not been used. -/
theorem variablesAmong_snoc (lines : List Line) (before : List String) (operand : String) :
    variablesAmong lines (before ++ [operand])
      = variablesAmong lines before
        ++ if isVariable lines operand ∧ operand ∉ before then [operand] else [] := by
  unfold variablesAmong
  rw [List.filter_append, List.eraseDups_append]
  cases hvariable : isVariable lines operand with
  | false => simp [hvariable]
  | true =>
    by_cases hmem : operand ∈ before
    · simp [hvariable, hmem, List.removeAll]
    · simp [hvariable, hmem, List.removeAll, List.eraseDups_cons]

/-- Every variable is reported once, with the address of its rank. -/
theorem allocatedAddress?_instructions (lines : List Line) (program : List (Nat × Instruction)) :
    (inTurn (instructionReport lines) [] program).filterMap Event.allocatedAddress?
      = (List.range (variablesAmong lines (loads program)).length).map
          fun rank => UInt32.ofNat (16 + rank) := by
  induction program using List.reverseRecOn with
  | nil => rfl
  | append_singleton program numbered ih =>
    obtain ⟨number, instruction⟩ := numbered
    rw [inTurn_snoc, List.filterMap_append, ih, allocatedAddress?_instructionReport, loads_append,
      loads_cons, loads_nil, List.append_nil, List.nil_append]
    cases instruction with
    | compute dest comp jump =>
      rw [Instruction.operand?, Option.toList_none, List.append_nil]
      exact List.append_nil _
    | address operand =>
      rw [Instruction.operand?, Option.toList_some, variablesAmong_snoc, List.length_append,
        allocationReport]
      split
      · rw [List.length_singleton, List.range_succ, List.map_append]
        rfl
      · exact List.append_nil _

/-- Instructions that have words use no more variables than there is room for in a word, and the
first that has none may use one more. -/
theorem length_variablesAmong_reached (lines : List Line) :
    (variablesAmong lines (loads (reached lines))).length ≤ 32753 := by
  obtain ⟨later, hlater⟩ := exists_attempted_append
    (fun (number, instruction) => denote lines number instruction) (instructions lines)
  rcases attempted_eq_nil_or_snoc (fun (number, instruction) => denote lines number instruction)
    (instructions lines) with hnil | ⟨before, ⟨number, instruction⟩, hsnoc, hbefore⟩
  · rw [reached, hnil]
    exact Nat.zero_le _
  · rw [hsnoc] at hlater
    rw [reached, hsnoc]
    have hoperands : operands lines = loads before ++ loads ((number, instruction) :: later) := by
      show loads (instructions lines) = _
      rw [hlater, List.append_assoc, loads_append]
      rfl
    have hloads : ∀ operand ∈ loads before, Loads lines operand := by
      intro operand hmem
      obtain ⟨line, hmem⟩ := mem_loads_iff.mp hmem
      exact loads_of_fits ((fits_iff_exists_word line).mpr (hbefore _ hmem))
    have hlength := length_variablesAmong_le hoperands hloads
    rw [loads_append, loads_cons, loads_nil, List.append_nil]
    cases instruction with
    | compute dest comp jump =>
      rw [Instruction.operand?, Option.toList_none, List.append_nil]
      omega
    | address operand =>
      rw [Instruction.operand?, Option.toList_some, variablesAmong_snoc, List.length_append]
      split
      · exact Nat.succ_le_succ hlength
      · exact Nat.le_succ_of_le hlength

/-- The addresses that are reported go up from that of the first variable, without a gap. -/
theorem allocatedAddress?_report (lines : List Line) :
    ((report lines).filterMap Event.allocatedAddress?).map UInt32.toNat
      = List.range' 16 (variablesAmong lines (loads (reached lines))).length := by
  have hlength := length_variablesAmong_reached lines
  rw [report, List.filterMap_append, List.filterMap_append, allocatedAddress?_declarations,
    allocatedAddress?_closingReport, allocatedAddress?_instructions, List.nil_append,
    List.append_nil, List.map_map, List.range'_eq_map_range]
  refine List.map_congr_left fun rank hrank => ?_
  have hrank := List.mem_range.mp hrank
  have hsize : UInt32.size = 4294967296 := rfl
  exact UInt32.toNat_ofNat_of_lt (by omega)

end Program

/-! ## The log of a run -/

theorem log_trace (source : String) :
    (trace source).2 = ((AssembleM.assembleSource source).after .initial).log := by
  unfold trace AssembleM.after
  cases AssembleM.assembleSource source .initial <;> rfl

theorem log_trace_of_unreadable {source : String} {error : AssembleError}
    (hread : readLines source = .error error) : (trace source).2 = #[] := by
  rw [log_trace, AssembleM.assembleSource, hread]
  rfl

theorem log_trace_of_lines {source : String} {lines : List Line}
    (hread : readLines source = .ok lines) (hlt : (instructions lines).length < UInt32.size) :
    (trace source).2.toList = report lines := by
  rw [log_trace, AssembleM.assembleSource, hread]
  exact AssembleM.log_assembleLines hlt

/-- The log of a run reports nothing of a source that cannot be read, and of other sources every
declaration, the instructions up to the first without a word, and the end. Variables get the
addresses from 16 on, one after the other, and every event is told at its level and in its words. -/
theorem trace_log (source : String) :
    (∀ error, readLines source = .error error → (trace source).2 = #[])
      ∧ ∀ lines, readLines source = .ok lines → (instructions lines).length < UInt32.size →
          (trace source).2.toList = report lines
            ∧ (∃ count, ((trace source).2.toList.filterMap Event.allocatedAddress?).map UInt32.toNat
                = List.range' 16 count)
            ∧ ∀ event ∈ (trace source).2, event.Says event.level event.message := by
  refine ⟨fun error hread => log_trace_of_unreadable hread, fun lines hread hlt => ?_⟩
  have hlog := log_trace_of_lines hread hlt
  have haddresses := allocatedAddress?_report lines
  rw [← hlog] at haddresses
  exact ⟨hlog, ⟨_, haddresses⟩, fun event _ => event.says_message⟩

/-- A shadowed label, one that is declared twice, and a variable that is used twice. -/
def reported : String := "(SP)\n(x)\n@i\n(x)\n@x\n@i\n"

/-- The lines of `reported`. -/
def reportedLines : List Line :=
  [⟨1, .label "SP"⟩, ⟨2, .label "x"⟩, ⟨3, .instruction (.address "i")⟩, ⟨4, .label "x"⟩,
    ⟨5, .instruction (.address "x")⟩, ⟨6, .instruction (.address "i")⟩]

theorem trace_log_reported :
    readLines reported = .ok reportedLines
      ∧ (instructions reportedLines).length < UInt32.size
      ∧ (trace reported).2.toList
          = [.labelShadowed 1 "SP", .labelBound "SP" 0, .labelBound "x" 0,
              .labelRedefined 4 "x" 0 1, .labelBound "x" 1, .variableAllocated "i" 16,
              .encoded 3 (.address "i") 16, .encoded 5 (.address "x") 1,
              .encoded 6 (.address "i") 16, .assembled 3 2 1]
      ∧ (trace reported).2.toList.map (fun event => (event.level, event.message))
          = [(.warn, "label shadowed by predefined symbol"), (.debug, "bound label"),
              (.debug, "bound label"), (.warn, "label redefined"), (.debug, "bound label"),
              (.debug, "allocated variable"), (.trace, "@i => 0000000000010000"),
              (.trace, "@x => 0000000000000001"), (.trace, "@i => 0000000000010000"),
              (.debug, "assembled")]
      ∧ (∀ event ∈ (trace reported).2, event.Says event.level event.message)
      ∧ readLines (reported ++ "@") = .error (.line 7 (.malformedAddress "@"))
      ∧ (trace (reported ++ "@")).2 = #[] := by
  have hread : readLines reported = .ok reportedLines := by decide
  have hlt : (instructions reportedLines).length < UInt32.size := by decide
  have hunread : readLines (reported ++ "@") = .error (.line 7 (.malformedAddress "@")) := by
    decide
  obtain ⟨hreport, -, hsays⟩ := (trace_log reported).2 reportedLines hread hlt
  have hempty := (trace_log (reported ++ "@")).1 _ hunread
  refine ⟨hread, hlt, hreport.trans (by decide), ?_, hsays, hunread, hempty⟩
  rw [hreport]
  decide

end Hack
