import Hack.Assembler.Session
import Hack.Proofs.Ranks
import Hack.Proofs.Settling

/-!
# Running the passes again

A pass leaves a table behind on which the same pass gives the same result and changes nothing. This
holds for passes that fail as well, although the failing instruction may leave a variable behind
that has no room in a word.

* `AssembleM.outcome_encodeLines_again` — the second pass, once more
* `bindLabels_encodeLines_again` — both passes, once more
* `FailedLoad` — why an address load has no word, and what it leaves behind
* `encodeLines_failed` — a failing pass, and what comes of trying again
-/

namespace Hack

variable {lines : List Line} {run after again : Assembler} {words : List Word}
  {error : AssembleError}

namespace AssembleM

variable {α β : Type}

/-! ## The second pass, once more -/

theorem outcome_eq_ok_iff {result : EStateM.Result AssembleError Assembler α} {a : α}
    {table : SymbolTable} :
    outcome result = (.ok a, table) ↔ ∃ run, result = .ok a run ∧ run.symbols = table := by
  cases result <;> simp [outcome]

theorem outcome_eq_error_iff {result : EStateM.Result AssembleError Assembler α}
    {table : SymbolTable} :
    outcome result = (.error error, table)
      ↔ ∃ run, result = .error error run ∧ run.symbols = table := by
  cases result <;> simp [outcome]

/-- On the table that the second pass leaves behind it has the same result, and leaves the same
table behind. -/
theorem outcome_encodeLines_again
    (h : again.symbols = (outcome (encodeLines lines run)).2) :
    outcome (encodeLines lines again) = outcome (encodeLines lines run) := by
  rw [outcome_encodeLines lines run] at h ⊢
  rw [outcome_encodeLines lines again, h]
  generalize run.symbols = table
  generalize instructions lines = program
  obtain ⟨later, hlater⟩ := exists_attempted_append (table.wordAmong program) program
  -- the instructions that were tried have their words, and no others are tried again
  have hsame : ∀ numbered ∈ attempted (table.wordAmong program) program,
      table.wordAmong program numbered
        = ((loads (attempted (table.wordAmong program) program)).foldl SymbolTable.visit
            table).wordAmong program numbered := by
    intro numbered hmem
    rw [SymbolTable.wordAmong_foldl_visit hmem, ← SymbolTable.wordAmong_append_of_mem hmem later,
      ← hlater]
  obtain ⟨hmapM, hattempted⟩ := mapM_congr_of_attempted hsame
  rw [← hmapM, ← hattempted, SymbolTable.foldl_visit_again]

end AssembleM

/-! ## Both passes, once more -/

/-- The labels that the lines declare have their addresses already. -/
theorem symbols_bindLabels_again
    (h : Allocates (run.bindLabels lines).2 after) :
    (after.bindLabels lines).2.symbols = after.symbols := by
  refine SymbolTable.ext_lookup (fun name => ?_) (fun name => ?_) ?_
  · rw [Assembler.labelAddress?_bindLabels, h.labelAddress?, Assembler.labelAddress?_bindLabels]
    cases Program.labelValue? name lines <;> simp
  · exact after.variableAddress?_bindLabels lines name
  · exact after.nextFree_bindLabels lines

/-- Once both passes have succeeded they count the same instructions, give the same words, and
leave the table as it is, however often they run over the same lines. -/
theorem bindLabels_encodeLines_again
    (h : AssembleM.encodeLines lines (run.bindLabels lines).2 = .ok words after) :
    (after.bindLabels lines).1 = (run.bindLabels lines).1
      ∧ ∃ again, AssembleM.encodeLines lines (after.bindLabels lines).2 = .ok words again
          ∧ again.symbols = after.symbols := by
  have hallocates := AssembleM.allocates_encodeLines lines (run.bindLabels lines).2
  rw [AssembleM.after, h] at hallocates
  have hsymbols : (after.bindLabels lines).2.symbols
      = (AssembleM.outcome (AssembleM.encodeLines lines (run.bindLabels lines).2)).2 := by
    rw [h, symbols_bindLabels_again hallocates]
    rfl
  have hagain := AssembleM.outcome_encodeLines_again hsymbols
  rw [h] at hagain
  refine ⟨?_, AssembleM.outcome_eq_ok_iff.mp hagain⟩
  rw [Assembler.fst_bindLabels, Assembler.fst_bindLabels]

/-- A variable that becomes a label, a label that is declared twice, one that the lines do not
declare, and a new variable. -/
def reboundLines : List Line :=
  [⟨1, .instruction (.address "x")⟩, ⟨2, .label "x"⟩, ⟨3, .instruction (.address "y")⟩,
    ⟨4, .label "x"⟩, ⟨5, .instruction (.address "z")⟩, ⟨6, .instruction (.address "i")⟩]

/-- The table that `reboundLines` meet. -/
def rebound : Assembler := session [.addressOf "x", .addressOf "y", .defineLabel "z" 40]

theorem bindLabels_encodeLines_again_rebound :
    ∃ after, AssembleM.encodeLines reboundLines (rebound.bindLabels reboundLines).2
        = .ok [2, 17, 40, 18] after
      ∧ (after.bindLabels reboundLines).1 = 4
      ∧ ∃ again, AssembleM.encodeLines reboundLines (after.bindLabels reboundLines).2
            = .ok [2, 17, 40, 18] again
          ∧ again.symbols = after.symbols := by
  have hwords : (AssembleM.outcome (AssembleM.encodeLines reboundLines
      (rebound.bindLabels reboundLines).2)).1 = .ok [2, 17, 40, 18] := by decide +kernel
  cases hrun : AssembleM.encodeLines reboundLines (rebound.bindLabels reboundLines).2 with
  | error error after =>
    rw [hrun] at hwords
    cases hwords
  | ok words after =>
    rw [hrun] at hwords
    cases hwords
    obtain ⟨hcount, hagain⟩ := bindLabels_encodeLines_again hrun
    exact ⟨after, rfl, hcount, hagain⟩

/-! ## A failing pass -/

namespace AssembleM

variable {α β : Type} {f : α → AssembleM β}

/-- The step that fails runs on what the steps before it have left behind. -/
theorem mapM_eq_error {as : List α} (h : as.mapM f run = .error error after) :
    ∃ before a later bs mid, as = before ++ a :: later ∧ before.mapM f run = .ok bs mid
      ∧ f a mid = .error error after := by
  induction as generalizing run with
  | nil => cases h
  | cons a as ih =>
    rw [List.mapM_cons, bind_apply] at h
    cases ha : f a run with
    | error found mid =>
      rw [ha] at h
      cases h
      exact ⟨[], a, as, [], run, rfl, rfl, ha⟩
    | ok b next =>
      rw [ha] at h
      simp only [bind_apply] at h
      cases has : as.mapM f next with
      | ok bs mid => rw [has] at h; cases h
      | error found last =>
        rw [has] at h
        cases h
        obtain ⟨before, x, later, bs, mid, rfl, hbefore, hx⟩ := ih has
        refine ⟨a :: before, x, later, b :: bs, mid, rfl, ?_, hx⟩
        rw [List.mapM_cons, bind_apply, ha]
        simp only [bind_apply, hbefore]
        rfl

end AssembleM

/-- Why an address load has no word, and the table that it leaves behind. Only a name that is not
bound yet is bound now, although its address has no room in a word. -/
inductive FailedLoad (table : SymbolTable) (operand : String) : Fault → SymbolTable → Prop
  | unread (hdigit : startsWithDigit operand = true) (hlabel : table.labelAddress? operand = none)
      (hvalue : Program.literalValue? operand = none) :
      FailedLoad table operand (.invalidLiteral operand) table
  | literal {address : Address} (hdigit : startsWithDigit operand = true)
      (hlabel : table.labelAddress? operand = none)
      (hvalue : Program.literalValue? operand = some address.toNat)
      (hfar : 32767 < address.toNat) :
      FailedLoad table operand (.addressOutOfRange address) table
  | label {address : Address} (hpredefined : predefined? operand = none)
      (hlabel : table.labelAddress? operand = some address) (hfar : 32767 < address.toNat) :
      FailedLoad table operand (.addressOutOfRange address) table
  | bound {address : Address} (hpredefined : predefined? operand = none)
      (hlabel : table.labelAddress? operand = none) (hdigit : startsWithDigit operand = false)
      (hvariable : table.variableAddress? operand = some address) (hfar : 32767 < address.toNat) :
      FailedLoad table operand (.addressOutOfRange address) table
  | unbound (hpredefined : predefined? operand = none)
      (hlabel : table.labelAddress? operand = none) (hdigit : startsWithDigit operand = false)
      (hvariable : table.variableAddress? operand = none) (hfar : 32767 < table.nextFree.toNat) :
      FailedLoad table operand (.addressOutOfRange table.nextFree) (table.allocate operand)

theorem lt_toNat_of_not_le {address : Address} (h : ¬ address ≤ maxAddress) :
    32767 < address.toNat := by
  have hmax : maxAddress.toNat = 32767 := by decide
  rw [UInt32.le_iff_toNat_le, hmax] at h
  exact Nat.lt_of_not_le h

namespace AssembleM

theorem resolve_eq_error {number : Nat} {operand : String}
    (h : resolve number operand run = .error error after) :
    ∃ fault, error = .line number fault ∧ FailedLoad run.symbols operand fault after.symbols := by
  have hresolves := resolves_resolve number operand run
  have hmeans := run.symbols.means_meaning operand
  rw [h] at hresolves
  cases hresolves with
  | unread hmeaning =>
    rw [hmeaning] at hmeans
    cases hmeans with
    | unread hdigit hlabel hvalue => exact ⟨_, rfl, .unread hdigit hlabel hvalue⟩
  | full hmeaning hfar =>
    rw [hmeaning] at hmeans
    cases hmeans with
    | name hpredefined hlabel hdigit hvariable =>
      exact ⟨_, rfl, .unbound hpredefined hlabel hdigit hvariable (lt_toNat_of_not_le hfar)⟩
  | far hmeaning hfar =>
    have hfar := lt_toNat_of_not_le hfar
    rw [hmeaning] at hmeans
    refine ⟨_, rfl, ?_⟩
    cases hmeans with
    | predefined hpredefined =>
      have hle := UInt32.le_iff_toNat_le.mp (predefined?_spec hpredefined).1
      exact absurd hle (Nat.not_le_of_lt hfar)
    | label hpredefined hlabel => exact .label hpredefined hlabel hfar
    | literal hdigit hlabel hvalue => exact .literal hdigit hlabel hvalue hfar
    | name hpredefined hlabel hdigit hvariable =>
      exact .bound hpredefined hlabel hdigit hvariable hfar

/-- Only address loads fail. -/
theorem encode_eq_error {number : Nat} {instruction : Instruction}
    (h : encode number instruction run = .error error after) :
    ∃ operand fault, instruction = .address operand ∧ error = .line number fault
      ∧ FailedLoad run.symbols operand fault after.symbols := by
  cases instruction with
  | compute dest comp jump => cases h
  | address operand =>
    rw [encode, bind_apply, word, map_eq_pure_bind, bind_apply] at h
    cases hresolve : resolve number operand run with
    | ok address mid => rw [hresolve] at h; cases h
    | error found mid =>
      rw [hresolve] at h
      cases h
      obtain ⟨fault, rfl, hfailed⟩ := resolve_eq_error hresolve
      exact ⟨operand, fault, rfl, rfl, hfailed⟩

end AssembleM

/-- A failing pass leaves behind what the lines before the first failing one leave, and a variable
if that line has just allocated one. Trying again fails in the same way and changes nothing. -/
theorem encodeLines_failed (h : AssembleM.encodeLines lines run = .error error after) :
    (∃ before number operand later words mid fault,
      lines = before ++ ⟨number, .instruction (.address operand)⟩ :: later
        ∧ AssembleM.encodeLines before run = .ok words mid
        ∧ error = .line number fault
        ∧ FailedLoad mid.symbols operand fault after.symbols)
      ∧ ∃ again, AssembleM.encodeLines lines after = .error error again
          ∧ again.symbols = after.symbols := by
  constructor
  · obtain ⟨earlier, ⟨number, instruction⟩, rest, words, mid, hsplit, hearlier, herror⟩ :=
      AssembleM.mapM_eq_error h
    obtain ⟨operand, fault, rfl, hfault, hfailed⟩ := AssembleM.encode_eq_error herror
    obtain ⟨before, later, rfl, rfl⟩ := exists_line_of_instructions hsplit
    exact ⟨before, number, operand, later, words, mid, fault, rfl, hearlier, hfault, hfailed⟩
  · have hsymbols : after.symbols = (AssembleM.outcome (AssembleM.encodeLines lines run)).2 := by
      rw [h]
      rfl
    have hagain := AssembleM.outcome_encodeLines_again hsymbols
    rw [h] at hagain
    exact AssembleM.outcome_eq_error_iff.mp hagain

/-- A table with room for one more variable. -/
def crowded : Assembler := .ofTable { SymbolTable.empty with nextFree := 32767 }

/-- Two new variables, and a literal that is out of range. -/
def crowdedLines : List Line :=
  [⟨1, .instruction (.address "i")⟩, ⟨2, .label "x"⟩, ⟨3, .instruction (.address "j")⟩,
    ⟨4, .instruction (.address "40000")⟩]

theorem encodeLines_failed_crowded :
    ∃ after, AssembleM.encodeLines crowdedLines crowded
        = .error (.line 3 (.addressOutOfRange 32768)) after
      ∧ after.symbols.variableAddress? "j" = some 32768
      ∧ ∃ again, AssembleM.encodeLines crowdedLines after
            = .error (.line 3 (.addressOutOfRange 32768)) again
          ∧ again.symbols = after.symbols := by
  have herror : (AssembleM.outcome (AssembleM.encodeLines crowdedLines crowded)).1
      = .error (.line 3 (.addressOutOfRange 32768)) := by decide +kernel
  have hvariable : (AssembleM.outcome (AssembleM.encodeLines crowdedLines
      crowded)).2.variableAddress? "j" = some 32768 := by decide +kernel
  cases hrun : AssembleM.encodeLines crowdedLines crowded with
  | ok words after =>
    rw [hrun] at herror
    cases herror
  | error error after =>
    rw [hrun] at herror hvariable
    cases herror
    exact ⟨after, rfl, hvariable, (encodeLines_failed hrun).2⟩

end Hack
