import Hack.Proofs.Faults
import Hack.Proofs.Ranks
import Hack.Proofs.Reassembly

/-!
# How many variables there is room for

A variable is allocated before it is known whether its address fits into a word. The first address
that does not fit ends the second pass, so at most one variable is allocated in vain, and the next
free address does not come near the end of its range.

* `Allots` — the variables that are allocated between two states, and their addresses
* `InRoom`, `AssembleM.staysInRoom_encodeLines` — how far allocation goes
* `AssembleM.encodeLines_address` — the word of an address load is its address
* `Program.firstUse?` — the line that uses an operand first
* `encodeLines_capacity` — from any table, and for a source with a given number of variables
-/

namespace Hack

open Program

variable {α β : Type} {run mid final : Assembler} {first second names : List String}

/-! ## Allocated variables -/

theorem SymbolTable.toNat_nextFree_allocate {table : SymbolTable}
    (hroom : table.nextFree.toNat < UInt32.size - 1) (name : String) :
    (table.allocate name).nextFree.toNat = table.nextFree.toNat + 1 := by
  have hsize : UInt32.size = 2 ^ 32 := rfl
  show (table.nextFree + 1).toNat = table.nextFree.toNat + 1
  rw [UInt32.toNat_add]
  show (table.nextFree.toNat + 1) % 2 ^ 32 = table.nextFree.toNat + 1
  exact Nat.mod_eq_of_lt (by omega)

/-- Whether `names` are the variables that are allocated between two states. They get the addresses
from the next free one on, and no address wraps around. -/
structure Allots (run : Assembler) (names : List String) (final : Assembler) : Prop where
  allocated : final.allocated = run.allocated ++ names
  labelMap : final.symbols.labelMap = run.symbols.labelMap
  nextFree : final.symbols.nextFree.toNat = run.symbols.nextFree.toNat + names.length
  unbound : ∀ name ∈ names, run.symbols.variableAddress? name = none
  bound : ∀ rank name, names[rank]? = some name → ∃ address,
    final.symbols.variableAddress? name = some address
      ∧ address.toNat = run.symbols.nextFree.toNat + rank
  kept : ∀ name ∉ names,
    final.symbols.variableAddress? name = run.symbols.variableAddress? name

namespace Allots

theorem refl (run : Assembler) : Allots run [] run where
  allocated := (List.append_nil _).symm
  labelMap := rfl
  nextFree := rfl
  unbound := by simp
  bound := by simp
  kept := fun _ _ => rfl

theorem notMem_of_unbound {name : String} (h : Allots run names final)
    (hunbound : final.symbols.variableAddress? name = none) : name ∉ names := by
  intro hmem
  obtain ⟨rank, hrank⟩ := List.getElem?_of_mem hmem
  obtain ⟨address, haddress, -⟩ := h.bound rank name hrank
  rw [hunbound] at haddress
  cases haddress

theorem trans (hfirst : Allots run first mid) (hsecond : Allots mid second final) :
    Allots run (first ++ second) final := by
  have hapart : ∀ name ∈ second, name ∉ first := fun name hmem =>
    hfirst.notMem_of_unbound (hsecond.unbound name hmem)
  have hnext := hfirst.nextFree
  constructor
  case allocated => rw [hsecond.allocated, hfirst.allocated, List.append_assoc]
  case labelMap => rw [hsecond.labelMap, hfirst.labelMap]
  case nextFree => rw [hsecond.nextFree, hnext, List.length_append, Nat.add_assoc]
  case unbound =>
    intro name hmem
    rcases List.mem_append.mp hmem with hmem | hmem
    · exact hfirst.unbound name hmem
    · rw [← hfirst.kept name (hapart name hmem)]
      exact hsecond.unbound name hmem
  case bound =>
    intro rank name hname
    by_cases hlt : rank < first.length
    · rw [List.getElem?_append_left hlt] at hname
      have hmem := List.mem_of_getElem? hname
      rw [hsecond.kept name fun hagain => hapart name hagain hmem]
      exact hfirst.bound rank name hname
    · have hge := Nat.le_of_not_lt hlt
      rw [List.getElem?_append_right hge] at hname
      obtain ⟨address, haddress, hrank⟩ := hsecond.bound _ name hname
      exact ⟨address, haddress, by omega⟩
  case kept =>
    intro name hnot
    rw [List.mem_append, not_or] at hnot
    rw [hsecond.kept name hnot.2, hfirst.kept name hnot.1]

theorem record {event : Event} (hevent : event.allocated? = none) (run : Assembler) :
    Allots run [] { run with log := run.log.push event } where
  allocated := by
    rw [run.allocated_push run.symbols event, hevent]
    rfl
  labelMap := rfl
  nextFree := rfl
  unbound := by simp
  bound := by simp
  kept := fun _ _ => rfl

theorem allocate {name : String} (hunbound : run.symbols.variableAddress? name = none)
    (hroom : run.symbols.nextFree.toNat < UInt32.size - 1) :
    Allots run [name] ⟨run.symbols.allocate name,
      run.log.push (.variableAllocated name run.symbols.nextFree)⟩ where
  allocated := run.allocated_push _ _
  labelMap := rfl
  nextFree := SymbolTable.toNat_nextFree_allocate hroom name
  unbound := by simpa using hunbound
  bound := by
    intro rank other hother
    obtain ⟨rfl, rfl⟩ : rank = 0 ∧ name = other := by
      cases rank with
      | zero => exact ⟨rfl, by simpa using hother⟩
      | succ rank => simp at hother
    exact ⟨run.symbols.nextFree, by simp [SymbolTable.variableAddress?_allocate], rfl⟩
  kept := by
    intro other hother
    rw [SymbolTable.variableAddress?_allocate, if_neg fun h => hother (by simp [h])]

end Allots

/-! ## How far allocation goes -/

/-- Whether the result of an action shows that it has allocated no variable beyond the last address
that fits into a word, except for one if it has failed. -/
def InRoom (run : Assembler) : EStateM.Result AssembleError Assembler α → Prop
  | .ok _ final => ∃ names, Allots run names final
      ∧ final.symbols.nextFree.toNat ≤ max run.symbols.nextFree.toNat 32768
  | .error _ final => ∃ names, Allots run names final
      ∧ final.symbols.nextFree.toNat ≤ max run.symbols.nextFree.toNat 32768 + 1

/-- Whether this is so for an action in any state whose next free address is not the last one. -/
def AssembleM.StaysInRoom (action : AssembleM α) : Prop :=
  ∀ run : Assembler, run.symbols.nextFree.toNat < UInt32.size - 1 → InRoom run (action run)

namespace AssembleM

theorem staysInRoom_pure (a : α) : StaysInRoom (pure a) :=
  fun run _ => ⟨[], .refl run, Nat.le_max_left _ _⟩

theorem staysInRoom_bind {action : AssembleM α} {next : α → AssembleM β}
    (haction : StaysInRoom action) (hnext : ∀ a, StaysInRoom (next a)) :
    StaysInRoom (action >>= next) := by
  intro run hroom
  have hfirst := haction run hroom
  rw [bind_apply]
  cases hrun : action run with
  | error error mid =>
    rw [hrun] at hfirst
    exact hfirst
  | ok a mid =>
    rw [hrun] at hfirst
    obtain ⟨first, hallots, hle⟩ := hfirst
    have hsize : UInt32.size = 4294967296 := rfl
    have hsecond := hnext a mid (by omega)
    show InRoom run (next a mid)
    cases hrest : next a mid with
    | ok b final =>
      rw [hrest] at hsecond
      obtain ⟨second, hmore, hfinal⟩ := hsecond
      exact ⟨first ++ second, hallots.trans hmore, by omega⟩
    | error error final =>
      rw [hrest] at hsecond
      obtain ⟨second, hmore, hfinal⟩ := hsecond
      exact ⟨first ++ second, hallots.trans hmore, by omega⟩

theorem staysInRoom_record {event : Event} (hevent : event.allocated? = none) :
    StaysInRoom (record event) :=
  fun run _ => ⟨[], .record hevent run, Nat.le_max_left _ _⟩

theorem staysInRoom_resolve (number : Nat) (operand : String) :
    StaysInRoom (resolve number operand) := by
  intro run hroom
  have hmax : maxAddress.toNat = 32767 := by decide
  have hunbound (hmeaning : run.symbols.meaning operand = .ok none) :
      run.symbols.variableAddress? operand = none :=
    (SymbolTable.meaning_eq_ok_none_iff.mp hmeaning).2.2.2
  have hnext := SymbolTable.toNat_nextFree_allocate hroom operand
  have h := resolves_resolve number operand run
  generalize resolve number operand run = result at h
  cases h with
  | unread | far => exact ⟨[], .refl run, by omega⟩
  | known => exact ⟨[], .refl run, Nat.le_max_left _ _⟩
  | new hmeaning hle =>
    -- the next free address was in range, so it is 32768 at most now
    rw [UInt32.le_iff_toNat_le, hmax] at hle
    refine ⟨[operand], .allocate (hunbound hmeaning) hroom, ?_⟩
    show (run.symbols.allocate operand).nextFree.toNat ≤ _
    omega
  | full hmeaning =>
    refine ⟨[operand], .allocate (hunbound hmeaning) hroom, ?_⟩
    show (run.symbols.allocate operand).nextFree.toNat ≤ _
    omega

theorem staysInRoom_encodeLines (lines : List Line) : StaysInRoom (encodeLines lines) :=
  encodeLines_induction (P := StaysInRoom) staysInRoom_pure staysInRoom_bind staysInRoom_resolve
    (fun _ _ _ => staysInRoom_record rfl) lines

/-! ## Words of address loads -/

theorem le_of_resolve {number : Nat} {operand : String} {address : Address}
    (h : resolve number operand run = .ok address final) : address ≤ maxAddress := by
  have hresolves := resolves_resolve number operand run
  rw [h] at hresolves
  cases hresolves with
  | known _ hle => exact hle
  | new _ hle => exact hle

/-- No bit of a resolved address is lost in its word. -/
theorem encode_address {number : Nat} {operand : String} {word : Word}
    (h : encode number (.address operand) run = .ok word final) :
    ∃ address mid, resolve number operand run = .ok address mid
      ∧ word.toNat = address.toNat := by
  obtain ⟨loaded, mid, hloaded, hrecord⟩ := bind_ok h
  cases hrecord
  rw [AssembleM.word, map_eq_pure_bind] at hloaded
  obtain ⟨address, next, hresolve, hload⟩ := bind_ok hloaded
  cases hload
  exact ⟨address, mid, hresolve, Word.toNat_load (le_of_resolve hresolve)⟩

theorem encodeLines_address {before later : List Line} {number : Nat} {operand : String}
    {words : List Word}
    (h : encodeLines (before ++ ⟨number, .instruction (.address operand)⟩ :: later) run
      = .ok words final) :
    ∃ earlier mid address next word rest, encodeLines before run = .ok earlier mid
      ∧ resolve number operand mid = .ok address next
      ∧ words = earlier ++ word :: rest ∧ word.toNat = address.toNat := by
  rw [encodeLines_append] at h
  obtain ⟨earlier, mid, hearlier, h⟩ := bind_ok h
  obtain ⟨others, last, hothers, h⟩ := bind_ok h
  cases h
  rw [encodeLines_cons] at hothers
  obtain ⟨word, next, hword, hothers⟩ := bind_ok hothers
  obtain ⟨rest, after, -, hrest⟩ := bind_ok hothers
  cases hrest
  obtain ⟨address, resolved, hresolve, hvalue⟩ := encode_address hword
  exact ⟨earlier, mid, address, resolved, word, rest, hearlier, hresolve, rfl, hvalue⟩

end AssembleM

/-! ## Programs -/

namespace Program

variable {lines : List Line} {source operand name : String} {number : Nat}

/-- The number of the line whose instruction uses an operand first. -/
def firstUse? (lines : List Line) (operand : String) : Option Nat :=
  ((instructions lines).find? fun (_, instruction) =>
    instruction.operand? == some operand).map Prod.fst

theorem firstUse?_eq_some_iff :
    firstUse? lines operand = some number ↔ ∃ before after,
      instructions lines = before ++ (number, .address operand) :: after
        ∧ operand ∉ loads before := by
  rw [firstUse?, Option.map_eq_some_iff]
  constructor
  · rintro ⟨⟨line, instruction⟩, hfind, rfl⟩
    obtain ⟨hoperand, before, after, hsplit, hbefore⟩ := List.find?_eq_some_iff_append.mp hfind
    cases instruction with
    | compute dest comp jump => cases eq_of_beq hoperand
    | address other =>
      cases eq_of_beq hoperand
      refine ⟨before, after, hsplit, fun hmem => ?_⟩
      obtain ⟨line, hmem⟩ := mem_loads_iff.mp hmem
      simpa [Instruction.operand?] using hbefore _ hmem
  · rintro ⟨before, after, hsplit, hbefore⟩
    refine ⟨(number, .address operand),
      List.find?_eq_some_iff_append.mpr ⟨by simp [Instruction.operand?], before, after, hsplit, ?_⟩,
      rfl⟩
    rintro ⟨line, instruction⟩ hmem
    cases instruction with
    | compute dest comp jump => rfl
    | address other =>
      have hne : other ≠ operand := by
        rintro rfl
        exact hbefore (mem_loads_iff.mpr ⟨line, hmem⟩)
      simpa [Instruction.operand?] using hne

theorem exists_firstUse? (h : operand ∈ operands lines) :
    ∃ number, firstUse? lines operand = some number := by
  obtain ⟨number, hmem⟩ := mem_loads_iff.mp h
  refine Option.isSome_iff_exists.mp ?_
  rw [firstUse?, Option.isSome_map, List.find?_isSome]
  exact ⟨_, hmem, by simp [Instruction.operand?]⟩

theorem loads_of_rank (hvariable : isVariable lines operand = true)
    (hlt : (variableNames lines).idxOf operand < 32752) : Loads lines operand :=
  loads_of_fits ⟨_, value?_of_isVariable hvariable, by omega⟩

/-- Where only variables can be out of range, 32752 of them leave every instruction a word. -/
theorem assemble_of_few_variables (hread : readLines source = .ok lines)
    (hothers : ∀ operand ∈ operands lines, isVariable lines operand = false → Loads lines operand)
    (hlength : (variableNames lines).length ≤ 32752) : ∃ words, assemble source = .ok words := by
  refine (exists_assemble_iff hread).mpr fun operand hoperand => ?_
  cases hvariable : isVariable lines operand with
  | false => exact hothers operand hoperand hvariable
  | true =>
    have hmem : operand ∈ variableNames lines := mem_variablesAmong.mpr ⟨hoperand, hvariable⟩
    have hlt := List.idxOf_lt_length_of_mem hmem
    exact loads_of_rank hvariable (Nat.lt_of_lt_of_le hlt hlength)

/-- The first use of one variable more is where assembling ends. -/
theorem assemble_of_many_variables (hread : readLines source = .ok lines)
    (hothers : ∀ operand ∈ operands lines, isVariable lines operand = false → Loads lines operand)
    (hname : (variableNames lines)[32752]? = some name) :
    ∃ number, firstUse? lines name = some number
      ∧ assemble source = .error (.line number (.addressOutOfRange 32768)) := by
  obtain ⟨hoperand, hvariable⟩ := mem_variablesAmong.mp (List.mem_of_getElem? hname)
  have hrank : (variableNames lines).idxOf name = 32752 := by
    obtain ⟨hlt, rfl⟩ := List.getElem?_eq_some_iff.mp hname
    exact (nodup_eraseDups _).idxOf_getElem 32752 hlt
  obtain ⟨number, hfirst⟩ := exists_firstUse? hoperand
  obtain ⟨before, after, hsplit, hnew⟩ := firstUse?_eq_some_iff.mp hfirst
  have hoperands := operands_of_split hsplit
  refine ⟨number, hfirst, ?_⟩
  rw [assemble_of_lines hread]
  refine mapM_eq_error_iff.mpr ⟨before, _, after, hsplit, ?_, ?_⟩
  · rintro ⟨line, instruction⟩ hmem
    cases instruction with
    | compute dest comp jump => exact ⟨_, rfl⟩
    | address other =>
      have hload : other ∈ loads before := mem_loads_iff.mpr ⟨line, hmem⟩
      refine (loads_iff_exists_word line other).mp ?_
      cases hother : isVariable lines other with
      | false =>
        refine hothers other ?_ hother
        rw [hoperands]
        exact List.mem_append_left _ hload
      | true =>
        -- the variables in use so far are those of smaller rank
        have hamong := mem_variablesAmong.mpr ⟨hload, hother⟩
        refine loads_of_rank hother ?_
        rw [← (variablesAmong_isPrefix hoperands).idxOf_eq_of_mem hamong, ← hrank,
          rank_of_first_use hoperands hvariable hnew]
        exact List.idxOf_lt_length_of_mem hamong
  · rw [wordAmong_address, address?, value?_of_isVariable hvariable, hrank]
    rfl

end Program

/-! ## A source with many variables -/

/-- A name for every number. -/
def variableName (rank : Nat) : String := "v" ++ toString rank

/-- The lines that load `count` variables one after the other. -/
def variableLines (count : Nat) : List Line :=
  numbered 1 (((List.range count).map fun rank =>
    Instruction.address (variableName rank)).map .instruction)

/-- The source of `variableLines`. -/
def variableSource (count : Nat) : String :=
  String.join (((List.range count).map fun rank =>
    Instruction.address (variableName rank)).map fun instruction => instruction.text ++ "\n")

theorem toList_variableName (rank : Nat) :
    (variableName rank).toList = 'v' :: (toString rank).toList := by
  rw [variableName, String.toList_append]
  rfl

theorem variableName_injective : Function.Injective variableName := by
  intro rank other h
  have hlists := congrArg String.toList h
  rw [toList_variableName, toList_variableName] at hlists
  exact Text.eq_of_toString_eq (String.toList_inj.mp (List.cons.inj hlists).2)

theorem isSymbol_variableName (rank : Nat) :
    Grammar.isSymbol (variableName rank).toList = true := by
  rw [toList_variableName, Grammar.isSymbol_iff]
  refine ⟨by simp, fun c hc => ?_⟩
  rcases List.mem_cons.mp hc with rfl | hc
  · decide
  · exact isSymbolChar_of_isDigit (Text.isDigit_of_mem_toString c hc)

theorem predefined?_variableName (rank : Nat) : predefined? (variableName rank) = none := by
  have hall : ∀ binding ∈ predefined, binding.1.toList.head? ≠ some 'v' := by decide
  refine List.lookup_eq_none_iff.mpr fun binding hmem => bne_iff_ne.mpr fun heq => ?_
  have hother := hall binding hmem
  rw [← heq, toList_variableName] at hother
  exact hother rfl

theorem readLines_variableSource (count : Nat) :
    readLines (variableSource count) = .ok (variableLines count) := by
  refine readLines_program fun instruction hmem => ?_
  obtain ⟨rank, -, rfl⟩ := List.mem_map.mp hmem
  exact isSymbol_variableName rank

theorem isVariable_variableName (count rank : Nat) :
    isVariable (variableLines count) (variableName rank) = true := by
  refine isVariable_iff.mpr ⟨predefined?_variableName rank, labelValue?_numbered _ _ _, ?_⟩
  rw [startsWithDigit, toList_variableName]
  rfl

theorem instructions_variableLines (count : Nat) :
    instructions (variableLines count)
      = (List.range count).map fun rank => (rank + 1, .address (variableName rank)) := by
  induction count with
  | zero => rfl
  | succ count ih =>
    rw [variableLines] at ih
    rw [variableLines, List.range_succ, List.map_append, List.map_append, numbered_append,
      instructions_append, ih, List.map_append, List.length_map, List.length_map, List.length_range,
      Nat.add_comm 1]
    rfl

theorem operands_variableLines (count : Nat) :
    operands (variableLines count) = (List.range count).map variableName := by
  rw [operands, instructions_variableLines, List.filterMap_map, ← List.filterMap_eq_map]
  rfl

theorem variableNames_variableLines (count : Nat) :
    variableNames (variableLines count) = (List.range count).map variableName := by
  have hall : ((List.range count).map variableName).filter (isVariable (variableLines count))
      = (List.range count).map variableName := by
    refine List.filter_eq_self.mpr fun name hmem => ?_
    obtain ⟨rank, -, rfl⟩ := List.mem_map.mp hmem
    exact isVariable_variableName count rank
  rw [variableNames, operands_variableLines, hall]
  exact eraseDups_of_nodup (List.nodup_range.map variableName_injective)

theorem firstUse?_variableLines {count rank : Nat} (h : rank < count) :
    firstUse? (variableLines count) (variableName rank) = some (rank + 1) := by
  have hfind : (List.range count).find? (fun other =>
      some (variableName other) == some (variableName rank)) = some rank := by
    refine List.find?_range_eq_some.mpr ⟨by simp, List.mem_range.mpr h, fun other hlt => ?_⟩
    have hne : other ≠ rank := Nat.ne_of_lt hlt
    simpa using variableName_injective.ne hne
  simp only [firstUse?, instructions_variableLines, List.find?_map, Function.comp_def,
    Instruction.operand?, hfind, Option.map_some]

theorem loads_variableLines (count : Nat) : ∀ operand ∈ operands (variableLines count),
    isVariable (variableLines count) operand = false → Loads (variableLines count) operand := by
  intro operand hoperand hother
  rw [operands_variableLines] at hoperand
  obtain ⟨rank, -, rfl⟩ := List.mem_map.mp hoperand
  rw [isVariable_variableName] at hother
  cases hother

/-! ## Room for variables -/

/-- From any table whose next free address is not the last one, the second pass allocates variables
up to the address 32767, and one more if it fails; no address wraps around, and every word of an
address load is the resolved address with all its bits. So 32752 variables have words in a source
without other errors, and the first use of one more is an error. -/
theorem encodeLines_capacity :
    (∀ (run : Assembler) (lines : List Line),
      run.symbols.nextFree.toNat < UInt32.size - 1 →
      (∀ words final, AssembleM.encodeLines lines run = .ok words final →
        (∃ names, Allots run names final
          ∧ names.length ≤ 32768 - run.symbols.nextFree.toNat
          ∧ final.symbols.nextFree.toNat ≤ max run.symbols.nextFree.toNat 32768)
        ∧ ∀ before number operand later,
            lines = before ++ ⟨number, .instruction (.address operand)⟩ :: later →
            ∃ earlier mid address next word rest,
              AssembleM.encodeLines before run = .ok earlier mid
                ∧ AssembleM.resolve number operand mid = .ok address next
                ∧ words = earlier ++ word :: rest ∧ word.toNat = address.toNat)
      ∧ ∀ error final, AssembleM.encodeLines lines run = .error error final →
          ∃ names, Allots run names final
            ∧ names.length ≤ 32768 - run.symbols.nextFree.toNat + 1
            ∧ final.symbols.nextFree.toNat ≤ max run.symbols.nextFree.toNat 32768 + 1)
    ∧ ∀ source lines, readLines source = .ok lines →
        (∀ operand ∈ operands lines, isVariable lines operand = false → Loads lines operand) →
        ((variableNames lines).length ≤ 32752 → ∃ words, assemble source = .ok words)
        ∧ ∀ name, (variableNames lines)[32752]? = some name →
            ∃ number, firstUse? lines name = some number
              ∧ assemble source = .error (.line number (.addressOutOfRange 32768)) := by
  constructor
  · intro run lines hroom
    have hstays := AssembleM.staysInRoom_encodeLines lines run hroom
    constructor
    · intro words final hrun
      rw [hrun] at hstays
      obtain ⟨names, hallots, hle⟩ := hstays
      have hnext := hallots.nextFree
      refine ⟨⟨names, hallots, by omega, hle⟩, ?_⟩
      rintro before number operand later rfl
      exact AssembleM.encodeLines_address hrun
    · intro error final hrun
      rw [hrun] at hstays
      obtain ⟨names, hallots, hle⟩ := hstays
      have hnext := hallots.nextFree
      exact ⟨names, hallots, by omega, hle⟩
  · intro source lines hread hothers
    exact ⟨assemble_of_few_variables hread hothers,
      fun name hname => assemble_of_many_variables hread hothers hname⟩

/-- A table with room for a variable more, and a label that no word has room for. -/
def nearlyFull : Assembler :=
  .ofTable ((⟨∅, ∅, 32767⟩ : SymbolTable).defineLabel "far" 4294967295)

theorem encodeLines_capacity_boundary :
    nearlyFull.symbols.nextFree.toNat < UInt32.size - 1
      ∧ (∃ final names, AssembleM.encodeLines (variableLines 1) nearlyFull = .ok [32767] final
          ∧ Allots nearlyFull names final ∧ names.length ≤ 1
          ∧ ∃ mid address next, AssembleM.resolve 1 "v0" mid = .ok address next
              ∧ (32767 : Word).toNat = address.toNat)
      ∧ (∃ final names, AssembleM.encodeLines (variableLines 2) nearlyFull
            = .error (.line 2 (.addressOutOfRange 32768)) final
          ∧ Allots nearlyFull names final ∧ names.length ≤ 2
          ∧ final.symbols.nextFree.toNat ≤ 32769)
      ∧ (∃ words, assemble (variableSource 32752) = .ok words)
      ∧ assemble (variableSource 32753) = .error (.line 32753 (.addressOutOfRange 32768)) := by
  have hroom : nearlyFull.symbols.nextFree.toNat < UInt32.size - 1 := by decide
  obtain ⟨htables, hsources⟩ := encodeLines_capacity
  refine ⟨hroom, ?_, ?_, ?_, ?_⟩
  · have hwords : (AssembleM.outcome
        (AssembleM.encodeLines (variableLines 1) nearlyFull)).1 = .ok [32767] := by decide +kernel
    obtain ⟨final, hrun⟩ := AssembleM.fst_outcome_eq_ok_iff.mp hwords
    obtain ⟨⟨names, hallots, hlength, -⟩, haddress⟩ :=
      (htables nearlyFull (variableLines 1) hroom).1 _ _ hrun
    obtain ⟨earlier, mid, address, next, word, rest, -, hresolve, hsplit, hvalue⟩ :=
      haddress [] 1 "v0" [] rfl
    have hmem : word ∈ [32767] := by
      rw [hsplit]
      exact List.mem_append_cons_self
    rw [List.mem_singleton.mp hmem] at hvalue
    exact ⟨final, names, hrun, hallots, hlength, mid, address, next, hresolve, hvalue⟩
  · have herror : (AssembleM.outcome (AssembleM.encodeLines (variableLines 2) nearlyFull)).1
        = .error (.line 2 (.addressOutOfRange 32768)) := by decide +kernel
    obtain ⟨final, hrun⟩ := AssembleM.fst_outcome_eq_error_iff.mp herror
    obtain ⟨names, hallots, hlength, hnext⟩ :=
      (htables nearlyFull (variableLines 2) hroom).2 _ _ hrun
    exact ⟨final, names, hrun, hallots, hlength, hnext⟩
  · have hlength : (variableNames (variableLines 32752)).length = 32752 := by
      rw [variableNames_variableLines, List.length_map, List.length_range]
    exact (hsources _ _ (readLines_variableSource 32752) (loads_variableLines 32752)).1
      (Nat.le_of_eq hlength)
  · have hlast : (variableNames (variableLines 32753))[32752]? = some (variableName 32752) := by
      rw [variableNames_variableLines, List.getElem?_map, List.getElem?_range (by decide)]
      rfl
    obtain ⟨number, hfirst, herror⟩ :=
      (hsources _ _ (readLines_variableSource 32753) (loads_variableLines 32753)).2 _ hlast
    rw [firstUse?_variableLines (by decide)] at hfirst
    cases hfirst
    exact herror

end Hack
