import Hack.Proofs.Values

/-!
# Assembling by two passes

The two passes, which communicate through a symbol table, give the words that the program denotes
as a whole.

* `assemble_of_lines` — the words of a source, with the addresses of its operands
* `assemble_eq_denoted` — less than `2 ^ 32` instructions: the words that the values denote
-/

namespace Hack

open Program

variable {source : String} {lines : List Line}

/-! ## Both passes -/

namespace AssembleM

theorem length_encodeLines {run after : Assembler} {words : List Word}
    (h : encodeLines lines run = .ok words after) : words.length = (instructions lines).length := by
  have houtcome := outcome_encodeLines lines run
  rw [h] at houtcome
  have hwords := (Prod.mk.inj houtcome).1
  exact (mapM_eq_ok_iff.mp hwords.symm).length_eq.symm

/-- The passes never disagree about the number of instructions. -/
theorem fst_outcome_assembleLines (lines : List Line) (run : Assembler) :
    (outcome (assembleLines lines run)).1
      = (outcome (encodeLines lines (run.bindLabels lines).2)).1 := by
  have hbind : (modifyGet fun run => run.bindLabels lines : AssembleM Nat) run
      = .ok (run.bindLabels lines).1 (run.bindLabels lines).2 := rfl
  rw [assembleLines, bind_apply, hbind]
  simp only [bind_apply]
  cases hencode : encodeLines lines (run.bindLabels lines).2 with
  | error error after => rfl
  | ok words after =>
    have hcount : words.length = (run.bindLabels lines).1 := by
      rw [length_encodeLines hencode, Assembler.fst_bindLabels]
    simp only [hcount, ne_eq, not_true_eq_false, if_false]
    rfl

end AssembleM

theorem assemble_eq_outcome (source : String) :
    assemble source = (AssembleM.outcome (AssembleM.assembleSource source .initial)).1 := by
  unfold assemble trace
  cases AssembleM.assembleSource source .initial <;> rfl

theorem assemble_of_unreadable {error : AssembleError} (h : readLines source = .error error) :
    assemble source = .error error := by
  rw [assemble_eq_outcome, AssembleM.assembleSource, h]
  rfl

/-- The words of a source are those of the table between the passes. -/
theorem assemble_of_lines (h : readLines source = .ok lines) :
    assemble source
      = (instructions lines).mapM ((boundTable lines).wordAmong (instructions lines)) := by
  have hencode := AssembleM.outcome_encodeLines lines (Assembler.initial.bindLabels lines).2
  rw [assemble_eq_outcome, AssembleM.assembleSource, h]
  calc (AssembleM.outcome (AssembleM.assembleLines lines .initial)).1
      = (AssembleM.outcome
          (AssembleM.encodeLines lines (Assembler.initial.bindLabels lines).2)).1 :=
        AssembleM.fst_outcome_assembleLines lines .initial
    _ = _ := congrArg Prod.fst hencode

/-- The words of a source, where the line of an instruction makes no difference. -/
theorem assemble_of_words {words : List Word} (h : readLines source = .ok lines)
    (hwords : List.Forall₂
      (fun instruction word => ∀ number,
        (boundTable lines).wordAmong (instructions lines) (number, instruction) = .ok word)
      ((instructions lines).map Prod.snd) words) :
    assemble source = .ok words := by
  rw [assemble_of_lines h]
  exact mapM_eq_ok_iff.mpr ((List.forall₂_map_left_iff.mp hwords).imp fun _ _ h => h _)

/-! ## Words -/

theorem wordAmong_address (lines : List Line) (number : Nat) (operand : String) :
    (boundTable lines).wordAmong (instructions lines) (number, .address operand)
      = match address? lines operand with
        | some address => loadWord number address
        | none => .error (.line number (.invalidLiteral operand)) := by
  have hsettled := settled_boundTable lines operand
  show (boundTable lines).word (operands lines) number (.address operand) = _
  rw [SymbolTable.word, hsettled]
  cases address? lines operand <;> rfl

theorem loads_iff_exists_word (number : Nat) (operand : String) :
    Loads lines operand ↔ ∃ word,
      (boundTable lines).wordAmong (instructions lines) (number, .address operand) = .ok word := by
  rw [wordAmong_address, Loads]
  cases address? lines operand with
  | none => simp
  | some address =>
    simp only [loadWord, Option.some.injEq, exists_eq_left']
    by_cases hle : address ≤ maxAddress
    · rw [if_pos hle]
      exact iff_of_true hle ⟨_, rfl⟩
    · rw [if_neg hle]
      refine iff_of_false hle ?_
      rintro ⟨_, h⟩
      cases h

theorem operands_of_split {number : Nat} {operand : String}
    {before after : List (Nat × Instruction)}
    (h : instructions lines = before ++ (number, .address operand) :: after) :
    operands lines = loads before ++ operand :: loads after := by
  show loads (instructions lines) = _
  rw [h, loads_append, loads_cons]
  rfl

/-- Only address loads keep a program from having words. -/
theorem exists_words_iff {f : Nat × Instruction → Except AssembleError Word} {P : String → Prop}
    (hcompute : ∀ number dest comp jump, ∃ word, f (number, .compute dest comp jump) = .ok word)
    (hload : ∀ number operand, P operand ↔ ∃ word, f (number, .address operand) = .ok word) :
    (∃ words, (instructions lines).mapM f = .ok words)
      ↔ ∀ operand ∈ operands lines, P operand := by
  rw [exists_mapM_eq_ok_iff]
  constructor
  · intro h operand hoperand
    obtain ⟨number, hmem⟩ := mem_loads_iff.mp hoperand
    exact (hload number operand).mpr (h _ hmem)
  · rintro h ⟨number, instruction⟩ hmem
    cases instruction with
    | compute dest comp jump => exact hcompute number dest comp jump
    | address operand =>
      exact (hload number operand).mp (h operand (mem_loads_iff.mpr ⟨number, hmem⟩))

theorem exists_assemble_iff (hread : readLines source = .ok lines) :
    (∃ words, assemble source = .ok words) ↔ ∀ operand ∈ operands lines, Loads lines operand := by
  rw [assemble_of_lines hread]
  exact exists_words_iff (fun _ dest comp jump => ⟨Word.compute dest comp jump, rfl⟩)
    loads_iff_exists_word

theorem loadWord_ofNat {value : Nat} (h : value < UInt32.size) (number : Nat) :
    loadWord number (UInt32.ofNat value)
      = if value ≤ maxAddress.toNat then .ok (UInt16.ofNat value)
        else .error (.line number (.addressOutOfRange (UInt32.ofNat value))) := by
  have htoNat : (UInt32.ofNat value).toNat = value := UInt32.toNat_ofNat_of_lt h
  have hiff : UInt32.ofNat value ≤ maxAddress ↔ value ≤ maxAddress.toNat := by
    rw [UInt32.le_iff_toNat_le, htoNat]
  unfold loadWord
  by_cases hle : value ≤ maxAddress.toNat
  · have hmax : maxAddress.toNat = 32767 := by decide
    have hword : Word.load (UInt32.ofNat value) = UInt16.ofNat value := by
      rw [← UInt16.toNat_inj, Word.toNat_load (hiff.mpr hle), htoNat, UInt16.toNat_ofNat']
      omega
    rw [if_pos (hiff.mpr hle), if_pos hle, hword]
  · rw [if_neg (fun h => hle (hiff.mp h)), if_neg hle]

/-- Where no label loses bits, an instruction that all instructions before it leave a word has the
word that its value denotes. -/
theorem wordAmong_eq_denote (hlt : (instructions lines).length < UInt32.size)
    {before after : List (Nat × Instruction)} {number : Nat} {instruction : Instruction}
    (hsplit : instructions lines = before ++ (number, instruction) :: after)
    (hbefore : ∀ earlier ∈ before, ∃ word,
      (boundTable lines).wordAmong (instructions lines) earlier = .ok word) :
    (boundTable lines).wordAmong (instructions lines) (number, instruction)
      = denote lines number instruction := by
  cases instruction with
  | compute dest comp jump => rfl
  | address operand =>
    have hoperands := operands_of_split hsplit
    have hloads : ∀ earlier ∈ loads before, Loads lines earlier := by
      intro earlier hearlier
      obtain ⟨line, hmem⟩ := mem_loads_iff.mp hearlier
      exact (loads_iff_exists_word line earlier).mpr (hbefore _ hmem)
    simp only [wordAmong_address, denote, address?]
    cases hvalue : value? lines operand with
    | none => rfl
    | some value => exact loadWord_ofNat (value_lt hlt hoperands hloads hvalue) number

/-- Where no label loses bits, the second pass gives the words that the values denote. -/
theorem mapM_wordAmong_boundTable (hlt : (instructions lines).length < UInt32.size) :
    (instructions lines).mapM ((boundTable lines).wordAmong (instructions lines))
      = denotation lines := by
  -- up to the first load without a word no value loses bits, and nothing after it counts
  refine mapM_congr_of_first ?_
  rintro before ⟨number, instruction⟩ after hsplit hbefore
  exact wordAmong_eq_denote hlt hsplit hbefore

/-- Where no label loses bits, the words are those that the values denote. -/
theorem assemble_eq_denoted (hread : readLines source = .ok lines)
    (hlt : (instructions lines).length < UInt32.size) :
    assemble source = denotation lines := by
  rw [assemble_of_lines hread, mapM_wordAmong_boundTable hlt]

/-! ## Programs that have words -/

namespace Program

variable {number : Nat} {operand : String} {word : Word}

/-- Whether an operand has a value with room in the address field. -/
def Fits (lines : List Line) (operand : String) : Prop :=
  ∃ value, value? lines operand = some value ∧ value ≤ 32767

instance (lines : List Line) (operand : String) : Decidable (Fits lines operand) :=
  decidable_of_iff ((value? lines operand).any fun value => value ≤ 32767) <| by
    simp [Fits, Option.any_eq_true]

/-- Whether a word is that of an instruction: the value of its operand, or three ones and then its
codes. -/
def HasWord (lines : List Line) : Instruction → Word → Prop
  | .address operand, word => value? lines operand = some word.toNat
  | .compute dest comp jump, word =>
    word.toNat = 7 <<< 13 + comp.code.toNat <<< 6 + dest.code.toNat <<< 3 + jump.code.toNat

theorem denote_address_eq_ok_iff :
    denote lines number (.address operand) = .ok word
      ↔ value? lines operand = some word.toNat ∧ word.toNat ≤ 32767 := by
  have hmax : maxAddress.toNat = 32767 := by decide
  cases hvalue : value? lines operand with
  | none => simp [denote, hvalue]
  | some value =>
    simp only [denote, hvalue, hmax, Option.some.injEq]
    by_cases hle : value ≤ 32767
    · have hword : (UInt16.ofNat value).toNat = value := by
        rw [UInt16.toNat_ofNat']
        omega
      rw [if_pos hle, Except.ok.injEq, ← UInt16.toNat_inj, hword]
      exact ⟨fun h => ⟨h, h ▸ hle⟩, And.left⟩
    · rw [if_neg hle]
      refine ⟨fun h => (nomatch h), fun h => absurd ?_ hle⟩
      rw [h.1]
      exact h.2

theorem fits_iff_exists_word (number : Nat) :
    Fits lines operand ↔ ∃ word, denote lines number (.address operand) = .ok word := by
  constructor
  · rintro ⟨value, hvalue, hle⟩
    have hword : (UInt16.ofNat value).toNat = value := by
      rw [UInt16.toNat_ofNat']
      omega
    refine ⟨UInt16.ofNat value, denote_address_eq_ok_iff.mpr ?_⟩
    rw [hword]
    exact ⟨hvalue, hle⟩
  · rintro ⟨word, hword⟩
    exact ⟨word.toNat, denote_address_eq_ok_iff.mp hword⟩

theorem hasWord_of_denote {instruction : Instruction}
    (h : denote lines number instruction = .ok word) : HasWord lines instruction word := by
  cases instruction with
  | address operand => exact (denote_address_eq_ok_iff.mp h).1
  | compute dest comp jump =>
    rw [← Except.ok.inj h]
    exact Word.toNat_compute dest comp jump

theorem exists_denotation_iff (lines : List Line) :
    (∃ words, denotation lines = .ok words) ↔ ∀ operand ∈ operands lines, Fits lines operand :=
  exists_words_iff (fun _ dest comp jump => ⟨Word.compute dest comp jump, rfl⟩)
    fun number _ => fits_iff_exists_word number

end Program

/-- A source has words if all its operands have values that fit, and then its words are those of
its instructions, in order. -/
theorem assemble_ok_iff_forall_fits (hread : readLines source = .ok lines)
    (hlt : (instructions lines).length < UInt32.size) :
    ((∃ words, assemble source = .ok words) ↔ ∀ operand ∈ operands lines, Fits lines operand)
      ∧ ∀ words, assemble source = .ok words →
          List.Forall₂ (fun (_, instruction) word => HasWord lines instruction word)
            (instructions lines) words := by
  rw [assemble_eq_denoted hread hlt]
  refine ⟨exists_denotation_iff lines, fun words hwords => ?_⟩
  exact (mapM_eq_ok_iff.mp hwords).imp fun _ _ h => hasWord_of_denote h

/-- A label that is declared twice, before and after its use, among every other kind of operand and
two compute instructions. -/
def redeclared : String := "(x)\n@x\n@i\n(x)\n@12\nD=M\n@KBD\n@j\n@i\n0;JMP\n"

/-- The lines of `redeclared`. -/
def redeclaredLines : List Line :=
  [⟨1, .label "x"⟩, ⟨2, .instruction (.address "x")⟩, ⟨3, .instruction (.address "i")⟩,
    ⟨4, .label "x"⟩, ⟨5, .instruction (.address "12")⟩,
    ⟨6, .instruction (.compute .d .m .null)⟩, ⟨7, .instruction (.address "KBD")⟩,
    ⟨8, .instruction (.address "j")⟩, ⟨9, .instruction (.address "i")⟩,
    ⟨10, .instruction (.compute .null .zero .jmp)⟩]

/-- The words of `redeclared`. -/
def redeclaredWords : List Word :=
  [2, 16, 12, 0b1111110000010000, 24576, 17, 16, 0b1110101010000111]

theorem assemble_redeclared_label :
    readLines redeclared = .ok redeclaredLines
      ∧ (instructions redeclaredLines).length < UInt32.size
      ∧ (∀ operand ∈ operands redeclaredLines, Fits redeclaredLines operand)
      ∧ assemble redeclared = .ok redeclaredWords
      ∧ List.Forall₂ (fun (_, instruction) word => HasWord redeclaredLines instruction word)
          (instructions redeclaredLines) redeclaredWords := by
  have hread : readLines redeclared = .ok redeclaredLines := by decide
  have hlt : (instructions redeclaredLines).length < UInt32.size := by decide
  have hassemble : assemble redeclared = .ok redeclaredWords :=
    (assemble_eq_denoted hread hlt).trans (by decide)
  obtain ⟨hiff, hwords⟩ := assemble_ok_iff_forall_fits hread hlt
  exact ⟨hread, hlt, hiff.mp ⟨_, hassemble⟩, hassemble, hwords _ hassemble⟩

end Hack
