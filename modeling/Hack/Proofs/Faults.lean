import Hack.Proofs.Denotation

/-!
# The error of a source

A source has at most one error. The first line that cannot be read decides, and where all can be
read the first address load that has no word.

* `readLines_eq_error_iff` — the first line that cannot be read
* `denotation_eq_error_iff` — the first address load that has no word
* `assemble_error` — the error of a source
-/

namespace Hack

open Program

variable {source operand : String} {lines : List Line} {number : Nat} {fault : Fault}
  {error : AssembleError}

/-! ## Lines that cannot be read -/

/-- Whether the line with this number is the first that cannot be read. -/
def FirstRejected (source : String) (number : Nat) (fault : Fault) : Prop :=
  ∃ before raw after, Text.lines source.toList = before ++ raw :: after
    ∧ number = before.length + 1
    ∧ (∀ earlier ∈ before.zipIdx 1, ∃ line, Line.ofChars earlier.2 earlier.1 = .ok line)
    ∧ Line.ofChars number raw = .error (.line number fault)

theorem ofChars_eq_error {raw : List Char} (h : Line.ofChars number raw = .error error) :
    ∃ fault, error = .line number fault := by
  unfold Line.ofChars at h
  split at h
  · cases h
  · next fault _ => exact ⟨fault, (Except.error.inj h).symm⟩

theorem readLines_eq_error_iff :
    readLines source = .error error
      ↔ ∃ number fault, error = .line number fault ∧ FirstRejected source number fault := by
  unfold readLines
  rw [mapM_eq_error_iff]
  constructor
  · rintro ⟨earlier, ⟨raw, number⟩, later, hsplit, hearlier, herror⟩
    -- the numbers of the lines are put back where they came from
    obtain ⟨before, rest, hlines, rfl, hrest⟩ := List.zipIdx_eq_append_iff.mp hsplit
    obtain ⟨raw', after, rfl, hraw, -⟩ := List.zipIdx_eq_cons_iff.mp hrest.symm
    cases hraw
    obtain ⟨fault, rfl⟩ := ofChars_eq_error herror
    exact ⟨_, fault, rfl, before, raw, after, hlines, Nat.add_comm _ _, hearlier, herror⟩
  · rintro ⟨number, fault, rfl, before, raw, after, hlines, hnumber, hbefore, herror⟩
    refine ⟨before.zipIdx 1, (raw, number), after.zipIdx (1 + before.length + 1), ?_, hbefore,
      herror⟩
    rw [hlines, List.zipIdx_append, List.zipIdx_cons, hnumber, Nat.add_comm before.length 1]

/-! ## Address loads that have no word -/

/-- What is wrong with an address load that has no word, where the loads of `earlier` have one. -/
inductive LoadFault (lines : List Line) (earlier : List String) (operand : String) : Fault → Prop
  | unread (hdigit : startsWithDigit operand = true)
      (hlabel : labelValue? operand lines = none) (hvalue : literalValue? operand = none) :
      LoadFault lines earlier operand (.invalidLiteral operand)
  | literal {address : Address} (hdigit : startsWithDigit operand = true)
      (hlabel : labelValue? operand lines = none)
      (hvalue : literalValue? operand = some address.toNat) (hfar : 32767 < address.toNat) :
      LoadFault lines earlier operand (.addressOutOfRange address)
  | label {address : Address} (hpredefined : predefined? operand = none)
      (hvalue : labelValue? operand lines = some address.toNat) (hfar : 32767 < address.toNat) :
      LoadFault lines earlier operand (.addressOutOfRange address)
  | allocated (hvariable : isVariable lines operand = true) (hfirst : operand ∉ earlier)
      (hfar : 32767 < 16 + (variableNames lines).idxOf operand) :
      LoadFault lines earlier operand (.addressOutOfRange 32768)

/-- Whether the line with this number has the first address load without a word. -/
def FirstUnloadable (lines : List Line) (number : Nat) (fault : Fault) : Prop :=
  ∃ before operand after, instructions lines = before ++ (number, .address operand) :: after
    ∧ (∀ earlier ∈ loads before, Fits lines earlier)
    ∧ LoadFault lines (loads before) operand fault

theorem loads_of_fits (h : Fits lines operand) : Loads lines operand := by
  obtain ⟨value, hvalue, hle⟩ := h
  refine ⟨UInt32.ofNat value, ?_, ?_⟩
  · rw [address?, hvalue, Option.map_some]
  · have hmax : maxAddress.toNat = 32767 := by decide
    rw [UInt32.le_iff_toNat_le, UInt32.toNat_ofNat', hmax]
    exact Nat.le_trans (Nat.mod_le _ _) hle

theorem denote_address_eq_error_iff :
    denote lines number (.address operand) = .error error
      ↔ (value? lines operand = none ∧ error = .line number (.invalidLiteral operand))
        ∨ ∃ value, value? lines operand = some value ∧ 32767 < value
            ∧ error = .line number (.addressOutOfRange (UInt32.ofNat value)) := by
  have hmax : maxAddress.toNat = 32767 := by decide
  cases hvalue : value? lines operand with
  | none =>
    simp only [denote, hvalue]
    constructor
    · intro h
      exact .inl ⟨trivial, (Except.error.inj h).symm⟩
    · rintro (⟨-, rfl⟩ | ⟨value, hother, -⟩)
      · rfl
      · cases hother
  | some value =>
    simp only [denote, hvalue, hmax]
    by_cases hle : value ≤ 32767
    · rw [if_pos hle]
      constructor
      · intro h
        cases h
      · rintro (⟨hnone, -⟩ | ⟨other, hother, hfar, -⟩)
        · cases hnone
        · cases hother
          exact absurd hle (Nat.not_le_of_lt hfar)
    · rw [if_neg hle]
      constructor
      · intro h
        exact .inr ⟨value, rfl, Nat.lt_of_not_le hle, (Except.error.inj h).symm⟩
      · rintro (⟨hnone, -⟩ | ⟨other, hother, -, rfl⟩)
        · cases hnone
        · cases hother
          rfl

theorem denote_eq_error (h : denote lines number (.address operand) = .error error) :
    ∃ fault, error = .line number fault := by
  rcases denote_address_eq_error_iff.mp h with ⟨-, rfl⟩ | ⟨value, -, -, rfl⟩
  · exact ⟨_, rfl⟩
  · exact ⟨_, rfl⟩

section

variable {earlier later : List String}

theorem LoadFault.denote (hsplit : operands lines = earlier ++ operand :: later)
    (hearlier : ∀ other ∈ earlier, Fits lines other) (h : LoadFault lines earlier operand fault) :
    denote lines number (.address operand) = .error (.line number fault) := by
  refine denote_address_eq_error_iff.mpr ?_
  cases h with
  | unread hdigit hlabel hvalue =>
    exact .inl ⟨(value?_of_literal hdigit hlabel).trans hvalue, rfl⟩
  | @literal address hdigit hlabel hvalue hfar =>
    refine .inr ⟨_, (value?_of_literal hdigit hlabel).trans hvalue, hfar, ?_⟩
    rw [UInt32.ofNat_toNat]
  | @label address hpredefined hvalue hfar =>
    refine .inr ⟨_, value?_of_label hpredefined hvalue, hfar, ?_⟩
    rw [UInt32.ofNat_toNat]
  | allocated hvariable hfirst hfar =>
    -- the loads before leave no address free but the one after the last that fits
    have hrank := rank_le hsplit (fun other h => loads_of_fits (hearlier other h)) hvariable
    have hrank : 16 + (variableNames lines).idxOf operand = 32768 := by omega
    have hvalue := value?_of_isVariable hvariable
    rw [hrank] at hvalue
    exact .inr ⟨32768, hvalue, by decide, rfl⟩

theorem loadFault_of_no_value (h : value? lines operand = none) :
    LoadFault lines earlier operand (.invalidLiteral operand) := by
  obtain ⟨hdigit, hlabel⟩ := literal_of_value?_eq_none h
  rw [value?_of_literal hdigit hlabel] at h
  exact .unread hdigit hlabel h

theorem loadFault_of_far {value : Nat} (hlt : (instructions lines).length < UInt32.size)
    (hsplit : operands lines = earlier ++ operand :: later)
    (hearlier : ∀ other ∈ earlier, Fits lines other)
    (hvalue : value? lines operand = some value) (hfar : 32767 < value) :
    LoadFault lines earlier operand (.addressOutOfRange (UInt32.ofNat value)) := by
  have hloads : ∀ other ∈ earlier, Loads lines other :=
    fun other h => loads_of_fits (hearlier other h)
  have hwhole : value = (UInt32.ofNat value).toNat :=
    (UInt32.toNat_ofNat_of_lt (value_lt hlt hsplit hloads hvalue)).symm
  have hfirst : operand ∉ earlier := by
    intro hmem
    obtain ⟨other, hother, hle⟩ := hearlier operand hmem
    rw [hvalue] at hother
    cases hother
    exact absurd hle (Nat.not_le_of_lt hfar)
  rcases operand_cases lines operand with
    ⟨address, hpredefined⟩ | ⟨label, hpredefined, hlabel⟩ | ⟨hdigit, hlabel⟩ | hvariable
  · rw [value?_of_predefined hpredefined] at hvalue
    cases hvalue
    have hle := UInt32.le_iff_toNat_le.mp (predefined?_spec hpredefined).1
    exact absurd hle (Nat.not_le_of_lt hfar)
  · rw [value?_of_label hpredefined hlabel] at hvalue
    cases hvalue
    exact .label hpredefined (hlabel.trans (congrArg some hwhole)) (hwhole ▸ hfar)
  · rw [value?_of_literal hdigit hlabel] at hvalue
    exact .literal hdigit hlabel (hvalue.trans (congrArg some hwhole)) (hwhole ▸ hfar)
  · have hrank := rank_le hsplit hloads hvariable
    rw [value?_of_isVariable hvariable] at hvalue
    cases hvalue
    have hrank : 16 + (variableNames lines).idxOf operand = 32768 := by omega
    rw [hrank]
    exact .allocated hvariable hfirst hfar

/-- What is wrong with an address load says what its operand is. -/
theorem loadFault_iff (hlt : (instructions lines).length < UInt32.size)
    (hsplit : operands lines = earlier ++ operand :: later)
    (hearlier : ∀ other ∈ earlier, Fits lines other) :
    LoadFault lines earlier operand fault
      ↔ denote lines number (.address operand) = .error (.line number fault) := by
  refine ⟨LoadFault.denote hsplit hearlier, fun h => ?_⟩
  rcases denote_address_eq_error_iff.mp h with ⟨hvalue, herror⟩ | ⟨value, hvalue, hfar, herror⟩
  · cases herror
    exact loadFault_of_no_value hvalue
  · cases herror
    exact loadFault_of_far hlt hsplit hearlier hvalue hfar

end

theorem denotation_eq_error_iff (hlt : (instructions lines).length < UInt32.size) :
    denotation lines = .error error
      ↔ ∃ number fault, error = .line number fault ∧ FirstUnloadable lines number fault := by
  unfold denotation
  rw [mapM_eq_error_iff]
  constructor
  · rintro ⟨before, ⟨number, instruction⟩, after, hsplit, hbefore, herror⟩
    cases instruction with
    | compute dest comp jump => cases herror
    | address operand =>
      have hoperands := operands_of_split hsplit
      have hearlier : ∀ earlier ∈ loads before, Fits lines earlier := by
        intro earlier hmem
        obtain ⟨line, hload⟩ := mem_loads_iff.mp hmem
        exact (fits_iff_exists_word line).mpr (hbefore _ hload)
      have herror : denote lines number (.address operand) = .error error := herror
      obtain ⟨fault, rfl⟩ := denote_eq_error herror
      exact ⟨number, fault, rfl, before, operand, after, hsplit, hearlier,
        (loadFault_iff hlt hoperands hearlier).mpr herror⟩
  · rintro ⟨number, fault, rfl, before, operand, after, hsplit, hearlier, hfault⟩
    have hoperands := operands_of_split hsplit
    refine ⟨before, (number, .address operand), after, hsplit, ?_,
      (loadFault_iff hlt hoperands hearlier).mp hfault⟩
    rintro ⟨line, instruction⟩ hmem
    cases instruction with
    | compute dest comp jump => exact ⟨Word.compute dest comp jump, rfl⟩
    | address earlier =>
      exact (fits_iff_exists_word line).mp (hearlier earlier (mem_loads_iff.mpr ⟨line, hmem⟩))

/-! ## Sources -/

theorem assemble_eq_error (h : assemble source = .error error) :
    ∃ number fault, error = .line number fault := by
  cases hread : readLines source with
  | error first =>
    rw [assemble_of_unreadable hread] at h
    cases h
    obtain ⟨number, fault, hfirst, -⟩ := readLines_eq_error_iff.mp hread
    exact ⟨number, fault, hfirst⟩
  | ok lines =>
    rw [assemble_of_lines hread] at h
    obtain ⟨before, ⟨number, instruction⟩, after, -, -, hword⟩ := mapM_eq_error_iff.mp h
    cases instruction with
    | compute dest comp jump => cases hword
    | address operand =>
      rw [wordAmong_address] at hword
      split at hword
      · next address _ =>
        unfold loadWord at hword
        split at hword
        · cases hword
        · exact ⟨number, _, (Except.error.inj hword).symm⟩
      · exact ⟨number, _, (Except.error.inj hword).symm⟩

theorem assemble_eq_error_iff
    (hlt : ∀ lines, readLines source = .ok lines → (instructions lines).length < UInt32.size) :
    assemble source = .error error
      ↔ ∃ number fault, error = .line number fault
          ∧ (FirstRejected source number fault
            ∨ ∃ lines, readLines source = .ok lines ∧ FirstUnloadable lines number fault) := by
  cases hread : readLines source with
  | error first =>
    have hfirst := readLines_eq_error_iff.mp hread
    rw [assemble_of_unreadable hread]
    constructor
    · intro h
      cases h
      obtain ⟨number, fault, rfl, hfirst⟩ := hfirst
      exact ⟨number, fault, rfl, .inl hfirst⟩
    · rintro ⟨number, fault, rfl, hrejected | ⟨lines, hlines, -⟩⟩
      · have herror := readLines_eq_error_iff.mpr ⟨number, fault, rfl, hrejected⟩
        rw [hread] at herror
        exact congrArg Except.error (Except.error.inj herror)
      · cases hlines
  | ok lines =>
    have hlt := hlt lines hread
    rw [assemble_eq_denoted hread hlt, denotation_eq_error_iff hlt]
    constructor
    · rintro ⟨number, fault, rfl, hfirst⟩
      exact ⟨number, fault, rfl, .inr ⟨lines, rfl, hfirst⟩⟩
    · rintro ⟨number, fault, rfl, hrejected | ⟨others, hothers, hfirst⟩⟩
      · have herror := readLines_eq_error_iff.mpr ⟨number, fault, rfl, hrejected⟩
        rw [hread] at herror
        cases herror
      · cases hothers
        exact ⟨number, fault, rfl, hfirst⟩

/-- The error of a source is that of the first line that cannot be read, or else that of the first
address load that has no word. It is never that of an output, nor that of passes that disagree. -/
theorem assemble_error (source : String) :
    (∀ error, assemble source = .error error →
        (∀ stream, error ≠ .stream stream)
          ∧ ∀ counted emitted, error ≠ .countMismatch counted emitted)
      ∧ (∀ lines words run, readLines source = .ok lines →
          AssembleM.encodeLines lines (Assembler.initial.bindLabels lines).2 = .ok words run →
          words.length = (Assembler.initial.bindLabels lines).1)
      ∧ ((∀ lines, readLines source = .ok lines → (instructions lines).length < UInt32.size) →
          ∀ error, assemble source = .error error
            ↔ ∃ number fault, error = .line number fault
                ∧ (FirstRejected source number fault ∨ ∃ lines, readLines source = .ok lines
                  ∧ FirstUnloadable lines number fault)) := by
  refine ⟨?_, ?_, fun hlt error => assemble_eq_error_iff hlt⟩
  · intro error herror
    obtain ⟨number, fault, rfl⟩ := assemble_eq_error herror
    exact ⟨fun _ => by simp, fun _ _ => by simp⟩
  · intro lines words run _ hencode
    rw [AssembleM.length_encodeLines hencode, Assembler.fst_bindLabels]

/-- Two address loads without a word, of which the first one counts. -/
def twoFaults : String := "@i\n(x)\n@40000\n@1x\n"

/-- The lines of `twoFaults`. -/
def twoFaultsLines : List Line :=
  [⟨1, .instruction (.address "i")⟩, ⟨2, .label "x"⟩, ⟨3, .instruction (.address "40000")⟩,
    ⟨4, .instruction (.address "1x")⟩]

theorem assemble_two_faults :
    readLines twoFaults = .ok twoFaultsLines
      ∧ assemble twoFaults = .error (.line 3 (.addressOutOfRange 40000)) := by
  have hread : readLines twoFaults = .ok twoFaultsLines := by decide
  have hlt : ∀ lines, readLines twoFaults = .ok lines →
      (instructions lines).length < UInt32.size := by
    intro lines hlines
    rw [hread] at hlines
    cases hlines
    decide
  have hfault : LoadFault twoFaultsLines ["i"] "40000" (.addressOutOfRange 40000) :=
    .literal (by decide) (by decide) (by decide) (by decide)
  have hfirst : FirstUnloadable twoFaultsLines 3 (.addressOutOfRange 40000) :=
    ⟨[(1, .address "i")], "40000", [(4, .address "1x")], rfl, by decide, hfault⟩
  have herror := (assemble_error twoFaults).2.2 hlt (.line 3 (.addressOutOfRange 40000))
  exact ⟨hread, herror.mpr ⟨3, _, rfl, .inr ⟨twoFaultsLines, hread, hfirst⟩⟩⟩

end Hack
