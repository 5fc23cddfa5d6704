import Hack.Proofs.Denotation
import Hack.Proofs.Reading

/-!
# Labels behind more instructions than there are addresses

The number of instructions before a label is narrowed to an address before anything asks whether it
fits into a word. The bits that the address has no room for are not missed: behind `2 ^ 32`
instructions a label has the address of the first one.

* `assemble_overlong` — the words of a program whose label comes back into range
* `label_ne_ok_iff` — when a program with a label out of range is refused all the same
-/

namespace Hack

open Program

variable {name : String}

/-! ## Addresses of labels -/

namespace Program

theorem address?_of_label {lines : List Line} {value : Nat} (hpredefined : predefined? name = none)
    (hlabel : labelValue? name lines = some value) :
    address? lines name = some (UInt32.ofNat value) := by
  rw [address?, value?_of_label hpredefined hlabel, Option.map_some]

theorem loads_label_iff {lines : List Line} {value : Nat} (hpredefined : predefined? name = none)
    (hlabel : labelValue? name lines = some value) :
    Loads lines name ↔ value % UInt32.size ≤ 32767 := by
  have hmax : maxAddress.toNat = 32767 := by decide
  rw [Loads, address?_of_label hpredefined hlabel]
  simp only [Option.some.injEq, exists_eq_left']
  rw [UInt32.le_iff_toNat_le, UInt32.toNat_ofNat', hmax]

end Program

/-- The word of a label that is loaded has the lowest bits of its value. -/
theorem wordAmong_label {lines : List Line} {value number : Nat} {word : Word}
    (hpredefined : predefined? name = none) (hlabel : labelValue? name lines = some value)
    (h : (boundTable lines).wordAmong (instructions lines) (number, .address name) = .ok word) :
    word.toNat = value % UInt32.size := by
  rw [wordAmong_address, address?_of_label hpredefined hlabel] at h
  have hload : loadWord number (UInt32.ofNat value) = .ok word := h
  by_cases hle : UInt32.ofNat value ≤ maxAddress
  · rw [loadWord, if_pos hle] at hload
    cases hload
    rw [Word.toNat_load hle, UInt32.toNat_ofNat']
  · rw [loadWord, if_neg hle] at hload
    cases hload

/-! ## A program that is too long -/

/-- So many instructions, and behind them a label that is loaded at once. -/
def overlong (count : Nat) : String :=
  String.join ((List.replicate count "D=A" ++ ["(L)", "@L"]).map (· ++ "\n"))

/-- The lines before the label. -/
def overlongBody (count : Nat) : List Line :=
  numbered 1 ((List.replicate count (.compute .d .a .null)).map .instruction)

/-- The lines of an overlong program. -/
def overlongLines (count : Nat) : List Line :=
  overlongBody count
    ++ ⟨1 + count, .label "L"⟩ :: [⟨1 + count + 1, .instruction (.address "L")⟩]

theorem readLines_overlong (count : Nat) :
    readLines (overlong count) = .ok (overlongLines count) := by
  have hbody : List.Forall₂ Spells (List.replicate count "D=A")
      ((List.replicate count (.compute .d .a .null)).map .instruction) := by
    induction count with
    | zero => exact .nil
    | succ count ih => exact .cons (by decide) ih
  have hend : List.Forall₂ Spells ["(L)", "@L"] [.label "L", .instruction (.address "L")] :=
    .cons (by decide) (.cons (by decide) .nil)
  rw [overlong, readLines_join (List.rel_append hbody hend), numbered_append, List.length_map,
    List.length_replicate]
  rfl

theorem map_snd_overlongBody (count : Nat) :
    (instructions (overlongBody count)).map Prod.snd
      = List.replicate count (.compute .d .a .null) :=
  map_snd_instructions_numbered 1 _

theorem map_snd_overlongLines (count : Nat) :
    (instructions (overlongLines count)).map Prod.snd
      = List.replicate count (.compute .d .a .null) ++ [.address "L"] := by
  rw [overlongLines, instructions_append, List.map_append, map_snd_overlongBody]
  rfl

theorem length_overlongBody (count : Nat) : (instructions (overlongBody count)).length = count := by
  rw [← List.length_map Prod.snd, map_snd_overlongBody, List.length_replicate]

theorem labelValue?_overlong (count : Nat) :
    labelValue? "L" (overlongLines count) = some count := by
  rw [overlongLines, labelValue?_of_last rfl (by simp), length_overlongBody]

theorem mem_operands_overlong (count : Nat) : "L" ∈ operands (overlongLines count) := by
  rw [overlongLines, operands_append]
  exact List.mem_append_right _ (List.mem_cons_self (a := "L") (l := []))

/-- A label whose value comes back into range is loaded with what comes back. -/
theorem assemble_overlong {count : Nat} (h : count % UInt32.size ≤ 32767) :
    assemble (overlong count)
      = .ok (List.replicate count (Word.compute .d .a .null)
          ++ [UInt16.ofNat (count % UInt32.size)]) := by
  have hlabel := labelValue?_overlong count
  have hpredefined : predefined? "L" = none := by decide
  have hload : ∀ number, (boundTable (overlongLines count)).wordAmong
      (instructions (overlongLines count)) (number, .address "L")
        = .ok (UInt16.ofNat (count % UInt32.size)) := by
    intro number
    obtain ⟨word, hword⟩ := (loads_iff_exists_word number "L").mp
      ((loads_label_iff hpredefined hlabel).mpr h)
    rw [hword, ← wordAmong_label hpredefined hlabel hword, UInt16.ofNat_toNat]
  refine assemble_of_words (readLines_overlong count) ?_
  rw [map_snd_overlongLines]
  -- a compute instruction has its word whatever the table is
  refine List.rel_append ?_ (.cons hload .nil)
  rw [← List.map_replicate (f := fun _ => Word.compute .d .a .null)]
  refine List.forall₂_map_right_iff.mpr (List.forall₂_same.mpr ?_)
  intro instruction hmem number
  rw [List.eq_of_mem_replicate hmem]
  rfl

/-! ## Labels out of range -/

/-- A program in which a label is out of range is refused if what is left of the label's value is
out of range too, or if another operand has no word. Where it is not, the label is replaced by what
is left of its value. -/
theorem label_ne_ok_iff {source : String} {before after : List Line} {declaration : Line}
    (hread : readLines source = .ok (before ++ declaration :: after))
    (hdeclares : declaration.statement = .label name)
    (hlast : ∀ line ∈ after, line.statement ≠ .label name)
    (hpredefined : predefined? name = none)
    (hloaded : name ∈ operands (before ++ declaration :: after))
    (hfar : 32767 < (instructions before).length) :
    ((∀ words, assemble source ≠ .ok words)
        ↔ 32767 < (instructions before).length % UInt32.size
          ∨ ∃ operand ∈ operands (before ++ declaration :: after), operand ≠ name
              ∧ ¬ Loads (before ++ declaration :: after) operand)
      ∧ ∀ words, assemble source = .ok words →
          List.Forall₂
            (fun (_, instruction) word => instruction = .address name →
              word.toNat = (instructions before).length % UInt32.size
                ∧ word.toNat < (instructions before).length)
            (instructions (before ++ declaration :: after)) words := by
  have hlabel : labelValue? name (before ++ declaration :: after)
      = some (instructions before).length :=
    labelValue?_of_last hdeclares hlast
  have hloads := loads_label_iff hpredefined hlabel
  constructor
  · rw [← not_exists, exists_assemble_iff hread]
    constructor
    · intro hrefused
      by_cases hle : (instructions before).length % UInt32.size ≤ 32767
      · refine .inr ?_
        by_contra hothers
        refine hrefused fun operand hoperand => ?_
        by_cases hname : operand = name
        · rw [hname]
          exact hloads.mpr hle
        · by_contra hword
          exact hothers ⟨operand, hoperand, hname, hword⟩
      · exact .inl (Nat.lt_of_not_le hle)
    · rintro (hwrapped | ⟨operand, hoperand, -, hword⟩) hall
      · exact absurd (hloads.mp (hall name hloaded)) (Nat.not_le_of_lt hwrapped)
      · exact hword (hall operand hoperand)
  · intro words hok
    rw [assemble_of_lines hread] at hok
    refine (mapM_eq_ok_iff.mp hok).imp ?_
    rintro ⟨number, instruction⟩ word hword rfl
    have hvalue := wordAmong_label hpredefined hlabel hword
    have hfits := hloads.mp ((loads_iff_exists_word number name).mpr ⟨word, hword⟩)
    exact ⟨hvalue, by omega⟩

/-- Behind `2 ^ 32` instructions a label is loaded as the address of the first one. -/
theorem overlong_wraps :
    readLines (overlong 4294967296) = .ok (overlongLines 4294967296)
      ∧ predefined? "L" = none
      ∧ "L" ∈ operands (overlongLines 4294967296)
      ∧ labelValue? "L" (overlongLines 4294967296) = some 4294967296
      ∧ assemble (overlong 4294967296)
          = .ok (List.replicate 4294967296 (Word.compute .d .a .null) ++ [0]) := by
  refine ⟨readLines_overlong _, by decide, mem_operands_overlong _, labelValue?_overlong _, ?_⟩
  exact assemble_overlong (by decide)

/-- Behind 40000 instructions nothing comes back into range. -/
theorem overlong_refused :
    readLines (overlong 40000) = .ok (overlongLines 40000)
      ∧ predefined? "L" = none
      ∧ "L" ∈ operands (overlongLines 40000)
      ∧ 32767 < (instructions (overlongBody 40000)).length
      ∧ ∀ words, assemble (overlong 40000) ≠ .ok words := by
  have hlength := length_overlongBody 40000
  have hfar : 32767 < (instructions (overlongBody 40000)).length := by
    rw [hlength]
    decide
  have hrefused := (label_ne_ok_iff (readLines_overlong 40000) rfl (by simp) (by decide)
    (mem_operands_overlong 40000) hfar).1
  refine ⟨readLines_overlong _, by decide, mem_operands_overlong _, hfar, hrefused.mpr (.inl ?_)⟩
  rw [hlength]
  decide

end Hack
