import Hack.Word

/-!
# Mnemonics

The parts of a compute instruction are written as mnemonics in a source and as codes in a word. A
spelling is read by trying a table of mnemonics from top to bottom, and the first that it starts
with is taken. Many mnemonics start with a shorter one, so the longer ones stand above. Printing
does not use that table; each value has a text of its own.

* `spellings_eq` — what is read and what is printed are the same texts
* `read?_eq_some_iff` — a spelling is read as the value whose text it is
* `ofCode?_eq_some_iff` — a code stands for one value at most
-/

namespace Hack

/-- A part of a compute instruction. -/
class Mnemonic (α : Type) where
  /-- The name of the part, as messages spell it. -/
  name : String
  /-- The bits of a word that hold the code. -/
  field : Field
  /-- Every value, in the order of the instruction set. -/
  all : List α
  /-- What a source may spell and what it means, in the order in which it is tried. -/
  spellings : List (String × α)
  /-- How the value is printed; empty for the value that a source leaves out. -/
  text : α → String
  /-- The code of the value in a word. -/
  code : α → Word
  /-- A value is printed as it is spelled. -/
  text_spelled : ∀ entry ∈ spellings, text entry.2 = entry.1
  /-- No spelling is taken for an earlier one that it starts with. -/
  find?_prefix : ∀ entry ∈ spellings,
    (spellings.find? fun other => other.1.toList.isPrefixOf entry.1.toList) = some entry
  find?_code : ∀ a, (all.find? fun b => code b == code a) = some a

namespace Mnemonic

variable {α : Type} [Mnemonic α]

/-- The values that a source spells, in the order in which they are tried. -/
def order : List α := spellings.map (·.2)

/-- The value of the first mnemonic that a spelling starts with, and what follows the mnemonic. -/
def readPrefix? (spelling : List Char) : Option (α × List Char) :=
  (spellings.find? fun entry => entry.1.toList.isPrefixOf spelling).map fun entry =>
    (entry.2, spelling.drop entry.1.toList.length)

/-- The value that is read from a spelling without anything left over. -/
def read? (spelling : List Char) : Option α :=
  match readPrefix? spelling with
  | some (a, []) => some a
  | _ => none

/-- The value that a code stands for. -/
def ofCode? (bits : Word) : Option α := all.find? fun a => code a == bits

/-- A word with the code of the value in its field. -/
def bits (a : α) : Word := (field α).place (code a)

/-- The table holds each value that a source spells beside its printed text. -/
theorem spellings_eq : (spellings : List (String × α)) = order.map fun a => (text a, a) := by
  rw [order, List.map_map]
  refine (List.map_id _).symm.trans (List.map_congr_left fun entry hmem => ?_)
  exact Prod.ext (text_spelled entry hmem).symm rfl

theorem mem_spellings {a : α} (h : a ∈ order) : (text a, a) ∈ spellings := by
  rw [spellings_eq]
  exact List.mem_map_of_mem h

theorem readPrefix?_eq_some {spelling rest : List Char} {a : α}
    (h : readPrefix? spelling = some (a, rest)) :
    a ∈ order ∧ (text a).toList ++ rest = spelling := by
  obtain ⟨entry, hfind, hentry⟩ := Option.map_eq_some_iff.mp h
  cases hentry
  have hmem := List.mem_of_find?_eq_some hfind
  have hprefix : entry.1.toList.isPrefixOf spelling = true := by
    simpa using List.find?_some hfind
  obtain ⟨tail, rfl⟩ := List.isPrefixOf_iff_prefix.mp hprefix
  rw [text_spelled entry hmem, List.drop_left]
  exact ⟨List.mem_map_of_mem hmem, rfl⟩

theorem read?_eq_some_iff {spelling : List Char} {a : α} :
    read? spelling = some a ↔ a ∈ order ∧ (text a).toList = spelling := by
  constructor
  · intro h
    unfold read? at h
    split at h
    · next b hb =>
      cases h
      obtain ⟨hmem, happend⟩ := readPrefix?_eq_some hb
      exact ⟨hmem, by rw [← happend, List.append_nil]⟩
    · cases h
  · rintro ⟨hmem, rfl⟩
    have hread : readPrefix? (text a).toList = some (a, []) := by
      rw [readPrefix?, find?_prefix _ (mem_spellings hmem), Option.map_some, List.drop_length]
    rw [read?, hread]

theorem ofCode?_eq_some_iff {bits : Word} {a : α} :
    ofCode? bits = some a ↔ code a = bits := by
  constructor
  · intro h
    simpa using List.find?_some h
  · rintro rfl
    exact find?_code a

end Mnemonic

end Hack
