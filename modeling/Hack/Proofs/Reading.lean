import Hack.Assembler.Program
import Hack.Proofs.FirstError

/-!
# Sources that are spelled line by line

A source in which every line spells a statement, and ends with a line feed, reads as these
statements.

* `Text.lines_append_lineFeed` — the first line feed ends the first line
* `readLines_join` — the lines of a source that is spelled line by line
-/

namespace Hack

/-! ## Texts -/

namespace Text

variable {text : List Char}

theorem lines_append_lineFeed {piece : List Char} (h : '\n' ∉ piece) (rest : List Char) :
    lines (piece ++ '\n' :: rest) = dropReturn piece :: lines rest := by
  have hne := pieces_ne_nil '\n' rest
  unfold lines
  rw [pieces_append_separator '\n' piece rest h]
  cases hrest : pieces '\n' rest with
  | nil => exact absurd hrest hne
  | cons first others => rfl

theorem dropReturn_of_not_blank (h : ∀ c ∈ text, isBlank c = false) : dropReturn text = text := by
  refine if_neg fun hlast => ?_
  have hblank := h '\r' (List.mem_of_getLast? hlast)
  exact absurd hblank (by decide)

end Text

/-! ## Lines -/

/-- The lines that say some statements in order, numbered from `first`. -/
def numbered (first : Nat) : List Statement → List Line
  | [] => []
  | statement :: statements => ⟨first, statement⟩ :: numbered (first + 1) statements

theorem numbered_append (first : Nat) (statements others : List Statement) :
    numbered first (statements ++ others)
      = numbered first statements ++ numbered (first + statements.length) others := by
  induction statements generalizing first with
  | nil => rfl
  | cons statement statements ih =>
    rw [List.cons_append, numbered, ih, List.length_cons, Nat.add_right_comm, ← Nat.add_assoc]
    rfl

theorem map_snd_instructions_numbered (first : Nat) (program : List Instruction) :
    (instructions (numbered first (program.map .instruction))).map Prod.snd = program := by
  induction program generalizing first with
  | nil => rfl
  | cons instruction program ih =>
    rw [List.map_cons, numbered, instructions_cons]
    exact congrArg (instruction :: ·) (ih (first + 1))

/-- Whether a text, with a line feed after it, is a line that says the statement. -/
def Spells (text : String) (statement : Statement) : Prop :=
  '\n' ∉ text.toList
    ∧ Statement.ofText (Text.trim (Text.dropReturn text.toList)) = .ok statement

instance (text : String) (statement : Statement) : Decidable (Spells text statement) :=
  inferInstanceAs (Decidable (_ ∧ _))

theorem spells_of_not_blank {text : String} {statement : Statement}
    (hblank : ∀ c ∈ text.toList, Text.isBlank c = false)
    (h : Statement.ofText text.toList = .ok statement) : Spells text statement := by
  refine ⟨fun hmem => absurd (hblank '\n' hmem) (by decide), ?_⟩
  rw [Text.dropReturn_of_not_blank hblank, Text.trim_of_not_blank hblank]
  exact h

theorem mapM_ofChars_join {texts : List String} {statements : List Statement}
    (h : List.Forall₂ Spells texts statements) (first : Nat) :
    (((Text.lines (String.join (texts.map (· ++ "\n"))).toList).zipIdx first).mapM
        fun (raw, number) => Line.ofChars number raw)
      = .ok (numbered first statements) := by
  induction h generalizing first with
  | nil => rfl
  | @cons text statement texts statements htext _ ih =>
    obtain ⟨hlineFeed, hstatement⟩ := htext
    have hsource : (String.join ((text :: texts).map (· ++ "\n"))).toList
        = text.toList ++ '\n' :: (String.join (texts.map (· ++ "\n"))).toList := by
      simp [String.join_cons]
    have hline : Line.ofChars first (Text.dropReturn text.toList) = .ok ⟨first, statement⟩ := by
      rw [Line.ofChars, hstatement]
    rw [hsource, Text.lines_append_lineFeed hlineFeed, List.zipIdx_cons]
    refine (mapM_cons_of_ok (a := (Text.dropReturn text.toList, first)) hline _).trans ?_
    rw [ih (first + 1)]
    rfl

/-- A source that is spelled line by line reads as its statements. -/
theorem readLines_join {texts : List String} {statements : List Statement}
    (h : List.Forall₂ Spells texts statements) :
    readLines (String.join (texts.map (· ++ "\n"))) = .ok (numbered 1 statements) :=
  mapM_ofChars_join h 1

end Hack
