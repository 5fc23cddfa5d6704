import Mathlib.Logic.Relation
import Hack.Proofs.Denotation

/-!
# Layout makes no difference

Blanks at the ends of lines, the way in which lines end, empty lines and comments do not change what
a source is assembled to. Lines that are added change the line numbers in errors, and nothing else.

* `assemble_eq_rowWords` — only the rows of a source count, which are its lines without the blanks
  at their ends
* `Relaid` — changes of the layout that add no lines
* `Inserts` — a line more
* `assemble_layout` — what these changes do to the result
-/

namespace Hack

/-! ## Rows -/

namespace Text

/-- What stands between the line feeds of a text, without the blanks at the ends. -/
def rows (text : List Char) : List (List Char) := (pieces '\n' text).map trim

theorem exists_pieces_eq_snoc (text : List Char) :
    ∃ above last, pieces '\n' text = above ++ [last] := by
  rcases List.eq_nil_or_concat' (pieces '\n' text) with hnil | ⟨above, last, hsnoc⟩
  · exact absurd hnil (pieces_ne_nil '\n' text)
  · exact ⟨above, last, hsnoc⟩

theorem exists_pieces_eq_cons (text : List Char) :
    ∃ first below, pieces '\n' text = first :: below :=
  List.exists_cons_of_ne_nil (pieces_ne_nil '\n' text)

theorem isBlank_of_mem_return : ∀ c ∈ ['\r'], isBlank c = true := by
  intro c hc
  rw [List.mem_singleton.mp hc]
  decide

theorem trim_dropReturn (piece : List Char) : trim (dropReturn piece) = trim piece := by
  unfold dropReturn
  split
  · next hlast =>
    have hpiece := List.dropLast_append_getLast? '\r' hlast
    rw [← trim_append_right isBlank_of_mem_return, hpiece]
  · rfl

/-- The lines of a text are its rows, but for a last row without characters. -/
theorem map_trim_lines (text : List Char) :
    (lines text).map trim = rows text ∨ (lines text).map trim ++ [[]] = rows text := by
  obtain ⟨above, last, hpieces⟩ := exists_pieces_eq_snoc text
  have hlines : lines text = above.map dropReturn ++ lastLine last := by
    simp [lines, hpieces]
  have habove : (above.map dropReturn).map trim = above.map trim := by
    rw [List.map_map]
    exact List.map_congr_left fun piece _ => trim_dropReturn piece
  rw [rows, hpieces, hlines, List.map_append, List.map_append, habove, lastLine]
  by_cases hlast : last = []
  · right
    rw [if_pos hlast, hlast]
    simp
  · left
    rw [if_neg hlast]

end Text

/-! ## What rows say -/

namespace Line

/-- Reads a row with its number. -/
def ofRow : List Char × Nat → Except AssembleError Line
  | (row, number) =>
    match Statement.ofText row with
    | .ok statement => .ok ⟨number, statement⟩
    | .error fault => .error (.line number fault)

/-- The line with another number. -/
def renumber (f : Nat → Nat) (line : Line) : Line := ⟨f line.number, line.statement⟩

end Line

/-- The error with another line number. -/
def AssembleError.renumber (f : Nat → Nat) : AssembleError → AssembleError
  | line number fault => line (f number) fault
  | countMismatch counted emitted => countMismatch counted emitted
  | stream error => stream error

open Program

/-- The words of some lines. -/
def lineWords (lines : List Line) : Except AssembleError (List Word) :=
  (instructions lines).mapM ((boundTable lines).wordAmong (instructions lines))

/-- The words of some rows, each with its number. -/
def rowWords (rows : List (List Char × Nat)) : Except AssembleError (List Word) :=
  rows.mapM Line.ofRow >>= lineWords

/-! ## Rows that say nothing -/

/-- Whether a row is empty or a comment. -/
def IsSkipped (row : List Char) : Prop := row = [] ∨ ['/', '/'] <+: row

instance (row : List Char) : Decidable (IsSkipped row) :=
  inferInstanceAs (Decidable (_ ∨ _))

theorem exists_statement_of_isSkipped {row : List Char} (h : IsSkipped row) :
    ∃ statement, Statement.ofText row = .ok statement
      ∧ (statement = .blank ∨ statement = .comment) := by
  rcases h with rfl | ⟨rest, rfl⟩
  · exact ⟨.blank, rfl, .inl rfl⟩
  · exact ⟨.comment, rfl, .inr rfl⟩

theorem lineWords_insert {line : Line}
    (hline : line.statement = .blank ∨ line.statement = .comment) (above below : List Line) :
    lineWords (above ++ line :: below) = lineWords (above ++ below) := by
  have hinstruction : line.instruction? = none := by
    rcases hline with hline | hline <;> rw [Line.instruction?, hline]
  have hbind : ∀ state, Assembler.bindLine state line = state := by
    intro state
    rcases hline with hline | hline <;> rw [Assembler.bindLine, hline]
  have hinstructions : instructions (above ++ line :: below) = instructions (above ++ below) := by
    rw [instructions_append, instructions_cons, hinstruction, instructions_append]
    rfl
  have htable : boundTable (above ++ line :: below) = boundTable (above ++ below) := by
    simp only [boundTable, Assembler.bindLabels, List.foldl_append, List.foldl_cons, hbind]
  rw [lineWords, hinstructions, htable, lineWords]

theorem rowWords_insert {row : List Char} (h : IsSkipped row) (number : Nat)
    (above below : List (List Char × Nat)) :
    rowWords (above ++ (row, number) :: below) = rowWords (above ++ below) := by
  obtain ⟨statement, htext, hsilent⟩ := exists_statement_of_isSkipped h
  have hrow : Line.ofRow (row, number) = .ok ⟨number, statement⟩ := by rw [Line.ofRow, htext]
  unfold rowWords
  rw [List.mapM_append, List.mapM_append, mapM_cons_of_ok hrow]
  cases above.mapM Line.ofRow with
  | error error => rfl
  | ok first =>
    cases below.mapM Line.ofRow with
    | error error => rfl
    | ok second => exact lineWords_insert hsilent first second

/-- Only the rows of a source count. -/
theorem assemble_eq_rowWords (source : String) :
    assemble source = rowWords ((Text.rows source.toList).zipIdx 1) := by
  have hread : readLines source
      = (((Text.lines source.toList).map Text.trim).zipIdx 1).mapM Line.ofRow := by
    rw [readLines, List.zipIdx_map, List.mapM_map]
    rfl
  have hassemble : assemble source
      = rowWords (((Text.lines source.toList).map Text.trim).zipIdx 1) := by
    rw [rowWords, ← hread]
    cases hlines : readLines source with
    | error error => exact assemble_of_unreadable hlines
    | ok lines => exact assemble_of_lines hlines
  rw [hassemble]
  rcases Text.map_trim_lines source.toList with hrows | hrows
  · rw [hrows]
  · -- a last row without characters says nothing
    rw [← hrows, List.zipIdx_append, List.zipIdx_singleton, rowWords_insert (.inl rfl),
      List.append_nil]

/-! ## Other numbers -/

section Renumber

variable (f : Nat → Nat)

theorem instructions_renumber (lines : List Line) :
    instructions (lines.map (Line.renumber f)) = (instructions lines).map (Prod.map f id) := by
  rw [instructions, List.filterMap_map, instructions, List.map_filterMap]
  refine List.filterMap_congr fun line _ => ?_
  obtain ⟨number, statement⟩ := line
  cases statement <;> rfl

theorem loads_renumber (program : List (Nat × Instruction)) :
    loads (program.map (Prod.map f id)) = loads program := by
  rw [loads, List.filterMap_map]
  rfl

theorem labelValue?_renumber (name : String) (lines : List Line) :
    labelValue? name (lines.map (Line.renumber f)) = labelValue? name lines := by
  induction lines with
  | nil => rfl
  | cons line lines ih =>
    obtain ⟨number, statement⟩ := line
    rw [List.map_cons, labelValue?, labelValue?, ih]
    cases statement <;> rfl

theorem boundTable_renumber (lines : List Line) :
    boundTable (lines.map (Line.renumber f)) = boundTable lines := by
  refine SymbolTable.ext_lookup (fun name => ?_) (fun name => ?_) ?_
  · rw [labelAddress?_boundTable, labelAddress?_boundTable, labelValue?_renumber]
  · rw [variableAddress?_boundTable, variableAddress?_boundTable]
  · rw [nextFree_boundTable, nextFree_boundTable]

theorem wordAmong_renumber (table : SymbolTable) (program : List (Nat × Instruction))
    (numbered : Nat × Instruction) :
    table.wordAmong (program.map (Prod.map f id)) (Prod.map f id numbered)
      = ((table.wordAmong program numbered).map id).mapError (AssembleError.renumber f) := by
  obtain ⟨number, instruction⟩ := numbered
  unfold SymbolTable.wordAmong
  rw [loads_renumber]
  cases instruction with
  | compute dest comp jump => rfl
  | address operand =>
    simp only [Prod.map, SymbolTable.word, id]
    cases table.settled (loads program) operand with
    | error fault => rfl
    | ok address =>
      simp only [loadWord]
      split <;> rfl

theorem lineWords_renumber (lines : List Line) :
    lineWords (lines.map (Line.renumber f))
      = (lineWords lines).mapError (AssembleError.renumber f) := by
  rw [lineWords, instructions_renumber, boundTable_renumber,
    mapM_map (wordAmong_renumber f (boundTable lines) (instructions lines)), lineWords]
  cases (instructions lines).mapM ((boundTable lines).wordAmong (instructions lines)) with
  | error error => rfl
  | ok words => exact congrArg Except.ok (List.map_id words)

theorem ofRow_renumber (numbered : List Char × Nat) :
    Line.ofRow (Prod.map id f numbered)
      = ((Line.ofRow numbered).map (Line.renumber f)).mapError (AssembleError.renumber f) := by
  obtain ⟨row, number⟩ := numbered
  simp only [Prod.map, Line.ofRow, id]
  cases Statement.ofText row <;> rfl

/-- With other numbers, rows have the same words, or the same error with another line number. -/
theorem rowWords_renumber (rows : List (List Char × Nat)) :
    rowWords (rows.map (Prod.map id f)) = (rowWords rows).mapError (AssembleError.renumber f) := by
  rw [rowWords, mapM_map (ofRow_renumber f), rowWords]
  cases rows.mapM Line.ofRow with
  | error error => rfl
  | ok lines => exact lineWords_renumber f lines

end Renumber

/-- The number of a line when there is a line more behind the first `count` lines. -/
def shifted (count number : Nat) : Nat := if number ≤ count then number else number + 1

theorem map_shifted_zipIdx (above below : List (List Char)) :
    ((above ++ below).zipIdx 1).map (Prod.map id (shifted above.length))
      = above.zipIdx 1 ++ below.zipIdx (above.length + 2) := by
  have habove : (above.zipIdx 1).map (Prod.map id (shifted above.length)) = above.zipIdx 1 := by
    refine (List.map_congr_left ?_).trans (List.map_id _)
    rintro ⟨row, number⟩ hmem
    obtain ⟨-, hlt, -⟩ := List.mem_zipIdx hmem
    have hle : number ≤ above.length := by omega
    simp [shifted, hle]
  have hbelow : (below.zipIdx (1 + above.length)).map (Prod.map id (shifted above.length))
      = below.zipIdx (above.length + 2) := by
    rw [Nat.add_comm 1, List.zipIdx_succ (i := above.length + 1)]
    refine List.map_congr_left ?_
    rintro ⟨row, number⟩ hmem
    obtain ⟨hle, -, -⟩ := List.mem_zipIdx hmem
    have hgt : ¬ number ≤ above.length := by omega
    simp [shifted, hgt]
  rw [List.zipIdx_append, List.map_append, habove, hbelow]

/-- With a row more that says nothing, the errors of the rows behind it are one line further
down. -/
theorem rowWords_shifted {row : List Char} (h : IsSkipped row) (above below : List (List Char)) :
    rowWords ((above ++ row :: below).zipIdx 1)
      = (rowWords ((above ++ below).zipIdx 1)).mapError
          (AssembleError.renumber (shifted above.length)) := by
  rw [← rowWords_renumber, map_shifted_zipIdx, List.zipIdx_append, List.zipIdx_cons,
    rowWords_insert h]
  congr 3
  omega

/-! ## Changes of the layout -/

namespace Text

variable {before after blanks row : List Char}

/-- Whether nothing but blanks follows the last line feed of a text. -/
def AtLineStart (before : List Char) : Prop :=
  ∀ c ∈ (pieces '\n' before).getLastD [], isBlank c = true

/-- Whether nothing but blanks comes before the first line feed of a text. -/
def AtLineEnd (after : List Char) : Prop :=
  ∀ c ∈ (pieces '\n' after).headD [], isBlank c = true

/-- Whether a text consists of blanks, and none of them is a line feed. -/
def IsMargin (blanks : List Char) : Prop := ∀ c ∈ blanks, isBlank c = true ∧ c ≠ '\n'

instance (before : List Char) : Decidable (AtLineStart before) := List.decidableBAll _ _

instance (after : List Char) : Decidable (AtLineEnd after) := List.decidableBAll _ _

instance (blanks : List Char) : Decidable (IsMargin blanks) := List.decidableBAll _ _

/-- The text with a carriage return before every line feed. -/
def withReturns (text : List Char) : List Char :=
  text.flatMap fun c => if c = '\n' then ['\r', '\n'] else [c]

/-- A text without line feeds between two others is part of the row where they meet. -/
theorem exists_pieces_between (before after : List Char) (hrow : '\n' ∉ row) :
    ∃ above last first below, pieces '\n' before = above ++ [last]
      ∧ pieces '\n' after = first :: below
      ∧ pieces '\n' (before ++ row ++ after) = above ++ (last ++ row ++ first) :: below
      ∧ pieces '\n' (before ++ after) = above ++ (last ++ first) :: below := by
  obtain ⟨above, last, hbefore⟩ := exists_pieces_eq_snoc before
  obtain ⟨first, below, hafter⟩ := exists_pieces_eq_cons after
  have hmiddle := pieces_append hbefore (pieces_of_notMem hrow)
  exact ⟨above, last, first, below, hbefore, hafter, pieces_append hmiddle hafter,
    pieces_append hbefore hafter⟩

/-- Blanks at an end of a line make no difference to the rows. -/
theorem rows_margin (hedge : AtLineStart before ∨ AtLineEnd after) (hmargin : IsMargin blanks) :
    rows (before ++ blanks ++ after) = rows (before ++ after) := by
  have hfeed : '\n' ∉ blanks := fun hmem => (hmargin _ hmem).2 rfl
  have hblank : ∀ c ∈ blanks, isBlank c = true := fun c hmem => (hmargin c hmem).1
  obtain ⟨above, last, first, below, hbefore, hafter, hedited, hjoined⟩ :=
    exists_pieces_between before after hfeed
  have htrim : trim (last ++ blanks ++ first) = trim (last ++ first) := by
    rcases hedge with hstart | hend
    · rw [AtLineStart, hbefore, List.getLastD_concat] at hstart
      rw [List.append_assoc, trim_append_left hstart, trim_append_left hblank,
        trim_append_left hstart]
    · rw [AtLineEnd, hafter, List.headD_cons] at hend
      rw [trim_append_right hend, trim_append_right hblank, trim_append_right hend]
  rw [rows, rows, hedited, hjoined, List.map_append, List.map_append, List.map_cons, List.map_cons,
    htrim]

/-- A piece may get a carriage return at its end, and no other change. -/
theorem pieces_withReturns (text : List Char) :
    List.Forall₂
      (fun piece other => ∃ right, other = piece ++ right ∧ ∀ c ∈ right, isBlank c = true)
      (pieces '\n' text) (pieces '\n' (withReturns text)) := by
  induction text with
  | nil => exact .cons ⟨[], rfl, by simp⟩ .nil
  | cons c text ih =>
    by_cases hc : c = '\n'
    · have hreturn : withReturns (c :: text) = ['\r'] ++ '\n' :: withReturns text := by
        rw [withReturns, List.flatMap_cons, if_pos hc]
        rfl
      rw [hreturn, hc, pieces_cons_separator, pieces_append_separator _ _ _ (by decide)]
      exact .cons ⟨['\r'], rfl, isBlank_of_mem_return⟩ ih
    · have hkeep : withReturns (c :: text) = [c] ++ withReturns text := by
        rw [withReturns, List.flatMap_cons, if_neg hc]
        rfl
      have hpiece : pieces '\n' [c] = [] ++ [[c]] :=
        pieces_of_notMem fun hmem => hc (List.mem_singleton.mp hmem).symm
      obtain ⟨first, below, htext⟩ := exists_pieces_eq_cons text
      obtain ⟨other, others, hreturns⟩ := exists_pieces_eq_cons (withReturns text)
      rw [htext, hreturns] at ih
      cases ih with
      | cons hfirst hbelow =>
        obtain ⟨right, rfl, hright⟩ := hfirst
        rw [hkeep, ← List.singleton_append, pieces_append hpiece htext,
          pieces_append hpiece hreturns]
        exact .cons ⟨right, rfl, hright⟩ hbelow

theorem rows_withReturns (text : List Char) : rows (withReturns text) = rows text := by
  rw [rows, rows, eq_comm, ← List.forall₂_eq_eq_eq, List.forall₂_map_left_iff,
    List.forall₂_map_right_iff]
  refine (pieces_withReturns text).imp ?_
  rintro piece _ ⟨right, rfl, hright⟩
  exact (trim_append_right hright piece).symm

theorem rows_ended (text : List Char) : rows (text ++ ['\n']) = rows text ++ [[]] := by
  obtain ⟨above, last, hpieces⟩ := exists_pieces_eq_snoc text
  have hfeed : pieces '\n' ['\n'] = [] :: [[]] := rfl
  rw [rows, rows, pieces_append hpieces hfeed, hpieces]
  simp

theorem atLineStart_ended (text : List Char) : AtLineStart (text ++ ['\n']) := by
  obtain ⟨above, last, hpieces⟩ := exists_pieces_eq_snoc text
  have hfeed : pieces '\n' ['\n'] = [] :: [[]] := rfl
  rw [AtLineStart, pieces_append hpieces hfeed]
  simp

/-- A line more is a row more. -/
theorem rows_insert (hstart : AtLineStart before) (hrow : '\n' ∉ row) (after : List Char) :
    ∃ above, above.length = before.count '\n' ∧ rows (before ++ after) = above ++ rows after
      ∧ rows (before ++ row ++ '\n' :: after) = above ++ trim row :: rows after := by
  obtain ⟨above, last, hbefore⟩ := exists_pieces_eq_snoc before
  rw [AtLineStart, hbefore, List.getLastD_concat] at hstart
  obtain ⟨first, below, hafter⟩ := exists_pieces_eq_cons after
  have hmiddle := pieces_append hbefore (pieces_of_notMem hrow)
  have hlength := length_pieces '\n' before
  rw [hbefore, List.length_append, List.length_singleton] at hlength
  refine ⟨above.map trim, ?_, ?_, ?_⟩
  · rw [List.length_map, Nat.succ.inj hlength]
  · rw [rows, rows, pieces_append hbefore hafter, hafter, List.map_append, List.map_cons,
      List.map_cons, trim_append_left hstart]
  · rw [rows, rows, pieces_append hmiddle (pieces_cons_separator '\n' after), List.append_nil,
      List.map_append, List.map_cons, trim_append_left hstart]

end Text

open Text

/-- A change of the layout that adds no lines, or an empty one at the end. -/
inductive Relaid : String → String → Prop
  | margin {before blanks after : String}
      (hedge : AtLineStart before.toList ∨ AtLineEnd after.toList)
      (hmargin : IsMargin blanks.toList) : Relaid (before ++ after) (before ++ blanks ++ after)
  | returns (source : String) : Relaid source (String.ofList (withReturns source.toList))
  | ended (source : String) : Relaid source (source ++ "\n")

/-- A line more, behind so many lines: before another line, or at the end of a source, which may
end with a line feed or not. -/
inductive Inserts (line : String) : Nat → String → String → Prop
  | before {before : String} (after : String) (hstart : AtLineStart before.toList) :
      Inserts line (before.toList.count '\n') (before ++ after) (before ++ line ++ "\n" ++ after)
  | last {source : String} (hstart : AtLineStart source.toList) :
      Inserts line (source.toList.count '\n') source (source ++ line)
  | afterLast (source : String) :
      Inserts line (source.toList.count '\n' + 1) source (source ++ "\n" ++ line)

variable {first second source edited line : String} {count : Nat}

theorem assemble_of_rows_eq (h : rows first.toList = rows second.toList) :
    assemble first = assemble second := by
  rw [assemble_eq_rowWords, h, assemble_eq_rowWords]

theorem assemble_ended (source : String) : assemble (source ++ "\n") = assemble source := by
  have hrows : rows (source ++ "\n").toList = rows source.toList ++ [[]] := by
    rw [String.toList_append]
    exact rows_ended source.toList
  rw [assemble_eq_rowWords, hrows, List.zipIdx_append, List.zipIdx_singleton,
    rowWords_insert (.inl rfl), List.append_nil, ← assemble_eq_rowWords]

theorem assemble_of_relaid (h : Relaid first second) : assemble first = assemble second := by
  cases h with
  | margin hedge hmargin =>
    refine assemble_of_rows_eq ?_
    simp only [String.toList_append]
    exact (rows_margin hedge hmargin).symm
  | returns =>
    refine assemble_of_rows_eq ?_
    rw [String.toList_ofList, rows_withReturns]
  | ended => exact (assemble_ended first).symm

/-- With a line more before another line, the errors of the lines behind it are one line further
down. -/
theorem assemble_insert {before : String} (hstart : AtLineStart before.toList)
    (hfeed : '\n' ∉ line.toList) (hskipped : IsSkipped (trim line.toList)) (after : String) :
    assemble (before ++ line ++ "\n" ++ after)
      = (assemble (before ++ after)).mapError
          (AssembleError.renumber (shifted (before.toList.count '\n'))) := by
  obtain ⟨above, hlength, hsource, hedited⟩ := rows_insert hstart hfeed after.toList
  have hlist : (before ++ line ++ "\n" ++ after).toList
      = before.toList ++ line.toList ++ '\n' :: after.toList := by
    simp [String.toList_append]
  rw [assemble_eq_rowWords, hlist, hedited, rowWords_shifted hskipped, hlength, ← hsource,
    ← String.toList_append, ← assemble_eq_rowWords]

theorem assemble_inserts (hfeed : '\n' ∉ line.toList) (hskipped : IsSkipped (trim line.toList))
    (h : Inserts line count source edited) :
    assemble edited = (assemble source).mapError (AssembleError.renumber (shifted count)) := by
  cases h with
  | before after hstart => exact assemble_insert hstart hfeed hskipped after
  | last hstart =>
    have hinsert := assemble_insert hstart hfeed hskipped ""
    rw [String.append_empty, String.append_empty, assemble_ended] at hinsert
    exact hinsert
  | afterLast source =>
    -- the last line may lack its line feed, which makes no difference
    have hlist : (source ++ "\n").toList = source.toList ++ ['\n'] := String.toList_append
    have hstart : AtLineStart (source ++ "\n").toList := by
      rw [hlist]
      exact atLineStart_ended source.toList
    have hinsert := assemble_insert hstart hfeed hskipped ""
    rw [String.append_empty, String.append_empty, assemble_ended, assemble_ended, hlist,
      List.count_append] at hinsert
    exact hinsert

/-- Layout makes no difference to the words of a source or to its error, and lines that say nothing
make none but to the line number of an error behind them. -/
theorem assemble_layout :
    (∀ first second, Relation.EqvGen Relaid first second → assemble first = assemble second)
      ∧ ∀ line count source edited, '\n' ∉ line.toList → IsSkipped (trim line.toList) →
          Inserts line count source edited →
          assemble edited
            = (assemble source).mapError (AssembleError.renumber (shifted count)) := by
  refine ⟨fun first second h => ?_, fun line count source edited hfeed hskipped h =>
    assemble_inserts hfeed hskipped h⟩
  have hsame := (eq_equivalence.comap assemble).eqvGen_iff.mp
    (h.mono fun _ _ hrelaid => assemble_of_relaid hrelaid)
  exact hsame

/-- A source with an error in its second line. -/
def faulty : String := "@i\n" ++ "@40000\n"

/-- The source `faulty` with blanks before the second line. -/
def indented : String := "@i\n" ++ "\t " ++ "@40000\n"

/-- The source `faulty` with a comment before the second line. -/
def commented : String := "@i\n" ++ " // far" ++ "\n" ++ "@40000\n"

theorem assemble_layout_faulty :
    Relation.EqvGen Relaid faulty indented ∧ assemble faulty = assemble indented
      ∧ Inserts " // far" 1 faulty commented
      ∧ assemble commented = (assemble faulty).mapError (AssembleError.renumber (shifted 1))
      ∧ assemble faulty = .error (.line 2 (.addressOutOfRange 40000))
      ∧ assemble commented = .error (.line 3 (.addressOutOfRange 40000)) := by
  have hrelaid : Relation.EqvGen Relaid faulty indented :=
    .rel _ _ (@Relaid.margin "@i\n" "\t " "@40000\n" (by decide) (by decide))
  have hinserts : Inserts " // far" 1 faulty commented :=
    @Inserts.before _ "@i\n" "@40000\n" (by decide)
  have hcommented := assemble_layout.2 _ _ _ _ (by decide) (by decide) hinserts
  have hfaulty : assemble faulty = .error (.line 2 (.addressOutOfRange 40000)) := by decide
  exact ⟨hrelaid, assemble_layout.1 _ _ hrelaid, hinserts, hcommented, hfaulty,
    by rw [hcommented, hfaulty]; rfl⟩

end Hack
