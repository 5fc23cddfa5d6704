/-!
# The pieces of a text

A separator cuts a text into pieces: what stands before the first one, between two of them and after
the last one. A piece may be empty, and a text without separators is one piece.

* `pieces_append_separator` — cutting after a separator cuts nothing else
* `pieces_append` — where two texts meet, a piece of each become one
* `length_pieces` — there is one piece more than separators
-/

namespace Hack.Text

/-- Puts a character in front of the first piece; a separator starts a new piece instead. -/
def addToPieces (separator c : Char) : List (List Char) → List (List Char)
  | [] => [[c]]
  | piece :: rest => if c = separator then [] :: piece :: rest else (c :: piece) :: rest

/-- The pieces of a text between its separators, one more than it has separators. -/
def pieces (separator : Char) (text : List Char) : List (List Char) :=
  text.foldr (addToPieces separator) [[]]

@[simp] theorem pieces_nil (separator : Char) : pieces separator [] = [[]] := rfl

theorem pieces_ne_nil (separator : Char) (text : List Char) : pieces separator text ≠ [] := by
  cases text with
  | nil => simp
  | cons c rest =>
    unfold pieces addToPieces
    rw [List.foldr_cons]
    split
    · simp
    · split <;> simp

theorem pieces_cons_separator (separator : Char) (text : List Char) :
    pieces separator (separator :: text) = [] :: pieces separator text := by
  have h := pieces_ne_nil separator text
  unfold pieces at h ⊢
  rw [List.foldr_cons]
  generalize List.foldr (addToPieces separator) [[]] text = ps at h ⊢
  cases ps with
  | nil => exact absurd rfl h
  | cons p ps => simp [addToPieces]

/-- A piece without separators followed by a separator is the first piece. -/
theorem pieces_append_separator (separator : Char) (piece rest : List Char)
    (h : separator ∉ piece) :
    pieces separator (piece ++ separator :: rest) = piece :: pieces separator rest := by
  induction piece with
  | nil => exact pieces_cons_separator separator rest
  | cons c piece ih =>
    have hc : c ≠ separator := fun e => h (e ▸ List.mem_cons_self)
    have ih := ih fun m => h (List.mem_cons_of_mem _ m)
    unfold pieces at ih ⊢
    rw [List.cons_append, List.foldr_cons, ih]
    simp [addToPieces, hc]

theorem pieces_of_notMem {separator : Char} {text : List Char} (h : separator ∉ text) :
    pieces separator text = [text] := by
  induction text with
  | nil => rfl
  | cons c text ih =>
    have hc : c ≠ separator := fun e => h (e ▸ List.mem_cons_self)
    have ih := ih fun m => h (List.mem_cons_of_mem _ m)
    unfold pieces at ih ⊢
    rw [List.foldr_cons, ih]
    simp [addToPieces, hc]

/-- Cutting a text does not depend on what follows, but for its last piece. -/
theorem exists_foldr_addToPieces (separator : Char) (text : List Char) :
    ∃ above last, ∀ first below,
      text.foldr (addToPieces separator) (first :: below) = above ++ (last ++ first) :: below := by
  induction text with
  | nil => exact ⟨[], [], fun _ _ => rfl⟩
  | cons c text ih =>
    obtain ⟨above, last, ih⟩ := ih
    by_cases hc : c = separator
    · refine ⟨[] :: above, last, fun first below => ?_⟩
      rw [List.foldr_cons, ih]
      cases above <;> simp [addToPieces, hc]
    · cases above with
      | nil =>
        refine ⟨[], c :: last, fun first below => ?_⟩
        rw [List.foldr_cons, ih]
        simp [addToPieces, hc]
      | cons piece above =>
        refine ⟨(c :: piece) :: above, last, fun first below => ?_⟩
        rw [List.foldr_cons, ih]
        simp [addToPieces, hc]

/-- Where two texts meet, the last piece of one and the first piece of the other become one. -/
theorem pieces_append {separator : Char} {text rest : List Char} {above below : List (List Char)}
    {last first : List Char} (htext : pieces separator text = above ++ [last])
    (hrest : pieces separator rest = first :: below) :
    pieces separator (text ++ rest) = above ++ (last ++ first) :: below := by
  obtain ⟨others, piece, hfoldr⟩ := exists_foldr_addToPieces separator text
  have hsame : others ++ [piece] = above ++ [last] := by
    rw [← htext, pieces, hfoldr, List.append_nil]
  obtain ⟨rfl, hlast⟩ := List.append_inj' hsame rfl
  cases hlast
  unfold pieces at hrest ⊢
  rw [List.foldr_append, hrest, hfoldr]

theorem length_pieces (separator : Char) (text : List Char) :
    (pieces separator text).length = text.count separator + 1 := by
  induction text with
  | nil => rfl
  | cons c text ih =>
    by_cases hc : c = separator
    · rw [hc, pieces_cons_separator, List.length_cons, ih, List.count_cons_self]
    · rw [List.count_cons_of_ne hc, ← ih]
      have hne := pieces_ne_nil separator text
      unfold pieces at hne ⊢
      rw [List.foldr_cons]
      generalize List.foldr (addToPieces separator) [[]] text = ps at hne ⊢
      cases ps with
      | nil => exact absurd rfl hne
      | cons p ps => simp [addToPieces, hc]

end Hack.Text
