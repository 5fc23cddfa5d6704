/-!
# Blank characters

The characters with the Unicode property `White_Space`, and texts without the blanks at their ends.

* `head?_trimStart`, `getLast?_trimEnd` — what is left neither starts nor ends with a blank
* `trim_eq_iff` — trimming takes the blanks at both ends away, and nothing else
* `trim_append_left`, `trim_append_right` — so more blanks at an end make no difference
-/

namespace Hack.Text

/-! ## The property `White_Space` -/

/-- The code points with the property `White_Space`, as ranges in ascending order. -/
def blankRanges : List (Nat × Nat) :=
  [(0x0009, 0x000D), (0x0020, 0x0020), (0x0085, 0x0085), (0x00A0, 0x00A0), (0x1680, 0x1680),
   (0x2000, 0x200A), (0x2028, 0x2029), (0x202F, 0x202F), (0x205F, 0x205F), (0x3000, 0x3000)]

/-- Whether a character has the property `White_Space`. -/
def isBlank (c : Char) : Bool :=
  blankRanges.any fun (first, last) => first ≤ c.toNat && c.toNat ≤ last

/-! ## Texts without the blanks at their ends -/

/-- The text without the blanks at its start. -/
def trimStart (text : List Char) : List Char := text.dropWhile isBlank

/-- The text without the blanks at its end. -/
def trimEnd (text : List Char) : List Char := (text.reverse.dropWhile isBlank).reverse

/-- The text without the blanks at its start and at its end. -/
def trim (text : List Char) : List Char := trimEnd (trimStart text)

@[simp] theorem trim_nil : trim [] = [] := rfl

/-- What `trimStart` leaves does not start with a blank. -/
theorem head?_trimStart (text : List Char) : ∀ c ∈ (trimStart text).head?, isBlank c = false := by
  intro c hc
  have h := List.head?_dropWhile_not isBlank text
  unfold trimStart at hc
  rw [Option.mem_def] at hc
  simpa [hc] using h

/-- What `trimEnd` leaves does not end with a blank. -/
theorem getLast?_trimEnd (text : List Char) :
    ∀ c ∈ (trimEnd text).getLast?, isBlank c = false := by
  intro c hc
  rw [trimEnd, List.getLast?_reverse] at hc
  exact head?_trimStart text.reverse c hc

/-- Whether a text is another one without the blanks at its ends. -/
structure Trims (raw text : List Char) : Prop where
  between : ∃ left right, raw = left ++ text ++ right
    ∧ (∀ c ∈ left, isBlank c = true) ∧ ∀ c ∈ right, isBlank c = true
  head : ∀ c ∈ text.head?, isBlank c = false
  last : ∀ c ∈ text.getLast?, isBlank c = false

theorem trimStart_append {left : List Char} (h : ∀ c ∈ left, isBlank c = true)
    (text : List Char) : trimStart (left ++ text) = trimStart text :=
  List.dropWhile_append_of_pos h

theorem trimStart_eq_self {text : List Char} (h : ∀ c ∈ text.head?, isBlank c = false) :
    trimStart text = text := by
  cases text with
  | nil => rfl
  | cons c rest => exact List.dropWhile_cons_of_neg (by simp [h c rfl])

theorem trimEnd_append {right : List Char} (h : ∀ c ∈ right, isBlank c = true)
    (text : List Char) : trimEnd (text ++ right) = trimEnd text := by
  have hreverse : ∀ c ∈ right.reverse, isBlank c = true := fun c hc => h c (List.mem_reverse.mp hc)
  rw [trimEnd, List.reverse_append, List.dropWhile_append_of_pos hreverse]
  rfl

theorem trimEnd_eq_self {text : List Char} (h : ∀ c ∈ text.getLast?, isBlank c = false) :
    trimEnd text = text := by
  have hreverse : trimStart text.reverse = text.reverse := by
    refine trimStart_eq_self fun c hc => h c ?_
    rwa [List.head?_reverse] at hc
  exact (congrArg List.reverse hreverse).trans (List.reverse_reverse text)

theorem exists_trimEnd_append (text : List Char) :
    ∃ right, text = trimEnd text ++ right ∧ ∀ c ∈ right, isBlank c = true := by
  refine ⟨(text.reverse.takeWhile isBlank).reverse, ?_, ?_⟩
  · rw [trimEnd, ← List.reverse_append, List.takeWhile_append_dropWhile, List.reverse_reverse]
  · intro c hc
    exact List.all_eq_true.mp List.all_takeWhile c (List.mem_reverse.mp hc)

theorem trims_trim (raw : List Char) : Trims raw (trim raw) := by
  obtain ⟨right, hright, hblank⟩ := exists_trimEnd_append (trimStart raw)
  refine ⟨⟨raw.takeWhile isBlank, right, ?_, ?_, hblank⟩, ?_, getLast?_trimEnd _⟩
  · rw [List.append_assoc, trim, ← hright]
    exact List.takeWhile_append_dropWhile.symm
  · exact fun c hc => List.all_eq_true.mp List.all_takeWhile c hc
  · intro c hc
    -- what is left at the end starts where the text without its first blanks starts
    have hc : (trimEnd (trimStart raw)).head? = some c := hc
    refine head?_trimStart raw c ?_
    rw [hright, List.head?_append, hc]
    rfl

theorem trim_eq_iff {raw text : List Char} : trim raw = text ↔ Trims raw text := by
  constructor
  · rintro rfl
    exact trims_trim raw
  · rintro ⟨⟨left, right, rfl, hleft, hright⟩, hhead, hlast⟩
    rw [trim, List.append_assoc, trimStart_append hleft]
    cases text with
    | nil =>
      have hnil := trimStart_append hright []
      rw [List.append_nil] at hnil
      rw [List.nil_append, hnil]
      rfl
    | cons c rest =>
      have hstart : trimStart (c :: rest ++ right) = c :: rest ++ right := trimStart_eq_self hhead
      rw [hstart, trimEnd_append hright, trimEnd_eq_self hlast]

theorem trim_of_not_blank {text : List Char} (h : ∀ c ∈ text, isBlank c = false) :
    trim text = text := by
  have hstart : trimStart text = text :=
    trimStart_eq_self fun c hc => h c (List.mem_of_mem_head? hc)
  have hend : trimEnd text = text := trimEnd_eq_self fun c hc => h c (List.mem_of_getLast? hc)
  rw [trim, hstart, hend]

theorem trim_append_left {left : List Char} (h : ∀ c ∈ left, isBlank c = true)
    (text : List Char) : trim (left ++ text) = trim text := by
  rw [trim, trimStart_append h, trim]

theorem trim_append_right {right : List Char} (h : ∀ c ∈ right, isBlank c = true)
    (text : List Char) : trim (text ++ right) = trim text := by
  obtain ⟨⟨start, rest, htext, hstart, hrest⟩, hhead, hlast⟩ := trims_trim text
  refine trim_eq_iff.mpr ⟨⟨start, rest ++ right, ?_, hstart, ?_⟩, hhead, hlast⟩
  · rw [← List.append_assoc, ← htext]
  · intro c hc
    rcases List.mem_append.mp hc with hc | hc
    · exact hrest c hc
    · exact h c hc

end Hack.Text
