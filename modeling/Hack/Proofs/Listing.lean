import Mathlib.Data.List.Forall2
import Hack.Output.Listing
import Hack.Proofs.Reading

/-!
# The text of a listing

A listing has a line of 16 binary digits for each word, and every line ends with a line feed. The
words are read back from it.

* `listing`, `readListing` — a listing as one text, and the words that a listing has
* `exists_numerals` — the lines of a listing
* `size_listing` — a line has 17 bytes
* `readListing_listing` — the words are read back from their listing
* `writeWords_induction` — properties that writing in pieces keeps
-/

namespace Hack

/-- The text of the listing of some words. -/
def listing (words : List Word) : String :=
  String.join (words.map fun word => word.binary ++ "\n")

/-- The words of a listing. -/
def readListing (text : String) : List Word :=
  (Text.lines text.toList).map fun line => UInt16.ofNat (Nat.ofDigitChars 2 line 0)

theorem listing_cons (word : Word) (words : List Word) :
    listing (word :: words) = word.binary ++ "\n" ++ listing words := by
  rw [listing, List.map_cons, String.join_cons]
  rfl

theorem toUTF8_listing_cons (word : Word) (words : List Word) :
    (listing (word :: words)).toUTF8
      = word.binary.toUTF8 ++ "\n".toUTF8 ++ (listing words).toUTF8 := by
  simp only [listing_cons, String.toUTF8_eq_toByteArray, String.toByteArray_append]

/-! ## Lines -/

/-- Characters of one byte make as many bytes as there are characters. -/
theorem Text.size_utf8Encode {text : List Char} (h : ∀ c ∈ text, c.utf8Size = 1) :
    text.utf8Encode.size = text.length := by
  induction text with
  | nil => simp
  | cons c text ih =>
    have hc : [c].utf8Encode.size = 1 := by
      rw [List.utf8Encode_singleton, List.size_toByteArray, String.length_utf8EncodeChar]
      exact h c List.mem_cons_self
    rw [List.utf8Encode_cons, ByteArray.size_append, hc, List.length_cons, Nat.add_comm]
    exact congrArg (· + 1) (ih fun d hd => h d (List.mem_cons_of_mem _ hd))

namespace Word

theorem lineFeed_notMem_binary (word : Word) : '\n' ∉ word.binary.toList := fun hmem =>
  absurd (mem_binary hmem) (by decide)

theorem isBlank_binary (word : Word) : ∀ c ∈ word.binary.toList, Text.isBlank c = false := by
  intro c hmem
  rcases mem_binary hmem with rfl | rfl <;> decide

theorem size_binary (word : Word) : word.binary.toUTF8.size = 16 := by
  have hsize : ∀ c ∈ word.binary.toList, c.utf8Size = 1 := by
    intro c hmem
    rcases mem_binary hmem with rfl | rfl <;> rfl
  have htext : word.binary.toUTF8 = word.binary.toList.utf8Encode := by
    rw [String.toUTF8_eq_toByteArray, ← String.toByteArray_ofList, String.ofList_toList]
  rw [htext, Text.size_utf8Encode hsize, length_binary]

end Word

theorem exists_numerals (words : List Word) :
    ∃ rows : List String, List.Forall₂ Word.IsNumeral words rows
      ∧ listing words = String.join (rows.map (· ++ "\n")) := by
  refine ⟨words.map Word.binary, ?_, ?_⟩
  · rw [List.forall₂_map_right_iff, List.forall₂_same]
    exact fun word _ => word.isNumeral_binary
  · rw [listing, List.map_map]
    rfl

theorem size_listing (words : List Word) : (listing words).toUTF8.size = 17 * words.length := by
  induction words with
  | nil => rfl
  | cons word words ih =>
    have hlineFeed : "\n".toUTF8.size = 1 := rfl
    rw [toUTF8_listing_cons, ByteArray.size_append, ByteArray.size_append, Word.size_binary,
      hlineFeed, ih, List.length_cons]
    omega

/-- The words are read back from their listing, so no other words have the same one. -/
theorem readListing_listing (words : List Word) : readListing (listing words) = words := by
  induction words with
  | nil => rfl
  | cons word words ih =>
    have htext : (listing (word :: words)).toList
        = word.binary.toList ++ '\n' :: (listing words).toList := by
      simp [listing_cons]
    rw [readListing, htext, Text.lines_append_lineFeed word.lineFeed_notMem_binary,
      Text.dropReturn_of_not_blank word.isBlank_binary, List.map_cons, Word.ofDigitChars_binary,
      UInt16.ofNat_toNat]
    exact congrArg (word :: ·) ih

/-! ## Writing -/

/-- Writing at most 16 bytes at a time is all that writing a listing consists of. What holds of such
writes, and is kept where one action follows another, holds of writing the listing. -/
theorem writeWords_induction {σ : Type} [Writer σ] {P : WriteM σ Unit → ByteArray → Prop}
    (hpure : P (pure ()) .empty)
    (hbind : ∀ {first second : WriteM σ Unit} {bytes more : ByteArray}, P first bytes →
      P second more → P (do first; second) (bytes ++ more))
    (hwrite : ∀ bytes : ByteArray, bytes.size ≤ 16 → P (Writer.writeAll bytes) bytes)
    (words : List Word) : P (writeWords words) (listing words).toUTF8 := by
  induction words with
  | nil => exact hpure
  | cons word words ih =>
    have hdigits := hwrite word.binary.toUTF8 (Nat.le_of_eq word.size_binary)
    have hlineFeed := hwrite "\n".toUTF8 (by decide)
    rw [toUTF8_listing_cons]
    exact hbind (hbind hdigits hlineFeed) ih

end Hack
