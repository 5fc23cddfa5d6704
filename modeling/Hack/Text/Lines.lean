import Hack.Text.Pieces

/-!
# The lines of a text

A line ends at a line feed. A carriage return directly before the line feed belongs to the line
ending, anywhere else it is an ordinary character; no other character ends a line. What follows the
last line feed is a line if it is not empty.
-/

namespace Hack.Text

/-- A piece that a line feed ended, without the carriage return directly before the line feed. -/
def dropReturn (piece : List Char) : List Char :=
  if piece.getLast? = some '\r' then piece.dropLast else piece

/-- The last piece as lines: nothing follows the last line feed of a text that ends with one. -/
def lastLine (piece : List Char) : List (List Char) :=
  if piece = [] then [] else [piece]

/-- The lines of a text, in order. -/
def lines (text : List Char) : List (List Char) :=
  let pieces := pieces '\n' text
  pieces.dropLast.map dropReturn ++ lastLine (pieces.getLastD [])

end Hack.Text
