/-
Lines of a text.

* `lines` cuts a text at every line boundary: line feed, carriage return, the two together,
  the vertical separators, the next-line character and the two Unicode separators; the
  boundary belongs to no line and a final one opens none,
* `plainNewlines` turns the three customary line ends into line feeds, as happens when a
  file is read as text.
-/
import FeynmanTikz.Text.Blank

namespace FeynmanTikz

/-- Characters that end a line. -/
def isLineBoundary (c : Char) : Bool :=
  [0x0a, 0x0b, 0x0c, 0x0d, 0x1c, 0x1d, 0x1e, 0x85, 0x2028, 0x2029].contains c.toNat

/-- The lines of a text, without their boundaries. -/
def lines : List Char → List (List Char)
  | [] => []
  | '\r' :: '\n' :: rest => [] :: lines rest
  | c :: rest => if isLineBoundary c then [] :: lines rest else consFirst c (lines rest)

/-- The text with `\r\n` and lone `\r` turned into `\n`. -/
def plainNewlines : List Char → List Char
  | [] => []
  | '\r' :: '\n' :: rest => '\n' :: plainNewlines rest
  | c :: rest => (if c = '\r' then '\n' else c) :: plainNewlines rest

end FeynmanTikz
