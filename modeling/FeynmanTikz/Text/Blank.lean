/-
Blank characters, and cutting text at them.

* `isBlank` is white space in the wide sense: every space character of Unicode, the line
  and paragraph separators, and the control characters that separate pieces of text,
* `trim` drops blanks from both ends,
* `words` is the list of maximal runs without blanks, `squeeze` joins it with one space.
-/

namespace FeynmanTikz

/-- Code points of blank characters, as closed ranges in ascending order. -/
def blankRanges : List (Nat × Nat) :=
  [(0x09, 0x0d), (0x1c, 0x20), (0x85, 0x85), (0xa0, 0xa0), (0x1680, 0x1680),
   (0x2000, 0x200a), (0x2028, 0x2029), (0x202f, 0x202f), (0x205f, 0x205f), (0x3000, 0x3000)]

/-- Whether a code point lies in one of the closed ranges. -/
def inRanges (ranges : List (Nat × Nat)) (n : Nat) : Bool :=
  ranges.any fun r => r.1 ≤ n && n ≤ r.2

def isBlank (c : Char) : Bool := inRanges blankRanges c.toNat

/-- The text without blanks at its start. -/
def trimLeft (t : List Char) : List Char := t.dropWhile isBlank

/-- The text without the characters satisfying `p` at its end. -/
def dropEndWhile (p : Char → Bool) (t : List Char) : List Char := (t.reverse.dropWhile p).reverse

/-- The text without blanks at its end. -/
def trimRight (t : List Char) : List Char := dropEndWhile isBlank t

/-- The text without blanks at either end. -/
def trim (t : List Char) : List Char := trimRight (trimLeft t)

/-- Whether the text starts with a character that is not blank. -/
def startsWord : List Char → Bool
  | [] => false
  | c :: _ => !isBlank c

/-- `c` put in front of the first piece. -/
def consFirst (c : Char) : List (List Char) → List (List Char)
  | [] => [[c]]
  | p :: ps => (c :: p) :: ps

/-- The maximal runs of characters that are not blank. -/
def words : List Char → List (List Char)
  | [] => []
  | c :: rest =>
    if isBlank c then words rest
    else if startsWord rest then consFirst c (words rest)
    else [c] :: words rest

/-- The words with one space between them. -/
def squeeze (t : List Char) : List Char := [' '].intercalate (words t)

/-- The text without any blank. -/
def withoutBlanks (t : List Char) : List Char := t.filter (!isBlank ·)

end FeynmanTikz
