/-
The text of a label without its math delimiters.

`stripMath` drops dollar signs and blanks from both ends of a text.  A dollar sign or blank
right after the content stays if a backslash escapes it.
-/
import FeynmanTikz.Diagram.Validity

namespace FeynmanTikz

/-- Characters that stand around a formula. -/
def isMathDelimiter (c : Char) : Bool := c == '$' || isBlank c

/-- The text of a value that should be one.  Nothing has no text. -/
def textOf {R : Type} [Arithmetic R] : Value R → List Char
  | .none => []
  | v => v.plain.toList

/-- The content of a text between its math delimiters. -/
def stripMath (t : List Char) : List Char :=
  let t := t.dropWhile isMathDelimiter
  let core := dropEndWhile isMathDelimiter t
  if core.length < t.length && endsInEscape core then t.take (core.length + 1) else core

end FeynmanTikz
