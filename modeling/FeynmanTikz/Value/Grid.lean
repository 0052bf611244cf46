/-
Grids: rectangular arrays of numbers, and their written form.

* `Grid R`: the cells of an array, the last dimension running fastest,
* `Grid.cellTexts`: the cells as texts of one width, so that columns line up,
* `laidOut`: nested brackets around texts, broken into lines,
* `Grid.written`: the whole written form, `array([1., 2.5])`.

Design notes.
* Numbers of type `R` show the fewest digits that read back, but at most eight after the point.
  All of one array are positional, or all have an exponent if some are too large, too small or
  too far apart.
* A row that is too long for a line goes on below its first cell.
* An array of more than a thousand cells is shown by its corners, and its shape is noted.
-/
import FeynmanTikz.Number.Numeral
import FeynmanTikz.Number.Scalar

namespace FeynmanTikz

/-- What the cells of a grid hold. -/
inductive CellKind where
  | float
  | int
  /-- Whole numbers without a sign, of which at least one needs the bit of the sign. -/
  | natural
  | bool
  /-- Numbers of any type and size. -/
  | mixed
deriving DecidableEq

def CellKind.name : CellKind → String
  | .float => "float64"
  | .int => "int64"
  | .natural => "uint64"
  | .bool => "bool"
  | .mixed => "object"

/-- Kinds that can be told from the cells are not written. -/
def CellKind.isPlain : CellKind → Bool
  | .natural | .mixed => false
  | _ => true

/-- A rectangular array of numbers; `shape` has one entry per dimension, and truth values
are kept as `0` and `1`. -/
structure Grid (R : Type) where
  kind : CellKind
  shape : List Nat
  cells : List (Scalar R)
  /-- Which cells of an array of mixed numbers are truth values; the list may end early. -/
  truths : List Bool := []

/-- The number an array without dimensions is.  A truth value on its own is none. -/
def Grid.single? {R : Type} (g : Grid R) : Option (Scalar R) :=
  if g.shape = [] ∧ g.kind ≠ .bool then g.cells.head? else none

/-- Blanks in front of a text up to some width. -/
def padLeft (width : Nat) (t : List Char) : List Char := List.replicate (width - t.length) ' ' ++ t

/-- Blanks after a text up to some width. -/
def padRight (width : Nat) (t : List Char) : List Char := t ++ List.replicate (width - t.length) ' '

/-- The largest of some lengths. -/
def widest (ts : List (List Char)) : Nat := (ts.map List.length).foldl Nat.max 0

/-- Digits after the point that are shown at most. -/
def shownPlaces : Nat := 8

/-- The two sides of the point. -/
def aroundPoint (t : List Char) : List Char × List Char :=
  (t.takeWhile (· != '.'), (t.dropWhile (· != '.')).drop 1)

/-- A finite number to be shown: its sign, its magnitude and the digits it is written with. -/
structure ShownNumber where
  negative : Bool
  magnitude : Rat
  digits : Digits

namespace ShownNumber

/-- The digits of a magnitude rounded to a multiple of a power of ten. -/
def roundedAt (magnitude : Rat) (shift : Int) : Digits :=
  .ofScaled (nearestInt (magnitude * (10 : Rat) ^ (-shift))).toNat shift

/-- The digits of a magnitude: those of its written form, if that is a numeral. -/
def digitsOf (magnitude : Rat) (text : List Char) : Digits :=
  if magnitude = 0 then ⟨['0'], 0⟩
  else match Numeral.ofText? text with
    | some (.decimal _ n e) => .ofScaled n e
    | _ => roundedAt magnitude (-shownPlaces)

/-- A finite number, by its reading and its written form. -/
def ofReading? (text : List Char) : Reading → Option ShownNumber
  | .finite negative v => some ⟨negative, v.abs, digitsOf v.abs text⟩
  | _ => none

def sign (x : ShownNumber) : List Char := if x.negative then ['-'] else []

/-- What stands before and after the point without an exponent. -/
def positional (x : ShownNumber) : List Char × List Char :=
  let places : Int := (x.digits.digits.length : Int) - 1 - x.digits.exponent
  let digits := if places ≤ shownPlaces then x.digits else roundedAt x.magnitude (-shownPlaces)
  let (whole, fraction) := aroundPoint digits.positional
  (x.sign ++ whole, fraction)

/-- The digits of a number with an exponent. -/
def scientificDigits (x : ShownNumber) : Digits :=
  if x.digits.digits.length ≤ shownPlaces + 1 then x.digits
  else roundedAt x.magnitude (x.digits.exponent - shownPlaces)

end ShownNumber

/-- Whether an array needs exponents for its numbers.  How far these are apart is measured with
the division of `R`. -/
def needsExponents (R : Type) [Arithmetic R] (xs : List ShownNumber) : Bool :=
  match (xs.map (·.magnitude)).filter (· ≠ 0) with
  | [] => false
  | m :: ms =>
    let largest := ms.foldl (fun a b => if a < b then b else a) m
    let smallest := ms.foldl (fun a b => if b < a then b else a) m
    let ratio : R := Arithmetic.ofRat largest / Arithmetic.ofRat smallest
    100000000 ≤ largest || smallest < 1 / 10000 ||
      (Reading.ofInt 1000).lt (Arithmetic.reading ratio)

/-- Columns before and after the point, with room for all numbers of an array. -/
structure PointLayout where
  before : Nat
  after : Nat
  /-- Columns of the digits of an exponent, if there are exponents. -/
  exponent : Option Nat

/-- The digits of an exponent, of which there are at least two. -/
def exponentDigits (e : Int) : List Char :=
  let ds := decimalDigits e.natAbs
  List.replicate (2 - ds.length) '0' ++ ds

/-- The digits after the point of a number with an exponent. -/
def scientificFraction (d : Digits) : List Char := d.digits.drop 1

namespace PointLayout

def ofNumbers (R : Type) [Arithmetic R] (xs : List ShownNumber) : PointLayout :=
  if needsExponents R xs then
    let ds := xs.map ShownNumber.scientificDigits
    let width := widest (ds.map fun d => exponentDigits d.exponent)
    { before := widest (xs.map fun x => x.sign ++ ['0'])
      after := widest (ds.map scientificFraction)
      exponent := some width }
  else
    let sides := xs.map ShownNumber.positional
    { before := widest (sides.map Prod.fst)
      after := widest (sides.map Prod.snd)
      exponent := none }

/-- Columns after the point, an exponent with its mark and sign included. -/
def tail (l : PointLayout) : Nat :=
  match l.exponent with
  | some width => l.after + 2 + width
  | none => l.after

/-- More columns before the point if a word would not fit otherwise. -/
def roomFor (l : PointLayout) (word : List Char) : PointLayout :=
  { l with before := Nat.max l.before (word.length - (l.tail + 1)) }

def text (l : PointLayout) (x : ShownNumber) : List Char :=
  match l.exponent with
  | some width =>
    let d := x.scientificDigits
    let fraction := scientificFraction d
    let e := exponentDigits d.exponent
    padLeft l.before (x.sign ++ d.digits.take 1) ++ '.' :: fraction ++
      List.replicate (l.after - fraction.length) '0' ++
      'e' :: (if d.exponent < 0 then '-' else '+') :: List.replicate (width - e.length) '0' ++ e
  | none =>
    let (whole, fraction) := x.positional
    padLeft l.before whole ++ '.' :: padRight l.after fraction

end PointLayout

section

variable {R : Type} [Arithmetic R]

/-- Numbers of type `R` lined up at their points; other words are flush right. -/
def alignedNumbers (xs : List (Scalar R)) : List (List Char) :=
  let shown := xs.map fun x => (x.text.toList, ShownNumber.ofReading? x.text.toList x.reading)
  let words := (shown.filter (·.2.isNone)).map (·.1)
  let l := words.foldl PointLayout.roomFor (.ofNumbers R (shown.filterMap (·.2)))
  shown.map fun
    | (_, some x) => l.text x
    | (word, none) => padLeft (l.before + 1 + l.tail) word

/-- The word for a truth value that is kept as a number. -/
def truthWord (x : Scalar R) : String := if x.reading.isZero then "False" else "True"

/-- Numbers, and words where there are truth values. -/
def mixedWords : List (Scalar R) → List Bool → List String
  | [], _ => []
  | x :: xs, [] => x.text :: mixedWords xs []
  | x :: xs, t :: ts => (if t then truthWord x else x.text) :: mixedWords xs ts

/-- The words for all cells. -/
def Grid.words (g : Grid R) : List String :=
  match g.kind with
  | .bool => g.cells.map truthWord
  | .mixed => mixedWords g.cells g.truths
  | _ => g.cells.map Scalar.text

/-- The cells as texts of one width. -/
def Grid.cellTexts (g : Grid R) : List (List Char) :=
  match g.kind with
  | .float => alignedNumbers g.cells
  | .int | .natural =>
    let ts := g.words.map String.toList
    ts.map (padLeft (widest ts))
  | .mixed => g.words.map String.toList
  | .bool => g.words.map fun t => padLeft (if g.shape.isEmpty then 0 else 5) t.toList

end

/-- The longest line of a written form. -/
def lineWidth : Nat := 75

/-- Blanks at the start of a line. -/
def blanks (n : Nat) : List Char := List.replicate n ' '

/-- Adds a word to a line, or to a new one if it does not fit.  The first part of the result is
the lines before, the second the line itself. -/
def extended (indent width : Nat) (word : List Char) (lines : List Char × List Char) :
    List Char × List Char :=
  if width < lines.2.length + word.length ∧ indent < lines.2.length then
    (lines.1 ++ trimRight lines.2 ++ ['\n'], blanks indent ++ word)
  else (lines.1, lines.2 ++ word)

/-- Words with commas between them, in lines that begin with the same blanks. -/
def wrapped (indent width : Nat) (lines : List Char × List Char) : List (List Char) → List Char
  | [] => lines.1 ++ lines.2
  | [word] =>
    let (before, line) := extended indent width word lines
    before ++ line
  | word :: rest =>
    let (before, line) := extended indent width word lines
    wrapped indent width (before, line ++ [',', ' ']) rest

/-- A list cut into `count` pieces of one width. -/
def pieces {α : Type} (width : Nat) : (count : Nat) → List α → List (List α)
  | 0, _ => []
  | n + 1, xs => xs.take width :: pieces width n (xs.drop width)

/-- Cells of the largest array that is shown in full. -/
def shownCells : Nat := 1000

/-- Items that are shown at either end of a dimension of a larger array. -/
def edgeItems : Nat := 3

/-- Whether a dimension of some length loses its middle. -/
def losesMiddle (n : Nat) : Bool := 2 * edgeItems < n

/-- The items at both ends, or all of them if that is as much. -/
def ends {α : Type} (xs : List α) : List α :=
  if losesMiddle xs.length then xs.take edgeItems ++ xs.drop (xs.length - edgeItems) else xs

/-- The cells at both ends of every dimension. -/
def corners {α : Type} : (shape : List Nat) → List α → List α
  | [], xs => xs
  | n :: shape, xs => (ends (pieces (shape.foldl (· * ·) 1) n xs)).flatMap (corners shape)

/-- A dimension as it is shown: how many items, and whether some are missing in the middle. -/
structure ShownAxis where
  count : Nat
  gap : Bool

/-- The dimensions of an array that is shown in full or by its corners. -/
def shownAxes (inFull : Bool) (shape : List Nat) : List ShownAxis :=
  shape.map fun n =>
    if !inFull && losesMiddle n then ⟨2 * edgeItems, true⟩ else ⟨n, false⟩

/-- Dots in the place of what is missing. -/
def withGap (gap : Bool) (ts : List (List Char)) : List (List Char) :=
  if gap then ts.take edgeItems ++ ['.', '.', '.'] :: ts.drop edgeItems else ts

/-- Texts in nested brackets, one pair for each dimension.  Rows stand on lines of their own. -/
def laidOut (indent width : Nat) : List ShownAxis → List (List Char) → List Char
  | [], ts => ts.flatten
  | [a], ts =>
    '[' :: (wrapped indent (width - 1) ([], blanks indent) (withGap a.gap ts)).drop indent ++ [']']
  | a :: axes, ts =>
    let parts := pieces ((axes.map ShownAxis.count).foldl (· * ·) 1) a.count ts
    let separator := ',' :: List.replicate axes.length '\n' ++ blanks indent
    '[' :: separator.intercalate
      (withGap a.gap (parts.map (laidOut (indent + 1) (width - 1) axes))) ++ [']']

/-- What the written form of an array begins with. -/
def arrayOpening : List Char := "array(".toList

/-- The shape of an array between parentheses; a single dimension is followed by a comma. -/
def shapeText : List Nat → String
  | [n] => "(" ++ toString n ++ ",)"
  | ns => "(" ++ ", ".intercalate (ns.map toString) ++ ")"

namespace Grid

variable {R : Type}

/-- Whether every cell is shown. -/
def isShownInFull (g : Grid R) : Bool := g.cells.length ≤ shownCells

/-- The cells that are shown. -/
def shown (g : Grid R) : Grid R :=
  if g.isShownInFull then g
  else { g with cells := corners g.shape g.cells, truths := corners g.shape g.truths }

/-- What the cells that are shown do not tell: the shape of an array without cells or with
missing ones, and the kind of the cells. -/
def notes (g : Grid R) : List String :=
  (if g.cells.isEmpty && g.shape ≠ [0] || !g.isShownInFull then ["shape=" ++ shapeText g.shape]
    else []) ++
  (if g.cells.isEmpty || !g.kind.isPlain then ["dtype=" ++ g.kind.name] else [])

/-- The written form up to the notes. -/
def body [Arithmetic R] (g : Grid R) : List Char :=
  arrayOpening ++
    if g.cells.isEmpty then ['[', ']']
    else laidOut (arrayOpening.length + 1) (lineWidth - 1) (shownAxes g.isShownInFull g.shape)
      g.shown.cellTexts

/-- Notes after a written form, on a line of their own if they do not fit. -/
def withNotes (body : List Char) : (notes : List String) → List Char
  | [] => body ++ [')']
  | notes =>
    let note := (", ".intercalate notes).toList ++ [')']
    let line := (body.reverse.takeWhile (· != '\n')).length + 1
    let space := if lineWidth < line + note.length + 1 then '\n' :: blanks arrayOpening.length
      else [' ']
    body ++ ',' :: space ++ note

/-- The whole written form. -/
def written [Arithmetic R] (g : Grid R) : String := String.ofList (withNotes g.body g.notes)

end Grid

end FeynmanTikz
