/-
Writing a diagram as text.

* `formatNumber`, `formatCoordinate`, `formatLength`, `formatLineWidth`, `tikzColor`: the
  parts of a statement,
* `formatPoint`, `formatEdge`, `formatEllipse`, `formatLabel`: one statement each,
* `Diagram.code`: the statements of a diagram, one per line,
* `Diagram.document`: the whole text, with its header and the picture around the statements.

Design notes.
* The text is canonical: reading it and writing it again gives the same text.
* An arrow in the middle of an edge has no tip to be read back from, so its style is also
  written as a comment after the statement.
* Braces in the text below are given by their code, `\x7b` and `\x7d`.
-/
import FeynmanTikz.Diagram.Basic
import FeynmanTikz.Tikz.LabelText
import FeynmanTikz.Tikz.Units

namespace FeynmanTikz

/-- Text between braces. -/
def inBraces (t : String) : String := "\x7b" ++ t ++ "\x7d"

/-- Lines before every picture. -/
def headerLines : List String :=
  ["% Auto-generated by feynman-ir",
   "% Editable subset: \\draw / \\fill / \\node",
   "% Requires \\usetikzlibrary" ++
     inBraces "decorations.pathmorphing,decorations.markings,arrows.meta"]

def beginPictureLine : String := "\\begin" ++ inBraces pictureEnvironment

def endPictureLine : String := "\\end" ++ inBraces pictureEnvironment

/-- What stands before every statement. -/
def indent : String := "  "

variable {R : Type} [Arithmetic R]

/-- Decimals beyond which no number is written. -/
def maxPrecision : Nat := 2147483647

/-- A number of decimals: a whole number, or its digits in a text. -/
def decimals? : Value R → Option Nat
  | .number (.int n) => if 0 ≤ n then some n.toNat else none
  | .text t =>
    if !t.isEmpty && t.toList.all isDecimalDigit then some (digitsValue t.toList) else none
  | _ => none

/-- A number of decimals that can be written. -/
def expectDecimals (v : Value R) : Except (Fault R) Nat :=
  match decimals? v with
  | some n => if n ≤ maxPrecision then .ok n else .error (.refused .unformattable)
  | none => .error (.refused .unformattable)

/-- Refuses what cannot be written as a number: a text is of the wrong form, anything else but
a number is of the wrong type. -/
def expectWritable (v : Value R) : Except (Fault R) (Scalar R) :=
  match v with
  | .text _ => .error (.refused .unformattable)
  | v => v.expectNumber

/-- A number with the decimals of the format. -/
def formatNumber (codec : Given R (Codec R)) (v : Value R) : Except (Fault R) String := do
  let codec ← codec.settings
  let x ← expectWritable v
  let places ← expectDecimals codec.precision
  let x ← liftArithmetic x.toReal
  return fixed places (Arithmetic.reading x)

/-- A position in text units. -/
def formatCoordinate (codec : Given R (Codec R)) (p : Value R) : Except (Fault R) String := do
  let p ← toTextUnits codec p
  let (x, y) ← p.expectPair
  let x ← formatNumber codec x
  let y ← formatNumber codec y
  return "(" ++ x ++ ", " ++ y ++ ")"

/-- A length in text units, without its sign. -/
def formatLength (codec : Given R (Codec R)) (length : Value R) : Except (Fault R) String := do
  let magnitude ← length.magnitude
  let c ← codec.settings
  formatNumber codec (← (↑magnitude / ↑c.scale : Computed R).result)

/-- Half a stroke width in points, but not less than the least line width. -/
def formatLineWidth (codec : Given R (Codec R)) (width : Value R) : Except (Fault R) String := do
  let c ← codec.settings
  let half ← (↑width / 2 : Computed R).result
  return (← formatNumber codec (← Value.max c.minLineWidth half)) ++ "pt"

/-- A colour by its components, of which there must be three. -/
def tikzColor (color : Value R) : Except (Fault R) String := do
  match ← color.expectMembers with
  | [r, g, b] =>
    return inBraces ("rgb,255:red," ++ r.plain ++ ";green," ++ g.plain ++ ";blue," ++ b.plain)
  | _ => .error (.refused .wrongCount)

/-- Options of a stroke kind; an unknown one has none. -/
def strokeOptions (kind : Value R) : Except (Fault R) (List String) :=
  match kind with
  | .text "dashed" => .ok ["dashed"]
  | .text "dotted" => .ok ["dotted"]
  | .text "wavy" =>
    .ok ["decorate", "decoration=" ++ inBraces "snake, segment length=10pt, amplitude=2pt"]
  | .text "spring" =>
    .ok ["decorate", "decoration=" ++ inBraces "coil, segment length=5pt, amplitude=3pt"]
  | v => do
    let _ ← v.expectKey
    return []

/-- Arrow styles that are also written as a comment. -/
def commentedArrows : List String := ["mid-forward", "mid-backward", "mid-cross"]

/-- Something drawn in the middle of a path after the path itself. -/
def midMark (body : String) : String :=
  "postaction=" ++ inBraces ("decorate, decoration=" ++
    inBraces ("markings, mark=at position 0.5 with " ++ inBraces body))

/-- A point of the cross, in points. -/
def crossPoint (command x y : String) : String :=
  "\\pgfpath" ++ command ++ inBraces ("\\pgfpoint" ++ inBraces x ++ inBraces y)

/-- The two strokes of a cross. -/
def crossMark : String :=
  crossPoint "moveto" "-2pt" "-2pt" ++ crossPoint "lineto" "2pt" "2pt" ++
    crossPoint "moveto" "-2pt" "2pt" ++ crossPoint "lineto" "2pt" "-2pt" ++
    "\\pgfusepath" ++ inBraces "stroke"

/-- Options of an arrow style; an unknown one has none. -/
def arrowOptions (arrow tip : Value R) : List String :=
  let tip := inBraces tip.plain
  match arrow with
  | .text "forward" => ["-" ++ tip]
  | .text "backward" => [tip ++ "-"]
  | .text "both" => [tip ++ "-" ++ tip]
  | .text "mid-forward" => [midMark ("\\arrow" ++ tip)]
  | .text "mid-backward" => [midMark ("\\arrow" ++ tip ++ "[reversed]")]
  | .text "mid-cross" => [midMark crossMark]
  | _ => []

/-- The option list of an edge. -/
def styleOptions (codec : Given R (Codec R)) (s : Style R) : Except (Fault R) String := do
  let color ← tikzColor s.color
  let width ← formatLineWidth codec s.strokeWidth
  let stroke ← strokeOptions s.strokeKind
  let c ← codec.settings
  return Value.commaSeparated (["draw=" ++ color, "line width=" ++ width] ++ stroke ++
    arrowOptions s.arrow c.tipName)

/-- The option list of what should be a style.  An ellipse has a colour and a width like one, but
then no stroke kind. -/
def styleOptionsOf (codec : Given R (Codec R)) (v : Value R) : Except (Fault R) String :=
  match Element.ofValue v with
  | .ok (.ellipse e) => do
    let _ ← tikzColor e.color
    let _ ← formatLineWidth codec e.strokeWidth
    .error .missingField
  | _ => do styleOptions codec (← Style.ofValue v)

def formatPoint (codec : Given R (Codec R)) (p : Point R) : Except (Fault R) String := do
  let c ← codec.settings
  let scaled ← (↑p.radius / ↑c.scale : Computed R).result
  let radius ← Value.max c.minPointRadius scaled
  let position ← formatCoordinate codec p.position
  return "\\fill " ++ position ++ " circle (" ++ (← formatNumber codec radius) ++ ");"

/-- The path of an edge; a curve has its control point in the middle. -/
def formatPath (codec : Given R (Codec R)) (e : Edge R) : Except (Fault R) String := do
  let start ← formatCoordinate codec e.start
  let finish ← formatCoordinate codec e.finish
  if e.isCurve then
    return start ++ " .. controls " ++ (← formatCoordinate codec e.control) ++ " .. " ++ finish
  else
    return start ++ " -- " ++ finish

/-- The comment that carries an arrow style, if it needs one. -/
def arrowComment (codec : Codec R) (arrow : Value R) : String :=
  if isOneOf commentedArrows arrow then " % " ++ codec.arrowKey.plain ++ ": " ++ arrow.plain
  else ""

def formatEdge (codec : Given R (Codec R)) (e : Edge R) : Except (Fault R) String := do
  let path ← formatPath codec e
  let options ← styleOptionsOf codec e.style
  let style ← e.drawn
  let c ← codec.settings
  return "\\draw[" ++ options ++ "] " ++ path ++ ";" ++ arrowComment c style.arrow

def formatEllipse (codec : Given R (Codec R)) (e : Ellipse R) : Except (Fault R) String := do
  let c ← codec.settings
  let color ← tikzColor e.color
  let width ← formatLineWidth codec e.strokeWidth
  let rx ← formatLength codec e.rx
  let ry ← formatLength codec e.ry
  let center ← formatCoordinate codec e.center
  return "\\draw[" ++
    Value.commaSeparated
      ["fill=" ++ c.ellipseFill.plain, "draw=" ++ color, "line width=" ++ width] ++
    "] " ++ center ++ " ellipse (" ++ rx ++ " and " ++ ry ++ ");"

/-- A label at the position where it stands. -/
def formatLabelAt (codec : Given R (Codec R)) (position : Value R) (l : Label R) :
    Except (Fault R) String := do
  let p ← formatCoordinate codec position
  let text := String.ofList (stripMath (textOf l.text))
  return "\\node at " ++ p ++ " " ++ inBraces ("$" ++ text ++ "$") ++ ";"

namespace Diagram

/-- A label of a diagram. -/
def formatLabel (d : Diagram R) (codec : Given R (Codec R)) (l : Label R) : Logged R String := do
  let position ← d.resolve l
  Logged.ofExcept (formatLabelAt codec position l)

/-- The statements of a diagram: points, edges, ellipses, labels. -/
def statements (d : Diagram R) (codec : Given R (Codec R)) : Logged R (List String) := do
  let points ← Logged.ofExcept (d.points.values.mapM fun e => do formatPoint codec (← e.asPoint))
  let edges ← Logged.ofExcept (d.edges.values.mapM fun e => do formatEdge codec (← e.asEdge))
  let ellipses ← Logged.ofExcept
    (d.ellipses.values.mapM fun e => do formatEllipse codec (← e.asEllipse))
  let labels ← d.labels.values.mapM fun e => do d.formatLabel codec (← e.asLabel)
  return points ++ edges ++ ellipses ++ labels

/-- The statements of a diagram, one per line. -/
def code (d : Diagram R) (codec : Given R (Codec R)) : Logged R String := do
  let statements ← d.statements codec
  Logged.record (.diagramWritten d.tally)
  return "\n".intercalate (statements.map (indent ++ ·))

/-- The text of a diagram; without elements there is no line between begin and end. -/
def document (d : Diagram R) (codec : Given R (Codec R)) : Logged R String := do
  let body ← d.code codec
  let body := if body.isEmpty then [] else [body]
  return "\n".intercalate (headerLines ++ [beginPictureLine] ++ body ++ [endPictureLine]) ++ "\n"

end Diagram

end FeynmanTikz
