/-
Listing a diagram: one line per element, for people.

Numbers are given with six significant digits, everything else as it is.  `formatElement` writes
one element, `Diagram.listing` all of them, points first.
-/
import FeynmanTikz.Diagram.Basic

namespace FeynmanTikz

variable {R : Type} [Arithmetic R]

/-- Six significant digits.  A text is of the wrong form for that. -/
def shortNumber (v : Value R) : Except (Fault R) String :=
  match v with
  | .text _ => .error (.refused .unformattable)
  | v => do return general (Arithmetic.reading (← v.expectReal))

/-- A position by its first two coordinates. -/
def vecText (v : Value R) : Except (Fault R) String := do
  let x ← shortNumber (← v.item 0)
  let y ← shortNumber (← v.item 1)
  return "(" ++ x ++ ", " ++ y ++ ")"

/-- A colour by its first three components. -/
def colorText (color : Value R) : Except (Fault R) String := do
  match ← color.expectMembers with
  | r :: g :: b :: _ => return "rgb(" ++ r.plain ++ "," ++ g.plain ++ "," ++ b.plain ++ ")"
  | _ => .error .outOfBounds

def pointText (p : Point R) : Except (Fault R) String := do
  return "point #" ++ p.id.plain ++ " at " ++ (← vecText p.position) ++
    " [r=" ++ (← shortNumber p.radius) ++ "]"

/-- The course of an edge; a curve has its control point in the middle. -/
def courseText (e : Edge R) : Except (Fault R) String := do
  let start ← vecText e.start
  if e.kind.isWord "curve" then
    let control ← vecText e.control
    return start ++ " ~" ++ control ++ "~> " ++ (← vecText e.finish)
  else
    return start ++ " -> " ++ (← vecText e.finish)

def styleText (s : Style R) : Except (Fault R) String := do
  return s.strokeKind.plain ++ " " ++ (← colorText s.color) ++
    " width=" ++ (← shortNumber s.strokeWidth) ++ " arrow=" ++ s.arrow.plain

def edgeText (e : Edge R) : Except (Fault R) String := do
  let course ← courseText e
  let style ← styleText (← e.drawn)
  return "edge #" ++ e.id.plain ++ " " ++ e.kind.plain ++ " " ++ course ++ " [" ++ style ++ "]"

def ellipseText (e : Ellipse R) : Except (Fault R) String := do
  return "ellipse #" ++ e.id.plain ++ " at " ++ (← vecText e.center) ++
    " r=(" ++ (← shortNumber e.rx) ++ ", " ++ (← shortNumber e.ry) ++ ") [" ++
    (← colorText e.color) ++ " width=" ++ (← shortNumber e.strokeWidth) ++ "]"

def bindingText (b : Binding R) : Except (Fault R) String := do
  return " [bound to edge #" ++ b.target.plain ++ " " ++ b.anchor.plain ++
    " offset=" ++ (← vecText b.offset) ++ "]"

def labelText (l : Label R) : Except (Fault R) String := do
  let position ← vecText l.position
  let line := "label #" ++ l.id.plain ++ " at " ++ position ++ " \"" ++ l.text.plain ++ "\""
  match ← l.bound? with
  | none => return line
  | some b => return line ++ (← bindingText b)

/-- One line for an element. -/
def formatElement : Element R → Except (Fault R) String
  | .point p => pointText p
  | .edge e => edgeText e
  | .ellipse e => ellipseText e
  | .label l => labelText l

/-- One line for a value that should be an element. -/
def formatElementValue (v : Value R) : Except (Fault R) String :=
  match v with
  | .record "Point" _ | .record "Edge" _ | .record "Ellipse" _ | .record "Label" _ => do
    formatElement (← Element.ofValue v)
  | v => .error (.refused (.unknownElement v))

/-- All elements, one per line. -/
def Diagram.listing (d : Diagram R) : Except (Fault R) String := do
  let lines ← d.elements.mapM formatElement
  return String.join (lines.map (· ++ "\n"))

end FeynmanTikz
